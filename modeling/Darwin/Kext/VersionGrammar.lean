import Darwin.Kext.Version

/-! The grammar of version strings, and which texts `VERS_parse_string` takes. -/
open List Option Nat UInt8
namespace Darwin.Kext.Vers

/-- The stages in their order; a candidate is written with one letter or two. -/
inductive Letters
  | d | a | b | f | fc
  deriving DecidableEq,Repr

def Letters.spelled : Letters → List Char
  | .d => ['d']
  | .a => ['a']
  | .b => ['b']
  | .f => ['f']
  | .fc => ['f','c']

def Letters.isCandidate : Letters → Bool
  | .f | .fc => true
  | _ => false

def Letters.rank : Letters → ℕ
  | .d => 0
  | .a => 1
  | .b => 2
  | .f | .fc => 3

def digitChar (d : Fin 10) : Char := bcdCharForDigit (ofNat d.val)

def valueFrom (revisionNum : ℕ) (digits : List (Fin 10)) : ℕ :=
  digits.foldl (fun n d => n*10+d.val) revisionNum

/-- A stage with its revision, of one to three digits. -/
structure Stage where
  letters : Letters
  digits : List (Fin 10)
  some_digit : digits≠[]
  length_le : digits.length≤3
  value_le : valueFrom 0 digits≤255
  candidate_pos : letters.isCandidate=true → 0<valueFrom 0 digits

def Stage.revision (stage : Stage) : ℕ := valueFrom 0 stage.digits

def Stage.spelled (stage : Stage) : List Char :=
  stage.letters.spelled++stage.digits.map digitChar

/-- A version string: a major number of one or two digits, and what there is behind it. -/
structure VersionText where
  major : Fin 10
  major2 : Option (Fin 10)
  minor : Option (Fin 10 × Option (Fin 10))
  stage : Option Stage

namespace VersionText

def majorNumber (v : VersionText) : ℕ :=
  match v.major2 with
  | none => v.major.val
  | some d => v.major.val*10+d.val

def minorNumber (v : VersionText) : ℕ :=
  match v.minor with
  | none => 0
  | some (d,_) => d.val

def bugfixNumber (v : VersionText) : ℕ :=
  match v.minor with
  | some (_,some d) => d.val
  | _ => 0

def stageRank (v : VersionText) : ℕ :=
  match v.stage with
  | none => 4
  | some stage => stage.letters.rank

def revisionNumber (v : VersionText) : ℕ :=
  match v.stage with
  | none => 0
  | some stage => stage.revision

def minorSpelled : Option (Fin 10 × Option (Fin 10)) → List Char
  | none => []
  | some (d,none) => ['.',digitChar d]
  | some (d,some e) => ['.',digitChar d,'.',digitChar e]

def stageSpelled : Option Stage → List Char
  | none => []
  | some stage => stage.spelled

def spelled (v : VersionText) : List Char :=
  digitChar v.major::((v.major2.toList.map digitChar)++minorSpelled v.minor ++ stageSpelled v.stage)

def fields (v : VersionText) : ℕ ×ₗ ℕ ×ₗ ℕ ×ₗ ℕ ×ₗ ℕ :=
  toLex (v.majorNumber,toLex (v.minorNumber,toLex (v.bugfixNumber,
    toLex (v.stageRank,v.revisionNumber))))

end VersionText

/-- The bytes of a stage: the revision of a candidate is counted from 0 in the release's byte. -/
def stageBytes : Option Stage → UInt8 × UInt8
  | none => (release,0xff)
  | some stage =>
    match stage.letters with
    | .d => (development,ofNat stage.revision)
    | .a => (alpha,ofNat stage.revision)
    | .b => (beta,ofNat stage.revision)
    | .f => (release,ofNat stage.revision-1)
    | .fc => (release,ofNat stage.revision-1)

def Version.staged (vers : Version) (stage : Option Stage) : Version :=
  {vers with byte2 := (stageBytes stage).1,byte3 := (stageBytes stage).2}

/-- The number that a version string stands for: the digits of the version, packed in two bytes,
and the stage. -/
def VersionText.number (v : VersionText) : Version :=
  Version.staged ⟨ofNat (v.majorNumber/10*16+v.majorNumber%10),
    ofNat (v.minorNumber*16+v.bugfixNumber),0,0⟩ v.stage

/-! ### Digits -/

lemma isdigit_digitChar : ∀ d : Fin 10,isdigit (digitChar d)=true := by decide

lemma bcdDigitForChar_digitChar :
    ∀ d : Fin 10,bcdDigitForChar (digitChar d)=ofNat d.val := by decide

lemma digit_ne_bcdIllegal : ∀ d : Fin 10,ofNat d.val≠bcdIllegal := by decide

lemma toNat_digit : ∀ d : Fin 10,(ofNat d.val).toNat=d.val := by decide

lemma exists_digitChar_of_bcd {c : Char} (h : bcdDigitForChar c≠bcdIllegal) :
    ∃ d : Fin 10,c=digitChar d := by
  unfold bcdDigitForChar at h
  split at h
  · exact ⟨0,rfl⟩
  · exact ⟨1,rfl⟩
  · exact ⟨2,rfl⟩
  · exact ⟨3,rfl⟩
  · exact ⟨4,rfl⟩
  · exact ⟨5,rfl⟩
  · exact ⟨6,rfl⟩
  · exact ⟨7,rfl⟩
  · exact ⟨8,rfl⟩
  · exact ⟨9,rfl⟩
  · exact absurd rfl h

lemma exists_digitChar {c : Char} (h : isdigit c=true) : ∃ d : Fin 10,c=digitChar d := by
  have hrange : 48≤c.toNat ∧ c.toNat≤57 := by
    simp only [isdigit,Char.isDigit,Bool.and_eq_true,decide_eq_true_eq,ge_iff_le] at h
    exact ⟨UInt32.le_iff_toNat_le.mp h.1,UInt32.le_iff_toNat_le.mp h.2⟩
  have hall : ∀ d : Fin 10,digitChar d=Char.ofNat (48+d.val) := by decide
  refine ⟨⟨c.toNat-48,by omega⟩,?_⟩
  rw [hall,show 48+(c.toNat-48)=c.toNat by omega,Char.ofNat_toNat]

/-! ### Stages -/

def Letters.code : Letters → UInt8
  | .d => development
  | .a => alpha
  | .b => beta
  | .f | .fc => candidate

lemma Letters.code_ne (letters : Letters) : letters.code≠invalid ∧ letters.code≠release ∧
      (letters.code=candidate ↔ letters.isCandidate=true) := by
  cases letters <;> decide

lemma revisionForString_spelled (letters : Letters) {rest : List Char}
    (hrest : isdigitAt rest=true) :
    revisionForString (letters.spelled++rest)=(letters.code,rest) := by
  cases letters with
  | d => simp [revisionForString,Letters.spelled,Letters.code,hrest,isspace]
  | a => simp [revisionForString,Letters.spelled,Letters.code,hrest,isspace]
  | b => simp [revisionForString,Letters.spelled,Letters.code,hrest,isspace]
  | f => simp [revisionForString,Letters.spelled,Letters.code,hrest,isspace]
  | fc =>
    have hc : isdigitAt ('c' :: rest)=false := (by decide : isdigit 'c'=false)
    simp [revisionForString,Letters.spelled,Letters.code,hrest,isspace,hc]

lemma revisionForString_valid {c : Char} {rest : List Char} (hc : isreleasestate c=true)
    (h : (revisionForString (c::rest)).1≠invalid) :
    ∃ letters text,c::rest=Letters.spelled letters++text ∧ isdigitAt text=true := by
  simp only [isreleasestate,decide_eq_true_eq] at hc
  rcases hc with rfl | rfl | rfl | rfl
  · by_cases hrest : isdigitAt rest=true
    · exact ⟨.d,rest,rfl,hrest⟩
    · simp [revisionForString,isspace,hrest] at h
  · by_cases hrest : isdigitAt rest=true
    · exact ⟨.a,rest,rfl,hrest⟩
    · simp [revisionForString,isspace,hrest] at h
  · by_cases hrest : isdigitAt rest=true
    · exact ⟨.b,rest,rfl,hrest⟩
    · simp [revisionForString,isspace,hrest] at h
  · by_cases hrest : isdigitAt rest=true
    · exact ⟨.f,rest,rfl,hrest⟩
    · by_cases hcandidate : rest.head?=some 'c' ∧ isdigitAt rest.tail=true
      · obtain ⟨hhead,htail⟩ := hcandidate
        obtain ⟨text,rfl⟩ := head?_eq_some_iff.mp hhead
        exact ⟨.fc,text,rfl,htail⟩
      · simp [revisionForString,isspace,hrest,hcandidate] at h

lemma revisionLoop_eq_some {left revisionNum value : ℕ} {text rest : List Char} :
    revisionLoop left revisionNum text=some (value,rest) ↔
      ∃ digits : List (Fin 10),text=digits.map digitChar++rest ∧
        value=valueFrom revisionNum digits ∧ digits.length≤left ∧
        (rest≠[] → digits.length=left) := by
  induction left generalizing revisionNum text with
  | zero =>
    rw [revisionLoop]
    constructor
    · intro h
      cases h
      exact ⟨[],rfl,rfl,le_rfl,fun _ => rfl⟩
    · rintro ⟨digits,rfl,rfl,hlength,-⟩
      obtain rfl := length_eq_zero_iff.mp (le_zero.mp hlength)
      rfl
  | succ left ih =>
    cases text with
    | nil =>
      rw [revisionLoop]
      constructor
      · intro h
        cases h
        exact ⟨[],rfl,rfl,by simp,fun h => absurd rfl h⟩
      · rintro ⟨digits,htext,rfl,-,-⟩
        obtain ⟨hdigits,rfl⟩ := append_eq_nil_iff.mp htext.symm
        obtain rfl := map_eq_nil_iff.mp hdigits
        rfl
    | cons c text =>
      rw [revisionLoop]
      constructor
      · intro h
        split at h
        · cases h
        · next hc =>
          obtain ⟨d,rfl⟩ := exists_digitChar_of_bcd hc
          rw [bcdDigitForChar_digitChar,toNat_digit] at h
          obtain ⟨digits,rfl,rfl,hlength,hall⟩ := ih.mp h
          exact ⟨d::digits,rfl,rfl,by simpa using hlength,fun hrest => by simp [hall hrest]⟩
      · rintro ⟨digits,htext,rfl,hlength,hall⟩
        cases digits with
        | nil =>
          rw [map_nil,nil_append] at htext
          exact absurd (hall (by simp [←htext])) (by simp)
        | cons d digits =>
          rw [map_cons,cons_append,List.cons.injEq] at htext
          obtain ⟨rfl,rfl⟩ := htext
          rw [bcdDigitForChar_digitChar,if_neg (digit_ne_bcdIllegal d),toNat_digit]
          exact ih.mpr ⟨digits,rfl,rfl,by simpa using hlength,fun hrest => by simpa using hall hrest⟩

/-- What may follow behind the stage: behind three digits of a revision, anything but a digit. -/
def Follows : Option Stage → List Char → Prop
  | none,tail => tail=[]
  | some stage,tail => isdigitAt tail=false ∧ (tail≠[] → stage.digits.length=3)

lemma isdigitAt_map {digits : List (Fin 10)} (h : digits≠[]) (tail : List Char) :
    isdigitAt (digits.map digitChar++tail)=true := by
  obtain ⟨d,digits,rfl⟩ := exists_cons_of_ne_nil h
  exact isdigit_digitChar d

lemma Stage.spelled_eq_cons (stage : Stage) :
    ∃ c rest,stage.spelled=c::rest ∧ isreleasestate c=true := by
  obtain ⟨letters,digits,-⟩ := stage
  cases letters with
  | d => exact ⟨'d',_,rfl,rfl⟩
  | a => exact ⟨'a',_,rfl,rfl⟩
  | b => exact ⟨'b',_,rfl,rfl⟩
  | f => exact ⟨'f',_,rfl,rfl⟩
  | fc => exact ⟨'f',_,rfl,rfl⟩

lemma releaseState_spelled (vers : Version) (stage : Stage) {tail : List Char}
    (htail : Follows (some stage) tail) :
    releaseState vers (stage.spelled++tail)=some (vers.staged (some stage)) := by
  obtain ⟨c,rest,hspelled,-⟩ := stage.spelled_eq_cons
  have hdigits := isdigitAt_map stage.some_digit tail
  obtain ⟨hinvalid,hrelease,hcandidate⟩ := stage.letters.code_ne
  have hloop : revisionLoop 3 0 (stage.digits.map digitChar++tail)=some (stage.revision,tail) :=
    revisionLoop_eq_some.mpr ⟨stage.digits,rfl,rfl,stage.length_le,htail.2⟩
  have hsmall : ¬255<stage.revision := not_lt.mpr stage.value_le
  rw [releaseState,if_neg (by simp [hspelled]),Stage.spelled,append_assoc,
    revisionForString_spelled _ hdigits]
  simp only [if_neg hinvalid,if_neg hrelease,hdigits,hloop,htail.1,hsmall]
  by_cases hletters : stage.letters.isCandidate=true
  · have hpos := stage.candidate_pos hletters
    have hzero : stage.revision≠0 := pos_iff_ne_zero.mp hpos
    simp only [hcandidate.mpr hletters,hzero]
    cases hname : stage.letters <;> simp_all [Version.staged,stageBytes,Letters.isCandidate]
  · have hcode : stage.letters.code≠candidate := fun h => hletters (hcandidate.mp h)
    simp only [hcode]
    cases hname : stage.letters <;>
      simp_all [Version.staged,stageBytes,Letters.isCandidate,Letters.code]

variable {vers n : Version} {text : List Char}

lemma exists_stage_of_releaseState {c : Char} {rest : List Char}
    (hc : isreleasestate c=true) (h : releaseState vers (c::rest)=some n) :
    ∃ stage tail,c::rest=Stage.spelled stage++tail ∧ Follows (some stage) tail := by
  rw [releaseState,if_neg (by simp)] at h
  by_cases hvalid : (revisionForString (c::rest)).1=invalid
  · simp [hvalid] at h
  · obtain ⟨letters,text,htext,hdigit⟩ := revisionForString_valid hc hvalid
    obtain ⟨hinvalid,hrelease,hcandidate⟩ := letters.code_ne
    rw [htext,revisionForString_spelled letters hdigit] at h
    simp only [if_neg hinvalid,if_neg hrelease,hdigit] at h
    cases hloop : revisionLoop 3 0 text with
    | none => simp [hloop] at h
    | some result =>
      obtain ⟨value,tail⟩ := result
      simp only [hloop] at h
      obtain ⟨digits,rfl,rfl,hlength,hall⟩ := revisionLoop_eq_some.mp hloop
      by_cases hbad : isdigitAt tail=true ∨ 255<valueFrom 0 digits
      · simp [hbad] at h
      · rw [not_or,Bool.not_eq_true,not_lt] at hbad
        have hsome : digits≠[] := by
          rintro rfl
          rw [map_nil,nil_append,hbad.1] at hdigit
          cases hdigit
        have hpos : letters.isCandidate=true → 0<valueFrom 0 digits := by
          intro hletters
          rw [pos_iff_ne_zero]
          intro hzero
          simp [hbad.1,hzero,hcandidate.mpr hletters] at h
        refine ⟨⟨letters,digits,hsome,hlength,hbad.2,hpos⟩,tail,?_,hbad.1,hall⟩
        rw [htext,Stage.spelled,append_assoc]

/-! ### The whole text -/

/-- A dot may follow the last number before the stage, if there is room for another number and no
stage comes. -/
def DotFollows (minor : Option (Fin 10 × Option (Fin 10))) (stage : Option Stage)
    (tail : List Char) : Prop :=
  tail=['.'] ∧ stage=none ∧ ∀ d e,minor≠some (d,some e)

lemma staged_none (vers : Version) : vers.staged none=vers.final := rfl

lemma afterNumber_eq_some {dot : List Char → Option Version} : afterNumber dot vers text=some n ↔
      (∃ stage tail,text=VersionText.stageSpelled stage++tail ∧ Follows stage tail ∧
        n=vers.staged stage) ∨ ∃ rest,text = '.' :: rest ∧ dot rest=some n := by
  constructor
  · intro h
    cases text with
    | nil =>
      cases h
      exact .inl ⟨none,[],rfl,rfl,rfl⟩
    | cons c rest =>
      rw [afterNumber] at h
      split at h
      · next hc =>
        obtain ⟨stage,tail,htext,htail⟩ := exists_stage_of_releaseState hc h
        rw [htext,releaseState_spelled vers stage htail] at h
        exact .inl ⟨some stage,tail,htext,htail,(some.inj h).symm⟩
      · split at h
        · next hdot => exact .inr ⟨rest,by rw [hdot],h⟩
        · cases h
  · rintro (⟨_ | stage,tail,rfl,htail,rfl⟩ | ⟨rest,rfl,hdot⟩)
    · obtain rfl := htail
      rfl
    · obtain ⟨c,rest,hspelled,hc⟩ := stage.spelled_eq_cons
      have := releaseState_spelled vers stage htail
      rw [VersionText.stageSpelled]
      rw [hspelled,cons_append] at this ⊢
      rw [afterNumber,if_pos hc,this]
    · rw [afterNumber,if_neg (by decide),if_pos rfl,hdot]

lemma bugfixNumber_eq_some : bugfixNumber vers text=some n ↔ text=[] ∧ n=vers.final ∨
      ∃ e stage tail,text=digitChar e::VersionText.stageSpelled stage++tail ∧ Follows stage tail ∧
        n=Version.staged {vers with byte1 := vers.byte1|||ofNat e.val} stage := by
  constructor
  · intro h
    cases text with
    | nil => exact .inl ⟨rfl,(some.inj h).symm⟩
    | cons c rest =>
      rw [bugfixNumber] at h
      split at h
      · next hc =>
        obtain ⟨e,rfl⟩ := exists_digitChar hc
        rw [bcdDigitForChar_digitChar,if_neg (digit_ne_bcdIllegal e)] at h
        obtain ⟨stage,tail,rfl,htail,rfl⟩ | ⟨_,-,h⟩ := afterNumber_eq_some.mp h
        · exact .inr ⟨e,stage,tail,rfl,htail,rfl⟩
        · cases h
      · cases h
  · rintro (⟨rfl,rfl⟩ | ⟨e,stage,tail,rfl,htail,rfl⟩)
    · rfl
    · rw [cons_append,bugfixNumber,if_pos (isdigit_digitChar e),bcdDigitForChar_digitChar,
        if_neg (digit_ne_bcdIllegal e)]
      exact afterNumber_eq_some.mpr (.inl ⟨stage,tail,rfl,htail,rfl⟩)

def minorByte : Option (Fin 10 × Option (Fin 10)) → UInt8
  | none => 0
  | some (d,none) => ofNat (d.val*16)
  | some (d,some e) => ofNat (d.val*16+e.val)

lemma bcdCombine_zero : ∀ d : Fin 10,bcdCombine (ofNat d.val) 0=ofNat (d.val*16) := by decide

lemma bcdCombine_digits : ∀ d e : Fin 10,bcdCombine (ofNat d.val) (ofNat e.val) =
    ofNat (d.val*16+e.val) := by decide

lemma or_digit : ∀ d e : Fin 10,ofNat (d.val*16)|||ofNat e.val =
    ofNat (d.val*16+e.val) := by decide

lemma afterMajor_eq_some (hbyte : vers.byte1=0) :
    afterNumber (minorNumber vers) vers text=some n ↔ ∃ minor stage tail,
      text=VersionText.minorSpelled minor++VersionText.stageSpelled stage++tail ∧
      (Follows stage tail ∨ DotFollows minor stage tail) ∧
      n=Version.staged {vers with byte1 := minorByte minor} stage := by
  have hnone : ({vers with byte1 := minorByte none} : Version)=vers := by
    rw [Version.ext_iff]
    exact ⟨rfl,hbyte.symm,rfl,rfl⟩
  rw [afterNumber_eq_some]
  constructor
  · rintro (⟨stage,tail,rfl,htail,rfl⟩ | ⟨rest,rfl,hminor⟩)
    · exact ⟨none,stage,tail,rfl,.inl htail,by rw [hnone]⟩
    · cases rest with
      | nil =>
        refine ⟨none,none,['.'],rfl,.inr ⟨rfl,rfl,fun d e h => by cases h⟩,?_⟩
        rw [hnone,staged_none]
        exact (some.inj hminor).symm
      | cons c rest =>
        rw [minorNumber] at hminor
        split at hminor
        · next hc =>
          obtain ⟨d,rfl⟩ := exists_digitChar hc
          rw [bcdDigitForChar_digitChar,if_neg (digit_ne_bcdIllegal d),bcdCombine_zero] at hminor
          obtain ⟨stage,tail,rfl,htail,rfl⟩ | ⟨rest,rfl,hbugfix⟩ := afterNumber_eq_some.mp hminor
          · exact ⟨some (d,none),stage,tail,rfl,.inl htail,rfl⟩
          · obtain ⟨rfl,rfl⟩ | ⟨e,stage,tail,rfl,htail,rfl⟩ := bugfixNumber_eq_some.mp hbugfix
            · exact ⟨some (d,none),none,['.'],rfl,.inr ⟨rfl,rfl,fun d e h => by cases h⟩,rfl⟩
            · refine ⟨some (d,some e),stage,tail,rfl,.inl htail,?_⟩
              simp only [or_digit,minorByte]
        · cases hminor
  · rintro ⟨_ | ⟨d,_ | e⟩,stage,tail,rfl,hfollows,rfl⟩
    · rw [hnone]
      obtain htail | ⟨rfl,rfl,-⟩ := hfollows
      · exact .inl ⟨stage,tail,rfl,htail,rfl⟩
      · exact .inr ⟨[],rfl,rfl⟩
    · refine .inr ⟨digitChar d::(VersionText.stageSpelled stage++tail),rfl,?_⟩
      rw [minorNumber,if_pos (isdigit_digitChar d),bcdDigitForChar_digitChar,
        if_neg (digit_ne_bcdIllegal d),bcdCombine_zero]
      refine afterNumber_eq_some.mpr ?_
      obtain htail | ⟨rfl,rfl,-⟩ := hfollows
      · exact .inl ⟨stage,tail,rfl,htail,rfl⟩
      · exact .inr ⟨[],rfl,rfl⟩
    · refine .inr ⟨digitChar d :: '.' :: digitChar e::(VersionText.stageSpelled stage++tail),
        rfl,?_⟩
      rw [minorNumber,if_pos (isdigit_digitChar d),bcdDigitForChar_digitChar,
        if_neg (digit_ne_bcdIllegal d),bcdCombine_zero]
      obtain htail | ⟨-,-,hnot⟩ := hfollows
      · refine afterNumber_eq_some.mpr (.inr ⟨_,rfl,bugfixNumber_eq_some.mpr (.inr
          ⟨e,stage,tail,rfl,htail,?_⟩)⟩)
        simp only [or_digit,minorByte]
      · exact absurd rfl (hnot d e)

def VersionText.Follows (v : VersionText) (tail : List Char) : Prop :=
  Vers.Follows v.stage tail ∨ DotFollows v.minor v.stage tail

lemma VersionText.number_eq (v : VersionText) : v.number =
    Version.staged ⟨ofNat (v.majorNumber/10*16+v.majorNumber%10),minorByte v.minor,0,0⟩
      v.stage := by
  obtain ⟨major,major2,_ | ⟨d,_ | e⟩,stage⟩ := v <;> rfl

lemma majorByte : ∀ d : Fin 10,d.val/10*16+d.val%10=d.val := by decide

lemma majorByte_two : ∀ d e : Fin 10,
    (d.val*10+e.val)/10*16+(d.val*10+e.val)%10=d.val*16+e.val := by decide

lemma afterMajor_not_digit {minor : Option (Fin 10 × Option (Fin 10))} {stage : Option Stage}
    {tail : List Char} (h : Vers.Follows stage tail ∨ DotFollows minor stage tail) :
    isdigitAt (VersionText.minorSpelled minor++VersionText.stageSpelled stage++tail)=false := by
  have hdot : isdigit '.'=false := by decide
  obtain _ | ⟨d,_ | e⟩ := minor
  · cases stage with
    | none =>
      obtain rfl | ⟨rfl,-,-⟩ := h
      · rfl
      · exact hdot
    | some stage =>
      obtain ⟨c,rest,hspelled,hc⟩ := stage.spelled_eq_cons
      rw [VersionText.minorSpelled,VersionText.stageSpelled,hspelled]
      simp only [isreleasestate,decide_eq_true_eq] at hc
      obtain rfl | rfl | rfl | rfl := hc <;> rfl
  · exact hdot
  · exact hdot

lemma versParseString_eq_some {n : Version} : versParseString text=some n ↔
      ∃ (v : VersionText) (tail : _),text=v.spelled++tail ∧ v.Follows tail ∧ v.number=n := by
  constructor
  · intro h
    cases text with
    | nil => cases h
    | cons first text =>
      rw [versParseString] at h
      split at h
      · cases h
      · next hfirst =>
        obtain ⟨d,rfl⟩ := exists_digitChar_of_bcd hfirst
        rw [bcdDigitForChar_digitChar] at h
        cases text with
        | nil =>
          refine ⟨⟨d,none,none,none⟩,[],rfl,.inl rfl,?_⟩
          rw [VersionText.number_eq,VersionText.majorNumber,majorByte]
          exact some.inj h
        | cons c rest =>
          simp only at h
          split at h
          · next hc =>
            obtain ⟨e,rfl⟩ := exists_digitChar hc
            rw [bcdDigitForChar_digitChar,if_neg (digit_ne_bcdIllegal e),bcdCombine_digits] at h
            obtain ⟨minor,stage,tail,rfl,hfollows,rfl⟩ := (afterMajor_eq_some rfl).mp h
            refine ⟨⟨d,some e,minor,stage⟩,tail,?_,hfollows,?_⟩
            · simp [VersionText.spelled]
            · rw [VersionText.number_eq,VersionText.majorNumber,majorByte_two]
          · obtain ⟨minor,stage,tail,htext,hfollows,rfl⟩ := (afterMajor_eq_some rfl).mp h
            refine ⟨⟨d,none,minor,stage⟩,tail,?_,hfollows,?_⟩
            · rw [htext]
              simp [VersionText.spelled]
            · rw [VersionText.number_eq,VersionText.majorNumber,majorByte]
  · rintro ⟨⟨d,_ | e,minor,stage⟩,tail,rfl,hfollows,rfl⟩
    · rw [VersionText.number_eq,VersionText.majorNumber,majorByte]
      have hparse := (@afterMajor_eq_some ⟨ofNat d.val,0,0,0⟩ _ _ rfl).mpr
        ⟨minor,stage,tail,rfl,hfollows,rfl⟩
      have hdigit := afterMajor_not_digit hfollows
      simp only [VersionText.spelled,toList_none,map_nil,nil_append,cons_append]
      rw [versParseString,bcdDigitForChar_digitChar,if_neg (digit_ne_bcdIllegal d)]
      generalize VersionText.minorSpelled minor++VersionText.stageSpelled stage++tail=text
        at hparse hdigit
      cases text with
      | nil => exact hparse
      | cons c rest =>
        change isdigit c=false at hdigit
        simp only [hdigit]
        exact hparse
    · rw [VersionText.number_eq,VersionText.majorNumber,majorByte_two]
      simp only [VersionText.spelled,toList_some,map_cons,map_nil,cons_append,append_assoc]
      rw [versParseString,bcdDigitForChar_digitChar,if_neg (digit_ne_bcdIllegal d)]
      simp only [isdigit_digitChar,if_true,bcdDigitForChar_digitChar,
        if_neg (digit_ne_bcdIllegal e),bcdCombine_digits]
      exact (afterMajor_eq_some rfl).mpr ⟨minor,stage,tail,by simp,hfollows,rfl⟩

end Darwin.Kext.Vers
