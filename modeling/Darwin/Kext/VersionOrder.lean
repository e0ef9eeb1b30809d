import Darwin.Kext.VersionGrammar

/-! The order of version numbers, what `VERS_string` writes of them, and the texts that are taken
although they are no version strings. -/
open List Nat
namespace Darwin.Kext.Vers

variable {v w : VersionText} {text tail : List Char}

/-! ### Order -/

def stageValue (stage : Option Stage) : ℕ :=
  (stageBytes stage).1.toNat*256+(stageBytes stage).2.toNat

lemma toNat_revision (stage : Stage) : (UInt8.ofNat stage.revision).toNat=stage.revision := by
  have := stage.value_le
  simp only [UInt8.toNat_ofNat',Stage.revision]
  omega

lemma toNat_candidate (stage : Stage) (h : stage.letters.isCandidate=true) :
    (UInt8.ofNat stage.revision-1).toNat+1=stage.revision := by
  have hpos := stage.candidate_pos h
  have hrevision := toNat_revision stage
  have hle : (1 : UInt8)≤UInt8.ofNat stage.revision := by
    rw [UInt8.le_iff_toNat_le,hrevision]
    exact hpos
  rw [UInt8.toNat_sub_of_le _ _ hle,hrevision]
  exact Nat.sub_add_cancel hpos

lemma stageValue_some (stage : Stage) :
    stageValue (some stage)+(if stage.letters.isCandidate then 1 else 0) =
      (stage.letters.rank+1)*0x2000+stage.revision := by
  have hrevision := toNat_revision stage
  cases hname : stage.letters with
  | d => simp [stageValue,stageBytes,hname,hrevision,Letters.isCandidate,Letters.rank,development]
  | a => simp [stageValue,stageBytes,hname,hrevision,Letters.isCandidate,Letters.rank,alpha]
  | b => simp [stageValue,stageBytes,hname,hrevision,Letters.isCandidate,Letters.rank,beta]
  | f =>
    have := toNat_candidate stage (by rw [hname]; rfl)
    simp only [stageValue,stageBytes,hname,Letters.isCandidate,Letters.rank,if_true]
    change 128*256+_+1=_
    omega
  | fc =>
    have := toNat_candidate stage (by rw [hname]; rfl)
    simp only [stageValue,stageBytes,hname,Letters.isCandidate,Letters.rank,if_true]
    change 128*256+_+1=_
    omega

lemma stageValue_none : stageValue none=0x80FF := by decide

lemma Letters.isCandidate_iff_rank (letters : Letters) :
    (letters.isCandidate=true ↔ letters.rank=3) ∧ letters.rank≤3 := by
  cases letters <;> decide

lemma VersionText.stageValue_eq (v : VersionText) :
    v.stageRank=4 ∧ v.revisionNumber=0 ∧ stageValue v.stage=0x80FF ∨
    v.stageRank<3 ∧ v.revisionNumber≤255 ∧
      stageValue v.stage=(v.stageRank+1)*0x2000+v.revisionNumber ∨
    v.stageRank=3 ∧ 0<v.revisionNumber ∧ v.revisionNumber≤255 ∧
      stageValue v.stage+1=0x8000+v.revisionNumber := by
  obtain ⟨major,major2,minor,_ | stage⟩ := v
  · exact .inl ⟨rfl,rfl,stageValue_none⟩
  · obtain ⟨hcandidate,hrank⟩ := stage.letters.isCandidate_iff_rank
    have hvalue := stageValue_some stage
    have hle : stage.revision≤255 := stage.value_le
    by_cases hletters : stage.letters.isCandidate=true
    · have hthree := hcandidate.mp hletters
      rw [if_pos hletters,hthree] at hvalue
      exact .inr (.inr ⟨hthree,stage.candidate_pos hletters,hle,hvalue⟩)
    · rw [if_neg hletters,add_zero] at hvalue
      have hlt : stage.letters.rank<3 := by
        rw [hcandidate] at hletters
        omega
      exact .inr (.inl ⟨hlt,hle,hvalue⟩)

lemma VersionText.majorNumber_lt (v : VersionText) : v.majorNumber<100 := by
  obtain ⟨d,_ | e,minor,stage⟩ := v
  · change d.val<100
    omega
  · change d.val*10+e.val<100
    omega

lemma VersionText.minorNumber_lt (v : VersionText) : v.minorNumber<10 ∧ v.bugfixNumber<10 := by
  obtain ⟨major,major2,_ | ⟨d,_ | e⟩,stage⟩ := v
  · exact ⟨succ_pos 9,succ_pos 9⟩
  · exact ⟨d.isLt,succ_pos 9⟩
  · exact ⟨d.isLt,e.isLt⟩

lemma VersionText.vnum_number (v : VersionText) :
    v.number.vnum=((v.majorNumber/10*16+v.majorNumber%10)*256 +
      (v.minorNumber*16+v.bugfixNumber))*65536+stageValue v.stage := by
  have hmajor := v.majorNumber_lt
  obtain ⟨hminor,hbugfix⟩ := v.minorNumber_lt
  simp only [Version.vnum,VersionText.number,Version.staged,stageValue,UInt8.toNat_ofNat']
  omega

lemma vnum_lt_iff (v w : VersionText) : v.number.vnum<w.number.vnum ↔ v.fields<w.fields := by
  have hv := v.majorNumber_lt
  have hw := w.majorNumber_lt
  obtain ⟨hv1,hv2⟩ := v.minorNumber_lt
  obtain ⟨hw1,hw2⟩ := w.minorNumber_lt
  have hstage : stageValue v.stage<stageValue w.stage ↔ v.stageRank<w.stageRank ∨
      v.stageRank=w.stageRank ∧ v.revisionNumber<w.revisionNumber := by
    have hvs := v.stageValue_eq
    have hws := w.stageValue_eq
    omega
  have hv3 : stageValue v.stage<65536 := by
    have := v.stageValue_eq
    omega
  have hw3 : stageValue w.stage<65536 := by
    have := w.stageValue_eq
    omega
  rw [v.vnum_number,w.vnum_number]
  simp only [VersionText.fields,Prod.Lex.toLex_lt_toLex]
  rw [←hstage]
  omega

lemma fields_lt_of_final (hmajor : v.majorNumber=w.majorNumber)
    (hminor : v.minorNumber=w.minorNumber) (hbugfix : v.bugfixNumber=w.bugfixNumber)
    (hv : v.stage≠none) (hw : w.stage=none) : v.fields<w.fields := by
  obtain ⟨stage,hstage⟩ := Option.ne_none_iff_exists'.mp hv
  have hrank : v.stageRank<w.stageRank := by
    rw [VersionText.stageRank,VersionText.stageRank,hstage,hw]
    exact Nat.lt_succ_of_le stage.letters.isCandidate_iff_rank.2
  simp only [VersionText.fields,Prod.Lex.toLex_lt_toLex]
  exact .inr ⟨hmajor,.inr ⟨hminor,.inr ⟨hbugfix,.inl hrank⟩⟩⟩

/-! ### What is written -/

def majorWritten (d : Fin 10) : Option (Fin 10) → Fin 10 × Option (Fin 10)
  | none => (d,none)
  | some e => if d=0 then (e,none) else (d,some e)

def minorWritten : Option (Fin 10 × Option (Fin 10)) → Fin 10 × Option (Fin 10)
  | none => (0,none)
  | some (d,none) => (d,none)
  | some (d,some e) => if e=0 then (d,none) else (d,some e)

def digitsWritten (revision : ℕ) : List (Fin 10) :=
  if revision<10 then [Fin.ofNat 10 revision]
  else if revision<100 then [Fin.ofNat 10 (revision/10),Fin.ofNat 10 revision]
  else [Fin.ofNat 10 (revision/100),Fin.ofNat 10 (revision/10),Fin.ofNat 10 revision]

def Letters.written : Letters → Letters
  | .f => .fc
  | letters => letters

lemma digitsWritten_fin : ∀ r : Fin 256,
    toDigits 10 r.val=(digitsWritten r.val).map digitChar ∧
    valueFrom 0 (digitsWritten r.val)=r.val ∧ digitsWritten r.val≠[] ∧
    (digitsWritten r.val).length≤3 := by
  decide +kernel

lemma digitsWritten_spec {revision : ℕ} (h : revision≤255) :
    toDigits 10 revision=(digitsWritten revision).map digitChar ∧
    valueFrom 0 (digitsWritten revision)=revision ∧ digitsWritten revision≠[] ∧
    (digitsWritten revision).length≤3 :=
  digitsWritten_fin ⟨revision,Nat.lt_succ_of_le h⟩

def Stage.written (stage : Stage) : Stage where
  letters := stage.letters.written
  digits := digitsWritten stage.revision
  some_digit := (digitsWritten_spec stage.value_le).2.2.1
  length_le := (digitsWritten_spec stage.value_le).2.2.2
  value_le := by
    have hvalue : valueFrom 0 (digitsWritten stage.revision)=stage.revision :=
      (digitsWritten_spec stage.value_le).2.1
    rw [hvalue]
    exact stage.value_le
  candidate_pos := by
    intro h
    have hvalue : valueFrom 0 (digitsWritten stage.revision)=stage.revision :=
      (digitsWritten_spec stage.value_le).2.1
    rw [hvalue]
    refine stage.candidate_pos ?_
    cases hname : stage.letters <;> simp_all [Letters.written,Letters.isCandidate]

def VersionText.written (v : VersionText) : VersionText where
  major := (majorWritten v.major v.major2).1
  major2 := (majorWritten v.major v.major2).2
  minor := some (minorWritten v.minor)
  stage := v.stage.map Stage.written

def majorOf (d : Fin 10) : Option (Fin 10) → ℕ
  | none => d.val
  | some e => d.val*10+e.val

def packed (major : ℕ) : UInt8 := UInt8.ofNat (major/10*16+major%10)

lemma majorWritten_spec : ∀ (d : Fin 10) (e : Option (Fin 10)),
    majorOf (majorWritten d e).1 (majorWritten d e).2=majorOf d e ∧
    (if bcdCharForDigit (bcdGetLeft (packed (majorOf d e))) ≠ '0' then
      [bcdCharForDigit (bcdGetLeft (packed (majorOf d e)))] else []) ++
        [bcdCharForDigit (bcdGetRight (packed (majorOf d e)))] =
      digitChar (majorWritten d e).1::(majorWritten d e).2.toList.map digitChar := by
  decide

lemma minorWritten_spec : ∀ minor : Option (Fin 10 × Option (Fin 10)),
    minorByte (some (minorWritten minor))=minorByte minor ∧
    ['.',bcdCharForDigit (bcdGetLeft (minorByte minor))] ++
      (if bcdCharForDigit (bcdGetRight (minorByte minor)) ≠ '0' then
        ['.',bcdCharForDigit (bcdGetRight (minorByte minor))] else []) =
      VersionText.minorSpelled (some (minorWritten minor)) := by
  decide +kernel

lemma VersionText.majorNumber_eq (v : VersionText) : v.majorNumber=majorOf v.major v.major2 := by
  obtain ⟨d,_ | e,minor,stage⟩ := v <;> rfl

lemma numbersString_number (v : VersionText) : (numbersString v.number).2 =
    digitChar v.written.major::(v.written.major2.toList.map digitChar ++
      VersionText.minorSpelled v.written.minor) := by
  have hmajor := (majorWritten_spec v.major v.major2).2
  have hminor := (minorWritten_spec v.minor).2
  have hbyte0 : v.number.byte0=packed (majorOf v.major v.major2) := by
    rw [v.number_eq,v.majorNumber_eq]
    rfl
  have hbyte1 : v.number.byte1=minorByte v.minor := by
    rw [v.number_eq]
    rfl
  simp only [numbersString,hbyte0,hbyte1,VersionText.written]
  rw [←hminor,←cons_append,←hmajor]
  simp

lemma revision_written (stage : Stage) : stage.written.revision=stage.revision :=
  (digitsWritten_spec stage.value_le).2.1

lemma stageBytes_written (stage : Option Stage) :
    stageBytes (stage.map Stage.written)=stageBytes stage := by
  obtain _ | stage := stage
  · rfl
  · have hrevision := revision_written stage
    have hletters : stage.written.letters=stage.letters.written := rfl
    cases hname : stage.letters <;>
      simp [stageBytes,hletters,Letters.written,hname,hrevision]

lemma number_written (v : VersionText) : v.written.number=v.number := by
  have hmajor : v.written.majorNumber=v.majorNumber := by
    rw [VersionText.majorNumber_eq,VersionText.majorNumber_eq]
    exact (majorWritten_spec v.major v.major2).1
  rw [v.written.number_eq,v.number_eq,hmajor]
  simp only [VersionText.written,(minorWritten_spec v.minor).1,Version.staged,stageBytes_written]

lemma length_minorSpelled_le (minor : Option (Fin 10 × Option (Fin 10))) :
    (VersionText.minorSpelled minor).length≤4 := by
  obtain _ | ⟨d,_ | e⟩ := minor
  · exact zero_le 4
  · exact (by decide : 2≤4)
  · exact le_rfl

lemma VersionText.length_spelled_lt (v : VersionText) : v.spelled.length<versStringMaxLen := by
  have hmajor : v.major2.toList.length≤1 := by
    cases v.major2 <;> simp
  have hminor := length_minorSpelled_le v.minor
  have hstage : (stageSpelled v.stage).length≤5 := by
    cases v.stage with
    | none => exact zero_le 5
    | some stage =>
      have hletters : stage.letters.spelled.length≤2 := by
        cases stage.letters <;> decide
      have := stage.length_le
      rw [stageSpelled,Stage.spelled,length_append,length_map]
      omega
  simp only [spelled,length_cons,length_append,length_map,versStringMaxLen]
  omega

lemma versString_number (v : VersionText) {length : ℕ} (hlength : versStringMaxLen≤length) :
    (versString length v.number).2=some v.written.spelled := by
  have hspelled : v.written.spelled=(numbersString v.number).2 ++
      VersionText.stageSpelled (v.stage.map Stage.written) := by
    rw [numbersString_number,VersionText.spelled]
    rfl
  have hbyte2 : v.number.byte2=(stageBytes v.stage).1 := rfl
  have hbyte3 : v.number.byte3=(stageBytes v.stage).2 := rfl
  rw [hspelled,versString,if_neg (not_lt.mpr hlength)]
  simp only [hbyte2,hbyte3]
  cases hstage : v.stage with
  | none => simp [stageBytes,VersionText.stageSpelled]
  | some stage =>
    have hrevision := toNat_revision stage
    have hwritten : stage.written.spelled=stage.letters.written.spelled ++
        toDigits 10 stage.revision := by
      have hdigits : toDigits 10 stage.revision =
        (digitsWritten stage.revision).map digitChar := (digitsWritten_spec stage.value_le).1
      rw [hdigits]
      rfl
    have hcandidate : stage.letters.isCandidate=true → UInt8.ofNat stage.revision-1≠255 := by
      intro h heq
      have hpos := toNat_candidate stage h
      have hle : stage.revision≤255 := stage.value_le
      rw [heq] at hpos
      change 255+1=_ at hpos
      omega
    simp only [Option.map_some,VersionText.stageSpelled,hwritten]
    cases hname : stage.letters with
    | d => simp [stageBytes,hname,hrevision,Letters.written,Letters.spelled,development,release]
    | a =>
      simp [stageBytes,hname,hrevision,Letters.written,Letters.spelled,development,alpha,release]
    | b =>
      simp [stageBytes,hname,hrevision,Letters.written,Letters.spelled,development,alpha,beta,
        release]
    | f =>
      have hletters : stage.letters.isCandidate=true := by rw [hname]; rfl
      simp [stageBytes,hname,Letters.written,Letters.spelled,hcandidate hletters,
        toNat_candidate stage hletters]
    | fc =>
      have hletters : stage.letters.isCandidate=true := by rw [hname]; rfl
      simp [stageBytes,hname,Letters.written,Letters.spelled,hcandidate hletters,
        toNat_candidate stage hletters]

/-! ### Texts that are no version strings -/

def behindNumbers (text : List Char) : List Char :=
  text.dropWhile fun c => isdigit c || c = '.'

lemma behindNumbers_spelled (v : VersionText) (tail : List Char) : behindNumbers (v.spelled++tail) =
      behindNumbers (VersionText.stageSpelled v.stage++tail) := by
  have hnumber : ∀ c∈digitChar v.major::(v.major2.toList.map digitChar ++
      VersionText.minorSpelled v.minor),(isdigit c || c = '.')=true := by
    obtain ⟨major,_ | major2,_ | ⟨d,_ | e⟩,stage⟩ := v <;>
      simp [VersionText.minorSpelled,isdigit_digitChar]
  rw [VersionText.spelled,←cons_append,append_assoc,behindNumbers,dropWhile_append_of_pos hnumber]
  rfl

lemma behindNumbers_stage (stage : Stage) (tail : List Char) :
    behindNumbers (stage.spelled++tail)=stage.spelled++tail := by
  obtain ⟨c,rest,hspelled,hc⟩ := stage.spelled_eq_cons
  rw [hspelled,cons_append,behindNumbers,dropWhile_cons_of_neg]
  simp only [isreleasestate,decide_eq_true_eq] at hc
  obtain rfl | rfl | rfl | rfl := hc <;> decide

lemma dropWhile_stage (stage : Stage) (tail : List Char) :
    (stage.spelled++tail).dropWhile (fun c => !isdigit c)=stage.digits.map digitChar++tail := by
  have hletters : ∀ c∈stage.letters.spelled,(!isdigit c)=true := by
    cases stage.letters <;> simp [Letters.spelled,isdigit]
  rw [Stage.spelled,append_assoc,dropWhile_append_of_pos hletters]
  obtain ⟨d,digits,hdigits⟩ := exists_cons_of_ne_nil stage.some_digit
  rw [hdigits,map_cons,cons_append,dropWhile_cons_of_neg]
  simp [isdigit_digitChar]

lemma VersionText.exists_last_digit (v : VersionText) :
    ∃ front d,v.spelled=front++[digitChar d] := by
  obtain ⟨major,major2,minor,_ | stage⟩ := v
  · obtain _ | ⟨d,_ | e⟩ := minor
    · obtain _ | major2 := major2
      · exact ⟨[],major,rfl⟩
      · exact ⟨[digitChar major],major2,rfl⟩
    · exact ⟨digitChar major::(major2.toList.map digitChar++['.']),d,
        by simp [spelled,minorSpelled,stageSpelled]⟩
    · exact ⟨digitChar major::(major2.toList.map digitChar++['.',digitChar d,'.']),e,
        by simp [spelled,minorSpelled,stageSpelled]⟩
  · obtain ⟨front,d,hdigits⟩ := eq_nil_or_concat stage.digits |>.resolve_left stage.some_digit
    refine ⟨digitChar major::(major2.toList.map digitChar++minorSpelled minor ++
      stage.letters.spelled++front.map digitChar),d,?_⟩
    simp [spelled,stageSpelled,Stage.spelled,hdigits]

lemma versParseString_spelled (v : VersionText) : versParseString v.spelled=some v.number := by
  refine versParseString_eq_some.mpr ⟨v,[],(append_nil _).symm,.inl ?_,rfl⟩
  cases v.stage with
  | none => rfl
  | some stage => exact ⟨rfl,fun h => absurd rfl h⟩

lemma tail_eq_nil (hfollows : w.Follows tail) (h : v.spelled=w.spelled++tail) : tail=[] := by
  obtain hstage | ⟨rfl,-,-⟩ := hfollows
  · cases hw : w.stage with
    | none => rwa [hw] at hstage
    | some stage =>
      rw [hw] at hstage
      by_contra hne
      have hthree := hstage.2 hne
      have hbehind := congrArg behindNumbers h
      rw [←append_nil v.spelled,behindNumbers_spelled,behindNumbers_spelled,hw,
        VersionText.stageSpelled.eq_2,behindNumbers_stage] at hbehind
      cases hv : v.stage with
      | none =>
        obtain ⟨c,rest,hspelled,-⟩ := stage.spelled_eq_cons
        rw [hv,hspelled] at hbehind
        cases hbehind
      | some stage' =>
        rw [hv,VersionText.stageSpelled,behindNumbers_stage] at hbehind
        have hdigits := congrArg (List.dropWhile fun c => !isdigit c) hbehind
        rw [dropWhile_stage,dropWhile_stage] at hdigits
        have hlength := congrArg List.length hdigits
        have := stage'.length_le
        have := length_pos_of_ne_nil hne
        simp only [length_append,length_map,length_nil] at hlength
        omega
  · obtain ⟨front,d,hlast⟩ := v.exists_last_digit
    rw [hlast] at h
    have := (append_inj' h rfl).2
    have hdot : digitChar d = '.' := head_eq_of_cons_eq this
    have hdigit := isdigit_digitChar d
    rw [hdot] at hdigit
    cases hdigit

/-- What is promised of a text: it is taken if it is a version string, and as the number of one;
what is written of the number is taken as the same number; and with any other number it compares
as the versions do, a final release coming after the stages of its version. -/
structure Faithful (text : List Char) : Prop where
  accepts : ∀ n,versParseString text=some n ↔ ∃ v : VersionText,v.spelled=text ∧ v.number=n
  written : ∀ n,versParseString text=some n → ∀ length,versStringMaxLen≤length →
    ∃ string,(versString length n).2=some string ∧ string.length<versStringMaxLen ∧
      versParseString string=some n
  ordered : ∀ n,versParseString text=some n → (∃ v : VersionText,v.number=n) ∧
    ∀ text' n',versParseString text'=some n' →
    ∀ v v' : VersionText,v.number=n → v'.number=n' → (n.vnum<n'.vnum ↔ v.fields<v'.fields) ∧
      (v.majorNumber=v'.majorNumber → v.minorNumber=v'.minorNumber →
        v.bugfixNumber=v'.bugfixNumber → v.stage≠none → v'.stage=none → n.vnum<n'.vnum)

/-- A version string without a bug-fix number and without a stage has a dot behind it, or the three
digits of a revision have something behind them that is no digit. -/
def HasMore (text : List Char) : Prop :=
  ∃ (v : VersionText) (tail : List Char),tail≠[] ∧ text=v.spelled++tail ∧
    (tail=['.'] ∧ v.stage=none ∧ (∀ d e,v.minor≠some (d,some e)) ∨
      ∃ stage,v.stage=some stage ∧ stage.digits.length=3 ∧ isdigitAt tail=false)

lemma hasMore_iff (text : List Char) : HasMore text ↔
    ∃ (v : VersionText) (tail : List Char),tail≠[] ∧ text=v.spelled++tail ∧ v.Follows tail := by
  refine exists_congr fun v => exists_congr fun tail => and_congr_right fun hne =>
    and_congr_right fun _ => ?_
  rw [VersionText.Follows,DotFollows]
  refine or_comm.trans (or_congr ?_ Iff.rfl)
  cases v.stage with
  | none =>
    refine ⟨?_,fun h => absurd h hne⟩
    rintro ⟨stage,h,-⟩
    cases h
  | some stage =>
    refine ⟨?_,fun h => ⟨stage,rfl,h.2 hne,h.1⟩⟩
    rintro ⟨stage,hstage,hthree,hdigit⟩
    cases hstage
    exact ⟨hdigit,fun _ => hthree⟩

theorem versParseString_faithful_iff (text : List Char) : Faithful text ↔ ¬HasMore text := by
  rw [hasMore_iff]
  constructor
  · rintro hfaithful ⟨w,tail,hne,rfl,hfollows⟩
    have hparse := versParseString_eq_some.mpr ⟨w,tail,rfl,hfollows,rfl⟩
    obtain ⟨v,hspelled,-⟩ := (hfaithful.accepts w.number).mp hparse
    exact hne (tail_eq_nil hfollows hspelled)
  · intro hmore
    refine ⟨fun n => ⟨fun h => ?_,?_⟩,fun n h length hlength => ?_,fun n h => ⟨?_,?_⟩⟩
    · obtain ⟨v,tail,rfl,hfollows,hnumber⟩ := versParseString_eq_some.mp h
      have htail : tail=[] := by
        by_contra hne
        exact hmore ⟨v,tail,hne,rfl,hfollows⟩
      exact ⟨v,by rw [htail,append_nil],hnumber⟩
    · rintro ⟨v,rfl,hnumber⟩
      exact versParseString_spelled v▸hnumber▸rfl
    · obtain ⟨v,-,-,-,rfl⟩ := versParseString_eq_some.mp h
      refine ⟨v.written.spelled,versString_number v hlength,v.written.length_spelled_lt,?_⟩
      rw [versParseString_spelled,number_written]
    · obtain ⟨v,-,-,-,hnumber⟩ := versParseString_eq_some.mp h
      exact ⟨v,hnumber⟩
    · rintro - - - v w rfl rfl
      refine ⟨vnum_lt_iff v w,fun hmajor hminor hbugfix hv hw => ?_⟩
      exact (vnum_lt_iff v w).mpr (fields_lt_of_final hmajor hminor hbugfix hv hw)

/-- What stands behind three digits is not looked at. -/
theorem taken_with_more :
    versParseString "1.0d123xyz".toList=some ⟨0x01,0x00,0x20,123⟩ ∧
    ¬Faithful "1.0d123xyz".toList := by
  have hparse : versParseString "1.0d123xyz".toList=some ⟨0x01,0x00,0x20,123⟩ := by decide
  refine ⟨hparse,fun h => ?_⟩
  obtain ⟨v,hspelled,-⟩ := (h.accepts _).mp hparse
  obtain ⟨front,d,hlast⟩ := v.exists_last_digit
  rw [hlast] at hspelled
  have hsplit : front++[digitChar d] = "1.0d123xy".toList++['z'] := hspelled
  have hd : digitChar d = 'z' := head_eq_of_cons_eq (append_inj' hsplit rfl).2
  have hdigit := isdigit_digitChar d
  rw [hd] at hdigit
  cases hdigit

end Darwin.Kext.Vers
