import Mathlib.Data.UInt
import Mathlib.Tactic

/-! The scanner of `OSUnserializeXML`. It goes through the text from the front to the back and reads
each character when it comes to it, so that what it has not read is what is left of the text. -/
open List
namespace Darwin.Libkern.UnserializeXML

abbrev Text := List UInt8

def currentChar (t : Text) : UInt8 := t.headD 0
def nextChar (t : Text) : Text := t.tail

def chars (l : List Char) : List UInt8 := l.map fun c => UInt8.ofNat c.toNat

def isSpace (c : UInt8) : Bool := c=0x20 ∨ c=0x09
def isAlpha (c : UInt8) : Bool := (0x41≤c ∧ c≤0x5a) ∨ (0x61≤c ∧ c≤0x7a)
def isDigit (c : UInt8) : Bool := 0x30≤c ∧ c≤0x39
def isAlphaDigit (c : UInt8) : Bool := 0x61≤c ∧ c≤0x66
def isHexDigit (c : UInt8) : Bool := isDigit c || isAlphaDigit c
def isAlphaNumeric (c : UInt8) : Bool := isAlpha c || isDigit c || c=0x2d

def TAG_MAX_LENGTH : ℕ := 32
def TAG_MAX_ATTRIBUTES : ℕ := 32

inductive TagType
  | TAG_BAD
  | TAG_START
  | TAG_END
  | TAG_EMPTY
  | TAG_COMMENT
  deriving DecidableEq,Repr

/-! ### Tags -/

/-- The loop over a comment; it ends behind the `>` or at the end of the text. -/
def skipComment : Text → Bool × Text
  | [] => (false,[])
  | c::t => if c=0 then (false,c::t) else if c=0x3e then (true,t) else skipComment t

def copyTag (length : ℕ) : Text → Option (List UInt8) × Text
  | [] => (some [],[])
  | c::t =>
    if isAlphaNumeric c then
      if TAG_MAX_LENGTH-1≤length+1 then (none,t)
      else ((copyTag (length+1) t).1.map (c :: ·),(copyTag (length+1) t).2)
    else (some [],c::t)

def copyAttribute (length : ℕ) : Text → Option (List UInt8) × Text
  | [] => (some [],[])
  | c::t =>
    if isAlphaNumeric c then
      if TAG_MAX_LENGTH-1≤length+1 then (none,c::t)
      else ((copyAttribute (length+1) t).1.map (c :: ·),(copyAttribute (length+1) t).2)
    else (some [],c::t)

/-- The loop that copies a quoted value, and the step behind the closing quote. It does not ask for
the end of the text. -/
def copyValue (length : ℕ) : Text → Option (List UInt8) × Text
  | [] => (none,[])
  | c::t =>
    if c=0x22 then (some [],t)
    else if TAG_MAX_LENGTH-1≤length+1 then (none,c::t)
    else ((copyValue (length+1) t).1.map (c :: ·),(copyValue (length+1) t).2)

/-- What one round of the loop over attributes comes to: the attribute, or `none` for `TAG_BAD`; what
is left; the text behind the opening quotes of values. -/
structure AttributesRead (α : Type) where
  value : Option α
  rest : Text
  opened : List Text

def getAttribute (t : Text) : AttributesRead (List UInt8 × List UInt8) :=
  let name := copyAttribute 0 (t.dropWhile isSpace)
  let t := name.2
  match name.1 with
  | none => ⟨none,t,[]⟩
  | some attr =>
    let t := t.dropWhile isSpace
    if currentChar t≠0x3d then ⟨none,t,[]⟩
    else
      let t := (nextChar t).dropWhile isSpace
      if currentChar t≠0x22 then ⟨none,t,[]⟩
      else
        let value := copyValue 0 (nextChar t)
        ⟨value.1.map fun v => (attr,v),value.2,[nextChar t]⟩

def getAttributes : ℕ → Text → AttributesRead (List (List UInt8 × List UInt8))
  | 0,t => ⟨none,t,[]⟩
  | slots+1,t =>
    if currentChar t=0x3e ∨ currentChar t=0x2f then ⟨some [],t,[]⟩
    else
      let first := getAttribute t
      match first.value with
      | none => ⟨none,first.rest,first.opened⟩
      | some attr =>
        let others := getAttributes slots first.rest
        ⟨others.value.map (attr :: ·),others.rest,first.opened++others.opened⟩

structure TagRead where
  tagType : TagType
  tag : List UInt8
  attributes : List (List UInt8 × List UInt8)
  rest : Text
  opened : List Text

def badTag (rest : Text) (opened : List Text) : TagRead := ⟨.TAG_BAD,[],[],rest,opened⟩

def getTagName (tagType : TagType) (t : Text) : TagRead :=
  if !isAlpha (currentChar t) then badTag t []
  else
    let name := copyTag 0 t
    match name.1 with
    | none => badTag name.2 []
    | some tag =>
      let attributes := getAttributes TAG_MAX_ATTRIBUTES name.2
      match attributes.value with
      | none => badTag attributes.rest attributes.opened
      | some values =>
        let t := attributes.rest
        let tagType := if currentChar t=0x2f then .TAG_EMPTY else tagType
        let t := if currentChar t=0x2f then nextChar t else t
        if currentChar t≠0x3e then badTag t attributes.opened
        else ⟨tagType,tag,values,nextChar t,attributes.opened⟩

def getTag (t : Text) : TagRead :=
  if currentChar t≠0x3c then badTag t []
  else
    let t := nextChar t
    if currentChar t=0x3f ∨ currentChar t=0x21 then
      let comment := skipComment (nextChar t)
      if comment.1 then ⟨.TAG_COMMENT,[],[],comment.2,[]⟩ else badTag comment.2 []
    else if currentChar t=0x2f then getTagName .TAG_END (nextChar t)
    else getTagName .TAG_START t

/-! ### What stands between tags -/

def angleOf (c : UInt8) : UInt8 := if c=0x6c then 0x3c else 0x3e

/-- The loop that copies `left` characters and takes `&lt;`, `&gt;` and `&amp;` for one each; the text
that it has not read. -/
def copyString : ℕ → ℕ → Text → Option (List UInt8) × Text
  | 0,_,t => (some [],t)
  | fuel+1,left,t =>
    if left=0 then (some [],t)
    else
      let c := currentChar t
      let t := nextChar t
      if c≠0x26 then ((copyString fuel (left-1) t).1.map (c :: ·),(copyString fuel (left-1) t).2)
      else if left-1<3 then (none,t)
      else
        let c := currentChar t
        let t := nextChar t
        if c=0x6c ∨ c=0x67 then
          if currentChar t≠0x74 then (none,nextChar t)
          else if currentChar (nextChar t)≠0x3b then (none,nextChar (nextChar t))
          else
            let others := copyString fuel (left-4) (nextChar (nextChar t))
            (others.1.map (angleOf c :: ·),others.2)
        else if left-2<3 then (none,t)
        else if c=0x61 then
          if currentChar t≠0x6d then (none,nextChar t)
          else if currentChar (nextChar t)≠0x70 then (none,nextChar (nextChar t))
          else if currentChar (nextChar (nextChar t))≠0x3b then
            (none,nextChar (nextChar (nextChar t)))
          else
            let others := copyString fuel (left-5) (nextChar (nextChar (nextChar t)))
            (others.1.map (0x26 :: ·),others.2)
        else (none,t)

structure StringRead where
  string : Option (List UInt8)
  rest : Text
  copied : List Text

/-- The string, and the text from the `<` behind it on; `copied` is the text that the second loop has
not read. -/
def getString (start : Text) : StringRead :=
  let t := start.dropWhile fun c => c≠0 ∧ c≠0x3c
  if currentChar t≠0x3c then ⟨none,t,[]⟩
  else
    let length := start.length-t.length
    let copy := copyString length length start
    ⟨copy.1,t,[copy.2]⟩

def getDigits (isBaseDigit : UInt8 → Bool) (base n : ℕ) : Text → ℕ × Text
  | [] => (n,[])
  | c::t =>
    if isBaseDigit c then
      let digit := if isDigit c then c.toNat-0x30 else 0xa+(c.toNat-0x61)
      getDigits isBaseDigit base ((n*base+digit)%2^64) t
    else (n,c::t)

def getNumber (t : Text) : ℕ × Text :=
  if !isDigit (currentChar t) then (0,t)
  else if currentChar t=0x30 then
    if currentChar (nextChar t)=0x78 then getDigits isHexDigit 16 0 (nextChar (nextChar t))
    else getDigits isDigit 10 0 (nextChar t)
  else getDigits isDigit 10 0 t

def decodeTable (c : UInt8) : Option ℕ :=
  if c=0x2b then some 62
  else if c=0x2f then some 63
  else if isDigit c then some (c.toNat-0x30+52)
  else if c=0x3d then some 0
  else if 0x41≤c ∧ c≤0x5a then some (c.toNat-0x41)
  else if 0x61≤c ∧ c≤0x7a then some (c.toNat-0x61+26)
  else none

/-- The loop of `getCFEncodedData`: four characters of six bits are three bytes, less the number of
`=` that they end in. -/
def encodedLoop (numeq acc cntr : ℕ) : Text → Option (List UInt8) × Text
  | [] => (none,[])
  | c::t =>
    if c=0x3c then (some [],c::t)
    else
      let low := c&&&0x7f
      if low=0 then (none,c::t)
      else
        let numeq := if low=0x3d then numeq+1 else 0
        match decodeTable low with
        | none => encodedLoop numeq acc cntr t
        | some v =>
          let acc := (acc*64+v)%2^32
          let others := encodedLoop numeq acc (cntr+1) t
          if (cntr+1)%4=0 then
            (others.1.map fun l => UInt8.ofNat (acc/2^16) ::
              ((if numeq<2 then [UInt8.ofNat (acc/2^8)] else []) ++
                (if numeq<1 then [UInt8.ofNat acc] else [])++l),others.2)
          else others

def getCFEncodedData (t : Text) : Option (List UInt8) × Text := encodedLoop 0 0 0 t

def nibble (c : UInt8) : Option ℕ :=
  if isDigit c then some (c.toNat-0x30)
  else if isAlphaDigit c then some (0xa+(c.toNat-0x61))
  else none

/-- The loop of `getHexData`. Spaces are skipped inside a round: what is behind them is not compared
with `<`. -/
def hexLoop (afterSpace : Bool) : Text → Option (List UInt8) × Text
  | [] => (none,[])
  | c::t =>
    if afterSpace=false ∧ c=0x3c then (some [],c::t)
    else if isSpace c then hexLoop true t
    else if c=0x0a then hexLoop false t
    else
      match nibble c,t with
      | none,t => (none,c::t)
      | some _,[] => (none,[])
      | some high,c::t =>
        match nibble c with
        | none => (none,c::t)
        | some low =>
          ((hexLoop false t).1.map (UInt8.ofNat (16*high+low) :: ·),(hexLoop false t).2)

def getHexData (t : Text) : Option (List UInt8) × Text := hexLoop false t

/-! ### No character behind the end is read -/

def Ended (beyond t : Text) : Prop := 0::beyond <:+ t

/-- From the one place to the other the scanner goes on, and past no NUL. -/
structure Reads (t r : Text) : Prop where
  suffix : r <:+ t
  ended : ∀ beyond,Ended beyond t → Ended beyond r

section Reads
variable {t r u beyond : Text} {c : UInt8}

lemma Reads.refl (t : Text) : Reads t t := ⟨suffix_refl t,fun _ h => h⟩

lemma Reads.trans (h : Reads t r) (h' : Reads r u) : Reads t u :=
  ⟨h'.suffix.trans h.suffix,fun beyond hb => h'.ended beyond (h.ended beyond hb)⟩

lemma Ended.tail (h : Ended beyond (c::t)) (hc : c≠0) : Ended beyond t := by
  rcases suffix_cons_iff.mp h with heq | h
  · exact absurd (List.cons.inj heq).1.symm hc
  · exact h

lemma Reads.cons (hc : c≠0) : Reads (c::t) t :=
  ⟨suffix_cons c t,fun _ h => h.tail hc⟩

lemma Reads.next (hc : currentChar t≠0) : Reads t (nextChar t) := by
  cases t with
  | nil => exact absurd rfl hc
  | cons c t => exact .cons hc

lemma Reads.dropWhile {p : UInt8 → Bool} (hp : p 0=false) (t : Text) : Reads t (t.dropWhile p) := by
  induction t with
  | nil => exact .refl []
  | cons c t ih =>
    rw [dropWhile_cons]
    split_ifs with hc
    · refine (Reads.cons fun h0 => ?_).trans ih
      rw [h0,hp] at hc
      exact Bool.false_ne_true hc
    · exact .refl _

lemma Reads.length_le (h : Reads t r) : r.length≤t.length := h.suffix.length_le

lemma isAlphaNumeric_zero : isAlphaNumeric 0=false := by decide

lemma ne_zero_of_isAlphaNumeric (h : isAlphaNumeric c=true) : c≠0 := by
  rintro rfl
  rw [isAlphaNumeric_zero] at h
  exact Bool.false_ne_true h

lemma skipComment_reads (t : Text) : Reads t (skipComment t).2 := by
  fun_induction skipComment t with
  | case1 => exact .refl []
  | case2 => exact .refl _
  | case3 t h0 => exact .cons (by decide)
  | case4 c t h0 hc ih => exact (Reads.cons h0).trans ih

lemma copyTag_reads (length : ℕ) (t : Text) : Reads t (copyTag length t).2 := by
  induction t generalizing length with
  | nil => exact .refl []
  | cons c t ih =>
    rw [copyTag]
    split_ifs with hc
    · exact .cons (ne_zero_of_isAlphaNumeric hc)
    · exact (Reads.cons (ne_zero_of_isAlphaNumeric hc)).trans (ih _)
    · exact .refl _

lemma copyAttribute_reads (length : ℕ) (t : Text) : Reads t (copyAttribute length t).2 := by
  induction t generalizing length with
  | nil => exact .refl []
  | cons c t ih =>
    rw [copyAttribute]
    split_ifs with hc
    · exact .refl _
    · exact (Reads.cons (ne_zero_of_isAlphaNumeric hc)).trans (ih _)
    · exact .refl _

lemma getString_reads (t : Text) : Reads t (getString t).rest := by
  have hdrop : Reads t (t.dropWhile fun c => c≠0 ∧ c≠0x3c) := .dropWhile (by decide) t
  rw [getString]
  dsimp only
  split_ifs
  · exact hdrop
  · exact hdrop

lemma nextChar_suffix (t : Text) : nextChar t <:+ t := tail_suffix t

lemma length_nextChar (t : Text) : t.length≤(nextChar t).length+1 := by
  rw [nextChar,length_tail]
  omega

lemma copyString_within (fuel left : ℕ) (t : Text) : (copyString fuel left t).2 <:+ t ∧
    t.length≤(copyString fuel left t).2.length+left := by
  induction fuel generalizing left t with
  | zero => exact ⟨suffix_refl t,Nat.le_add_right _ _⟩
  | succ fuel ih =>
    have hone := nextChar_suffix t
    have htwo := (nextChar_suffix (nextChar t)).trans hone
    have hthree := (nextChar_suffix (nextChar (nextChar t))).trans htwo
    have hfour := (nextChar_suffix (nextChar (nextChar (nextChar t)))).trans hthree
    have hfive := (nextChar_suffix (nextChar (nextChar (nextChar (nextChar t))))).trans hfour
    have lone := length_nextChar t
    have ltwo := length_nextChar (nextChar t)
    have lthree := length_nextChar (nextChar (nextChar t))
    have lfour := length_nextChar (nextChar (nextChar (nextChar t)))
    have lfive := length_nextChar (nextChar (nextChar (nextChar (nextChar t))))
    have ione := ih (left-1) (nextChar t)
    have ifour := ih (left-4) (nextChar (nextChar (nextChar (nextChar t))))
    have ifive := ih (left-5) (nextChar (nextChar (nextChar (nextChar (nextChar t)))))
    rw [copyString]
    dsimp only
    by_cases hleft : left=0
    · rw [if_pos hleft]
      exact ⟨suffix_refl t,Nat.le_add_right _ _⟩
    rw [if_neg hleft]
    by_cases hchar : currentChar t≠0x26
    · rw [if_pos hchar]
      exact ⟨ione.1.trans hone,by dsimp only; omega⟩
    rw [if_neg hchar]
    by_cases hthree' : left-1<3
    · rw [if_pos hthree']
      exact ⟨hone,by dsimp only; omega⟩
    rw [if_neg hthree']
    by_cases hangle : currentChar (nextChar t)=0x6c ∨ currentChar (nextChar t)=0x67
    · rw [if_pos hangle]
      by_cases ht : currentChar (nextChar (nextChar t))≠0x74
      · rw [if_pos ht]
        exact ⟨hthree,by dsimp only; omega⟩
      rw [if_neg ht]
      by_cases hsemi : currentChar (nextChar (nextChar (nextChar t)))≠0x3b
      · rw [if_pos hsemi]
        exact ⟨hfour,by dsimp only; omega⟩
      rw [if_neg hsemi]
      exact ⟨ifour.1.trans hfour,by dsimp only; omega⟩
    rw [if_neg hangle]
    by_cases hlong : left-2<3
    · rw [if_pos hlong]
      exact ⟨htwo,by dsimp only; omega⟩
    rw [if_neg hlong]
    by_cases ha : currentChar (nextChar t)=0x61
    · rw [if_pos ha]
      by_cases hm : currentChar (nextChar (nextChar t))≠0x6d
      · rw [if_pos hm]
        exact ⟨hthree,by dsimp only; omega⟩
      rw [if_neg hm]
      by_cases hp : currentChar (nextChar (nextChar (nextChar t)))≠0x70
      · rw [if_pos hp]
        exact ⟨hfour,by dsimp only; omega⟩
      rw [if_neg hp]
      by_cases hsemi : currentChar (nextChar (nextChar (nextChar (nextChar t))))≠0x3b
      · rw [if_pos hsemi]
        exact ⟨hfive,by dsimp only; omega⟩
      rw [if_neg hsemi]
      exact ⟨ifive.1.trans hfive,by dsimp only; omega⟩
    · rw [if_neg ha]
      exact ⟨htwo,by dsimp only; omega⟩

lemma getString_copied (t : Text) : ∀ u∈(getString t).copied,Reads t u := by
  have hdrop : Reads t (t.dropWhile fun c => c≠0 ∧ c≠0x3c) := .dropWhile (by decide) t
  have hle := hdrop.length_le
  rw [getString]
  dsimp only
  split_ifs
  · exact fun u hu => absurd hu not_mem_nil
  · intro u hu
    rw [mem_singleton.mp hu]
    obtain ⟨hsuffix,hlength⟩ := copyString_within
      (t.length-(t.dropWhile fun c => c≠0 ∧ c≠0x3c).length)
      (t.length-(t.dropWhile fun c => c≠0 ∧ c≠0x3c).length) t
    refine ⟨hsuffix,fun beyond hb => suffix_of_suffix_length_le hb hsuffix ?_⟩
    have := (hdrop.ended beyond hb).length_le
    omega

lemma getDigits_reads {isBaseDigit : UInt8 → Bool} (h0 : isBaseDigit 0=false) (base n : ℕ)
    (t : Text) : Reads t (getDigits isBaseDigit base n t).2 := by
  induction t generalizing n with
  | nil => exact .refl []
  | cons c t ih =>
    rw [getDigits]
    split_ifs with hc
    · refine (Reads.cons fun hzero => ?_).trans (ih _)
      rw [hzero,h0] at hc
      exact Bool.false_ne_true hc
    · refine (Reads.cons fun hzero => ?_).trans (ih _)
      rw [hzero,h0] at hc
      exact Bool.false_ne_true hc
    · exact .refl _

lemma getNumber_reads (t : Text) : Reads t (getNumber t).2 := by
  rw [getNumber]
  split_ifs with hdigit hzero hx
  · exact .refl t
  · refine ((Reads.next ?_).trans (.next ?_)).trans (getDigits_reads (by decide) 16 0 _)
    · rw [hzero]
      decide
    · rw [hx]
      decide
  · refine (Reads.next ?_).trans (getDigits_reads (by decide) 10 0 _)
    rw [hzero]
    decide
  · exact getDigits_reads (by decide) 10 0 t

lemma encodedLoop_reads (numeq acc cntr : ℕ) (t : Text) :
    Reads t (encodedLoop numeq acc cntr t).2 := by
  induction t generalizing numeq acc cntr with
  | nil => exact .refl []
  | cons c t ih =>
    rw [encodedLoop]
    by_cases hc : c=0x3c
    · rw [if_pos hc]
      exact .refl _
    rw [if_neg hc]
    dsimp only
    by_cases hlow : c&&&0x7f=0
    · rw [if_pos hlow]
      exact .refl _
    rw [if_neg hlow]
    have h0 : c≠0 := by
      rintro rfl
      exact hlow rfl
    cases hv : decodeTable (c&&&0x7f) with
    | none => exact (Reads.cons h0).trans (ih _ _ _)
    | some v =>
      dsimp only
      rw [apply_ite Prod.snd,ite_self]
      exact (Reads.cons h0).trans (ih _ _ _)

lemma nibble_zero : nibble 0=none := by decide

lemma hexLoop_reads (afterSpace : Bool) (t : Text) : Reads t (hexLoop afterSpace t).2 := by
  fun_induction hexLoop afterSpace t with
  | case1 => exact .refl []
  | case2 => exact .refl _
  | case3 afterSpace c t hend hspace ih =>
    refine (Reads.cons fun h0 => ?_).trans ih
    rw [h0] at hspace
    exact absurd hspace (by decide)
  | case4 afterSpace t hend hspace ih => exact (Reads.cons (by decide)).trans ih
  | case5 => exact .refl _
  | case6 afterSpace c hend hspace hline high hhigh =>
    refine Reads.cons fun h0 => ?_
    rw [h0,nibble_zero] at hhigh
    cases hhigh
  | case7 afterSpace c hend hspace hline high c' t hhigh hlow =>
    refine Reads.cons fun h0 => ?_
    rw [h0,nibble_zero] at hhigh
    cases hhigh
  | case8 afterSpace c hend hspace hline high c' t hhigh low hlow ih =>
    refine (Reads.cons fun h0 => ?_).trans ((Reads.cons fun h0 => ?_).trans ih)
    · rw [h0,nibble_zero] at hhigh
      cases hhigh
    · rw [h0,nibble_zero] at hlow
      cases hlow

end Reads
end Darwin.Libkern.UnserializeXML
