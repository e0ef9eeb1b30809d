import Mathlib.Data.UInt
import Mathlib.Tactic

/-! The escaping of binary properties in NVRAM: `escapeDataToData` and `unescapeBytesToData` of
`iokit/Kernel/IONVRAM.cpp`. -/
open List Option
namespace Darwin.IOKit.Nvram

/-- The object that the escaped bytes are appended to, with `ok` and the number of calls so far. -/
structure Result where
  bytes : List UInt8
  ok : Bool
  calls : ℕ

/-- `ok &= result->appendByte(byte,1)`, where `room` says which calls find room. -/
def Result.appendByte (room : ℕ → Bool) (r : Result) (byte : UInt8) : Result :=
  if room r.calls then ⟨r.bytes++[byte],r.ok,r.calls+1⟩ else ⟨r.bytes,false,r.calls+1⟩

def runLength (byte : UInt8) : ℕ → List UInt8 → ℕ
  | count,[] => count
  | count,next::rest =>
    if count<0x80 ∧ byte=next then runLength byte (count+1) rest else count

def escapeLoop (room : ℕ → Bool) (r : Result) : List UInt8 → Result
  | [] => r
  | byte::rest =>
    if byte=0x00 ∨ byte=0xFF then
      let run := runLength byte 1 rest
      escapeLoop room
        ((r.appendByte room 0xFF).appendByte room ((byte&&&0x80)|||UInt8.ofNat run))
        (rest.drop (run-1))
    else escapeLoop room (r.appendByte room byte) rest
termination_by value => value.length
decreasing_by all_goals simp

def escapeDataToData (withCapacity : ℕ → Bool) (room : ℕ → Bool) (value : List UInt8) :
    Option (List UInt8) :=
  if withCapacity value.length=false then none
  else
    let r := (escapeLoop room ⟨[],true,0⟩ value).appendByte room 0
    if r.ok then some r.bytes else none

/-- The first pass, from `cnt` on: `totalLength`, or nothing when it is not `ok`. -/
def countLoop (bytes : ℕ → UInt8) (length cnt totalLength : ℕ) : Option ℕ :=
  if cnt<length then
    if bytes cnt=0xFF then
      if bytes (cnt+1)=0x00 then none
      else countLoop bytes length (cnt+2) (totalLength+(bytes (cnt+1)&&&0x7F).toNat)
    else countLoop bytes length (cnt+1) (totalLength+1)
  else some totalLength
termination_by length-cnt

def fillLoop (bytes : ℕ → UInt8) (length cnt : ℕ) (data : List UInt8) : List UInt8 × ℕ :=
  if cnt<length then
    if bytes cnt=0xFF then
      fillLoop bytes length (cnt+2) (data++replicate (bytes (cnt+1)&&&0x7F).toNat
        (if bytes (cnt+1)&&&0x80≠0 then 0xFF else 0x00))
    else fillLoop bytes length (cnt+1) (data++[bytes cnt])
  else (data,cnt)
termination_by length-cnt

/-- `bytes` is the memory from the pointer on. Besides the data, the number of bytes that were taken
is given. -/
def unescapeBytesToData (withCapacity : ℕ → Bool) (bytes : ℕ → UInt8) (length : ℕ) :
    Option (List UInt8 × ℕ) :=
  match countLoop bytes length 0 0 with
  | none => none
  | some totalLength =>
    if withCapacity totalLength=false then none else some (fillLoop bytes length 0 [])

/-! ### The escaped text -/

def escapeText : List UInt8 → List UInt8
  | [] => []
  | byte::rest =>
    if byte=0x00 ∨ byte=0xFF then
      let run := runLength byte 1 rest
      0xFF::((byte&&&0x80)|||UInt8.ofNat run)::escapeText (rest.drop (run-1))
    else byte::escapeText rest
termination_by value => value.length
decreasing_by all_goals simp

def readBack : List UInt8 → List UInt8
  | [] => []
  | byte::rest =>
    if byte=0x00 ∨ byte=0xFF then
      let run := runLength byte 1 rest
      replicate (run%0x80) byte++readBack (rest.drop (run-1))
    else byte::readBack rest
termination_by value => value.length
decreasing_by all_goals simp

def HasLongRun (value : List UInt8) : Prop :=
  ∃ byte : UInt8,(byte=0x00 ∨ byte=0xFF) ∧ replicate 0x80 byte <:+: value

@[simp] lemma Result.appendByte_ok (room : ℕ → Bool) (r : Result) (byte : UInt8) :
    (r.appendByte room byte).ok=true ↔ r.ok=true ∧ room r.calls=true := by
  unfold appendByte
  split <;> simp_all

lemma Result.appendByte_bytes {room : ℕ → Bool} {r : Result} (byte : UInt8)
    (h : room r.calls=true) : (r.appendByte room byte).bytes=r.bytes++[byte] := by
  simp [appendByte,h]

lemma escapeLoop_bytes (room : ℕ → Bool) (value : List UInt8) (r : Result)
    (hok : (escapeLoop room r value).ok=true) :
    r.ok=true ∧ (escapeLoop room r value).bytes=r.bytes++escapeText value := by
  induction value using escapeText.induct generalizing r with
  | case1 => simpa [escapeLoop,escapeText] using hok
  | case2 byte rest hbyte run ih =>
    rw [escapeLoop,if_pos hbyte] at hok ⊢
    obtain ⟨happended,hbytes⟩ := ih _ hok
    simp only [Result.appendByte_ok] at happended
    obtain ⟨⟨hr,hfirst⟩,hsecond⟩ := happended
    refine ⟨hr,?_⟩
    rw [hbytes,Result.appendByte_bytes _ hsecond,Result.appendByte_bytes _ hfirst,escapeText,
      if_pos hbyte]
    simp [run]
  | case3 byte rest hbyte ih =>
    rw [escapeLoop,if_neg hbyte] at hok ⊢
    obtain ⟨happended,hbytes⟩ := ih _ hok
    obtain ⟨hr,hfirst⟩ := (Result.appendByte_ok ..).mp happended
    refine ⟨hr,?_⟩
    rw [hbytes,Result.appendByte_bytes _ hfirst,escapeText,if_neg hbyte]
    simp

lemma escapeDataToData_eq_some {withCapacity room : ℕ → Bool} {value escaped : List UInt8}
    (h : escapeDataToData withCapacity room value=some escaped) :
    escaped=escapeText value++[0] := by
  unfold escapeDataToData at h
  split at h
  · cases h
  · simp only [ite_none_right_eq_some,some.injEq,Result.appendByte_ok] at h
    obtain ⟨⟨hok,hroom⟩,rfl⟩ := h
    rw [Result.appendByte_bytes _ hroom,(escapeLoop_bytes room value _ hok).2]
    simp

/-! ### The length of a run -/

lemma le_runLength (byte : UInt8) (rest : List UInt8) (count : ℕ) :
    count≤runLength byte count rest := by
  induction rest generalizing count with
  | nil => simp [runLength]
  | cons next rest ih =>
    rw [runLength]
    split
    · exact (Nat.le_succ count).trans (ih (count+1))
    · exact le_rfl

lemma runLength_le (byte : UInt8) (rest : List UInt8) {count : ℕ} (hcount : count≤0x80) :
    runLength byte count rest≤0x80 := by
  induction rest generalizing count with
  | nil => simpa [runLength] using hcount
  | cons next rest ih =>
    rw [runLength]
    split
    · next h => exact ih (by omega)
    · exact hcount

lemma replicate_append_drop_runLength (byte : UInt8) (rest : List UInt8) (count : ℕ) :
    replicate (runLength byte count rest-count) byte ++
      rest.drop (runLength byte count rest-count)=rest := by
  induction rest generalizing count with
  | nil => simp [runLength]
  | cons next rest ih =>
    rw [runLength]
    split
    · next h =>
      obtain ⟨hcount,rfl⟩ := h
      have hle := le_runLength byte rest (count+1)
      obtain ⟨k,hk⟩ := Nat.exists_eq_add_of_le hle
      have hrest := ih (count+1)
      rw [hk] at hrest ⊢
      rw [show count+1+k-(count+1)=k by omega] at hrest
      rw [show count+1+k-count=k+1 by omega,replicate_succ,drop_succ_cons,
        cons_append,hrest]
    · simp

lemma head_drop_runLength (byte : UInt8) (rest : List UInt8) (count : ℕ)
    (h : runLength byte count rest<0x80) :
    (rest.drop (runLength byte count rest-count)).head?≠some byte := by
  induction rest generalizing count with
  | nil => simp
  | cons next rest ih =>
    rw [runLength] at h ⊢
    split at h
    · next hnext =>
      rw [if_pos hnext]
      have hle := le_runLength byte rest (count+1)
      rw [show runLength byte (count+1) rest-count =
        runLength byte (count+1) rest-(count+1)+1 by omega,drop_succ_cons]
      exact ih (count+1) h
    · next hnext =>
      rw [if_neg hnext]
      simp only [Nat.sub_self,drop_zero,head?_cons,ne_eq,some.injEq]
      exact fun heq => hnext ⟨h,heq.symm⟩

/-! ### Reading back -/

lemma runCode : ∀ run : Fin 129,1≤run.val → ∀ byte : UInt8,byte=0x00 ∨ byte=0xFF →
    (byte&&&0x80)|||UInt8.ofNat run.val≠0 ∧
    (((byte&&&0x80)|||UInt8.ofNat run.val)&&&0x7F).toNat=run.val%0x80 ∧
    (run.val<0x80 → (if ((byte&&&0x80)|||UInt8.ofNat run.val)&&&0x80≠0 then 0xFF
      else 0x00)=byte) := by
  rintro run hrun byte (rfl | rfl)
  · revert run
    decide
  · revert run
    decide

lemma runCode_runLength {byte : UInt8} (hbyte : byte=0x00 ∨ byte=0xFF) (rest : List UInt8) :
    (byte&&&0x80)|||UInt8.ofNat (runLength byte 1 rest)≠0 ∧
    (((byte&&&0x80)|||UInt8.ofNat (runLength byte 1 rest))&&&0x7F).toNat =
      runLength byte 1 rest%0x80 ∧ (runLength byte 1 rest<0x80 →
      (if ((byte&&&0x80)|||UInt8.ofNat (runLength byte 1 rest))&&&0x80≠0 then 0xFF
        else 0x00)=byte) :=
  runCode ⟨runLength byte 1 rest,Nat.lt_succ_of_le (runLength_le byte rest (by decide))⟩
    (le_runLength byte rest 1) byte hbyte

def Holds (bytes : ℕ → UInt8) (cnt : ℕ) (text : List UInt8) : Prop :=
  ∀ i (h : i<text.length),bytes (cnt+i)=text[i]

variable {bytes : ℕ → UInt8}

lemma holds_cons {cnt : ℕ} {byte : UInt8} {text : List UInt8} :
    Holds bytes cnt (byte::text) ↔ bytes cnt=byte ∧ Holds bytes (cnt+1) text := by
  constructor
  · intro h
    refine ⟨h 0 (by simp),fun i hi => ?_⟩
    have := h (i+1) (by simpa using hi)
    rwa [show cnt+(i+1)=cnt+1+i by omega,getElem_cons_succ] at this
  · rintro ⟨hbyte,htext⟩ (_ | i) hi
    · exact hbyte
    · have := htext i (by simpa using hi)
      rwa [show cnt+1+i=cnt+(i+1) by omega] at this

lemma holds_getD (text : List UInt8) : Holds (fun i => text.getD i 0) 0 text := by
  intro i hi
  simp [getD_eq_getElem?_getD,hi]

lemma Holds.left {cnt : ℕ} {text rest : List UInt8}
    (h : Holds bytes cnt (text++rest)) : Holds bytes cnt text := by
  intro i hi
  have := h i (by simp; omega)
  rwa [getElem_append_left hi] at this

lemma fillLoop_escapeText {length : ℕ} (value : List UInt8) (cnt : ℕ)
    (data : List UInt8) (htext : Holds bytes cnt (escapeText value))
    (hlength : length=cnt+(escapeText value).length) :
    fillLoop bytes length cnt data=(data++readBack value,length) := by
  induction value using escapeText.induct generalizing cnt data with
  | case1 =>
    rw [fillLoop,if_neg (by simp [hlength,escapeText]),hlength]
    simp [escapeText,readBack]
  | case2 byte rest hbyte run ih =>
    rw [escapeText,if_pos hbyte] at htext hlength
    obtain ⟨hfirst,hsecond,hrest⟩ := by simpa only [holds_cons] using htext
    simp only [length_cons] at hlength
    obtain ⟨-,hcount,hpolarity⟩ := runCode_runLength hbyte rest
    rw [fillLoop,if_pos (by omega),if_pos hfirst,hsecond,hcount,
      ih (cnt+2) _ hrest (by simp only [run]; omega),readBack,if_pos hbyte]
    by_cases hrun : runLength byte 1 rest<0x80
    · rw [hpolarity hrun]
      simp [run]
    · have := runLength_le byte rest (by decide : 1≤0x80)
      have hzero : runLength byte 1 rest%0x80=0 := by omega
      simp [run,hzero]
  | case3 byte rest hbyte ih =>
    rw [escapeText,if_neg hbyte] at htext hlength
    obtain ⟨hfirst,hrest⟩ := holds_cons.mp htext
    rw [length_cons] at hlength
    rw [fillLoop,if_pos (by omega),if_neg (by rw [hfirst]; exact fun h => hbyte (.inr h)),
      ih (cnt+1) _ hrest (by omega),readBack,if_neg hbyte,hfirst]
    simp

lemma countLoop_escapeText {length : ℕ} (value : List UInt8)
    (cnt totalLength : ℕ) (htext : Holds bytes cnt (escapeText value))
    (hlength : length=cnt+(escapeText value).length) :
    countLoop bytes length cnt totalLength=some (totalLength+(readBack value).length) := by
  induction value using escapeText.induct generalizing cnt totalLength with
  | case1 =>
    rw [countLoop,if_neg (by simp [hlength,escapeText])]
    simp [readBack]
  | case2 byte rest hbyte run ih =>
    rw [escapeText,if_pos hbyte] at htext hlength
    obtain ⟨hfirst,hsecond,hrest⟩ := by simpa only [holds_cons] using htext
    simp only [length_cons] at hlength
    obtain ⟨hcode,hcount,-⟩ := runCode_runLength hbyte rest
    rw [countLoop,if_pos (by omega),if_pos hfirst,hsecond,if_neg hcode,hcount,
      ih (cnt+2) _ hrest (by simp only [run]; omega),readBack,if_pos hbyte]
    simp [run,Nat.add_assoc]
  | case3 byte rest hbyte ih =>
    rw [escapeText,if_neg hbyte] at htext hlength
    obtain ⟨hfirst,hrest⟩ := holds_cons.mp htext
    rw [length_cons] at hlength
    rw [countLoop,if_pos (by omega),if_neg (by rw [hfirst]; exact fun h => hbyte (.inr h)),
      ih (cnt+1) _ hrest (by omega),readBack,if_neg hbyte]
    simp only [length_cons,some.injEq]
    omega

lemma unescapeBytesToData_escapeText (withCapacity : ℕ → Bool)
    (value : List UInt8) (htext : Holds bytes 0 (escapeText value)) :
    unescapeBytesToData withCapacity bytes (escapeText value).length =
      if withCapacity (readBack value).length=false then none
      else some (readBack value,(escapeText value).length) := by
  rw [unescapeBytesToData,countLoop_escapeText value 0 0 htext (by simp),
    fillLoop_escapeText value 0 [] htext (by simp)]
  simp

lemma zero_notMem_escapeText (value : List UInt8) : 0∉escapeText value := by
  induction value using escapeText.induct with
  | case1 => simp [escapeText]
  | case2 byte rest hbyte run ih =>
    rw [escapeText,if_pos hbyte]
    have hcode := (runCode_runLength hbyte rest).1
    simp only [mem_cons,not_or]
    exact ⟨by decide,hcode.symm,ih⟩
  | case3 byte rest hbyte ih =>
    rw [escapeText,if_neg hbyte,mem_cons]
    exact fun h => h.elim (fun heq => hbyte (.inl heq.symm)) ih

/-! ### Runs of 128 bytes -/

lemma length_readBack_le (value : List UInt8) : (readBack value).length≤value.length := by
  induction value using readBack.induct with
  | case1 => simp [readBack]
  | case2 byte rest hbyte run ih =>
    rw [readBack,if_pos hbyte]
    have hle := le_runLength byte rest 1
    have hmod := Nat.mod_le (runLength byte 1 rest) 0x80
    have hrest := congrArg List.length (replicate_append_drop_runLength byte rest 1)
    simp only [length_append,length_replicate,length_cons,run] at hrest ih ⊢
    omega
  | case3 byte rest hbyte ih =>
    rw [readBack,if_neg hbyte]
    simpa using ih

lemma replicate_infix_append {byte other : UInt8} {rest : List UInt8} {n k : ℕ} (hk : k<n)
    (hhead : rest.head?≠some byte) : replicate n other <:+: replicate k byte++rest ↔
      replicate n other <:+: rest := by
  induction k with
  | zero => simp
  | succ k ih =>
    rw [replicate_succ,cons_append,infix_cons_iff,ih (by omega)]
    refine ⟨fun h => h.elim (fun hhead => ?_) id,Or.inr⟩
    exfalso
    obtain ⟨tail,htail⟩ := hhead
    have hget : ∀ i,i<n → (byte::(replicate k byte++rest))[i]?=some other := by
      intro i hi
      rw [←htail,getElem?_append_left (by simpa using hi)]
      simp [hi]
    have hfirst := hget 0 (by omega)
    have hnext := hget (k+1) hk
    rw [getElem?_cons_succ,getElem?_append_right (by simp)] at hnext
    simp only [getElem?_cons_zero,some.injEq] at hfirst
    rw [length_replicate,Nat.sub_self,←hfirst,←head?_eq_getElem?] at hnext
    exact hhead hnext

lemma readBack_eq_iff (value : List UInt8) : readBack value=value ↔ ¬HasLongRun value := by
  induction value using readBack.induct with
  | case1 => simp [readBack,HasLongRun]
  | case2 byte rest hbyte run ih =>
    have hone := le_runLength byte rest 1
    have hrest := replicate_append_drop_runLength byte rest 1
    have hvalue : byte::rest=replicate run byte++rest.drop (run-1) := by
      obtain ⟨k,hk⟩ : ∃ k,run=k+1 := ⟨run-1,by simp only [run]; omega⟩
      rw [hk,replicate_succ,cons_append,Nat.add_sub_cancel]
      congr 1
      simpa [run,hk] using hrest.symm
    rw [readBack,if_pos hbyte]
    change replicate (run%0x80) byte++readBack (rest.drop (run-1))=_ ↔ _
    by_cases hrun : run<0x80
    · rw [Nat.mod_eq_of_lt hrun,hvalue,append_cancel_left_eq,ih]
      refine not_congr (exists_congr fun other => and_congr_right fun _ => ?_)
      exact (replicate_infix_append hrun (head_drop_runLength byte rest 1 hrun)).symm
    · have hfull : run=0x80 := by
        have := runLength_le byte rest (by decide : 1≤0x80)
        simp only [run] at hrun ⊢
        omega
      constructor
      · intro heq
        have hle := length_readBack_le (rest.drop (run-1))
        have := congrArg List.length heq
        simp only [hfull,Nat.mod_self,replicate_zero,nil_append,length_cons,length_drop] at this hle
        omega
      · intro hlong
        refine absurd ⟨byte,hbyte,?_⟩ hlong
        rw [hvalue,hfull]
        exact (prefix_append _ _).isInfix
  | case3 byte rest hbyte ih =>
    rw [readBack,if_neg hbyte,List.cons.injEq,ih]
    simp only [true_and,HasLongRun,not_iff_not]
    refine exists_congr fun other => and_congr_right fun hother => ?_
    rw [infix_cons_iff]
    refine ⟨Or.inr,fun h => h.elim (fun hhead => ?_) id⟩
    rw [replicate_succ,cons_prefix_cons] at hhead
    exact absurd (hhead.1▸hother) hbyte

/-- What is promised of an escaped value: it ends with its only zero byte, and wherever it stands in
memory, what is read up to that byte is the value, with all bytes of the text taken. -/
def RoundTrips (value escaped : List UInt8) : Prop :=
  ∃ text,escaped=text++[0] ∧ 0∉text ∧ ∀ withCapacity bytes,Holds bytes 0 escaped →
      unescapeBytesToData withCapacity bytes text.length =
        if withCapacity value.length=false then none else some (value,text.length)

/-- The run loop lets a run have 128 bytes, and then its code says 0. -/
theorem escapeDataToData_roundTrips_iff (withCapacity room : ℕ → Bool)
    (value escaped : List UInt8)
    (h : escapeDataToData withCapacity room value=some escaped) :
    RoundTrips value escaped ↔ ¬HasLongRun value := by
  obtain rfl := escapeDataToData_eq_some h
  rw [←readBack_eq_iff]
  constructor
  · rintro ⟨text,htext,-,hread⟩
    obtain rfl : escapeText value=text := append_cancel_right htext
    have hholds := holds_getD (escapeText value++[0])
    have := hread (fun _ => true) _ hholds
    rw [unescapeBytesToData_escapeText _ value hholds.left] at this
    simpa using this
  · intro heq
    refine ⟨escapeText value,rfl,zero_notMem_escapeText value,fun capacity bytes hholds => ?_⟩
    rw [unescapeBytesToData_escapeText _ value hholds.left,heq]

theorem escapeDataToData_roundTrips_iff_zeros :
    escapeDataToData (fun _ => true) (fun _ => true) [0x00,0x00,0xFF] =
      some [0xFF,0x02,0xFF,0x81,0x00] ∧
    (RoundTrips [0x00,0x00,0xFF] [0xFF,0x02,0xFF,0x81,0x00] ↔ ¬HasLongRun [0x00,0x00,0xFF]) := by
  have h : escapeDataToData (fun _ => true) (fun _ => true) [0x00,0x00,0xFF] =
      some [0xFF,0x02,0xFF,0x81,0x00] := by decide +kernel
  exact ⟨h,escapeDataToData_roundTrips_iff _ _ _ _ h⟩

/-- 128 zero bytes come back as none. -/
theorem zeros_readBack_lost :
    escapeDataToData (fun _ => true) (fun _ => true) (replicate 128 0)=some [0xFF,0x80,0x00] ∧
    ¬RoundTrips (replicate 128 0) [0xFF,0x80,0x00] := by
  have hzeros : escapeDataToData (fun _ => true) (fun _ => true) (replicate 128 0) =
      some [0xFF,0x80,0x00] := by decide +kernel
  refine ⟨hzeros,?_⟩
  rintro ⟨text,htext,-,hread⟩
  obtain rfl : [0xFF,0x80]=text := (append_left_inj [0]).mp htext
  have hvalue := hread (fun _ => true) _ (holds_getD _)
  have hnone : unescapeBytesToData (fun _ => true) (fun i => [0xFF,0x80,0x00].getD i 0) 2 =
      some ([],2) := by decide +kernel
  exact absurd (hnone.symm.trans hvalue) (by decide)

end Darwin.IOKit.Nvram
