import Mathlib.Data.UInt
import Mathlib.Tactic

/-! Growing data objects: `appendBytes`, `appendByte`, `ensureCapacity`, `setCapacityIncrement` and
`getBytesNoCopy` of `libkern/c++/OSData.cpp`. -/
open List Nat
namespace Darwin.Libkern

/-- The object; `data` is the block that its pointer points to. -/
structure OSData where
  length : UInt32
  capacity : UInt32
  capacityIncrement : UInt32
  data : List UInt8

namespace OSData

def EXTERNAL : UInt32 := 0xffffffff

/-- What a call can run into besides returning. -/
inductive Fault
  | divideByZero
  | overrun
  deriving DecidableEq,Repr

def contents (d : OSData) : List UInt8 := d.data.take d.length.toNat

def withCapacity (inCapacity : UInt32) (fresh : List UInt8) : OSData :=
  ⟨0,inCapacity,if inCapacity=0 then 16 else inCapacity,fresh⟩

def withBytes (bytes : List UInt8) (inLength : UInt32) : OSData :=
  {withCapacity inLength bytes with length := inLength}

def withBytesNoCopy (bytes : List UInt8) (inLength : UInt32) : OSData :=
  ⟨inLength,EXTERNAL,0,bytes⟩

def roundedCapacity (d : OSData) (newCapacity : UInt32) : UInt32 :=
  ((newCapacity-1)/d.capacityIncrement+1)*d.capacityIncrement

/-- What is returned is the capacity afterwards. With a smaller new block, clearing it from the old
capacity on goes beyond it, and so does copying the old one. -/
def ensureCapacity (d : OSData) (kalloc : Bool) (newCapacity : UInt32) : Except Fault OSData :=
  if newCapacity≤d.capacity then .ok d
  else if d.capacityIncrement=0 then .error .divideByZero
  else if kalloc=false then .ok d
  else if d.roundedCapacity newCapacity<d.capacity then .error .overrun
  else .ok { d with
    data := d.data.take d.capacity.toNat ++
      replicate (d.roundedCapacity newCapacity-d.capacity).toNat 0
    capacity := d.roundedCapacity newCapacity}

/-- The common course of `appendBytes` and `appendByte`, which put a block at the end. -/
def append (d : OSData) (kalloc : Bool) (block : List UInt8) (inLength : UInt32) :
    Except Fault (OSData × Bool) :=
  if inLength=0 then .ok (d,true)
  else if d.capacity=EXTERNAL then .ok (d,false)
  else
    let newSize := d.length+inLength
    match if d.capacity<newSize then d.ensureCapacity kalloc newSize else .ok d with
    | .error fault => .error fault
    | .ok d =>
      if d.capacity<newSize then .ok (d,false)
      else if d.data.length<d.length.toNat+block.length then .error .overrun
      else .ok ({ d with
        data := d.data.take d.length.toNat++block++d.data.drop (d.length.toNat+block.length)
        length := newSize},true)

def blockOf (bytes : ℕ → UInt8) (inLength : UInt32) : List UInt8 :=
  (range inLength.toNat).map bytes

def appendBytes (d : OSData) (kalloc : Bool) (bytes : ℕ → UInt8) (inLength : UInt32) :
    Except Fault (OSData × Bool) := d.append kalloc (blockOf bytes inLength) inLength

def appendByte (d : OSData) (kalloc : Bool) (byte : UInt8) (inLength : UInt32) :
    Except Fault (OSData × Bool) := d.append kalloc (replicate inLength.toNat byte) inLength

def setCapacityIncrement (d : OSData) (increment : UInt32) : OSData :=
  {d with capacityIncrement := increment}

def getBytesNoCopy (d : OSData) (start inLength : UInt32) : Option UInt32 :=
  if d.length≠0 ∧ start<d.length ∧ start+inLength≤d.length then some start else none

/-! ### Runs -/

inductive Call
  | appendBytes (bytes : ℕ → UInt8) (inLength : UInt32)
  | appendByte (byte : UInt8) (inLength : UInt32)
  | ensureCapacity (newCapacity : UInt32)
  | setCapacityIncrement (increment : UInt32)
  | getBytesNoCopy (start inLength : UInt32)

inductive Answer
  | bool (value : Bool)
  | size (value : UInt32)
  | pointer (offset : Option UInt32)

def step (d : OSData) (kalloc : Bool) : Call → Except Fault (OSData × Answer)
  | .appendBytes bytes inLength =>
    (d.appendBytes kalloc bytes inLength).map fun r => (r.1,.bool r.2)
  | .appendByte byte inLength => (d.appendByte kalloc byte inLength).map fun r => (r.1,.bool r.2)
  | .ensureCapacity newCapacity =>
    (d.ensureCapacity kalloc newCapacity).map fun r => (r,.size r.capacity)
  | .setCapacityIncrement increment => .ok (d.setCapacityIncrement increment,.size increment)
  | .getBytesNoCopy start inLength => .ok (d,.pointer (d.getBytesNoCopy start inLength))

def Call.block : Call → List UInt8
  | .appendBytes bytes inLength => blockOf bytes inLength
  | .appendByte byte inLength => replicate inLength.toNat byte
  | _ => []

def appended (call : Call) : Answer → List UInt8
  | .bool true => call.block
  | _ => []

def PointsInside (d : OSData) : Call → Answer → Prop
  | .getBytesNoCopy start inLength,.pointer (some offset) =>
    offset=start ∧ start.toNat+inLength.toNat≤d.length.toNat
  | _,_ => True

/-- What is promised of a run, `stored` being what has been appended before: every call returns, the
length stays within the capacity, the contents are what has been appended, and every pointer is to
bytes of the object. -/
def Safe (d : OSData) (stored : List UInt8) : List (Call × Bool) → Prop
  | [] => d.length≤d.capacity ∧ d.contents=stored
  | (call,kalloc)::calls => (d.length≤d.capacity ∧ d.contents=stored) ∧
    ∃ d' answer,d.step kalloc call=.ok (d',answer) ∧ d.PointsInside call answer ∧
      Safe d' (stored++appended call answer) calls

/-- Growing to this size is not needed, or is done without a zero increment, to a rounded size that
in 32 bits has not become less than the capacity. -/
def Grows (d : OSData) (kalloc : Bool) (size : ℕ) : Prop :=
  size≤d.capacity.toNat ∨ d.capacityIncrement≠0 ∧ (kalloc=true →
    d.capacity.toNat≤((size-1)/d.capacityIncrement.toNat+1) * d.capacityIncrement.toNat%2^32)

/-- There is nothing to append, or the block is not the object's own, or the new length has 32 bits
and the block has it or grows to it. -/
def AppendFits (d : OSData) (kalloc : Bool) (inLength : UInt32) : Prop :=
  inLength=0 ∨ d.capacity=EXTERNAL ∨
    d.length.toNat+inLength.toNat<2^32 ∧ d.Grows kalloc (d.length.toNat+inLength.toNat)

def Fits (d : OSData) (kalloc : Bool) : Call → Prop
  | .appendBytes _ inLength | .appendByte _ inLength => d.AppendFits kalloc inLength
  | .ensureCapacity newCapacity => d.Grows kalloc newCapacity.toNat
  | .setCapacityIncrement _ => True
  | .getBytesNoCopy start inLength => start<d.length → start.toNat+inLength.toNat<2^32

def RunFits (d : OSData) : List (Call × Bool) → Prop
  | [] => True
  | (call,kalloc)::calls => d.Fits kalloc call ∧
    ∀ d' answer,d.step kalloc call=.ok (d',answer) → RunFits d' calls

/-- The objects that the constructors make. -/
inductive Made : OSData → Prop
  | withCapacity (inCapacity : UInt32) (fresh : List UInt8)
      (h : fresh.length=inCapacity.toNat) : Made (withCapacity inCapacity fresh)
  | withBytes (bytes : List UInt8) (inLength : UInt32) (h : bytes.length=inLength.toNat) :
      Made (withBytes bytes inLength)
  | withBytesNoCopy (bytes : List UInt8) (inLength : UInt32) (h : bytes.length=inLength.toNat) :
      Made (withBytesNoCopy bytes inLength)

/-- The block has the capacity, unless it is not the object's own; it holds the contents anyway. -/
structure WellFormed (d : OSData) : Prop where
  length_le : d.length≤d.capacity
  holds : d.length.toNat≤d.data.length
  block : d.capacity≠EXTERNAL → d.data.length=d.capacity.toNat

lemma Made.wellFormed {d : OSData} (h : Made d) : WellFormed d := by
  cases h with
  | withCapacity inCapacity fresh h => exact ⟨UInt32.zero_le,zero_le _,fun _ => h⟩
  | withBytes bytes inLength h => exact ⟨UInt32.le_refl _,h.ge,fun _ => h⟩
  | withBytesNoCopy bytes inLength h =>
    refine ⟨?_,h.ge,fun hne => absurd rfl hne⟩
    rw [UInt32.le_iff_toNat_le]
    have := inLength.toNat_lt
    change inLength.toNat≤4294967295
    omega

/-! ### One call -/

section Calls
variable {d : OSData}

lemma roundedCapacity_toNat {n : UInt32} (hn : 0<n.toNat) : (d.roundedCapacity n).toNat =
      ((n.toNat-1)/d.capacityIncrement.toNat+1)*d.capacityIncrement.toNat%2^32 := by
  have hpred : (n-1).toNat=n.toNat-1 :=
    UInt32.toNat_sub_of_le _ _ (UInt32.le_iff_toNat_le.mpr hn)
  have hle := div_le_self (n.toNat-1) d.capacityIncrement.toNat
  have hlt := n.toNat_lt
  rw [roundedCapacity,UInt32.toNat_mul,UInt32.toNat_add,UInt32.toNat_div,hpred,
    mod_eq_of_lt (a := _+_)]
  · rfl
  · change _+1<_
    omega

/-- What a block with the capacity is after a call of `ensureCapacity`. -/
structure Kept (d d' : OSData) : Prop where
  wellFormed : WellFormed d'
  length : d'.length=d.length
  capacity : d.capacity.toNat≤d'.capacity.toNat
  contents : d'.contents=d.contents
  block : d.data.length=d.capacity.toNat → d'.data.length=d'.capacity.toNat

lemma Kept.refl (h : WellFormed d) : Kept d d := ⟨h,rfl,le_refl _,rfl,id⟩

lemma ensureCapacity_cases (h : WellFormed d) (kalloc : Bool) (n : UInt32) :
    (¬d.Grows kalloc n.toNat ∧ ∃ fault,d.ensureCapacity kalloc n=.error fault) ∨
      d.Grows kalloc n.toNat ∧ ∃ d',d.ensureCapacity kalloc n=.ok d' ∧ Kept d d' := by
  rw [ensureCapacity,Grows]
  by_cases hfits : n≤d.capacity
  · rw [if_pos hfits]
    exact .inr ⟨.inl (UInt32.le_iff_toNat_le.mp hfits),_,rfl,.refl h⟩
  have hgt : d.capacity.toNat<n.toNat := by rwa [UInt32.le_iff_toNat_le,not_le] at hfits
  have hround := roundedCapacity_toNat (d := d) (n := n) (by omega)
  rw [if_neg hfits,or_iff_right (not_le.mpr hgt),←hround]
  by_cases hzero : d.capacityIncrement=0
  · rw [if_pos hzero]
    exact .inl ⟨fun hg => hg.1 hzero,_,rfl⟩
  rw [if_neg hzero]
  cases kalloc with
  | false => exact .inr ⟨⟨hzero,fun hf => absurd hf (by decide)⟩,_,if_pos rfl,.refl h⟩
  | true =>
    rw [if_neg (by decide)]
    by_cases hless : d.roundedCapacity n<d.capacity
    · rw [if_pos hless]
      refine .inl ⟨fun hg => ?_,_,rfl⟩
      exact absurd (hg.2 rfl) (not_le.mpr (UInt32.lt_iff_toNat_lt.mp hless))
    · have hle : d.capacity.toNat≤(d.roundedCapacity n).toNat := by
        rwa [UInt32.lt_iff_toNat_lt,not_lt] at hless
      have hlength := UInt32.le_iff_toNat_le.mp h.length_le
      have hblock : d.data.length=d.capacity.toNat := by
        refine h.block fun hext => ?_
        have := n.toNat_lt
        rw [hext] at hgt
        change 4294967295<_ at hgt
        omega
      have hnew : (d.data.take d.capacity.toNat ++
          replicate (d.roundedCapacity n-d.capacity).toNat 0).length =
          (d.roundedCapacity n).toNat := by
        rw [length_append,length_take,length_replicate,hblock,min_self,
          UInt32.toNat_sub_of_le _ _ (UInt32.not_lt.mp hless)]
        omega
      rw [if_neg hless]
      refine .inr ⟨⟨hzero,fun _ => hle⟩,_,rfl,⟨?_,?_,fun _ => hnew⟩,rfl,hle,?_,fun _ => hnew⟩
      · exact UInt32.le_iff_toNat_le.mpr (hlength.trans hle)
      · exact hnew▸hlength.trans hle
      · rw [contents,contents,take_append_of_le_length,take_take,min_eq_left hlength]
        rw [length_take,hblock,min_self]
        exact hlength

lemma append_write (h : WellFormed d) {block : List UInt8} {newSize : UInt32}
    (hsize : newSize.toNat=d.length.toNat+block.length)
    (hroom : newSize.toNat≤d.capacity.toNat) (hdata : d.data.length=d.capacity.toNat)
    {d' : OSData} (hd' : d'={ d with
      data := d.data.take d.length.toNat++block++d.data.drop (d.length.toNat+block.length)
      length := newSize}) : WellFormed d' ∧ d'.contents=d.contents++block := by
  subst hd'
  have hlen : (d.data.take d.length.toNat++block).length=newSize.toNat := by
    rw [length_append,length_take,min_eq_left h.holds,hsize]
  have hall : (d.data.take d.length.toNat++block ++
      d.data.drop (d.length.toNat+block.length)).length=d.capacity.toNat := by
    rw [length_append,hlen,length_drop,hdata,←hsize]
    omega
  refine ⟨⟨UInt32.le_iff_toNat_le.mpr hroom,hall.symm▸hroom,fun _ => hall⟩,?_⟩
  rw [contents,take_append_of_le_length hlen.ge,take_of_length_le hlen.le]
  rfl

lemma append_cases (h : WellFormed d) (kalloc : Bool) {block : List UInt8} {inLength : UInt32}
    (hblock : block.length=inLength.toNat) :
    (¬d.AppendFits kalloc inLength ∧ ∃ fault,d.append kalloc block inLength=.error fault) ∨
      d.AppendFits kalloc inLength ∧ ∃ d' ok,d.append kalloc block inLength=.ok (d',ok) ∧
        WellFormed d' ∧ d'.contents=d.contents++if ok then block else [] := by
  rw [AppendFits,append]
  by_cases hzero : inLength=0
  · rw [if_pos hzero]
    have hnil : block=[] := length_eq_zero_iff.mp (by rw [hblock,hzero]; rfl)
    exact .inr ⟨.inl hzero,d,true,rfl,h,by simp [hnil]⟩
  rw [if_neg hzero,or_iff_right hzero]
  by_cases hext : d.capacity=EXTERNAL
  · rw [if_pos hext]
    exact .inr ⟨.inl hext,d,false,rfl,h,by simp⟩
  rw [if_neg hext,or_iff_right hext]
  have hdata := h.block hext
  have hle := UInt32.le_iff_toNat_le.mp h.length_le
  have hlt := d.capacity.toNat_lt
  have hn := inLength.toNat_lt
  have hsize : (d.length+inLength).toNat=(d.length.toNat+inLength.toNat)%2^32 :=
    UInt32.toNat_add _ _
  generalize d.length+inLength=newSize at hsize
  dsimp only
  by_cases hsum : d.length.toNat+inLength.toNat<2^32
  · rw [mod_eq_of_lt hsum] at hsize
    rw [and_iff_right hsum,←hsize]
    -- the object after it has grown, if it had to
    have hgrown : (¬d.Grows kalloc newSize.toNat ∧ ∃ fault,
        (if d.capacity<newSize then d.ensureCapacity kalloc newSize else .ok d)=.error fault) ∨
        d.Grows kalloc newSize.toNat ∧ ∃ d',(if d.capacity<newSize then
          d.ensureCapacity kalloc newSize else .ok d)=.ok d' ∧ Kept d d' := by
      by_cases hgrow : d.capacity<newSize
      · rw [if_pos hgrow]
        exact ensureCapacity_cases h kalloc newSize
      · rw [if_neg hgrow]
        rw [UInt32.lt_iff_toNat_lt,not_lt] at hgrow
        exact .inr ⟨.inl hgrow,d,rfl,.refl h⟩
    rcases hgrown with ⟨hnot,fault,herr⟩ | ⟨hgrows,d1,hok,hkept⟩
    · rw [herr]
      exact .inl ⟨hnot,fault,rfl⟩
    · rw [hok]
      refine .inr ⟨hgrows,?_⟩
      dsimp only
      by_cases hfull : d1.capacity<newSize
      · rw [if_pos hfull]
        exact ⟨d1,false,rfl,hkept.wellFormed,by simp [hkept.contents]⟩
      · have hroom : newSize.toNat≤d1.capacity.toNat := by
          rwa [UInt32.lt_iff_toNat_lt,not_lt] at hfull
        have hdata1 := hkept.block hdata
        have hsize1 : newSize.toNat=d1.length.toNat+block.length := by
          rw [hkept.length,hblock,hsize]
        rw [if_neg hfull,if_neg (by omega)]
        obtain ⟨hwf,hcontents⟩ := append_write hkept.wellFormed hsize1 hroom hdata1 rfl
        exact ⟨_,true,rfl,hwf,by rw [hcontents,hkept.contents]; rfl⟩
  · have hwrapped : newSize.toNat≤d.capacity.toNat := by omega
    have hfull : ¬d.capacity<newSize := by
      rwa [UInt32.lt_iff_toNat_lt,not_lt]
    rw [if_neg hfull]
    dsimp only
    rw [if_neg hfull,if_pos (by omega)]
    exact .inl ⟨fun hf => hsum hf.1,_,rfl⟩

lemma getBytesNoCopy_points_iff (start inLength : UInt32) :
    d.PointsInside (.getBytesNoCopy start inLength) (.pointer (d.getBytesNoCopy start inLength)) ↔
      (start<d.length → start.toNat+inLength.toNat<2^32) := by
  have hsum : (start+inLength).toNat=(start.toNat+inLength.toNat)%2^32 :=
    UInt32.toNat_add _ _
  have hlen := d.length.toNat_lt
  have hs := start.toNat_lt
  have hn := inLength.toNat_lt
  rw [getBytesNoCopy]
  split_ifs with h
  · simp only [PointsInside,true_and,h.2.1,true_implies]
    have hin := UInt32.le_iff_toNat_le.mp h.2.2
    have hstart := UInt32.lt_iff_toNat_lt.mp h.2.1
    constructor <;> intro _ <;> omega
  · simp only [PointsInside,true_iff]
    intro hstart
    by_contra hwrap
    have hlt := UInt32.lt_iff_toNat_lt.mp hstart
    refine h ⟨fun hzero => ?_,hstart,UInt32.le_iff_toNat_le.mpr (by omega)⟩
    rw [hzero] at hlt
    exact not_lt_zero _ hlt

lemma blockOf_length (bytes : ℕ → UInt8) (inLength : UInt32) :
    (blockOf bytes inLength).length=inLength.toNat := by
  rw [blockOf,length_map,length_range]

lemma appended_bool (call : Call) (ok : Bool) :
    appended call (.bool ok)=if ok then call.block else [] := by
  cases ok <;> rfl

lemma step_kept (h : WellFormed d) {kalloc : Bool} {call : Call} {d' : OSData} {answer : Answer}
    (hstep : d.step kalloc call=.ok (d',answer)) :
    WellFormed d' ∧ d'.contents=d.contents++appended call answer := by
  have happend : ∀ {block : List UInt8} {inLength : UInt32},call.block=block →
      block.length=inLength.toNat →
      (d.append kalloc block inLength).map (fun r => (r.1,Answer.bool r.2))=.ok (d',answer) →
      WellFormed d' ∧ d'.contents=d.contents++appended call answer := by
    intro block inLength hcall hblock hmap
    rcases append_cases h kalloc hblock with ⟨-,fault,herr⟩ | ⟨-,d1,ok,hok,hwf,hcontents⟩
    · rw [herr] at hmap
      cases hmap
    · rw [hok] at hmap
      cases hmap
      rw [appended_bool,hcall]
      exact ⟨hwf,hcontents⟩
  cases call with
  | appendBytes bytes inLength => exact happend rfl (blockOf_length bytes _) hstep
  | appendByte byte inLength => exact happend rfl (length_replicate ..) hstep
  | ensureCapacity newCapacity =>
    rw [step] at hstep
    rcases ensureCapacity_cases h kalloc newCapacity with ⟨-,fault,herr⟩ | ⟨-,d1,hok,hkept⟩
    · rw [herr] at hstep
      cases hstep
    · rw [hok] at hstep
      cases hstep
      exact ⟨hkept.wellFormed,hkept.contents.trans (append_nil _).symm⟩
  | setCapacityIncrement increment =>
    cases hstep
    exact ⟨⟨h.length_le,h.holds,h.block⟩,(append_nil _).symm⟩
  | getBytesNoCopy start inLength =>
    cases hstep
    exact ⟨h,(append_nil _).symm⟩

lemma step_returns_iff (h : WellFormed d) (kalloc : Bool) (call : Call) :
    (∃ d' answer,d.step kalloc call=.ok (d',answer) ∧ d.PointsInside call answer) ↔
      d.Fits kalloc call := by
  have happend : ∀ {block : List UInt8} {inLength : UInt32},block.length=inLength.toNat →
      ((∃ d' answer,(d.append kalloc block inLength).map (fun r => (r.1,Answer.bool r.2)) =
        .ok (d',answer)) ↔ d.AppendFits kalloc inLength) := by
    intro block inLength hblock
    rcases append_cases h kalloc hblock with ⟨hnot,fault,herr⟩ | ⟨hyes,d1,ok,hok,-⟩
    · rw [herr]
      refine iff_of_false ?_ hnot
      rintro ⟨d',answer,hmap⟩
      cases hmap
    · rw [hok]
      exact iff_of_true ⟨d1,.bool ok,rfl⟩ hyes
  cases call with
  | appendBytes bytes inLength =>
    exact (exists₂_congr fun _ _ => and_iff_left trivial).trans (happend (blockOf_length bytes _))
  | appendByte byte inLength =>
    exact (exists₂_congr fun _ _ => and_iff_left trivial).trans
      (happend (length_replicate ..))
  | ensureCapacity newCapacity =>
    rw [step]
    rcases ensureCapacity_cases h kalloc newCapacity with ⟨hnot,fault,herr⟩ | ⟨hgrows,d1,hok,-⟩
    · rw [herr]
      refine iff_of_false ?_ hnot
      rintro ⟨d',answer,hmap,-⟩
      cases hmap
    · rw [hok]
      exact iff_of_true ⟨d1,_,rfl,trivial⟩ hgrows
  | setCapacityIncrement increment => exact iff_of_true ⟨_,_,rfl,trivial⟩ trivial
  | getBytesNoCopy start inLength =>
    refine Iff.trans ?_ (getBytesNoCopy_points_iff start inLength)
    constructor
    · rintro ⟨d',answer,hstep,hp⟩
      cases hstep
      exact hp
    · exact fun hp => ⟨d,_,rfl,hp⟩

end Calls

lemma safe_iff_runFits {d : OSData} (h : WellFormed d) (calls : List (Call × Bool)) :
    d.Safe d.contents calls ↔ d.RunFits calls := by
  induction calls generalizing d with
  | nil => exact iff_of_true ⟨h.length_le,rfl⟩ trivial
  | cons c calls ih =>
    obtain ⟨call,kalloc⟩ := c
    rw [Safe,RunFits,←step_returns_iff h,and_iff_right ⟨h.length_le,rfl⟩]
    have hsame : ∀ {d' answer},d.step kalloc call=.ok (d',answer) →
        (d'.Safe (d.contents++appended call answer) calls ↔ d'.RunFits calls) := by
      intro d' answer hstep
      obtain ⟨hwf,hcontents⟩ := step_kept h hstep
      rw [←hcontents]
      exact ih hwf
    constructor
    · rintro ⟨d',answer,hstep,hpoints,hsafe⟩
      refine ⟨⟨d',answer,hstep,hpoints⟩,fun d'' answer' hstep' => ?_⟩
      rw [hstep] at hstep'
      cases hstep'
      exact (hsame hstep).mp hsafe
    · rintro ⟨⟨d',answer,hstep,hpoints⟩,hrest⟩
      exact ⟨d',answer,hstep,hpoints,(hsame hstep).mpr (hrest d' answer hstep)⟩

/-- A run on any object does what is promised, with any allocations failing, exactly if no size that
its calls compute wraps to a smaller one and it does not grow by an increment of zero. -/
theorem safe_iff {d : OSData} (h : Made d) (calls : List (Call × Bool)) :
    d.Safe d.contents calls ↔ d.RunFits calls := safe_iff_runFits h.wellFormed calls

def sixteen : OSData := withCapacity 16 (replicate 16 0)

theorem safe_iff_sixteen :
    sixteen.Safe sixteen.contents [(.appendByte 7 20,true),(.getBytesNoCopy 3 5,true)] ↔
      sixteen.RunFits [(.appendByte 7 20,true),(.getBytesNoCopy 3 5,true)] :=
  safe_iff (.withCapacity 16 _ rfl) _

/-- After four bytes have been appended, a pointer to 2^32 - 1 bytes from the second one on is
returned. -/
theorem sixteen_not_safe : (∃ d,sixteen.step true (.appendByte 7 4)=.ok (d,.bool true) ∧
      d.getBytesNoCopy 1 0xffffffff=some 1) ∧ ¬sixteen.Safe sixteen.contents
      [(.appendByte 7 4,true),(.getBytesNoCopy 1 0xffffffff,true)] := by
  refine ⟨⟨_,rfl,by decide⟩,fun h => ?_⟩
  obtain ⟨-,d',answer,hstep,-,-,d'',answer',hstep',hpoints,-⟩ := h
  cases hstep
  cases hstep'
  exact absurd hpoints.2 (by decide)

end OSData
end Darwin.Libkern
