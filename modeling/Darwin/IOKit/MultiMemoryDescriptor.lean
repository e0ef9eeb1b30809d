import Mathlib.Algebra.BigOperators.Group.List.Basic
import Mathlib.Algebra.Ring.Nat
import Mathlib.Logic.Function.Basic

/-! Transfers and physical segments of `iokit/Kernel/IOMultiMemoryDescriptor.cpp`. A member is an
object with its virtual functions; `S` is the state of memory and of the members. -/
open List Function
namespace Darwin.IOKit.MultiMemoryDescriptor

/-- An `IOMemoryDescriptor`. `readBytes` gives the bytes that it copies, and `writeBytes` takes those
from a pointer on and gives how many it copies. -/
structure Member (S : Type) where
  getLength : ℕ
  getPhysicalSegment : S → ℕ → (ℕ × ℕ) × S
  readBytes : S → ℕ → ℕ → List UInt8 × S
  writeBytes : S → ℕ → List UInt8 → ℕ → ℕ × S

variable {S X Y A : Type}

def total (members : List (Member S)) : ℕ := (members.map Member.getLength).sum

def getPhysicalSegment : List (Member S) → S → ℕ → (ℕ × ℕ) × S
  | [],s,_ => ((0,0),s)
  | m::ms,s,offset => if offset < m.getLength then m.getPhysicalSegment s offset
    else getPhysicalSegment ms s (offset-m.getLength)

/-- The second loop of `readBytes` and of `writeBytes`, with the call of the member and the buffer
behind what is copied. -/
def copyLoop (call : Member S → X → ℕ → ℕ → ℕ × X) : List (Member S) → X → ℕ → ℕ → ℕ × X
  | [],x,_,_ => (0,x)
  | m::ms,x,offset,withLength =>
    if withLength=0 then (0,x)
    else
      let copy := min m.getLength withLength
      let copied := call m x offset copy
      if copied.1≠copy then copied
      else
        let rest := copyLoop call ms copied.2 0 (withLength-copied.1)
        (copied.1+rest.1,rest.2)

def copyBytes (call : Member S → X → ℕ → ℕ → ℕ × X) : List (Member S) → X → ℕ → ℕ → ℕ × X
  | [],x,_,_ => (0,x)
  | m::ms,x,offset,withLength => if offset < m.getLength then copyLoop call (m::ms) x offset withLength
    else copyBytes call ms x (offset-m.getLength) withLength

/-- The bytes copied and the number that is returned. -/
def readBytes (members : List (Member S)) (s : S) (offset withLength : ℕ) : ℕ × List UInt8 × S :=
  copyBytes (fun m x offset copy =>
    let r := m.readBytes x.2 offset copy
    (r.1.length,x.1++r.1,r.2)) members ([],s) offset withLength

/-- The number that is returned and what is left of the buffer. -/
def writeBytes (members : List (Member S)) (s : S) (offset : ℕ) (bytes : List UInt8)
    (withLength : ℕ) : ℕ × List UInt8 × S :=
  copyBytes (fun m x offset copy =>
    let r := m.writeBytes x.2 offset x.1 copy
    (r.1,x.1.drop r.1,r.2)) members (bytes,s) offset withLength

section Concatenation

variable {addresses : Member S → List A} {members : List (Member S)} {offset n : ℕ}

/-- The transfer begins where a member begins, or ends where it ends, or no byte follows it. -/
def Whole : List (Member S) → ℕ → ℕ → Prop
  | [],_,_ => True
  | m::ms,offset,n =>
    if offset < m.getLength then offset=0 ∨ offset+n ≤ m.getLength ∨ total ms=0
    else Whole ms (offset-m.getLength) n

/-- A call transfers as much as the member holds; `move` is what a transfer does to what is seen of
the memory and the buffer. -/
structure Moves (call : Member S → X → ℕ → ℕ → ℕ × X) (addresses : Member S → List A)
    (view : X → Y) (move : List A → Y → Y) (members : List (Member S)) : Prop where
  nil : ∀ y,move [] y=y
  append : ∀ a b y,move (a++b) y=move b (move a y)
  length : ∀ m∈members,(addresses m).length=m.getLength
  call : ∀ m∈members,∀ x offset n,(call m x offset n).map id view =
    (min n (m.getLength-offset),move (((addresses m).drop offset).take n) (view x))

variable {call : Member S → X → ℕ → ℕ → ℕ × X} {view : X → Y} {move : List A → Y → Y}

lemma Moves.tail {m : Member S} (h : Moves call addresses view move (m::members)) :
    Moves call addresses view move members :=
  ⟨h.nil,h.append,fun m hm => h.length m (mem_cons_of_mem _ hm),
    fun m hm => h.call m (mem_cons_of_mem _ hm)⟩

lemma flatMap_length (h : Moves call addresses view move members) :
    (members.flatMap addresses).length=total members := by
  rw [length_flatMap,total]
  exact congrArg sum (map_congr_left h.length)

lemma copyLoop_zero (h : Moves call addresses view move members) (x : X) (n : ℕ) :
    (copyLoop call members x 0 n).map id view =
      (min n (total members),move ((members.flatMap addresses).take n) (view x)) := by
  induction members generalizing x n with
  | nil => simp [copyLoop,total,h.nil]
  | cons m ms ih =>
    have hlength := h.length m mem_cons_self
    rw [copyLoop]
    by_cases hn : n=0
    · simp [hn,h.nil]
    obtain ⟨hcount,hview⟩ := Prod.ext_iff.mp (h.call m mem_cons_self x 0 (min m.getLength n))
    simp only [Prod.map_fst,Prod.map_snd,id_eq,drop_zero,Nat.sub_zero] at hcount hview
    have hcopied : (call m x 0 (min m.getLength n)).1=min m.getLength n := by omega
    obtain ⟨hrest,hrestview⟩ := Prod.ext_iff.mp (ih h.tail (call m x 0 (min m.getLength n)).2
      (n-min m.getLength n))
    have htake : (addresses m).take (min m.getLength n)=(addresses m).take n := by
      rw [take_eq_take_iff]
      omega
    have hsum : total (m::ms)=m.getLength+total ms := by simp [total]
    simp only [Prod.map_fst,Prod.map_snd,id_eq] at hrest hrestview
    simp only [if_neg hn,hcopied,ne_eq,not_true_eq_false,if_false,Prod.map,id_eq]
    refine Prod.ext (by simp only; omega) ?_
    simp only [hrestview,hview,htake,flatMap_cons,take_append,h.append,hlength]
    rw [show n-min m.getLength n=n-m.getLength by omega]

variable (offset n) in
lemma copyBytes_cases (h : Moves call addresses view move members) (x : X) :
    Whole members offset n ∧ (copyBytes call members x offset n).map id view =
      (min n (total members-offset),
        move (((members.flatMap addresses).drop offset).take n) (view x)) ∨
    ¬Whole members offset n ∧
      (copyBytes call members x offset n).1 < min n (total members-offset) := by
  induction members generalizing offset with
  | nil => exact .inl ⟨trivial,by simp [copyBytes,total,h.nil]⟩
  | cons m ms ih =>
    have hlength := h.length m mem_cons_self
    have hsum : total (m::ms)=m.getLength+total ms := by simp [total]
    rw [Whole,copyBytes]
    by_cases hoffset : offset < m.getLength
    swap
    · have hdrop : ((m::ms).flatMap addresses).drop offset =
          (ms.flatMap addresses).drop (offset-m.getLength) := by
        rw [flatMap_cons,drop_append,drop_eq_nil_of_le (by omega),hlength,nil_append]
      rw [if_neg hoffset,if_neg hoffset,hdrop,hsum,
        show m.getLength+total ms-offset=total ms-(offset-m.getLength) by omega]
      exact ih _ h.tail
    rw [if_pos hoffset,if_pos hoffset]
    by_cases hzero : offset=0
    · subst hzero
      exact .inl ⟨.inl rfl,by simpa using copyLoop_zero h x n⟩
    -- the member is asked for as much as if it were entered at its beginning
    obtain ⟨hcount,hview⟩ := Prod.ext_iff.mp (h.call m mem_cons_self x offset (min m.getLength n))
    simp only [Prod.map_fst,Prod.map_snd,id_eq] at hcount hview
    have hdrop : ((m::ms).flatMap addresses).drop offset =
        (addresses m).drop offset++ms.flatMap addresses := by
      rw [flatMap_cons,drop_append_of_le_length (by omega)]
    rw [copyLoop,hsum]
    by_cases hn : n=0
    · exact .inl ⟨.inr (.inl (by omega)),by simp [hn,h.nil]⟩
    by_cases hin : offset+n ≤ m.getLength
    · refine .inl ⟨.inr (.inl hin),?_⟩
      have hcopy : min m.getLength n=n := by omega
      rw [hcopy] at hcount hview ⊢
      have hcopied : (call m x offset n).1=n := by omega
      have hrest := copyLoop_zero h.tail (call m x offset n).2 0
      simp only [Nat.zero_min,take_zero,h.nil,Prod.ext_iff,Prod.map_fst,Prod.map_snd,id_eq] at hrest
      simp only [if_neg hn,hcopied,ne_eq,not_true_eq_false,if_false,Nat.sub_self,Prod.map,id_eq,
        hrest.1,hrest.2,hview]
      rw [hdrop,take_append_of_le_length (by rw [length_drop]; omega)]
      exact Prod.ext (by simp only; omega) rfl
    · have hcopied : (call m x offset (min m.getLength n)).1=m.getLength-offset := by omega
      have hne : m.getLength-offset≠min m.getLength n := by omega
      simp only [if_neg hn,hcopied,if_pos hne]
      by_cases hrest : total ms=0
      · refine .inl ⟨.inr (.inr hrest),Prod.ext (by simp only [Prod.map_fst,id_eq]; omega) ?_⟩
        have hnil : ms.flatMap addresses=[] := by
          rw [←length_eq_zero_iff,flatMap_length h.tail,hrest]
        rw [hdrop,hnil,append_nil,take_of_length_le (by rw [length_drop]; omega),Prod.map_snd,hview,
          take_of_length_le (by rw [length_drop]; omega)]
      · exact .inr ⟨by omega,by omega⟩

variable (offset n) in
lemma copyBytes_iff (h : Moves call addresses view move members) (x : X) :
    (copyBytes call members x offset n).map id view=(min n (total members-offset),
      move (((members.flatMap addresses).drop offset).take n) (view x)) ↔
    Whole members offset n := by
  rcases copyBytes_cases offset n h x with ⟨hw,heq⟩ | ⟨hw,hlt⟩
  · exact iff_of_true heq hw
  · refine iff_of_false (fun heq => ?_) hw
    have hcount := congrArg Prod.fst heq
    rw [Prod.map_fst,id_eq] at hcount
    omega

end Concatenation

section Bytes

variable [DecidableEq A]

/-- Bytes written to addresses, one after the other. -/
def store (mem : A → UInt8) : List A → List UInt8 → A → UInt8
  | a::as,b::bs => store (update mem a b) as bs
  | _,_ => mem

omit [DecidableEq A] in
lemma store_append [DecidableEq A] (mem : A → UInt8) (as as' : List A) (bs : List UInt8) :
    store mem (as++as') bs=store (store mem as bs) as' (bs.drop as.length) := by
  induction as generalizing mem bs with
  | nil => cases bs <;> rfl
  | cons a as ih =>
    cases bs with
    | nil => cases as' <;> simp [store]
    | cons b bs => exact ih _ _

/-- A member with bytes at `addresses` transfers as much of them as it holds. -/
structure Holds (mem : S → A → UInt8) (addresses : Member S → List A) (m : Member S) : Prop where
  length : (addresses m).length=m.getLength
  read : ∀ s offset n,(m.readBytes s offset n).map id mem =
    ((((addresses m).drop offset).take n).map (mem s),mem s)
  write : ∀ s offset bytes n,(m.writeBytes s offset bytes n).map id mem =
    (min n (m.getLength-offset),store (mem s) (((addresses m).drop offset).take n) bytes)

/-- The calls do what they would do to one descriptor of all the bytes. -/
structure Concatenates (mem : S → A → UInt8) (addresses : Member S → List A)
    (members : List (Member S)) (s : S) (offset n : ℕ) (bytes : List UInt8) : Prop where
  read : (readBytes members s offset n).map id (Prod.map id mem)=(min n (total members-offset),
    (((members.flatMap addresses).drop offset).take n).map (mem s),mem s)
  write : (writeBytes members s offset bytes n).map id (Prod.map id mem) =
    (min n (total members-offset),bytes.drop (min n (total members-offset)),
      store (mem s) (((members.flatMap addresses).drop offset).take n) bytes)
  segment : offset<total members → ∃ k m,members[k]?=some m ∧ total (members.take k)≤offset ∧
    offset<total (members.take k)+m.getLength ∧ getPhysicalSegment members s offset =
      m.getPhysicalSegment s (offset-total (members.take k))

variable {mem : S → A → UInt8} {addresses : Member S → List A} {members : List (Member S)}
  {offset : ℕ}

omit [DecidableEq A] in
lemma getPhysicalSegment_eq (s : S) (h : offset<total members) :
    ∃ k m,members[k]?=some m ∧ total (members.take k)≤offset ∧
      offset<total (members.take k)+m.getLength ∧ getPhysicalSegment members s offset =
        m.getPhysicalSegment s (offset-total (members.take k)) := by
  induction members generalizing offset with
  | nil => simp [total] at h
  | cons m ms ih =>
    rw [getPhysicalSegment]
    by_cases hm : offset < m.getLength
    · exact ⟨0,m,rfl,by simp [total],by simpa [total],by rw [if_pos hm]; rfl⟩
    · have hsum : total (m::ms)=m.getLength+total ms := by simp [total]
      have hin : offset-m.getLength<total ms := by omega
      obtain ⟨k,m',hk,hle,hlt,heq⟩ := ih hin
      have htake : total ((m::ms).take (k+1))=m.getLength+total (ms.take k) := by simp [total]
      refine ⟨k+1,m',hk,by omega,by omega,?_⟩
      rw [if_neg hm,heq,htake,Nat.sub_sub]

omit [DecidableEq A] in
lemma min_length (as : List A) (offset n : ℕ) {l : ℕ} (h : as.length=l) :
    ((as.drop offset).take n).length=min n (l-offset) := by simp [h]

lemma moves_read (h : ∀ m∈members,Holds mem addresses m) :
    Moves (fun m (x : List UInt8 × S) offset copy =>
      let r := m.readBytes x.2 offset copy
      (r.1.length,x.1++r.1,r.2)) addresses (Prod.map id mem)
      (fun as y => (y.1++as.map y.2,y.2)) members := by
  refine ⟨by simp,by simp,fun m hm => (h m hm).length,fun m hm x offset n => ?_⟩
  obtain ⟨hbytes,hmem⟩ := Prod.ext_iff.mp ((h m hm).read x.2 offset n)
  simp only [Prod.map_fst,Prod.map_snd,id_eq] at hbytes hmem
  simp only [Prod.map,id_eq,hbytes,hmem,length_map,min_length _ _ _ (h m hm).length]

lemma moves_write (h : ∀ m∈members,Holds mem addresses m) :
    Moves (fun m (x : List UInt8 × S) offset copy =>
      let r := m.writeBytes x.2 offset x.1 copy
      (r.1,x.1.drop r.1,r.2)) addresses (Prod.map id mem)
      (fun as y => (y.1.drop as.length,store y.2 as y.1)) members := by
  refine ⟨fun y => ?_,fun a b y => ?_,fun m hm => (h m hm).length,fun m hm x offset n => ?_⟩
  · cases hy : y.1 <;> simp [store,←hy]
  · simp [store_append,drop_drop]
  · obtain ⟨hcount,hmem⟩ := Prod.ext_iff.mp ((h m hm).write x.2 offset x.1 n)
    simp only [Prod.map_fst,Prod.map_snd,id_eq] at hcount hmem
    simp only [Prod.map,id_eq,hcount,hmem,min_length _ _ _ (h m hm).length]

theorem concatenates_iff (h : ∀ m∈members,Holds mem addresses m) (s : S) (offset n : ℕ)
    (bytes : List UInt8) :
    Concatenates mem addresses members s offset n bytes ↔ Whole members offset n := by
  have hread := copyBytes_iff offset n (moves_read h) ([],s)
  have hwrite := copyBytes_iff offset n (moves_write h) (bytes,s)
  have hlength := min_length _ offset n (flatMap_length (moves_read h))
  simp only [Prod.map_apply,id_eq,nil_append] at hread
  simp only [Prod.map_apply,id_eq,hlength] at hwrite
  exact ⟨fun hc => hread.mp hc.read,fun hw => ⟨hread.mpr hw,hwrite.mpr hw,getPhysicalSegment_eq s⟩⟩

/-- Bytes from `base` on in a memory. -/
def flat (base length : ℕ) : Member (ℕ → UInt8) where
  getLength := length
  getPhysicalSegment s offset := ((base+offset,length-offset),s)
  readBytes s offset n := ((((range' base length).drop offset).take n).map s,s)
  writeBytes s offset bytes n := (min n (length-offset),
    store s (((range' base length).drop offset).take n) bytes)

/-- The bytes of a member, of which `getPhysicalSegment` gives the first. -/
def flatAddresses (m : Member (ℕ → UInt8)) : List ℕ :=
  range' (m.getPhysicalSegment (fun _ => 0) 0).1.1 m.getLength

lemma holds_flat (base length : ℕ) : Holds id flatAddresses (flat base length) :=
  ⟨by simp [flatAddresses],fun _ _ _ => rfl,fun _ _ _ _ => rfl⟩

theorem concatenates_iff_flat :
    Concatenates id flatAddresses [flat 0 2,flat 5 2] (fun _ => 7) 2 2 [1,2] ↔
      Whole [flat 0 2,flat 5 2] 2 2 :=
  concatenates_iff (by
    intro m hm
    simp only [mem_cons,not_mem_nil,or_false] at hm
    rcases hm with rfl | rfl <;> exact holds_flat _ _) _ _ _ _

/-- One byte is read of the two from offset 1 on. -/
theorem not_concatenates_flat :
    ¬Concatenates id flatAddresses [flat 0 2,flat 5 2] (fun _ => 7) 1 2 [1,2] := by
  intro h
  exact absurd (congrArg Prod.fst h.read) (by decide)

end Bytes

end Darwin.IOKit.MultiMemoryDescriptor
