import Darwin.Lib.IntervalList
import Darwin.Lib.Round
import Darwin.Lib.ListIndex

/-! The free list of `IORangeAllocator`: closed ranges of 32-bit offsets, split by
`allocate` and `allocateRange` and merged by `deallocate`. Arithmetic wraps as in
the source. Whether `IONew` succeeds is an input of each call. -/
open List
namespace Darwin.IOKit
open Lib.IntervalList Lib.Round

abbrev IORangeScalar := BitVec 32

/-- A closed range. -/
structure IORangeAllocatorElement where
  start : IORangeScalar
  end_ : IORangeScalar
  deriving DecidableEq,Repr

/-- `allocated` says that the pointer `elements` is not null. -/
structure IORangeAllocator where
  elements : List IORangeAllocatorElement
  capacity : ℕ
  capacityIncrement : ℕ
  defaultAlignmentMask : IORangeScalar
  allocated : Bool
  deriving DecidableEq,Repr

namespace IORangeAllocator

def blank : IORangeAllocatorElement := ⟨0,0⟩

def allocElement (a : IORangeAllocator) (index : ℕ) (ioNew : Bool) : Option IORangeAllocator :=
  if (a.elements.length=a.capacity ∧ a.capacityIncrement≠0) ∨ a.allocated=false then
    if ioNew then
      some { a with
        elements := a.elements.insertIdx index blank
        capacity := a.capacity+a.capacityIncrement
        allocated := true}
    else none
  else some {a with elements := a.elements.insertIdx index blank}

def deallocElement (a : IORangeAllocator) (index : ℕ) : IORangeAllocator :=
  {a with elements := a.elements.eraseIdx index}

/-- Cut `[data,dataEnd]` out of element `index`, in the four ways in which it can
lie there. `none` when the second half found no slot. -/
def cutElement (a : IORangeAllocator) (index : ℕ) (this : IORangeAllocatorElement)
    (data dataEnd : IORangeScalar) (ioNew : Bool) : Option IORangeAllocator :=
  if data≠this.start then
    if dataEnd≠this.end_ then
      (a.allocElement (index+1) ioNew).map fun b =>
        let head := b.elements.modify index fun e => {e with end_ := data-1}
        {b with elements := head.set (index+1) ⟨dataEnd+1,this.end_⟩}
    else some {a with elements := a.elements.modify index fun e => {e with end_ := data-1}}
  else
    if dataEnd≠this.end_ then
      some {a with elements := a.elements.modify index fun e => {e with start := dataEnd+1}}
    else some (a.deallocElement index)

def alignmentMask (a : IORangeAllocator) (alignment : IORangeScalar) : IORangeScalar :=
  if alignment=0 then a.defaultAlignmentMask else alignment-1

def granule (a : IORangeAllocator) (size : IORangeScalar) : IORangeScalar :=
  roundUp size a.defaultAlignmentMask

def hasRoom (this : IORangeAllocatorElement) (size mask : IORangeScalar) : Bool :=
  decide (roundUp this.start mask+size-1≤this.end_)

def findRoom (size mask : IORangeScalar) :
    ℕ → List IORangeAllocatorElement → Option (ℕ × IORangeAllocatorElement)
  | _,[] => none
  | index,this::rest =>
    if hasRoom this size mask then some (index,this) else findRoom size mask (index+1) rest

def allocate (a : IORangeAllocator) (size alignment : IORangeScalar) (ioNew : Bool) :
    Option IORangeScalar × IORangeAllocator :=
  if size=0 then (none,a)
  else
    match findRoom (a.granule size) (a.alignmentMask alignment) 0 a.elements with
    | none => (none,a)
    | some (index,this) =>
      let data := roundUp this.start (a.alignmentMask alignment)
      match a.cutElement index this data (data+a.granule size-1) ioNew with
      | none => (none,a)
      | some b => (some data,b)

/-- The loop of `allocateRange`. It gives up at the first element past `data`, and
goes on after an element that could not be split. -/
def allocateRangeFrom (a : IORangeAllocator) (data dataEnd : IORangeScalar) (ioNew : Bool) :
    ℕ → List IORangeAllocatorElement → Option IORangeAllocator
  | _,[] => none
  | index,this::rest =>
    if data<this.start then none
    else if dataEnd≤this.end_ then
      match a.cutElement index this data dataEnd ioNew with
      | some b => some b
      | none => allocateRangeFrom a data dataEnd ioNew (index+1) rest
    else allocateRangeFrom a data dataEnd ioNew (index+1) rest

def allocateRange (a : IORangeAllocator) (data size : IORangeScalar) (ioNew : Bool) :
    Bool × IORangeAllocator :=
  if size=0 then (false,a)
  else
    match a.allocateRangeFrom data (data+a.granule size-1) ioNew 0 a.elements with
    | none => (false,a)
    | some b => (true,b)

/-- The loop of `deallocate`: the index where it stops and the flags `headContig`
and `tailContig`. -/
def findNeighbours (data size : IORangeScalar) :
    ℕ → Bool → List IORangeAllocatorElement → ℕ × Bool × Bool
  | index,headContig,[] => (index,headContig,false)
  | index,headContig,this::rest =>
    if this.start<data then
      findNeighbours data size (index+1) (decide (data≤this.end_+1)) rest
    else (index,headContig,decide (this.start≤data+size))

def deallocate (a : IORangeAllocator) (data size : IORangeScalar) (ioNew : Bool) :
    IORangeAllocator :=
  let size := a.granule size
  let dataEnd := data+size-1
  let (index,headContig,tailContig) := findNeighbours data size 0 false a.elements
  if headContig then
    if tailContig then
      let tail := a.elements.getD index blank
      let joined := a.elements.modify (index-1) fun e => {e with end_ := tail.end_}
      {a with elements := joined}.deallocElement index
    else
      let grown := a.elements.modify (index-1) fun e =>
        if e.end_<dataEnd then {e with end_ := dataEnd} else e
      {a with elements := grown}
  else if tailContig then
    let grown := a.elements.modify index fun e =>
      if data<e.start then {e with start := data} else e
    {a with elements := grown}
  else
    match a.allocElement index ioNew with
    | none => a
    | some b => {b with elements := b.elements.set index ⟨data,dataEnd⟩}

def init (endOfRange defaultAlignment : IORangeScalar) (capacity : ℕ) (ioNew : Bool) :
    IORangeAllocator :=
  let a : IORangeAllocator :=
    { elements := []
      capacity := 0
      capacityIncrement := if capacity=0 then 1 else capacity
      defaultAlignmentMask := (if defaultAlignment=0 then 1 else defaultAlignment)-1
      allocated := false}
  if endOfRange≠0 then a.deallocate 0 (endOfRange+1) ioNew else a

def freeSet (a : IORangeAllocator) : Set ℕ :=
  cover (fun e : IORangeAllocatorElement => e.start.toNat) (fun e => e.end_.toNat) a.elements

/-- The free list is sorted, pairwise disjoint and coalesced, fits its array, and
the default alignment is a power of two. -/
structure WellFormed (a : IORangeAllocator) : Prop where
  separated : Separated (fun e : IORangeAllocatorElement => e.start.toNat)
    (fun e => e.end_.toNat) a.elements
  fits : a.elements.length≤a.capacity
  increment_pos : 0<a.capacityIncrement
  mask : IsMask a.defaultAlignmentMask

def extent (a : IORangeAllocator) (size : IORangeScalar) : ℕ :=
  ceilTo size.toNat a.defaultAlignmentMask.toNat

def span (data : IORangeScalar) (n : ℕ) : Set ℕ := Set.Ico data.toNat (data.toNat+n)

/-- The calls of a run, with the outcome of `IONew` in each. -/
inductive Call
  | allocate (size alignment : IORangeScalar) (ioNew : Bool)
  | allocateRange (data size : IORangeScalar) (ioNew : Bool)
  | deallocate (data size : IORangeScalar) (ioNew : Bool)
  deriving DecidableEq,Repr

def next (a : IORangeAllocator) : Call → IORangeAllocator
  | .allocate size alignment ioNew => (a.allocate size alignment ioNew).2
  | .allocateRange data size ioNew => (a.allocateRange data size ioNew).2
  | .deallocate data size ioNew => a.deallocate data size ioNew

end IORangeAllocator
end Darwin.IOKit

/-! Runs of `IORangeAllocator`. As long as no 32-bit sum that a call relies on wraps,
the free list stays well formed and every call changes the free set by exactly its
range. The search test of `allocate` has no such check of its own, so near the top
of the space it accepts elements that are too small. -/
namespace Darwin.IOKit
open Lib.IntervalList Lib.ListIndex Lib.Round

namespace IORangeAllocator

lemma alignmentMask_zero (a : IORangeAllocator) : a.alignmentMask 0=a.defaultAlignmentMask := by
  simp [alignmentMask]

variable {a : IORangeAllocator} {data size : IORangeScalar} {e : IORangeAllocatorElement}

lemma allocElement_cases (index : ℕ) (ioNew : Bool)
    (hfit : a.elements.length≤a.capacity) (hinc : 0<a.capacityIncrement) :
    (a.allocElement index ioNew=none ∧ ioNew=false) ∨
    ∃ b,a.allocElement index ioNew=some b ∧ b.elements=a.elements.insertIdx index blank ∧
      a.elements.length+1≤b.capacity ∧ b.capacityIncrement=a.capacityIncrement ∧
      b.defaultAlignmentMask=a.defaultAlignmentMask := by
  unfold allocElement
  split_ifs with hfull hnew
  · exact Or.inr ⟨_,rfl,rfl,by simp only; omega,rfl,rfl⟩
  · exact Or.inl ⟨rfl,by simpa using hnew⟩
  · refine Or.inr ⟨_,rfl,rfl,?_,rfl,rfl⟩
    have : a.elements.length≠a.capacity := fun h => hfull (Or.inl ⟨h,by omega⟩)
    simp only
    omega

lemma WellFormed.replace {a b : IORangeAllocator} {pre post : List IORangeAllocatorElement}
    {D : Set ℕ} (hw : a.WellFormed)
    (ms : List IORangeAllocatorElement)
    (ha : a.elements=pre++e::post) (hb : b.elements=pre++(ms++post))
    (hfit : b.elements.length≤b.capacity) (hinc : b.capacityIncrement=a.capacityIncrement)
    (hmask : b.defaultAlignmentMask=a.defaultAlignmentMask)
    (hms : Separated (fun e : IORangeAllocatorElement => e.start.toNat) (fun e => e.end_.toNat) ms)
    (hin : ∀ m∈ms,e.start.toNat ≤ m.start.toNat ∧ m.end_.toNat≤e.end_.toNat)
    (hD : D⊆Set.Icc e.start.toNat e.end_.toNat)
    (hcover : cover (fun e : IORangeAllocatorElement => e.start.toNat) (fun e => e.end_.toNat) ms =
      Set.Icc e.start.toNat e.end_.toNat \ D) : b.WellFormed ∧ b.freeSet=a.freeSet \ D := by
  have hs := hw.separated
  rw [ha] at hs
  refine ⟨⟨?_,hfit,hinc▸hw.increment_pos,hmask▸hw.mask⟩,?_⟩
  · rw [hb]
    exact hs.replace hms hin
  · unfold freeSet
    rw [ha,hb]
    exact cover_replace hs hD hcover

lemma cutElement_spec {pre post : List IORangeAllocatorElement}
    {data dataEnd : IORangeScalar} (ioNew : Bool)
    (hw : a.WellFormed) (ha : a.elements=pre++e::post)
    (h1 : e.start.toNat≤data.toNat) (h2 : data.toNat≤dataEnd.toNat)
    (h3 : dataEnd.toNat≤e.end_.toNat) :
    (a.cutElement pre.length e data dataEnd ioNew=none ∧ ioNew=false) ∨
    ∃ b,a.cutElement pre.length e data dataEnd ioNew=some b ∧ b.WellFormed ∧
      b.freeSet=a.freeSet \ Set.Icc data.toNat dataEnd.toNat := by
  have hfit := hw.fits
  have hD : Set.Icc data.toNat dataEnd.toNat⊆Set.Icc e.start.toNat e.end_.toNat :=
    Set.Icc_subset_Icc h1 h3
  have hlen : a.elements.length=pre.length+post.length+1 := by simp [ha]; omega
  unfold cutElement
  by_cases hs : data≠e.start <;> by_cases he : dataEnd≠e.end_
  · -- the range lies strictly inside: two pieces are left
    have hs' : e.start.toNat<data.toNat := by bv_omega
    have he' : dataEnd.toNat<e.end_.toNat := by bv_omega
    have hd1 : (data-1).toNat=data.toNat-1 := by bv_omega
    have hd2 : (dataEnd+1).toNat=dataEnd.toNat+1 := by bv_omega
    rw [if_pos hs,if_pos he]
    obtain ⟨hn,hio⟩ | ⟨b,hb,hbe,hcap,hinc,hmask⟩ :=
      allocElement_cases (pre.length+1) ioNew hfit hw.increment_pos
    · exact Or.inl ⟨by simp [hn],hio⟩
    · rw [hb,Option.map_some]
      refine Or.inr ⟨_,rfl,?_⟩
      have hins : b.elements=pre++e::blank::post := by
        have h := insertIdx_append (pre++[e]) post blank
        simp only [length_append,length_singleton,append_assoc,singleton_append] at h
        rw [hbe,ha,h]
      have hset : ((b.elements.modify pre.length fun e => {e with end_ := data-1}).set
          (pre.length+1) ⟨dataEnd+1,e.end_⟩) =
          pre++([⟨e.start,data-1⟩,⟨dataEnd+1,e.end_⟩]++post) := by
        rw [hins,modify_append_cons]
        have h := set_append_cons (pre++[⟨e.start,data-1⟩]) post blank ⟨dataEnd+1,e.end_⟩
        simpa only [length_append,length_singleton,append_assoc,
          singleton_append,cons_append,nil_append] using h
      refine hw.replace [⟨e.start,data-1⟩,⟨dataEnd+1,e.end_⟩] ha hset ?_ hinc hmask
        ?_ ?_ hD ?_
      · simp only [hset,length_append,length_cons,length_nil]
        omega
      · simp only [separated_cons,mem_singleton,forall_eq,separated_nil,hd1,hd2,
          not_mem_nil,false_implies,implies_true,and_true]
        omega
      · simp only [mem_cons,not_mem_nil,or_false,forall_eq_or_imp,forall_eq,hd1,hd2]
        omega
      · ext x
        simp only [cover_cons,cover_nil,Set.union_empty,Set.mem_union,Set.mem_Icc,
          Set.mem_sdiff,hd1,hd2]
        omega
  · -- the tail of the element goes
    have hs' : e.start.toNat<data.toNat := by bv_omega
    have hd1 : (data-1).toNat=data.toNat-1 := by bv_omega
    rw [if_pos hs,if_neg he]
    simp only [ne_eq,not_not] at he
    refine Or.inr ⟨_,rfl,?_⟩
    refine hw.replace [⟨e.start,data-1⟩] ha (by simp [ha]) (by simpa using hfit)
      rfl rfl ?_ ?_ hD ?_
    · simp only [separated_singleton,hd1]
      omega
    · simp only [mem_singleton,forall_eq,hd1]
      omega
    · ext x
      simp only [cover_cons,cover_nil,Set.union_empty,Set.mem_Icc,Set.mem_sdiff,hd1,he]
      omega
  · -- the head of the element goes
    have he' : dataEnd.toNat<e.end_.toNat := by bv_omega
    have hd2 : (dataEnd+1).toNat=dataEnd.toNat+1 := by bv_omega
    rw [if_neg hs,if_pos he]
    simp only [ne_eq,not_not] at hs
    refine Or.inr ⟨_,rfl,?_⟩
    refine hw.replace [⟨dataEnd+1,e.end_⟩] ha (by simp [ha]) (by simpa using hfit)
      rfl rfl ?_ ?_ hD ?_
    · simp only [separated_singleton,hd2]
      omega
    · simp only [mem_singleton,forall_eq,hd2]
      omega
    · ext x
      simp only [cover_cons,cover_nil,Set.union_empty,Set.mem_Icc,Set.mem_sdiff,hd2,hs]
      omega
  · -- the whole element goes
    rw [if_neg hs,if_neg he]
    simp only [ne_eq,not_not] at hs he
    refine Or.inr ⟨_,rfl,?_⟩
    refine hw.replace [] ha (by simp [deallocElement,ha]) ?_ rfl rfl
      (by simp) (by simp) hD (by simp [hs,he])
    simp only [deallocElement,ha,eraseIdx_append_cons,length_append]
    omega

lemma findRoom_eq_some {size mask : IORangeScalar} {l : List IORangeAllocatorElement}
    {i j : ℕ} (h : findRoom size mask i l=some (j,e)) :
    ∃ pre post,l=pre++e::post ∧ j=i+pre.length ∧ hasRoom e size mask=true ∧
      ∀ x∈pre,hasRoom x size mask=false := by
  induction l generalizing i with
  | nil => simp [findRoom] at h
  | cons x l ih =>
    by_cases hx : hasRoom x size mask=true
    · simp only [findRoom,hx,if_true,Option.some.injEq,Prod.mk.injEq] at h
      obtain ⟨rfl,rfl⟩ := h
      exact ⟨[],l,rfl,by simp,hx,by simp⟩
    · rw [findRoom,if_neg hx] at h
      obtain ⟨pre,post,rfl,rfl,hr,hpre⟩ := ih h
      exact ⟨x::pre,post,rfl,by simp; omega,hr,
        forall_mem_cons.mpr ⟨by simpa using hx,hpre⟩⟩

/-- A request for, or the return of, a range inside the 32-bit space. What is
returned has to be allocated at the time. -/
def Valid (a : IORangeAllocator) : Call → Prop
  | .allocate _ _ _ => True
  | .allocateRange data size _ => data.toNat+a.extent size≤2^32
  | .deallocate data size _ => data.toNat+a.extent size≤2^32 ∧
      ∀ x∈span data (a.extent size),x∉a.freeSet

/-- The calls that the 32-bit arithmetic serves: alignments are powers of two, and in
the element at which the search of `allocate` stops, neither the aligned start nor
the end of the request passes the top of the space. -/
def NoWrap (a : IORangeAllocator) : Call → Prop
  | .allocate size alignment _ =>
    (alignment=0 ∨ IsMask (alignment-1)) ∧ ∀ pre e post,a.elements=pre++e::post →
      (∀ x∈pre,hasRoom x (a.granule size) (a.alignmentMask alignment)=false) →
      hasRoom e (a.granule size) (a.alignmentMask alignment)=true →
      e.start.toNat+(a.alignmentMask alignment).toNat<2^32 ∧
      (roundUp e.start (a.alignmentMask alignment)).toNat+a.extent size≤2^32
  | .allocateRange _ _ _ => True
  | .deallocate _ size _ => size≠0

/-- What a call has to do to the free set. Sizes count in whole units of the default
alignment, and a call may fail for want of memory. -/
def Correct (a : IORangeAllocator) : Call → Prop
  | .allocate size alignment ioNew =>
    let b := a.allocate size alignment ioNew
    match b.1 with
    | some r =>
      r.toNat%(if alignment=0 then a.defaultAlignmentMask.toNat+1 else alignment.toNat)=0 ∧
      span r size.toNat⊆a.freeSet ∧ span r (a.extent size)⊆a.freeSet ∧
      b.2.freeSet=a.freeSet \ span r (a.extent size)
    | none => b.2.freeSet=a.freeSet
  | .allocateRange data size ioNew =>
    let b := a.allocateRange data size ioNew
    (b.1=true → size≠0 ∧ span data (a.extent size)⊆a.freeSet ∧
      b.2.freeSet=a.freeSet \ span data (a.extent size)) ∧ (b.1=false → b.2.freeSet=a.freeSet) ∧
    (size≠0 → span data (a.extent size)⊆a.freeSet → b.1=true ∨ ioNew=false)
  | .deallocate data size ioNew =>
    let b := a.deallocate data size ioNew
    b.freeSet=a.freeSet∪span data (a.extent size) ∨ ioNew=false ∧ b.freeSet=a.freeSet

lemma toNat_pos_of_ne_zero {size : IORangeScalar} (h : size≠0) : 0<size.toNat := by
  have : size.toNat≠0 := fun h0 => h (BitVec.eq_of_toNat_eq (by simpa using h0))
  omega

lemma granule_toNat (hw : a.WellFormed) (size : IORangeScalar) :
    (a.granule size).toNat=a.extent size%2^32 := roundUp_toNat hw.mask size

lemma extent_pos {size : IORangeScalar} (h : size≠0) :
    0<a.extent size := (toNat_pos_of_ne_zero h).trans_le (le_ceilTo _ _)

lemma lastOffset (hw : a.WellFormed)
    (h0 : 0<a.extent size) (h : data.toNat+a.extent size≤2^32) :
    (data+a.granule size-1).toNat=data.toNat+a.extent size-1 := by
  have hg := granule_toNat hw size
  have hd := data.isLt
  bv_omega

lemma span_eq_Icc (hw : a.WellFormed)
    (h0 : 0<a.extent size) (h : data.toNat+a.extent size≤2^32) :
    data.toNat≤(data+a.granule size-1).toNat ∧
    span data (a.extent size)=Set.Icc data.toNat (data+a.granule size-1).toNat := by
  have he := lastOffset hw h0 h
  refine ⟨by omega,?_⟩
  ext x
  simp only [span,Set.mem_Ico,Set.mem_Icc,he]
  omega

lemma span_subset {data : IORangeScalar} {s t : ℕ} (h : s≤t) :
    span data s⊆span data t := Set.Ico_subset_Ico_right (by omega)

lemma Icc_subset_freeSet
    (he : e∈a.elements) : Set.Icc e.start.toNat e.end_.toNat⊆a.freeSet :=
  fun _ hx => ⟨e,he,hx.1,hx.2⟩

lemma allocate_correct (hw : a.WellFormed)
    {size alignment : IORangeScalar} {ioNew : Bool}
    (hn : a.NoWrap (.allocate size alignment ioNew)) :
    (a.allocate size alignment ioNew).2.WellFormed ∧
    a.Correct (.allocate size alignment ioNew) := by
  obtain ⟨hpow,hroom⟩ := hn
  have hfail : a.allocate size alignment ioNew=(none,a) →
      (a.allocate size alignment ioNew).2.WellFormed ∧
      a.Correct (.allocate size alignment ioNew) := by
    intro hv
    simp only [Correct,hv]
    exact ⟨hw,trivial⟩
  by_cases h0 : size=0
  · exact hfail (by simp [allocate,h0])
  cases hf : findRoom (a.granule size) (a.alignmentMask alignment) 0 a.elements with
  | none => exact hfail (by simp only [allocate,h0,if_false,hf])
  | some found =>
    obtain ⟨index,e⟩ := found
    obtain ⟨pre,post,ha,hidx,hr,hpre⟩ := findRoom_eq_some hf
    rw [Nat.zero_add] at hidx
    subst hidx
    obtain ⟨hstart,hend⟩ := hroom pre e post ha hpre hr
    obtain ⟨hle,hspan⟩ := span_eq_Icc hw (extent_pos h0) hend
    have hlast : (roundUp e.start (a.alignmentMask alignment)+a.granule size-1).toNat ≤
        e.end_.toNat := by
      simpa [hasRoom,BitVec.le_def] using hr
    have hsub : span (roundUp e.start (a.alignmentMask alignment)) (a.extent size)⊆a.freeSet := by
      rw [hspan]
      exact (Set.Icc_subset_Icc (le_roundUp hstart).1 hlast).trans
        (Icc_subset_freeSet (by simp [ha]))
    obtain ⟨hc,hio⟩ | ⟨b,hc,hb,hfree⟩ := cutElement_spec ioNew hw ha
      (le_roundUp hstart).1 hle hlast
    · exact hfail (by simp only [allocate,h0,if_false,hf,hc])
    · have hv : a.allocate size alignment ioNew =
          (some (roundUp e.start (a.alignmentMask alignment)),b) := by
        simp only [allocate,h0,if_false,hf,hc]
      simp only [Correct,hv]
      refine ⟨hb,?_,(span_subset (le_ceilTo _ _)).trans hsub,hsub,by rw [hfree,hspan]⟩
      by_cases hal : alignment=0
      · subst hal
        rw [if_pos rfl,alignmentMask_zero]
        exact roundUp_mod hw.mask e.start
      · have hmask : IsMask (alignment-1) := hpow.resolve_left hal
        have hone : (alignment-1).toNat+1=alignment.toNat := by bv_omega
        have h := roundUp_mod hmask e.start
        rw [hone] at h
        rwa [if_neg hal,alignmentMask,if_neg hal]

lemma allocateRangeFrom_spec (hw : a.WellFormed)
    {data dataEnd : IORangeScalar} (ioNew : Bool) (hle : data.toNat≤dataEnd.toNat)
    (pre : List IORangeAllocatorElement) {l : List IORangeAllocatorElement}
    (ha : a.elements=pre++l) : (a.allocateRangeFrom data dataEnd ioNew pre.length l=none ∧
      ∀ e∈l,e.start.toNat≤data.toNat → dataEnd.toNat≤e.end_.toNat → ioNew=false) ∨
    ∃ b,a.allocateRangeFrom data dataEnd ioNew pre.length l=some b ∧ b.WellFormed ∧
      Set.Icc data.toNat dataEnd.toNat⊆a.freeSet ∧
      b.freeSet=a.freeSet \ Set.Icc data.toNat dataEnd.toNat := by
  induction l generalizing pre with
  | nil => exact Or.inl ⟨rfl,by simp⟩
  | cons e l ih =>
    have hrest := ih (pre++[e]) (by simp [ha])
    simp only [length_append,length_singleton] at hrest
    have hsep := hw.separated
    rw [ha] at hsep
    obtain ⟨_,hel,_⟩ := separated_append.mp hsep
    rw [allocateRangeFrom]
    by_cases h1 : data<e.start
    · -- every later element starts past `data` too
      rw [if_pos h1]
      refine Or.inl ⟨rfl,?_⟩
      intro f hf hfs
      have := hel.lt_lo (BitVec.lt_def.mp h1) f hf
      omega
    rw [if_neg h1]
    simp only [BitVec.lt_def,not_lt] at h1
    by_cases h2 : dataEnd≤e.end_
    · rw [if_pos h2]
      obtain ⟨hc,hio⟩ | ⟨b,hc,hb,hfree⟩ :=
        cutElement_spec ioNew hw ha h1 hle (BitVec.le_def.mp h2)
      · rw [hc]
        rcases hrest with ⟨hn,_⟩ | hs
        · exact Or.inl ⟨hn,fun _ _ _ _ => hio⟩
        · exact Or.inr hs
      · rw [hc]
        exact Or.inr ⟨b,rfl,hb,(Set.Icc_subset_Icc h1 (BitVec.le_def.mp h2)).trans
          (Icc_subset_freeSet (by simp [ha])),hfree⟩
    · rw [if_neg h2]
      rcases hrest with ⟨hn,hl⟩ | hs
      · refine Or.inl ⟨hn,fun f hf h3 h4 => ?_⟩
        rcases mem_cons.mp hf with rfl | hf
        · exact absurd (BitVec.le_def.mpr h4) h2
        · exact hl f hf h3 h4
      · exact Or.inr hs

lemma allocateRange_correct (hw : a.WellFormed)
    {ioNew : Bool}
    (hs : a.Valid (.allocateRange data size ioNew)) :
    (a.allocateRange data size ioNew).2.WellFormed ∧
    a.Correct (.allocateRange data size ioNew) := by
  by_cases h0 : size=0
  · have hv : a.allocateRange data size ioNew=(false,a) := by simp [allocateRange,h0]
    simp only [Correct,hv]
    exact ⟨hw,by simp,fun _ => trivial,fun h => absurd h0 h⟩
  obtain ⟨hle,hspan⟩ := span_eq_Icc hw (extent_pos h0) hs
  obtain ⟨hc,hno⟩ | ⟨b,hc,hb,hsub,hfree⟩ :=
    allocateRangeFrom_spec hw ioNew hle [] rfl
  · have hv : a.allocateRange data size ioNew=(false,a) := by
      rw [length_nil] at hc
      simp only [allocateRange,h0,if_false,hc]
    simp only [Correct,hv]
    refine ⟨hw,by simp,fun _ => trivial,fun _ hin => Or.inr ?_⟩
    rw [hspan] at hin
    obtain ⟨e,he,h1,h2⟩ := hw.separated.exists_of_Icc_subset hle hin
    exact hno e he h1 h2
  · have hv : a.allocateRange data size ioNew=(true,b) := by
      rw [length_nil] at hc
      simp only [allocateRange,h0,if_false,hc]
    rw [←hspan] at hsub hfree
    simp only [Correct,hv]
    exact ⟨hb,fun _ => ⟨h0,hsub,hfree⟩,by simp,fun _ _ => Or.inl trivial⟩

def touchesHead (data : IORangeScalar) (headContig : Bool) (pre : List IORangeAllocatorElement) :
    Bool :=
  match pre.getLast? with
  | none => headContig
  | some p => decide (data≤p.end_+1)

def touchesTail (data size : IORangeScalar) : List IORangeAllocatorElement → Bool
  | [] => false
  | e::_ => decide (e.start≤data+size)

lemma findNeighbours_eq (data size : IORangeScalar) (index : ℕ) (headContig : Bool)
    (l : List IORangeAllocatorElement) :
    ∃ pre post,l=pre++post ∧ (∀ x∈pre,x.start.toNat<data.toNat) ∧
      (∀ e∈post.head?,data.toNat≤e.start.toNat) ∧ findNeighbours data size index headContig l =
        (index+pre.length,touchesHead data headContig pre,touchesTail data size post) := by
  induction l generalizing index headContig with
  | nil => exact ⟨[],[],rfl,by simp,by simp,rfl⟩
  | cons x l ih =>
    by_cases hx : x.start<data
    · obtain ⟨pre,post,rfl,hpre,hpost,heq⟩ := ih (index+1) (decide (data≤x.end_+1))
      refine ⟨x::pre,post,rfl,forall_mem_cons.mpr ⟨BitVec.lt_def.mp hx,hpre⟩,hpost,?_⟩
      rw [findNeighbours,if_pos hx,heq]
      have hh : touchesHead data headContig (x::pre) =
          touchesHead data (decide (data≤x.end_+1)) pre := by
        cases hl : pre.getLast? <;> simp [touchesHead,getLast?_cons,hl]
      rw [hh,length_cons]
      congr 1
      omega
    · refine ⟨[],x::l,rfl,by simp,?_,?_⟩
      · simpa [BitVec.lt_def] using hx
      · rw [findNeighbours,if_neg hx]
        rfl

lemma touchesHead_cases {data : IORangeScalar} {pre : List IORangeAllocatorElement}
    (hs : Separated (fun e : IORangeAllocatorElement => e.start.toNat) (fun e => e.end_.toNat) pre)
    (hlt : ∀ x∈pre,x.end_.toNat<data.toNat) : (touchesHead data false pre=true ∧
      ∃ l p,pre=l++[p] ∧ p.end_.toNat+1=data.toNat) ∨
    (touchesHead data false pre=false ∧ ∀ x∈pre,x.end_.toNat+1<data.toNat) := by
  rcases eq_nil_or_concat' pre with rfl | ⟨l,p,rfl⟩
  · exact Or.inr ⟨rfl,by simp⟩
  · have hp := hlt p (by simp)
    have hnext : (p.end_+1).toNat=p.end_.toNat+1 := by bv_omega
    simp only [touchesHead,getLast?_concat,decide_eq_true_eq,decide_eq_false_iff_not,
      BitVec.le_def,hnext]
    by_cases hd : data.toNat≤p.end_.toNat+1
    · exact Or.inl ⟨hd,l,p,rfl,by omega⟩
    · refine Or.inr ⟨hd,fun x hx => ?_⟩
      have := hs.hi_lt (x := data.toNat-1) (by omega) x hx
      omega

lemma touchesTail_cases {n : ℕ} {post : List IORangeAllocatorElement}
    (hn : size.toNat=n%2^32)
    (hs : Separated (fun e : IORangeAllocatorElement => e.start.toNat) (fun e => e.end_.toNat) post)
    (hle : ∀ x∈post,data.toNat+n≤x.start.toNat) : (touchesTail data size post=true ∧
      ∃ e r,post=e::r ∧ e.start.toNat=data.toNat+n) ∨ (touchesTail data size post=false ∧
      ∀ x∈post,data.toNat+n<x.start.toNat) := by
  cases post with
  | nil => exact Or.inr ⟨rfl,by simp⟩
  | cons e r =>
    have he := hle e (by simp)
    have hsum : (data+size).toNat=data.toNat+n := by bv_omega
    simp only [touchesTail,decide_eq_true_eq,decide_eq_false_iff_not,BitVec.le_def,hsum]
    by_cases hd : e.start.toNat≤data.toNat+n
    · exact Or.inl ⟨hd,e,r,rfl,by omega⟩
    · exact Or.inr ⟨hd,hs.lt_lo (by omega)⟩

lemma WellFormed.absorb {a b : IORangeAllocator} {l p r : List IORangeAllocatorElement}
    {m : IORangeAllocatorElement} {D : Set ℕ} (hw : a.WellFormed)
    (ha : a.elements=l++(p++r)) (hb : b.elements=l++m::r)
    (hfit : b.elements.length≤b.capacity) (hinc : b.capacityIncrement=a.capacityIncrement)
    (hmask : b.defaultAlignmentMask=a.defaultAlignmentMask)
    (hm : m.start.toNat ≤ m.end_.toNat)
    (hl : ∀ x∈l,x.end_.toNat+1 < m.start.toNat)
    (hr : ∀ x∈r,m.end_.toNat+1<x.start.toNat)
    (hcover : Set.Icc m.start.toNat m.end_.toNat =
      cover (fun e : IORangeAllocatorElement => e.start.toNat) (fun e => e.end_.toNat) p∪D) :
    b.WellFormed ∧ b.freeSet=a.freeSet∪D := by
  have hs := hw.separated
  rw [ha] at hs
  obtain ⟨hsl,hspr,_⟩ := separated_append.mp hs
  obtain ⟨_,hsr,_⟩ := separated_append.mp hspr
  refine ⟨⟨?_,hfit,hinc▸hw.increment_pos,hmask▸hw.mask⟩,?_⟩
  · rw [hb]
    exact hsl.insert hsr hm hl hr
  · unfold freeSet
    rw [ha,hb]
    simp only [cover_append,cover_cons,hcover]
    ext x
    simp only [Set.mem_union]
    tauto

lemma span_beside (hw : a.WellFormed) {data : IORangeScalar} {n : ℕ}
    (hpos : 0<n) (hdis : ∀ x∈span data n,x∉a.freeSet)
    (he : e∈a.elements) : e.end_.toNat<data.toNat ∨ data.toNat+n≤e.start.toNat := by
  by_contra h
  rw [not_or,not_lt,not_le] at h
  have hle := hw.separated.1 e he
  have h1 : max data.toNat e.start.toNat∈span data n := by
    simp only [span,Set.mem_Ico]
    omega
  have h2 : max data.toNat e.start.toNat∈Set.Icc e.start.toNat e.end_.toNat := by
    simp only at hle
    simp only [Set.mem_Icc]
    omega
  exact hdis _ h1 (Icc_subset_freeSet he h2)

lemma deallocate_spec (hw : a.WellFormed)
    (ioNew : Bool) (hpos : 0<a.extent size)
    (hfit : data.toNat+a.extent size≤2^32)
    (hdis : ∀ x∈span data (a.extent size),x∉a.freeSet) :
    (a.deallocate data size ioNew=a ∧ ioNew=false) ∨ ((a.deallocate data size ioNew).WellFormed ∧
      (a.deallocate data size ioNew).freeSet=a.freeSet∪span data (a.extent size)) := by
  obtain ⟨pre,post,ha,hpre,hpost,hfind⟩ := findNeighbours_eq data (a.granule size) 0 false a.elements
  rw [Nat.zero_add] at hfind
  have hs := hw.separated
  rw [ha] at hs
  obtain ⟨hspre,hspost,hgap⟩ := separated_append.mp hs
  have hbelow : ∀ x∈pre,x.end_.toNat<data.toNat := by
    intro x hx
    have := hpre x hx
    rcases span_beside hw hpos hdis (e := x) (by simp [ha,hx]) with h | h <;> omega
  have habove : ∀ x∈post,data.toNat+a.extent size≤x.start.toNat := by
    intro x hx
    have hle := hw.separated.1 x (by simp [ha,hx])
    simp only at hle
    have hdx : data.toNat≤x.start.toNat := by
      cases post with
      | nil => simp at hx
      | cons e r =>
        have he := hpost e (by simp)
        rcases mem_cons.mp hx with rfl | hx
        · exact he
        · have hee := hspost.1 e (by simp)
          have := (separated_cons.mp hspost).2.1 x hx
          simp only at hee
          omega
    rcases span_beside hw hpos hdis (e := x) (by simp [ha,hx]) with h | h <;> omega
  obtain ⟨hle,hspan⟩ := span_eq_Icc hw hpos hfit
  have hlast := lastOffset hw hpos hfit
  have hcap := hw.fits
  rcases touchesHead_cases hspre hbelow with ⟨hh,l,p,rfl,hp⟩ | ⟨hh,hl⟩ <;>
    rcases touchesTail_cases (granule_toNat hw size) hspost habove with ⟨ht,e,r,rfl,he⟩ | ⟨ht,hr⟩
  · -- the range closes the gap between two elements
    simp only [append_assoc,singleton_append] at ha
    have hb : a.deallocate data size ioNew={a with elements := l++⟨p.start,e.end_⟩::r} := by
      rw [hh,ht,length_append,length_singleton] at hfind
      have h2 := eraseIdx_append_cons (l++[⟨p.start,e.end_⟩]) r e
      have h3 := getD_append_cons (l++[p]) r e blank
      simp only [length_append,length_singleton,append_assoc,singleton_append] at h2 h3
      simp only [deallocate,hfind,if_true,deallocElement,Nat.add_sub_cancel]
      rw [ha,h3,modify_append_cons,h2]
    rw [hb]
    have hpe := hspre.1 p (by simp)
    have hee := hspost.1 e (by simp)
    simp only at hpe hee
    refine Or.inr (hw.absorb (p := [p,e]) (m := ⟨p.start,e.end_⟩) ha rfl ?_ rfl rfl ?_ ?_ ?_ ?_)
    · simp only [ha,length_append,length_cons] at hcap ⊢
      omega
    · simp only
      omega
    · exact fun x hx => (separated_append.mp hspre).2.2 x hx p (by simp)
    · exact (separated_cons.mp hspost).2.1
    · ext x
      simp only [hspan,hlast,cover_cons,cover_nil,Set.union_empty,Set.mem_union,Set.mem_Icc]
      omega
  · -- the range grows the element below it
    simp only [append_assoc,singleton_append] at ha
    have hgrow : p.end_<data+a.granule size-1 := by
      rw [BitVec.lt_def]
      omega
    have hb : a.deallocate data size ioNew =
        {a with elements := l++⟨p.start,data+a.granule size-1⟩::post} := by
      rw [hh,ht,length_append,length_singleton] at hfind
      simp only [deallocate,hfind,if_true,Bool.false_eq_true,if_false,Nat.add_sub_cancel]
      rw [ha,modify_append_cons,if_pos hgrow]
    rw [hb]
    have hpe := hspre.1 p (by simp)
    simp only at hpe
    refine Or.inr (hw.absorb (p := [p]) (m := ⟨p.start,data+a.granule size-1⟩)
      ha rfl ?_ rfl rfl ?_ ?_ ?_ ?_)
    · simpa [ha] using hcap
    · simp only
      omega
    · exact fun x hx => (separated_append.mp hspre).2.2 x hx p (by simp)
    · intro x hx
      have := hr x hx
      simp only
      omega
    · ext x
      simp only [hspan,hlast,cover_cons,cover_nil,Set.union_empty,Set.mem_union,Set.mem_Icc]
      omega
  · -- the range grows the element above it
    have hgrow : data<e.start := by
      rw [BitVec.lt_def]
      omega
    have hb : a.deallocate data size ioNew={a with elements := pre++⟨data,e.end_⟩::r} := by
      rw [hh,ht] at hfind
      simp only [deallocate,hfind,if_true,Bool.false_eq_true,if_false]
      rw [ha,modify_append_cons,if_pos hgrow]
    rw [hb]
    have hee := hspost.1 e (by simp)
    simp only at hee
    refine Or.inr (hw.absorb (p := [e]) (m := ⟨data,e.end_⟩) ha rfl ?_ rfl rfl ?_ hl ?_ ?_)
    · simpa [ha] using hcap
    · simp only
      omega
    · exact (separated_cons.mp hspost).2.1
    · ext x
      simp only [hspan,hlast,cover_cons,cover_nil,Set.union_empty,Set.mem_union,Set.mem_Icc]
      omega
  · -- the range touches neither neighbour
    rw [hh,ht] at hfind
    obtain ⟨hn,hio⟩ | ⟨b,hb,hbe,hbcap,hinc,hmask⟩ :=
      allocElement_cases pre.length ioNew hcap hw.increment_pos
    · refine Or.inl ⟨?_,hio⟩
      simp only [deallocate,hfind,Bool.false_eq_true,if_false,hn]
    have hv : a.deallocate data size ioNew =
        {b with elements := pre++⟨data,data+a.granule size-1⟩::post} := by
      simp only [deallocate,hfind,Bool.false_eq_true,if_false,hb]
      rw [hbe,ha,insertIdx_append,set_append_cons]
    rw [hv]
    refine Or.inr (hw.absorb (p := []) (m := ⟨data,data+a.granule size-1⟩)
      ha rfl ?_ hinc hmask hle hl ?_ ?_)
    · simp only [ha,length_append,length_cons] at hbcap ⊢
      omega
    · intro x hx
      have := hr x hx
      simp only
      omega
    · simp only [hspan,cover_nil,Set.empty_union]

lemma deallocate_correct (hw : a.WellFormed)
    {ioNew : Bool}
    (hs : a.Valid (.deallocate data size ioNew)) (hn : a.NoWrap (.deallocate data size ioNew)) :
    (a.deallocate data size ioNew).WellFormed ∧ a.Correct (.deallocate data size ioNew) := by
  obtain ⟨hfit,hdis⟩ := hs
  rcases deallocate_spec hw ioNew (extent_pos hn) hfit hdis with ⟨he,hio⟩ | ⟨hb,hfree⟩
  · simp only [Correct,he]
    exact ⟨hw,Or.inr ⟨hio,trivial⟩⟩
  · exact ⟨hb,Or.inl hfree⟩

lemma next_correct (hw : a.WellFormed) {c : Call}
    (hs : a.Valid c) (hn : a.NoWrap c) : (a.next c).WellFormed ∧ a.Correct c := by
  cases c with
  | allocate size alignment ioNew => exact allocate_correct hw hn
  | allocateRange data size ioNew => exact allocateRange_correct hw hs
  | deallocate data size ioNew => exact deallocate_correct hw hs hn

def Step (a b : IORangeAllocator) : Prop := ∃ c,a.Valid c ∧ a.NoWrap c ∧ b=a.next c

lemma wellFormed_of_run {a b : IORangeAllocator} (hw : a.WellFormed)
    (hrun : Relation.ReflTransGen Step a b) : b.WellFormed := by
  induction hrun with
  | refl => exact hw
  | tail _ hstep ih =>
    obtain ⟨c,hs,hn,rfl⟩ := hstep
    exact (next_correct ih hs hn).1

/-- In a run in which no sum wraps, every state is well formed and every further call
without a wrap does what it has to. -/
theorem run_correct {a s : IORangeAllocator} (hw : a.WellFormed)
    (hrun : Relation.ReflTransGen Step a s) :
    s.WellFormed ∧ ∀ c,s.Valid c → s.NoWrap c → (s.next c).WellFormed ∧ s.Correct c :=
  have hs := wellFormed_of_run hw hrun
  ⟨hs,fun _ hv hn => next_correct hs hv hn⟩

lemma init_wellFormed (endOfRange defaultAlignment : IORangeScalar)
    (capacity : ℕ) (ioNew : Bool)
    (hal : IsMask ((if defaultAlignment=0 then 1 else defaultAlignment)-1)) :
    (init endOfRange defaultAlignment capacity ioNew).WellFormed := by
  have hcap : 0 < if capacity=0 then 1 else capacity := by split_ifs <;> omega
  unfold init
  by_cases hend : endOfRange≠0
  · simp only [if_pos hend,deallocate,findNeighbours,allocElement,Bool.false_eq_true,if_false]
    cases ioNew
    · simp only [or_true,Bool.false_eq_true,if_true,if_false]
      exact ⟨separated_nil,le_rfl,hcap,hal⟩
    · simp only [or_true,if_true,insertIdx_zero,set_cons_zero]
      exact ⟨separated_singleton.mpr (Nat.zero_le _),by simp only [length_singleton]; omega,
        hcap,hal⟩
  · simp only [if_neg hend]
    exact ⟨separated_nil,le_rfl,hcap,hal⟩

def lastPage : IORangeAllocator := (init 0xFFFFFFFF 0 0 true).next (.allocateRange 0 0xFFFFF000 true)

lemma lastPage_elements : lastPage.elements=[⟨0xFFFFF000,0xFFFFFFFF⟩] := by decide

theorem run_correct_lastPage : lastPage.WellFormed ∧
    ∀ c,lastPage.Valid c → lastPage.NoWrap c → (lastPage.next c).WellFormed ∧ lastPage.Correct c :=
  run_correct (init_wellFormed 0xFFFFFFFF 0 0 true ⟨0,by decide⟩)
    (Relation.ReflTransGen.single ⟨.allocateRange 0 0xFFFFF000 true,by unfold Valid; decide,
      trivial,rfl⟩)

/-- With only the last page free, a request for two pages succeeds: the end of the
range wraps to a small number and passes the search test. -/
theorem lastPage_allocate_wraps : lastPage.Valid (.allocate 0x2000 0 true) ∧
    lastPage.freeSet=Set.Icc 0xFFFFF000 0xFFFFFFFF ∧
    (lastPage.allocate 0x2000 0 true).1=some 0xFFFFF000 ∧
    ¬lastPage.Correct (.allocate 0x2000 0 true) := by
  have hfree : lastPage.freeSet=Set.Icc 0xFFFFF000 0xFFFFFFFF := by
    simp only [freeSet,lastPage_elements,cover_cons,cover_nil,Set.union_empty]
    rfl
  have hr : (lastPage.allocate 0x2000 0 true).1=some 0xFFFFF000 := by decide
  refine ⟨trivial,hfree,hr,?_⟩
  simp only [Correct,hr,hfree]
  rintro ⟨_,hin,_⟩
  have htop : 2^32∈span 0xFFFFF000#32 (0x2000#32).toNat := by
    simp only [span,Set.mem_Ico]
    decide
  have := (hin htop).2
  omega

end IORangeAllocator
end Darwin.IOKit
