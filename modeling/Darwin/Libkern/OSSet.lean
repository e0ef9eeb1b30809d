import Mathlib.Data.UInt
import Mathlib.Tactic
import Mathlib.Data.List.ReduceOption

/-! Sets of objects: `libkern/c++/OSSet.cpp`, over what it uses of `OSArray.cpp`. Objects are told
apart by their addresses. -/
open Option Finset
namespace Darwin.Libkern

/-- The members' array. -/
structure OSArray (α : Type*) where
  array : List α
  capacity : ℕ
  capacityIncrement : ℕ

namespace OSArray
variable {α : Type*}

/-- How many pointers a block has that is allocated for so many: its size in bytes has 32 bits. -/
def slots (capacity : ℕ) : ℕ := 4*capacity%2^32/4

def initWithCapacity (kalloc : Bool) (inCapacity : ℕ) : Option (OSArray α) :=
  if kalloc then some ⟨[],inCapacity,if inCapacity=0 then 16 else inCapacity⟩ else none

/-- The capacity of the result is what is returned; there is none if the old block is copied to a
smaller one. -/
def ensureCapacity (a : OSArray α) (kalloc : Bool) (newCapacity : ℕ) : Option (OSArray α) :=
  if newCapacity≤a.capacity then some a
  else
    let newCapacity := ((newCapacity-1)/a.capacityIncrement+1)*a.capacityIncrement%2^32
    if kalloc=false then some a
    else if slots newCapacity<slots a.capacity then none
    else some {a with capacity := newCapacity}

def setObject (a : OSArray α) (kalloc : Bool) (anObject : Option α) : Option (OSArray α × Bool) :=
  match anObject with
  | none => some (a,false)
  | some anObject =>
    let newCount := (a.array.length+1)%2^32
    match if a.capacity<newCount then a.ensureCapacity kalloc newCount else some a with
    | none => none
    | some a =>
      if a.capacity<newCount then some (a,false)
      else if slots a.capacity≤a.array.length then none
      else some ({a with array := a.array++[anObject]},true)

def removeObject (a : OSArray α) (index : ℕ) : OSArray α :=
  {a with array := a.array.eraseIdx index}

def flushCollection (a : OSArray α) : OSArray α := {a with array := []}

end OSArray

/-- `membersObject` is the array itself, which is an object too. -/
structure OSSet (α : Type*) where
  members : OSArray α
  membersObject : α

namespace OSSet
variable {α : Type*} [DecidableEq α]

def containsObject (s : OSSet α) : Option α → Bool
  | none => false
  | some anObject => decide (anObject∈s.members.array)

def setObject (s : OSSet α) (kalloc : Bool) (anObject : Option α) : Option (OSSet α × Bool) :=
  if s.containsObject anObject then some (s,false)
  else (s.members.setObject kalloc anObject).map fun r => ({s with members := r.1},r.2)

/-- `merge(const OSArray *)`, with what becomes of the allocations that are asked for. -/
def mergeArray (s : OSSet α) (kalloc : ℕ → Bool) : List α → Option (OSSet α × Bool)
  | [] => some (s,false)
  | anObject::array =>
    match s.setObject (kalloc 0) (some anObject) with
    | none => none
    | some (s,new) =>
      (mergeArray s (fun i => kalloc (i+1)) array).map fun r => (r.1,new || r.2)

def mergeSet (s : OSSet α) (kalloc : Bool) (set : OSSet α) : Option (OSSet α × Bool) :=
  s.setObject kalloc (some set.membersObject)

def removeObject (s : OSSet α) : Option α → OSSet α
  | none => s
  | some anObject => {s with members := s.members.removeObject (s.members.array.idxOf anObject)}

def flushCollection (s : OSSet α) : OSSet α := {s with members := s.members.flushCollection}

def isEqualToLoop (isEqual : α → α → Bool) : List α → List α → Bool
  | x::xs,y::ys => isEqual y x && isEqualToLoop isEqual xs ys
  | _,_ => true

def isEqualTo (isEqual : α → α → Bool) (s aSet : OSSet α) : Bool :=
  if s.members.array.length≠aSet.members.array.length then false
  else isEqualToLoop isEqual s.members.array aSet.members.array

/-- The loop of `initWithObjects`, with no result if it writes outside the block and `none` for a
set that is not made. -/
def fill (inCapacity : ℕ) : OSSet α → List (Option α) → Option (Option (OSSet α))
  | s,[] => some (some s)
  | s,anObject::inObjects =>
    if s.members.array.length < inCapacity then
      match s.setObject true anObject with
      | none => none
      | some (s,_) => fill inCapacity s inObjects
    else some none

def initWithObjects (membersObject : α) (kalloc : Bool) (inObjects : List (Option α))
    (inCapacity : ℕ) : Option (Option (OSSet α)) :=
  if inCapacity≠0 ∧ inCapacity < inObjects.length then some none
  else
    match OSArray.initWithCapacity kalloc (if inCapacity≠0 then inCapacity else inObjects.length)
      with
    | none => some none
    | some members => fill inCapacity ⟨members,membersObject⟩ inObjects

/-- `initWithCapacity`, `initWithArray` and `initWithSet` besides. -/
inductive Construction (α : Type*)
  | withCapacity (capacity : ℕ)
  | withObjects (objects : List (Option α)) (capacity : ℕ)
  | withArray (array : List α) (capacity : ℕ)
  | withSet (set : OSSet α) (capacity : ℕ)

def construct (membersObject : α) (kalloc : Bool) : Construction α → Option (Option (OSSet α))
  | .withCapacity capacity =>
    some ((OSArray.initWithCapacity kalloc capacity).map fun members => ⟨members,membersObject⟩)
  | .withObjects objects capacity => initWithObjects membersObject kalloc objects capacity
  | .withArray array capacity => initWithObjects membersObject kalloc (array.map some) capacity
  | .withSet set capacity =>
    initWithObjects membersObject kalloc (set.members.array.map some) capacity

inductive Call (α : Type*)
  | setObject (anObject : Option α) (kalloc : Bool)
  | mergeArray (array : List α) (kalloc : ℕ → Bool)
  | mergeSet (set : OSSet α) (kalloc : Bool)
  | removeObject (anObject : Option α)
  | flushCollection
  | containsObject (anObject : Option α)
  | isEqualTo (aSet : OSSet α)
  | isEqualToItself

def step (isEqual : α → α → Bool) (s : OSSet α) : Call α → Option (OSSet α × Bool)
  | .setObject anObject kalloc => s.setObject kalloc anObject
  | .mergeArray array kalloc => s.mergeArray kalloc array
  | .mergeSet set kalloc => s.mergeSet kalloc set
  | .removeObject anObject => some (s.removeObject anObject,true)
  | .flushCollection => some (s.flushCollection,true)
  | .containsObject anObject => some (s,s.containsObject anObject)
  | .isEqualTo aSet => some (s,isEqualTo isEqual s aSet)
  | .isEqualToItself => some (s,true)

end OSSet
end Darwin.Libkern

/-! Object sets as sets of their members. -/
namespace Darwin.Libkern

namespace OSArray
variable {α : Type*} {a : OSArray α}

lemma slots_eq {capacity : ℕ} : slots capacity=capacity%2^30 := by
  rw [slots]
  omega

/-- The array is inside its block, and grows by what it was first given. -/
structure WellFormed (a : OSArray α) : Prop where
  inside : a.array.length ≤ slots a.capacity
  increment : a.capacityIncrement ∣ a.capacity
  pos : 0<a.capacityIncrement
  le : a.capacityIncrement≤a.capacity ∨ a.capacity=0 ∧ a.capacityIncrement=16

/-- There is room in the block for one object more, or the block becomes one with less than 2^30
pointers, or the allocation fails. -/
def Room (a : OSArray α) (kalloc : Bool) : Prop :=
  if a.array.length<a.capacity then a.array.length<slots a.capacity
  else kalloc=true → a.capacity+a.capacityIncrement<2^30

lemma setObject_cases (h : WellFormed a) (kalloc : Bool) (x : α) :
    (¬a.Room kalloc ∧ a.setObject kalloc (some x)=none) ∨
    a.Room kalloc ∧ ∃ a' ok,a.setObject kalloc (some x)=some (a',ok) ∧ WellFormed a' ∧
      a'.array=(if ok then a.array++[x] else a.array) ∧
      (a.array.length<a.capacity → a'.capacity=a.capacity) ∧
      (ok=true ↔ a.array.length<a.capacity ∨ kalloc=true) := by
  have hin := h.inside
  rw [slots_eq] at hin
  rw [Room,setObject,Nat.mod_eq_of_lt (a := a.array.length+1) (by omega)]
  by_cases hroom : a.array.length<a.capacity
  · rw [if_pos hroom,if_neg (by omega)]
    dsimp only
    rw [if_neg (by omega)]
    by_cases hslot : a.array.length<slots a.capacity
    · rw [if_neg (by omega)]
      refine .inr ⟨hslot,_,true,rfl,⟨?_,h.increment,h.pos,h.le⟩,rfl,fun _ => rfl,?_⟩
      · simpa using hslot
      · simp [hroom]
    · rw [if_pos (by omega)]
      exact .inl ⟨hslot,rfl⟩
  · have hcap : a.capacity=a.array.length := by omega
    obtain ⟨k,hk⟩ := h.increment
    have hgrown : ((a.array.length+1-1)/a.capacityIncrement+1)*a.capacityIncrement %
        2^32=a.capacity+a.capacityIncrement := by
      rw [Nat.add_sub_cancel,←hcap,Nat.add_one_mul,Nat.div_mul_cancel h.increment]
      have := h.le
      omega
    rw [if_neg hroom,if_pos (by omega),ensureCapacity,if_neg (by omega)]
    dsimp only
    rw [hgrown]
    cases kalloc with
    | false =>
      rw [if_pos rfl]
      dsimp only
      rw [if_pos (by omega)]
      exact .inr ⟨fun hf => (by cases hf),a,false,rfl,h,rfl,fun _ => rfl,by simp [hroom]⟩
    | true =>
      rw [if_neg (by decide),slots_eq,slots_eq]
      by_cases hlarge : a.capacity+a.capacityIncrement<2^30
      · rw [if_neg (by have := h.pos; omega)]
        dsimp only
        rw [if_neg (by have := h.pos; omega),slots_eq,if_neg (by have := h.pos; omega)]
        refine .inr ⟨fun _ => hlarge,_,true,rfl,⟨?_,?_,h.pos,.inl (Nat.le_add_left _ _)⟩,rfl,
          fun hlt => absurd hlt hroom,by simp⟩
        · rw [slots_eq,List.length_append,List.length_singleton]
          have := h.pos
          dsimp only
          omega
        · exact (Nat.dvd_add_right h.increment).mpr (Nat.dvd_refl _)
      · rw [if_pos (by have := h.le; have := h.pos; omega)]
        exact .inl ⟨fun hf => hlarge (hf rfl),rfl⟩

end OSArray

namespace OSSet
variable {α : Type*} [DecidableEq α] {s : OSSet α}

def mem (s : OSSet α) : Finset α := s.members.array.toFinset

structure WellFormed (s : OSSet α) : Prop where
  array : s.members.WellFormed
  nodup : s.members.array.Nodup

lemma containsObject_iff {x : Option α} : s.containsObject x=true ↔ ∃ y∈s.mem,x=some y := by
  cases x with
  | none => simp [containsObject]
  | some x => simp [containsObject,mem]

def Obtains (s : OSSet α) (kalloc : Bool) : Prop :=
  s.members.array.length<s.members.capacity ∨ kalloc=true

instance (s : OSSet α) (kalloc : Bool) : Decidable (s.Obtains kalloc) :=
  inferInstanceAs (Decidable (_ ∨ _))

def Takes (s : OSSet α) (kalloc : Bool) (x : Option α) : Prop :=
  ∀ y,x=some y → y∉s.mem → s.members.Room kalloc

lemma setObject_cases (h : WellFormed s) (kalloc : Bool) (x : Option α) :
    (¬s.Takes kalloc x ∧ s.setObject kalloc x=none) ∨
    s.Takes kalloc x ∧ ∃ s' new,s.setObject kalloc x=some (s',new) ∧ WellFormed s' ∧
      s'.mem=(if s.Obtains kalloc then s.mem∪x.toFinset else s.mem) ∧
      (s.members.array.length<s.members.capacity → s'.members.capacity=s.members.capacity) := by
  rw [setObject]
  by_cases hc : s.containsObject x=true
  · obtain ⟨y,hy,rfl⟩ := containsObject_iff.mp hc
    rw [if_pos hc]
    refine .inr ⟨fun z hz hnot => ?_,s,false,rfl,h,?_,fun _ => rfl⟩
    · cases hz
      exact absurd hy hnot
    · rw [toFinset_some,union_eq_left.mpr (singleton_subset_iff.mpr hy),ite_self]
  rw [if_neg hc]
  cases x with
  | none =>
    refine .inr ⟨fun z hz => (by cases hz),s,false,rfl,h,?_,fun _ => rfl⟩
    rw [toFinset_none,union_empty,ite_self]
  | some x =>
    have hx : x∉s.mem := fun hmem => hc (containsObject_iff.mpr ⟨x,hmem,rfl⟩)
    rcases OSArray.setObject_cases h.array kalloc x with
      ⟨hfull,hnone⟩ | ⟨hroom,a',ok,hsome,hwf,harray,hcap,hok⟩
    · rw [hnone]
      exact .inl ⟨fun ht => hfull (ht x rfl hx),rfl⟩
    · rw [hsome]
      refine .inr ⟨fun _ _ _ => hroom,_,_,rfl,⟨hwf,?_⟩,?_,hcap⟩
      · change a'.array.Nodup
        rw [harray]
        split_ifs
        · rw [List.nodup_append_comm,List.singleton_append,List.nodup_cons]
          exact ⟨fun hmem => hx (List.mem_toFinset.mpr hmem),h.nodup⟩
        · exact h.nodup
      · change a'.array.toFinset=_
        rw [harray,toFinset_some]
        by_cases hobtains : s.Obtains kalloc
        · rw [if_pos (hok.mpr hobtains),if_pos hobtains,List.toFinset_append]
          rfl
        · rw [if_neg fun ht => hobtains (hok.mp ht),if_neg hobtains]
          rfl

def TakesAll (s : OSSet α) (kalloc : ℕ → Bool) : List α → Prop
  | [] => True
  | x::xs => s.Takes (kalloc 0) (some x) ∧ ∀ s' new,s.setObject (kalloc 0) (some x) =
      some (s',new) → s'.TakesAll (fun i => kalloc (i+1)) xs

lemma mergeArray_cases (h : WellFormed s) (kalloc : ℕ → Bool) (xs : List α) :
    (¬s.TakesAll kalloc xs ∧ s.mergeArray kalloc xs=none) ∨
    s.TakesAll kalloc xs ∧ ∃ s' new,s.mergeArray kalloc xs=some (s',new) ∧ WellFormed s' ∧
      s.mem⊆s'.mem ∧ s'.mem⊆s.mem∪xs.toFinset ∧
      ((∀ i,kalloc i=true) → s'.mem=s.mem∪xs.toFinset) := by
  induction xs generalizing s kalloc with
  | nil => exact .inr ⟨trivial,s,false,rfl,h,by simp,by simp,by simp⟩
  | cons x xs ih =>
    rw [mergeArray,TakesAll]
    rcases setObject_cases h (kalloc 0) (some x) with
      ⟨hnot,hnone⟩ | ⟨htakes,s1,new,hsome,hwf,hmem,-⟩
    · rw [hnone]
      exact .inl ⟨fun ht => hnot ht.1,rfl⟩
    rw [hsome,and_iff_right htakes]
    have hnext : (∀ s' new',some (s1,new)=some (s',new') →
        s'.TakesAll (fun i => kalloc (i+1)) xs) ↔ s1.TakesAll (fun i => kalloc (i+1)) xs := by
      refine ⟨fun hall => hall s1 new rfl,fun hone s' new' heq => ?_⟩
      cases heq
      exact hone
    rw [hnext]
    rw [toFinset_some] at hmem
    have hbetween : s.mem⊆s1.mem ∧ s1.mem⊆s.mem∪{x} := by
      rw [hmem]
      split_ifs
      · exact ⟨subset_union_left,Finset.Subset.refl _⟩
      · exact ⟨Finset.Subset.refl _,subset_union_left⟩
    have hunion : s.mem∪(x::xs).toFinset=s.mem∪{x}∪xs.toFinset := by
      rw [List.toFinset_cons,insert_eq,union_assoc]
    rcases ih hwf (fun i => kalloc (i+1)) with
      ⟨hnot,hnone⟩ | ⟨hall,s2,new',hmerge,hwf2,hsub,hsup,hexact⟩
    · dsimp only
      rw [hnone]
      exact .inl ⟨hnot,rfl⟩
    · dsimp only
      rw [hmerge]
      refine .inr ⟨hall,s2,new || new',rfl,hwf2,hbetween.1.trans hsub,?_,fun hk => ?_⟩
      · rw [hunion]
        exact hsup.trans (union_subset_union_left hbetween.2)
      · rw [hexact fun i => hk (i+1),hmem,if_pos (.inr (hk 0)),hunion]

lemma removeObject_spec (h : WellFormed s) (x : Option α) :
    WellFormed (s.removeObject x) ∧ (s.removeObject x).mem=s.mem \ x.toFinset := by
  cases x with
  | none => exact ⟨h,by simp [removeObject]⟩
  | some x =>
    have herase : s.members.array.eraseIdx (s.members.array.idxOf x)=s.members.array.erase x :=
      (List.erase_eq_eraseIdx_of_idxOf rfl).symm
    have harray : (s.removeObject (some x)).members.array=s.members.array.erase x := herase
    refine ⟨⟨⟨?_,h.array.increment,h.array.pos,h.array.le⟩,?_⟩,?_⟩
    · rw [harray]
      exact (List.length_erase_le ..).trans h.array.inside
    · rw [harray]
      exact h.nodup.erase x
    · rw [mem,harray,mem,toFinset_some]
      ext y
      rw [List.mem_toFinset,h.nodup.mem_erase_iff,mem_sdiff,List.mem_toFinset,
        mem_singleton,and_comm]

lemma flushCollection_spec (h : WellFormed s) :
    WellFormed s.flushCollection ∧ s.flushCollection.mem=∅ :=
  ⟨⟨⟨Nat.zero_le _,h.array.increment,h.array.pos,h.array.le⟩,List.nodup_nil⟩,rfl⟩

/-! ### What is promised of a call -/

def SameMembers (isEqual : α → α → Bool) (s aSet : OSSet α) : Prop :=
  ∃ l,l.Perm aSet.members.array ∧
    List.Forall₂ (fun x y => x=y ∨ isEqual y x=true) s.members.array l

def after (s : OSSet α) : Call α → Finset α
  | .setObject anObject _ => s.mem∪anObject.toFinset
  | .mergeArray array _ => s.mem∪array.toFinset
  | .mergeSet set _ => s.mem∪set.mem
  | .removeObject anObject => s.mem \ anObject.toFinset
  | .flushCollection => ∅
  | _ => s.mem

def Call.Allocates : Call α → Prop
  | .setObject _ kalloc => kalloc=true
  | .mergeArray _ kalloc => ∀ i,kalloc i=true
  | .mergeSet _ kalloc => kalloc=true
  | _ => True

def Answers (isEqual : α → α → Bool) (s : OSSet α) : Call α → Bool → Prop
  | .containsObject anObject,answer => answer=true ↔ ∃ x∈s.mem,anObject=some x
  | .isEqualTo aSet,answer => answer=true ↔ SameMembers isEqual s aSet
  | .isEqualToItself,answer => answer=true
  | _,_ => True

/-- A call returns a set without a member twice, with the members that there are to be, or with
some that are not there yet missing where an allocation fails, and answers what is asked. -/
structure Promised (isEqual : α → α → Bool) (s : OSSet α) (call : Call α) (s' : OSSet α)
    (answer : Bool) : Prop where
  step : s.step isEqual call=some (s',answer)
  nodup : s'.members.array.Nodup
  mem : call.Allocates → s'.mem=s.after call
  subset : s'.mem⊆s.mem∪s.after call
  answers : Answers isEqual s call answer

/-- Another set's array that is put in as an object changes nothing but what the other set's members
do. -/
def Absorbs (s : OSSet α) (kalloc : Bool) (set : OSSet α) : Prop :=
  (kalloc=true → s.mem∪{set.membersObject}=s.mem∪set.mem) ∧
    (s.Obtains kalloc → set.membersObject∈s.mem∪set.mem)

/-- The array keeps inside its block; another set is not merged, unless it makes no difference; and
another set that has the same members has them in the same order. -/
def Fits (isEqual : α → α → Bool) (s : OSSet α) : Call α → Prop
  | .setObject anObject kalloc => s.Takes kalloc anObject
  | .mergeArray array kalloc => s.TakesAll kalloc array
  | .mergeSet set kalloc => s.Takes kalloc (some set.membersObject) ∧ s.Absorbs kalloc set
  | .isEqualTo aSet => SameMembers isEqual s aSet →
    List.Forall₂ (fun x y => isEqual y x=true) s.members.array aSet.members.array
  | _ => True

variable {isEqual : α → α → Bool}

omit [DecidableEq α] in
lemma isEqualToLoop_iff {xs ys : List α} (h : xs.length=ys.length) :
    isEqualToLoop isEqual xs ys=true ↔ List.Forall₂ (fun x y => isEqual y x=true) xs ys := by
  induction xs generalizing ys with
  | nil =>
    cases ys with
    | nil => exact iff_of_true rfl .nil
    | cons y ys => cases h
  | cons x xs ih =>
    cases ys with
    | nil => cases h
    | cons y ys =>
      rw [isEqualToLoop,Bool.and_eq_true,List.forall₂_cons,ih (Nat.succ.inj h)]

omit [DecidableEq α] in
lemma isEqualTo_iff_forall₂ {aSet : OSSet α} : isEqualTo isEqual s aSet=true ↔
      List.Forall₂ (fun x y => isEqual y x=true) s.members.array aSet.members.array := by
  rw [isEqualTo]
  split_ifs with h
  · exact iff_of_false (by decide) fun hall => h hall.length_eq
  · exact isEqualToLoop_iff (not_not.mp h)

omit [DecidableEq α] in
lemma sameMembers_of_forall₂ {aSet : OSSet α}
    (h : List.Forall₂ (fun x y => isEqual y x=true) s.members.array aSet.members.array) :
    SameMembers isEqual s aSet := ⟨_,List.Perm.refl _,h.imp fun _ _ => .inr⟩

lemma step_wellFormed (h : WellFormed s) {call : Call α} {s' : OSSet α}
    {answer : Bool} (hstep : s.step isEqual call=some (s',answer)) : WellFormed s' := by
  have hset : ∀ {kalloc : Bool} {x : Option α},s.setObject kalloc x=some (s',answer) →
      WellFormed s' := by
    intro kalloc x hsome
    rcases setObject_cases h kalloc x with ⟨-,hnone⟩ | ⟨-,s1,new,hsome',hwf,-⟩
    · rw [hnone] at hsome
      cases hsome
    · rw [hsome'] at hsome
      cases hsome
      exact hwf
  cases call with
  | setObject x kalloc => exact hset hstep
  | mergeSet set kalloc => exact hset hstep
  | mergeArray xs kalloc =>
    rw [step] at hstep
    rcases mergeArray_cases h kalloc xs with ⟨-,hnone⟩ | ⟨-,s1,new,hsome,hwf,-⟩
    · rw [hnone] at hstep
      cases hstep
    · rw [hsome] at hstep
      cases hstep
      exact hwf
  | removeObject x =>
    cases hstep
    exact (removeObject_spec h x).1
  | flushCollection =>
    cases hstep
    exact (flushCollection_spec h).1
  | containsObject x =>
    cases hstep
    exact h
  | isEqualTo aSet =>
    cases hstep
    exact h
  | isEqualToItself =>
    cases hstep
    exact h

lemma setObject_promised_iff (h : WellFormed s) {call : Call α}
    {kalloc : Bool} {x : Option α} {added : Finset α}
    (hstep : s.step isEqual call=s.setObject kalloc x) (hafter : s.after call=s.mem∪added)
    (hallocates : call.Allocates ↔ kalloc=true)
    (hanswers : ∀ answer,Answers isEqual s call answer) :
    (∃ s' answer,Promised isEqual s call s' answer) ↔ s.Takes kalloc x ∧
      (kalloc=true → s.mem∪x.toFinset=s.mem∪added) ∧
      (s.Obtains kalloc → x.toFinset⊆s.mem∪added) := by
  rcases setObject_cases h kalloc x with ⟨hnot,hnone⟩ | ⟨htakes,s1,new,hsome,hwf,hmem,-⟩
  · refine iff_of_false ?_ fun ht => hnot ht.1
    rintro ⟨s',answer,hp⟩
    have := hp.step
    rw [hstep,hnone] at this
    cases this
  rw [and_iff_right htakes]
  have hsub : s1.mem⊆s.mem∪(s.mem∪added) ↔ (s.Obtains kalloc → x.toFinset⊆s.mem∪added) := by
    rw [hmem,←union_assoc,union_self]
    split_ifs with ho
    · rw [union_subset_iff,and_iff_right subset_union_left]
      exact ⟨fun hs _ => hs,fun hs => hs ho⟩
    · exact iff_of_true subset_union_left fun hf => absurd hf ho
  have hexact : (kalloc=true → s1.mem=s.mem∪added) ↔
      (kalloc=true → s.mem∪x.toFinset=s.mem∪added) := by
    refine imp_congr_right fun hk => ?_
    rw [hmem,if_pos (.inr hk)]
  rw [←hsub,←hexact]
  constructor
  · rintro ⟨s',answer,hp⟩
    have hs := hp.step
    rw [hstep,hsome] at hs
    cases hs
    refine ⟨fun hk => ?_,?_⟩
    · rw [←hafter]
      exact hp.mem (hallocates.mpr hk)
    · rw [←hafter]
      exact hp.subset
  · rintro ⟨hexact',hsub'⟩
    refine ⟨s1,new,⟨hstep.trans hsome,hwf.nodup,fun ha => ?_,?_,hanswers _⟩⟩
    · rw [hafter]
      exact hexact' (hallocates.mp ha)
    · rw [hafter]
      exact hsub'

lemma step_promised_iff (h : WellFormed s) (isEqual : α → α → Bool) (call : Call α) :
    (∃ s' answer,Promised isEqual s call s' answer) ↔ s.Fits isEqual call := by
  cases call with
  | setObject x kalloc =>
    have hanswers : ∀ answer,Answers isEqual s (.setObject x kalloc) answer := fun _ => trivial
    refine (setObject_promised_iff h rfl rfl Iff.rfl hanswers).trans ?_
    exact and_iff_left ⟨fun _ => rfl,fun _ => subset_union_right⟩
  | mergeSet set kalloc =>
    have hanswers : ∀ answer,Answers isEqual s (.mergeSet set kalloc) answer := fun _ => trivial
    refine (setObject_promised_iff h rfl rfl Iff.rfl hanswers).trans ?_
    rw [toFinset_some,singleton_subset_iff]
    exact Iff.rfl
  | mergeArray xs kalloc =>
    rcases mergeArray_cases h kalloc xs with
      ⟨hnot,hnone⟩ | ⟨htakes,s1,new,hsome,hwf,hsub,hsup,hexact⟩
    · refine iff_of_false ?_ hnot
      rintro ⟨s',answer,hp⟩
      have := hp.step
      rw [step,hnone] at this
      cases this
    · refine iff_of_true ⟨s1,new,hsome,hwf.nodup,hexact,?_,trivial⟩ htakes
      exact hsup.trans subset_union_right
  | removeObject x =>
    obtain ⟨hwf,hmem⟩ := removeObject_spec h x
    refine iff_of_true ⟨_,_,rfl,hwf.nodup,fun _ => hmem,?_,trivial⟩ trivial
    rw [hmem]
    exact subset_union_right
  | flushCollection =>
    exact iff_of_true ⟨_,_,rfl,List.nodup_nil,fun _ => rfl,empty_subset _,trivial⟩ trivial
  | containsObject x =>
    refine iff_of_true ⟨s,_,rfl,h.nodup,fun _ => rfl,subset_union_left,?_⟩ trivial
    exact containsObject_iff
  | isEqualTo aSet =>
    rw [Fits,←isEqualTo_iff_forall₂]
    constructor
    · rintro ⟨s',answer,hp⟩
      have hs := hp.step
      cases hs
      exact hp.answers.mpr
    · intro hf
      refine ⟨s,_,rfl,h.nodup,fun _ => rfl,subset_union_left,?_,hf⟩
      exact fun heq => sameMembers_of_forall₂ (isEqualTo_iff_forall₂.mp heq)
  | isEqualToItself =>
    exact iff_of_true ⟨s,true,rfl,h.nodup,fun _ => rfl,subset_union_left,rfl⟩ trivial

/-! ### Runs -/

def RunPromised (isEqual : α → α → Bool) (s : OSSet α) : List (Call α) → Prop
  | [] => True
  | call::calls => ∃ s' answer,Promised isEqual s call s' answer ∧ s'.RunPromised isEqual calls

def RunFits (isEqual : α → α → Bool) (s : OSSet α) : List (Call α) → Prop
  | [] => True
  | call::calls => s.Fits isEqual call ∧
    ∀ s' answer,s.step isEqual call=some (s',answer) → s'.RunFits isEqual calls

lemma runPromised_iff (h : WellFormed s) (isEqual : α → α → Bool) (calls : List (Call α)) :
    s.RunPromised isEqual calls ↔ s.RunFits isEqual calls := by
  induction calls generalizing s with
  | nil => exact Iff.rfl
  | cons call calls ih =>
    rw [RunPromised,RunFits,←step_promised_iff h]
    constructor
    · rintro ⟨s',answer,hp,hrest⟩
      refine ⟨⟨s',answer,hp⟩,fun s'' answer' hstep => ?_⟩
      have hs := hp.step
      rw [hstep] at hs
      cases hs
      exact (ih (step_wellFormed h hstep)).mp hrest
    · rintro ⟨⟨s',answer,hp⟩,hall⟩
      exact ⟨s',answer,hp,(ih (step_wellFormed h hp.step)).mpr (hall s' answer hp.step)⟩

/-! ### Constructions -/

def given (inObjects : List (Option α)) : Finset α := inObjects.reduceOption.toFinset

lemma given_cons (x : Option α) (inObjects : List (Option α)) :
    given (x::inObjects)=x.toFinset∪given inObjects := by
  cases x with
  | none => rw [given,List.reduceOption_cons_of_none,toFinset_none,empty_union,given]
  | some x =>
    rw [given,List.reduceOption_cons_of_some,List.toFinset_cons,toFinset_some,insert_eq,given]

lemma card_mem (h : WellFormed s) : s.mem.card=s.members.array.length :=
  List.toFinset_card_of_nodup h.nodup

lemma fill_cases (h : WellFormed s) (inObjects : List (Option α)) {inCapacity : ℕ}
    (hcap : s.members.capacity=inCapacity)
    (hlen : s.members.array.length+inObjects.length ≤ inCapacity) :
    (¬(s.mem∪given inObjects).card≤OSArray.slots inCapacity ∧ fill inCapacity s inObjects=none) ∨
    (s.mem∪given inObjects).card≤OSArray.slots inCapacity ∧
      ∃ s',fill inCapacity s inObjects=some (some s') ∧ WellFormed s' ∧
        s'.mem=s.mem∪given inObjects := by
  induction inObjects generalizing s with
  | nil =>
    have hnil : s.mem∪given []=s.mem := union_empty _
    rw [hnil,card_mem h,←hcap]
    exact .inr ⟨h.array.inside,s,rfl,h,rfl⟩
  | cons x inObjects ih =>
    rw [List.length_cons] at hlen
    have hroom : s.members.array.length<s.members.capacity := by omega
    rw [fill,if_pos (by omega),given_cons,←union_assoc]
    rcases setObject_cases h true x with ⟨hnot,hnone⟩ | ⟨-,s1,new,hsome,hwf,hmem,hkept⟩
    · rw [hnone]
      refine .inl ⟨fun hle => hnot fun y hy hnew => ?_,rfl⟩
      subst hy
      rw [OSArray.Room,if_pos hroom,hcap,←card_mem h]
      have hsub : insert y s.mem⊆s.mem∪(some y).toFinset∪given inObjects := by
        rw [toFinset_some,insert_eq,union_comm {y}]
        exact subset_union_left
      have hcard := card_le_card hsub
      rw [card_insert_of_notMem hnew] at hcard
      omega
    · rw [if_pos (.inl hroom)] at hmem
      rw [hsome,←hmem]
      have hgrown : s1.members.array.length ≤ s.members.array.length+1 := by
        rw [←card_mem hwf,←card_mem h,hmem]
        refine (card_union_le _ _).trans (Nat.add_le_add_left ?_ _)
        cases x <;> simp
      exact ih hwf ((hkept hroom).trans hcap) (by omega)

def Construction.objects : Construction α → List (Option α)
  | .withCapacity _ => []
  | .withObjects objects _ => objects
  | .withArray array _ => array.map some
  | .withSet set _ => set.members.array.map some

def Construction.capacity : Construction α → ℕ
  | .withCapacity capacity | .withObjects _ capacity | .withArray _ capacity
  | .withSet _ capacity => capacity

/-- A set that is made has the objects as its members, none of them twice; and it is made if it can
be allocated and a capacity that is given is not less than the number of objects. -/
structure Constructed (membersObject : α) (kalloc : Bool) (c : Construction α) : Prop where
  returns : construct membersObject kalloc c≠none
  members : ∀ s,construct membersObject kalloc c=some (some s) →
    s.members.array.Nodup ∧ s.mem=given c.objects
  made : kalloc=true → c.capacity=0 ∨ c.objects.length≤c.capacity →
    construct membersObject kalloc c≠some none

/-- There are no objects if there is no capacity, and no more than the block has pointers for. -/
def Construction.Fits (kalloc : Bool) (c : Construction α) : Prop :=
  kalloc=true → (c.capacity=0 → c.objects=[]) ∧
    (c.objects.length≤c.capacity → (given c.objects).card≤OSArray.slots c.capacity)

omit [DecidableEq α] in
lemma initWithCapacity_wellFormed (membersObject : α) {capacity : ℕ} {members : OSArray α}
    (h : OSArray.initWithCapacity true capacity=some members) :
    WellFormed ⟨members,membersObject⟩ ∧ members.capacity=capacity ∧ members.array=[] := by
  cases h
  refine ⟨⟨⟨Nat.zero_le _,?_,?_,?_⟩,List.nodup_nil⟩,rfl,rfl⟩
  all_goals
    dsimp only
    split_ifs with h0
  · rw [h0]
    exact Nat.dvd_zero _
  · exact Nat.dvd_refl _
  · decide
  · exact Nat.pos_of_ne_zero h0
  · exact .inr ⟨h0,rfl⟩
  · exact .inl (Nat.le_refl _)

lemma construct_eq (membersObject : α) (kalloc : Bool) (c : Construction α) :
    construct membersObject kalloc c=initWithObjects membersObject kalloc c.objects c.capacity := by
  cases c with
  | withCapacity capacity =>
    rw [construct,initWithObjects,if_neg fun h => absurd h.2 (Nat.not_lt_zero _)]
    have hsame : (if (Construction.withCapacity capacity : Construction α).capacity≠0 then
        (Construction.withCapacity capacity : Construction α).capacity else
        (Construction.withCapacity capacity : Construction α).objects.length)=capacity := by
      change (if capacity≠0 then capacity else 0)=capacity
      split_ifs <;> omega
    rw [hsame]
    cases (OSArray.initWithCapacity kalloc capacity : Option (OSArray α)) <;> rfl
  | withObjects objects capacity => rfl
  | withArray array capacity => rfl
  | withSet set capacity => rfl

lemma construct_cases (membersObject : α) (kalloc : Bool) (c : Construction α) :
    (c.Fits kalloc ∧ ∃ s,construct membersObject kalloc c=some (some s) ∧ WellFormed s ∧
      s.mem=given c.objects) ∨ ¬c.Fits kalloc ∧ (construct membersObject kalloc c=none ∨
      construct membersObject kalloc c=some none ∧ kalloc=true ∧ c.capacity=0) ∨
    c.Fits kalloc ∧ construct membersObject kalloc c=some none ∧
      (kalloc=true → c.capacity≠0 ∧ c.capacity<c.objects.length) := by
  rw [construct_eq,Construction.Fits]
  generalize c.objects=objects
  generalize c.capacity=capacity
  rw [initWithObjects]
  by_cases hfew : capacity≠0 ∧ capacity<objects.length
  · rw [if_pos hfew]
    exact .inr (.inr ⟨fun _ => ⟨fun h0 => absurd h0 hfew.1,fun hle => by omega⟩,rfl,fun _ => hfew⟩)
  rw [if_neg hfew]
  cases kalloc with
  | false => exact .inr (.inr ⟨fun hf => (by cases hf),rfl,fun hf => (by cases hf)⟩)
  | true =>
    obtain ⟨members,hmembers⟩ : ∃ members : OSArray α,OSArray.initWithCapacity true
      (if capacity≠0 then capacity else objects.length)=some members := ⟨_,rfl⟩
    obtain ⟨hwf,hcap,hempty⟩ := initWithCapacity_wellFormed membersObject hmembers
    rw [hmembers]
    simp only [true_implies]
    by_cases h0 : capacity=0
    · cases objects with
      | nil =>
        refine .inl ⟨⟨fun _ => rfl,fun _ => Nat.zero_le _⟩,_,rfl,hwf,?_⟩
        change members.array.toFinset=_
        rw [hempty]
        rfl
      | cons x objects =>
        refine .inr (.inl ⟨fun hf => (by cases hf.1 h0),.inr ⟨?_,trivial,h0⟩⟩)
        rw [fill,if_neg (by omega)]
    · rw [if_pos h0] at hcap
      have hmem : (⟨members,membersObject⟩ : OSSet α).mem=∅ := by
        change members.array.toFinset=_
        rw [hempty]
        rfl
      have hlen : objects.length≤capacity := by omega
      have hcases := fill_cases hwf objects hcap (by rw [hempty]; simpa using hlen)
      rw [hmem,empty_union] at hcases
      rcases hcases with ⟨hmany,hnone⟩ | ⟨hfit,s',hsome,hwf',hmem'⟩
      · exact .inr (.inl ⟨fun hf => hmany (hf.2 hlen),.inl hnone⟩)
      · exact .inl ⟨⟨fun hz => absurd hz h0,fun _ => hfit⟩,s',hsome,hwf',hmem'⟩

lemma constructed_iff (membersObject : α) (kalloc : Bool) (c : Construction α) :
    Constructed membersObject kalloc c ↔ c.Fits kalloc := by
  rcases construct_cases membersObject kalloc c with
    ⟨hfits,s,hs,hwf,hmem⟩ | ⟨hnot,hnone | ⟨hnull,hk,h0⟩⟩ | ⟨hfits,hnull,hfew⟩
  · refine iff_of_true ⟨by simp [hs],fun s' hs' => ?_,fun _ _ => by simp [hs]⟩ hfits
    rw [hs] at hs'
    cases hs'
    exact ⟨hwf.nodup,hmem⟩
  · exact iff_of_false (fun hc => hc.returns hnone) hnot
  · exact iff_of_false (fun hc => hc.made hk (.inl h0) hnull) hnot
  · refine iff_of_true ⟨by simp [hnull],fun s' hs' => by simp [hnull] at hs',fun hk hle => ?_⟩ hfits
    have := hfew hk
    omega

/-- A set that is constructed in any way, and any run on it: all is as promised exactly if no
objects are given without a capacity, no other set is merged where that makes a difference, no set
is compared to one with the same members in another order, and the arrays keep inside their
blocks. -/
theorem constructed_and_run_iff (membersObject : α) (kalloc : Bool) (c : Construction α)
    (isEqual : α → α → Bool) (calls : List (Call α)) : (Constructed membersObject kalloc c ∧
      ∀ s,construct membersObject kalloc c=some (some s) → s.RunPromised isEqual calls) ↔
    c.Fits kalloc ∧
      ∀ s,construct membersObject kalloc c=some (some s) → s.RunFits isEqual calls := by
  rw [constructed_iff]
  refine and_congr_right fun _ => forall₂_congr fun s hs => runPromised_iff ?_ isEqual calls
  rcases construct_cases membersObject kalloc c with
    ⟨-,s',hs',hwf,-⟩ | ⟨-,hnone | ⟨hnull,-⟩⟩ | ⟨-,hnull,-⟩
  · rw [hs] at hs'
    cases hs'
    exact hwf
  · simp [hnone] at hs
  · simp [hnull] at hs
  · simp [hnull] at hs

def ofOne (x membersObject : α) : OSSet α := ⟨⟨[x],4,4⟩,membersObject⟩

/-- No set is made of one object without a capacity; merging the set of 2, whose array is object 9,
into that of 1 puts in 9; and the sets of 1 and 2 are not equal if they are filled in a different
order. -/
theorem set_of_one_object : ¬Constructed 0 true (.withObjects [some 1] 0) ∧
      ((ofOne 1 8).mergeSet true (ofOne 2 9)).map (fun r => r.1.members.array)=some [1,9] ∧
      isEqualTo (fun x y => decide (x=y)) ⟨⟨[1,2],4,4⟩,8⟩ ⟨⟨[2,1],4,4⟩,9⟩=false := by
  refine ⟨fun h => ?_,by decide,by decide⟩
  exact h.made rfl (.inl rfl) rfl

end OSSet
end Darwin.Libkern
