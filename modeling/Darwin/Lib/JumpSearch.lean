import Mathlib.Tactic.SplitIfs
import Mathlib.Tactic.ByContra
import Mathlib.Data.Nat.Notation

/-! A search that jumps by halves and then walks, as C programs write it. It needs no more of the
jumps than that they stay inside; the walk finds the place. -/
open List Option Nat
namespace Darwin.Lib

/-- Where an element is, or where it goes. -/
inductive Place
  | found (i : ℕ)
  | insert (i : ℕ)
  deriving DecidableEq

namespace JumpSearch

section Search

variable (c : ℕ → Ordering) (n : ℕ)

def walkDown : ℕ → Place
  | 0 => .insert 0
  | v+1 =>
    match c v with
    | .eq => .found v
    | .lt => .insert (v+1)
    | .gt => walkDown v

/-- The walk to the right of an element that is less, over the elements left there. -/
def walkUp : ℕ → ℕ → Place
  | v,0 => .insert (v+1)
  | v,left+1 =>
    match c (v+1) with
    | .eq => .found (v+1)
    | .gt => .insert (v+1)
    | .lt => walkUp (v+1) left

def walk (v : ℕ) : Place :=
  match c v with
  | .eq => .found v
  | .gt => walkDown c v
  | .lt => walkUp c v (n-(v+1))

def jumpFrom : ℕ → ℕ → ℕ → Place
  | 0,v,_ => walk c n v
  | fuel+1,v,jump =>
    if jump=0 then walk c n v
    else
      match c v with
      | .eq => .found v
      | .gt => jumpFrom fuel (v-jump) (jump/2)
      | .lt => jumpFrom fuel (v+jump) (jump/2)

def locate : Place := if n=0 then .insert 0 else jumpFrom c n n (n/2) (n/2/2)

end Search

section Correct

variable {c : ℕ → Ordering} {n : ℕ}

def Ascends (c : ℕ → Ordering) (n : ℕ) : Prop := ∀ i j,i<j → j<n → c i≠.lt → c j=.gt

def Right (c : ℕ → Ordering) (n : ℕ) : Place → Prop
  | .found i => i<n ∧ c i=.eq
  | .insert i => i≤n ∧ (∀ j < i,c j=.lt) ∧ ∀ j,i≤j → j<n → c j=.gt

lemma Ascends.below (h : Ascends c n) {i j : ℕ} (hij : i<j) (hj : j<n) (hc : c j≠.gt) :
    c i=.lt := by
  by_contra hlt
  exact hc (h i j hij hj hlt)

lemma walkDown_right (h : Ascends c n) (v : ℕ) (hv : v≤n)
    (habove : ∀ j,v≤j → j<n → c j=.gt) : Right c n (walkDown c v) := by
  induction v with
  | zero => exact ⟨hv,fun j hj => absurd hj (not_lt_zero j),habove⟩
  | succ v ih =>
    rw [walkDown]
    cases hc : c v with
    | eq => exact ⟨hv,hc⟩
    | lt =>
      refine ⟨hv,fun j hj => ?_,habove⟩
      rcases Nat.lt_succ_iff_lt_or_eq.mp hj with hj | rfl
      · exact h.below hj hv (by rw [hc]; decide)
      · exact hc
    | gt =>
      refine ih (Nat.le_of_lt hv) fun j hvj hj => ?_
      rcases Nat.lt_or_eq_of_le hvj with hlt | rfl
      · exact habove j hlt hj
      · exact hc

lemma walkUp_right (h : Ascends c n) (v left : ℕ) (hleft : v+1+left=n)
    (hbelow : ∀ j,j<v+1 → c j=.lt) : Right c n (walkUp c v left) := by
  induction left generalizing v with
  | zero => exact ⟨Nat.le_of_eq hleft,hbelow,fun j hj hn => by omega⟩
  | succ left ih =>
    rw [walkUp]
    cases hc : c (v+1) with
    | eq => exact ⟨by omega,hc⟩
    | gt =>
      refine ⟨by omega,hbelow,fun j hj hn => ?_⟩
      rcases Nat.lt_or_eq_of_le hj with hlt | rfl
      · exact h (v+1) j hlt hn (by rw [hc]; decide)
      · exact hc
    | lt =>
      refine ih (v+1) (by omega) fun j hj => ?_
      rcases Nat.lt_succ_iff_lt_or_eq.mp hj with hlt | rfl
      · exact hbelow j hlt
      · exact hc

lemma walk_right (h : Ascends c n) {v : ℕ} (hv : v<n) : Right c n (walk c n v) := by
  rw [walk]
  cases hc : c v with
  | eq => exact ⟨hv,hc⟩
  | gt =>
    refine walkDown_right h v (Nat.le_of_lt hv) fun j hvj hj => ?_
    rcases Nat.lt_or_eq_of_le hvj with hlt | rfl
    · exact h v j hlt hj (by rw [hc]; decide)
    · exact hc
  | lt =>
    refine walkUp_right h v (n-(v+1)) (by omega) fun j hj => ?_
    rcases Nat.lt_succ_iff_lt_or_eq.mp hj with hlt | rfl
    · exact h.below hlt hv (by rw [hc]; decide)
    · exact hc

lemma jumpFrom_right (h : Ascends c n) (fuel : ℕ) {v jump : ℕ} (hv : v<n)
    (hright : v+2*jump≤n) (hleft : 2*jump≤v) : Right c n (jumpFrom c n fuel v jump) := by
  induction fuel generalizing v jump with
  | zero => exact walk_right h hv
  | succ fuel ih =>
    rw [jumpFrom]
    split_ifs with hjump
    · exact walk_right h hv
    · cases hc : c v with
      | eq => exact ⟨hv,hc⟩
      | gt => exact ih (by omega) (by omega) (by omega)
      | lt => exact ih (by omega) (by omega) (by omega)

lemma locate_right (h : Ascends c n) : Right c n (locate c n) := by
  rw [locate]
  split_ifs with hn
  · subst hn
    exact ⟨Nat.le_refl 0,fun j hj => absurd hj (Nat.not_lt_zero j),
      fun j _ hj => absurd hj (Nat.not_lt_zero j)⟩
  · exact jumpFrom_right h n (by omega) (by omega) (by omega)

end Correct

section Reads

variable (r : ℕ → Option Ordering) (n : ℕ)

/-- The walk to the left, which ends with nothing when it looks at an element that is not there. -/
def walkDownRead : ℕ → Option Place
  | 0 => some (.insert 0)
  | v+1 =>
    match r v with
    | none => none
    | some .eq => some (.found v)
    | some .lt => some (.insert (v+1))
    | some .gt => walkDownRead v

def walkUpRead (v : ℕ) : Option Place :=
  if v+1<n then
    match r (v+1) with
    | none => none
    | some .eq => some (.found (v+1))
    | some .gt => some (.insert (v+1))
    | some .lt => walkUpRead (v+1)
  else some (.insert (v+1))
  termination_by n-v

def walkRead (v : ℕ) : Option Place :=
  match r v with
  | none => none
  | some .eq => some (.found v)
  | some .gt => walkDownRead r v
  | some .lt => walkUpRead r n v

def jumpRead (v jump : ℕ) : Option Place :=
  if 0<jump then
    match r v with
    | none => none
    | some .eq => some (.found v)
    | some .gt => jumpRead (v-jump) (jump/2)
    | some .lt => jumpRead (v+jump) (jump/2)
  else walkRead r n v
  termination_by jump

def locateRead : Option Place :=
  if n=0 then some (.insert 0) else jumpRead r n (n/2) (n/2/2)

variable {r n} {c : ℕ → Ordering}

lemma walkDownRead_eq {v : ℕ} (h : ∀ i<v,r i=some (c i)) :
    walkDownRead r v=some (walkDown c v) := by
  induction v with
  | zero => rfl
  | succ v ih =>
    rw [walkDownRead,walkDown,h v (lt_succ_self v)]
    cases c v with
    | eq => rfl
    | lt => rfl
    | gt => exact ih fun i hi => h i (lt_succ_of_lt hi)

lemma walkUpRead_eq (h : ∀ i<n,r i=some (c i)) {v left : ℕ} (hleft : v+1+left=n) :
    walkUpRead r n v=some (walkUp c v left) := by
  induction left generalizing v with
  | zero =>
    rw [walkUpRead,if_neg (by omega)]
    rfl
  | succ left ih =>
    rw [walkUpRead,if_pos (by omega),walkUp,h (v+1) (by omega)]
    cases c (v+1) with
    | eq => rfl
    | gt => rfl
    | lt => exact ih (by omega)

lemma walkRead_eq (h : ∀ i<n,r i=some (c i)) {v : ℕ} (hv : v<n) :
    walkRead r n v=some (walk c n v) := by
  rw [walkRead,walk,h v hv]
  cases c v with
  | eq => rfl
  | gt => exact walkDownRead_eq fun i hi => h i (Nat.lt_trans hi hv)
  | lt => exact walkUpRead_eq h (by omega)

lemma jumpRead_eq (h : ∀ i<n,r i=some (c i)) {fuel v jump : ℕ} (hfuel : jump≤fuel)
    (hv : v<n) (hright : v+2*jump≤n) (hleft : 2*jump≤v) :
    jumpRead r n v jump=some (jumpFrom c n fuel v jump) := by
  induction fuel generalizing v jump with
  | zero =>
    rw [jumpRead,if_neg (by omega)]
    exact walkRead_eq h hv
  | succ fuel ih =>
    rw [jumpRead,jumpFrom]
    by_cases hjump : jump=0
    · rw [if_neg (by omega),if_pos hjump]
      exact walkRead_eq h hv
    · rw [if_pos (by omega),if_neg hjump,h v hv]
      cases c v with
      | eq => rfl
      | gt => exact ih (by omega) (by omega) (by omega) (by omega)
      | lt => exact ih (by omega) (by omega) (by omega) (by omega)

lemma locateRead_eq (h : ∀ i<n,r i=some (c i)) : locateRead r n=some (locate c n) := by
  rw [locateRead,locate]
  split_ifs with hn
  · rfl
  · exact jumpRead_eq h (by omega) (by omega) (by omega) (by omega)

end Reads

section Lists

variable {β : Type} {f : β → Ordering} {l : List β}

def locateIn (f : β → Ordering) (l : List β) : Place :=
  locate (fun i => (l[i]?).elim .gt f) l.length

lemma locateRead_list (f : β → Ordering) (l : List β) :
    locateRead (fun i => (l[i]?).map f) l.length=some (locateIn f l) := by
  refine locateRead_eq fun i hi => ?_
  rw [getElem?_eq_getElem hi]
  rfl

/-- The list around the place that is found. -/
inductive Split (f : β → Ordering) (l : List β) : Place → Prop
  | found (l₁ : List β) (x : β) (l₂ : List β) (hl : l=l₁++x::l₂) (hx : f x=.eq)
    (h₁ : ∀ y∈l₁,f y=.lt) (h₂ : ∀ y∈l₂,f y=.gt) : Split f l (.found l₁.length)
  | insert (l₁ l₂ : List β) (hl : l=l₁++l₂)
    (h₁ : ∀ y∈l₁,f y=.lt) (h₂ : ∀ y∈l₂,f y=.gt) : Split f l (.insert l₁.length)

lemma locateIn_split (h : l.Pairwise fun x y => f x≠.lt → f y=.gt) :
    Split f l (locateIn f l) := by
  have hascends : Ascends (fun i => (l[i]?).elim .gt f) l.length := by
    intro i j hij hj hne
    have hi := Nat.lt_trans hij hj
    dsimp only at hne ⊢
    rw [getElem?_eq_getElem hj,elim_some]
    rw [getElem?_eq_getElem hi,elim_some] at hne
    exact pairwise_iff_getElem.mp h i j hi hj hij hne
  have hright := locate_right hascends
  rw [locateIn]
  cases hplace : locate (fun i => (l[i]?).elim .gt f) l.length with
  | found i =>
    rw [hplace] at hright
    obtain ⟨hi,hx⟩ := hright
    dsimp only at hx
    rw [getElem?_eq_getElem hi,elim_some] at hx
    have hl : l=l.take i++l[i]::l.drop (i+1) := by rw [←drop_eq_getElem_cons hi,take_append_drop]
    have hlength : (l.take i).length=i := length_take_of_le (Nat.le_of_lt hi)
    have hpairs := hl▸h
    obtain ⟨-,hafter,hbefore⟩ := pairwise_append.mp hpairs
    have hsplit := Split.found (l.take i) l[i] (l.drop (i+1)) hl hx
      (fun y hy => by
        by_contra hlt
        have hgt := hbefore y hy l[i] mem_cons_self hlt
        rw [hx] at hgt
        cases hgt)
      (fun y hy => (pairwise_cons.mp hafter).1 y hy (by rw [hx]; decide))
    rwa [hlength] at hsplit
  | insert i =>
    rw [hplace] at hright
    obtain ⟨hi,hbefore,hafter⟩ := hright
    have hlength : (l.take i).length=i := length_take_of_le hi
    have hsplit : Split f l (.insert (l.take i).length) := .insert (l.take i) (l.drop i)
      (take_append_drop i l).symm (fun y hy => by
        obtain ⟨j,hj,rfl⟩ := mem_take_iff_getElem.mp hy
        have hlt := hbefore j (by omega)
        dsimp only at hlt
        rwa [getElem?_eq_getElem (by omega),elim_some] at hlt)
      (fun y hy => by
        obtain ⟨j,hj,rfl⟩ := mem_drop_iff_getElem.mp hy
        have hgt := hafter (i+j) (by omega) (by omega)
        dsimp only at hgt
        rwa [getElem?_eq_getElem (by omega),elim_some] at hgt)
    rwa [hlength] at hsplit

lemma insertIdx_split (l₁ l₂ : List β) (x : β) : (l₁++l₂).insertIdx l₁.length x=l₁++x::l₂ := by
  induction l₁ with
  | nil => rfl
  | cons y l₁ ih => exact congrArg (y::·) ih

lemma modify_split (l₁ l₂ : List β) (x : β) (g : β → β) :
    (l₁++x::l₂).modify l₁.length g=l₁++g x::l₂ := by
  induction l₁ with
  | nil => rfl
  | cons y l₁ ih => exact congrArg (y::·) ih

end Lists

end JumpSearch

end Darwin.Lib
