import Mathlib.Tactic

/-! Lists in strictly ascending key order, for keys compared by a transitive
comparison function under which different keys may be equal. -/
open List
namespace Darwin.Lib.KeyOrder

section
variable {α β : Type*} (cmp : α → α → Ordering) (key : β → α)

def Ascending (l : List β) : Prop := l.Pairwise fun a b => cmp (key a) (key b)=.lt

def rank (k : α) (l : List β) : ℕ := (l.takeWhile fun r => cmp (key r) k == .lt).length

def present (k : α) (l : List β) : Bool := l.any fun r => cmp k (key r) == .eq

def above (k : α) (l : List β) : Option β := l.find? fun r => cmp k (key r) == .lt

def below (k : α) (l : List β) : Option β := l.reverse.find? fun r => cmp (key r) k == .lt

def find (k : α) (l : List β) : Option β := l.find? fun r => cmp k (key r) == .eq

/-- The records below, at and above a key. -/
structure Cut (k : α) (l a : List β) (o : Option β) (c : List β) : Prop where
  eq : l=a++(o.toList++c)
  lt : ∀ r∈a,cmp (key r) k=.lt
  at_key : ∀ r∈o,cmp k (key r)=.eq
  gt : ∀ r∈c,cmp k (key r)=.lt

variable {cmp key} {k : α} {l m a c : List β} {o : Option β}

lemma Ascending.of_append_right (h : Ascending cmp key (l++m)) : Ascending cmp key m :=
  (pairwise_append.mp h).2.1

variable [Std.TransCmp cmp]

lemma cmp_ne_of_lt {x y : α} (h : cmp x y=.lt) : cmp y x≠.lt ∧ cmp y x≠.eq := by
  rw [Std.OrientedCmp.gt_of_lt h]
  decide

lemma Ascending.cut (h : Ascending cmp key l) (k : α) : ∃ a o c,Cut cmp key k l a o c := by
  induction l with
  | nil => exact ⟨[],none,[],⟨rfl,by simp,by simp,by simp⟩⟩
  | cons r l ih =>
    obtain ⟨hr,hl⟩ := pairwise_cons.mp h
    cases hk : cmp (key r) k with
    | lt =>
      obtain ⟨a,o,c,heq,ha,ho,hc⟩ := ih hl
      exact ⟨r::a,o,c,by simp [heq],forall_mem_cons.mpr ⟨hk,ha⟩,ho,hc⟩
    | eq =>
      refine ⟨[],some r,l,rfl,by simp,?_,?_⟩
      · rintro s ⟨⟩
        exact Std.OrientedCmp.eq_symm hk
      · exact fun s hs => Std.TransCmp.lt_of_eq_of_lt (Std.OrientedCmp.eq_symm hk) (hr s hs)
    | gt =>
      have hlt := Std.OrientedCmp.lt_of_gt hk
      exact ⟨[],none,r::l,rfl,by simp,by simp,forall_mem_cons.mpr
        ⟨hlt,fun s hs => Std.TransCmp.lt_trans hlt (hr s hs)⟩⟩

namespace Cut
variable (h : Cut cmp key k l a o c)
include h

lemma ge {r : β} (hr : r∈o.toList++c) : cmp (key r) k≠.lt := by
  rcases mem_append.mp hr with hr | hr
  · rw [Std.OrientedCmp.eq_symm (h.at_key r (by simpa using hr))]
    decide
  · exact (cmp_ne_of_lt (h.gt r hr)).1

lemma rank_eq : rank cmp key k l=a.length := by
  have hb : (o.toList++c).takeWhile (fun r => cmp (key r) k == .lt)=[] := by
    cases hl : o.toList++c with
    | nil => rfl
    | cons r t =>
      have hr := h.ge (r := r) (by simp [hl])
      simp [hr]
  rw [rank,h.eq,takeWhile_append_of_pos (by simpa using h.lt),hb,append_nil]

lemma present_eq : present cmp key k l=o.isSome := by
  have ha : a.any (fun r => cmp k (key r) == .eq)=false := by
    simp only [any_eq_false,beq_iff_eq]
    exact fun r hr => (cmp_ne_of_lt (h.lt r hr)).2
  have hc : c.any (fun r => cmp k (key r) == .eq)=false := by
    simp only [any_eq_false,beq_iff_eq]
    intro r hr
    rw [h.gt r hr]
    decide
  rw [present,h.eq,any_append,any_append,ha,hc]
  cases o with
  | none => rfl
  | some r => simp [h.at_key r rfl]

lemma find_eq : find cmp key k l=o := by
  have ha : a.find? (fun r => cmp k (key r) == .eq)=none := by
    simp only [find?_eq_none,beq_iff_eq]
    exact fun r hr => (cmp_ne_of_lt (h.lt r hr)).2
  have hc : c.find? (fun r => cmp k (key r) == .eq)=none := by
    simp only [find?_eq_none,beq_iff_eq]
    intro r hr
    rw [h.gt r hr]
    decide
  rw [find,h.eq,find?_append,find?_append,ha,hc]
  cases o with
  | none => rfl
  | some r => simp [h.at_key r rfl]

lemma above_eq : above cmp key k l=c.head? := by
  have ha : a.find? (fun r => cmp k (key r) == .lt)=none := by
    simp only [find?_eq_none,beq_iff_eq]
    exact fun r hr => (cmp_ne_of_lt (h.lt r hr)).1
  have ho : o.toList.find? (fun r => cmp k (key r) == .lt)=none := by
    simp only [find?_eq_none,beq_iff_eq]
    intro r hr
    rw [h.at_key r (by simpa using hr)]
    decide
  rw [above,h.eq,find?_append,find?_append,ha,ho]
  cases c with
  | nil => rfl
  | cons r c => simp [h.gt r (by simp)]

lemma below_eq : below cmp key k l=a.getLast? := by
  have hb : (o.toList++c).reverse.find? (fun r => cmp (key r) k == .lt)=none := by
    simp only [find?_eq_none,beq_iff_eq,mem_reverse]
    exact fun r hr => h.ge hr
  rw [below,h.eq,reverse_append,find?_append,hb,←head?_reverse]
  cases hr : a.reverse with
  | nil => rfl
  | cons r t => simp [h.lt r (by rw [←mem_reverse,hr]; simp)]

omit [Std.TransCmp cmp] in
lemma getElem?_rank : l[a.length]?=o.or c.head? := by
  rw [h.eq,getElem?_append_right (le_refl _),Nat.sub_self]
  cases o with
  | none => simp [head?_eq_getElem?]
  | some r => rfl

omit [Std.TransCmp cmp] in
lemma getElem?_succ_rank : l[a.length+o.toList.length]?=c.head? := by
  rw [h.eq,←append_assoc,getElem?_append_right (by simp)]
  simp [head?_eq_getElem?]

lemma cmp_of_lt_rank {i : ℕ} {r : β} (hr : l[i]?=some r) (hi : i<a.length) : cmp k (key r)=.gt := by
  rw [h.eq,getElem?_append_left hi] at hr
  exact Std.OrientedCmp.gt_of_lt (h.lt r (mem_of_getElem? hr))

omit [Std.TransCmp cmp] in
lemma cmp_at_rank {r : β} (hr : l[a.length]?=some r) :
    cmp k (key r)=if o.isSome then .eq else .lt := by
  rw [h.getElem?_rank] at hr
  cases o with
  | none => exact h.gt r (mem_of_mem_head? hr)
  | some s =>
    simp only [Option.some_or,Option.some.injEq] at hr
    exact hr▸h.at_key s rfl

omit [Std.TransCmp cmp] in
lemma cmp_of_rank_lt {i : ℕ} {r : β} (hr : l[i]?=some r) (hi : a.length < i) :
    cmp k (key r)=.lt := by
  rw [h.eq,getElem?_append_right (by omega)] at hr
  apply h.gt r
  cases o with
  | none => exact mem_of_getElem? hr
  | some s =>
    obtain ⟨j,hj⟩ : ∃ j,i-a.length=j+1 := ⟨i-a.length-1,by omega⟩
    rw [hj] at hr
    exact mem_of_getElem? hr

omit [Std.TransCmp cmp] in
lemma extend {x y : List β} (hx : ∀ r∈x,cmp (key r) k=.lt)
    (hy : ∀ r∈y,cmp k (key r)=.lt) : Cut cmp key k (x++(l++y)) (x++a) o (c++y) := by
  refine ⟨by simp [h.eq],?_,h.at_key,?_⟩
  · intro r hr
    exact (mem_append.mp hr).elim (hx r) (h.lt r)
  · intro r hr
    exact (mem_append.mp hr).elim (h.gt r) (hy r)

end Cut

end

end Darwin.Lib.KeyOrder
