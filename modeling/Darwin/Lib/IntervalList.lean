import Mathlib.Tactic

/-! Ordered lists of closed intervals of natural numbers and the sets they cover.
A separated list keeps a gap between neighbours, so it is sorted, pairwise
disjoint and coalesced at once. -/
open List
namespace Darwin.Lib.IntervalList

section
variable {α : Type*} (lo hi : α → ℕ)

def cover (l : List α) : Set ℕ := {x | ∃ e∈l,lo e≤x ∧ x≤hi e}

def Separated (l : List α) : Prop :=
  (∀ e∈l,lo e≤hi e) ∧ l.Pairwise (fun a b => hi a+1<lo b)

variable {lo hi}

variable {l : List α} {e : α}

lemma mem_cover {x : ℕ} : x∈cover lo hi l ↔ ∃ e∈l,lo e≤x ∧ x≤hi e := Iff.rfl

@[simp] lemma cover_nil : cover lo hi []=∅ := by ext x; simp [mem_cover]

@[simp] lemma cover_cons (e : α) (l : List α) :
    cover lo hi (e::l)=Set.Icc (lo e) (hi e)∪cover lo hi l := by
  ext x; simp [mem_cover]

@[simp] lemma cover_append (l r : List α) : cover lo hi (l++r)=cover lo hi l∪cover lo hi r := by
  induction l with
  | nil => simp
  | cons e l ih => simp [ih,Set.union_assoc]

@[simp] lemma separated_nil : Separated lo hi [] := by simp [Separated]

lemma separated_singleton : Separated lo hi [e] ↔ lo e≤hi e := by simp [Separated]

lemma separated_cons : Separated lo hi (e::l) ↔
      lo e≤hi e ∧ (∀ b∈l,hi e+1<lo b) ∧ Separated lo hi l := by
  simp only [Separated,mem_cons,forall_eq_or_imp,pairwise_cons]
  tauto

lemma separated_append {l r : List α} : Separated lo hi (l++r) ↔
      Separated lo hi l ∧ Separated lo hi r ∧ ∀ a∈l,∀ b∈r,hi a+1<lo b := by
  simp only [Separated,mem_append,pairwise_append,or_imp,forall_and]
  tauto

lemma Separated.replace {l r ms : List α} (h : Separated lo hi (l++e::r))
    (hms : Separated lo hi ms) (hin : ∀ m∈ms,lo e≤lo m ∧ hi m≤hi e) :
    Separated lo hi (l++(ms++r)) := by
  obtain ⟨hl,her,hle⟩ := separated_append.mp h
  obtain ⟨_,hr,hsr⟩ := separated_cons.mp her
  refine separated_append.mpr ⟨hl,separated_append.mpr ⟨hms,hsr,?_⟩,?_⟩
  · intro m hm b hb
    have := hr b hb
    have := (hin m hm).2
    omega
  · intro a ha b hb
    rcases mem_append.mp hb with hb | hb
    · have := hle a ha e (by simp)
      have := (hin b hb).1
      omega
    · exact hle a ha b (by simp [hb])

lemma Separated.notMem_others {l r : List α} (h : Separated lo hi (l++e::r))
    {x : ℕ} (hx : x∈Set.Icc (lo e) (hi e)) : x∉cover lo hi (l++r) := by
  obtain ⟨_,her,hle⟩ := separated_append.mp h
  obtain ⟨_,hr,_⟩ := separated_cons.mp her
  rintro ⟨f,hf,h1,h2⟩
  obtain ⟨hx1,hx2⟩ := hx
  rcases mem_append.mp hf with hf | hf
  · have := hle f hf e (by simp); omega
  · have := hr f hf; omega

lemma cover_replace {l r ms : List α} {D : Set ℕ}
    (h : Separated lo hi (l++e::r)) (hD : D⊆Set.Icc (lo e) (hi e))
    (hms : cover lo hi ms=Set.Icc (lo e) (hi e) \ D) :
    cover lo hi (l++(ms++r))=cover lo hi (l++e::r) \ D := by
  ext x
  have hx : x∈D → x∉cover lo hi (l++r) := fun hd => h.notMem_others (hD hd)
  simp only [cover_append,cover_cons,hms,Set.mem_union,Set.mem_sdiff] at hx ⊢
  tauto

lemma Separated.lt_lo {x : ℕ} (h : Separated lo hi (e::l))
    (hx : x<lo e) : ∀ b∈e::l,x<lo b := by
  obtain ⟨hee,hr,_⟩ := separated_cons.mp h
  intro b hb
  rcases mem_cons.mp hb with rfl | hb
  · exact hx
  · have := hr b hb; omega

lemma Separated.hi_lt {p : α} {x : ℕ} (h : Separated lo hi (l++[p]))
    (hx : hi p<x) : ∀ a∈l++[p],hi a<x := by
  obtain ⟨_,hp,hle⟩ := separated_append.mp h
  have := separated_singleton.mp hp
  intro a ha
  rcases mem_append.mp ha with ha | ha
  · have := hle a ha p (by simp); omega
  · rw [mem_singleton.mp ha]; exact hx

lemma Separated.insert {l r : List α} {m : α} (hl : Separated lo hi l) (hr : Separated lo hi r)
    (hm : lo m≤hi m) (h1 : ∀ a∈l,hi a+1<lo m) (h2 : ∀ b∈r,hi m+1<lo b) :
    Separated lo hi (l++m::r) := by
  refine separated_append.mpr ⟨hl,separated_cons.mpr ⟨hm,h2,hr⟩,?_⟩
  intro a ha b hb
  have := h1 a ha
  rcases mem_cons.mp hb with rfl | hb
  · exact this
  · have := h2 b hb; omega

lemma Separated.exists_of_Icc_subset (h : Separated lo hi l) {a b : ℕ}
    (hab : a≤b) (hsub : Set.Icc a b⊆cover lo hi l) : ∃ e∈l,lo e≤a ∧ b≤hi e := by
  obtain ⟨e,he,h1,h2⟩ := hsub ⟨le_rfl,hab⟩
  refine ⟨e,he,h1,?_⟩
  by_contra hb
  -- the number just above `e` would have to be covered, but it lies in a gap
  obtain ⟨f,hf,h3,h4⟩ := hsub (show hi e+1∈Set.Icc a b from ⟨by omega,by omega⟩)
  obtain ⟨l1,l2,rfl⟩ := append_of_mem he
  obtain ⟨_,her,hle⟩ := separated_append.mp h
  obtain ⟨_,hr,_⟩ := separated_cons.mp her
  simp only [mem_append,mem_cons] at hf
  rcases hf with hf | rfl | hf
  · have := hle f hf e (by simp); omega
  · omega
  · have := hr f hf; omega

end

end Darwin.Lib.IntervalList
