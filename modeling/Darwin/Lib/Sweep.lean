import Darwin.Lib.KeyOrder

/-! Sweeping through a list in key order while the list changes: each step goes to the
first record above the last one visited. -/
open List
namespace Darwin.Lib.KeyOrder

section
variable {α β : Type*} {cmp : α → α → Ordering} {key : β → α} [Std.TransCmp cmp]

omit [Std.TransCmp cmp] in
lemma above_mem {k : α} {l : List β} {s : β} (hs : above cmp key k l=some s) :
    s∈l ∧ cmp k (key s)=.lt :=
  ⟨mem_of_find?_eq_some hs,by simpa using find?_some hs⟩

omit [Std.TransCmp cmp] in
lemma above_eq_none {k : α} {l : List β} (h : above cmp key k l=none) {r : β} (hr : r∈l) :
    cmp k (key r)≠.lt := by
  simpa using find?_eq_none.mp h r hr

lemma Ascending.above_le {k : α} {l : List β} (hl : Ascending cmp key l) {r s : β}
    (hs : above cmp key k l=some s) (hr : r∈l) (hkr : cmp k (key r)=.lt) :
    r=s ∨ cmp (key s) (key r)=.lt := by
  obtain ⟨a,o,c,hc⟩ := hl.cut k
  rw [hc.above_eq] at hs
  obtain ⟨c,rfl⟩ := head?_eq_some_iff.mp hs
  have hmem : r∈s::c := by
    rw [hc.eq] at hr
    rcases mem_append.mp hr with ha | hr
    · exact absurd hkr (cmp_ne_of_lt (hc.lt r ha)).1
    rcases mem_append.mp hr with ho | hr
    · rw [hc.at_key r (by simpa using ho)] at hkr
      cases hkr
    · exact hr
  rcases mem_cons.mp hmem with rfl | hrc
  · exact Or.inl rfl
  · rw [hc.eq,←append_assoc] at hl
    exact Or.inr ((pairwise_cons.mp hl.of_append_right).1 r hrc)

omit [Std.TransCmp cmp] in
lemma Ascending.head_le {l : List β} (hl : Ascending cmp key l) {r s : β}
    (hs : l.head?=some s) (hr : r∈l) : r=s ∨ cmp (key s) (key r)=.lt := by
  obtain ⟨c,rfl⟩ := head?_eq_some_iff.mp hs
  rcases mem_cons.mp hr with rfl | hrc
  · exact Or.inl rfl
  · exact Or.inr ((pairwise_cons.mp hl).1 r hrc)

variable (cmp key) in
/-- The first `m` steps of a sweep: step `i` visits `v i` in the list `l i`. -/
structure Sweep (l : ℕ → List β) (v : ℕ → β) (m : ℕ) : Prop where
  first : 0 < m → (l 0).head?=some (v 0)
  next : ∀ i,i+1 < m → above cmp key (key (v i)) (l (i+1))=some (v (i+1))

namespace Sweep
variable {l : ℕ → List β} {v : ℕ → β} {m : ℕ}

lemma ascending (h : Sweep cmp key l v m) {i j : ℕ} (hij : i<j) (hj : j < m) :
    cmp (key (v i)) (key (v j))=.lt := by
  induction j,hij using Nat.le_induction with
  | base => exact (above_mem (h.next i hj)).2
  | succ j _ ih => exact Std.TransCmp.lt_trans (ih (by omega)) (above_mem (h.next j hj)).2

lemma visited_or_ahead (h : Sweep cmp key l v (m+1)) (hl : ∀ i,Ascending cmp key (l i)) {r : β}
    (hr : ∀ i ≤ m,r∈l i) : (∃ i ≤ m,v i=r) ∨ cmp (key (v m)) (key r)=.lt := by
  induction m with
  | zero =>
    rcases (hl 0).head_le (h.first (by omega)) (hr 0 le_rfl) with rfl | hlt
    · exact Or.inl ⟨0,le_rfl,rfl⟩
    · exact Or.inr hlt
  | succ m ih =>
    rcases ih ⟨fun _ => h.first (by omega),fun i hi => h.next i (by omega)⟩
      (fun i hi => hr i (by omega)) with ⟨i,hi,hv⟩ | hlt
    · exact Or.inl ⟨i,by omega,hv⟩
    · rcases (hl (m+1)).above_le (h.next m (by omega)) (hr _ le_rfl) hlt with rfl | hlt
      · exact Or.inl ⟨m+1,le_rfl,rfl⟩
      · exact Or.inr hlt

lemma exactly_once (h : Sweep cmp key l v m) (hl : ∀ i,Ascending cmp key (l i))
    (hend : ∀ r∈l m,m≠0 ∧ cmp (key (v (m-1))) (key r)≠.lt) {r : β}
    (hr : ∀ i ≤ m,r∈l i) : ∃! i,i < m ∧ v i=r := by
  obtain ⟨hm,hlt⟩ := hend r (hr m le_rfl)
  obtain ⟨k,rfl⟩ : ∃ k,m=k+1 := ⟨m-1,by omega⟩
  rcases h.visited_or_ahead hl (r := r) (fun i hi => hr i (by omega)) with ⟨i,hi,hv⟩ | hahead
  · refine ⟨i,⟨by omega,hv⟩,?_⟩
    rintro j ⟨hj,hvj⟩
    -- two visits would put the record above itself
    have hirr : cmp (key r) (key r)≠.lt := fun hrr => (cmp_ne_of_lt hrr).1 hrr
    rcases lt_trichotomy j i with hji | rfl | hij
    · have := h.ascending hji (by omega)
      rw [hv,hvj] at this
      exact absurd this hirr
    · rfl
    · have := h.ascending hij hj
      rw [hv,hvj] at this
      exact absurd this hirr
  · exact absurd hahead hlt

end Sweep

lemma Ascending.above_getElem {l : List β} (hl : Ascending cmp key l) {i : ℕ} {r : β}
    (hr : l[i]?=some r) : above cmp key (key r) l=l[i+1]? := by
  obtain ⟨hi,rfl⟩ := List.getElem?_eq_some_iff.mp hr
  have heq : l=l.take i++((some l[i]).toList++l.drop (i+1)) := by simp
  have hl' := hl
  rw [heq] at hl'
  have hc : Cut cmp key (key l[i]) l (l.take i) (some l[i]) (l.drop (i+1)) := by
    refine ⟨heq,?_,?_,?_⟩
    · exact fun s hs => (pairwise_append.mp hl').2.2 s hs _
        (mem_append_left _ (by simp))
    · rintro s ⟨⟩
      exact Std.ReflCmp.cmp_eq_of_eq rfl
    · exact fun s hs => (pairwise_cons.mp hl'.of_append_right).1 s hs
  rw [hc.above_eq,head?_drop]

omit [Std.TransCmp cmp] in
lemma Ascending.reverse {l : List β} (hl : Ascending cmp key l) :
    Ascending (fun a b => cmp b a) key l.reverse :=
  pairwise_reverse.mpr hl

end

end Darwin.Lib.KeyOrder
