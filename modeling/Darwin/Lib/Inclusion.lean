import Mathlib.Tactic

/-! Lists compared by their lengths and an inclusion. -/
namespace Darwin.Lib.Inclusion

variable {α : Type*}

lemma perm_of_subset {l l' : List α} (hl : l.Nodup) (hsub : l⊆l')
    (hlen : l'.length=l.length) : l.Perm l' :=
  (hl.subperm hsub).perm_of_length_le hlen.le

lemma exists_nodup_superset [Infinite α] (l : List α) :
    ∃ l' : List α,l'.Nodup ∧ l'.length=l.length ∧ l⊆l' := by
  classical
  obtain ⟨t,hsub,hcard⟩ := Infinite.exists_superset_card_eq l.toFinset l.length
    (List.toFinset_card_le l)
  refine ⟨t.toList,t.nodup_toList,(Finset.length_toList t).trans hcard,fun x hx => ?_⟩
  exact Finset.mem_toList.mpr (hsub (List.mem_toFinset.mpr hx))

end Darwin.Lib.Inclusion
