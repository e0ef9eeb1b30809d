import Mathlib.Data.Set.Insert

/-! Names that refer to places, such that the places in use are those referred to, each by one
name. -/
open Function Option
namespace Darwin.Lib

variable {ι κ : Type}

/-- The used places are those that a name refers to, and no two names share one. -/
structure Owns (place : ι → Option κ) (used : Set κ) : Prop where
  used_iff : ∀ k,k∈used ↔ ∃ x,place x=some k
  inj : ∀ {x y k},place x=some k → place y=some k → x=y

namespace Owns
variable {place : ι → Option κ} {used : Set κ}

lemma existsUnique_iff (h : Owns place used) (k : κ) : k∈used ↔ ∃! x,place x=some k := by
  rw [h.used_iff]
  constructor
  · rintro ⟨x,hx⟩
    exact ⟨x,hx,fun y hy => h.inj hy hx⟩
  · rintro ⟨x,hx,-⟩
    exact ⟨x,hx⟩

variable [DecidableEq ι] {x : ι} {k : κ}

lemma alloc (h : Owns place used) (hx : place x=none) (hk : k∉used) :
    Owns (update place x (some k)) (insert k used) := by
  have hfresh : ∀ y,place y≠some k := fun y hy => hk ((h.used_iff k).mpr ⟨y,hy⟩)
  refine ⟨fun j => ?_,fun {y z j} hy hz => ?_⟩
  · rw [Set.mem_insert_iff,h.used_iff]
    constructor
    · rintro (rfl | ⟨y,hy⟩)
      · exact ⟨x,update_self x _ _⟩
      · refine ⟨y,?_⟩
        rw [update_of_ne _]
        · exact hy
        · rintro rfl
          rw [hx] at hy
          cases hy
    · rintro ⟨y,hy⟩
      by_cases hyx : y=x
      · rw [hyx,update_self] at hy
        exact .inl (some.inj hy).symm
      · rw [update_of_ne hyx] at hy
        exact .inr ⟨y,hy⟩
  · by_cases hyx : y=x
    · by_cases hzx : z=x
      · rw [hyx,hzx]
      · rw [hyx,update_self] at hy
        rw [update_of_ne hzx,←some.inj hy] at hz
        exact absurd hz (hfresh z)
    · rw [update_of_ne hyx] at hy
      by_cases hzx : z=x
      · rw [hzx,update_self] at hz
        rw [←some.inj hz] at hy
        exact absurd hy (hfresh y)
      · rw [update_of_ne hzx] at hz
        exact h.inj hy hz

lemma free (h : Owns place used) (hx : place x=some k) :
    Owns (update place x none) (used \ {k}) := by
  refine ⟨fun j => ?_,fun {y z j} hy hz => ?_⟩
  · rw [Set.mem_sdiff,Set.mem_singleton_iff,h.used_iff]
    constructor
    · rintro ⟨⟨y,hy⟩,hne⟩
      refine ⟨y,?_⟩
      rw [update_of_ne _]
      · exact hy
      · rintro rfl
        exact hne (some.inj (hy.symm.trans hx))
    · rintro ⟨y,hy⟩
      by_cases hyx : y=x
      · rw [hyx,update_self] at hy
        cases hy
      · rw [update_of_ne hyx] at hy
        refine ⟨⟨y,hy⟩,?_⟩
        rintro rfl
        exact hyx (h.inj hy hx)
  · by_cases hyx : y=x
    · rw [hyx,update_self] at hy
      cases hy
    · by_cases hzx : z=x
      · rw [hzx,update_self] at hz
        cases hz
      · rw [update_of_ne hyx] at hy
        rw [update_of_ne hzx] at hz
        exact h.inj hy hz

end Owns
end Darwin.Lib
