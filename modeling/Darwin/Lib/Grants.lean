import Mathlib.Data.Set.Basic

/-! A space of which owners take parts and give them back. -/
open Function
namespace Darwin.Lib

variable {α ι S : Type}

/-- No place of the space is both free and held, or held by two owners. -/
structure Grants (space free : Set α) (held : ι → Set α) : Prop where
  inside : ∀ x,(x∈free ∨ ∃ i,x∈held i) → x∈space
  apart : ∀ i,∀ x∈held i,x∉free
  once : ∀ i j,∀ x∈held i,x∈held j → i=j

variable [DecidableEq ι]

lemma Grants.trade {space free free' take give : Set α} {held : ι → Set α} {i : ι}
    (h : Grants space free held) (hgive : give⊆held i) (htake : take⊆free)
    (hfree : free'⊆free \ take∪give) :
    Grants space free' (update held i (held i \ give∪take)) := by
  obtain ⟨hin,hapart,honce⟩ := h
  constructor <;> grind [update_apply]

/-- The trades that are made in a state: what is taken, what is given, and the next state. They are
fair in good states. -/
structure Market (S α : Type) where
  free : S → Set α
  Trade : S → Set α → Set α → S → Prop
  Good : S → Prop
  lossless : Prop
  fair : ∀ {s take give s'},Good s → Trade s take give s' → (∀ x∈give,x∉free s) →
    Good s' ∧ take⊆free s ∧ free s'⊆free s \ take∪give ∧ (lossless → free s \ take∪give⊆free s')

/-- Trades in any order, of owners who give what they hold. -/
inductive Market.Run (M : Market S α) (s₀ : S) : S → (ι → Set α) → Prop
  | start : Run M s₀ s₀ fun _ => ∅
  | trade {s take give s' held} (h : Run M s₀ s held) (i : ι) (ht : M.Trade s take give s')
    (hgive : give⊆held i) : Run M s₀ s' (update held i (held i \ give∪take))

lemma Market.Run.apart {M : Market S α} {s₀ s : S} {held : ι → Set α} (h : M.Run s₀ s held)
    (hgood : M.Good s₀) : M.Good s ∧ Grants (M.free s₀) (M.free s) held ∧
      (M.lossless → ∀ x∈M.free s₀,x∈M.free s ∨ ∃ i,x∈held i) := by
  induction h with
  | start => exact ⟨hgood,⟨by simp,by simp,by simp⟩,fun _ _ => .inl⟩
  | @trade s take give s' held _ i ht hgive ih =>
    obtain ⟨hgood,hgrants,hcover⟩ := ih
    obtain ⟨hgood',htake,hfree,hfull⟩ := M.fair hgood ht fun x hx => hgrants.apart i x (hgive hx)
    refine ⟨hgood',hgrants.trade hgive htake hfree,fun hl x hx => ?_⟩
    obtain hx | ⟨j,hx⟩ := hcover hl x hx
    · by_cases ht : x∈take
      · exact .inr ⟨i,by simp [ht]⟩
      · exact .inl (hfull hl (.inl ⟨hx,ht⟩))
    · obtain rfl | hj := eq_or_ne j i
      · by_cases hg : x∈give
        · exact .inl (hfull hl (.inr hg))
        · exact .inr ⟨j,by simp [hx,hg]⟩
      · exact .inr ⟨j,by rwa [update_of_ne hj]⟩

end Darwin.Lib
