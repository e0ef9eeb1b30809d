import Mathlib.Order.WellFoundedSet

/-! Links from one object to the next: when a new link closes no cycle, and chains followed to
their end. -/
open List
namespace Darwin.Lib.Links
open Relation

variable {α : Type*} {r s : α → α → Prop} {a b c : α}

def Acyclic (r : α → α → Prop) : Prop := ∀ a,¬TransGen r a a

lemma Acyclic.mono (h : Acyclic r) (hs : ∀ a b,s a b → r a b) : Acyclic s :=
  fun a ha => h a (TransGen.mono hs a a ha)

lemma transGen_link (hs : ∀ x y,s x y → r x y ∨ (x=a ∧ y=b)) {x y : α}
    (h : TransGen s x y) : TransGen r x y ∨ (ReflTransGen r x a ∧ ReflTransGen r b y) := by
  induction h with
  | single hxy =>
    rcases hs _ _ hxy with hr | ⟨rfl,rfl⟩
    · exact .inl (.single hr)
    · exact .inr ⟨.refl,.refl⟩
  | tail _ hyz ih =>
    rcases hs _ _ hyz with hr | ⟨rfl,rfl⟩
    · rcases ih with ih | ⟨hxa,hby⟩
      · exact .inl (ih.tail hr)
      · exact .inr ⟨hxa,hby.tail hr⟩
    · rcases ih with ih | ⟨hxa,-⟩
      · exact .inr ⟨ih.to_reflTransGen,.refl⟩
      · exact .inr ⟨hxa,.refl⟩

lemma Acyclic.link (h : Acyclic r) (hs : ∀ x y,s x y → r x y ∨ (x=a ∧ y=b))
    (hba : ¬ReflTransGen r b a) : Acyclic s := by
  intro x hx
  rcases transGen_link hs hx with hr | ⟨hxa,hbx⟩
  · exact h x hr
  · exact hba (hbx.trans hxa)

lemma end_unique (hr : Relator.RightUnique r) (hab : ReflTransGen r a b)
    (hac : ReflTransGen r a c) (hb : ∀ d,¬r b d) (hc : ∀ d,¬r c d) : b=c := by
  rcases ReflTransGen.total_of_right_unique hr hab hac with h | h
  · rcases h.cases_head with rfl | ⟨d,hd,-⟩
    · rfl
    · exact absurd hd (hb d)
  · rcases h.cases_head with rfl | ⟨d,hd,-⟩
    · rfl
    · exact absurd hd (hc d)

lemma Acyclic.wellFounded (h : Acyclic r) (hfin : {a | ∃ b,r a b}.Finite) :
    WellFounded fun b a => r a b := by
  have : IsStrictOrder α fun b a => TransGen r a b :=
    { irrefl := h
      trans := fun _ _ _ hba hcb => hcb.trans hba}
  have hwf := Set.wellFoundedOn_iff.mp (hfin.wellFoundedOn (r := fun b a => TransGen r a b))
  have hlinked : ∀ a,(∃ b,r a b) → Acc (fun b a => r a b) a := by
    intro a
    induction a using hwf.induction with
    | _ a ih =>
      intro ha
      refine ⟨a,fun b hab => ?_⟩
      by_cases hb : ∃ c,r b c
      · exact ih b ⟨.single hab,hb,ha⟩ hb
      · exact ⟨b,fun c hbc => absurd ⟨c,hbc⟩ hb⟩
  refine ⟨fun a => ?_⟩
  by_cases ha : ∃ b,r a b
  · exact hlinked a ha
  · exact ⟨a,fun b hab => absurd ⟨b,hab⟩ ha⟩

/-- The objects passed on the way from one object to another, without the last. -/
inductive Path (r : α → α → Prop) : α → α → List α → Prop
  | nil (a : α) : Path r a a []
  | cons {a b c : α} {l : List α} (hab : r a b) (hl : Path r b c l) : Path r a c (a::l)

namespace Path

variable {l : List α}

lemma reach (h : Path r a b l) : ReflTransGen r a b := by
  induction h with
  | nil => exact .refl
  | cons hab _ ih => exact .head hab ih

lemma reach_mem (h : Path r a b l) : ∀ c∈l,ReflTransGen r a c := by
  induction h with
  | nil => exact fun c hc => absurd hc not_mem_nil
  | cons hab _ ih =>
    intro c hc
    rcases mem_cons.mp hc with rfl | hc
    · exact .refl
    · exact .head hab (ih c hc)

lemma mem_link (h : Path r a b l) : ∀ c∈l,∃ d,r c d := by
  induction h with
  | nil => exact fun c hc => absurd hc not_mem_nil
  | cons hab _ ih =>
    intro c hc
    rcases mem_cons.mp hc with rfl | hc
    · exact ⟨_,hab⟩
    · exact ih c hc

lemma end_notMem (hr : Acyclic r) (h : Path r a b l) : b∉l := by
  induction h with
  | nil => exact not_mem_nil
  | cons hab hl ih =>
    intro hb
    rcases mem_cons.mp hb with rfl | hb
    · exact hr _ (.head' hab hl.reach)
    · exact ih hb

lemma notMem_tail (hr : Acyclic r) (hab : r a b) (h : Path r b c l) : a∉l :=
  fun ha => hr a (.head' hab (h.reach_mem a ha))

lemma ne_end (hr : Acyclic r) (hab : r a b) (h : Path r b c l) : a≠c := by
  rintro rfl
  exact hr a (.head' hab h.reach)

lemma snoc (h : Path r a b l) (hbc : r b c) : Path r a c (l++[b]) := by
  induction h with
  | nil => exact .cons hbc (.nil _)
  | cons hab _ ih => exact .cons hab (ih hbc)

lemma congr (h : Path r a b l) (hrs : ∀ x∈l,∀ y,r x y → s x y) : Path s a b l := by
  induction h with
  | nil => exact .nil _
  | cons hab _ ih =>
    exact .cons (hrs _ mem_cons_self _ hab)
      (ih fun x hx => hrs x (mem_cons_of_mem _ hx))

end Path

end Darwin.Lib.Links
