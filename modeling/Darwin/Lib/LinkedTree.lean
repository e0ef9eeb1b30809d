import Mathlib.Tactic

/-! Binary trees linked through two child maps, seen as the lists of their nodes in order, trees
that are open at the second child of their last node, and paths of reversed links. -/
open List Option
namespace Darwin.Lib.LinkedTree

variable {α : Type*}

/-- The tree at a pointer has these nodes, in order. -/
inductive InOrder (l r : α → Option α) : Option α → List α → Prop
  | nil : InOrder l r none []
  | node {a : α} {xs ys : List α} (hl : InOrder l r (l a) xs) (hr : InOrder l r (r a) ys) :
      InOrder l r (some a) (xs++a::ys)

/-- What the open place of a tree holds: the root of an empty one, else the second child of its
last node. -/
def hole (r : α → Option α) (root : Option α) : Option α → Option α
  | none => root
  | some a => r a

/-- The nodes of an open tree, in order. The last node is given, what its open place holds is
not looked at. -/
inductive OpenTree (l r : α → Option α) (root : Option α) : Option α → List α → Prop
  | nil : OpenTree l r root none []
  | snoc {a : α} {last : Option α} {xs ys : List α} (ht : OpenTree l r root last xs)
      (hlink : hole r root last=some a) (hl : InOrder l r (l a) ys) :
      OpenTree l r root (some a) (xs++ys++[a])

/-- The way up from a place in a tree along reversed links: the link of a node towards the place
holds the node above it. The nodes before the place and those after it, in order. -/
inductive PathTo (l r : α → Option α) : Option α → List α → List α → Prop
  | top : PathTo l r none [] []
  | fromLeft {a : α} {before after ys : List α} (hup : PathTo l r (l a) before after)
      (hr : InOrder l r (r a) ys) : PathTo l r (some a) before (a::ys++after)
  | fromRight {a : α} {before after xs : List α} (hup : PathTo l r (r a) before after)
      (hl : InOrder l r (l a) xs) : PathTo l r (some a) (before++xs++[a]) after

namespace InOrder

variable {l r l' r' : α → Option α} {p : Option α} {a : α} {xs ys : List α}

lemma none_inv (h : InOrder l r none xs) : xs=[] := by
  cases h
  rfl

lemma some_inv (h : InOrder l r (some a) xs) :
    ∃ ys zs,xs=ys++a::zs ∧ InOrder l r (l a) ys ∧ InOrder l r (r a) zs := by
  cases h with
  | node hl hr => exact ⟨_,_,rfl,hl,hr⟩

lemma mem_of_some (h : InOrder l r (some a) xs) : a∈xs := by
  obtain ⟨ys,zs,rfl,-⟩ := h.some_inv
  exact mem_append_right _ mem_cons_self

lemma congr (h : InOrder l r p xs) (hl : ∀ a,a∈xs → l' a=l a)
    (hr : ∀ a,a∈xs → r' a=r a) : InOrder l' r' p xs := by
  induction h with
  | nil => exact .nil
  | @node a xs ys _ _ ihl ihr =>
    have ha : a∈xs++a::ys := mem_append_right _ mem_cons_self
    have hxs : ∀ b,b∈xs → b∈xs++a::ys := fun b hb => mem_append_left _ hb
    have hys : ∀ b,b∈ys → b∈xs++a::ys := fun b hb =>
      mem_append_right _ (mem_cons_of_mem _ hb)
    refine .node ?_ ?_
    · rw [hl a ha]
      exact ihl (fun b hb => hl b (hxs b hb)) fun b hb => hr b (hxs b hb)
    · rw [hr a ha]
      exact ihr (fun b hb => hl b (hys b hb)) fun b hb => hr b (hys b hb)

lemma mirror (h : InOrder l r p xs) : InOrder r l p xs.reverse := by
  induction h with
  | nil => exact .nil
  | node _ _ ihl ihr =>
    rw [reverse_append,reverse_cons,append_assoc,singleton_append]
    exact .node ihr ihl

lemma mirror_iff : InOrder r l p xs ↔ InOrder l r p xs.reverse :=
  ⟨mirror,fun h => by simpa only [reverse_reverse] using h.mirror⟩

end InOrder

namespace OpenTree

variable {l r l' r' : α → Option α} {root root' last : Option α} {a : α} {xs ys : List α}

lemma none_inv (h : OpenTree l r root none xs) : xs=[] := by
  cases h
  rfl

lemma some_inv (h : OpenTree l r root (some a) xs) : ∃ ys,xs=ys++[a] := by
  cases h
  exact ⟨_,rfl⟩

lemma mem_last (h : OpenTree l r root (some a) xs) : a∈xs := by
  obtain ⟨ys,rfl⟩ := h.some_inv
  exact mem_append_right _ (mem_singleton_self _)

lemma congr (h : OpenTree l r root last xs) (hnodup : xs.Nodup)
    (hl : ∀ a,a∈xs → l' a=l a) (hr : ∀ a,a∈xs → last≠some a → r' a=r a)
    (hroot : last≠none → root'=root) : OpenTree l' r' root' last xs := by
  induction h with
  | nil => exact .nil
  | @snoc a last xs ys ht hlink hys ih =>
    rw [nodup_append] at hnodup
    obtain ⟨hnodup,-,hdisj⟩ := hnodup
    have hmem : ∀ b,b∈xs++ys → b∈xs++ys++[a] := fun b hb => mem_append_left _ hb
    have ha : a∈xs++ys++[a] := mem_append_right _ (mem_singleton_self _)
    have hold : ∀ b,b∈xs++ys → r' b=r b := fun b hb =>
      hr b (hmem b hb) fun heq =>
        hdisj b hb a (mem_singleton_self _) (some.inj heq).symm
    have hxs := ih (nodup_append.mp hnodup).1
      (fun b hb => hl b (hmem b (mem_append_left _ hb)))
      (fun b hb _ => hold b (mem_append_left _ hb)) fun _ => hroot (some_ne_none a)
    refine .snoc hxs ?_ ?_
    · cases last with
      | none => exact (hroot (some_ne_none a)).trans hlink
      | some b => exact (hold b (mem_append_left _ ht.mem_last)).trans hlink
    · rw [hl a ha]
      exact hys.congr (fun b hb => hl b (hmem b (mem_append_right _ hb)))
        fun b hb => hold b (mem_append_right _ hb)

lemma fill (h : OpenTree l r root last xs) (hys : InOrder l r (hole r root last) ys) :
    InOrder l r root (xs++ys) := by
  induction h generalizing ys with
  | nil => exact hys
  | @snoc a last xs zs _ hlink hzs ih =>
    rw [append_assoc,append_assoc]
    refine ih ?_
    rw [hlink]
    exact .node hzs hys

end OpenTree

namespace PathTo

variable {l r l' r' : α → Option α} {up : Option α} {before after : List α}

lemma none_inv (h : PathTo l r none before after) : before=[] ∧ after=[] := by
  cases h
  exact ⟨rfl,rfl⟩

lemma congr (h : PathTo l r up before after) (hl : ∀ a,a∈before++after → l' a=l a)
    (hr : ∀ a,a∈before++after → r' a=r a) : PathTo l' r' up before after := by
  induction h with
  | top => exact .top
  | @fromLeft a before after ys _ hys ih =>
    have hmem : ∀ b,b∈before++after ∨ b=a ∨ b∈ys → b∈before++(a::ys++after) :=
      fun b hb => by
        simp only [mem_append,mem_cons] at hb ⊢
        tauto
    have ha := hmem a (Or.inr (Or.inl rfl))
    refine .fromLeft ?_ ?_
    · rw [hl a ha]
      exact ih (fun b hb => hl b (hmem b (Or.inl hb))) fun b hb => hr b (hmem b (Or.inl hb))
    · rw [hr a ha]
      exact hys.congr (fun b hb => hl b (hmem b (Or.inr (Or.inr hb))))
        fun b hb => hr b (hmem b (Or.inr (Or.inr hb)))
  | @fromRight a before after xs _ hxs ih =>
    have hmem : ∀ b,b∈before++after ∨ b=a ∨ b∈xs → b∈before++xs++[a]++after :=
      fun b hb => by
        simp only [mem_append,mem_singleton] at hb ⊢
        tauto
    have ha := hmem a (Or.inr (Or.inl rfl))
    refine .fromRight ?_ ?_
    · rw [hr a ha]
      exact ih (fun b hb => hl b (hmem b (Or.inl hb))) fun b hb => hr b (hmem b (Or.inl hb))
    · rw [hl a ha]
      exact hxs.congr (fun b hb => hl b (hmem b (Or.inr (Or.inr hb))))
        fun b hb => hr b (hmem b (Or.inr (Or.inr hb)))

end PathTo

end Darwin.Lib.LinkedTree
