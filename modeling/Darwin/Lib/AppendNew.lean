import Mathlib.Data.List.Nodup

/-! Appending to a list those elements of another that are wanted and not in it yet. -/
namespace Darwin

variable {α : Type} [DecidableEq α]

def appendOne (wanted : α → Bool) (l : List α) (a : α) : List α :=
  if wanted a && !l.contains a then l++[a] else l

def appendNew (wanted : α → Bool) (l as : List α) : List α :=
  as.foldl (appendOne wanted) l

lemma appendOne_nodup (wanted : α → Bool) {l : List α} (h : l.Nodup) (a : α) :
    (appendOne wanted l a).Nodup := by
  unfold appendOne
  split
  · rename_i ha
    have hnot : a∉l := by simpa using (Bool.and_eq_true_iff.mp ha).2
    rw [←List.concat_eq_append]
    exact h.concat hnot
  · exact h

lemma mem_appendOne (wanted : α → Bool) (l : List α) (a b : α) :
    b∈appendOne wanted l a ↔ b∈l ∨ (b=a ∧ wanted b=true) := by
  unfold appendOne
  by_cases hb : b=a
  · subst b
    by_cases ha : a∈l <;> cases hw : wanted a <;> simp [ha]
  · split <;> simp [hb]

lemma appendNew_nodup (wanted : α → Bool) {l : List α} (h : l.Nodup) (as : List α) :
    (appendNew wanted l as).Nodup := by
  induction as generalizing l with
  | nil => exact h
  | cons a as ih => exact ih (appendOne_nodup wanted h a)

lemma mem_appendNew (wanted : α → Bool) (l as : List α) (b : α) :
    b∈appendNew wanted l as ↔ b∈l ∨ (b∈as ∧ wanted b=true) := by
  induction as generalizing l with
  | nil => simp [appendNew]
  | cons a as ih =>
    refine (ih (appendOne wanted l a)).trans ?_
    rw [mem_appendOne,List.mem_cons,or_assoc,←or_and_right]

end Darwin
