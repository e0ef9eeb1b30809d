import Mathlib.Tactic

/-! Positional list operations at the junction of a prefix and a suffix. -/
namespace Darwin.Lib.ListIndex

variable {α : Type*}

@[simp] lemma modify_append_cons (pre post : List α) (x : α) (f : α → α) :
    (pre++x::post).modify pre.length f=pre++f x::post := by
  induction pre with
  | nil => rfl
  | cons y pre ih => simp [List.modify_succ_cons,ih]

@[simp] lemma eraseIdx_append_cons (pre post : List α) (x : α) :
    (pre++x::post).eraseIdx pre.length=pre++post := by
  induction pre with
  | nil => rfl
  | cons y pre ih => simp [ih]

@[simp] lemma insertIdx_append (pre post : List α) (x : α) :
    (pre++post).insertIdx pre.length x=pre++x::post := by
  induction pre with
  | nil => rfl
  | cons y pre ih => simp [List.insertIdx_succ_cons,ih]

@[simp] lemma set_append_cons (pre post : List α) (x y : α) :
    (pre++x::post).set pre.length y=pre++y::post := by
  induction pre with
  | nil => rfl
  | cons z pre ih => simp [ih]

lemma getD_append_cons (pre post : List α) (x d : α) : (pre++x::post).getD pre.length d=x := by
  simp [List.getD_eq_getElem?_getD]

end Darwin.Lib.ListIndex
