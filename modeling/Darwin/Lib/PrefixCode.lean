import Mathlib.Tactic

/-! Texts made of words none of which begins another one: every text has one longest beginning in
words. -/
open List
namespace Darwin.Lib.PrefixCode

variable {ι β : Type*} {word : ι → List β}

/-- The words of a code, none of them a proper beginning of another. -/
structure PrefixFree (word : ι → List β) : Prop where
  ne_nil : ∀ i,word i≠[]
  unique : ∀ {i j s t},word i++s=word j++t → i=j

def Begins (word : ι → List β) (s : List β) : Prop := ∃ i t,s=word i++t

lemma not_begins_nil (h : ∀ i,word i≠[]) : ¬Begins word [] := by
  rintro ⟨i,t,ht⟩
  exact h i (append_eq_nil_iff.mp ht.symm).1

lemma exists_flatMap (h : ∀ i,word i≠[]) (s : List β) :
    ∃ (is : List ι) (t : List β),s=is.flatMap word++t ∧ ¬Begins word t := by
  induction hn : s.length using Nat.strong_induction_on generalizing s with
  | _ n ih =>
    by_cases hs : Begins word s
    · obtain ⟨i,t,rfl⟩ := hs
      have hlen : t.length<n := by
        have := length_pos_of_ne_nil (h i)
        rw [length_append] at hn
        omega
      obtain ⟨is,u,rfl,hu⟩ := ih t.length hlen t rfl
      refine ⟨i::is,u,?_,hu⟩
      rw [flatMap_cons,append_assoc]
    · exact ⟨[],s,rfl,hs⟩

lemma flatMap_unique (h : PrefixFree word) {is js : List ι} {s t : List β}
    (hs : ¬Begins word s) (ht : ¬Begins word t)
    (he : is.flatMap word++s=js.flatMap word++t) : is=js ∧ s=t := by
  induction is generalizing js with
  | nil =>
    cases js with
    | nil => exact ⟨rfl,he⟩
    | cons j js =>
      rw [flatMap_cons,append_assoc] at he
      exact absurd ⟨j,_,he⟩ hs
  | cons i is ih =>
    rw [flatMap_cons,append_assoc] at he
    cases js with
    | nil => exact absurd ⟨i,_,he.symm⟩ ht
    | cons j js =>
      rw [flatMap_cons,append_assoc] at he
      have hij := h.unique he
      subst hij
      obtain ⟨hall,hst⟩ := ih (append_cancel_left he)
      exact ⟨hall▸rfl,hst⟩

end Darwin.Lib.PrefixCode
