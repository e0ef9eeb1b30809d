import Darwin.Hfs.BTree.Iterate
import Darwin.Lib.Sweep

/-! Whole iterations, forward and backward, over a tree that may change between the
steps. -/
open Option List
namespace Darwin.Hfs
open Lib.KeyOrder

namespace BTree

def startOperation (forward : Bool) : BTreeIterationOperation :=
  if forward then .kBTreeFirstRecord else .kBTreeLastRecord

def stepOperation (forward : Bool) : BTreeIterationOperation :=
  if forward then .kBTreeNextRecord else .kBTreePrevRecord

def iteration (T : ℕ → BTree) (io : ℕ → ℕ → BlockRead) (forward : Bool) (bufferSize : Option ℕ)
    (iterator : BTreeIterator) : ℕ → Except BTErr Found × Option BTreeIterator
  | 0 => (T 0).btIterateRecord (io 0) (startOperation forward) (some iterator) bufferSize
  | i+1 => (T (i+1)).btIterateRecord (io (i+1)) (stepOperation forward)
      (iteration T io forward bufferSize iterator i).2 bufferSize

def order (t : BTree) (forward : Bool) (a b : Key) : Ordering :=
  if forward then t.keyCompareProc a b else t.keyCompareProc b a

def inOrder (forward : Bool) (l : List Record) : List Record := if forward then l else l.reverse

/-- Trees whose keys are spelled and compared in the same way. -/
structure SameFormat (t s : BTree) : Prop where
  compare : t.keyCompareProc=s.keyCompareProc
  bigKeys : t.bigKeys=s.bigKeys

namespace SameFormat
variable {t s : BTree} (h : SameFormat t s)
include h

lemma recordKey_eq : recordKey t.toBTreeControlBlock=recordKey s.toBTreeControlBlock := by
  funext r
  simp only [recordKey,keyLength,sizeOfLength,h.bigKeys]

lemma found_eq : t.found=s.found := by
  funext b r
  simp only [found,h.recordKey_eq,recordData,calcKeySize,keyLength,sizeOfLength,h.bigKeys]

lemma order_eq (forward : Bool) : t.order forward=s.order forward := by
  funext a b
  simp only [order,h.compare]

end SameFormat

lemma foundOr_eq_ok {t : BTree} {bufferSize : Option ℕ} {e : BTErr} {o : Option Record} {f : Found}
    (h : t.foundOr bufferSize e o=.ok f) : ∃ r,o=some r ∧ f=t.found bufferSize r := by
  cases o with
  | none => cases h
  | some r =>
    cases h
    exact ⟨r,rfl,rfl⟩

def endError (forward : Bool) (l : List Record) : BTErr :=
  if forward=true ∨ l=[] then .fsBTRecordNotFoundErr else .fsBTStartOfIterationErr

namespace WellFormed
variable {t : BTree} {level : ℕ → List ℕ} (hw : t.WellFormed level)
include hw

lemma order_trans (forward : Bool) : Std.TransCmp (t.order forward) := by
  have := hw.compare
  cases forward with
  | true => exact (inferInstance : Std.TransCmp t.keyCompareProc)
  | false => exact (inferInstance : Std.TransCmp fun a b => t.keyCompareProc b a)

lemma ascending_inOrder (forward : Bool) :
    Ascending (t.order forward) (recordKey t.toBTreeControlBlock)
      (inOrder forward (t.leafList level)) := by
  cases forward with
  | true => exact hw.ascending
  | false => exact hw.ascending.reverse

lemma start_result {io : ℕ → BlockRead} (hio : ∀ n,io n≠.failed) (forward : Bool)
    (iterator : BTreeIterator) (bufferSize : Option ℕ) :
    (t.btIterateRecord io (startOperation forward) (some iterator) bufferSize).1 =
      t.foundOr bufferSize .fsBTRecordNotFoundErr (inOrder forward (t.leafList level)).head? ∧
    ∃ it,(t.btIterateRecord io (startOperation forward) (some iterator) bufferSize).2=some it ∧
      ∀ r∈(inOrder forward (t.leafList level)).head?,it.key=recordKey t.toBTreeControlBlock r := by
  cases forward with
  | true => exact btIterateRecord_of_fetches (hw.first_spec hio (some iterator)) bufferSize
  | false =>
    have h := btIterateRecord_of_fetches (hw.last_spec hio (some iterator)) bufferSize
    rwa [←head?_reverse] at h

lemma step_result {io : ℕ → BlockRead} (hio : ∀ n,io n≠.failed) (forward : Bool)
    (iterator : BTreeIterator) (bufferSize : Option ℕ) :
    (t.btIterateRecord io (stepOperation forward) (some iterator) bufferSize).1 =
      t.foundOr bufferSize (endError forward (t.leafList level))
        (above (t.order forward) (recordKey t.toBTreeControlBlock) iterator.key
          (inOrder forward (t.leafList level))) ∧
    ∃ it,(t.btIterateRecord io (stepOperation forward) (some iterator) bufferSize).2=some it ∧
      ∀ r∈above (t.order forward) (recordKey t.toBTreeControlBlock) iterator.key
        (inOrder forward (t.leafList level)),it.key=recordKey t.toBTreeControlBlock r := by
  have herr : endError forward (t.leafList level) =
      iterationError (if t.leafList level=[] then .fsBTEmptyErr else
        if forward then .fsBTEndOfIterationErr else .fsBTStartOfIterationErr) := by
    unfold endError
    split_ifs <;> simp_all [iterationError]
  cases forward with
  | true =>
    rw [herr]
    exact btIterateRecord_of_fetches (hw.next_spec hio iterator) bufferSize
  | false =>
    rw [herr]
    exact btIterateRecord_of_fetches (hw.prev_spec hio iterator) bufferSize

end WellFormed

lemma mem_inOrder {forward : Bool} {l : List Record} {r : Record} : r∈inOrder forward l ↔ r∈l := by
  cases forward <;> simp [inOrder]

lemma length_inOrder (forward : Bool) (l : List Record) : (inOrder forward l).length=l.length := by
  cases forward <;> simp [inOrder]

lemma endError_cases (forward : Bool) (l : List Record) :
    endError forward l=.fsBTRecordNotFoundErr ∨
      forward=false ∧ endError forward l=.fsBTStartOfIterationErr := by
  unfold endError
  split_ifs with h
  · exact Or.inl rfl
  · rw [not_or] at h
    exact Or.inr ⟨by simpa using h.1,rfl⟩

def visits (T : ℕ → BTree) (level : ℕ → ℕ → List ℕ) (forward : Bool) : ℕ → Option Record
  | 0 => (inOrder forward ((T 0).leafList (level 0))).head?
  | i+1 => (visits T level forward i).bind fun r =>
      above ((T (i+1)).order forward) (recordKey (T (i+1)).toBTreeControlBlock)
        (recordKey (T (i+1)).toBTreeControlBlock r)
        (inOrder forward ((T (i+1)).leafList (level (i+1))))

section
variable {T : ℕ → BTree} {level : ℕ → ℕ → List ℕ} (hw : ∀ i,(T i).WellFormed (level i))
  (hfmt : ∀ i,SameFormat (T i) (T 0)) {io : ℕ → ℕ → BlockRead} (hio : ∀ i n,io i n≠.failed)
  (forward : Bool) (bufferSize : Option ℕ) (iterator : BTreeIterator)
include hw hfmt hio

lemma iteration_eq {i : ℕ} (hi : ∀ j < i,(visits T level forward j).isSome) :
    (∃ e,(e=.fsBTRecordNotFoundErr ∨ e=endError forward ((T i).leafList (level i))) ∧
      (i≠0 → e=endError forward ((T i).leafList (level i))) ∧
      (iteration T io forward bufferSize iterator i).1 =
        (T i).foundOr bufferSize e (visits T level forward i)) ∧
    ∃ it,(iteration T io forward bufferSize iterator i).2=some it ∧
      ∀ r∈visits T level forward i,it.key=recordKey (T 0).toBTreeControlBlock r := by
  induction i with
  | zero =>
    obtain ⟨h1,h2⟩ := (hw 0).start_result (hio 0) forward iterator bufferSize
    exact ⟨⟨_,Or.inl rfl,fun h => absurd rfl h,h1⟩,h2⟩
  | succ i ih =>
    obtain ⟨_,it,hit,hkey⟩ := ih (fun j hj => hi j (by omega))
    obtain ⟨r,hr⟩ := isSome_iff_exists.mp (hi i (by omega))
    obtain ⟨h1,h2⟩ := (hw (i+1)).step_result (hio (i+1)) forward it bufferSize
    rw [iteration,hit,visits,hr,bind_some,(hfmt (i+1)).recordKey_eq,←hkey r hr]
    rw [(hfmt (i+1)).recordKey_eq] at h1 h2
    exact ⟨⟨_,Or.inr rfl,fun _ => rfl,h1⟩,h2⟩

lemma visits_of_ok {m : ℕ}
    (hm : ∀ i < m,∃ f,(iteration T io forward bufferSize iterator i).1=.ok f) :
    ∀ i < m,∃ r,visits T level forward i=some r ∧
      (iteration T io forward bufferSize iterator i).1=.ok ((T 0).found bufferSize r) := by
  intro i
  induction i using Nat.strong_induction_on with
  | _ i ih =>
    intro hi
    have hsome : ∀ j < i,(visits T level forward j).isSome := by
      intro j hj
      obtain ⟨r,hr,_⟩ := ih j hj (by omega)
      simp [hr]
    obtain ⟨⟨e,_,_,heq⟩,_⟩ := iteration_eq hw hfmt hio forward bufferSize iterator hsome
    obtain ⟨f,hf⟩ := hm i hi
    rw [hf] at heq
    obtain ⟨r,hr,rfl⟩ := foundOr_eq_ok heq.symm
    exact ⟨r,hr,by rw [hf,(hfmt i).found_eq]⟩

omit hw hio in
lemma sweep_visits {m : ℕ} (hm : ∀ i < m,∃ r,visits T level forward i=some r) :
    Sweep ((T 0).order forward) (recordKey (T 0).toBTreeControlBlock)
      (fun i => inOrder forward ((T i).leafList (level i)))
      (fun i => (visits T level forward i).getD []) m := by
  refine ⟨fun h0 => ?_,fun i hi => ?_⟩
  · obtain ⟨r,hr⟩ := hm 0 h0
    rw [hr,getD_some]
    exact hr
  · obtain ⟨r,hr⟩ := hm i (by omega)
    obtain ⟨s,hs⟩ := hm (i+1) hi
    rw [hr,hs,getD_some,getD_some]
    rw [visits,hr,bind_some,(hfmt (i+1)).recordKey_eq,(hfmt (i+1)).order_eq] at hs
    exact hs

omit hfmt hio in
lemma visits_static (hT : ∀ i,T i=T 0) (hlevel : ∀ i,level i=level 0) (i : ℕ) :
    visits T level forward i=(inOrder forward ((T 0).leafList (level 0)))[i]? := by
  have := (hw 0).order_trans forward
  induction i with
  | zero => rw [visits,head?_eq_getElem?]
  | succ i ih =>
    rw [visits,ih,hT (i+1),hlevel (i+1)]
    cases hr : (inOrder forward ((T 0).leafList (level 0)))[i]? with
    | none =>
      rw [getElem?_eq_none_iff] at hr
      rw [getElem?_eq_none (by omega)]
      rfl
    | some r => exact ((hw 0).ascending_inOrder forward).above_getElem hr

lemma iteration_static (hT : ∀ i,T i=T 0) (hlevel : ∀ i,level i=level 0) :
    (∀ i r,(inOrder forward ((T 0).leafList (level 0)))[i]?=some r →
      (iteration T io forward bufferSize iterator i).1=.ok ((T 0).found bufferSize r)) ∧
    (iteration T io forward bufferSize iterator ((T 0).leafList (level 0)).length).1 =
      .error (endError forward ((T 0).leafList (level 0))) := by
  have hv := visits_static hw forward hT hlevel
  have hsome : ∀ i<((T 0).leafList (level 0)).length,(visits T level forward i).isSome := by
    intro i hi
    rw [hv,getElem?_eq_getElem (by rwa [length_inOrder]),isSome_some]
  constructor
  · intro i r hr
    have hi : i<((T 0).leafList (level 0)).length := by
      rw [←length_inOrder forward]
      exact (List.getElem?_eq_some_iff.mp hr).1
    obtain ⟨⟨e,_,_,heq⟩,_⟩ := iteration_eq hw hfmt hio forward bufferSize iterator
      (fun j hj => hsome j (hj.trans hi))
    rw [heq,hv,hr,(hfmt i).found_eq.symm]
    rfl
  · obtain ⟨⟨e,he,hne,heq⟩,_⟩ := iteration_eq hw hfmt hio forward bufferSize iterator hsome
    rw [heq,hv,getElem?_eq_none (by rw [length_inOrder]),foundOr]
    generalize hn : ((T 0).leafList (level 0)).length=n at he hne
    rw [hT n,hlevel n] at he hne
    by_cases h0 : n=0
    · rcases he with rfl | rfl
      · rw [endError,if_pos (Or.inr (length_eq_zero_iff.mp (hn.trans h0)))]
      · rfl
    · rw [hne h0]

lemma iteration_ascending {m : ℕ}
    (hm : ∀ i < m,∃ f,(iteration T io forward bufferSize iterator i).1=.ok f) {i j : ℕ}
    {f g : Found} (hij : i<j) (hj : j < m)
    (hf : (iteration T io forward bufferSize iterator i).1=.ok f)
    (hg : (iteration T io forward bufferSize iterator j).1=.ok g) :
    (T 0).order forward f.key g.key=.lt := by
  have := (hw 0).order_trans forward
  have hv := visits_of_ok hw hfmt hio forward bufferSize iterator hm
  have hsweep := sweep_visits hfmt forward fun i hi => (hv i hi).imp fun _ h => h.1
  have hlt := hsweep.ascending hij hj
  obtain ⟨r,hr,hri⟩ := hv i (by omega)
  obtain ⟨s,hs,hsj⟩ := hv j hj
  rw [hf,Except.ok.injEq] at hri
  rw [hg,Except.ok.injEq] at hsj
  simp only [hr,hs,getD_some] at hlt
  rw [hri,hsj]
  exact hlt

lemma iteration_mem {m : ℕ}
    (hm : ∀ i < m,∃ f,(iteration T io forward bufferSize iterator i).1=.ok f) {i : ℕ}
    (hi : i < m) : ∃ r∈(T i).leafList (level i),
      (iteration T io forward bufferSize iterator i).1=.ok ((T 0).found bufferSize r) := by
  obtain ⟨r,hr,hok⟩ := visits_of_ok hw hfmt hio forward bufferSize iterator hm i hi
  have hmem : r∈inOrder forward ((T i).leafList (level i)) → r∈(T i).leafList (level i) :=
    mem_inOrder.mp
  refine ⟨r,hmem ?_,hok⟩
  cases i with
  | zero => exact mem_of_mem_head? hr
  | succ i =>
    rw [visits,bind_eq_some_iff] at hr
    obtain ⟨s,_,hs⟩ := hr
    exact (above_mem hs).1

lemma iteration_exactly_once {m : ℕ}
    (hm : ∀ i < m,∃ f,(iteration T io forward bufferSize iterator i).1=.ok f) {e : BTErr}
    (he : (iteration T io forward bufferSize iterator m).1=.error e) {r : Record}
    (hr : ∀ i ≤ m,r∈(T i).leafList (level i)) :
    ∃! i,i < m ∧ (iteration T io forward bufferSize iterator i).1 =
      .ok ((T 0).found bufferSize r) := by
  have := (hw 0).order_trans forward
  have hv := visits_of_ok hw hfmt hio forward bufferSize iterator hm
  have hsweep := sweep_visits hfmt forward fun i hi => (hv i hi).imp fun _ h => h.1
  have hasc : ∀ i,Ascending ((T 0).order forward) (recordKey (T 0).toBTreeControlBlock)
      (inOrder forward ((T i).leafList (level i))) := by
    intro i
    rw [←(hfmt i).order_eq,←(hfmt i).recordKey_eq]
    exact (hw i).ascending_inOrder forward
  obtain ⟨⟨_,_,_,heq⟩,_⟩ := iteration_eq hw hfmt hio forward bufferSize iterator
    fun i hi => isSome_iff_exists.mpr ((hv i hi).imp fun _ h => h.1)
  have hnone : visits T level forward m=none := by
    cases hvm : visits T level forward m with
    | none => rfl
    | some s =>
      rw [he,hvm] at heq
      cases heq
  have hend : ∀ s∈inOrder forward ((T m).leafList (level m)),m≠0 ∧
      (T 0).order forward (recordKey (T 0).toBTreeControlBlock
        ((visits T level forward (m-1)).getD []))
        (recordKey (T 0).toBTreeControlBlock s)≠.lt := by
    intro s hs
    cases m with
    | zero =>
      rw [visits,head?_eq_none_iff] at hnone
      simp [hnone] at hs
    | succ k =>
      obtain ⟨q,hq,_⟩ := hv k (by omega)
      rw [visits,hq,bind_some,(hfmt (k+1)).recordKey_eq,(hfmt (k+1)).order_eq] at hnone
      refine ⟨by omega,?_⟩
      rw [Nat.add_sub_cancel,hq,getD_some]
      exact above_eq_none hnone hs
  obtain ⟨i,⟨hi,hvi⟩,_⟩ := hsweep.exactly_once hasc hend
    (fun i hi => mem_inOrder.mpr (hr i hi))
  obtain ⟨s,hs,hok⟩ := hv i hi
  rw [hs,getD_some] at hvi
  subst hvi
  refine ⟨i,⟨hi,hok⟩,?_⟩
  -- two steps with the same record would have keys in strict order
  rintro j ⟨hj,hokj⟩
  have hirr : ∀ k : Key,(T 0).order forward k k≠.lt := fun k h => (cmp_ne_of_lt h).1 h
  rcases lt_trichotomy j i with hji | rfl | hij
  · exact absurd (iteration_ascending hw hfmt hio forward bufferSize iterator hm hji hi hokj hok)
      (hirr _)
  · rfl
  · exact absurd (iteration_ascending hw hfmt hio forward bufferSize iterator hm hij hj hok hokj)
      (hirr _)

/-- An iteration over an unchanging tree returns its leaf records in order, each once, and then
an error. Over a changing tree it goes strictly up (or down), and when it ends it has
returned each record that was there all the time exactly once. -/
theorem iteration_correct : ((∀ i,T i=T 0 ∧ level i=level 0) →
      (∀ i r,(inOrder forward ((T 0).leafList (level 0)))[i]?=some r →
        (iteration T io forward bufferSize iterator i).1=.ok ((T 0).found bufferSize r)) ∧
      (iteration T io forward bufferSize iterator ((T 0).leafList (level 0)).length).1 =
        .error (endError forward ((T 0).leafList (level 0)))) ∧
    ∀ m,(∀ i < m,∃ f,(iteration T io forward bufferSize iterator i).1=.ok f) →
      (∀ i < m,∃ r∈(T i).leafList (level i),
        (iteration T io forward bufferSize iterator i).1=.ok ((T 0).found bufferSize r)) ∧
      (∀ i j f g,i<j → j < m → (iteration T io forward bufferSize iterator i).1=.ok f →
        (iteration T io forward bufferSize iterator j).1=.ok g →
        (T 0).order forward f.key g.key=.lt) ∧
      ∀ e,(iteration T io forward bufferSize iterator m).1=.error e →
        (e=.fsBTRecordNotFoundErr ∨ forward=false ∧ e=.fsBTStartOfIterationErr) ∧
        ∀ r,(∀ i ≤ m,r∈(T i).leafList (level i)) →
          ∃! i,i < m ∧ (iteration T io forward bufferSize iterator i).1 =
            .ok ((T 0).found bufferSize r) := by
  refine ⟨fun h => ?_,fun m hm => ⟨fun i hi => ?_,?_,fun e he => ⟨?_,fun r hr => ?_⟩⟩⟩
  · exact iteration_static hw hfmt hio forward bufferSize iterator (fun i => (h i).1)
      (fun i => (h i).2)
  · exact iteration_mem hw hfmt hio forward bufferSize iterator hm hi
  · exact fun i j f g => iteration_ascending hw hfmt hio forward bufferSize iterator hm
  · have hv := visits_of_ok hw hfmt hio forward bufferSize iterator hm
    obtain ⟨⟨e',he',_,heq⟩,_⟩ := iteration_eq hw hfmt hio forward bufferSize iterator
      fun i hi => isSome_iff_exists.mpr ((hv i hi).imp fun _ h => h.1)
    have hee : e=e' := by
      rw [he] at heq
      cases hvm : visits T level forward m with
      | none =>
        rw [hvm] at heq
        cases heq
        rfl
      | some s =>
        rw [hvm] at heq
        cases heq
    rcases he' with rfl | rfl
    · exact Or.inl hee
    · rw [hee]
      exact endError_cases _ _
  · exact iteration_exactly_once hw hfmt hio forward bufferSize iterator hm he hr

end

theorem iteration_correct_sampleTree :
    (iteration (fun _ => sampleTree) (fun _ _ => .fromDisk) true none ⟨⟨0,0,0⟩,0,0,[]⟩ 1).1 =
      .ok (sampleTree.found none [1,20,0,8]) :=
  have hio : ∀ i n : ℕ,(fun _ _ : ℕ => BlockRead.fromDisk) i n≠.failed := by simp
  have hw : ∀ i : ℕ,((fun _ : ℕ => sampleTree) i).WellFormed ((fun _ : ℕ => sampleLevel) i) :=
    fun _ => sampleTree_wellFormed
  ((iteration_correct hw (fun _ => ⟨rfl,rfl⟩) hio true none ⟨⟨0,0,0⟩,0,0,[]⟩).1
    (fun _ => ⟨rfl,rfl⟩)).1 1 [1,20,0,8] rfl

end BTree
end Darwin.Hfs
