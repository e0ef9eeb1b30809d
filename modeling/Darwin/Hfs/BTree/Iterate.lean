import Darwin.Hfs.BTree.Position

/-! `BTSearchRecord` and `BTIterateRecord` on a well-formed tree, in terms of the ordered
list of its leaf records. -/
open List Option
namespace Darwin.Hfs
open Lib.KeyOrder

namespace BTree

def Fetches : Except BTErr (ℕ × Node × ℕ) → Except BTErr Record → Prop
  | .error e,.error e' => e=e'
  | .ok (_,node,index),.ok r => node.records[index]?=some r
  | _,_ => False

def orError (e : BTErr) : Option Record → Except BTErr Record
  | some r => .ok r
  | none => .error e

namespace AtRank
variable {t : BTree} {level : ℕ → List ℕ} {key : Key} {p : IteratorPosition}
  {pre post : List ℕ} {n : ℕ}

lemma cut_leaves (h : t.AtRank (level 1) key p pre n post) {a c : List Record}
    {o : Option Record} (hc : t.CutRecords key (t.nodes n).records a o c) :
    t.CutRecords key (t.recordsOf (level 1)) (t.recordsOf pre++a) o (c++t.recordsOf post) := by
  rw [h.split,recordsOf_append,recordsOf_cons]
  exact hc.extend h.below h.above

end AtRank

namespace WellFormed
variable {t : BTree} {level : ℕ → List ℕ} (hw : t.WellFormed level)
include hw

variable {io : ℕ → BlockRead} {p : IteratorPosition} {pre post : List ℕ}

lemma firstOfRight_spec (hio : ∀ n,io n≠.failed) {key : Key}
    {n : ℕ}
    (h : t.AtRank (level 1) key p pre n post) :
    Fetches (t.firstOfRight io p) (orError .fsBTEndOfIterationErr (t.recordsOf post).head?) := by
  have hf := ((h.split▸hw.chained 1).split).2
  have hright := h.right
  cases post with
  | nil =>
    cases hr : p.right with
    | some r => simpa using hright r hr
    | none =>
      rw [headD_nil] at hf
      simp only [firstOfRight,hr,h.middle,hf,if_true]
      rfl
  | cons m post =>
    have hm : m∈level 1 := by simp [h.split]
    obtain ⟨r,l,hrec⟩ := exists_cons_of_ne_nil (hw.nonempty 1 m hm)
    have hhead : (t.recordsOf (m::post)).head?=some r := by simp [hrec]
    rw [headD_cons] at hf
    rw [hhead]
    cases hr : p.right with
    | some right =>
      obtain ⟨m',hm',rfl⟩ := hright right hr
      simp only [head?_cons,mem_def,some.injEq] at hm'
      subst hm'
      simp [firstOfRight,hr,Fetches,orError,hrec]
    | none =>
      simp only [firstOfRight,hr,h.middle,hf,if_neg (hw.pos 1 m hm),hw.getNode_level hm (hio m)]
      simp [Fetches,orError,hrec]

lemma lastOfLeft_spec (hio : ∀ n,io n≠.failed) {key : Key}
    {n : ℕ}
    (h : t.AtRank (level 1) key p pre n post) : Fetches (t.lastOfLeft io p)
      (orError .fsBTStartOfIterationErr (t.recordsOf pre).getLast?) := by
  have hb := ((h.split▸hw.chained 1).split).1
  have hleft := h.left
  rcases eq_nil_or_concat' pre with rfl | ⟨pre,m,rfl⟩
  · cases hl : p.left with
    | some l => simpa using hleft l hl
    | none =>
      rw [getLastD_nil] at hb
      simp only [lastOfLeft,hl,h.middle,hb,if_true]
      rfl
  · have hm : m∈level 1 := by simp [h.split]
    obtain ⟨l,r,hrec⟩ := eq_nil_or_concat' _ |>.resolve_left (hw.nonempty 1 m hm)
    have hlast : (t.recordsOf (pre++[m])).getLast?=some r := by simp [hrec]
    have hget : (t.nodes m).records[(t.nodes m).numRecords-1]?=some r := by
      simp [Node.numRecords,hrec]
    rw [getLastD_concat] at hb
    rw [hlast]
    cases hl : p.left with
    | some left =>
      obtain ⟨m',hm',rfl⟩ := hleft left hl
      simp only [getLast?_concat,mem_def,some.injEq] at hm'
      subst hm'
      simpa only [lastOfLeft,hl,Fetches,orError] using hget
    | none =>
      simp only [lastOfLeft,hl,h.middle,hb,if_neg (hw.pos 1 m hm),hw.getNode_level hm (hio m)]
      exact hget

lemma nextRecord_spec (hio : ∀ n,io n≠.failed) {key : Key}
    {n : ℕ}
    (h : t.AtRank (level 1) key p pre n post) :
    Fetches (t.nextRecord io p) (orError .fsBTEndOfIterationErr
      (above t.keyCompareProc (recordKey t.toBTreeControlBlock) key (t.recordsOf (level 1)))) := by
  have := hw.compare
  obtain ⟨a,o,c,hcut,hidx,hfound⟩ := h.cut
  have hnum : p.middle.numRecords=a.length+o.toList.length+c.length := by
    rw [h.middle,Node.numRecords,hcut.eq]
    simp [Nat.add_assoc]
  have hright := hw.firstOfRight_spec hio h
  rw [(h.cut_leaves hcut).above_eq,nextRecord,hfound,hidx,hnum]
  cases c with
  | cons r c =>
    have hr := hcut.getElem?_succ_rank
    rw [←h.middle] at hr
    cases o with
    | none =>
      rw [if_neg (by simp),if_pos (by simp)]
      exact hr
    | some s =>
      rw [if_neg (by simp),if_neg (by simp),if_pos (by simp)]
      exact hr
  | nil =>
    have hmore : ¬a.length+1<a.length+o.toList.length+([] : List Record).length := by
      cases o <;> simp
    rw [nil_append]
    by_cases hend : o=none ∧ p.middle.fLink=0
    · -- the last leaf
      obtain ⟨rfl,hf⟩ := hend
      rw [if_pos (by simp [hf])]
      have hlink := ((h.split▸hw.chained 1).split).2
      rw [h.middle,hlink] at hf
      cases post with
      | nil => rfl
      | cons m post => exact absurd hf (hw.pos 1 m (by simp [h.split]))
    · rw [if_neg (by cases o <;> simp_all),if_neg (by cases o <;> simp),if_neg hmore]
      exact hright

lemma prevRecord_spec (hio : ∀ n,io n≠.failed) {key : Key}
    {n : ℕ}
    (h : t.AtRank (level 1) key p pre n post) :
    Fetches (t.prevRecord io p) (orError .fsBTStartOfIterationErr
      (below t.keyCompareProc (recordKey t.toBTreeControlBlock) key (t.recordsOf (level 1)))) := by
  have := hw.compare
  obtain ⟨a,o,c,hcut,hidx,hfound⟩ := h.cut
  have hleft := hw.lastOfLeft_spec hio h
  rw [(h.cut_leaves hcut).below_eq,prevRecord,hidx]
  rcases eq_nil_or_concat' a with rfl | ⟨a,r,rfl⟩
  · rw [if_neg (by simp),append_nil]
    exact hleft
  · rw [if_pos (by simp),←append_assoc,getLast?_concat]
    simp [Fetches,orError,h.middle,hcut.eq]

lemma leaves_ne_nil (hd : t.treeDepth≠0) : level 1≠[] := by
  have hio : ∀ n : ℕ,(fun _ : ℕ => BlockRead.cached) n≠.failed := by simp
  obtain ⟨_,pre,post,_,hc,_⟩ := hw.searchTree_spec hio hd []
  simp [hc.1]

lemma leaves_eq_nil (hd : t.treeDepth=0) : level 1=[] := hw.beyond 1 (by omega)

lemma endRecord_spec (hio : ∀ n,io n≠.failed) (first : Bool) :
    Fetches (t.endRecord io first) (orError .fsBTEmptyErr
      (if first then (t.recordsOf (level 1)).head? else (t.recordsOf (level 1)).getLast?)) := by
  have hpos := hw.pos 1
  have hne := hw.nonempty 1
  have hfirst := hw.firstLeaf
  have hlast := hw.lastLeaf
  cases hl : level 1 with
  | nil =>
    rw [hl] at hfirst hlast
    cases first <;> simp [endRecord,hfirst,hlast,Fetches,orError]
  | cons m rest =>
    obtain ⟨pre,k,hk⟩ := eq_nil_or_concat' (m::rest) |>.resolve_left (by simp)
    have hm : m∈level 1 := by simp [hl]
    have hkm : k∈level 1 := by rw [hl,hk]; simp
    obtain ⟨r,l,hrec⟩ := exists_cons_of_ne_nil (hne m hm)
    obtain ⟨l',r',hrec'⟩ := eq_nil_or_concat' _ |>.resolve_left (hne k hkm)
    cases first with
    | true =>
      rw [hl,headD_cons] at hfirst
      simp only [endRecord,hfirst,if_true,if_neg (hpos m hm),hw.getNode_level hm (hio m),
        hw.isLeafWithRecords_leaf hm,Bool.true_eq_false,if_false]
      simp [Fetches,orError,hrec]
    | false =>
      rw [hl,hk,getLastD_concat] at hlast
      simp only [endRecord,hlast,Bool.false_eq_true,if_false,if_neg (hpos k hkm),
        hw.getNode_level hkm (hio k),hw.isLeafWithRecords_leaf hkm,Bool.true_eq_false,hk]
      simp [Fetches,orError,Node.numRecords,hrec']

end WellFormed

def found (t : BTree) (bufferSize : Option ℕ) (r : Record) : Found :=
  copyRecord bufferSize (recordKey t.toBTreeControlBlock r) (recordData t.toBTreeControlBlock r)

def foundOr (t : BTree) (bufferSize : Option ℕ) (e : BTErr) : Option Record → Except BTErr Found
  | some r => .ok (t.found bufferSize r)
  | none => .error e

lemma btIterateRecord_of_fetches {t : BTree} {io : ℕ → BlockRead}
    {operation : BTreeIterationOperation} {iterator : BTreeIterator} {e : BTErr}
    {o : Option Record} (h : Fetches (t.moveTo io operation (some iterator)) (orError e o))
    (bufferSize : Option ℕ) : (t.btIterateRecord io operation (some iterator) bufferSize).1 =
      t.foundOr bufferSize (iterationError e) o ∧
    ∃ it,(t.btIterateRecord io operation (some iterator) bufferSize).2=some it ∧
      ∀ r∈o,it.key=recordKey t.toBTreeControlBlock r := by
  unfold btIterateRecord
  cases hm : t.moveTo io operation (some iterator) with
  | error e' =>
    rw [hm] at h
    cases o with
    | none =>
      cases h
      exact ⟨rfl,_,rfl,by simp⟩
    | some r => exact absurd h id
  | ok place =>
    obtain ⟨nodeNum,node,index⟩ := place
    rw [hm] at h
    cases o with
    | none => exact absurd h id
    | some r =>
      have hr : node.records[index]?=some r := h
      obtain ⟨hlt,_⟩ := List.getElem?_eq_some_iff.mp hr
      have hget : node.records.getD index []=r := by rw [getD_eq_getElem?_getD,hr,getD_some]
      simp only [getRecordByIndex,Node.numRecords,if_neg (Nat.not_le.mpr hlt),hget]
      refine ⟨rfl,_,rfl,?_⟩
      rintro r' ⟨⟩
      rfl

abbrev leafList (t : BTree) (level : ℕ → List ℕ) : List Record := t.recordsOf (level 1)

/-- The key lies between the last record of a leaf and the first one of the next. -/
def BetweenLeaves (t : BTree) (level : ℕ → List ℕ) (key : Key) : Prop :=
  ∃ pre m n post,level 1=pre++m::n::post ∧ (∀ r∈(t.nodes m).records,
      t.keyCompareProc (recordKey t.toBTreeControlBlock r) key=.lt) ∧
    ∀ r∈(t.nodes n).records,t.keyCompareProc key (recordKey t.toBTreeControlBlock r)=.lt

lemma AtRank.betweenLeaves_of_atEnd {t : BTree} {level : ℕ → List ℕ} {key : Key}
    {p : IteratorPosition} {pre post : List ℕ} {n : ℕ}
    (h : t.AtRank (level 1) key p pre n post) (hpost : post≠[]) {a : List Record}
    (hc : t.CutRecords key (t.nodes n).records a none []) : t.BetweenLeaves level key := by
  obtain ⟨m,rest,rfl⟩ := exists_cons_of_ne_nil hpost
  refine ⟨pre,n,m,rest,h.split,?_,?_⟩
  · intro r hr
    rw [hc.eq] at hr
    exact hc.lt r (by simpa using hr)
  · exact fun r hr => h.above r (recordsOf_subset (by simp) hr)

namespace WellFormed
variable {t : BTree} {level : ℕ → List ℕ} (hw : t.WellFormed level)
include hw

variable {io : ℕ → BlockRead}

lemma findIteratorPosition_empty (hio : ∀ n,io n≠.failed)
    (hd : t.treeDepth=0) (iterator : BTreeIterator) :
    t.findIteratorPosition io (some iterator)=.error .fsBTEmptyErr := by
  have htree : t.searchTheTree io iterator.key=.error .fsBTEmptyErr := by
    rw [searchTheTree,searchTree,if_pos hd]
  rw [findIteratorPosition]
  by_cases hhint : isItAHint iterator=false
  · rwa [if_pos hhint]
  rw [if_neg hhint]
  rcases getNode_cases (t := t) iterator.hint.nodeNum (hio _) with he | ⟨hlt,hok⟩
  · rwa [he]
  rw [hok]
  simp only
  by_cases hleaf : isLeafWithRecords (t.nodes iterator.hint.nodeNum)=false
  · rwa [if_pos hleaf]
  · simp only [isLeafWithRecords,decide_eq_false_iff_not,not_not] at hleaf
    have := hw.stray _ hlt hleaf.1 (length_pos_iff.mp hleaf.2)
    rw [hw.leaves_eq_nil hd] at this
    simp at this

lemma leafList_eq_nil_iff : t.leafList level=[] ↔ t.treeDepth=0 := by
  constructor
  · intro h
    by_contra hd
    obtain ⟨m,rest,hl⟩ := exists_cons_of_ne_nil (hw.leaves_ne_nil hd)
    have hne := hw.nonempty 1 m (by simp [hl])
    rw [leafList,hl,recordsOf_cons] at h
    exact hne (append_eq_nil_iff.mp h).1
  · intro hd
    rw [leafList,hw.leaves_eq_nil hd,recordsOf_nil]

lemma first_spec (hio : ∀ n,io n≠.failed)
    (iterator : Option BTreeIterator) : Fetches (t.moveTo io .kBTreeFirstRecord iterator)
      (orError .fsBTEmptyErr (t.leafList level).head?) := hw.endRecord_spec hio true

lemma last_spec (hio : ∀ n,io n≠.failed)
    (iterator : Option BTreeIterator) : Fetches (t.moveTo io .kBTreeLastRecord iterator)
      (orError .fsBTEmptyErr (t.leafList level).getLast?) := hw.endRecord_spec hio false

lemma next_spec (hio : ∀ n,io n≠.failed) (iterator : BTreeIterator) :
    Fetches (t.moveTo io .kBTreeNextRecord (some iterator))
      (orError (if t.leafList level=[] then .fsBTEmptyErr else .fsBTEndOfIterationErr)
        (above t.keyCompareProc (recordKey t.toBTreeControlBlock) iterator.key
          (t.leafList level))) := by
  by_cases hd : t.treeDepth=0
  · rw [if_pos (hw.leafList_eq_nil_iff.mpr hd),hw.leafList_eq_nil_iff.mpr hd]
    simp only [moveTo,hw.findIteratorPosition_empty hio hd]
    rfl
  · rw [if_neg (fun h => hd (hw.leafList_eq_nil_iff.mp h))]
    obtain ⟨p,pre,n,post,hp,hat⟩ := hw.findIteratorPosition_spec hio hd iterator
    simp only [moveTo,hp]
    exact hw.nextRecord_spec hio hat

lemma prev_spec (hio : ∀ n,io n≠.failed) (iterator : BTreeIterator) :
    Fetches (t.moveTo io .kBTreePrevRecord (some iterator))
      (orError (if t.leafList level=[] then .fsBTEmptyErr else .fsBTStartOfIterationErr)
        (below t.keyCompareProc (recordKey t.toBTreeControlBlock) iterator.key
          (t.leafList level))) := by
  by_cases hd : t.treeDepth=0
  · rw [if_pos (hw.leafList_eq_nil_iff.mpr hd),hw.leafList_eq_nil_iff.mpr hd]
    simp only [moveTo,hw.findIteratorPosition_empty hio hd]
    rfl
  · rw [if_neg (fun h => hd (hw.leafList_eq_nil_iff.mp h))]
    obtain ⟨p,pre,n,post,hp,hat⟩ := hw.findIteratorPosition_spec hio hd iterator
    simp only [moveTo,hp]
    exact hw.prevRecord_spec hio hat

/-- `kBTreeCurrentRecord` moves to the first record not below the key, except that it may
fail between two leaves. -/
theorem current_spec (hio : ∀ n,io n≠.failed) (iterator : BTreeIterator)
    (hgap : ¬t.BetweenLeaves level iterator.key) :
    Fetches (t.moveTo io .kBTreeCurrentRecord (some iterator))
      (orError (if t.leafList level=[] then .fsBTEmptyErr else .fsBTEndOfIterationErr)
        ((find t.keyCompareProc (recordKey t.toBTreeControlBlock) iterator.key
          (t.leafList level)).or
        (above t.keyCompareProc (recordKey t.toBTreeControlBlock) iterator.key
          (t.leafList level)))) := by
  have := hw.compare
  by_cases hd : t.treeDepth=0
  · rw [if_pos (hw.leafList_eq_nil_iff.mpr hd),hw.leafList_eq_nil_iff.mpr hd]
    simp only [moveTo,hw.findIteratorPosition_empty hio hd]
    rfl
  rw [if_neg (fun h => hd (hw.leafList_eq_nil_iff.mp h))]
  obtain ⟨p,pre,n,post,hp,hat⟩ := hw.findIteratorPosition_spec hio hd iterator
  obtain ⟨a,o,c,hcut,hidx,hfound⟩ := hat.cut
  have hnum : p.middle.numRecords=a.length+o.toList.length+c.length := by
    rw [hat.middle,Node.numRecords,hcut.eq]
    simp [Nat.add_assoc]
  have hr := hcut.getElem?_rank
  rw [←hat.middle,←hidx] at hr
  simp only [moveTo,hp]
  rw [(hat.cut_leaves hcut).find_eq,(hat.cut_leaves hcut).above_eq,currentRecord,hfound,hnum,hidx]
  cases o with
  | some s =>
    rw [if_neg (by simp)]
    exact hidx▸hr
  | none =>
    cases c with
    | cons r c =>
      rw [if_neg (by simp)]
      exact hidx▸hr
    | nil =>
      rw [if_pos (by simp)]
      cases post with
      | nil => rfl
      | cons m post => exact absurd (hat.betweenLeaves_of_atEnd (by simp) hcut) hgap

end WellFormed

end BTree
end Darwin.Hfs
