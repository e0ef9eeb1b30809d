import Darwin.Hfs.BTree.Iterate

/-! Hints only save time, with one exception: asked for the current record, a key that
falls between two leaves is answered from the right leaf if the hint leads there, and
not at all from the end of the left one. -/
open List Option
namespace Darwin.Hfs
open Lib.KeyOrder

namespace BTree

lemma WellFormed.find_of_leaf {t : BTree} {level : ℕ → List ℕ} (hw : t.WellFormed level) {n : ℕ}
    (hn : n∈level 1) {key : Key} {a c : List Record} {r : Record}
    (hc : t.CutRecords key (t.nodes n).records a (some r) c) :
    find t.keyCompareProc (recordKey t.toBTreeControlBlock) key (t.leafList level)=some r := by
  have := hw.compare
  obtain ⟨pre,post,heq⟩ := append_of_mem hn
  have hall : t.CutRecords key (t.leafList level) (t.recordsOf pre++a) (some r)
      (c++t.recordsOf post) := by
    rw [leafList,heq,recordsOf_append,recordsOf_cons]
    exact hc.extend (hw.below_of_cut heq hc (by simp)) (hw.above_of_cut heq hc (by simp))
  exact hall.find_eq

namespace WellFormed
variable {t : BTree} {level : ℕ → List ℕ} (hw : t.WellFormed level)
include hw

variable {io : ℕ → BlockRead}

lemma searchHintNode_spec (hio : ∀ n,io n≠.failed) (key : Key) (n : ℕ)
    {node : Node} {index : ℕ} (h : t.searchHintNode io key n=some (node,index)) :
    ∃ r,node.records[index]?=some r ∧
      find t.keyCompareProc (recordKey t.toBTreeControlBlock) key (t.leafList level)=some r := by
  have := hw.compare
  rw [searchHintNode] at h
  rcases getNode_cases (t := t) n (hio n) with he | ⟨hlt,hok⟩
  · simp [he] at h
  rw [hok] at h
  simp only at h
  by_cases hleaf : isLeafWithRecords (t.nodes n)=true
  · have hmem : n∈level 1 := by
      simp only [isLeafWithRecords,decide_eq_true_eq] at hleaf
      exact hw.stray n hlt hleaf.1 (length_pos_iff.mp hleaf.2)
    obtain ⟨a,o,c,hcut⟩ := (hw.ascending_node hmem).cut key
    rw [if_pos hleaf,hw.searchNode_leaf hmem hcut] at h
    cases o with
    | none => simp at h
    | some r =>
      simp only [isSome_some,if_true,some.injEq,Prod.mk.injEq] at h
      obtain ⟨rfl,rfl⟩ := h
      exact ⟨r,hcut.getElem?_rank,hw.find_of_leaf hmem hcut⟩
  · rw [if_neg hleaf] at h
    cases h

lemma locateRecord_spec (hio : ∀ n,io n≠.failed) (unset : ℕ)
    (iterator : BTreeIterator) (heuristicHint : ℕ) :
    (t.locateRecord io unset iterator heuristicHint=.error .fsBTEmptyErr ∧
      t.leafList level=[]) ∨ ∃ nodeNum node index foundRecord,
      t.locateRecord io unset iterator heuristicHint=.ok (nodeNum,node,index,foundRecord) ∧
      foundRecord=(find t.keyCompareProc (recordKey t.toBTreeControlBlock) iterator.key
        (t.leafList level)).isSome ∧
      ∀ r∈find t.keyCompareProc (recordKey t.toBTreeControlBlock) iterator.key
        (t.leafList level),node.records[index]?=some r := by
  have := hw.compare
  have hgot : ∀ n node index,t.searchHintNode io iterator.key n=some (node,index) →
      true=(find t.keyCompareProc (recordKey t.toBTreeControlBlock) iterator.key
        (t.leafList level)).isSome ∧
      ∀ r∈find t.keyCompareProc (recordKey t.toBTreeControlBlock) iterator.key
        (t.leafList level),node.records[index]?=some r := by
    intro n node index h
    obtain ⟨r,hr,hfind⟩ := hw.searchHintNode_spec hio iterator.key n h
    rw [hfind]
    exact ⟨rfl,fun s hs => by cases hs; exact hr⟩
  simp only [locateRecord]
  generalize hnum : (if isItAHint iterator=true then iterator.hint.nodeNum else unset)=nodeNum
  generalize hhinted : (if isItAHint iterator=true then
    t.searchHintNode io iterator.key nodeNum else none)=hinted
  generalize hguessed : (if heuristicHint≠kInvalidMRUCacheKey ∧ nodeNum≠heuristicHint then
    t.searchHintNode io iterator.key heuristicHint else none)=guessed
  cases hinted with
  | some place =>
    obtain ⟨node,index⟩ := place
    have h : t.searchHintNode io iterator.key nodeNum=some (node,index) := by
      split_ifs at hhinted
      exact hhinted
    exact Or.inr ⟨_,_,_,_,rfl,hgot _ _ _ h⟩
  | none =>
  cases guessed with
  | some place =>
    obtain ⟨node,index⟩ := place
    have h : t.searchHintNode io iterator.key heuristicHint=some (node,index) := by
      split_ifs at hguessed
      exact hguessed
    exact Or.inr ⟨_,_,_,_,rfl,hgot _ _ _ h⟩
  | none =>
  by_cases hd : t.treeDepth=0
  · have he : t.searchTree io iterator.key=.error .fsBTEmptyErr := by rw [searchTree,if_pos hd]
    exact Or.inl ⟨by simp only [he],hw.leafList_eq_nil_iff.mpr hd⟩
  · obtain ⟨p,pre,n,post,hp,hat,_⟩ := hw.searchTheTree_spec hio hd iterator.key
    obtain ⟨a,o,c,hcut,hidx,hfound⟩ := hat.cut
    rw [searchTheTree] at hp
    cases hs : t.searchTree io iterator.key with
    | error e => simp [hs] at hp
    | ok s =>
      simp only [hs,Except.ok.injEq] at hp
      subst hp
      refine Or.inr ⟨_,_,_,_,rfl,?_⟩
      rw [(hat.cut_leaves hcut).find_eq]
      refine ⟨hfound,?_⟩
      rintro r ⟨⟩
      have hmid : s.node=t.nodes n := hat.middle
      have hi : s.index=a.length := hidx
      rw [hmid,hi]
      exact hcut.getElem?_rank

lemma btSearchRecord_eq (hio : ∀ n,io n≠.failed) (unset : ℕ)
    (iterator : BTreeIterator) (heuristicHint : ℕ) (bufferSize : Option ℕ)
    (result : BTreeIterator) :
    (t.btSearchRecord io unset iterator heuristicHint bufferSize result).1 =
      t.foundOr bufferSize .fsBTRecordNotFoundErr
        (find t.keyCompareProc (recordKey t.toBTreeControlBlock) iterator.key
          (t.leafList level)) := by
  rw [btSearchRecord]
  rcases hw.locateRecord_spec hio unset iterator heuristicHint with
    ⟨he,hnil⟩ | ⟨nodeNum,node,index,foundRecord,hok,hfound,hr⟩
  · rw [he,hnil]
    rfl
  · rw [hok]
    simp only
    cases hf : find t.keyCompareProc (recordKey t.toBTreeControlBlock) iterator.key
        (t.leafList level) with
    | none =>
      rw [hf] at hfound
      rw [hfound]
      rfl
    | some r =>
      rw [hf] at hfound hr
      have hget : node.records.getD index []=r := by rw [getD_eq_getElem?_getD,hr r rfl,getD_some]
      rw [hfound,if_pos (isSome_some),hget]
      rfl

lemma covers_left {key : Key} {pre pre' post post' : List ℕ} {m n k : ℕ}
    (heq : level 1=pre++m::n::post)
    (hm : ∀ r∈(t.nodes m).records,t.keyCompareProc (recordKey t.toBTreeControlBlock r) key=.lt)
    (hn : ∀ r∈(t.nodes n).records,t.keyCompareProc key (recordKey t.toBTreeControlBlock r)=.lt)
    (hc : t.Covers key (level 1) pre' k post')
    (hbelow : ∀ r∈t.recordsOf pre',
      t.keyCompareProc (recordKey t.toBTreeControlBlock r) key=.lt) : k=m := by
  have := hw.compare
  obtain ⟨heq',hk,hpost⟩ := hc
  obtain ⟨r,l,hr⟩ := exists_cons_of_ne_nil (hw.nonempty 1 m (by simp [heq]))
  obtain ⟨s,l',hs⟩ := exists_cons_of_ne_nil (hw.nonempty 1 n (by simp [heq]))
  have hmr := hm r (by simp [hr])
  have hns := hn s (by simp [hs])
  rw [heq,append_eq_append_iff] at heq'
  rcases heq' with ⟨x,hx,hy⟩ | ⟨x,hx,hy⟩
  · match x,hx,hy with
    | [],_,hy => exact (List.cons.inj hy).1.symm
    | [y],hx,hy =>
      -- the right leaf starts above the key, so it cannot cover it
      simp only [cons_append,nil_append,List.cons.injEq] at hy
      obtain ⟨_,rfl,_⟩ := hy
      rw [firstKey_eq hs] at hk
      exact absurd hns (hk (by simp [hx]))
    | y::z::x,hx,hy =>
      simp only [cons_append,List.cons.injEq] at hy
      obtain ⟨_,rfl,_⟩ := hy
      have := hbelow s (recordsOf_subset (n := n) (by simp [hx]) (by simp [hs]))
      exact absurd hns (cmp_ne_of_lt this).1
  · match x,hx,hy with
    | [],_,hy => exact (List.cons.inj hy).1
    | y::x,_,hy =>
      simp only [cons_append,List.cons.injEq] at hy
      have hmpost := hpost m (by simp [hy.2])
      rw [firstKey_eq hr] at hmpost
      exact absurd hmr (cmp_ne_of_lt hmpost).1

lemma current_betweenLeaves {key : Key} (hgap : t.BetweenLeaves level key) :
    ∃ n,∀ (io : ℕ → BlockRead) (iterator : BTreeIterator),(∀ n,io n≠.failed) →
      iterator.key=key → (iterator.hint.nodeNum=0 →
        t.moveTo io .kBTreeCurrentRecord (some iterator)=.error .fsBTEndOfIterationErr) ∧
      (iterator.hint.nodeNum=n → ∃ r∈(t.nodes n).records,
        Fetches (t.moveTo io .kBTreeCurrentRecord (some iterator)) (.ok r)) := by
  have := hw.compare
  obtain ⟨pre,m,n,post,heq,hm,hn⟩ := hgap
  have hmem : m∈level 1 := by simp [heq]
  have hnem : n∈level 1 := by simp [heq]
  have hd : t.treeDepth≠0 := by
    have := hw.height_le hmem
    omega
  have hcm : t.CutRecords key (t.nodes m).records (t.nodes m).records none [] :=
    ⟨by simp,hm,by simp,by simp⟩
  have hcn : t.CutRecords key (t.nodes n).records [] none (t.nodes n).records :=
    ⟨by simp,by simp,by simp,hn⟩
  obtain ⟨r,l,hr⟩ := exists_cons_of_ne_nil (hw.nonempty 1 n hnem)
  have hmpos := length_pos_iff.mpr (hw.nonempty 1 m hmem)
  have hnpos := length_pos_iff.mpr (hw.nonempty 1 n hnem)
  refine ⟨n,fun io iterator hio hkey => ⟨fun hint => ?_,fun hint => ⟨r,by simp [hr],?_⟩⟩⟩
  · obtain ⟨p,pre',k,post',hp,hat,hcov⟩ := hw.searchTheTree_spec hio hd key
    obtain rfl : k=m := hw.covers_left heq hm hn hcov hat.below
    obtain ⟨a,o,c,hcut,hidx,hfound⟩ := hat.cut
    have hnone : p.foundRecord=false ∧ p.middle.numRecords≤p.index := by
      have h1 := hcut.rank_eq
      have h2 := hcut.present_eq
      rw [hcm.rank_eq] at h1
      rw [hcm.present_eq] at h2
      rw [hfound,←h2,hidx,←h1,hat.middle]
      exact ⟨rfl,le_rfl⟩
    rw [moveTo,findIteratorPosition,if_pos (by simp [isItAHint,hint]),hkey,hp]
    simp only [currentRecord,if_pos hnone]
  · have heq' : level 1=(pre++[m])++n::post := by simp [heq]
    have hb := ((heq'▸hw.chained 1).split).1
    rw [getLastD_concat] at hb
    have hpos : t.positionFromLeft io key n (t.nodes n) =
        .ok ⟨(t.nodes m).fLink,t.nodes n,0,false,some (t.nodes m),none⟩ := by
      rw [positionFromLeft,hb,if_neg (hw.pos 1 m hmem),hw.getNode_level hmem (hio m)]
      simp only [hw.isLeafWithRecords_leaf hmem,hw.searchNode_leaf hmem hcm,Bool.true_eq_false,
        if_false,isSome_none,Bool.false_eq_true]
      rw [if_neg (by omega),if_pos (by simp [Node.numRecords])]
    have hfind : t.findIteratorPosition io (some iterator) =
        .ok ⟨(t.nodes m).fLink,t.nodes n,0,false,some (t.nodes m),none⟩ := by
      rw [findIteratorPosition,if_neg (by simpa [isItAHint,hint] using hw.pos 1 n hnem),hint,hkey,
        hw.getNode_level hnem (hio n)]
      simp only [hw.isLeafWithRecords_leaf hnem,hw.searchNode_leaf hnem hcn,Bool.true_eq_false,
        if_false,isSome_none,Bool.false_eq_true,length_nil,if_true,hpos]
    rw [moveTo,hfind]
    simp only [currentRecord]
    rw [if_neg (by simp [Node.numRecords,hr])]
    simp [Fetches,hr]

end WellFormed

/-- A search and an iteration step give the same result with any hints as with none. -/
def HintFree (t : BTree) (operation : BTreeIterationOperation) (key : Key) : Prop :=
  ∀ (io io' : ℕ → BlockRead) (unset unset' heuristicHint : ℕ) (bufferSize : Option ℕ)
    (iterator result result' : BTreeIterator),
    (∀ n,io n≠.failed) → (∀ n,io' n≠.failed) → iterator.key=key →
    (t.btSearchRecord io unset iterator heuristicHint bufferSize result).1 =
      (t.btSearchRecord io' unset' (btInvalidateHint iterator) kInvalidMRUCacheKey bufferSize
        result').1 ∧ (t.btIterateRecord io operation (some iterator) bufferSize).1 =
      (t.btIterateRecord io' operation (some (btInvalidateHint iterator)) bufferSize).1

/-- Hints make no difference, unless the current record is asked for and its key lies
between two leaves. -/
theorem hintFree_iff {t : BTree} {level : ℕ → List ℕ} (hw : t.WellFormed level)
    (operation : BTreeIterationOperation) (key : Key) : t.HintFree operation key ↔
      ¬(operation=.kBTreeCurrentRecord ∧ t.BetweenLeaves level key) := by
  constructor
  · rintro h ⟨rfl,hgap⟩
    obtain ⟨n,hn⟩ := hw.current_betweenLeaves hgap
    let iterator : BTreeIterator := ⟨⟨0,n,0⟩,0,0,key⟩
    have hcached : ∀ n : ℕ,(fun _ : ℕ => BlockRead.cached) n≠.failed := by simp
    have hsame := (h (fun _ => .cached) (fun _ => .cached) 0 0 0 none iterator iterator iterator
      hcached hcached rfl).2
    obtain ⟨r,_,hr⟩ := (hn _ iterator hcached rfl).2 rfl
    have hnone := (hn _ (btInvalidateHint iterator) hcached rfl).1 rfl
    have hfound := (btIterateRecord_of_fetches (e := .unending) (o := some r) hr none).1
    have hlost := (btIterateRecord_of_fetches (e := .fsBTEndOfIterationErr) (o := none)
      (by rw [hnone]; rfl) none).1
    rw [hfound,hlost] at hsame
    cases hsame
  · intro hop io io' unset unset' heuristicHint bufferSize iterator result result' hio hio' hkey
    refine ⟨?_,?_⟩
    · rw [hw.btSearchRecord_eq hio,hw.btSearchRecord_eq hio']
      rfl
    have hsame : ∀ {e : BTErr} {o : Option Record},
        Fetches (t.moveTo io operation (some iterator)) (orError e o) →
        Fetches (t.moveTo io' operation (some (btInvalidateHint iterator))) (orError e o) →
        (t.btIterateRecord io operation (some iterator) bufferSize).1 =
        (t.btIterateRecord io' operation (some (btInvalidateHint iterator)) bufferSize).1 := by
      intro e o h h'
      rw [(btIterateRecord_of_fetches h bufferSize).1,(btIterateRecord_of_fetches h' bufferSize).1]
    cases operation with
    | kBTreeFirstRecord => exact hsame (hw.first_spec hio _) (hw.first_spec hio' _)
    | kBTreeLastRecord => exact hsame (hw.last_spec hio _) (hw.last_spec hio' _)
    | kBTreeNextRecord => exact hsame (hw.next_spec hio _) (hw.next_spec hio' _)
    | kBTreePrevRecord => exact hsame (hw.prev_spec hio _) (hw.prev_spec hio' _)
    | kBTreeCurrentRecord =>
      have hgap : ¬t.BetweenLeaves level iterator.key := fun h => hop ⟨rfl,hkey▸h⟩
      exact hsame (hw.current_spec hio _ hgap) (hw.current_spec hio' _ hgap)

theorem hintFree_sampleTree : sampleTree.HintFree .kBTreeCurrentRecord [10] ↔
    ¬(BTreeIterationOperation.kBTreeCurrentRecord=.kBTreeCurrentRecord ∧
      sampleTree.BetweenLeaves sampleLevel [10]) :=
  hintFree_iff sampleTree_wellFormed .kBTreeCurrentRecord [10]

/-- The key 15 lies between the two leaves: the current record is found from a hint on the
second leaf and not without it. -/
theorem sampleTree_hint_matters : sampleTree.WellFormed sampleLevel ∧
    (sampleTree.btIterateRecord (fun _ => .cached) .kBTreeCurrentRecord
      (some ⟨⟨0,2,0⟩,0,0,[15]⟩) none).1=.ok ⟨[20],none,2⟩ ∧
    (sampleTree.btIterateRecord (fun _ => .cached) .kBTreeCurrentRecord
      (some ⟨⟨0,0,0⟩,0,0,[15]⟩) none).1=.error .fsBTRecordNotFoundErr ∧
    ¬sampleTree.HintFree .kBTreeCurrentRecord [15] := by
  have hfound : (sampleTree.btIterateRecord (fun _ => .cached) .kBTreeCurrentRecord
      (some ⟨⟨0,2,0⟩,0,0,[15]⟩) none).1=.ok ⟨[20],none,2⟩ := by rfl
  have hlost : (sampleTree.btIterateRecord (fun _ => .cached) .kBTreeCurrentRecord
      (some ⟨⟨0,0,0⟩,0,0,[15]⟩) none).1=.error .fsBTRecordNotFoundErr := by rfl
  refine ⟨sampleTree_wellFormed,hfound,hlost,fun h => ?_⟩
  have hsame := (h (fun _ => .cached) (fun _ => .cached) 0 0 0 none ⟨⟨0,2,0⟩,0,0,[15]⟩
    ⟨⟨0,0,0⟩,0,0,[]⟩ ⟨⟨0,0,0⟩,0,0,[]⟩ (by simp) (by simp) rfl).2
  rw [hfound] at hsame
  exact absurd (hsame.trans hlost) (by simp)

end BTree
end Darwin.Hfs
