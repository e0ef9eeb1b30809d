import Darwin.Hfs.BTree.Search
import Darwin.Lib.KeyOrder

/-! Well-formed trees. The nodes of each height form a list, in the order of their
links; the entries of one level, read from left to right, are the nodes of the level
below. Level 1 holds the leaves. -/
open List Nat
namespace Darwin.Hfs
open Lib.KeyOrder

namespace BTree

/-- The links of a list of nodes, of which the first one has `prev` on its left. -/
def Chained (nodes : ℕ → Node) : ℕ → List ℕ → Prop
  | _,[] => True
  | prev,n::rest =>
    (nodes n).bLink=prev ∧ (nodes n).fLink=rest.headD 0 ∧ Chained nodes n rest

def recordsOf (t : BTree) (nums : List ℕ) : List Record := nums.flatMap fun n => (t.nodes n).records

def firstKey (t : BTree) (n : ℕ) : Key :=
  recordKey t.toBTreeControlBlock ((t.nodes n).records.headD [])

abbrev AscendingRecords (t : BTree) (l : List Record) : Prop :=
  Ascending t.keyCompareProc (recordKey t.toBTreeControlBlock) l

structure WellFormed (t : BTree) (level : ℕ → List ℕ) : Prop where
  compare : Std.TransCmp t.keyCompareProc
  top : t.treeDepth≠0 → level t.treeDepth=[t.rootNode]
  level_zero : level 0=[]
  beyond : ∀ h,t.treeDepth<h → level h=[]
  pos : ∀ h,∀ n∈level h,n≠0
  inFile : ∀ h,∀ n∈level h,n<t.totalNodes
  chained : ∀ h,Chained t.nodes 0 (level h)
  kind : ∀ h,∀ n∈level h,(t.nodes n).kind=if h=1 then .leaf else .index
  height : ∀ h,∀ n∈level h,(t.nodes n).height=h
  nonempty : ∀ h,∀ n∈level h,(t.nodes n).records≠[]
  checked : ∀ h,∀ n∈level h,t.checkNode (t.nodes n)=true
  children : ∀ h,1≤h → h<t.treeDepth →
    (t.recordsOf (level (h+1))).map (childNodeNum t.toBTreeControlBlock)=level h
  entryKey : ∀ h,1≤h → h<t.treeDepth → ∀ r∈t.recordsOf (level (h+1)),
    t.keyCompareProc (recordKey t.toBTreeControlBlock r)
      (t.firstKey (childNodeNum t.toBTreeControlBlock r))=.eq
  ascending : t.AscendingRecords (t.recordsOf (level 1))
  firstLeaf : t.firstLeafNode=(level 1).headD 0
  lastLeaf : t.lastLeafNode=(level 1).getLastD 0
  count : t.leafRecords=(t.recordsOf (level 1)).length
  stray : ∀ n<t.totalNodes,(t.nodes n).kind=.leaf → (t.nodes n).records≠[] → n∈level 1

@[simp] lemma recordsOf_nil (t : BTree) : t.recordsOf []=[] := rfl

@[simp] lemma recordsOf_cons (t : BTree) (n : ℕ) (l : List ℕ) :
    t.recordsOf (n::l)=(t.nodes n).records++t.recordsOf l := rfl

@[simp] lemma recordsOf_append (t : BTree) (l m : List ℕ) :
    t.recordsOf (l++m)=t.recordsOf l++t.recordsOf m := by
  simp [recordsOf]

variable {t : BTree}

lemma recordsOf_subset {n : ℕ} {l : List ℕ} (h : n∈l) {r : Record}
    (hr : r∈(t.nodes n).records) : r∈t.recordsOf l :=
  mem_flatMap.mpr ⟨n,h,hr⟩

lemma firstKey_eq {n : ℕ} {r : Record} {l : List Record}
    (h : (t.nodes n).records=r::l) : t.firstKey n=recordKey t.toBTreeControlBlock r := by
  simp [firstKey,h]

lemma getNode_eq_ok {read : BlockRead} {n : ℕ} (hn : n<t.totalNodes)
    (hc : t.checkNode (t.nodes n)=true) (hr : read≠.failed) : t.getNode read n=.ok (t.nodes n) := by
  simp only [getNode,if_neg (not_le.mpr hn)]
  cases read with
  | cached => rfl
  | fromDisk => rw [if_pos hc]
  | failed => exact absurd rfl hr

lemma getNode_cases {read : BlockRead} (n : ℕ) (hr : read≠.failed) :
    t.getNode read n=.error .fsBTInvalidNodeErr ∨
    n<t.totalNodes ∧ t.getNode read n=.ok (t.nodes n) := by
  by_cases hn : t.totalNodes≤n
  · exact Or.inl (by simp only [getNode,if_pos hn])
  simp only [getNode,if_neg hn]
  cases read with
  | cached => exact Or.inr ⟨by omega,rfl⟩
  | fromDisk =>
    by_cases hc : t.checkNode (t.nodes n)=true
    · exact Or.inr ⟨by omega,by rw [if_pos hc]⟩
    · exact Or.inl (by rw [if_neg hc])
  | failed => exact absurd rfl hr

lemma searchNode_eq [Std.TransCmp t.keyCompareProc] {node : Node}
    (h : t.AscendingRecords node.records) (key : Key) : searchNode t.toBTreeControlBlock node key =
      (present t.keyCompareProc (recordKey t.toBTreeControlBlock) key node.records,
        rank t.keyCompareProc (recordKey t.toBTreeControlBlock) key node.records) := by
  obtain ⟨a,o,c,hc⟩ := h.cut key
  have hget : ∀ i<node.numRecords,∃ r,node.records[i]?=some r ∧ node.records.getD i []=r := by
    intro i hi
    refine ⟨node.records[i],getElem?_eq_getElem hi,?_⟩
    rw [getD_eq_getElem?_getD,getElem?_eq_getElem hi,Option.getD_some]
  have hlen : node.numRecords=a.length+o.toList.length+c.length := by
    rw [Node.numRecords,hc.eq]
    simp [add_assoc]
  rw [hc.rank_eq,hc.present_eq,searchNode,searchNodeLoop_eq (n := node.numRecords) (p := a.length)]
  · rw [Prod.mk.injEq]
    refine ⟨?_,rfl⟩
    by_cases hp : a.length<node.numRecords
    · obtain ⟨r,hr,hd⟩ := hget _ hp
      rw [hd,hc.cmp_at_rank hr]
      cases o <;> simp [hp]
    · have ho : o=none := by
        cases o with
        | none => rfl
        | some s => simp at hlen; omega
      simp [hp,ho]
  · intro i hi
    obtain ⟨r,hr,hd⟩ := hget i (by omega)
    rw [hd]
    exact hc.cmp_of_lt_rank hr hi
  · intro i hi hn
    obtain ⟨r,hr,hd⟩ := hget i hn
    rw [hd]
    exact hc.cmp_of_rank_lt hr hi
  · intro hp
    obtain ⟨r,hr,hd⟩ := hget _ hp
    rw [hd,hc.cmp_at_rank hr]
    cases o <;> simp
  all_goals omega

def sampleTree : BTree where
  treeDepth := 2
  rootNode := 3
  leafRecords := 2
  firstLeafNode := 1
  lastLeafNode := 2
  nodeSize := 512
  maxKeyLength := 1
  totalNodes := 4
  freeNodes := 0
  bigKeys := false
  variableIndexKeys := false
  writeCount := 0
  keyCompareProc := compare
  fcbEOF := 2048
  nodes
    | 1 => ⟨2,0,.leaf,1,14,[[1,10,0,7]]⟩
    | 2 => ⟨0,1,.leaf,1,14,[[1,20,0,8]]⟩
    | 3 => ⟨0,0,.index,2,14,[[1,10,0,0,0,1],[1,20,0,0,0,2]]⟩
    | _ => .clear

def sampleLevel : ℕ → List ℕ
  | 1 => [1,2]
  | 2 => [3]
  | _ => []

lemma sampleTree_wellFormed : sampleTree.WellFormed sampleLevel where
  compare := (inferInstance : Std.TransCmp (compare : List UInt8 → List UInt8 → Ordering))
  top _ := rfl
  level_zero := rfl
  beyond h hh := by
    obtain ⟨k,rfl⟩ : ∃ k,h=k+3 := ⟨h-3,by simp only [sampleTree] at hh; omega⟩
    rfl
  pos
    | 1 => by decide
    | 2 => by decide
    | 0 | _+3 => by simp [sampleLevel]
  inFile
    | 1 => by decide
    | 2 => by decide
    | 0 | _+3 => by simp [sampleLevel]
  chained
    | 1 => by simp [sampleLevel,sampleTree,Chained]
    | 2 => by simp [sampleLevel,sampleTree,Chained]
    | 0 | _+3 => trivial
  kind
    | 1 => by decide
    | 2 => by decide
    | 0 | _+3 => by simp [sampleLevel]
  height
    | 1 => by decide
    | 2 => by decide
    | 0 | _+3 => by simp [sampleLevel]
  nonempty
    | 1 => by decide
    | 2 => by decide
    | 0 | _+3 => by simp [sampleLevel]
  checked
    | 1 => by decide
    | 2 => by decide
    | 0 | _+3 => by simp [sampleLevel]
  children h h1 hd := by
    obtain rfl : h=1 := by simp only [sampleTree] at hd; omega
    decide
  entryKey h h1 hd := by
    obtain rfl : h=1 := by simp only [sampleTree] at hd; omega
    decide
  ascending := by
    simp only [AscendingRecords,Ascending]
    decide
  firstLeaf := rfl
  lastLeaf := rfl
  count := by decide
  stray n hn hk _ := by
    simp only [sampleTree] at hn
    interval_cases n <;> first | decide | cases hk

end BTree
end Darwin.Hfs

/-! `SearchTree` on a well-formed tree: from level to level it goes to the node that
covers the key, so it ends at the leaf in which the key has its place. -/
namespace Darwin.Hfs
open Lib.KeyOrder

namespace BTree

lemma childIndex_split {t : BTree} [Std.TransCmp t.keyCompareProc] {node : Node}
    (h : t.AscendingRecords node.records) (hne : node.records≠[]) (key : Key) :
    ∃ a r b,node.records=a++r::b ∧ childIndex (searchNode t.toBTreeControlBlock node key).1
        (searchNode t.toBTreeControlBlock node key).2=a.length ∧
      (a≠[] → t.keyCompareProc key (recordKey t.toBTreeControlBlock r)≠.lt) ∧
      ∀ s∈b,t.keyCompareProc key (recordKey t.toBTreeControlBlock s)=.lt := by
  obtain ⟨a,o,c,hc⟩ := h.cut key
  rw [searchNode_eq h,hc.rank_eq,hc.present_eq]
  cases o with
  | some r =>
    refine ⟨a,r,c,hc.eq,rfl,fun _ => ?_,hc.gt⟩
    rw [hc.at_key r rfl]
    decide
  | none =>
    rcases eq_nil_or_concat' a with rfl | ⟨a,r,rfl⟩
    · cases c with
      | nil => exact absurd hc.eq hne
      | cons r c =>
        exact ⟨[],r,c,hc.eq,rfl,fun h => absurd rfl h,fun s hs => hc.gt s (by simp [hs])⟩
    · refine ⟨a,r,c,by simpa using hc.eq,by simp [childIndex],fun _ => ?_,hc.gt⟩
      exact (cmp_ne_of_lt (hc.lt r (by simp))).1

lemma pairwise_firstKey {t : BTree} {nums : List ℕ} (h : t.AscendingRecords (t.recordsOf nums))
    (hne : ∀ n∈nums,(t.nodes n).records≠[]) :
    nums.Pairwise fun m n => t.keyCompareProc (t.firstKey m) (t.firstKey n)=.lt := by
  have hp := (pairwise_flatMap.mp h).2
  refine hp.imp_of_mem ?_
  intro m n hm hn hmn
  obtain ⟨r,l,hr⟩ := exists_cons_of_ne_nil (hne m hm)
  obtain ⟨s,k,hs⟩ := exists_cons_of_ne_nil (hne n hn)
  rw [firstKey_eq hr,firstKey_eq hs]
  exact hmn r (by simp [hr]) s (by simp [hs])

lemma lt_of_lt_firstKey {t : BTree} [Std.TransCmp t.keyCompareProc] {n : ℕ} {key : Key}
    (h : t.AscendingRecords (t.nodes n).records)
    (hlt : t.keyCompareProc key (t.firstKey n)=.lt) : ∀ s∈(t.nodes n).records,
      t.keyCompareProc key (recordKey t.toBTreeControlBlock s)=.lt := by
  intro s hs
  cases hr : (t.nodes n).records with
  | nil => simp [hr] at hs
  | cons r l =>
    rw [firstKey_eq hr] at hlt
    rw [hr] at hs h
    rcases mem_cons.mp hs with rfl | hs
    · exact hlt
    · exact Std.TransCmp.lt_trans hlt ((pairwise_cons.mp h).1 s hs)

/-- The node of a list in whose span a key lies: it does not start above the key, unless
it is the first one, and every later node does. -/
def Covers (t : BTree) (key : Key) (nums pre : List ℕ) (n : ℕ) (post : List ℕ) : Prop :=
  nums=pre++n::post ∧ (pre≠[] → t.keyCompareProc key (t.firstKey n)≠.lt) ∧
    ∀ m∈post,t.keyCompareProc key (t.firstKey m)=.lt

namespace WellFormed
variable {t : BTree} {level : ℕ → List ℕ} (hw : t.WellFormed level)
include hw

lemma height_pos {h n : ℕ} (hn : n∈level h) : 1≤h := by
  by_contra h0
  rw [show h=0 by omega,hw.level_zero] at hn
  simp at hn

lemma height_le {h n : ℕ} (hn : n∈level h) : h≤t.treeDepth := by
  by_contra h0
  rw [hw.beyond h (by omega)] at hn
  simp at hn

lemma getNode_level {read : BlockRead} {h n : ℕ} (hn : n∈level h) (hr : read≠.failed) :
    t.getNode read n=.ok (t.nodes n) :=
  getNode_eq_ok (hw.inFile h n hn) (hw.checked h n hn) hr

lemma ascending_level {h : ℕ} (h1 : 1≤h) (hd : h≤t.treeDepth) :
    t.AscendingRecords (t.recordsOf (level h)) := by
  have := hw.compare
  induction h,h1 using le_induction with
  | base => exact hw.ascending
  | succ h h1 ih =>
    have hfirst := pairwise_firstKey (ih (by omega)) (hw.nonempty h)
    rw [←hw.children h h1 (by omega),pairwise_map] at hfirst
    refine hfirst.imp_of_mem ?_
    intro r s hr hs hrs
    have hkr := hw.entryKey h h1 (by omega) r hr
    have hks := hw.entryKey h h1 (by omega) s hs
    exact Std.TransCmp.lt_of_lt_of_eq (Std.TransCmp.lt_of_eq_of_lt hkr hrs)
      (Std.OrientedCmp.eq_symm hks)

lemma ascending_node {h n : ℕ} (hn : n∈level h) : t.AscendingRecords (t.nodes n).records :=
  (pairwise_flatMap.mp (hw.ascending_level (hw.height_pos hn) (hw.height_le hn))).1 n hn

lemma covers_child {h : ℕ} (h1 : 1≤h) (hd : h<t.treeDepth) {key : Key} {n : ℕ}
    {pre post : List ℕ} (hc : t.Covers key (level (h+1)) pre n post) :
    ∃ pre' post',t.Covers key (level h) pre'
      (childNodeNum t.toBTreeControlBlock ((t.nodes n).records.getD
        (childIndex (searchNode t.toBTreeControlBlock (t.nodes n) key).1
          (searchNode t.toBTreeControlBlock (t.nodes n) key).2) [])) post' := by
  have := hw.compare
  obtain ⟨heq,hn,hpost⟩ := hc
  have hmem : n∈level (h+1) := by simp [heq]
  have hasc := hw.ascending_level (h := h+1) (by omega) hd
  obtain ⟨a,r,b,hrec,hidx,hr,hb⟩ :=
    childIndex_split (hw.ascending_node hmem) (hw.nonempty _ n hmem) key
  rw [hidx,hrec]
  have hget : (a++r::b).getD a.length []=r := by simp [getD_eq_getElem?_getD]
  rw [hget]
  have hall := hw.children h h1 hd
  have hkey := hw.entryKey h h1 hd
  rw [heq] at hall hkey hasc
  simp only [recordsOf_append,recordsOf_cons,hrec] at hall hkey hasc
  refine ⟨(t.recordsOf pre++a).map (childNodeNum t.toBTreeControlBlock),
    (b++t.recordsOf post).map (childNodeNum t.toBTreeControlBlock),?_,?_,?_⟩
  · rw [←hall]
    simp
  · -- the record does not lie above the key, so neither does the node below it
    intro hpre
    have hle : t.keyCompareProc key (recordKey t.toBTreeControlBlock r)≠.lt := by
      by_cases ha : a=[]
      · subst ha
        rw [nil_append] at hrec
        rw [←firstKey_eq hrec]
        refine hn ?_
        rintro rfl
        exact hpre rfl
      · exact hr ha
    rw [←Std.TransCmp.congr_right (hkey r (by simp))]
    exact hle
  · intro m hm
    obtain ⟨s,hs,rfl⟩ := mem_map.mp hm
    have hlt : t.keyCompareProc key (recordKey t.toBTreeControlBlock s)=.lt := by
      rcases mem_append.mp hs with hs | hs
      · exact hb s hs
      · obtain ⟨m',hm',hsm⟩ := mem_flatMap.mp hs
        exact lt_of_lt_firstKey (hw.ascending_node (h := h+1) (by simp [heq,hm'])) (hpost m' hm')
          s hsm
    rw [←Std.TransCmp.congr_right (hkey s (by
      simp only [mem_append,mem_cons] at hs ⊢
      tauto))]
    exact hlt

lemma searchTreeLoop_spec {io : ℕ → BlockRead} (hio : ∀ n,io n≠.failed) (key : Key) {h : ℕ}
    (h1 : 1≤h) (hd : h≤t.treeDepth) {n : ℕ} {pre post : List ℕ}
    (hc : t.Covers key (level h) pre n post) {fuel : ℕ} (hf : h≤fuel) (path : TreePathTable) :
    ∃ s pre' post',t.searchTreeLoop io key fuel n path=.ok s ∧
      t.Covers key (level 1) pre' s.nodeNum post' ∧ s.node=t.nodes s.nodeNum ∧
      (s.keyFound,s.index)=searchNode t.toBTreeControlBlock s.node key := by
  induction h,h1 using le_induction generalizing n pre post fuel path with
  | base =>
    obtain ⟨fuel,rfl⟩ : ∃ f,fuel=f+1 := ⟨fuel-1,by omega⟩
    have hmem : n∈level 1 := by simp [hc.1]
    rw [searchTreeLoop,hw.getNode_level hmem (hio n)]
    simp only [hw.kind 1 n hmem,if_true]
    exact ⟨_,pre,post,rfl,hc,rfl,rfl⟩
  | succ h h1 ih =>
    obtain ⟨fuel,rfl⟩ : ∃ f,fuel=f+1 := ⟨fuel-1,by omega⟩
    have hmem : n∈level (h+1) := by simp [hc.1]
    obtain ⟨pre',post',hchild⟩ := hw.covers_child h1 hd hc
    have hkind : (t.nodes n).kind≠.leaf := by
      rw [hw.kind _ n hmem,if_neg (by omega)]
      decide
    rw [searchTreeLoop,hw.getNode_level hmem (hio n)]
    simp only [if_neg hkind]
    exact ih (by omega) hchild (by omega) _

lemma searchTree_spec {io : ℕ → BlockRead} (hio : ∀ n,io n≠.failed)
    (hd : t.treeDepth≠0) (key : Key) :
    ∃ s pre post,t.searchTree io key=.ok s ∧ t.Covers key (level 1) pre s.nodeNum post ∧
      s.node=t.nodes s.nodeNum ∧
      (s.keyFound,s.index)=searchNode t.toBTreeControlBlock s.node key := by
  have hc : t.Covers key (level t.treeDepth) [] t.rootNode [] :=
    ⟨hw.top hd,fun h => absurd rfl h,by simp⟩
  rw [searchTree,if_neg hd]
  exact hw.searchTreeLoop_spec hio key (by omega) le_rfl hc le_rfl _

end WellFormed
end BTree
end Darwin.Hfs
