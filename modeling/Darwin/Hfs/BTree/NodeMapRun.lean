import Darwin.Hfs.BTree.MapGrowth

/-! Runs of `AllocateNode`, `FreeNode` and `ExtendBTree`. The map stays in order as long as
`ExtendBTree` gets the map nodes that a longer file calls for; it counts the longer
file's nodes before it has them. -/
open List
namespace Darwin.Hfs
open Lib.BitWords

inductive MapCall
  | allocateNode (reads : ℕ → BTree.BlockRead)
  | freeNode (reads : ℕ → BTree.BlockRead) (nodeNum : ℕ)
  | extendBTree (io : BTree.ExtendIO) (newTotalNodes : ℕ)

namespace BTree

def afterCall (t : BTree) : MapCall → BTree
  | .allocateNode reads =>
    match t.allocateNode reads with
    | .ok (_,t') => t'
    | .error _ => t
  | .freeNode reads nodeNum =>
    match t.freeNode reads nodeNum with
    | .ok t' => t'
    | .error _ => t
  | .extendBTree io newTotalNodes => (t.extendBTree io newTotalNodes).2

/-- Only an allocated node is freed, and node numbers of the file fit in 32 bits. -/
def ValidCall (t : BTree) (chain : List MapRecord) : MapCall → Prop
  | .allocateNode _ => True
  | .freeNode _ nodeNum => nodeNum<t.totalNodes ∧ bitAt (t.mapOf chain) nodeNum=true
  | .extendBTree io _ => (t.fcbEOF+io.bytesAdded)/t.nodeSize<2^32

def CompletesCall (t : BTree) (chain : List MapRecord) : MapCall → Prop
  | .extendBTree io newTotalNodes => GrowthCompletes t chain io newTotalNodes
  | _ => True

def CorrectCall (t : BTree) (chain : List MapRecord) : MapCall → Prop
  | .allocateNode reads =>
    match t.allocateNode reads with
    | .ok (n,t') => n<t.totalNodes ∧ bitAt (t.mapOf chain) n=false ∧ t'.MapOK chain ∧
        ∃ u,MapBits t u chain (fun i => bitAt (t.mapOf chain) i || decide (i=n)) ∧
          t'={u with freeNodes := t.freeNodes-1}
    | .error _ => (∃ k<chain.length,reads k=.failed) ∨ t.freeNodes=0
  | .freeNode reads nodeNum =>
    match t.freeNode reads nodeNum with
    | .ok t' => t'.MapOK chain ∧
        ∃ u,MapBits t u chain (fun i => bitAt (t.mapOf chain) i && !decide (i=nodeNum)) ∧
          t'={u with freeNodes := t.freeNodes+1}
    | .error _ => ∃ k<chain.length,reads k=.failed
  | .extendBTree io newTotalNodes =>
    ∃ chain' n,Extended t (t.extendBTree io newTotalNodes).2 chain chain' n

lemma MapOK.call {t : BTree} {chain : List MapRecord} (h : t.MapOK chain) {c : MapCall}
    (hv : ValidCall t chain c) (hio : CompletesCall t chain c) :
    (∃ chain',(t.afterCall c).MapOK chain') ∧ CorrectCall t chain c := by
  cases c with
  | allocateNode reads =>
    have hspec := h.allocateNode_spec reads
    refine ⟨?_,hspec⟩
    rw [afterCall]
    revert hspec
    rcases t.allocateNode reads with e | ⟨n,t'⟩ <;> intro hspec
    · exact ⟨chain,h⟩
    · exact ⟨chain,hspec.2.2.1⟩
  | freeNode reads nodeNum =>
    have hspec := h.freeNode_spec reads hv.1 hv.2
    refine ⟨?_,hspec⟩
    rw [afterCall]
    revert hspec
    rcases t.freeNode reads nodeNum with e | t' <;> intro hspec
    · exact ⟨chain,h⟩
    · exact ⟨chain,hspec.1⟩
  | extendBTree io newTotalNodes =>
    obtain ⟨chain',n,hx⟩ := h.extendBTree_spec io newTotalNodes hv hio
    exact ⟨⟨chain',hx.mapOK⟩,chain',n,hx⟩

def MapStep (t t' : BTree) : Prop :=
  ∃ c,(∀ chain,t.MapChain chain → ValidCall t chain c ∧ CompletesCall t chain c) ∧ t'=t.afterCall c

lemma mapOK_of_run {t s : BTree} {chain : List MapRecord} (h : t.MapOK chain)
    (hrun : Relation.ReflTransGen MapStep t s) : ∃ chain',s.MapOK chain' := by
  induction hrun with
  | refl => exact ⟨chain,h⟩
  | tail _ hstep ih =>
    obtain ⟨chain',h'⟩ := ih
    obtain ⟨c,hc,rfl⟩ := hstep
    obtain ⟨hv,hio⟩ := hc chain' h'.toMapChain
    exact (h'.call hv hio).1

/-- In every state of such a run the map is in order, and every further such call does
what it has to. -/
theorem nodeMap_run_correct {t s : BTree} {chain : List MapRecord} (h : t.MapOK chain)
    (hrun : Relation.ReflTransGen MapStep t s) :
    ∃ chain',s.MapOK chain' ∧ ∀ c,ValidCall s chain' c → CompletesCall s chain' c →
      (∃ chain'',(s.afterCall c).MapOK chain'') ∧ CorrectCall s chain' c := by
  obtain ⟨chain',h'⟩ := mapOK_of_run h hrun
  exact ⟨chain',h',fun c hv hio => h'.call hv hio⟩

def fullTree : BTree where
  treeDepth := 1
  rootNode := 1
  leafRecords := 0
  firstLeafNode := 1
  lastLeafNode := 1
  nodeSize := 512
  maxKeyLength := 10
  totalNodes := 2048
  freeNodes := 0
  bigKeys := false
  variableIndexKeys := false
  writeCount := 0
  keyCompareProc _ _ := .eq
  fcbEOF := 2048*512
  nodes k :=
    if k=0 then
      ⟨0,0,.header,0,14,[replicate 106 0,replicate 128 0,replicate 256 0xFF]⟩
    else Node.clear

lemma fullTree_mapOf : fullTree.mapOf [⟨0,2⟩]=replicate 128 0xFFFF := by
  rw [mapOf_cons,mapOf_nil,append_nil]
  exact mapWords_replicate 256 0xFF

lemma fullTree_bitAt (i : ℕ) : bitAt (fullTree.mapOf [⟨0,2⟩]) i=decide (i<2048) := by
  rw [fullTree_mapOf]
  by_cases hi : i<2048
  · rw [decide_eq_true hi]
    apply bitAt_of_allOnes (by decide)
    rw [getD_eq_getElem?_getD,getElem?_replicate,if_pos (by omega)]
    rfl
  · rw [decide_eq_false hi]
    exact bitAt_of_length_le (by rw [length_replicate]; omega) (by decide)

lemma fullTree_mapOK : fullTree.MapOK [⟨0,2⟩] where
  nodeSize := ⟨le_rfl,rfl⟩
  head := ⟨[],rfl,by simp⟩
  linked := ⟨rfl,trivial⟩
  nodup := by decide
  inFile := by decide
  kind := by decide
  checked := by
    simp only [mem_singleton,forall_eq]
    simp [-reduceReplicate,fullTree,checkNode,checkOffsets,offsetFits,Node.getRecordOffset,Node.numRecords,
      sizeofBTNodeDescriptor]
  hasRecord := by decide
  words := by
    simp only [mem_singleton,forall_eq]
    simp [-reduceReplicate,fullTree,mapRecord]
  eof := le_rfl
  small := by decide
  cover := by
    rw [fullTree_mapOf,length_replicate]
    exact le_rfl
  high i hi := by
    rw [fullTree_bitAt]
    exact decide_eq_false (Nat.not_lt.mpr hi)
  count := (clearBelow_of_set fun i hi => by rw [fullTree_bitAt]; exact decide_eq_true hi).symm
  lastStart pre m hc := by
    cases pre with
    | nil => exact Nat.zero_le _
    | cons p pre => simp at hc

/-- A call that makes the file twice as long; `created` tells whether a new node can be had. -/
def doubling (created : Bool) : ExtendIO where
  scan _ := .cached
  extended := true
  bytesAdded := 2048*512
  created _ := created
  marked _ := .cached

lemma doubling_valid (created : Bool) :
    ValidCall fullTree [⟨0,2⟩] (.extendBTree (doubling created) 4096) :=
  show (2048*512+2048*512)/512<2^32 by decide

theorem nodeMap_run_correct_fullTree :
    ∃ chain',(fullTree.extendBTree (doubling true) 4096).2.MapOK chain' ∧
      ∀ c,ValidCall (fullTree.extendBTree (doubling true) 4096).2 chain' c →
        CompletesCall (fullTree.extendBTree (doubling true) 4096).2 chain' c →
        (∃ chain'',((fullTree.extendBTree (doubling true) 4096).2.afterCall c).MapOK chain'') ∧
          CorrectCall (fullTree.extendBTree (doubling true) 4096).2 chain' c :=
  nodeMap_run_correct fullTree_mapOK (Relation.ReflTransGen.single
    ⟨.extendBTree (doubling true) 4096,fun _ _ => ⟨doubling_valid true,
      fun _ _ _ _ _ => ⟨rfl,fun _ => by simp [doubling]⟩⟩,rfl⟩)

lemma fullTree_extend : fullTree.extendBTree (doubling false) 4096=(some .ioErr,
    {fullTree with totalNodes := 4096,fcbEOF := 4096*512}.updateNode 0
      {fullTree.nodes 0 with fLink := 2048}) := by
  have hlast : fullTree.lastMapRecord (doubling false).scan (fullTree.totalNodes+1) 0 none 0 =
      .ok (⟨0,2⟩,0) := rfl
  have hlen : (fullTree.mapRecord ⟨0,2⟩).length=256 := length_replicate
  rw [extendBTree,if_neg (by decide)]
  simp only [hlast]
  rw [if_pos (by decide),if_neg (by decide),addMapNodes]
  have hlen' : (BTree.mapRecord {fullTree with fcbEOF := fullTree.fcbEOF+(doubling false).bytesAdded}
      ⟨0,2⟩).length=256 := hlen
  simp only [hlen']
  rw [if_neg (by decide)]
  rfl

/-- Without the new map node the total goes up, but neither the map nor the free count
follows, and the header links to a node that is no map node. -/
theorem fullTree_extend_fails :
    fullTree.MapOK [⟨0,2⟩] ∧ ValidCall fullTree [⟨0,2⟩] (.extendBTree (doubling false) 4096) ∧
    (fullTree.extendBTree (doubling false) 4096).1=some .ioErr ∧
    (fullTree.extendBTree (doubling false) 4096).2.totalNodes=4096 ∧
    (fullTree.extendBTree (doubling false) 4096).2.freeNodes=0 ∧
    ¬CorrectCall fullTree [⟨0,2⟩] (.extendBTree (doubling false) 4096) := by
  refine ⟨fullTree_mapOK,doubling_valid false,?_⟩
  rw [fullTree_extend]
  refine ⟨rfl,rfl,rfl,?_⟩
  rintro ⟨chain',n,hx⟩
  rw [fullTree_extend] at hx
  obtain ⟨rest,rfl,_⟩ := hx.mapOK.head
  have hlink := hx.mapOK.linked.1
  have hkind := hx.mapOK.kind
  cases rest with
  | nil => exact absurd hlink (by decide)
  | cons m rest =>
    have hnum : m.nodeNum=2048 := hlink.symm
    have := hkind m (by simp)
    rw [hnum] at this
    exact absurd this (by decide)

end BTree
end Darwin.Hfs
