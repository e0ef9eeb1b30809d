import Darwin.Hfs.BTree.NodeMap

/-! The chain of map records and the bits it holds. -/
open List Function Option Nat
namespace Darwin.Hfs
open Lib.BitWords

@[simp] lemma length_setMapWord (r : Record) (j : ℕ) (x : BitVec 16) :
    (setMapWord r j x).length=r.length := by simp [setMapWord]

@[simp] lemma length_mapWords (r : Record) : (mapWords r).length=r.length/2 := by simp [mapWords]

lemma mapWord_setMapWord {r : Record} {j : ℕ} (hj : 2*j+1<r.length) (x : BitVec 16) (i : ℕ) :
    mapWord (setMapWord r j x) i=if i=j then x else mapWord r i := by
  split_ifs with hi
  · subst hi
    have h1 : (setMapWord r i x)[2*i]?=some ⟨x.extractLsb' 8 8⟩ := by
      rw [setMapWord,getElem?_set_ne (by omega),getElem?_set_self (by omega)]
    have h2 : (setMapWord r i x)[2*i+1]?=some ⟨x.extractLsb' 0 8⟩ := by
      rw [setMapWord,getElem?_set_self (by simpa using hj)]
    rw [mapWord,getD_eq_getElem?_getD,getD_eq_getElem?_getD,h1,h2]
    simp only [getD_some]
    exact BitVec.extractLsb'_append_extractLsb'_eq_extractLsb' (by rfl) |>.trans (by simp)
  · have h1 : (setMapWord r j x)[2*i]?=r[2*i]? := by
      rw [setMapWord,getElem?_set_ne (by omega),getElem?_set_ne (by omega)]
    have h2 : (setMapWord r j x)[2*i+1]?=r[2*i+1]? := by
      rw [setMapWord,getElem?_set_ne (by omega),getElem?_set_ne (by omega)]
    simp only [mapWord,getD_eq_getElem?_getD,h1,h2]

lemma mapWords_setMapWord {r : Record} {j : ℕ} (hj : j<r.length/2) (x : BitVec 16) :
    mapWords (setMapWord r j x)=(mapWords r).set j x := by
  apply ext_getElem
  · simp
  · intro i h1 h2
    simp only [mapWords,length_setMapWord,getElem_map,getElem_range,
      mapWord_setMapWord (show 2*j+1<r.length by omega),getElem_set]
    split_ifs <;> first | rfl | omega

lemma mapWords_replicate (n : ℕ) (b : UInt8) :
    mapWords (replicate n b)=replicate (n/2) (b.toBitVec++b.toBitVec) := by
  apply ext_getElem
  · simp
  · intro i h1 h2
    simp only [length_mapWords,length_replicate] at h1
    simp only [mapWords,getElem_map,getElem_range,mapWord,getD_eq_getElem?_getD,
      getElem?_replicate,getElem_replicate,length_replicate]
    rw [if_pos (by omega),if_pos (by omega)]
    rfl

namespace BTree

def mapOf (t : BTree) (chain : List MapRecord) : List (BitVec 16) := chain.flatMap t.recordWords

@[simp] lemma mapOf_nil (t : BTree) : t.mapOf []=[] := rfl

@[simp] lemma mapOf_cons (t : BTree) (m : MapRecord) (l : List MapRecord) :
    t.mapOf (m::l)=t.recordWords m++t.mapOf l := rfl

@[simp] lemma mapOf_append (t : BTree) (l m : List MapRecord) :
    t.mapOf (l++m)=t.mapOf l++t.mapOf m := by
  simp [mapOf]

def Linked (nodes : ℕ → Node) : List MapRecord → Prop
  | [] => True
  | m::l => (nodes m.nodeNum).fLink=(l.headD ⟨0,0⟩).nodeNum ∧ Linked nodes l

/-- The chain starts in the header and holds whole words. -/
structure MapChain (t : BTree) (chain : List MapRecord) : Prop where
  nodeSize : 512≤t.nodeSize ∧ t.nodeSize%2=0
  head : ∃ rest,chain=⟨0,2⟩::rest ∧ ∀ m∈rest,m.mapIndex=0 ∧ m.nodeNum≠0
  linked : Linked t.nodes chain
  nodup : (chain.map MapRecord.nodeNum).Nodup
  inFile : ∀ m∈chain,m.nodeNum<t.totalNodes
  kind : ∀ m∈chain,(t.nodes m.nodeNum).kind=if m.nodeNum=0 then .header else .map
  checked : ∀ m∈chain,t.checkNode (t.nodes m.nodeNum)=true
  hasRecord : ∀ m∈chain,m.mapIndex<(t.nodes m.nodeNum).records.length
  words : ∀ m∈chain,0<(t.mapRecord m).length ∧ (t.mapRecord m).length%2=0
  eof : t.totalNodes*t.nodeSize≤t.fcbEOF
  small : t.fcbEOF/t.nodeSize<2^32

/-- The map has a bit for every node, no bit set beyond, and the free count counts its
clear bits. -/
structure MapOK (t : BTree) (chain : List MapRecord) : Prop extends MapChain t chain where
  cover : t.totalNodes≤16*(t.mapOf chain).length
  high : ∀ i,t.totalNodes ≤ i → bitAt (t.mapOf chain) i=false
  count : t.freeNodes=clearBelow (bitAt (t.mapOf chain)) t.totalNodes
  lastStart : ∀ pre m,chain=pre++[m] → 16*(t.mapOf pre).length≤t.totalNodes

lemma Linked.split {nodes : ℕ → Node} {pre post : List MapRecord} {m : MapRecord}
    (h : Linked nodes (pre++m::post)) : (nodes m.nodeNum).fLink=(post.headD ⟨0,0⟩).nodeNum := by
  induction pre with
  | nil => exact h.1
  | cons p pre ih => exact ih h.2

namespace MapChain
variable {t : BTree} {chain : List MapRecord} (h : t.MapChain chain)
include h

variable {m : MapRecord}

lemma length_record (hm : m∈chain) : (t.mapRecord m).length*8=16*(t.recordWords m).length := by
  have := (h.words m hm).2
  rw [recordWords,length_mapWords]
  omega

lemma getNode_eq (hm : m∈chain) {read : BlockRead} (hr : read≠.failed) :
    t.getNode read m.nodeNum=.ok (t.nodes m.nodeNum) := by
  simp only [getNode,if_neg (not_le.mpr (h.inFile m hm))]
  cases read with
  | cached => rfl
  | fromDisk => rw [if_pos (h.checked m hm)]
  | failed => exact absurd rfl hr

lemma tail_record {pre post : List MapRecord} (hc : chain=pre++m::post)
    (hpre : pre≠[]) : m.mapIndex=0 ∧ m.nodeNum≠0 := by
  obtain ⟨rest,hhead,hrest⟩ := h.head
  obtain ⟨q,pre,rfl⟩ := exists_cons_of_ne_nil hpre
  rw [hc] at hhead
  apply hrest m
  rw [←(List.cons.inj hhead).2]
  simp

lemma getMapNode_eq {pre post : List MapRecord} (hc : chain=pre++m::post)
    {read : BlockRead} (hr : read≠.failed) : t.getMapNode read pre.getLast?=.ok m := by
  have hm : m∈chain := by simp [hc]
  have hget := h.getNode_eq hm hr
  obtain ⟨rest,hhead,_⟩ := h.head
  have hkind := h.kind m hm
  rcases eq_nil_or_concat' pre with rfl | ⟨pre,p,rfl⟩
  · obtain ⟨rfl,_⟩ := List.cons.inj (hc.symm.trans hhead)
    simp only [getLast?_nil,getMapNode,hget,hkind,if_true]
    rfl
  · have hlink := h.linked
    rw [hc,append_assoc,singleton_append] at hlink
    have hf := hlink.split
    rw [headD_cons] at hf
    obtain ⟨hidx,hne⟩ := h.tail_record hc (by simp)
    rw [if_neg hne] at hkind
    simp only [getLast?_concat,getMapNode,hf,if_neg hne,hget,hkind]
    rw [if_neg (by simp)]
    obtain ⟨num,idx⟩ := m
    simp only at hidx
    rw [hidx]

lemma getMapNode_end {read : BlockRead} :
    t.getMapNode read chain.getLast?=.error .fsBTNoMoreMapNodesErr := by
  obtain ⟨rest,hhead,_⟩ := h.head
  obtain ⟨pre,m,hc⟩ := eq_nil_or_concat' chain |>.resolve_left (by simp [hhead])
  have hlink := h.linked
  rw [hc] at hlink ⊢
  have hf := hlink.split
  rw [headD_nil] at hf
  simp only [getLast?_concat,getMapNode,hf,if_true]

lemma length_le : chain.length≤t.totalNodes := by
  have hsub : chain.map MapRecord.nodeNum⊆range t.totalNodes := by
    intro n hn
    obtain ⟨m,hm,rfl⟩ := mem_map.mp hn
    exact mem_range.mpr (h.inFile m hm)
  have := (h.nodup.subperm hsub).length_le
  simpa using this

end MapChain

/-- Two nodes that differ at most in their forward link and in the bytes of their records. -/
def SameShape (node node' : Node) : Prop :=
  node'.bLink=node.bLink ∧ node'.kind=node.kind ∧ node'.height=node.height ∧
    node'.firstOffset=node.firstOffset ∧ node'.records.map List.length=node.records.map List.length

variable {node node' : Node}

lemma SameShape.getRecordOffset (h : SameShape node node') (i : ℕ) :
    node'.getRecordOffset i=node.getRecordOffset i := by
  obtain ⟨_,_,_,hoff,hlen⟩ := h
  rw [Node.getRecordOffset,Node.getRecordOffset,hoff,map_take,map_take,hlen]

lemma SameShape.numRecords (h : SameShape node node') : node'.numRecords=node.numRecords := by
  simpa [Node.numRecords] using congrArg List.length h.2.2.2.2

lemma SameShape.length_getD (h : SameShape node node') (i : ℕ) :
    (node'.records.getD i []).length=(node.records.getD i []).length := by
  have hget : ∀ l : List Record,(l.getD i []).length=(l.map List.length).getD i 0 := by
    intro l
    rw [getD_eq_getElem?_getD,getD_eq_getElem?_getD,getElem?_map]
    cases l[i]? <;> rfl
  rw [hget,hget,h.2.2.2.2]

lemma SameShape.checkOffsets (h : SameShape node node') (hk : node.kind≠.leaf)
    {c c' : BTreeControlBlock} (index prevOffset : ℕ) :
    checkOffsets c' node' index prevOffset=checkOffsets c node index prevOffset := by
  have hfits : ∀ i prev,offsetFits c' node' i prev=offsetFits c node i prev := by
    intro i prev
    simp only [offsetFits,h.getRecordOffset,h.2.1,hk,false_and,decide_false]
  induction index generalizing prevOffset with
  | zero => simp only [BTree.checkOffsets,hfits,h.getRecordOffset]
  | succ i ih => simp only [BTree.checkOffsets,hfits,h.getRecordOffset,ih]

lemma setWord_nodes (t : BTree) {m : MapRecord} (pos : ℕ) (x : BitVec 16) {k : ℕ}
    (hk : k≠m.nodeNum) : (t.setWord m pos x).nodes k=t.nodes k := by
  simp only [BTree.setWord,updateNode,update_of_ne hk]

lemma sameShape_setWord (t : BTree) (m : MapRecord) (pos : ℕ) (x : BitVec 16) (k : ℕ) :
    SameShape (t.nodes k) ((t.setWord m pos x).nodes k) ∧
      ((t.setWord m pos x).nodes k).fLink=(t.nodes k).fLink := by
  by_cases hk : k=m.nodeNum
  · simp only [BTree.setWord,updateNode,hk,update_self]
    refine ⟨⟨rfl,rfl,rfl,rfl,?_⟩,trivial⟩
    apply ext_getElem
    · simp
    · intro i h1 h2
      simp only [getElem_map,getElem_modify]
      split_ifs <;> simp
  · rw [setWord_nodes t pos x hk]
    exact ⟨⟨rfl,rfl,rfl,rfl,rfl⟩,rfl⟩

lemma SameShape.checkNode {t t' : BTree} (h : SameShape node node')
    (hk : node.kind≠.leaf) (hsize : t'.nodeSize=t.nodeSize) (hdepth : t'.treeDepth=t.treeDepth)
    (heof : t.fcbEOF≤t'.fcbEOF) (hlink : node'.fLink≤t'.fcbEOF/t'.nodeSize-1)
    (hc : t.checkNode node=true) : t'.checkNode node'=true := by
  have hmono : t.fcbEOF/t.nodeSize≤t'.fcbEOF/t'.nodeSize := by
    rw [hsize]
    exact Nat.div_le_div_right heof
  obtain ⟨hb,hkind,hheight,_,_⟩ := id h
  simp only [BTree.checkNode] at hc ⊢
  rw [h.numRecords,hkind,hheight,hb,hsize,hdepth,h.checkOffsets hk]
  rw [hsize] at hlink hmono
  split_ifs at hc with h1 h2 h3 h4
  rw [if_neg (by omega),if_neg h2,if_neg h3,if_neg h4]
  exact hc

namespace MapChain
variable {t : BTree} {chain : List MapRecord} (h : t.MapChain chain)
include h

lemma kind_ne_leaf {m : MapRecord} (hm : m∈chain) : (t.nodes m.nodeNum).kind≠.leaf := by
  rw [h.kind m hm]
  split_ifs <;> simp

lemma congr (t' : BTree) (hsize : t'.nodeSize=t.nodeSize) (hdepth : t'.treeDepth=t.treeDepth)
    (htotal : t.totalNodes≤t'.totalNodes) (heof : t.fcbEOF≤t'.fcbEOF)
    (hfit : t'.totalNodes*t'.nodeSize≤t'.fcbEOF) (hsmall : t'.fcbEOF/t'.nodeSize<2^32)
    (hnodes : ∀ m∈chain,SameShape (t.nodes m.nodeNum) (t'.nodes m.nodeNum) ∧
      (t'.nodes m.nodeNum).fLink=(t.nodes m.nodeNum).fLink) : t'.MapChain chain := by
  have hlen : ∀ m∈chain,(t'.mapRecord m).length=(t.mapRecord m).length :=
    fun m hm => (hnodes m hm).1.length_getD m.mapIndex
  refine
    { nodeSize := by rw [hsize]; exact h.nodeSize
      head := h.head
      linked := ?_
      nodup := h.nodup
      inFile := fun m hm => (h.inFile m hm).trans_le htotal
      kind := fun m hm => by rw [(hnodes m hm).1.2.1,h.kind m hm]
      checked := ?_
      hasRecord := fun m hm => ?_
      words := fun m hm => by rw [hlen m hm]; exact h.words m hm
      eof := hfit
      small := hsmall}
  · have hl := h.linked
    clear h hlen
    induction chain with
    | nil => trivial
    | cons m l ih =>
      exact ⟨by rw [(hnodes m (by simp)).2,hl.1],
        ih (fun p hp => hnodes p (by simp [hp])) hl.2⟩
  · intro m hm
    obtain ⟨hshape,hlink⟩ := hnodes m hm
    apply hshape.checkNode (h.kind_ne_leaf hm) hsize hdepth heof _ (h.checked m hm)
    have hc := h.checked m hm
    have hmono : t.fcbEOF/t.nodeSize≤t'.fcbEOF/t'.nodeSize := by
      rw [hsize]
      exact Nat.div_le_div_right heof
    rw [BTree.checkNode] at hc
    split_ifs at hc with h1
    omega
  · have := (hnodes m hm).1.numRecords
    rw [Node.numRecords,Node.numRecords] at this
    rw [this]
    exact h.hasRecord m hm

lemma mem_of_split {pre post : List MapRecord} {m : MapRecord} (hc : chain=pre++m::post)
    {p : MapRecord} (hp : p∈pre ∨ p∈post) : p∈chain ∧ p.nodeNum≠m.nodeNum := by
  have hnd := h.nodup
  rw [hc,map_append,map_cons,nodup_append,nodup_cons] at hnd
  obtain ⟨_,⟨hpost,_⟩,hdisj⟩ := hnd
  rcases hp with hp | hp
  · exact ⟨by simp [hc,hp],hdisj _ (mem_map_of_mem hp) _ (by simp)⟩
  · refine ⟨by simp [hc,hp],fun he => hpost ?_⟩
    rw [←he]
    exact mem_map_of_mem hp

lemma setWord (m : MapRecord) (pos : ℕ) (x : BitVec 16) : (t.setWord m pos x).MapChain chain :=
  h.congr _ rfl rfl le_rfl le_rfl h.eof h.small fun p _ => sameShape_setWord t m pos x p.nodeNum

lemma mapOf_setWord {pre post : List MapRecord} {m : MapRecord} (hc : chain=pre++m::post)
    {pos : ℕ} (x : BitVec 16) (hpos : pos<(t.recordWords m).length) :
    (t.setWord m pos x).mapOf chain=(t.mapOf chain).set ((t.mapOf pre).length+pos) x := by
  have hm : m∈chain := by simp [hc]
  have hother : ∀ l,(∀ p∈l,p.nodeNum≠m.nodeNum) → (t.setWord m pos x).mapOf l=t.mapOf l := by
    intro l hl
    rw [mapOf,mapOf,flatMap_congr]
    intro p hp
    rw [recordWords,recordWords,mapRecord,mapRecord,setWord_nodes t pos x (hl p hp)]
  have hself : (t.setWord m pos x).recordWords m=(t.recordWords m).set pos x := by
    rw [recordWords,length_mapWords] at hpos
    have hidx := h.hasRecord m hm
    rw [recordWords,recordWords,←mapWords_setMapWord hpos]
    congr 1
    simp only [mapRecord,BTree.setWord,updateNode,update_self,
      getD_eq_getElem?_getD,getElem?_modify_eq,getElem?_eq_getElem hidx,getD_some]
    rfl
  rw [hc,mapOf_append,mapOf_cons,mapOf_append,mapOf_cons,hself,
    hother pre fun p hp => (h.mem_of_split hc (.inl hp)).2,
    hother post fun p hp => (h.mem_of_split hc (.inr hp)).2,
    set_append_right _ _ (Nat.le_add_right _ _),Nat.add_sub_cancel_left,
    set_append_left _ _ hpos]

end MapChain
end BTree
end Darwin.Hfs

/-! `AllocateNode` and `FreeNode` on the bits of the map. -/
namespace Darwin.Hfs
open Lib.BitWords

lemma getMsbD_ones {i : ℕ} (hi : i<16) : (0xFFFF : BitVec 16).getMsbD i=true := by
  rw [show (0xFFFF : BitVec 16)=BitVec.allOnes 16 from rfl,BitVec.getMsbD_allOnes]
  exact decide_eq_true hi

lemma freeBit_spec {x : BitVec 16} (hx : x≠0xFFFF) (k : ℕ) (hk : k≤15)
    (hset : ∀ i<15-k,x.getMsbD i=true) :
    ∃ off≤15,BTree.freeBit x k (oneBit 16 (15-k))=(off,oneBit 16 (15-off)) ∧
      x.getMsbD (15-off)=false ∧ ∀ i<15-off,x.getMsbD i=true := by
  induction k with
  | zero =>
    refine ⟨0,by omega,rfl,?_,hset⟩
    by_contra hlast
    rw [Bool.not_eq_false] at hlast
    apply hx
    apply BitVec.eq_of_getMsbD_eq
    intro i hi
    rw [getMsbD_ones hi]
    rcases lt_or_ge i 15 with hlt | hge
    · exact hset i hlt
    · rw [show i=15 by omega]
      exact hlast
  | succ k ih =>
    rw [BTree.freeBit]
    by_cases hclear : x&&&oneBit 16 (15-(k+1))=0
    · rw [if_pos hclear]
      exact ⟨k+1,hk,rfl,(and_oneBit_eq_zero (by omega) x).mp hclear,hset⟩
    · rw [if_neg hclear,oneBit_ushiftRight (by omega),show 15-(k+1)+1=15-k by omega]
      apply ih (by omega)
      intro i hi
      rcases lt_or_ge i (15-(k+1)) with hlt | hge
      · exact hset i hlt
      · rw [and_oneBit_eq_zero (by omega),Bool.not_eq_false] at hclear
        rw [show i=15-(k+1) by omega]
        exact hclear

namespace BTree

/-- `t'` is `t` with the bits `f` in the map, and nothing else changed. -/
structure MapBits (t t' : BTree) (chain : List MapRecord) (f : ℕ → Bool) : Prop where
  same : t'={t with nodes := t'.nodes}
  mapChain : t'.MapChain chain
  lengths : ∀ m,(t'.recordWords m).length=(t.recordWords m).length
  bits : ∀ i,bitAt (t'.mapOf chain) i=f i
  others : ∀ k,k∉chain.map MapRecord.nodeNum → t'.nodes k=t.nodes k

lemma MapBits.length_mapOf {t t' : BTree} {chain : List MapRecord} {f : ℕ → Bool}
    (h : MapBits t t' chain f) (l : List MapRecord) : (t'.mapOf l).length=(t.mapOf l).length := by
  induction l with
  | nil => rfl
  | cons m l ih => rw [mapOf_cons,mapOf_cons,length_append,length_append,h.lengths,ih]

namespace MapChain
variable {t : BTree} {chain : List MapRecord} (h : t.MapChain chain)
include h

lemma withFreeNodes (n : ℕ) : {t with freeNodes := n}.MapChain chain :=
  h.congr _ rfl rfl le_rfl le_rfl h.eof h.small fun _ _ => ⟨⟨rfl,rfl,rfl,rfl,rfl⟩,rfl⟩

section
variable {pre post : List MapRecord} {m : MapRecord} (hc : chain=pre++m::post) {n : ℕ}
  (hn : n<16*(t.recordWords m).length)
include hc hn

omit h in
lemma getD_mapOf : (t.recordWords m).getD (n/16) 0 =
    (t.mapOf chain).getD ((16*(t.mapOf pre).length+n)/16) 0 := by
  have hpos : n/16<(t.recordWords m).length := by omega
  rw [mul_add_div (by decide),hc,mapOf_append,mapOf_cons,getD_eq_getElem?_getD,
    getD_eq_getElem?_getD,getElem?_append_right (le_add_right _ _),
    Nat.add_sub_cancel_left,getElem?_append_left hpos]

omit h in
lemma lt_length_mapOf : 16*(t.mapOf pre).length+n<16*(t.mapOf chain).length := by
  rw [hc,mapOf_append,mapOf_cons,length_append,length_append]
  omega

omit h in
lemma bitAt_mapOf : bitAt (t.mapOf chain) (16*(t.mapOf pre).length+n) =
    ((t.recordWords m).getD (n/16) 0).getMsbD (n%16) := by
  rw [bitAt,bitOf,getD_mapOf hc hn,mul_add_mod]

lemma mapBits_setWord {x : BitVec 16} {f : ℕ → Bool}
    (hf : ∀ i,bitAt ((t.mapOf chain).set ((16*(t.mapOf pre).length+n)/16) x) i=f i) :
    MapBits t (t.setWord m (n/16) x) chain f := by
  have hmap := h.mapOf_setWord hc x (show n/16<(t.recordWords m).length by omega)
  refine ⟨rfl,h.setWord m _ x,?_,?_,?_⟩
  · intro p
    rw [recordWords,recordWords,length_mapWords,length_mapWords,mapRecord,mapRecord,
      (sameShape_setWord t m (n/16) x p.nodeNum).1.length_getD]
  · intro i
    rw [hmap,←hf i,mul_add_div (by decide)]
  · intro k hk
    apply setWord_nodes t
    rintro rfl
    exact hk (mem_map_of_mem (by simp [hc]))

lemma setBit : MapBits t (t.setWord m (n/16) ((t.recordWords m).getD (n/16) 0|||oneBit 16 (n%16)))
    chain fun i => bitAt (t.mapOf chain) i || decide (i=16*(t.mapOf pre).length+n) := by
  apply h.mapBits_setWord hc hn
  intro i
  rw [getD_mapOf hc hn,←bitAt_set_or (by decide) (lt_length_mapOf hc hn),mul_add_mod]

lemma clearBit :
    MapBits t (t.setWord m (n/16) ((t.recordWords m).getD (n/16) 0&&&~~~oneBit 16 (n%16)))
      chain fun i => bitAt (t.mapOf chain) i && !decide (i=16*(t.mapOf pre).length+n) := by
  apply h.mapBits_setWord hc hn
  intro i
  rw [getD_mapOf hc hn,←bitAt_set_and (by decide) (lt_length_mapOf hc hn),mul_add_mod]

end

omit h in
lemma bitAt_of_full {pre post : List MapRecord} {m : MapRecord} (hc : chain=pre++m::post)
    (hm : ∀ x∈t.recordWords m,x=0xFFFF)
    (hpre : ∀ i<16*(t.mapOf pre).length,bitAt (t.mapOf chain) i=true) :
    ∀ i<16*(t.mapOf (pre++[m])).length,bitAt (t.mapOf chain) i=true := by
  intro i hi
  rcases lt_or_ge i (16*(t.mapOf pre).length) with hlt | hge
  · exact hpre i hlt
  · obtain ⟨n,rfl⟩ := Nat.exists_eq_add_of_le hge
    rw [mapOf_append,mapOf_cons,mapOf_nil,append_nil,length_append] at hi
    have hn : n/16<(t.recordWords m).length := by omega
    rw [bitAt_mapOf hc (by omega),getD_eq_getElem?_getD,getElem?_eq_getElem hn,
      getD_some,hm _ (getElem_mem hn)]
    exact getMsbD_ones (mod_lt n (by decide))

omit h in
lemma getMapNode_failed (prev : Option MapRecord) : ∃ e,t.getMapNode .failed prev=.error e := by
  cases prev with
  | none =>
    rw [getMapNode,getNode]
    split_ifs <;> exact ⟨_,rfl⟩
  | some m =>
    rw [getMapNode,getNode]
    split_ifs <;> exact ⟨_,rfl⟩

lemma allocateNodeLoop_spec (reads : ℕ → BlockRead) (fuel : ℕ) (pre post : List MapRecord)
    (hc : chain=pre++post) (hfuel : post.length<fuel)
    (hpre : ∀ i<16*(t.mapOf pre).length,bitAt (t.mapOf chain) i=true) :
    match t.allocateNodeLoop reads fuel pre.length pre.getLast? (16*(t.mapOf pre).length) with
    | .ok (n,t') => n<t.totalNodes ∧ bitAt (t.mapOf chain) n=false ∧
        ∃ u,MapBits t u chain (fun i => bitAt (t.mapOf chain) i || decide (i=n)) ∧
          t'={u with freeNodes := t.freeNodes-1}
    | .error _ => (∃ k<chain.length,reads k=.failed) ∨
        ∀ i<t.totalNodes,i<16*(t.mapOf chain).length → bitAt (t.mapOf chain) i=true := by
  induction fuel generalizing pre post with
  | zero => omega
  | succ fuel ih =>
    rw [allocateNodeLoop]
    cases post with
    | nil =>
      rw [append_nil] at hc
      subst hc
      rw [h.getMapNode_end]
      exact .inr fun i _ hi => hpre i hi
    | cons m post =>
      by_cases hr : reads pre.length=.failed
      · obtain ⟨e,he⟩ := getMapNode_failed pre.getLast?
        rw [hr,he]
        exact .inl ⟨pre.length,by simp [hc],hr⟩
      · rw [h.getMapNode_eq hc hr]
        have hm : m∈chain := by simp [hc]
        cases hfind : (t.recordWords m).findIdx? fun x => decide (x≠0xFFFF) with
        | none =>
          have hfull : ∀ x∈t.recordWords m,x=0xFFFF := by simpa using findIdx?_eq_none_iff.mp hfind
          have := ih (pre++[m]) post (by simp [hc]) (by simpa using hfuel)
            (bitAt_of_full hc hfull hpre)
          simpa only [hfind,length_append,length_singleton,getLast?_concat,mapOf_append,
            mapOf_cons,mapOf_nil,append_nil,mul_add,h.length_record hm] using this
        | some pos =>
          obtain ⟨hpos,hclear,hfirst⟩ := findIdx?_eq_some_iff_getElem.mp hfind
          rw [decide_eq_true_eq] at hclear
          have hword : (t.recordWords m).getD pos 0=(t.recordWords m)[pos] := by
            rw [getD_eq_getElem?_getD,getElem?_eq_getElem hpos,getD_some]
          obtain ⟨off,hoff,hfree,hbit,hbefore⟩ :=
            freeBit_spec hclear 15 le_rfl (fun i hi => absurd hi (by omega))
          have hmask : (0x8000 : BitVec 16)=oneBit 16 (15-15) := rfl
          -- the bit found, counted from the front of the record
          obtain ⟨n,hn⟩ : ∃ n,n=pos*16+(15-off) := ⟨_,rfl⟩
          have hdiv : n/16=pos := by omega
          have hmod : n%16=15-off := by omega
          have hlt : n<16*(t.recordWords m).length := by omega
          have hbitn : bitAt (t.mapOf chain) (16*(t.mapOf pre).length+n)=false := by
            rw [bitAt_mapOf hc hlt,hdiv,hmod,hword]
            exact hbit
          simp only [hfind,hword,hmask,hfree,add_assoc,←hn]
          by_cases hfullmap : t.totalNodes≤16*(t.mapOf pre).length+n
          · rw [if_pos hfullmap]
            refine .inr fun i hi hlen => ?_
            rcases lt_or_ge i (16*(t.mapOf pre).length) with hip | hip
            · exact hpre i hip
            · obtain ⟨j,rfl⟩ := Nat.exists_eq_add_of_le hip
              have hj : j/16<(t.recordWords m).length := by omega
              rw [bitAt_mapOf hc (by omega),getD_eq_getElem?_getD,getElem?_eq_getElem hj,getD_some]
              rcases lt_or_ge (j/16) pos with hjp | hjp
              · have hones := hfirst (j/16) hjp
                rw [Bool.not_eq_true,decide_eq_false_iff_not,not_not] at hones
                rw [hones]
                exact getMsbD_ones (mod_lt j (by decide))
              · have hjpos : j/16=pos := by omega
                simp only [hjpos]
                exact hbefore _ (by omega)
          · rw [if_neg hfullmap]
            refine ⟨by omega,hbitn,_,h.setBit hc hlt,?_⟩
            rw [hdiv,hmod,hword]

lemma findMapRecord_spec (reads : ℕ → BlockRead) {nodeNum : ℕ}
    (hnum : nodeNum<16*(t.mapOf chain).length) (fuel : ℕ) (pre post : List MapRecord)
    (hc : chain=pre++post) (hfuel : post.length<fuel)
    (hpre : 16*(t.mapOf pre).length≤nodeNum) :
    match t.findMapRecord reads nodeNum fuel pre.length pre.getLast? (16*(t.mapOf pre).length) with
    | .ok (m,nodeIndex) => ∃ pre' post',chain=pre'++m::post' ∧
        nodeIndex=16*(t.mapOf pre').length ∧ nodeIndex≤nodeNum ∧
        nodeNum-nodeIndex<16*(t.recordWords m).length
    | .error _ => ∃ k<chain.length,reads k=.failed := by
  induction fuel generalizing pre post with
  | zero => omega
  | succ fuel ih =>
    rw [findMapRecord]
    cases post with
    | nil =>
      rw [append_nil] at hc
      subst hc
      omega
    | cons m post =>
      by_cases hr : reads pre.length=.failed
      · obtain ⟨e,he⟩ := getMapNode_failed pre.getLast?
        rw [hr,he]
        exact ⟨pre.length,by simp [hc],hr⟩
      · rw [h.getMapNode_eq hc hr]
        have hm : m∈chain := by simp [hc]
        simp only [h.length_record hm]
        by_cases hnext : 16*(t.mapOf pre).length+16*(t.recordWords m).length≤nodeNum
        · rw [if_pos hnext]
          have := ih (pre++[m]) post (by simp [hc]) (by simpa using hfuel)
            (by simpa [mul_add] using hnext)
          simpa only [length_append,length_singleton,getLast?_concat,mapOf_append,
            mapOf_cons,mapOf_nil,append_nil,mul_add] using this
        · rw [if_neg hnext]
          exact ⟨pre,post,hc,rfl,hpre,by omega⟩

end MapChain

namespace MapOK
variable {t : BTree} {chain : List MapRecord} (h : t.MapOK chain)
include h

lemma of_mapBits {u : BTree} {f : ℕ → Bool} (hu : MapBits t u chain f) {n : ℕ}
    (hhigh : ∀ i,t.totalNodes ≤ i → f i=false) (hcount : n=clearBelow f t.totalNodes) :
    {u with freeNodes := n}.MapOK chain := by
  have hsame : u.totalNodes=t.totalNodes := by rw [hu.same]
  refine ⟨hu.mapChain.withFreeNodes n,?_,?_,?_,?_⟩
  · have := h.cover
    change u.totalNodes≤16*(u.mapOf chain).length
    rw [hu.length_mapOf,hsame]
    exact this
  · intro i hi
    exact (hu.bits i).trans (hhigh i (hsame▸hi))
  · change n=clearBelow (bitAt (u.mapOf chain)) u.totalNodes
    rw [hcount,hsame]
    exact clearBelow_congr fun i _ => (hu.bits i).symm
  · intro pre m hc
    change 16*(u.mapOf pre).length≤u.totalNodes
    rw [hu.length_mapOf,hsame]
    exact h.lastStart pre m hc

/-- `AllocateNode` takes a node whose bit was clear and sets that bit; it fails only if
a read does or no node is free. -/
theorem allocateNode_spec (reads : ℕ → BlockRead) :
    match t.allocateNode reads with
    | .ok (n,t') => n<t.totalNodes ∧ bitAt (t.mapOf chain) n=false ∧ t'.MapOK chain ∧
        ∃ u,MapBits t u chain (fun i => bitAt (t.mapOf chain) i || decide (i=n)) ∧
          t'={u with freeNodes := t.freeNodes-1}
    | .error _ => (∃ k<chain.length,reads k=.failed) ∨ t.freeNodes=0 := by
  have hspec := h.allocateNodeLoop_spec reads (t.totalNodes+1) [] chain rfl
    (Nat.lt_succ_of_le h.length_le) (by simp)
  simp only [length_nil,getLast?_nil,mapOf_nil,mul_zero] at hspec
  rw [allocateNode]
  revert hspec
  rcases t.allocateNodeLoop reads (t.totalNodes+1) 0 none 0 with e | ⟨n,t'⟩ <;> intro hspec
  · refine hspec.imp_right fun hfull => ?_
    rw [h.count]
    by_contra hpos
    obtain ⟨i,hi,hclear⟩ := exists_clear_of_pos (pos_of_ne_zero hpos)
    rw [hfull i hi (hi.trans_le h.cover)] at hclear
    cases hclear
  · obtain ⟨hn,hclear,u,hu,rfl⟩ := hspec
    refine ⟨hn,hclear,h.of_mapBits hu ?_ ?_,u,hu,rfl⟩
    · intro i hi
      rw [h.high i hi,decide_eq_false (by omega)]
      rfl
    · have := clearBelow_add_card (f := bitAt (t.mapOf chain))
        (g := fun i => bitAt (t.mapOf chain) i || decide (i=n)) (s := {n})
        (by simpa using hn) (by simpa using hclear) (by simp) (fun i _ hi => by simp_all)
      rw [h.count]
      simp only [Finset.card_singleton] at this
      omega

lemma freeNode_spec (reads : ℕ → BlockRead) {nodeNum : ℕ} (hn : nodeNum<t.totalNodes)
    (hset : bitAt (t.mapOf chain) nodeNum=true) :
    match t.freeNode reads nodeNum with
    | .ok t' => t'.MapOK chain ∧
        ∃ u,MapBits t u chain (fun i => bitAt (t.mapOf chain) i && !decide (i=nodeNum)) ∧
          t'={u with freeNodes := t.freeNodes+1}
    | .error _ => ∃ k<chain.length,reads k=.failed := by
  have hspec := h.findMapRecord_spec reads (hn.trans_le h.cover) (t.totalNodes+1) [] chain rfl
    (Nat.lt_succ_of_le h.length_le) (by simp)
  simp only [length_nil,getLast?_nil,mapOf_nil,mul_zero] at hspec
  rw [freeNode]
  revert hspec
  rcases t.findMapRecord reads nodeNum (t.totalNodes+1) 0 none 0 with e | ⟨m,nodeIndex⟩ <;>
    intro hspec
  · exact hspec
  · obtain ⟨pre,post,hc,rfl,hle,hlt⟩ := hspec
    have hu := h.clearBit hc hlt
    rw [Nat.add_sub_cancel' hle] at hu
    refine ⟨h.of_mapBits hu ?_ ?_,_,hu,rfl⟩
    · intro i hi
      rw [h.high i hi]
      rfl
    · have := clearBelow_add_card (g := bitAt (t.mapOf chain))
        (f := fun i => bitAt (t.mapOf chain) i && !decide (i=nodeNum)) (s := {nodeNum})
        (by simpa using hn) (by simp) (by simpa using hset) (fun i _ hi => by simp_all)
      rw [h.count]
      simpa only [Finset.card_singleton] using this

end MapOK
end BTree
end Darwin.Hfs
