import Darwin.Hfs.BTree.MapChain

/-! `ExtendBTree`: the chain grows by new map nodes, which it then marks as allocated. -/
open List Function Nat
namespace Darwin.Hfs
open Lib.BitWords
namespace BTree

namespace MapChain
variable {t : BTree} {chain : List MapRecord} (h : t.MapChain chain)
include h

lemma lastMapRecord_spec (reads : ℕ → BlockRead) (fuel : ℕ) (pre post : List MapRecord)
    (hc : chain=pre++post) (hpost : post≠[]) (hfuel : post.length≤fuel) :
    match t.lastMapRecord reads fuel pre.length pre.getLast? (16*(t.mapOf pre).length) with
    | .ok (m,totalMapBits) => (∃ pre',chain=pre'++[m] ∧ totalMapBits=16*(t.mapOf pre').length) ∧
        ∀ k,pre.length≤k → k<chain.length → reads k≠.failed
    | .error _ => ∃ k<chain.length,reads k=.failed := by
  induction fuel generalizing pre post with
  | zero => exact absurd (length_eq_zero_iff.mp (le_zero.mp hfuel)) hpost
  | succ fuel ih =>
    rw [lastMapRecord]
    obtain ⟨m,post,rfl⟩ := exists_cons_of_ne_nil hpost
    by_cases hr : reads pre.length=.failed
    · obtain ⟨e,he⟩ := getMapNode_failed pre.getLast?
      rw [hr,he]
      exact ⟨pre.length,by simp [hc],hr⟩
    · rw [h.getMapNode_eq hc hr]
      have hm : m∈chain := by simp [hc]
      have hlink := h.linked
      rw [hc] at hlink
      simp only [hlink.split]
      cases post with
      | nil =>
        refine ⟨⟨pre,hc,rfl⟩,fun k hk hlt => ?_⟩
        rw [hc,length_append,length_singleton] at hlt
        rwa [show k=pre.length by omega]
      | cons p post =>
        have hp := (h.tail_record (show chain=(pre++[m])++p::post by simp [hc]) (by simp)).2
        rw [headD_cons,if_pos hp]
        have := ih (pre++[m]) (p::post) (by simp [hc]) (by simp) (by simpa using hfuel)
        simp only [length_append,length_singleton,getLast?_concat,mapOf_append,
          mapOf_cons,mapOf_nil,append_nil,mul_add] at this
        rw [h.length_record hm]
        revert this
        rcases t.lastMapRecord reads fuel (pre.length+1) (some m)
          (16*(t.mapOf pre).length+16*(t.recordWords m).length) with e | ⟨r,bits⟩ <;>
          intro this
        · exact this
        · refine ⟨this.1,fun k hk hlt => ?_⟩
          rcases eq_or_lt_of_le hk with rfl | hgt
          · exact hr
          · exact this.2 k hgt hlt

end MapChain

/-- The nodes once the map nodes from `first` to `last` have been initialized. -/
def withMapNodes (t : BTree) (first last k : ℕ) : Node :=
  if first≤k ∧ k≤last then newMapNode t.toBTreeControlBlock (if k=last then 0 else k+1)
  else t.nodes k

lemma createMapNodes_eq (created : ℕ → Bool) (last : ℕ) (n : ℕ) (t : BTree) (first : ℕ)
    (hlast : last+1=first+n) (hcreated : ∀ k,first≤k → k≤last → created k=true) :
    t.createMapNodes created last n first =
      (true,{t with nodes := t.withMapNodes first last}) := by
  induction n generalizing t first with
  | zero =>
    have hnodes : t.withMapNodes first last=t.nodes := by
      funext k
      rw [withMapNodes,if_neg (by omega)]
    rw [createMapNodes,hnodes]
  | succ n ih =>
    rw [createMapNodes,if_neg (by rw [hcreated first le_rfl (by omega)]; decide)]
    by_cases hfirst : first=last
    · subst hfirst
      have hnodes : t.withMapNodes first first =
          update t.nodes first (newMapNode t.toBTreeControlBlock 0) := by
        funext k
        by_cases hk : k=first
        · subst hk
          rw [update_self,withMapNodes,if_pos ⟨le_rfl,le_rfl⟩,if_pos rfl]
        · rw [update_of_ne hk,withMapNodes,if_neg (by omega)]
      rw [if_pos rfl,hnodes,updateNode]
    · have hnodes : (t.updateNode first (newMapNode t.toBTreeControlBlock (first+1))).withMapNodes
          (first+1) last=t.withMapNodes first last := by
        funext k
        simp only [withMapNodes,updateNode]
        by_cases hk : k=first
        · subst hk
          rw [if_neg (by omega),if_pos (by omega),if_neg hfirst,update_self]
        · rw [update_of_ne hk]
          by_cases hin : first+1≤k ∧ k≤last
          · rw [if_pos hin,if_pos (show first≤k ∧ k≤last by omega)]
          · rw [if_neg hin,if_neg (by omega)]
      rw [if_neg hfirst,ih _ (first+1) (by omega) fun k hk => hcreated k (by omega),hnodes]
      rfl

def newRecords (first n : ℕ) : List MapRecord := (range' first n).map fun k => ⟨k,0⟩

lemma Linked.extend {nodes nodes' : ℕ → Node} {pre l : List MapRecord} {m : MapRecord}
    (h : Linked nodes (pre++[m]))
    (hpre : ∀ p∈pre,(nodes' p.nodeNum).fLink=(nodes p.nodeNum).fLink)
    (hm : (nodes' m.nodeNum).fLink=(l.headD ⟨0,0⟩).nodeNum) (hl : Linked nodes' l) :
    Linked nodes' (pre++m::l) := by
  induction pre with
  | nil => exact ⟨hm,hl⟩
  | cons p pre ih =>
    refine ⟨?_,ih h.2 fun q hq => hpre q (by simp [hq])⟩
    rw [hpre p (by simp),h.1]
    cases pre <;> rfl

lemma linked_newRecords {nodes : ℕ → Node} (n : ℕ) (first last : ℕ) (hlast : last+1=first+n)
    (hnodes : ∀ k,first≤k → k≤last → (nodes k).fLink=if k=last then 0 else k+1) :
    Linked nodes (newRecords first n) := by
  induction n generalizing first with
  | zero => trivial
  | succ n ih =>
    refine ⟨?_,ih (first+1) (by omega) fun k hk => hnodes k (by omega)⟩
    change (nodes first).fLink=((newRecords (first+1) n).headD ⟨0,0⟩).nodeNum
    rw [hnodes first le_rfl (by omega)]
    cases n with
    | zero =>
      rw [if_pos (by omega)]
      rfl
    | succ n =>
      rw [if_neg (by omega)]
      rfl

lemma mem_newRecords {first n : ℕ} {m : MapRecord} :
    m∈newRecords first n ↔ (first ≤ m.nodeNum ∧ m.nodeNum<first+n) ∧ m.mapIndex=0 := by
  simp only [newRecords,mem_map,mem_range'_1]
  constructor
  · rintro ⟨k,hk,rfl⟩
    exact ⟨hk,rfl⟩
  · rintro ⟨hk,hidx⟩
    exact ⟨m.nodeNum,hk,by rw [←hidx]⟩

@[simp] lemma length_newRecords (first n : ℕ) : (newRecords first n).length=n := by
  simp [newRecords]

lemma newRecords_add (first i j : ℕ) :
    newRecords first (i+j)=newRecords first i++newRecords (first+i) j := by
  rw [newRecords,newRecords,newRecords,←map_append,range'_append_1]

lemma split_newRecords {chain pre post : List MapRecord} {p : MapRecord} {first n : ℕ}
    (hc : chain++newRecords first n=pre++p::post) (hle : chain.length≤pre.length) :
    ∃ i<n,pre=chain++newRecords first i ∧ p.nodeNum=first+i := by
  obtain ⟨i,hi⟩ := Nat.exists_eq_add_of_le hle
  have hlen := congrArg List.length hc
  rw [length_append,length_append,length_cons,length_newRecords] at hlen
  obtain ⟨j,rfl⟩ : ∃ j,n=i+(j+1) := ⟨n-i-1,by omega⟩
  rw [newRecords_add,←append_assoc] at hc
  obtain ⟨hpre,hpost⟩ := append_inj hc (by simp [hi])
  exact ⟨i,by omega,hpre.symm,congrArg MapRecord.nodeNum (List.cons.inj hpost).1.symm⟩

lemma newMapNode_checked {t : BTree} (hsize : 512≤t.nodeSize ∧ t.nodeSize%2=0) {fLink : ℕ}
    (hlink : fLink≤t.fcbEOF/t.nodeSize-1) :
    t.checkNode (newMapNode t.toBTreeControlBlock fLink)=true := by
  have hoff : (newMapNode t.toBTreeControlBlock fLink).getRecordOffset 1=t.nodeSize-6 := by
    simp only [newMapNode,Node.getRecordOffset,mapNodeRecSize,sizeofBTNodeDescriptor,
      take_succ_cons,take_nil,map_cons,map_nil,sum_cons,sum_nil,length_replicate]
    omega
  have hoff0 : (newMapNode t.toBTreeControlBlock fLink).getRecordOffset 0=14 := rfl
  rw [checkNode]
  have hkind : (newMapNode t.toBTreeControlBlock fLink).kind=.map := rfl
  have hnum : (newMapNode t.toBTreeControlBlock fLink).numRecords=1 := rfl
  have hb : (newMapNode t.toBTreeControlBlock fLink).bLink=0 := rfl
  have hf : (newMapNode t.toBTreeControlBlock fLink).fLink=fLink := rfl
  have hh : (newMapNode t.toBTreeControlBlock fLink).height=0 := rfl
  simp only [hkind,hnum,hb,hf,hh,checkOffsets,offsetFits,hoff,hoff0,sizeofBTNodeDescriptor]
  rw [if_neg (by omega),if_neg (by simp),if_neg (by omega),if_neg (by omega),if_neg (by omega),
    if_neg (by omega),if_neg (by omega),if_neg (by omega)]
  simp

/-- What has happened to the nodes when the new map nodes are ready: the last record's
node links to the first of them. -/
structure Grown (t u : BTree) (m : MapRecord) (n newTotalNodes : ℕ) : Prop where
  same : u={t with totalNodes := newTotalNodes,nodes := u.nodes}
  last : u.nodes m.nodeNum={t.nodes m.nodeNum with fLink := t.totalNodes}
  old : ∀ k<t.totalNodes,k≠m.nodeNum → u.nodes k=t.nodes k
  new : ∀ k,t.totalNodes≤k → k<t.totalNodes+n → u.nodes k =
    newMapNode t.toBTreeControlBlock (if k=t.totalNodes+n-1 then 0 else k+1)

def grownTree (t : BTree) (m : MapRecord) (n newTotalNodes : ℕ) : BTree :=
  let u := {t with totalNodes := newTotalNodes}.updateNode m.nodeNum
    {t.nodes m.nodeNum with fLink := t.totalNodes}
  {u with nodes := u.withMapNodes t.totalNodes (t.totalNodes+n-1)}

lemma grown_grownTree {t : BTree} {m : MapRecord} (hm : m.nodeNum<t.totalNodes)
    (n newTotalNodes : ℕ) :
    Grown t (t.grownTree m n newTotalNodes) m n newTotalNodes where
  same := rfl
  last := by
    simp only [grownTree,withMapNodes,updateNode,update_self]
    rw [if_neg (by omega)]
  old k hk hkm := by
    simp only [grownTree,withMapNodes,updateNode,update_of_ne hkm]
    rw [if_neg (by omega)]
  new k hk hk' := by
    simp only [grownTree,withMapNodes,updateNode]
    rw [if_pos ⟨hk,by omega⟩]
    rfl

namespace MapChain
variable {t u : BTree} {chain pre : List MapRecord} {m : MapRecord} {n newTotalNodes : ℕ}
  (h : t.MapChain chain) (hu : Grown t u m n newTotalNodes)
include h hu

lemma grown_sameShape {p : MapRecord} (hp : p∈chain) :
    SameShape (t.nodes p.nodeNum) (u.nodes p.nodeNum) := by
  by_cases hpm : p.nodeNum=m.nodeNum
  · rw [hpm,hu.last]
    exact ⟨rfl,rfl,rfl,rfl,rfl⟩
  · rw [hu.old _ (h.inFile p hp) hpm]
    exact ⟨rfl,rfl,rfl,rfl,rfl⟩

lemma mapOf_grown {l : List MapRecord} (hl : ∀ p∈l,p∈chain) : u.mapOf l=t.mapOf l := by
  rw [mapOf,mapOf,flatMap_congr]
  intro p hp
  rw [recordWords,recordWords,mapRecord,mapRecord]
  by_cases hpm : p.nodeNum=m.nodeNum
  · rw [hpm,hu.last]
  · rw [hu.old _ (h.inFile p (hl p hp)) hpm]

omit h in
lemma mapOf_grown_new (k : ℕ) (hk : k≤n) : u.mapOf (newRecords t.totalNodes k) =
    replicate (k*(mapNodeRecSize t.toBTreeControlBlock/2)) 0 := by
  induction k with
  | zero => simp [newRecords]
  | succ k ih =>
    rw [newRecords,range'_concat,map_append,mapOf_append,←newRecords,ih (by omega),
      Nat.add_one_mul k,replicate_add]
    congr 1
    simp only [map_cons,map_nil,mapOf_cons,mapOf_nil,append_nil,recordWords,
      mapRecord,one_mul,hu.new (t.totalNodes+k) (by omega) (by omega)]
    exact mapWords_replicate _ 0

lemma mapOf_grown_append {k : ℕ} (hk : k≤n) : u.mapOf (chain++newRecords t.totalNodes k) =
    t.mapOf chain++replicate (k*(mapNodeRecSize t.toBTreeControlBlock/2)) 0 := by
  rw [mapOf_append,h.mapOf_grown hu fun p hp => hp,mapOf_grown_new hu k hk]

lemma length_mapOf_grown {k : ℕ} (hk : k≤n) :
    16*(u.mapOf (chain++newRecords t.totalNodes k)).length =
      16*(t.mapOf chain).length+k*(8*mapNodeRecSize t.toBTreeControlBlock) := by
  have hrec : 8*mapNodeRecSize t.toBTreeControlBlock =
      16*(mapNodeRecSize t.toBTreeControlBlock/2) := by
    have := h.nodeSize
    simp only [mapNodeRecSize,sizeofBTNodeDescriptor]
    omega
  rw [h.mapOf_grown_append hu hk,length_append,length_replicate,hrec]
  ring

lemma bitAt_mapOf_grown (i : ℕ) : bitAt (u.mapOf (chain++newRecords t.totalNodes n)) i =
    bitAt (t.mapOf chain) i := by
  rw [h.mapOf_grown_append hu le_rfl,bitAt_append_zeros (by decide)]

lemma grown (hc : chain=pre++[m]) (hn : 0<n) (hnew : t.totalNodes+n≤newTotalNodes)
    (hfit : newTotalNodes*t.nodeSize≤t.fcbEOF) : u.MapChain (chain++newRecords t.totalNodes n) := by
  have hsize := h.nodeSize
  have hpos : 0<t.totalNodes := zero_lt_of_lt (h.inFile m (by simp [hc]))
  have hmax : newTotalNodes≤t.fcbEOF/t.nodeSize :=
    (le_div_iff_mul_le (by omega)).mpr hfit
  have hutotal : u.totalNodes=newTotalNodes := by rw [hu.same]
  have hueof : u.fcbEOF=t.fcbEOF := by rw [hu.same]
  have husize : u.nodeSize=t.nodeSize := by rw [hu.same]
  have hudepth : u.treeDepth=t.treeDepth := by rw [hu.same]
  have hin : ∀ p∈pre,p∈chain ∧ p.nodeNum≠m.nodeNum :=
    fun p hp => h.mem_of_split hc (.inl hp)
  have hnewLink : ∀ k,t.totalNodes≤k → k≤t.totalNodes+n-1 →
      (u.nodes k).fLink=if k=t.totalNodes+n-1 then 0 else k+1 := by
    intro k hk hk'
    rw [hu.new k hk (by omega)]
    rfl
  refine
    { nodeSize := by rw [husize]; exact hsize
      head := ?_
      linked := ?_
      nodup := ?_
      inFile := ?_
      kind := ?_
      checked := ?_
      hasRecord := ?_
      words := ?_
      eof := by rw [hutotal,husize,hueof]; exact hfit
      small := by rw [hueof,husize]; exact h.small}
  · obtain ⟨rest,hhead,hrest⟩ := h.head
    refine ⟨rest++newRecords t.totalNodes n,by rw [hhead]; rfl,fun p hp => ?_⟩
    rcases mem_append.mp hp with hp | hp
    · exact hrest p hp
    · obtain ⟨hnum,hidx⟩ := mem_newRecords.mp hp
      exact ⟨hidx,by omega⟩
  · rw [hc,append_assoc,singleton_append]
    refine Linked.extend (hc▸h.linked) (fun p hp => ?_) ?_
      (linked_newRecords n _ (t.totalNodes+n-1) (by omega) hnewLink)
    · rw [hu.old _ (h.inFile p (hin p hp).1) (hin p hp).2]
    · rw [hu.last]
      cases n with
      | zero => omega
      | succ n => rfl
  · rw [map_append,nodup_append]
    refine ⟨h.nodup,?_,?_⟩
    · rw [newRecords,map_map]
      exact (map_id _).symm▸nodup_range' 1 one_pos
    · intro a ha b hb hab
      obtain ⟨p,hp,rfl⟩ := mem_map.mp ha
      obtain ⟨q,hq,rfl⟩ := mem_map.mp hb
      have := h.inFile p hp
      have := (mem_newRecords.mp hq).1
      omega
  · intro p hp
    rw [hutotal]
    rcases mem_append.mp hp with hp | hp
    · have := h.inFile p hp
      omega
    · have := (mem_newRecords.mp hp).1
      omega
  · intro p hp
    rcases mem_append.mp hp with hp | hp
    · rw [(h.grown_sameShape hu hp).2.1,h.kind p hp]
    · have := (mem_newRecords.mp hp).1
      rw [hu.new _ this.1 this.2,if_neg (show ¬p.nodeNum=0 by omega)]
      rfl
  · intro p hp
    rcases mem_append.mp hp with hp | hp
    · refine (h.grown_sameShape hu hp).checkNode (h.kind_ne_leaf hp) husize hudepth hueof.ge ?_
        (h.checked p hp)
      rw [hueof,husize]
      by_cases hpm : p.nodeNum=m.nodeNum
      · rw [hpm,hu.last]
        change t.totalNodes≤_
        omega
      · rw [hu.old _ (h.inFile p hp) hpm]
        have hcheck := h.checked p hp
        rw [checkNode] at hcheck
        split_ifs at hcheck with h1
        omega
    · have hnum := (mem_newRecords.mp hp).1
      rw [hu.new _ hnum.1 hnum.2,hu.same]
      apply newMapNode_checked (t := {t with totalNodes := newTotalNodes,nodes := u.nodes}) hsize
      change _≤t.fcbEOF/t.nodeSize-1
      split_ifs <;> omega
  · intro p hp
    rcases mem_append.mp hp with hp | hp
    · have := (h.grown_sameShape hu hp).numRecords
      rw [Node.numRecords,Node.numRecords] at this
      rw [this]
      exact h.hasRecord p hp
    · obtain ⟨hnum,hidx⟩ := mem_newRecords.mp hp
      rw [hu.new _ hnum.1 hnum.2,hidx]
      exact one_pos
  · intro p hp
    rcases mem_append.mp hp with hp | hp
    · rw [mapRecord,(h.grown_sameShape hu hp).length_getD]
      exact h.words p hp
    · obtain ⟨hnum,hidx⟩ := mem_newRecords.mp hp
      rw [mapRecord,hu.new _ hnum.1 hnum.2,hidx]
      have hrec : ((newMapNode t.toBTreeControlBlock (if p.nodeNum=t.totalNodes+n-1 then 0
          else p.nodeNum+1)).records.getD 0 []).length=t.nodeSize-14-6 :=
        length_replicate
      rw [hrec]
      omega

end MapChain
lemma MapBits.trans {t u v : BTree} {chain : List MapRecord} {f g : ℕ → Bool}
    (h : MapBits t u chain f) (h' : MapBits u v chain g) : MapBits t v chain g where
  same := by rw [h'.same,h.same]
  mapChain := h'.mapChain
  lengths m := (h'.lengths m).trans (h.lengths m)
  bits := h'.bits
  others k hk := (h'.others k hk).trans (h.others k hk)

namespace MapChain
variable {t : BTree} {chain : List MapRecord} (h : t.MapChain chain)
include h

/-- The reads that a walk from the record after `pre` up to the bit `limit - 1` makes. -/
def ReadsBelow (t : BTree) (chain : List MapRecord) (marked : ℕ → BlockRead) (from' limit : ℕ) :
    Prop :=
  ∀ pre p post,chain=pre++p::post → from'<pre.length → 16*(t.mapOf pre).length<limit →
    marked p.nodeNum≠.failed

lemma nextMapRecord_spec {marked : ℕ → BlockRead} {nodeNum : ℕ} (hsmall : nodeNum<2^32)
    (hnum : nodeNum<16*(t.mapOf chain).length) (fuel : ℕ) (pre post : List MapRecord)
    (m : MapRecord) (hc : chain=pre++m::post) (hfuel : post.length<fuel)
    (hpre : 16*(t.mapOf pre).length≤nodeNum)
    (hreads : ReadsBelow t chain marked pre.length (nodeNum+1)) :
    ∃ pre' m' post',chain=pre'++m'::post' ∧ pre.length≤pre'.length ∧
      t.nextMapRecord marked nodeNum fuel m (16*(t.mapOf pre).length) =
        .ok (m',16*(t.mapOf pre').length) ∧ 16*(t.mapOf pre').length≤nodeNum ∧
      nodeNum-16*(t.mapOf pre').length<16*(t.recordWords m').length := by
  induction fuel generalizing pre post m with
  | zero => omega
  | succ fuel ih =>
    have hm : m∈chain := by simp [hc]
    rw [nextMapRecord,h.length_record hm,
      show (nodeNum+2^32-16*(t.mapOf pre).length)%2^32 =
        nodeNum-16*(t.mapOf pre).length by omega]
    by_cases hnext : 16*(t.recordWords m).length≤nodeNum-16*(t.mapOf pre).length
    · have hlen : (t.mapOf (pre++[m])).length=(t.mapOf pre).length+(t.recordWords m).length := by
        simp
      cases post with
      | nil =>
        rw [hc,hlen] at hnum
        omega
      | cons p post =>
        have hc' : chain=(pre++[m])++p::post := by simp [hc]
        have hp := h.tail_record hc' (by simp)
        have hlink := h.linked
        rw [hc] at hlink
        have hread := hreads _ p post hc' (by simp) (by rw [hlen]; omega)
        have hget : t.getNode (marked p.nodeNum) p.nodeNum=.ok (t.nodes p.nodeNum) :=
          h.getNode_eq (by simp [hc]) hread
        simp only [hlink.split,headD_cons,if_pos hnext,if_neg hp.2,hget]
        have hstart : 16*(t.mapOf pre).length+16*(t.recordWords m).length =
            16*(t.mapOf (pre++[m])).length := by
          rw [hlen,mul_add]
        obtain ⟨pre',m',post',hc'',hle,hrest⟩ := ih (pre++[m]) post p hc' (by simpa using hfuel)
          (by rw [hlen]; omega) (fun pre' q post' hq hlt => hreads pre' q post' hq (by
            rw [length_append] at hlt
            omega))
        rw [hstart,show (⟨p.nodeNum,0⟩ : MapRecord)=p by rw [←hp.1]]
        rw [length_append] at hle
        exact ⟨pre',m',post',hc'',by omega,hrest⟩
    · rw [if_neg hnext]
      exact ⟨pre,m,post,hc,le_rfl,rfl,hpre,by omega⟩

end MapChain

lemma markMapNodes_spec {chain : List MapRecord} {marked : ℕ → BlockRead} (n : ℕ) (t : BTree)
    (h : t.MapChain chain) (nodeNum : ℕ) (pre post : List MapRecord) (m : MapRecord)
    (hc : chain=pre++m::post) (hpre : 16*(t.mapOf pre).length≤nodeNum)
    (hsmall : nodeNum+n≤2^32) (hnum : nodeNum+n≤16*(t.mapOf chain).length)
    (hreads : MapChain.ReadsBelow t chain marked pre.length (nodeNum+n)) :
    ∃ u,t.markMapNodes marked n nodeNum m (16*(t.mapOf pre).length)=(none,u) ∧ MapBits t u chain
        (fun i => bitAt (t.mapOf chain) i || decide (nodeNum ≤ i ∧ i<nodeNum+n)) := by
  induction n generalizing t nodeNum pre post m with
  | zero =>
    refine ⟨t,rfl,rfl,h,fun _ => rfl,fun i => ?_,fun _ _ => rfl⟩
    rw [decide_eq_false (by omega),Bool.or_false]
  | succ n ih =>
    have hfuel : post.length<t.totalNodes+1 := by
      have := h.length_le
      rw [hc,length_append,length_cons] at this
      omega
    obtain ⟨pre',m',post',hc',hle,hnext,hstart,hlt⟩ := h.nextMapRecord_spec
      (show nodeNum<2^32 by omega) (by omega) _ pre post m hc hfuel hpre
      (fun q p r hq hl hb => hreads q p r hq hl (by omega))
    have hset := h.setBit hc' hlt
    rw [Nat.add_sub_cancel' hstart] at hset
    obtain ⟨v,hv⟩ : ∃ v,v=t.setWord m' ((nodeNum-16*(t.mapOf pre').length)/16)
        ((t.recordWords m').getD ((nodeNum-16*(t.mapOf pre').length)/16) 0 |||
          oneBit 16 ((nodeNum-16*(t.mapOf pre').length)%16)) := ⟨_,rfl⟩
    rw [←hv] at hset
    have hlen := hset.length_mapOf
    obtain ⟨u,hu,hbits⟩ := ih v hset.mapChain (nodeNum+1) pre' post' m' hc'
      (by rw [hlen]; omega) (by omega) (by rw [hlen]; omega)
      (fun q p r hq hl hb => hreads q p r hq (by omega) (by rw [←hlen]; omega))
    refine ⟨u,?_,hset.trans ?_⟩
    · rw [markMapNodes,hnext]
      rw [hlen] at hu
      rw [←hu,hv]
      rfl
    · convert hbits using 2 with i
      rw [hset.bits i,Bool.or_assoc]
      congr 1
      rw [←Bool.decide_or,decide_eq_decide]
      omega

def mapGrowth (t : BTree) (chain : List MapRecord) : ℕ :=
  newMapNodes t.toBTreeControlBlock (t.fcbEOF/t.nodeSize) (16*(t.mapOf chain).length)

/-- The new map nodes can be had, and read again where the marking gets to them. -/
def GrowthReads (t : BTree) (chain : List MapRecord) (io : ExtendIO) : Prop :=
  ∀ i<t.mapGrowth chain,io.created (t.totalNodes+i)=true ∧
    (16*(t.mapOf chain).length+i*(8*mapNodeRecSize t.toBTreeControlBlock) <
      t.totalNodes+t.mapGrowth chain → io.marked (t.totalNodes+i)≠.failed)

/-- The map after `ExtendBTree`: the chain has grown by map nodes whose own bits are set. -/
structure Extended (t t' : BTree) (chain chain' : List MapRecord) (n : ℕ) : Prop where
  mapOK : t'.MapOK chain'
  records : chain'=chain++newRecords t.totalNodes n
  bits : ∀ i,bitAt (t'.mapOf chain') i =
    (bitAt (t.mapOf chain) i || decide (t.totalNodes ≤ i ∧ i<t.totalNodes+n))

section
variable {t : BTree} {chain : List MapRecord} (h : t.MapOK chain)
include h

lemma MapOK.withTotalNodes {newTotalNodes : ℕ} (hle : t.totalNodes≤newTotalNodes)
    (hcover : newTotalNodes≤16*(t.mapOf chain).length)
    (hfit : newTotalNodes*t.nodeSize≤t.fcbEOF) :
    { t with totalNodes := newTotalNodes,
             freeNodes := t.freeNodes+(newTotalNodes-t.totalNodes)}.MapOK chain where
  toMapChain := h.congr _ rfl rfl hle le_rfl hfit h.small fun _ _ => ⟨⟨rfl,rfl,rfl,rfl,rfl⟩,rfl⟩
  cover := hcover
  high i hi := h.high i (hle.trans hi)
  count := by
    change t.freeNodes+(newTotalNodes-t.totalNodes) =
      clearBelow (bitAt (t.mapOf chain)) newTotalNodes
    rw [clearBelow_of_clear hle fun i hi _ => h.high i hi,h.count]
  lastStart pre m hc := (h.lastStart pre m hc).trans hle

lemma MapOK.mapGrowth_bounds (hlt : 16*(t.mapOf chain).length<t.fcbEOF/t.nodeSize) :
    ∃ q,t.mapGrowth chain=q+1 ∧
      16*(t.mapOf chain).length+q*(8*mapNodeRecSize t.toBTreeControlBlock)≤t.fcbEOF/t.nodeSize ∧
      t.fcbEOF/t.nodeSize <
        16*(t.mapOf chain).length+(q+1)*(8*mapNodeRecSize t.toBTreeControlBlock) := by
  have hrec : 0<8*mapNodeRecSize t.toBTreeControlBlock := by
    have := h.nodeSize
    simp only [mapNodeRecSize,sizeofBTNodeDescriptor]
    omega
  refine ⟨_,if_neg (not_le.mpr hlt),?_,?_⟩
  · rw [Nat.div_div_eq_div_mul]
    have := div_mul_le_self (t.fcbEOF/t.nodeSize-16*(t.mapOf chain).length)
      (8*mapNodeRecSize t.toBTreeControlBlock)
    omega
  · rw [Nat.div_div_eq_div_mul]
    have := lt_div_mul_add hrec (a := t.fcbEOF/t.nodeSize-16*(t.mapOf chain).length)
    rw [add_one_mul (_/_)]
    omega

omit h in
lemma addMapNodes_eq {io : ExtendIO} (hio : GrowthReads t chain io) {m : MapRecord} {recStartBit : ℕ}
    (htotal : recStartBit+(t.mapRecord m).length*8=16*(t.mapOf chain).length)
    (hlt : 16*(t.mapOf chain).length<t.fcbEOF/t.nodeSize) {q : ℕ}
    (hq : t.mapGrowth chain=q+1) : t.addMapNodes io m recStartBit =
      match (t.grownTree m (t.mapGrowth chain) (t.fcbEOF/t.nodeSize)).markMapNodes io.marked
        (t.mapGrowth chain) t.totalNodes m recStartBit with
      | (some e,u) => (some e,u)
      | (none,u) => (none,{ u with freeNodes :=
          t.freeNodes+(t.fcbEOF/t.nodeSize-t.totalNodes-t.mapGrowth chain)}) := by
  have hcreated : ∀ k,t.totalNodes≤k → k≤t.totalNodes+t.mapGrowth chain-1 → io.created k=true := by
    intro k hk hk'
    have := (hio (k-t.totalNodes) (by omega)).1
    rwa [Nat.add_sub_cancel' hk] at this
  have hn : newMapNodes {t.toBTreeControlBlock with totalNodes := t.fcbEOF/t.nodeSize}
      (t.fcbEOF/t.nodeSize) (16*(t.mapOf chain).length)=t.mapGrowth chain := rfl
  rw [addMapNodes]
  simp only [htotal,if_neg (not_le.mpr hlt),hn]
  rw [createMapNodes_eq io.created (t.totalNodes+t.mapGrowth chain-1) _ _ _ (by omega) hcreated]
  rfl

lemma MapOK.extended {m : MapRecord} {u v : BTree} {q : ℕ} (hq : t.mapGrowth chain=q+1)
    (hlow : 16*(t.mapOf chain).length+q*(8*mapNodeRecSize t.toBTreeControlBlock) ≤
      t.fcbEOF/t.nodeSize)
    (hhigh : t.fcbEOF/t.nodeSize <
      16*(t.mapOf chain).length+(q+1)*(8*mapNodeRecSize t.toBTreeControlBlock))
    (hfits : t.totalNodes+t.mapGrowth chain≤t.fcbEOF/t.nodeSize)
    (hu : Grown t u m (t.mapGrowth chain) (t.fcbEOF/t.nodeSize))
    (hv : MapBits u v (chain++newRecords t.totalNodes (t.mapGrowth chain)) fun i =>
      bitAt (u.mapOf (chain++newRecords t.totalNodes (t.mapGrowth chain))) i ||
        decide (t.totalNodes ≤ i ∧ i<t.totalNodes+t.mapGrowth chain)) :
    Extended t { v with freeNodes :=
        t.freeNodes+(t.fcbEOF/t.nodeSize-t.totalNodes-t.mapGrowth chain)} chain
      (chain++newRecords t.totalNodes (t.mapGrowth chain)) (t.mapGrowth chain) := by
  have hbits : ∀ i,bitAt (v.mapOf (chain++newRecords t.totalNodes (t.mapGrowth chain))) i =
      (bitAt (t.mapOf chain) i ||
        decide (t.totalNodes ≤ i ∧ i<t.totalNodes+t.mapGrowth chain)) := by
    intro i
    rw [hv.bits i,h.bitAt_mapOf_grown hu]
  have htotal : v.totalNodes=t.fcbEOF/t.nodeSize := by rw [hv.same,hu.same]
  refine ⟨⟨hv.mapChain.withFreeNodes _,?_,?_,?_,?_⟩,rfl,hbits⟩
  · change v.totalNodes≤16*(v.mapOf _).length
    rw [hv.length_mapOf,h.length_mapOf_grown hu le_rfl,htotal]
    rw [hq]
    omega
  · intro i hi
    change v.totalNodes ≤ i at hi
    refine (hbits i).trans ?_
    rw [h.high i (by omega),decide_eq_false (by omega)]
    rfl
  · change t.freeNodes+(t.fcbEOF/t.nodeSize-t.totalNodes-t.mapGrowth chain) =
      clearBelow (bitAt (v.mapOf _)) v.totalNodes
    have hold := clearBelow_of_clear (show t.totalNodes≤t.fcbEOF/t.nodeSize by omega)
      fun i hi _ => h.high i hi
    have hnew := clearBelow_add_card (f := bitAt (t.mapOf chain))
      (g := bitAt (v.mapOf (chain++newRecords t.totalNodes (t.mapGrowth chain))))
      (s := Finset.Ico t.totalNodes (t.totalNodes+t.mapGrowth chain))
      (n := t.fcbEOF/t.nodeSize) (fun i hi => by rw [Finset.mem_Ico] at hi; omega)
      (fun i hi => h.high i (Finset.mem_Ico.mp hi).1)
      (fun i hi => by rw [hbits,decide_eq_true (Finset.mem_Ico.mp hi),Bool.or_true])
      (fun i _ hi => by rw [Finset.mem_Ico] at hi; rw [hbits,decide_eq_false hi,Bool.or_false])
    rw [Nat.card_Ico,Nat.add_sub_cancel_left,hold] at hnew
    rw [htotal,h.count]
    omega
  · intro p r hp
    change 16*(v.mapOf p).length≤v.totalNodes
    have hlen := congrArg List.length hp
    simp only [length_append,length_newRecords,length_singleton] at hlen
    obtain ⟨i,hi,rfl,_⟩ := split_newRecords hp (by omega)
    simp only [length_append,length_newRecords] at hlen
    rw [hv.length_mapOf,h.length_mapOf_grown hu hi.le,htotal]
    rw [show i=q by omega]
    exact hlow

lemma MapOK.addMapNodes_spec {pre : List MapRecord} {m : MapRecord} (hc : chain=pre++[m])
    (io : ExtendIO) (hio : GrowthReads t chain io) :
    ∃ t' chain',t.addMapNodes io m (16*(t.mapOf pre).length)=(none,t') ∧
      Extended t t' chain chain' (t.mapGrowth chain) := by
  have hsize := h.nodeSize
  have hnodeSize : 0<t.nodeSize := by omega
  have hle : t.totalNodes≤t.fcbEOF/t.nodeSize := (le_div_iff_mul_le hnodeSize).mpr h.eof
  have hfit : t.fcbEOF/t.nodeSize*t.nodeSize≤t.fcbEOF := div_mul_le_self _ _
  have hm : m∈chain := by simp [hc]
  have htotal : 16*(t.mapOf pre).length+(t.mapRecord m).length*8=16*(t.mapOf chain).length := by
    rw [h.length_record hm,hc,mapOf_append,mapOf_cons,mapOf_nil,append_nil,length_append,mul_add]
  by_cases hcover : t.fcbEOF/t.nodeSize≤16*(t.mapOf chain).length
  · have hn : t.mapGrowth chain=0 := if_pos hcover
    have hn' : newMapNodes {t.toBTreeControlBlock with totalNodes := t.fcbEOF/t.nodeSize}
        (t.fcbEOF/t.nodeSize) (16*(t.mapOf chain).length)=0 := if_pos hcover
    rw [addMapNodes]
    simp only [htotal]
    rw [if_pos hcover,hn',hn,Nat.sub_zero]
    refine ⟨_,chain,rfl,h.withTotalNodes hle hcover hfit,by simp [newRecords],fun i => ?_⟩
    rw [decide_eq_false (by omega),Bool.or_false]
    rfl
  · have hlt := not_le.mp hcover
    obtain ⟨q,hn,hlow,hhigh⟩ := h.mapGrowth_bounds hlt
    have hfits : t.totalNodes+t.mapGrowth chain≤t.fcbEOF/t.nodeSize := by
      have := h.cover
      have hq : q*2≤q*(8*mapNodeRecSize t.toBTreeControlBlock) := by
        apply Nat.mul_le_mul_left
        simp only [mapNodeRecSize,sizeofBTNodeDescriptor]
        omega
      omega
    rw [addMapNodes_eq hio htotal hlt hn]
    have hgrown := grown_grownTree (h.inFile m hm) (t.mapGrowth chain) (t.fcbEOF/t.nodeSize)
    have hchain := h.grown hgrown hc (by omega) hfits hfit
    have hprelen : ((t.grownTree m (t.mapGrowth chain) (t.fcbEOF/t.nodeSize)).mapOf pre).length =
        (t.mapOf pre).length := by
      rw [h.mapOf_grown hgrown fun p hp => by simp [hc,hp]]
    have hreads : MapChain.ReadsBelow (t.grownTree m (t.mapGrowth chain) (t.fcbEOF/t.nodeSize))
        (chain++newRecords t.totalNodes (t.mapGrowth chain)) io.marked pre.length
        (t.totalNodes+t.mapGrowth chain) := by
      intro pre' p post hp hlt' hbelow
      obtain ⟨i,hi,rfl,hnum⟩ := split_newRecords hp (by rw [hc]; simpa using hlt')
      rw [h.length_mapOf_grown hgrown hi.le] at hbelow
      rw [hnum]
      exact (hio i hi).2 hbelow
    obtain ⟨v,hmark,hv⟩ := markMapNodes_spec (t.mapGrowth chain) _ hchain t.totalNodes pre
      (newRecords t.totalNodes (t.mapGrowth chain)) m (by rw [hc]; simp)
      (by rw [hprelen]; exact h.lastStart pre m hc) (by have := h.small; omega)
      (by rw [h.length_mapOf_grown hgrown le_rfl,hn]; omega) hreads
    rw [hprelen] at hmark
    rw [hmark]
    exact ⟨_,_,rfl,h.extended hn hlow hhigh hfits hgrown hv⟩

lemma MapOK.withEOF {fcbEOF : ℕ} (hle : t.fcbEOF≤fcbEOF) (hsmall : fcbEOF/t.nodeSize<2^32) :
    {t with fcbEOF := fcbEOF}.MapOK chain where
  toMapChain := h.congr _ rfl rfl le_rfl hle (h.eof.trans hle) hsmall
    fun _ _ => ⟨⟨rfl,rfl,rfl,rfl,rfl⟩,rfl⟩
  cover := h.cover
  high := h.high
  count := h.count
  lastStart := h.lastStart

lemma MapOK.unchanged : Extended t t chain chain 0 :=
  ⟨h,by simp [newRecords],fun i => by rw [decide_eq_false (by omega),Bool.or_false]⟩

end

def withFile (t : BTree) (io : ExtendIO) (newTotalNodes : ℕ) : BTree :=
  if t.fcbEOF<newTotalNodes*t.nodeSize%2^32 then {t with fcbEOF := t.fcbEOF+io.bytesAdded}
  else t

/-- If `ExtendBTree` gets to the point where it adds map nodes, it gets through. -/
def GrowthCompletes (t : BTree) (chain : List MapRecord) (io : ExtendIO) (newTotalNodes : ℕ) : Prop :=
  t.totalNodes<newTotalNodes → (∀ k<chain.length,io.scan k≠.failed) →
    (t.fcbEOF<newTotalNodes*t.nodeSize%2^32 → io.extended=true) →
    GrowthReads (t.withFile io newTotalNodes) chain io

lemma MapOK.extendBTree_spec {t : BTree} {chain : List MapRecord} (h : t.MapOK chain)
    (io : ExtendIO) (newTotalNodes : ℕ) (hsmall : (t.fcbEOF+io.bytesAdded)/t.nodeSize<2^32)
    (hio : GrowthCompletes t chain io newTotalNodes) :
    ∃ chain' n,Extended t (t.extendBTree io newTotalNodes).2 chain chain' n := by
  rw [extendBTree]
  by_cases hnone : newTotalNodes≤t.totalNodes
  · rw [if_pos hnone]
    exact ⟨chain,0,h.unchanged⟩
  rw [if_neg hnone]
  obtain ⟨rest,hhead,_⟩ := h.head
  have hscan := h.lastMapRecord_spec io.scan (t.totalNodes+1) [] chain rfl
    (by rw [hhead]; simp) (h.length_le.trans (le_succ _))
  simp only [length_nil,getLast?_nil,mapOf_nil,mul_zero] at hscan
  revert hscan
  rcases t.lastMapRecord io.scan (t.totalNodes+1) 0 none 0 with e | ⟨m,bits⟩ <;> intro hscan
  · exact ⟨chain,0,h.unchanged⟩
  obtain ⟨⟨pre,hc,rfl⟩,hreads⟩ := hscan
  have hgrowth := hio (not_le.mp hnone) fun k hk => hreads k (zero_le k) hk
  by_cases hshort : t.fcbEOF<newTotalNodes*t.nodeSize%2^32
  · have hlong := h.withEOF (le_add_right t.fcbEOF io.bytesAdded) hsmall
    simp only [if_pos hshort]
    by_cases hext : io.extended=false
    · rw [if_pos hext]
      exact ⟨chain,0,hlong,by simp [newRecords],fun i => by
        rw [decide_eq_false (by omega),Bool.or_false]
        rfl⟩
    · rw [if_neg hext]
      have := hgrowth fun _ => by simpa using hext
      rw [withFile,if_pos hshort] at this
      obtain ⟨t',chain',he,hx⟩ := hlong.addMapNodes_spec hc io this
      have hres := congrArg Prod.snd he
      refine ⟨chain',BTree.mapGrowth {t with fcbEOF := t.fcbEOF+io.bytesAdded} chain,?_⟩
      refine ⟨?_,hx.records,fun i => ?_⟩
      · exact hres▸hx.mapOK
      · exact hres▸hx.bits i
  · simp only [if_neg hshort]
    have := hgrowth fun hs => absurd hs hshort
    rw [withFile,if_neg hshort] at this
    obtain ⟨t',chain',he,hx⟩ := h.addMapNodes_spec hc io this
    rw [he]
    exact ⟨chain',_,hx⟩

end BTree
end Darwin.Hfs
