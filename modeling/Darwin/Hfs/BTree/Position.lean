import Darwin.Hfs.BTree.WellFormed

/-! `FindIteratorPosition` on a well-formed tree. Whatever the hint, the position it
returns has the right rank among all leaf records. A key between two leaves has
that rank at the end of the one and at the start of the other. -/
open List Option Nat
namespace Darwin.Hfs
open Lib.KeyOrder

namespace BTree

abbrev CutRecords (t : BTree) (key : Key) (l a : List Record) (o : Option Record)
    (c : List Record) : Prop :=
  Cut t.keyCompareProc (recordKey t.toBTreeControlBlock) key l a o c

/-- A position with the right rank among the records of a list of leaves, at node `n`. -/
structure AtRank (t : BTree) (leaves : List ℕ) (key : Key) (p : IteratorPosition)
    (pre : List ℕ) (n : ℕ) (post : List ℕ) : Prop where
  split : leaves=pre++n::post
  middle : p.middle=t.nodes n
  cut : ∃ a o c,t.CutRecords key (t.nodes n).records a o c ∧ p.index=a.length ∧
    p.foundRecord=o.isSome
  below : ∀ r∈t.recordsOf pre,t.keyCompareProc (recordKey t.toBTreeControlBlock r) key=.lt
  above : ∀ r∈t.recordsOf post,t.keyCompareProc key (recordKey t.toBTreeControlBlock r)=.lt
  left : ∀ l∈p.left,∃ m∈pre.getLast?,l=t.nodes m
  right : ∀ r∈p.right,∃ m∈post.head?,r=t.nodes m

lemma Chained.split {nodes : ℕ → Node} {prev n : ℕ} {pre post : List ℕ}
    (h : Chained nodes prev (pre++n::post)) :
    (nodes n).bLink=pre.getLastD prev ∧ (nodes n).fLink=post.headD 0 := by
  induction pre generalizing prev with
  | nil => exact ⟨h.1,h.2.1⟩
  | cons m pre ih =>
    obtain ⟨h1,h2⟩ := ih h.2.2
    refine ⟨?_,h2⟩
    rw [h1,getLastD_cons]

namespace WellFormed
variable {t : BTree} {level : ℕ → List ℕ} (hw : t.WellFormed level)
include hw

variable {pre post : List ℕ} {io : ℕ → BlockRead} {n : ℕ} {key : Key}

lemma pre_lt (heq : level 1=pre++n::post)
    {r : Record} (hr : r∈(t.nodes n).records)
    (hle : t.keyCompareProc key (recordKey t.toBTreeControlBlock r)≠.lt) :
    ∀ s∈t.recordsOf pre,t.keyCompareProc (recordKey t.toBTreeControlBlock s) key=.lt := by
  have := hw.compare
  have hasc := hw.ascending
  rw [heq,recordsOf_append] at hasc
  intro s hs
  have hsr := (pairwise_append.mp hasc).2.2 s hs r (by simp [hr])
  cases hc : t.keyCompareProc key (recordKey t.toBTreeControlBlock r) with
  | lt => exact absurd hc hle
  | eq => exact Std.TransCmp.lt_of_lt_of_eq hsr (Std.OrientedCmp.eq_symm hc)
  | gt => exact Std.TransCmp.lt_trans hsr (Std.OrientedCmp.lt_of_gt hc)

lemma post_gt (heq : level 1=pre++n::post)
    {r : Record} (hr : r∈(t.nodes n).records)
    (hle : t.keyCompareProc (recordKey t.toBTreeControlBlock r) key≠.lt) :
    ∀ s∈t.recordsOf post,t.keyCompareProc key (recordKey t.toBTreeControlBlock s)=.lt := by
  have := hw.compare
  have hasc := hw.ascending
  rw [heq,recordsOf_append,recordsOf_cons] at hasc
  have hpost := (pairwise_append.mp (pairwise_append.mp hasc).2.1).2.2
  intro s hs
  have hrs := hpost r hr s hs
  cases hc : t.keyCompareProc (recordKey t.toBTreeControlBlock r) key with
  | lt => exact absurd hc hle
  | eq => exact Std.TransCmp.lt_of_eq_of_lt (Std.OrientedCmp.eq_symm hc) hrs
  | gt => exact Std.TransCmp.lt_trans (Std.OrientedCmp.lt_of_gt hc) hrs

lemma searchTheTree_spec (hio : ∀ n,io n≠.failed)
    (hd : t.treeDepth≠0) (key : Key) :
    ∃ p pre n post,t.searchTheTree io key=.ok p ∧ t.AtRank (level 1) key p pre n post ∧
      t.Covers key (level 1) pre n post := by
  have := hw.compare
  obtain ⟨s,pre,post,hs,hc,hnode,hsearch⟩ := hw.searchTree_spec hio hd key
  obtain ⟨heq,hn,hpost⟩ := hc
  have hmem : s.nodeNum∈level 1 := by simp [heq]
  have hasc := hw.ascending_node hmem
  obtain ⟨a,o,c,hcut⟩ := hasc.cut key
  rw [hnode,searchNode_eq hasc,hcut.rank_eq,hcut.present_eq,Prod.mk.injEq] at hsearch
  refine ⟨_,pre,s.nodeNum,post,by rw [searchTheTree,hs],?_,heq,hn,hpost⟩
  refine ⟨heq,hnode,⟨a,o,c,hcut,hsearch.2,hsearch.1⟩,?_,?_,by simp,by simp⟩
  · cases hr : (t.nodes s.nodeNum).records with
    | nil => exact absurd hr (hw.nonempty 1 _ hmem)
    | cons r l =>
      by_cases hpre : pre=[]
      · simp [hpre]
      · refine hw.pre_lt heq (r := r) (by simp [hr]) ?_
        rw [←firstKey_eq hr]
        exact hn hpre
  · intro r hr
    obtain ⟨m,hm,hrm⟩ := mem_flatMap.mp hr
    exact lt_of_lt_firstKey (hw.ascending_node (h := 1) (by simp [heq,hm])) (hpost m hm) r hrm

lemma below_of_cut (heq : level 1=pre++n::post)
    {a c : List Record} {o : Option Record} (hc : t.CutRecords key (t.nodes n).records a o c)
    (hpre : pre=[] ∨ a≠[] ∨ o.isSome) :
    ∀ r∈t.recordsOf pre,t.keyCompareProc (recordKey t.toBTreeControlBlock r) key=.lt := by
  have := hw.compare
  rcases hpre with rfl | ha | ho
  · simp
  · obtain ⟨r,hr⟩ := exists_mem_of_ne_nil a ha
    exact hw.pre_lt heq (by rw [hc.eq]; simp [hr]) (cmp_ne_of_lt (hc.lt r hr)).1
  · obtain ⟨r,rfl⟩ := isSome_iff_exists.mp ho
    refine hw.pre_lt heq (r := r) (by rw [hc.eq]; simp) ?_
    rw [hc.at_key r rfl]
    decide

lemma above_of_cut (heq : level 1=pre++n::post)
    {a c : List Record} {o : Option Record} (hc : t.CutRecords key (t.nodes n).records a o c)
    (hpost : post=[] ∨ c≠[] ∨ o.isSome) :
    ∀ r∈t.recordsOf post,t.keyCompareProc key (recordKey t.toBTreeControlBlock r)=.lt := by
  have := hw.compare
  rcases hpost with rfl | hcne | ho
  · simp
  · obtain ⟨r,hr⟩ := exists_mem_of_ne_nil c hcne
    exact hw.post_gt heq (by rw [hc.eq]; simp [hr]) (cmp_ne_of_lt (hc.gt r hr)).1
  · obtain ⟨r,rfl⟩ := isSome_iff_exists.mp ho
    refine hw.post_gt heq (r := r) (by rw [hc.eq]; simp) ?_
    rw [Std.OrientedCmp.eq_symm (hc.at_key r rfl)]
    decide

lemma isLeafWithRecords_leaf (hn : n∈level 1) : isLeafWithRecords (t.nodes n)=true := by
  have := length_pos_iff.mpr (hw.nonempty 1 n hn)
  simp only [isLeafWithRecords,hw.kind 1 n hn,Node.numRecords,if_true,true_and,decide_eq_true_eq]
  exact this

lemma searchNode_leaf (hn : n∈level 1) {a c : List Record}
    {o : Option Record} (hc : t.CutRecords key (t.nodes n).records a o c) :
    searchNode t.toBTreeControlBlock (t.nodes n) key=(o.isSome,a.length) := by
  have := hw.compare
  rw [searchNode_eq (hw.ascending_node hn),hc.present_eq,hc.rank_eq]

lemma searchTheTree_atRank (hio : ∀ n,io n≠.failed)
    (hn : n∈level 1) (key : Key) :
    ∃ p pre n post,t.searchTheTree io key=.ok p ∧ t.AtRank (level 1) key p pre n post := by
  have hd : t.treeDepth≠0 := by
    have := hw.height_le hn
    omega
  obtain ⟨p,pre,n,post,hp,hat,_⟩ := hw.searchTheTree_spec hio hd key
  exact ⟨p,pre,n,post,hp,hat⟩

lemma positionFromLeft_spec (hio : ∀ n,io n≠.failed)
    (heq : level 1=pre++n::post) {c : List Record}
    (hc : t.CutRecords key (t.nodes n).records [] none c) :
    ∃ p pre' n' post',t.positionFromLeft io key n (t.nodes n)=.ok p ∧
      t.AtRank (level 1) key p pre' n' post' := by
  have := hw.compare
  have hmem : n∈level 1 := by simp [heq]
  have hb := ((heq▸hw.chained 1).split).1
  have hcne : c≠[] := by
    have h := hw.nonempty 1 n hmem
    rwa [hc.eq] at h
  have habove := hw.above_of_cut heq hc (Or.inr (Or.inl hcne))
  rcases eq_nil_or_concat' pre with rfl | ⟨pre,m,rfl⟩
  · -- the first leaf
    rw [getLastD_nil] at hb
    rw [positionFromLeft,if_pos hb]
    exact ⟨_,[],n,post,rfl,heq,rfl,⟨[],none,c,hc,rfl,rfl⟩,by simp,habove,by simp,by simp⟩
  have hm : m∈level 1 := by simp [heq]
  rw [getLastD_concat] at hb
  have heq' : level 1=pre++m::(n::post) := by simp [heq]
  obtain ⟨a,o,c',hcut⟩ := (hw.ascending_node hm).cut key
  have hlen : (t.nodes m).numRecords=a.length+o.toList.length+c'.length := by
    rw [Node.numRecords,hcut.eq]
    simp [add_assoc]
  rw [positionFromLeft,hb,if_neg (hw.pos 1 m hm),hw.getNode_level hm (hio m)]
  simp only [hw.isLeafWithRecords_leaf hm,hw.searchNode_leaf hm hcut,Bool.true_eq_false,if_false]
  cases o with
  | some r =>
    simp only [isSome_some,if_true]
    exact ⟨_,pre,m,n::post,rfl,heq',rfl,⟨a,some r,c',hcut,rfl,rfl⟩,
      hw.below_of_cut heq' hcut (by simp),hw.above_of_cut heq' hcut (by simp),by simp,by simp⟩
  | none =>
    simp only [isSome_none,Bool.false_eq_true,if_false]
    by_cases ha : a=[]
    · rw [if_pos (by simp [ha])]
      exact hw.searchTheTree_atRank hio hm key
    rw [if_neg (by simpa using ha)]
    have hbelow := hw.below_of_cut heq' hcut (Or.inr (Or.inl ha))
    simp only [toList_none,length_nil,add_zero] at hlen
    by_cases hall : (t.nodes m).numRecords≤a.length
    · -- the key lies between the two leaves
      rw [if_pos hall]
      have hc' : c'=[] := length_eq_zero_iff.mp (by omega)
      refine ⟨_,pre++[m],n,post,rfl,heq,rfl,⟨[],none,c,hc,rfl,rfl⟩,?_,habove,by simp,by simp⟩
      intro r hr
      rw [recordsOf_append,mem_append] at hr
      rcases hr with hr | hr
      · exact hbelow r hr
      · apply hcut.lt r
        rw [recordsOf_cons,recordsOf_nil,append_nil,hcut.eq] at hr
        simpa [hc'] using hr
    · rw [if_neg hall]
      have hc' : c'≠[] := by
        rintro rfl
        simp at hlen
        omega
      exact ⟨_,pre,m,n::post,rfl,heq',rfl,⟨a,none,c',hcut,rfl,rfl⟩,hbelow,
        hw.above_of_cut heq' hcut (Or.inr (Or.inl hc')),by simp,by simp⟩

lemma positionFromRight_spec (hio : ∀ n,io n≠.failed)
    (heq : level 1=pre++n::post) {a : List Record}
    (hc : t.CutRecords key (t.nodes n).records a none []) :
    ∃ p pre' n' post',t.positionFromRight io key n (t.nodes n) a.length=.ok p ∧
      t.AtRank (level 1) key p pre' n' post' := by
  have := hw.compare
  have hmem : n∈level 1 := by simp [heq]
  have hf := ((heq▸hw.chained 1).split).2
  have hane : a≠[] := by
    have h := hw.nonempty 1 n hmem
    rw [hc.eq] at h
    simpa using h
  have hbelow := hw.below_of_cut heq hc (Or.inr (Or.inl hane))
  cases post with
  | nil =>
    rw [headD_nil] at hf
    rw [positionFromRight,if_pos hf]
    exact ⟨_,pre,n,[],rfl,heq,rfl,⟨a,none,[],hc,rfl,rfl⟩,hbelow,by simp,by simp,by simp⟩
  | cons m post =>
    have hm : m∈level 1 := by simp [heq]
    rw [headD_cons] at hf
    have heq' : level 1=(pre++[n])++m::post := by simp [heq]
    obtain ⟨a',o,c',hcut⟩ := (hw.ascending_node hm).cut key
    have hlen : (t.nodes m).numRecords=a'.length+o.toList.length+c'.length := by
      rw [Node.numRecords,hcut.eq]
      simp [add_assoc]
    rw [positionFromRight,hf,if_neg (hw.pos 1 m hm),hw.getNode_level hm (hio m)]
    simp only [hw.isLeafWithRecords_leaf hm,hw.searchNode_leaf hm hcut,Bool.true_eq_false,if_false]
    by_cases hall : (t.nodes m).numRecords≤a'.length
    · rw [if_pos hall]
      exact hw.searchTheTree_atRank hio hm key
    rw [if_neg hall]
    have hnext : c'≠[] ∨ o.isSome := by
      by_contra h
      rw [not_or,not_ne_iff,not_isSome_iff_eq_none] at h
      simp only [h,toList_none,length_nil,add_zero] at hlen
      omega
    refine ⟨_,pre++[n],m,post,rfl,heq',rfl,⟨a',o,c',hcut,rfl,rfl⟩,?_,
      hw.above_of_cut heq' hcut (Or.inr hnext),by simp,by simp⟩
    intro r hr
    rw [recordsOf_append,mem_append] at hr
    rcases hr with hr | hr
    · exact hbelow r hr
    · apply hc.lt r
      rw [recordsOf_cons,recordsOf_nil,append_nil,hc.eq] at hr
      simpa using hr

lemma findIteratorPosition_spec (hio : ∀ n,io n≠.failed)
    (hd : t.treeDepth≠0) (iterator : BTreeIterator) :
    ∃ p pre n post,t.findIteratorPosition io (some iterator)=.ok p ∧
      t.AtRank (level 1) iterator.key p pre n post := by
  have := hw.compare
  have htree : ∃ p pre n post,t.searchTheTree io iterator.key=.ok p ∧
      t.AtRank (level 1) iterator.key p pre n post := by
    obtain ⟨p,pre,n,post,hp,hat,_⟩ := hw.searchTheTree_spec hio hd iterator.key
    exact ⟨p,pre,n,post,hp,hat⟩
  rw [findIteratorPosition]
  by_cases hhint : isItAHint iterator=false
  · rwa [if_pos hhint]
  rw [if_neg hhint]
  rcases getNode_cases (t := t) iterator.hint.nodeNum (hio _) with he | ⟨hlt,hok⟩
  · rwa [he]
  rw [hok]
  simp only
  by_cases hleaf : isLeafWithRecords (t.nodes iterator.hint.nodeNum)=false
  · rwa [if_pos hleaf]
  rw [if_neg hleaf]
  -- a leaf with records is one of the tree's
  have hmem : iterator.hint.nodeNum∈level 1 := by
    simp only [isLeafWithRecords,decide_eq_false_iff_not,not_not] at hleaf
    exact hw.stray _ hlt hleaf.1 (length_pos_iff.mp hleaf.2)
  obtain ⟨pre,post,heq⟩ := append_of_mem hmem
  obtain ⟨a,o,c,hcut⟩ := (hw.ascending_node hmem).cut iterator.key
  have hlen : (t.nodes iterator.hint.nodeNum).numRecords=a.length+o.toList.length+c.length := by
    rw [Node.numRecords,hcut.eq]
    simp [add_assoc]
  rw [hw.searchNode_leaf hmem hcut]
  simp only
  cases o with
  | some r =>
    rw [if_pos (isSome_some)]
    exact ⟨_,pre,_,post,rfl,heq,rfl,⟨a,some r,c,hcut,rfl,rfl⟩,
      hw.below_of_cut heq hcut (by simp),hw.above_of_cut heq hcut (by simp),by simp,by simp⟩
  | none =>
    rw [if_neg (by simp)]
    by_cases ha : a=[]
    · subst ha
      rw [if_pos (by simp)]
      exact hw.positionFromLeft_spec hio heq hcut
    rw [if_neg (by simpa using ha)]
    by_cases hall : (t.nodes iterator.hint.nodeNum).numRecords≤a.length
    · rw [if_pos hall]
      have hc : c=[] := by
        simp only [toList_none,length_nil,add_zero] at hlen
        exact length_eq_zero_iff.mp (by omega)
      subst hc
      exact hw.positionFromRight_spec hio heq hcut
    · rwa [if_neg hall]

end WellFormed
end BTree
end Darwin.Hfs
