import Darwin.Ipc.SplayLookup

/-! What every operation does to the entries of a splay tree, in order of their names. -/
open List Function
namespace Darwin.Ipc
open Lib.LinkedTree Splaying

namespace Splaying

variable {s : Splaying} {name : MachPortName} {W L T R : List ℕ}

lemma Cut.tree_lt (h : Cut s name W L T R) (htop : s.AtTop name)
    (hlt : (s.heap s.tree).iteName<name) :
    ∃ A,T=A++[s.tree] ∧ TreeAt s.heap (s.heap s.tree).iteLchild A ∧
      (s.heap s.tree).iteRchild=none ∧ ∀ a,a∈L++T → (s.heap a).iteName<name := by
  obtain ⟨A,B,rfl,hA,hB,hbelow,-⟩ := h.middle
  have hchild : (s.heap s.tree).iteRchild=none := by
    rcases htop with heq | ⟨hgt,-⟩ | ⟨-,hchild⟩
    · rw [heq] at hlt
      exact absurd hlt (BitVec.lt_irrefl _)
    · exact absurd (BitVec.lt_trans hlt hgt) (BitVec.lt_irrefl _)
    · exact hchild
  rw [hchild] at hB
  rw [hB.none_inv]
  refine ⟨A,rfl,hA,hchild,fun a ha => ?_⟩
  rw [mem_append,mem_append,mem_singleton] at ha
  rcases ha with ha | ha | rfl
  · exact h.below a ha
  · exact BitVec.lt_trans (hbelow a ha) hlt
  · exact hlt

lemma Cut.tree_ge (h : Cut s name W L T R) (htop : s.AtTop name)
    (hge : ¬(s.heap s.tree).iteName<name) :
    ∃ A B,T=A++s.tree::B ∧ TreeAt s.heap (s.heap s.tree).iteLchild A ∧
      TreeAt s.heap (s.heap s.tree).iteRchild B ∧ (∀ a,a∈L++A → (s.heap a).iteName<name) ∧
      (∀ a,a∈B++R.reverse → name<(s.heap a).iteName) ∧
      ((s.heap s.tree).iteName≠name → name<(s.heap s.tree).iteName ∧ A=[] ∧
        (s.heap s.tree).iteLchild=none) := by
  obtain ⟨A,B,rfl,hA,hB,hbelow,habove⟩ := h.middle
  have hne : (s.heap s.tree).iteName≠name → name<(s.heap s.tree).iteName ∧ A=[] ∧
      (s.heap s.tree).iteLchild=none := by
    intro hne
    rcases htop with heq | ⟨hgt,hchild⟩ | ⟨hlt,-⟩
    · exact absurd heq hne
    · rw [hchild] at hA
      exact ⟨hgt,hA.none_inv,hchild⟩
    · exact absurd hlt hge
  refine ⟨A,B,rfl,hA,hB,fun a ha => ?_,fun a ha => ?_,hne⟩
  · rcases mem_append.mp ha with ha | ha
    · exact h.below a ha
    · by_cases heq : (s.heap s.tree).iteName=name
      · rw [←heq]
        exact hbelow a ha
      · rw [(hne heq).2.1] at ha
        exact absurd ha not_mem_nil
  · rcases mem_append.mp ha with ha | ha
    · by_cases heq : (s.heap s.tree).iteName=name
      · rw [←heq]
        exact habove a ha
      · exact BitVec.lt_trans (hne heq).1 (habove a ha)
    · exact h.above a (mem_reverse.mp ha)

lemma Cut.tree_mem (h : Cut s name W L T R) : s.tree∈W := h.subset.2.1 h.mid.mem_of_some

lemma Cut.found (h : Cut s name W L T R) (htop : s.AtTop name) {a : ℕ} (ha : a∈W)
    (hname : (s.heap a).iteName=name) : a=s.tree := by
  have hirrefl : ∀ b,(s.heap b).iteName<name → a≠b := fun b hlt hab => by
    rw [←hab,hname] at hlt
    exact BitVec.lt_irrefl _ hlt
  have hirrefl' : ∀ b,name<(s.heap b).iteName → a≠b := fun b hlt hab => by
    rw [←hab,hname] at hlt
    exact BitVec.lt_irrefl _ hlt
  rw [←h.whole,append_assoc] at ha
  by_cases hlt : (s.heap s.tree).iteName<name
  · obtain ⟨A,rfl,-,-,hbelow⟩ := h.tree_lt htop hlt
    rw [←append_assoc,mem_append] at ha
    rcases ha with ha | ha
    · exact absurd rfl (hirrefl a (hbelow a ha))
    · exact absurd rfl (hirrefl' a (h.above a (mem_reverse.mp ha)))
  · obtain ⟨A,B,rfl,-,-,hbelow,habove,-⟩ := h.tree_ge htop hlt
    rw [append_assoc,cons_append,←append_assoc,mem_append,mem_cons] at ha
    rcases ha with ha | ha | ha
    · exact absurd rfl (hirrefl a (hbelow a ha))
    · exact ha
    · exact absurd rfl (hirrefl' a (habove a ha))

lemma Cut.atRest (h : Cut s name W L T R) (htop : s.AtTop name) :
    AtRest s.heap {s.splay with istName := name,istRoot := some s.tree} W :=
  ⟨L,T,R,⟨h.left,h.mid,h.right,h.whole,h.ordered,h.below,h.above⟩,htop⟩

end Splaying

variable {name : MachPortName} {heap : ℕ → IpcTreeEntry} {splay small : IpcSplayTree} {W : List ℕ}

lemma atRest_none (heap : ℕ → IpcTreeEntry) {splay : IpcSplayTree} (h : splay.istRoot=none) :
    AtRest heap splay [] := by
  simp only [AtRest,h]

lemma lookup_spec (name : MachPortName) (h : AtRest heap splay W) : ∃ r heap' splay',
      (∀ fuel,W.length<fuel → ipcSplayTreeLookup name fuel heap splay=some (r,heap',splay')) ∧
      AtRest heap' splay' W ∧ Touches W heap heap' ∧
      ∀ a,r=some a ↔ a∈W ∧ (heap a).iteName=name := by
  rcases hroot : splay.istRoot with _ | root
  · have hW := h
    simp only [AtRest,hroot] at hW
    refine ⟨none,heap,splay,fun _ _ => ?_,h,Touches.refl _ _,fun a => ?_⟩
    · simp only [ipcSplayTreeLookup,hroot]
    · rw [hW]
      exact ⟨fun hr => absurd hr (Option.some_ne_none a).symm,
        fun hr => absurd hr.1 not_mem_nil⟩
  · obtain ⟨s,L,T,R,hs,hcut,htop,htouch⟩ := splayTo_spec name h hroot
    refine ⟨if name≠(s.heap s.tree).iteName then none else some s.tree,_,_,
      fun fuel hfuel => ?_,hcut.atRest htop,htouch,fun a => ?_⟩
    · simp only [ipcSplayTreeLookup,hroot,hs fuel hfuel]
    · rw [←htouch.name]
      constructor
      · intro hr
        split_ifs at hr with hne
        cases hr
        exact ⟨hcut.tree_mem,(not_not.mp hne).symm⟩
      · rintro ⟨ha,hname⟩
        have heq := hcut.found htop ha hname
        rw [heq] at hname ⊢
        rw [if_neg (not_not.mpr hname.symm)]

lemma atRest_newRoot (name : MachPortName) {entry : ℕ} {p q : Option ℕ} {X Y : List ℕ}
    (splay : IpcSplayTree)
    (hX : TreeAt heap p X) (hY : TreeAt heap q Y) (hentry : entry∉X++Y)
    (ho : Ordered heap (X++Y)) (hbelow : ∀ a,a∈X → (heap a).iteName<name)
    (habove : ∀ a,a∈Y → name<(heap a).iteName) :
    AtRest (update heap entry ⟨name,p,q⟩) (splay.reset name (some entry))
      (X++entry::Y) := by
  have hXne : ∀ a,a∈X → a≠entry := fun a ha heq =>
    hentry (mem_append_left _ (heq▸ha))
  have hYne : ∀ a,a∈Y → a≠entry := fun a ha heq =>
    hentry (mem_append_right _ (heq▸ha))
  have hself : update heap entry ⟨name,p,q⟩ entry=⟨name,p,q⟩ := update_self ..
  have hsame : ∀ a,a≠entry → update heap entry ⟨name,p,q⟩ a=heap a :=
    fun a ha => update_of_ne ha _ _
  have hkeep : ∀ {r : Option ℕ} {zs : List ℕ},TreeAt heap r zs → (∀ a,a∈zs → a≠entry) →
      TreeAt (update heap entry ⟨name,p,q⟩) r zs := fun hzs hne =>
    InOrder.congr hzs (fun a ha => by rw [lchild,hsame a (hne a ha),lchild])
      fun a ha => by rw [rchild,hsame a (hne a ha),rchild]
  have htree : TreeAt (update heap entry ⟨name,p,q⟩) (some entry) (X++entry::Y) :=
    .node (by rw [hself]) (by rw [hself]) (hkeep hX hXne) (hkeep hY hYne)
  have hrest := AtRest.reset splay htree ?_
  · rwa [hself] at hrest
  · obtain ⟨hoX,hoY,hXY⟩ := pairwise_append.mp ho
    have himp : ∀ zs : List ℕ,(∀ a,a∈zs → a≠entry) → Ordered heap zs →
        Ordered (update heap entry ⟨name,p,q⟩) zs := fun zs hne hzs =>
      hzs.imp_of_mem fun {a b} ha hb hab => by rwa [hsame a (hne a ha),hsame b (hne b hb)]
    refine pairwise_append.mpr ⟨himp X hXne hoX,
      pairwise_cons.mpr ⟨fun b hb => ?_,himp Y hYne hoY⟩,fun a ha b hb => ?_⟩
    · rw [hself,hsame b (hYne b hb)]
      exact habove b hb
    · rw [hsame a (hXne a ha)]
      rcases mem_cons.mp hb with rfl | hb
      · rw [hself]
        exact hbelow a ha
      · rw [hsame b (hYne b hb)]
        exact hXY a ha b hb

lemma insert_spec {entry : ℕ} (h : AtRest heap splay W) (hentry : entry∉W)
    (hnew : ∀ a,a∈W → (heap a).iteName≠name) : ∃ heap' splay' X Y,
      (∀ fuel,W.length<fuel → ipcSplayTreeInsert name entry fuel heap splay=some (heap',splay')) ∧
      W=X++Y ∧ AtRest heap' splay' (X++entry::Y) ∧
      (∀ a,(heap' a).iteName=if a=entry then name else (heap a).iteName) ∧
      ∀ a,a∉entry::W → heap' a=heap a := by
  rcases hroot : splay.istRoot with _ | root
  · have hW := h
    simp only [AtRest,hroot] at hW
    subst hW
    refine ⟨_,_,[],[],fun _ _ => by simp only [ipcSplayTreeInsert,hroot],rfl,
      atRest_newRoot name splay .nil .nil not_mem_nil List.Pairwise.nil
        (fun _ ha => absurd ha not_mem_nil) fun _ ha => absurd ha not_mem_nil,
      fun a => ?_,fun a ha => update_of_ne (fun hae : a=entry => ha (hae▸mem_cons_self)) _ _⟩
    split_ifs with ha
    · rw [ha,update_self]
    · rw [update_of_ne ha]
  · obtain ⟨s,L,T,R,hs,hcut,htop,htouch⟩ := splayTo_spec name h hroot
    -- where the name belongs, and what the two stores put there
    have hstores : ∃ X Y v w,(v,w)=(if name<(s.heap s.tree).iteName then (none,some s.tree)
          else (some s.tree,none)) ∧ W=X++Y ∧ TreeAt ((s.storeLtreep v).storeRtreep w).heap
          ((s.storeLtreep v).storeRtreep w).splay.istLtree X ∧
        TreeAt ((s.storeLtreep v).storeRtreep w).heap
          ((s.storeLtreep v).storeRtreep w).splay.istRtree Y ∧
        Touches (L++R) s.heap ((s.storeLtreep v).storeRtreep w).heap ∧
        (∀ a,a∈X → (s.heap a).iteName<name) ∧ ∀ a,a∈Y → name<(s.heap a).iteName := by
      have hne : (s.heap s.tree).iteName≠name := by
        rw [htouch.name]
        exact hnew _ hcut.tree_mem
      by_cases hlt : (s.heap s.tree).iteName<name
      · obtain ⟨A,hT,-,-,hbelow⟩ := hcut.tree_lt htop hlt
        have hgt : ¬name<(s.heap s.tree).iteName := fun hgt =>
          BitVec.lt_irrefl _ (BitVec.lt_trans hlt hgt)
        obtain ⟨hX,hY,htouch'⟩ := hcut.stores hcut.mid .nil (List.Subset.refl T)
          (nil_subset T)
        exact ⟨L++T,R.reverse,some s.tree,none,by rw [if_neg hgt],hcut.whole.symm,hX,hY,htouch',
          hbelow,fun a ha => hcut.above a (mem_reverse.mp ha)⟩
      · obtain ⟨A,B,hT,-,-,hbelow,habove,hAnil⟩ := hcut.tree_ge htop hlt
        obtain ⟨hgt,rfl,-⟩ := hAnil hne
        obtain ⟨hX,hY,htouch'⟩ := hcut.stores .nil hcut.mid (nil_subset T)
          (List.Subset.refl T)
        rw [append_nil] at hX hbelow
        refine ⟨L,T++R.reverse,none,some s.tree,by rw [if_pos hgt],?_,hX,hY,htouch',
          hbelow,fun a ha => ?_⟩
        · rw [←append_assoc]
          exact hcut.whole.symm
        · rw [hT,nil_append,cons_append,mem_cons] at ha
          rcases ha with rfl | ha
          · exact hgt
          · exact habove a ha
    obtain ⟨X,Y,v,w,hvw,rfl,hX,hY,htouch',hbelow,habove⟩ := hstores
    have htouchW : Touches (X++Y) heap ((s.storeLtreep v).storeRtreep w).heap := by
      refine htouch.trans (htouch'.mono fun a ha => ?_)
      exact (mem_append.mp ha).elim (fun ha => hcut.subset.1 ha) fun ha => hcut.subset.2.2 ha
    refine ⟨_,_,X,Y,fun fuel hfuel => ?_,rfl,
      atRest_newRoot name ((s.storeLtreep v).storeRtreep w).splay hX hY hentry
      (htouchW.ordered h.ordered) (fun a ha => ?_) fun a ha => ?_,fun a => ?_,fun a ha => ?_⟩
    · simp only [ipcSplayTreeInsert,hroot,hs fuel hfuel]
      by_cases hlt : name<(s.heap s.tree).iteName
      · rw [if_pos hlt] at hvw ⊢
        cases hvw
        rfl
      · rw [if_neg hlt] at hvw ⊢
        cases hvw
        rfl
    · rw [htouch'.name]
      exact hbelow a ha
    · rw [htouch'.name]
      exact habove a ha
    · split_ifs with hae
      · rw [hae,update_self]
      · rw [update_of_ne hae,htouchW.name]
    · rw [mem_cons,not_or] at ha
      rw [update_of_ne ha.1,htouchW.other a ha.2]

lemma setRchild_treeAt (s : Splaying) {a : ℕ} {q : Option ℕ} {X Y : List ℕ}
    (hX : TreeAt s.heap (s.heap a).iteLchild X) (hY : TreeAt s.heap q Y) (haX : a∉X)
    (haY : a∉Y) : TreeAt (s.setRchild a q).heap (some a) (X++a::Y) := by
  have htouch : Touches [a] s.heap (s.setRchild a q).heap :=
    s.setRchild_touches q (mem_singleton_self a)
  have hl : ((s.setRchild a q).heap a).iteLchild=(s.heap a).iteLchild := by
    change lchild _ a=lchild _ a
    rw [setRchild_lchild]
  have hr : ((s.setRchild a q).heap a).iteRchild=q := by
    change rchild _ a=q
    rw [setRchild_rchild,update_self]
  refine .node hl hr (htouch.treeAt hX fun b hb hba => ?_) (htouch.treeAt hY fun b hb hba => ?_)
  · exact haX (mem_singleton.mp hba▸hb)
  · exact haY (mem_singleton.mp hba▸hb)

lemma setLchild_treeAt (s : Splaying) {a : ℕ} {p : Option ℕ} {X Y : List ℕ}
    (hX : TreeAt s.heap p X) (hY : TreeAt s.heap (s.heap a).iteRchild Y) (haX : a∉X)
    (haY : a∉Y) : TreeAt (s.setLchild a p).heap (some a) (X++a::Y) := by
  have htouch : Touches [a] s.heap (s.setLchild a p).heap :=
    s.setLchild_touches p (mem_singleton_self a)
  have hl : ((s.setLchild a p).heap a).iteLchild=p := by
    change lchild _ a=p
    rw [setLchild_lchild,update_self]
  have hr : ((s.setLchild a p).heap a).iteRchild=(s.heap a).iteRchild := by
    change rchild _ a=rchild _ a
    rw [setLchild_rchild]
  refine .node hl hr (htouch.treeAt hX fun b hb hba => ?_) (htouch.treeAt hY fun b hb hba => ?_)
  · exact haX (mem_singleton.mp hba▸hb)
  · exact haY (mem_singleton.mp hba▸hb)

lemma TreeAt.of_last {a : ℕ} {X : List ℕ} (h : TreeAt heap (some a) (X++[a])) (ha : a∉X) :
    TreeAt heap (heap a).iteLchild X := by
  obtain ⟨Y,Z,heq,hY,-⟩ := h.some_inv
  obtain ⟨rfl,-,-⟩ := (append_cons_inj_of_notMem ha not_mem_nil).mp heq
  exact hY

lemma TreeAt.of_first {a : ℕ} {X : List ℕ} (h : TreeAt heap (some a) (a::X)) (ha : a∉X) :
    TreeAt heap (heap a).iteRchild X := by
  obtain ⟨Y,Z,heq,-,hZ⟩ := h.some_inv
  obtain ⟨-,-,rfl⟩ := (append_cons_inj_of_notMem not_mem_nil ha).mp heq
  exact hZ

lemma not_largest_lt (a : MachPortName) : ¬machPortLargest<a := by
  rw [BitVec.lt_def]
  have := a.isLt
  change ¬2^32-1<a.toNat
  omega

lemma not_lt_smallest (a : MachPortName) : ¬a < machPortSmallest := by
  rw [BitVec.lt_def]
  exact Nat.not_lt_zero _

lemma splayLargest {s : Splaying} {X : List ℕ} (hX : TreeAt s.heap (some s.tree) X)
    (ho : Ordered s.heap X) :
    ∃ s' Z,(∀ fuel,X.length<fuel → ipcSplayPrimLookup machPortLargest fuel s=some s') ∧
      X=Z++[s'.tree] ∧ s'.ipcSplayPrimAssemble.tree=s'.tree ∧
      TreeAt s'.ipcSplayPrimAssemble.heap (some s'.tree) X ∧
      Touches X s.heap s'.ipcSplayPrimAssemble.heap := by
  obtain ⟨s',L,T,R,hloop,hcut,htop,htouch⟩ := primLookup_spec machPortLargest hX ho
  obtain ⟨hassemble,htree,htouch'⟩ := hcut.assemble
  rw [htree] at hassemble
  have hR : R=[] := eq_nil_iff_forall_not_mem.mpr fun a ha =>
    not_largest_lt _ (hcut.above a ha)
  have hwhole := hcut.whole
  have hlast : ∃ A,T=A++[s'.tree] := by
    by_cases hlt : (s'.heap s'.tree).iteName < machPortLargest
    · obtain ⟨A,hT,-⟩ := hcut.tree_lt htop hlt
      exact ⟨A,hT⟩
    · obtain ⟨A,B,hT,-,-,-,habove,-⟩ := hcut.tree_ge htop hlt
      have hB : B=[] := eq_nil_iff_forall_not_mem.mpr fun a ha =>
        not_largest_lt _ (habove a (mem_append_left _ ha))
      exact ⟨A,by rw [hT,hB]⟩
  obtain ⟨A,hT⟩ := hlast
  refine ⟨s',L++A,hloop,?_,htree,hassemble,htouch.trans htouch'⟩
  rw [←hwhole,hT,hR,reverse_nil,append_nil,append_assoc]

lemma delete_spec {a : ℕ} (h : AtRest heap splay W) (ha : a∈W)
    (hname : (heap a).iteName=name) : ∃ X Y heap' splay',
      (∀ fuel,W.length<fuel → ipcSplayTreeDelete name fuel heap splay=some (heap',splay')) ∧
      W=X++a::Y ∧ AtRest heap' splay' (X++Y) ∧ Touches W heap heap' := by
  rcases hroot : splay.istRoot with _ | root
  · simp only [AtRest,hroot] at h
    rw [h] at ha
    exact absurd ha not_mem_nil
  obtain ⟨s,L,T,R,hs,hcut,htop,htouch⟩ := splayTo_spec name h hroot
  have hfound := hcut.found htop ha (by rw [htouch.name,hname])
  subst hfound
  obtain ⟨hLW,hTW,hRW⟩ := hcut.subset
  obtain ⟨hL,-,hLT,-,-⟩ := hcut.nodup
  have hnodup := hcut.ordered.nodup
  have hwhole := hcut.whole
  obtain ⟨A,B,rfl,hA,hB,-⟩ := hcut.middle
  have htree : s.tree∈A++s.tree::B := mem_append_right _ mem_cons_self
  have hchild : ((s.storeLtreep (s.heap s.tree).iteLchild).heap
      (s.storeLtreep (s.heap s.tree).iteLchild).tree).iteRchild=(s.heap s.tree).iteRchild := by
    rw [storeLtreep_tree,(storeLtreep_spec _ hcut.left hL).2.2.other s.tree
      fun haL => hLT _ haL htree]
  obtain ⟨hX,hY,htouch'⟩ := hcut.stores hA hB (subset_append_left _ _) fun a ha =>
    mem_append_right _ (mem_cons_of_mem _ ha)
  have htouchW := htouch.trans (htouch'.mono fun b hb =>
    (mem_append.mp hb).elim (fun hb => hLW hb) fun hb => hRW hb)
  have heq : W=(L++A)++s.tree::(B++R.reverse) := by
    rw [←hwhole]
    simp only [append_assoc,cons_append]
  generalize hs₂ : (s.storeLtreep (s.heap s.tree).iteLchild).storeRtreep
    (s.heap s.tree).iteRchild=s₂ at hX hY htouchW
  generalize L++A=X at hX heq
  generalize B++R.reverse=Y at hY heq
  have ho := htouchW.ordered h.ordered
  rw [heq] at ho
  have hoX : Ordered s₂.heap X := (pairwise_append.mp ho).1
  have hoY : Ordered s₂.heap Y := (pairwise_cons.mp (pairwise_append.mp ho).2.1).2
  refine ⟨X,Y,?_⟩
  rcases hl : s₂.splay.istLtree with _ | left
  · rw [hl] at hX
    rw [hX.none_inv] at heq ⊢
    rcases hr : s₂.splay.istRtree with _ | right
    · rw [hr] at hY
      rw [hY.none_inv] at heq ⊢
      refine ⟨_,{s₂.splay with istRoot := none},fun fuel hfuel => ?_,heq,
        atRest_none s₂.heap rfl,htouchW⟩
      simp only [ipcSplayTreeDelete,hroot,hs fuel hfuel,hchild,hs₂,hl,hr]
    · rw [hr] at hY
      refine ⟨_,_,fun fuel hfuel => ?_,heq,AtRest.reset s₂.splay hY hoY,htouchW⟩
      simp only [ipcSplayTreeDelete,hroot,hs fuel hfuel,hchild,hs₂,hl,hr]
  · rw [hl] at hX
    rcases hr : s₂.splay.istRtree with _ | saved
    · rw [hr] at hY
      rw [hY.none_inv] at heq ⊢
      rw [append_nil]
      refine ⟨_,_,fun fuel hfuel => ?_,heq,AtRest.reset s₂.splay hX hoX,htouchW⟩
      simp only [ipcSplayTreeDelete,hroot,hs fuel hfuel,hchild,hs₂,hl,hr]
    · rw [hr] at hY
      obtain ⟨s₃,Z,hloop,rfl,htree₃,hassemble,htouch₃⟩ := splayLargest (s := {s₂ with tree := left})
        hX hoX
      have hdisj := ho.nodup
      rw [nodup_append,nodup_cons] at hdisj
      obtain ⟨hnodupX,⟨-,hnodupY⟩,hXY⟩ := hdisj
      have hYX : ∀ b,b∈Y → b∉Z++[s₃.tree] := fun b hb hbX =>
        hXY b hbX b (mem_cons_of_mem _ hb) rfl
      have hlast : s₃.tree∈Z++[s₃.tree] :=
        mem_append_right _ (mem_singleton_self _)
      have hZ : s₃.tree∉Z := fun hmem =>
        (nodup_append.mp hnodupX).2.2 _ hmem _ (mem_singleton_self _) rfl
      have hset := setRchild_treeAt s₃.ipcSplayPrimAssemble (hassemble.of_last hZ) (htouch₃.treeAt hY hYX) hZ
        fun hmem => hYX _ hmem hlast
      have htouch₄ : Touches W heap
          (s₃.ipcSplayPrimAssemble.setRchild s₃.tree (some saved)).heap := by
        refine (htouchW.trans (htouch₃.mono fun b hb => ?_)).trans (setRchild_touches _ _ ?_)
        · rw [heq]
          exact mem_append_left _ hb
        · rw [heq]
          exact mem_append_left _ hlast
      have ho₄ := htouch₄.ordered h.ordered
      rw [heq] at ho₄
      rw [append_cons] at hset
      have hrest := AtRest.reset s₃.ipcSplayPrimAssemble.splay hset
        (ho₄.sublist (List.Sublist.append_left (sublist_cons_self _ _) _))
      refine ⟨_,_,fun fuel hfuel => ?_,heq,hrest,htouch₄⟩
      have hfuel' : (Z++[s₃.tree]).length<fuel := by
        rw [heq,length_append] at hfuel
        omega
      have htree₄ : (s₃.ipcSplayPrimAssemble.setRchild s₃.tree (some saved)).tree=s₃.tree :=
        htree₃
      simp only [ipcSplayTreeDelete,hroot,hs fuel hfuel,hchild,hs₂,hl,hr,hloop fuel hfuel',
        htree₃,htree₄]
      rfl

end Darwin.Ipc
