import Darwin.Ipc.SplayCut

/-! A lookup ends, with the entries in the same order, and the tree that is assembled afterwards
has them all. -/
open List Function Option Nat
namespace Darwin.Ipc
open Lib.LinkedTree

namespace Splaying

variable {s : Splaying} {name : MachPortName} {W L T R : List ℕ}

lemma linkRight_mirror (s : Splaying) : s.mirror.linkLeft=s.linkRight.map mirror := by
  have h := s.mirror.linkLeft_mirror
  rw [mirror_mirror] at h
  rw [h,Option.map_map,show mirror ∘ mirror=id from funext mirror_mirror,Option.map_id_fun,id]

lemma descendRight_mirror (s : Splaying) (name : MachPortName) (c : ℕ) :
    s.mirror.descendLeft (~~~name) c=(s.descendRight name c).map mirror := by
  have hrot : (~~~name<(s.mirror.heap c).iteName ∧ (s.mirror.heap c).iteLchild≠none) ↔
      ((s.heap c).iteName<name ∧ (s.heap c).iteRchild≠none) := and_congr_left' not_lt_not
  have hlink : ∀ t : Splaying,((s.mirror.heap c).iteName < ~~~name ∧
      (t.mirror.heap c).iteRchild≠none) ↔ (name<(s.heap c).iteName ∧ (t.heap c).iteLchild≠none) :=
    fun t => and_congr_left' not_lt_not
  have hlast : ∀ t : Splaying,(t.mirror.linkRight.bind fun t =>
      if (s.mirror.heap c).iteName < ~~~name ∧ (t.heap c).iteRchild≠none then t.linkLeft
      else some t) =
      (t.linkLeft.bind fun t =>
        if name<(s.heap c).iteName ∧ (t.heap c).iteLchild≠none then t.linkRight
        else some t).map mirror := by
    intro t
    rw [linkLeft_mirror,bind_map,map_bind]
    congr 1
    funext u
    simp only [comp_apply,hlink,linkRight_mirror]
    split_ifs <;> rfl
  unfold descendLeft descendRight
  simp only [bind_eq_bind,hrot,rotateLeft_mirror]
  split_ifs with h
  · rw [bind_map,map_bind]
    congr 1
    funext t
    exact hlast t
  · exact hlast s

lemma Cut.descendRight (h : Cut s name W L T R) {c : ℕ} (hc : (s.heap s.tree).iteRchild=some c)
    (hlt : (s.heap s.tree).iteName<name) :
    ∃ s' L' T' R',s.descendRight name c=some s' ∧ Cut s' name W L' T' R' ∧
      T'.length<T.length ∧ Touches W s.heap s'.heap := by
  by_cases hrot : (s.heap c).iteName<name ∧ (s.heap c).iteRchild≠none
  · obtain ⟨s₁,hs₁,htree,hcut₁,htouch₁,hchild⟩ := h.rotateLeft hc
    obtain ⟨d,hd⟩ := ne_none_iff_exists'.mp hrot.2
    rw [hd,←htree] at hchild
    obtain ⟨s₂,A,B,hs₂,hT,-,hcut₂,htouch₂,-⟩ := hcut₁.linkLeft hchild (by
      rw [htree,htouch₁.name]
      exact hrot.1)
    refine ⟨s₂,_,B,R,?_,hcut₂,?_,htouch₁.trans htouch₂⟩
    · have hback : ¬(name<(s.heap c).iteName ∧ (s₂.heap c).iteLchild≠none) :=
        fun hlt => BitVec.lt_irrefl _ (BitVec.lt_trans hlt.1 hrot.1)
      simp only [Splaying.descendRight,if_pos hrot,hs₁,hs₂,bind_eq_bind,bind_some,if_neg hback]
    · rw [hT,length_append,length_cons]
      omega
  · obtain ⟨s₁,A,B,hs₁,hT,htree,hcut₁,htouch₁,hheap⟩ := h.linkLeft hc hlt
    have hlen : B.length<T.length := by
      rw [hT,length_append,length_cons]
      omega
    by_cases hback : name<(s.heap c).iteName ∧ (s₁.heap c).iteLchild≠none
    · obtain ⟨d,hd⟩ := ne_none_iff_exists'.mp hback.2
      rw [←htree] at hd
      obtain ⟨s₂,A',B',hs₂,hB,-,hcut₂,htouch₂,-⟩ := hcut₁.linkRight hd (by
        rw [htree,htouch₁.name]
        exact hback.1)
      refine ⟨s₂,_,A',_,?_,hcut₂,?_,htouch₁.trans htouch₂⟩
      · simp only [Splaying.descendRight,if_neg hrot,hs₁,hs₂,bind_eq_bind,bind_some,if_pos hback]
      · rw [hB,length_append,length_cons] at hlen
        omega
    · refine ⟨s₁,_,B,R,?_,hcut₁,hlen,htouch₁⟩
      simp only [Splaying.descendRight,if_neg hrot,hs₁,bind_eq_bind,bind_some,if_neg hback]

lemma Cut.descendLeft (h : Cut s name W L T R) {c : ℕ} (hc : (s.heap s.tree).iteLchild=some c)
    (hlt : name<(s.heap s.tree).iteName) :
    ∃ s' L' T' R',s.descendLeft name c=some s' ∧ Cut s' name W L' T' R' ∧
      T'.length<T.length ∧ Touches W s.heap s'.heap := by
  obtain ⟨m,R',T',L',hm,hcut,hlen,htouch⟩ := h.mirror.descendRight hc (not_lt_not.mpr hlt)
  refine ⟨m.mirror,L',T'.reverse,R',?_,?_,?_,?_⟩
  · have := s.mirror.descendRight_mirror (~~~name) c
    rw [mirror_mirror,BitVec.not_not,hm] at this
    exact this
  · apply Cut.of_mirror
    rwa [mirror_mirror,reverse_reverse]
  · rwa [length_reverse] at hlen ⊢
  · apply Touches.of_mirror
    change Touches _ _ m.mirror.mirror.heap
    rw [mirror_mirror]
    exact htouch.mono (reverse_subset.mpr (List.Subset.refl W))

lemma Cut.step (h : Cut s name W L T R) : primLookupStep name s=some (s,false) ∧ s.AtTop name ∨
    ∃ s' L' T' R',primLookupStep name s=some (s',true) ∧ Cut s' name W L' T' R' ∧
      T'.length<T.length ∧ Touches W s.heap s'.heap := by
  unfold primLookupStep
  by_cases heq : name=(s.heap s.tree).iteName
  · rw [if_pos heq]
    exact Or.inl ⟨rfl,Or.inl heq.symm⟩
  · rw [if_neg heq]
    by_cases hlt : name<(s.heap s.tree).iteName
    · rw [if_pos hlt]
      rcases hc : (s.heap s.tree).iteLchild with _ | c
      · exact Or.inl ⟨rfl,Or.inr (Or.inl ⟨hlt,hc⟩)⟩
      · obtain ⟨s',L',T',R',hs',hrest⟩ := h.descendLeft hc hlt
        refine Or.inr ⟨s',L',T',R',?_,hrest⟩
        simp only [hs',map_some]
    · rw [if_neg hlt]
      have hgt : (s.heap s.tree).iteName<name := by
        rw [BitVec.lt_def] at hlt ⊢
        have := mt BitVec.eq_of_toNat_eq heq
        omega
      rcases hc : (s.heap s.tree).iteRchild with _ | c
      · exact Or.inl ⟨rfl,Or.inr (Or.inr ⟨hgt,hc⟩)⟩
      · obtain ⟨s',L',T',R',hs',hrest⟩ := h.descendRight hc hgt
        refine Or.inr ⟨s',L',T',R',?_,hrest⟩
        simp only [hs',map_some]

lemma Cut.loop (n : ℕ) : ∀ {s : Splaying} {L T R : List ℕ},Cut s name W L T R → T.length≤n →
    ∃ s' L' T' R',(∀ fuel,n<fuel → primLookupLoop name fuel s=some s') ∧
      Cut s' name W L' T' R' ∧ s'.AtTop name ∧ Touches W s.heap s'.heap := by
  induction n with
  | zero =>
    intro s L T R h hlen
    obtain ⟨A,B,rfl,-⟩ := h.middle
    rw [length_append,length_cons] at hlen
    omega
  | succ n ih =>
    intro s L T R h hlen
    rcases h.step with ⟨hstep,htop⟩ | ⟨s₁,L₁,T₁,R₁,hstep,hcut,hlt,htouch⟩
    · refine ⟨s,L,T,R,fun fuel hfuel => ?_,h,htop,Touches.refl _ _⟩
      obtain ⟨fuel,rfl⟩ := exists_eq_add_one_of_ne_zero (ne_zero_of_lt hfuel)
      simp only [primLookupLoop,hstep]
    · obtain ⟨s',L',T',R',hloop,hcut',htop,htouch'⟩ := ih hcut (by omega)
      refine ⟨s',L',T',R',fun fuel hfuel => ?_,hcut',htop,htouch.trans htouch'⟩
      obtain ⟨fuel,rfl⟩ := exists_eq_add_one_of_ne_zero (ne_zero_of_lt hfuel)
      simp only [primLookupLoop,hstep]
      exact hloop fuel (by omega)

lemma primLookup_spec (name : MachPortName) (htree : TreeAt s.heap (some s.tree) W)
    (ho : Ordered s.heap W) :
    ∃ s' L T R,(∀ fuel,W.length<fuel → ipcSplayPrimLookup name fuel s=some s') ∧
      Cut s' name W L T R ∧ s'.AtTop name ∧ Touches W s.heap s'.heap := by
  have hcut : Cut {s with splay := {s.splay with istLtreep := none,istRtreep := none}}
      name W [] W [] := by
    refine ⟨.nil,htree,.nil,?_,ho,fun _ ha => absurd ha not_mem_nil,
      fun _ ha => absurd ha not_mem_nil⟩
    rw [nil_append,reverse_nil,append_nil]
  exact Cut.loop W.length hcut le_rfl

/-! ### Taking the parts together -/

lemma storeRtreep_mirror (s : Splaying) (v : Option ℕ) :
    s.storeRtreep v=(s.mirror.storeLtreep v).mirror := by
  rw [storeLtreep_mirror,mirror_mirror]

@[simp] lemma storeRtreep_tree (s : Splaying) (v : Option ℕ) : (s.storeRtreep v).tree=s.tree := by
  rw [storeRtreep_mirror]
  exact storeLtreep_tree _ _

@[simp] lemma storeRtreep_istLtree (s : Splaying) (v : Option ℕ) :
    (s.storeRtreep v).splay.istLtree=s.splay.istLtree := by
  rw [storeRtreep_mirror]
  exact storeLtreep_istRtree _ _

lemma storeRtreep_spec {s : Splaying} {R : List ℕ} (v : Option ℕ)
    (hR : OpenTree (rchild s.heap) (lchild s.heap) s.splay.istRtree s.splay.istRtreep R)
    (hnodup : R.Nodup) : OpenTree (rchild (s.storeRtreep v).heap) (lchild (s.storeRtreep v).heap)
      (s.storeRtreep v).splay.istRtree s.splay.istRtreep R ∧
    hole (lchild (s.storeRtreep v).heap) (s.storeRtreep v).splay.istRtree s.splay.istRtreep=v ∧
    Touches R s.heap (s.storeRtreep v).heap := by
  have hspec := storeLtreep_spec (s := s.mirror) v hR hnodup
  rw [storeRtreep_mirror]
  refine ⟨hspec.1,hspec.2.1,?_⟩
  apply Touches.of_mirror
  change Touches _ _ (s.mirror.storeLtreep v).mirror.mirror.heap
  rw [mirror_mirror]
  exact hspec.2.2

lemma Cut.storeLtreep (h : Cut s name W L T R) {v : Option ℕ} {A : List ℕ}
    (hv : TreeAt s.heap v A) (hA : A⊆T) :
    TreeAt (s.storeLtreep v).heap (s.storeLtreep v).splay.istLtree (L++A) ∧
      Touches L s.heap (s.storeLtreep v).heap := by
  obtain ⟨hL,-,hLT,-,-⟩ := h.nodup
  obtain ⟨hopen,hhole,htouch⟩ := storeLtreep_spec v h.left hL
  refine ⟨hopen.fill ?_,htouch⟩
  rw [hhole]
  exact htouch.treeAt hv fun a ha haL => hLT a haL (hA ha)

lemma Cut.stores (h : Cut s name W L T R) {v w : Option ℕ} {A B : List ℕ}
    (hv : TreeAt s.heap v A) (hw : TreeAt s.heap w B) (hA : A⊆T) (hB : B⊆T) :
    TreeAt ((s.storeLtreep v).storeRtreep w).heap
        ((s.storeLtreep v).storeRtreep w).splay.istLtree (L++A) ∧
      TreeAt ((s.storeLtreep v).storeRtreep w).heap
        ((s.storeLtreep v).storeRtreep w).splay.istRtree (B++R.reverse) ∧
      Touches (L++R) s.heap ((s.storeLtreep v).storeRtreep w).heap := by
  obtain ⟨hL,hR,hLT,hRL,hRT⟩ := h.nodup
  obtain ⟨hleft,htouch⟩ := h.storeLtreep hv hA
  have hright := htouch.openTree_mirror h.right hR hRL
  rw [←storeLtreep_istRtree s v,←storeLtreep_istRtreep s v] at hright
  obtain ⟨hopen,hhole,htouch'⟩ := storeRtreep_spec w hright hR
  refine ⟨?_,?_,?_⟩
  · rw [storeRtreep_istLtree]
    refine htouch'.treeAt hleft fun a ha haR => ?_
    exact (mem_append.mp ha).elim (hRL a haR) fun ha => hRT a haR (hA ha)
  · have hw' := htouch'.treeAt (htouch.treeAt hw fun a ha haL => hLT a haL (hB ha))
      fun a ha haR => hRT a haR (hB ha)
    rw [TreeAt,InOrder.mirror_iff,reverse_append,reverse_reverse]
    refine hopen.fill ?_
    rw [hhole]
    exact hw'.mirror
  · exact (htouch.mono (subset_append_left L R)).trans
      (htouch'.mono (subset_append_right L R))

lemma setChildren_treeAt (s : Splaying) {a : ℕ} {p q : Option ℕ} {xs ys : List ℕ}
    (hxs : TreeAt s.heap p xs) (hys : TreeAt s.heap q ys) (hx : a∉xs) (hy : a∉ys) :
    TreeAt ((s.setLchild a p).setRchild a q).heap (some a) (xs++a::ys) := by
  have htouch : Touches [a] s.heap ((s.setLchild a p).setRchild a q).heap :=
    (s.setLchild_touches p (mem_singleton_self a)).trans
      (setRchild_touches _ q (mem_singleton_self a))
  have hl : (((s.setLchild a p).setRchild a q).heap a).iteLchild=p := by
    change lchild _ a=p
    rw [setRchild_lchild,setLchild_lchild,update_self]
  have hr : (((s.setLchild a p).setRchild a q).heap a).iteRchild=q := by
    change rchild _ a=q
    rw [setRchild_rchild,update_self]
  refine .node hl hr (htouch.treeAt hxs fun b hb hba => ?_) (htouch.treeAt hys fun b hb hba => ?_)
  · exact hx (mem_singleton.mp hba▸hb)
  · exact hy (mem_singleton.mp hba▸hb)

lemma Cut.assemble (h : Cut s name W L T R) :
    TreeAt s.ipcSplayPrimAssemble.heap (some s.ipcSplayPrimAssemble.tree) W ∧
      s.ipcSplayPrimAssemble.tree=s.tree ∧ Touches W s.heap s.ipcSplayPrimAssemble.heap := by
  obtain ⟨hLW,hTW,hRW⟩ := h.subset
  obtain ⟨hL,-,hLT,-,hRT⟩ := h.nodup
  have hnodup := h.ordered.nodup
  have hwhole := h.whole
  obtain ⟨A,B,rfl,hA,hB,-⟩ := h.middle
  have htree : s.tree∈A++s.tree::B := mem_append_right _ mem_cons_self
  have htreeW := hTW htree
  have htouch₁ := (storeLtreep_spec (s.heap s.tree).iteLchild h.left hL).2.2
  have hchild : ((s.storeLtreep (s.heap s.tree).iteLchild).heap
      (s.storeLtreep (s.heap s.tree).iteLchild).tree).iteRchild=(s.heap s.tree).iteRchild := by
    rw [storeLtreep_tree,htouch₁.other s.tree fun haL => hLT _ haL htree]
  obtain ⟨hleft,hright,htouch⟩ := h.stores hA hB (subset_append_left _ _) fun a ha =>
    mem_append_right _ (mem_cons_of_mem _ ha)
  have heq : L++(A++s.tree::B)++R.reverse=(L++A)++s.tree::(B++R.reverse) := by
    simp only [append_assoc,cons_append]
  rw [←hwhole,heq,nodup_append,nodup_cons] at hnodup
  obtain ⟨-,⟨hy,-⟩,hx⟩ := hnodup
  have hset := setChildren_treeAt _ hleft hright (fun hmem => hx _ hmem _ mem_cons_self rfl) hy
  rw [←heq,hwhole] at hset
  have hdef : s.ipcSplayPrimAssemble =
      ((((s.storeLtreep (s.heap s.tree).iteLchild).storeRtreep (s.heap s.tree).iteRchild).setLchild
        s.tree ((s.storeLtreep (s.heap s.tree).iteLchild).storeRtreep
          (s.heap s.tree).iteRchild).splay.istLtree).setRchild s.tree
        ((s.storeLtreep (s.heap s.tree).iteLchild).storeRtreep
          (s.heap s.tree).iteRchild).splay.istRtree) := by
    rw [ipcSplayPrimAssemble,hchild]
    simp only [storeRtreep_tree,storeLtreep_tree,setLchild,setEntry]
  rw [hdef]
  refine ⟨?_,(storeRtreep_tree ..).trans (storeLtreep_tree ..),?_⟩
  · change TreeAt _ (some ((s.storeLtreep _).storeRtreep _).tree) W
    rw [storeRtreep_tree,storeLtreep_tree]
    exact hset
  · refine (htouch.mono fun a ha => ?_).trans
      ((setLchild_touches _ _ htreeW).trans (setRchild_touches _ _ htreeW))
    exact (mem_append.mp ha).elim (fun ha => hLW ha) fun ha => hRW ha

/-! ### Between the operations -/

def AtRest (heap : ℕ → IpcTreeEntry) (splay : IpcSplayTree) (W : List ℕ) : Prop :=
  match splay.istRoot with
  | none => W=[]
  | some root => ∃ L T R,Cut ⟨heap,splay,root⟩ splay.istName W L T R ∧
      AtTop ⟨heap,splay,root⟩ splay.istName

variable {heap : ℕ → IpcTreeEntry} {splay : IpcSplayTree}

lemma AtRest.reset {root : ℕ} (splay : IpcSplayTree)
    (htree : TreeAt heap (some root) W) (ho : Ordered heap W) :
    AtRest heap (splay.reset (heap root).iteName (some root)) W := by
  refine ⟨[],W,[],⟨.nil,htree,.nil,?_,ho,fun _ ha => absurd ha not_mem_nil,
    fun _ ha => absurd ha not_mem_nil⟩,Or.inl rfl⟩
  rw [nil_append,reverse_nil,append_nil]

lemma AtRest.ordered
    (h : AtRest heap splay W) : Ordered heap W := by
  unfold AtRest at h
  split at h
  · rw [h]
    exact List.Pairwise.nil
  · obtain ⟨L,T,R,hcut,-⟩ := h
    exact hcut.ordered

lemma AtRest.congr {heap heap' : ℕ → IpcTreeEntry}
    (h : AtRest heap splay W) (hsame : ∀ a,a∈W → heap' a=heap a) : AtRest heap' splay W := by
  unfold AtRest at h ⊢
  split at h
  · exact h
  · rename_i root hroot
    obtain ⟨L,T,R,hcut,htop⟩ := h
    obtain ⟨hL,hR,-⟩ := hcut.nodup
    obtain ⟨hLW,hTW,hRW⟩ := hcut.subset
    have hl : ∀ a,a∈W → lchild heap' a=lchild heap a := fun a ha => by rw [lchild,hsame a ha,lchild]
    have hr : ∀ a,a∈W → rchild heap' a=rchild heap a := fun a ha => by rw [rchild,hsame a ha,rchild]
    refine ⟨L,T,R,⟨?_,?_,?_,hcut.whole,?_,fun a ha => ?_,fun a ha => ?_⟩,?_⟩
    · exact hcut.left.congr hL (fun a ha => hl a (hLW ha)) (fun a ha _ => hr a (hLW ha))
        fun _ => rfl
    · exact InOrder.congr hcut.mid (fun a ha => hl a (hTW ha)) fun a ha => hr a (hTW ha)
    · exact hcut.right.congr hR (fun a ha => hr a (hRW ha)) (fun a ha _ => hl a (hRW ha))
        fun _ => rfl
    · refine hcut.ordered.imp_of_mem fun {a b} ha hb hab => ?_
      change (heap' a).iteName<(heap' b).iteName
      rw [hsame a ha,hsame b hb]
      exact hab
    · change (heap' a).iteName<_
      rw [hsame a (hLW ha)]
      exact hcut.below a ha
    · change _<(heap' a).iteName
      rw [hsame a (hRW ha)]
      exact hcut.above a ha
    · unfold AtTop at htop ⊢
      dsimp only at htop ⊢
      rw [hsame root (hTW hcut.mid.mem_of_some)]
      exact htop

lemma splayTo_spec (name : MachPortName)
    {root : ℕ} (h : AtRest heap splay W) (hroot : splay.istRoot=some root) :
    ∃ s' L T R,(∀ fuel,W.length<fuel → splayTo name fuel ⟨heap,splay,root⟩=some s') ∧
      Cut s' name W L T R ∧ s'.AtTop name ∧ Touches W heap s'.heap := by
  simp only [AtRest,hroot] at h
  obtain ⟨L,T,R,hcut,htop⟩ := h
  by_cases hname : splay.istName≠name
  · obtain ⟨htree,-,htouch⟩ := hcut.assemble
    obtain ⟨s',L',T',R',hloop,hcut',htop',htouch'⟩ :=
      primLookup_spec name htree (htouch.ordered hcut.ordered)
    refine ⟨s',L',T',R',fun fuel hfuel => ?_,hcut',htop',htouch.trans htouch'⟩
    rw [splayTo,if_pos hname]
    exact hloop fuel hfuel
  · rw [not_not] at hname
    subst hname
    refine ⟨⟨heap,splay,root⟩,L,T,R,fun fuel _ => ?_,hcut,htop,Touches.refl _ _⟩
    rw [splayTo,if_neg (not_not.mpr rfl)]

end Splaying
end Darwin.Ipc
