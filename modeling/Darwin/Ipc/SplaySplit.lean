import Darwin.Ipc.SplayOps

/-! Splitting, joining and bounding. -/
open List
namespace Darwin.Ipc
open Lib.LinkedTree Splaying

variable {name : MachPortName} {heap : ℕ → IpcTreeEntry} {splay small : IpcSplayTree} {W : List ℕ}

lemma split_spec (name : MachPortName) (small : IpcSplayTree) (h : AtRest heap splay W) :
    ∃ X Y heap' splay' small',
      (∀ fuel,W.length<fuel →
        ipcSplayTreeSplit name fuel heap splay small=some (heap',splay',small')) ∧
      W=X++Y ∧ AtRest heap' splay' Y ∧ AtRest heap' small' X ∧ Touches W heap heap' ∧
      (∀ a,a∈X → (heap a).iteName<name) ∧ ∀ a,a∈Y → ¬(heap a).iteName<name := by
  rcases hroot : splay.istRoot with _ | root
  · have hW := h
    simp only [AtRest,hroot] at hW
    subst hW
    refine ⟨[],[],heap,splay,ipcSplayTreeInit small,fun _ _ => ?_,rfl,h,atRest_none heap rfl,
      Touches.refl _ _,fun _ ha => absurd ha not_mem_nil,
      fun _ ha => absurd ha not_mem_nil⟩
    simp only [ipcSplayTreeSplit,hroot]
  obtain ⟨s,L,T,R,hs,hcut,htop,htouch⟩ := splayTo_spec name h hroot
  obtain ⟨hLW,hTW,hRW⟩ := hcut.subset
  obtain ⟨hL,-,hLT,hRL,hRT⟩ := hcut.nodup
  have hwhole := hcut.whole
  have ho := hcut.ordered
  rw [←hwhole] at ho
  by_cases hlt : (s.heap s.tree).iteName<name
  · obtain ⟨A,rfl,hA,hchild,hbelow⟩ := hcut.tree_lt htop hlt
    have htree : s.tree∈A++[s.tree] := mem_append_right _ (mem_singleton_self _)
    obtain ⟨hX,hY,htouch'⟩ := hcut.stores hA .nil (subset_append_left _ _) (nil_subset _)
    have htree₂ : ((s.storeLtreep (s.heap s.tree).iteLchild).storeRtreep none).tree=s.tree := by
      rw [storeRtreep_tree,storeLtreep_tree]
    generalize hs₂ : (s.storeLtreep (s.heap s.tree).iteLchild).storeRtreep none=s₂
      at hX hY htouch' htree₂
    rw [nil_append] at hY
    have hchild₂ : (s₂.heap s.tree).iteRchild=none := by
      rw [htouch'.other s.tree,hchild]
      exact fun hmem => (mem_append.mp hmem).elim (fun hm => hLT _ hm htree)
        fun hm => hRT _ hm htree
    have hlist : L++(A++[s.tree])=(L++A)++[s.tree] := (append_assoc ..).symm
    have hnodup := ho.nodup
    rw [hlist,nodup_append,nodup_append] at hnodup
    have htreeX : s.tree∉L++A := fun hmem =>
      hnodup.1.2.2 _ hmem _ (mem_singleton_self _) rfl
    have htreeY : s.tree∉R.reverse := fun hmem => hRT _ (mem_reverse.mp hmem) htree
    have hnil : TreeAt s₂.heap (s₂.heap s.tree).iteRchild [] := by
      rw [hchild₂]
      exact .nil
    have hX₃ := setLchild_treeAt s₂ hX hnil htreeX not_mem_nil
    have htouch₃ : Touches [s.tree] s₂.heap (s₂.setLchild s.tree s₂.splay.istLtree).heap :=
      s₂.setLchild_touches _ (mem_singleton_self _)
    have hY₃ := htouch₃.treeAt hY fun a ha hmem => htreeY (mem_singleton.mp hmem▸ha)
    have htouchW : Touches W heap (s₂.setLchild s.tree s₂.splay.istLtree).heap := by
      refine (htouch.trans (htouch'.mono fun a ha => ?_)).trans
        (htouch₃.mono fun a ha => hTW (mem_singleton.mp ha▸htree))
      exact (mem_append.mp ha).elim (fun ha => hLW ha) fun ha => hRW ha
    have ho₃ := htouchW.ordered h.ordered
    rw [←hwhole,hlist] at ho₃
    have hsmall := AtRest.reset (ipcSplayTreeInit small) hX₃ (pairwise_append.mp ho₃).1
    have hbound : (∀ a,a∈L++A++[s.tree] → (heap a).iteName<name) ∧
        ∀ a,a∈R.reverse → ¬(heap a).iteName<name := by
      refine ⟨fun a ha => ?_,fun a ha hlt => ?_⟩
      · rw [←htouch.name]
        exact hbelow a (hlist▸ha)
      · rw [←htouch.name] at hlt
        exact BitVec.lt_irrefl _ (BitVec.lt_trans hlt (hcut.above a (mem_reverse.mp ha)))
    have hWeq : W=(L++A++[s.tree])++R.reverse := by rw [←hwhole,hlist]
    rcases hr : s₂.splay.istRtree with _ | right
    · rw [hr] at hY₃
      have hYnil := hY₃.none_inv
      refine ⟨_,_,_,{s₂.splay with istRoot := none},_,fun fuel hfuel => ?_,hWeq,?_,hsmall,
        htouchW,hbound⟩
      · simp only [ipcSplayTreeSplit,hroot,hs fuel hfuel,if_pos hlt,hs₂,htree₂]
        rw [show (s₂.setLchild s.tree s₂.splay.istLtree).splay=s₂.splay from rfl,hr,
          show (s₂.setLchild s.tree s₂.splay.istLtree).tree=s.tree from htree₂]
      · rw [hYnil]
        exact atRest_none _ rfl
    · rw [hr] at hY₃
      refine ⟨_,_,_,_,_,fun fuel hfuel => ?_,hWeq,AtRest.reset s₂.splay hY₃
        (pairwise_append.mp ho₃).2.1,hsmall,htouchW,hbound⟩
      simp only [ipcSplayTreeSplit,hroot,hs fuel hfuel,if_pos hlt,hs₂,htree₂]
      rw [show (s₂.setLchild s.tree s₂.splay.istLtree).splay=s₂.splay from rfl,hr,
        show (s₂.setLchild s.tree s₂.splay.istLtree).tree=s.tree from htree₂]
  · obtain ⟨A,B,rfl,hA,hB,hbelow,habove,hne⟩ := hcut.tree_ge htop hlt
    have htree : s.tree∈A++s.tree::B := mem_append_right _ mem_cons_self
    obtain ⟨hX,htouch'⟩ := hcut.storeLtreep hA (subset_append_left _ _)
    have hright : OpenTree (rchild (s.storeLtreep (s.heap s.tree).iteLchild).heap)
        (lchild (s.storeLtreep (s.heap s.tree).iteLchild).heap)
        (s.storeLtreep (s.heap s.tree).iteLchild).splay.istRtree
        (s.storeLtreep (s.heap s.tree).iteLchild).splay.istRtreep R := by
      rw [storeLtreep_istRtree,storeLtreep_istRtreep]
      exact htouch'.openTree_mirror hcut.right (nodup_reverse.mp (nodup_append.mp ho.nodup).2.1) hRL
    have htree₁ := storeLtreep_tree s (s.heap s.tree).iteLchild
    generalize hs₁ : s.storeLtreep (s.heap s.tree).iteLchild=s₁ at hX htouch' hright htree₁
    have hsame : ∀ a,a∈A++s.tree::B → s₁.heap a=s.heap a := fun a ha =>
      htouch'.other a fun haL => hLT a haL ha
    have hlist : L++(A++s.tree::B)++R.reverse=(L++A)++s.tree::(B++R.reverse) := by
      simp only [append_assoc,cons_append]
    have hnodup := ho.nodup
    rw [hlist,nodup_append,nodup_cons] at hnodup
    obtain ⟨-,⟨htreeY,-⟩,hXY⟩ := hnodup
    have hY : TreeAt s₁.heap (s₁.heap s.tree).iteRchild B := by
      rw [hsame s.tree htree]
      exact htouch'.treeAt hB fun a ha haL =>
        hLT a haL (mem_append_right _ (mem_cons_of_mem _ ha))
    have htreeX : s.tree∉L++A := fun hmem => hXY _ hmem _ mem_cons_self rfl
    have hY₂ := setLchild_treeAt s₁ .nil hY not_mem_nil
      fun hmem => htreeY (mem_append_left _ hmem)
    have htouch₂ : Touches [s.tree] s₁.heap (s₁.setLchild s.tree none).heap :=
      s₁.setLchild_touches _ (mem_singleton_self _)
    have hX₂ := htouch₂.treeAt hX fun a ha hmem => htreeX (mem_singleton.mp hmem▸ha)
    have hright₂ := htouch₂.openTree_mirror hright
      (nodup_reverse.mp (nodup_append.mp ho.nodup).2.1)
      fun a ha hmem => hRT a ha (mem_singleton.mp hmem▸htree)
    have htouchW : Touches W heap (s₁.setLchild s.tree none).heap :=
      (htouch.trans (htouch'.mono hLW)).trans
        (htouch₂.mono fun a ha => hTW (mem_singleton.mp ha▸htree))
    have hnames : ∀ a,((s₁.setLchild s.tree none).heap a).iteName=(s.heap a).iteName :=
      fun a => (htouchW.name a).trans (htouch.name a).symm
    have ho₂ := htouchW.ordered h.ordered
    rw [←hwhole,hlist] at ho₂
    have hrest : AtRest (s₁.setLchild s.tree none).heap
        {s₁.splay with istRoot := some s.tree,istName := name,istLtreep := none}
        (s.tree::(B++R.reverse)) := by
      refine ⟨[],s.tree::B,R,⟨.nil,hY₂,hright₂,rfl,(pairwise_append.mp ho₂).2.1,
        fun _ ha => absurd ha not_mem_nil,fun a ha => ?_⟩,?_⟩
      · change name<((s₁.setLchild s.tree none).heap a).iteName
        rw [hnames]
        exact hcut.above a ha
      · change ((s₁.setLchild s.tree none).heap s.tree).iteName=name ∨
          name<((s₁.setLchild s.tree none).heap s.tree).iteName ∧
            ((s₁.setLchild s.tree none).heap s.tree).iteLchild=none ∨ _
        rw [hnames]
        by_cases heq : (s.heap s.tree).iteName=name
        · exact Or.inl heq
        · refine Or.inr (Or.inl ⟨(hne heq).1,?_⟩)
          change lchild _ s.tree=none
          rw [setLchild_lchild,Function.update_self]
    have hbound : (∀ a,a∈L++A → (heap a).iteName<name) ∧
        ∀ a,a∈s.tree::(B++R.reverse) → ¬(heap a).iteName<name := by
      refine ⟨fun a ha => ?_,fun a ha hlt' => ?_⟩
      · rw [←htouch.name]
        exact hbelow a ha
      · rw [←htouch.name] at hlt'
        rcases mem_cons.mp ha with rfl | ha
        · exact hlt hlt'
        · exact BitVec.lt_irrefl _ (BitVec.lt_trans hlt' (habove a ha))
    have hWeq : W=(L++A)++s.tree::(B++R.reverse) := by rw [←hwhole,hlist]
    rcases hl : s₁.splay.istLtree with _ | left
    · rw [hl] at hX₂
      have hXnil := hX₂.none_inv
      refine ⟨_,_,_,_,ipcSplayTreeInit small,fun fuel hfuel => ?_,hWeq,hrest,?_,htouchW,hbound⟩
      · simp only [ipcSplayTreeSplit,hroot,hs fuel hfuel,if_neg hlt,hs₁,htree₁]
        rw [show (s₁.setLchild s.tree none).splay=s₁.splay from rfl,hl]
        dsimp only
        rw [show (s₁.setLchild s.tree none).tree=s.tree from htree₁]
      · rw [hXnil]
        exact atRest_none _ rfl
    · rw [hl] at hX₂
      refine ⟨_,_,_,_,_,fun fuel hfuel => ?_,hWeq,hrest,
        AtRest.reset (ipcSplayTreeInit small) hX₂ (pairwise_append.mp ho₂).1,htouchW,hbound⟩
      simp only [ipcSplayTreeSplit,hroot,hs fuel hfuel,if_neg hlt,hs₁,htree₁]
      rw [show (s₁.setLchild s.tree none).splay=s₁.splay from rfl,hl]
      dsimp only
      rw [show (s₁.setLchild s.tree none).tree=s.tree from htree₁]

lemma splayToSmallest {root : ℕ} (h : AtRest heap splay W) (hroot : splay.istRoot=some root) :
    ∃ s' Z,(∀ fuel,W.length<fuel → splayTo machPortSmallest fuel ⟨heap,splay,root⟩=some s') ∧
      W=s'.tree::Z ∧ s'.ipcSplayPrimAssemble.tree=s'.tree ∧
      TreeAt s'.ipcSplayPrimAssemble.heap (some s'.tree) W ∧
      Touches W heap s'.ipcSplayPrimAssemble.heap := by
  obtain ⟨s',L,T,R,hs',hcut,htop,htouch⟩ := splayTo_spec machPortSmallest h hroot
  obtain ⟨hassemble,htree,htouch'⟩ := hcut.assemble
  rw [htree] at hassemble
  obtain ⟨A,B,hT,-,-,hbelow,-⟩ := hcut.tree_ge htop (not_lt_smallest _)
  have hLA : L++A=[] := eq_nil_iff_forall_not_mem.mpr fun a ha =>
    not_lt_smallest _ (hbelow a ha)
  refine ⟨s',B++R.reverse,hs',?_,htree,hassemble,htouch.trans htouch'⟩
  rw [←hcut.whole,hT,←append_assoc,hLA,nil_append,cons_append]

lemma join_spec {V : List ℕ} (h : AtRest heap splay W) (hsmall : AtRest heap small V)
    (hlt : ∀ a,a∈V → ∀ b,b∈W → (heap a).iteName<(heap b).iteName) : ∃ heap' splay' small',
      (∀ fuel,W.length<fuel → ipcSplayTreeJoin fuel heap splay small=some (heap',splay',small')) ∧
      AtRest heap' splay' (V++W) ∧ AtRest heap' small' [] ∧ Touches (V++W) heap heap' := by
  have hdisj : ∀ a,a∈W → a∉V := fun a haW haV => BitVec.lt_irrefl _ (hlt a haV a haW)
  have ho : Ordered heap (V++W) :=
    pairwise_append.mpr ⟨hsmall.ordered,h.ordered,fun a ha b hb => hlt a ha b hb⟩
  rcases hsroot : small.istRoot with _ | sroot
  · have hV := hsmall
    simp only [AtRest,hsroot] at hV
    subst hV
    refine ⟨heap,splay,small,fun _ _ => ?_,h,hsmall,Touches.refl _ _⟩
    simp only [ipcSplayTreeJoin,hsroot]
  simp only [AtRest,hsroot] at hsmall
  obtain ⟨L,T,R,hcut,-⟩ := hsmall
  obtain ⟨hV,htree,htouch⟩ := hcut.assemble
  rw [htree] at hV
  generalize hp : Splaying.ipcSplayPrimAssemble ⟨heap,small,sroot⟩=pulled at hV htouch
  have hW : AtRest pulled.heap splay W := h.congr fun a ha => htouch.other a (hdisj a ha)
  have hnone : ∀ heap' : ℕ → IpcTreeEntry,AtRest heap' {pulled.splay with istRoot := none} [] :=
    fun heap' => atRest_none heap' rfl
  rcases hroot : splay.istRoot with _ | root
  · simp only [AtRest,hroot] at hW
    subst hW
    rw [append_nil] at ho ⊢
    refine ⟨_,_,_,fun _ _ => ?_,AtRest.reset splay hV (htouch.ordered ho),hnone _,htouch⟩
    simp only [ipcSplayTreeJoin,hsroot,hroot,hp]
  · obtain ⟨s,Z,hs,rfl,hstree,hassemble,htouch'⟩ := splayToSmallest hW hroot
    have hnodup := ho.nodup
    rw [nodup_append,nodup_cons] at hnodup
    obtain ⟨-,⟨hZ,-⟩,hVZ⟩ := hnodup
    have hV' := htouch'.treeAt hV fun a haV haW => hdisj a haW haV
    have hset := setLchild_treeAt s.ipcSplayPrimAssemble hV' (hassemble.of_first hZ)
      (fun hmem => hVZ _ hmem _ mem_cons_self rfl) hZ
    have htouchW : Touches (V++s.tree::Z) heap
        (s.ipcSplayPrimAssemble.setLchild s.tree (some sroot)).heap :=
      ((htouch.mono (subset_append_left _ _)).trans (htouch'.mono (subset_append_right _ _))).trans
        (setLchild_touches _ _ (mem_append_right _ mem_cons_self))
    refine ⟨_,_,_,fun fuel hfuel => ?_,
      AtRest.reset s.ipcSplayPrimAssemble.splay hset (htouchW.ordered ho),hnone _,htouchW⟩
    simp only [ipcSplayTreeJoin,hsroot,hroot,hp,hs fuel hfuel,hstree]
    rw [show (s.ipcSplayPrimAssemble.setLchild s.tree (some sroot)).tree=s.tree from hstree]
    rfl

def IsLower (heap : ℕ → IpcTreeEntry) (W : List ℕ) (name lower : MachPortName) : Prop :=
  (∃ a,a∈W ∧ (heap a).iteName=lower ∧ lower≤name ∧
    ∀ b,b∈W → (heap b).iteName≤name → (heap b).iteName≤lower) ∨
  (∀ b,b∈W → ¬(heap b).iteName≤name) ∧ lower=machPortLargest

def IsUpper (heap : ℕ → IpcTreeEntry) (W : List ℕ) (name upper : MachPortName) : Prop :=
  (∃ a,a∈W ∧ (heap a).iteName=upper ∧ name≤upper ∧
    ∀ b,b∈W → name≤(heap b).iteName → upper≤(heap b).iteName) ∨
  (∀ b,b∈W → ¬name≤(heap b).iteName) ∧ upper=machPortSmallest

lemma Splaying.Cut.lowerp {s : Splaying} {L T R : List ℕ} (h : s.Cut name W L T R)
    (htop : s.AtTop name) : IsLower s.heap W name (s.lowerp name) := by
  have ho := h.ordered
  unfold Splaying.lowerp
  by_cases hle : (s.heap s.tree).iteName≤name
  · rw [if_pos hle]
    refine Or.inl ⟨s.tree,h.tree_mem,rfl,hle,fun b hb hbn => ?_⟩
    by_cases hlt : (s.heap s.tree).iteName<name
    · obtain ⟨A,rfl,-⟩ := h.tree_lt htop hlt
      rw [←h.whole,←append_assoc L] at hb ho
      rw [mem_append,mem_append,mem_singleton] at hb
      rcases hb with (hb | rfl) | hb
      · exact BitVec.le_of_lt ((pairwise_append.mp (pairwise_append.mp ho).1).2.2 b hb _
          (mem_singleton_self _))
      · exact BitVec.le_refl _
      · exact absurd (h.above b (mem_reverse.mp hb)) (BitVec.not_lt.mpr hbn)
    · rwa [BitVec.le_antisymm hle (BitVec.not_lt.mp hlt)]
  · rw [if_neg hle]
    have hgt := BitVec.not_le.mp hle
    obtain ⟨A,B,rfl,-,-,-,habove,hne⟩ := h.tree_ge htop fun hlt => hle (BitVec.le_of_lt hlt)
    obtain ⟨-,rfl,-⟩ := hne fun heq => hle (heq▸BitVec.le_refl _)
    -- what is at most the name is in the left tree
    have hleft : ∀ b,b∈W → (s.heap b).iteName≤name → b∈L := by
      intro b hb hbn
      rw [←h.whole,nil_append,append_assoc,cons_append,mem_append,mem_cons] at hb
      rcases hb with hb | rfl | hb
      · exact hb
      · exact absurd hbn hle
      · exact absurd (habove b hb) (BitVec.not_lt.mpr hbn)
    rcases hp : s.splay.istLtreep with _ | e
    · have hL := h.left
      rw [hp] at hL
      refine Or.inr ⟨fun b hb hbn => ?_,rfl⟩
      have := hleft b hb hbn
      rw [hL.none_inv] at this
      exact absurd this not_mem_nil
    · have hL := h.left
      rw [hp] at hL
      obtain ⟨Y,rfl⟩ := hL.some_inv
      have he : e∈Y++[e] := mem_append_right _ (mem_singleton_self _)
      refine Or.inl ⟨e,h.subset.1 he,rfl,BitVec.le_of_lt (h.below e he),fun b hb hbn => ?_⟩
      rw [←h.whole,append_assoc] at ho
      rcases mem_append.mp (hleft b hb hbn) with hb | hb
      · exact BitVec.le_of_lt ((pairwise_append.mp (pairwise_append.mp ho).1).2.2 b hb _
          (mem_singleton_self _))
      · rw [mem_singleton.mp hb]
        exact BitVec.le_refl _

lemma not_le_not {a b : MachPortName} : ~~~a ≤ ~~~b ↔ b≤a := by
  rw [←BitVec.not_lt,←BitVec.not_lt,not_lt_not]

lemma Splaying.upperp_mirror (s : Splaying) (name : MachPortName) :
    s.mirror.lowerp (~~~name) = ~~~s.upperp name := by
  have hname : ∀ a,(s.mirror.heap a).iteName = ~~~(s.heap a).iteName := fun _ => rfl
  have htree : s.mirror.tree=s.tree := rfl
  have hptr : s.mirror.splay.istLtreep=s.splay.istRtreep := rfl
  by_cases h : name≤(s.heap s.tree).iteName
  · simp only [lowerp,upperp,htree,hname,not_le_not,if_pos h]
  · rcases hp : s.splay.istRtreep with _ | e
    · simp only [lowerp,upperp,htree,hname,not_le_not,if_neg h,hptr,hp]
      rfl
    · simp only [lowerp,upperp,htree,hname,not_le_not,if_neg h,hptr,hp]

lemma Splaying.Cut.upperp {s : Splaying} {L T R : List ℕ} (h : s.Cut name W L T R)
    (htop : s.AtTop name) : IsUpper s.heap W name (s.upperp name) := by
  have htop' : s.mirror.AtTop (~~~name) := by
    rcases htop with heq | ⟨hlt,hchild⟩ | ⟨hlt,hchild⟩
    · exact Or.inl (congrArg (~~~ ·) heq)
    · exact Or.inr (Or.inr ⟨not_lt_not.mpr hlt,hchild⟩)
    · exact Or.inr (Or.inl ⟨not_lt_not.mpr hlt,hchild⟩)
  have hlower := h.mirror.lowerp htop'
  rw [s.upperp_mirror] at hlower
  rcases hlower with ⟨a,ha,hname,hle,hmax⟩ | ⟨hnone,hlargest⟩
  · refine Or.inl ⟨a,mem_reverse.mp ha,?_,not_le_not.mp hle,fun b hb hbn => ?_⟩
    · exact BitVec.not_inj.mp hname
    · exact not_le_not.mp (hmax b (mem_reverse.mpr hb) (not_le_not.mpr hbn))
  · refine Or.inr ⟨fun b hb hbn => ?_,?_⟩
    · exact hnone b (mem_reverse.mpr hb) (not_le_not.mpr hbn)
    · exact BitVec.not_inj.mp hlargest

lemma bounds_spec (name : MachPortName) (h : AtRest heap splay W) : ∃ lower upper heap' splay',
      (∀ fuel,W.length<fuel →
        ipcSplayTreeBounds name fuel heap splay=some ((lower,upper),heap',splay')) ∧
      AtRest heap' splay' W ∧ Touches W heap heap' ∧ IsLower heap W name lower ∧
      IsUpper heap W name upper := by
  rcases hroot : splay.istRoot with _ | root
  · have hW := h
    simp only [AtRest,hroot] at hW
    subst hW
    refine ⟨machPortLargest,machPortSmallest,heap,splay,fun _ _ => ?_,h,Touches.refl _ _,
      Or.inr ⟨fun _ hb => absurd hb not_mem_nil,rfl⟩,
      Or.inr ⟨fun _ hb => absurd hb not_mem_nil,rfl⟩⟩
    simp only [ipcSplayTreeBounds,hroot]
  · obtain ⟨s,L,T,R,hs,hcut,htop,htouch⟩ := splayTo_spec name h hroot
    refine ⟨s.lowerp name,s.upperp name,_,_,fun fuel hfuel => ?_,hcut.atRest htop,htouch,?_,?_⟩
    · simp only [ipcSplayTreeBounds,hroot,hs fuel hfuel]
    · have hlower := hcut.lowerp htop
      simp only [IsLower,htouch.name] at hlower
      exact hlower
    · have hupper := hcut.upperp htop
      simp only [IsUpper,htouch.name] at hupper
      exact hupper

end Darwin.Ipc
