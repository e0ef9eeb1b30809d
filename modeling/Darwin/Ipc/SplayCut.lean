import Darwin.Ipc.Splay
import Darwin.Lib.LinkedTree

/-! A splay tree that is taken apart at a name: the entries of the left, the middle and the right
tree in order, and what the steps of a lookup keep of it. -/
open List Function Option
namespace Darwin.Ipc
open Lib.LinkedTree

def lchild (heap : ℕ → IpcTreeEntry) (a : ℕ) : Option ℕ := (heap a).iteLchild
def rchild (heap : ℕ → IpcTreeEntry) (a : ℕ) : Option ℕ := (heap a).iteRchild

def TreeAt (heap : ℕ → IpcTreeEntry) (p : Option ℕ) (xs : List ℕ) : Prop :=
  InOrder (lchild heap) (rchild heap) p xs

lemma TreeAt.node {heap : ℕ → IpcTreeEntry} {a : ℕ} {p q : Option ℕ} {xs ys : List ℕ}
    (hp : (heap a).iteLchild=p) (hq : (heap a).iteRchild=q) (hxs : TreeAt heap p xs)
    (hys : TreeAt heap q ys) : TreeAt heap (some a) (xs++a::ys) := by
  subst hp hq
  exact InOrder.node hxs hys

def Ordered (heap : ℕ → IpcTreeEntry) (xs : List ℕ) : Prop :=
  xs.Pairwise fun a b => (heap a).iteName<(heap b).iteName

/-- The links of these entries may have changed, and nothing else. -/
structure Touches (xs : List ℕ) (heap heap' : ℕ → IpcTreeEntry) : Prop where
  name : ∀ a,(heap' a).iteName=(heap a).iteName
  other : ∀ a,a∉xs → heap' a=heap a

namespace Touches

variable {xs ys : List ℕ} {heap heap' heap'' : ℕ → IpcTreeEntry}

lemma refl (xs : List ℕ) (heap : ℕ → IpcTreeEntry) : Touches xs heap heap :=
  ⟨fun _ => rfl,fun _ _ => rfl⟩

lemma trans (h : Touches xs heap heap') (h' : Touches xs heap' heap'') : Touches xs heap heap'' :=
  ⟨fun a => (h'.name a).trans (h.name a),fun a ha => (h'.other a ha).trans (h.other a ha)⟩

lemma mono (h : Touches xs heap heap') (hsub : xs⊆ys) : Touches ys heap heap' :=
  ⟨h.name,fun a ha => h.other a fun hx => ha (hsub hx)⟩

lemma ordered (h : Touches xs heap heap') (ho : Ordered heap ys) : Ordered heap' ys := by
  refine ho.imp fun {a b} hab => ?_
  rw [h.name,h.name]
  exact hab

lemma treeAt (h : Touches xs heap heap') {p : Option ℕ} (ht : TreeAt heap p ys)
    (hdisj : ∀ a,a∈ys → a∉xs) : TreeAt heap' p ys := by
  refine InOrder.congr ht (fun a ha => ?_) fun a ha => ?_
  · rw [lchild,h.other a (hdisj a ha),lchild]
  · rw [rchild,h.other a (hdisj a ha),rchild]

lemma openTree (h : Touches xs heap heap') {root last : Option ℕ}
    (ht : OpenTree (lchild heap) (rchild heap) root last ys) (hnodup : ys.Nodup)
    (hdisj : ∀ a,a∈ys → a∉xs) : OpenTree (lchild heap') (rchild heap') root last ys := by
  refine ht.congr hnodup (fun a ha => ?_) (fun a ha _ => ?_) fun _ => rfl
  · rw [lchild,h.other a (hdisj a ha),lchild]
  · rw [rchild,h.other a (hdisj a ha),rchild]

lemma openTree_mirror (h : Touches xs heap heap') {root last : Option ℕ}
    (ht : OpenTree (rchild heap) (lchild heap) root last ys) (hnodup : ys.Nodup)
    (hdisj : ∀ a,a∈ys → a∉xs) : OpenTree (rchild heap') (lchild heap') root last ys := by
  refine ht.congr hnodup (fun a ha => ?_) (fun a ha _ => ?_) fun _ => rfl
  · rw [rchild,h.other a (hdisj a ha),rchild]
  · rw [lchild,h.other a (hdisj a ha),lchild]

end Touches

lemma Ordered.nodup {heap : ℕ → IpcTreeEntry} {xs : List ℕ} (h : Ordered heap xs) : xs.Nodup :=
  h.imp fun {a b} hab heq => by
    rw [heq] at hab
    exact absurd hab (BitVec.lt_irrefl _)

namespace Splaying

/-- The tree is taken apart into the entries `L`, `T` and, from the last one, `R`. -/
structure Cut (s : Splaying) (name : MachPortName) (W L T R : List ℕ) : Prop where
  left : OpenTree (lchild s.heap) (rchild s.heap) s.splay.istLtree s.splay.istLtreep L
  mid : TreeAt s.heap (some s.tree) T
  right : OpenTree (rchild s.heap) (lchild s.heap) s.splay.istRtree s.splay.istRtreep R
  whole : L++T++R.reverse=W
  ordered : Ordered s.heap W
  below : ∀ a,a∈L → (s.heap a).iteName<name
  above : ∀ a,a∈R → name<(s.heap a).iteName

def AtTop (s : Splaying) (name : MachPortName) : Prop :=
  (s.heap s.tree).iteName=name ∨ name<(s.heap s.tree).iteName ∧ (s.heap s.tree).iteLchild=none ∨
    (s.heap s.tree).iteName<name ∧ (s.heap s.tree).iteRchild=none

/-! ### Stores -/

lemma setLchild_lchild (s : Splaying) (a : ℕ) (child : Option ℕ) :
    lchild (s.setLchild a child).heap=update (lchild s.heap) a child := by
  funext b
  change (update s.heap a _ b).iteLchild=_
  by_cases hb : b=a
  · rw [hb,update_self,update_self]
  · rw [update_of_ne hb,update_of_ne hb]
    rfl

lemma setLchild_rchild (s : Splaying) (a : ℕ) (child : Option ℕ) :
    rchild (s.setLchild a child).heap=rchild s.heap := by
  funext b
  change (update s.heap a _ b).iteRchild=_
  by_cases hb : b=a
  · rw [hb,update_self]
    rfl
  · rw [update_of_ne hb]
    rfl

lemma setRchild_rchild (s : Splaying) (a : ℕ) (child : Option ℕ) :
    rchild (s.setRchild a child).heap=update (rchild s.heap) a child := by
  funext b
  change (update s.heap a _ b).iteRchild=_
  by_cases hb : b=a
  · rw [hb,update_self,update_self]
  · rw [update_of_ne hb,update_of_ne hb]
    rfl

lemma setRchild_lchild (s : Splaying) (a : ℕ) (child : Option ℕ) :
    lchild (s.setRchild a child).heap=lchild s.heap := by
  funext b
  change (update s.heap a _ b).iteLchild=_
  by_cases hb : b=a
  · rw [hb,update_self]
    rfl
  · rw [update_of_ne hb]
    rfl

lemma setEntry_touches (s : Splaying) {a : ℕ} {entry : IpcTreeEntry}
    (hname : entry.iteName=(s.heap a).iteName) {xs : List ℕ} (ha : a∈xs) :
    Touches xs s.heap (s.setEntry a entry).heap := by
  refine ⟨fun b => ?_,fun b hb => update_of_ne (fun hba : b=a => hb (hba▸ha)) _ _⟩
  change (update s.heap a entry b).iteName=_
  by_cases hb : b=a
  · rw [hb,update_self,hname]
  · rw [update_of_ne hb]

lemma setLchild_touches (s : Splaying) {a : ℕ} (child : Option ℕ) {xs : List ℕ} (ha : a∈xs) :
    Touches xs s.heap (s.setLchild a child).heap := by
  apply s.setEntry_touches _ ha
  rfl

lemma setRchild_touches (s : Splaying) {a : ℕ} (child : Option ℕ) {xs : List ℕ} (ha : a∈xs) :
    Touches xs s.heap (s.setRchild a child).heap := by
  apply s.setEntry_touches _ ha
  rfl

@[simp] lemma storeLtreep_tree (s : Splaying) (v : Option ℕ) : (s.storeLtreep v).tree=s.tree := by
  unfold storeLtreep
  split <;> rfl

lemma storeLtreep_splay (s : Splaying) (v : Option ℕ) : (s.storeLtreep v).splay =
      {s.splay with istLtree := (s.storeLtreep v).splay.istLtree} := by
  unfold storeLtreep
  split <;> rfl

@[simp] lemma storeLtreep_istRtree (s : Splaying) (v : Option ℕ) :
    (s.storeLtreep v).splay.istRtree=s.splay.istRtree := by rw [storeLtreep_splay]

@[simp] lemma storeLtreep_istRtreep (s : Splaying) (v : Option ℕ) :
    (s.storeLtreep v).splay.istRtreep=s.splay.istRtreep := by rw [storeLtreep_splay]

lemma storeLtreep_spec {s : Splaying} {L : List ℕ} (v : Option ℕ)
    (hL : OpenTree (lchild s.heap) (rchild s.heap) s.splay.istLtree s.splay.istLtreep L)
    (hnodup : L.Nodup) : OpenTree (lchild (s.storeLtreep v).heap) (rchild (s.storeLtreep v).heap)
      (s.storeLtreep v).splay.istLtree s.splay.istLtreep L ∧
    hole (rchild (s.storeLtreep v).heap) (s.storeLtreep v).splay.istLtree s.splay.istLtreep=v ∧
    Touches L s.heap (s.storeLtreep v).heap := by
  rcases hp : s.splay.istLtreep with _ | a
  · rw [hp] at hL
    simp only [storeLtreep,hp]
    rw [hL.none_inv]
    exact ⟨.nil,rfl,Touches.refl _ _⟩
  · rw [hp] at hL
    simp only [storeLtreep,hp]
    refine ⟨?_,?_,s.setRchild_touches v hL.mem_last⟩
    · refine hL.congr hnodup (fun b _ => by rw [setRchild_lchild]) (fun b _ hb => ?_) fun _ => rfl
      rw [setRchild_rchild,update_of_ne fun hba => hb (by rw [hba])]
    · rw [hole,setRchild_rchild,update_self]

/-! ### The mirror image -/

def mirrorEntry (entry : IpcTreeEntry) : IpcTreeEntry :=
  ⟨~~~entry.iteName,entry.iteRchild,entry.iteLchild⟩

def mirror (s : Splaying) : Splaying where
  heap a := mirrorEntry (s.heap a)
  splay := ⟨~~~s.splay.istName,s.splay.istRoot,s.splay.istRtree,s.splay.istRtreep,s.splay.istLtree,
    s.splay.istLtreep⟩
  tree := s.tree

lemma not_lt_not {a b : MachPortName} : ~~~a < ~~~b ↔ b<a := by
  rw [BitVec.lt_def,BitVec.lt_def,BitVec.toNat_not,BitVec.toNat_not]
  have := a.isLt
  have := b.isLt
  omega

lemma mirror_mirror (s : Splaying) : s.mirror.mirror=s := by
  simp only [mirror,mirrorEntry,BitVec.not_not]

lemma setLchild_mirror (s : Splaying) (a : ℕ) (child : Option ℕ) :
    (s.setLchild a child).mirror=s.mirror.setRchild a child := by
  unfold mirror setRchild setLchild setEntry
  congr 1
  funext b
  exact apply_update (fun _ => mirrorEntry) s.heap a _ b

lemma setRchild_mirror (s : Splaying) (a : ℕ) (child : Option ℕ) :
    (s.setRchild a child).mirror=s.mirror.setLchild a child := by
  rw [←mirror_mirror (s.mirror.setLchild a child),setLchild_mirror,mirror_mirror]

lemma storeLtreep_mirror (s : Splaying) (v : Option ℕ) :
    (s.storeLtreep v).mirror=s.mirror.storeRtreep v := by
  have hmirror : s.mirror.splay.istRtreep=s.splay.istLtreep := rfl
  rcases hp : s.splay.istLtreep with _ | a
  · simp only [storeLtreep,storeRtreep,hmirror,hp]
    rfl
  · simp only [storeLtreep,storeRtreep,hmirror,hp]
    exact s.setRchild_mirror a v

lemma linkLeft_mirror (s : Splaying) : s.mirror.linkRight=s.linkLeft.map mirror := by
  have hmirror : ((s.storeLtreep (some s.tree)).mirror.heap
      (s.storeLtreep (some s.tree)).mirror.tree).iteLchild =
      ((s.storeLtreep (some s.tree)).heap (s.storeLtreep (some s.tree)).tree).iteRchild := rfl
  unfold linkLeft linkRight
  rw [show s.mirror.tree=s.tree from rfl,←storeLtreep_mirror]
  rcases hc : ((s.storeLtreep (some s.tree)).heap
    (s.storeLtreep (some s.tree)).tree).iteRchild with _ | c
  · simp only [hmirror,hc,map_none]
  · simp only [hmirror,hc,map_some]
    rfl

lemma rotateLeft_mirror (s : Splaying) : s.mirror.rotateRight=s.rotateLeft.map mirror := by
  have hmirror : (s.mirror.heap s.mirror.tree).iteLchild=(s.heap s.tree).iteRchild := rfl
  rcases hc : (s.heap s.tree).iteRchild with _ | c
  · simp only [rotateLeft,rotateRight,hmirror,hc,map_none]
  · simp only [rotateLeft,rotateRight,hmirror,hc,map_some]
    congr 1
    change _={ ((s.setRchild s.tree (s.heap c).iteLchild).setLchild c (some s.tree)).mirror with
      tree := c}
    rw [setLchild_mirror,setRchild_mirror]
    rfl

variable {s : Splaying} {name : MachPortName} {W L T R : List ℕ}

lemma Cut.mirror (h : Cut s name W L T R) : Cut s.mirror (~~~name) W.reverse R T.reverse L := by
  refine ⟨h.right,h.mid.mirror,h.left,?_,?_,fun a ha => not_lt_not.mpr (h.above a ha),
    fun a ha => not_lt_not.mpr (h.below a ha)⟩
  · rw [←h.whole,reverse_append,reverse_append,reverse_reverse,append_assoc]
  · exact pairwise_reverse.mpr (h.ordered.imp not_lt_not.mpr)

lemma Cut.of_mirror (h : Cut s.mirror (~~~name) W.reverse R T.reverse L) : Cut s name W L T R := by
  have hm := h.mirror
  rwa [mirror_mirror,BitVec.not_not,reverse_reverse,reverse_reverse] at hm

lemma Touches.of_mirror {heap heap' : ℕ → IpcTreeEntry}
    (h : Touches W (fun a => mirrorEntry (heap a)) fun a => mirrorEntry (heap' a)) :
    Touches W heap heap' := by
  refine ⟨fun a => ?_,fun a ha => ?_⟩
  · have := congrArg (~~~ ·) (h.name a)
    simpa only [mirrorEntry,BitVec.not_not] using this
  · have := congrArg mirrorEntry (h.other a ha)
    simpa only [mirrorEntry,BitVec.not_not] using this

/-! ### The steps of a lookup -/

lemma Cut.nodup (h : Cut s name W L T R) :
    L.Nodup ∧ R.Nodup ∧ (∀ a,a∈L → a∉T) ∧ (∀ a,a∈R → a∉L) ∧ ∀ a,a∈R → a∉T := by
  have hnodup := h.ordered.nodup
  rw [←h.whole,nodup_append,nodup_append] at hnodup
  obtain ⟨⟨hL,-,hLT⟩,hR,hLTR⟩ := hnodup
  refine ⟨hL,nodup_reverse.mp hR,fun a ha haT => hLT a ha a haT rfl,fun a ha haL => ?_,
    fun a ha haT => ?_⟩
  · exact hLTR a (mem_append_left _ haL) a (mem_reverse.mpr ha) rfl
  · exact hLTR a (mem_append_right _ haT) a (mem_reverse.mpr ha) rfl

lemma Cut.subset (h : Cut s name W L T R) : L⊆W ∧ T⊆W ∧ R⊆W := by
  rw [←h.whole]
  refine ⟨fun a ha => ?_,fun a ha => ?_,fun a ha => ?_⟩
  · exact mem_append_left _ (mem_append_left _ ha)
  · exact mem_append_left _ (mem_append_right _ ha)
  · exact mem_append_right _ (mem_reverse.mpr ha)

lemma Cut.ordered_mid (h : Cut s name W L T R) : Ordered s.heap T := by
  have ho := h.ordered
  rw [←h.whole] at ho
  exact (pairwise_append.mp (pairwise_append.mp ho).1).2.1

lemma Cut.middle (h : Cut s name W L T R) :
    ∃ A B,T=A++s.tree::B ∧ TreeAt s.heap (s.heap s.tree).iteLchild A ∧
      TreeAt s.heap (s.heap s.tree).iteRchild B ∧
      (∀ a,a∈A → (s.heap a).iteName<(s.heap s.tree).iteName) ∧
      ∀ a,a∈B → (s.heap s.tree).iteName<(s.heap a).iteName := by
  obtain ⟨A,B,rfl,hA,hB⟩ := h.mid.some_inv
  have ho := pairwise_append.mp h.ordered_mid
  exact ⟨A,B,rfl,hA,hB,fun a ha => ho.2.2 a ha _ mem_cons_self,
    (pairwise_cons.mp ho.2.1).1⟩

lemma Cut.linkLeft (h : Cut s name W L T R) {c : ℕ} (hc : (s.heap s.tree).iteRchild=some c)
    (hlt : (s.heap s.tree).iteName<name) :
    ∃ s' A B,s.linkLeft=some s' ∧ T=A++s.tree::B ∧ s'.tree=c ∧
      Cut s' name W (L++A++[s.tree]) B R ∧ Touches W s.heap s'.heap ∧ s'.heap c=s.heap c := by
  obtain ⟨A,B,rfl,hA,hB,hbelow,-⟩ := h.middle
  obtain ⟨hL,hR,hLT,hRL,-⟩ := h.nodup
  have hAT : ∀ a,a∈A → a∈A++s.tree::B := fun a ha => mem_append_left _ ha
  have hBT : ∀ a,a∈B → a∈A++s.tree::B := fun a ha =>
    mem_append_right _ (mem_cons_of_mem _ ha)
  have hroot : s.tree∈A++s.tree::B := mem_append_right _ mem_cons_self
  obtain ⟨hleft,hhole,htouch⟩ := storeLtreep_spec (some s.tree) h.left hL
  have hsame : ∀ a,a∈A++s.tree::B → (s.storeLtreep (some s.tree)).heap a=s.heap a :=
    fun a ha => htouch.other a fun haL => hLT a haL ha
  rw [hc] at hB
  refine ⟨{ s.storeLtreep (some s.tree) with
    splay := {(s.storeLtreep (some s.tree)).splay with istLtreep := some s.tree},tree := c},
    A,B,?_,rfl,rfl,⟨?_,?_,?_,?_,htouch.ordered h.ordered,fun a ha => ?_,fun a ha => ?_⟩,
    htouch.mono h.subset.1,hsame c (hBT c hB.mem_of_some)⟩
  · simp only [Splaying.linkLeft,storeLtreep_tree,hsame s.tree hroot,hc]
  · refine .snoc hleft hhole ?_
    rw [show lchild (s.storeLtreep (some s.tree)).heap s.tree=(s.heap s.tree).iteLchild by
      rw [lchild,hsame s.tree hroot]]
    exact htouch.treeAt hA fun a ha haL => hLT a haL (hAT a ha)
  · exact htouch.treeAt hB fun a ha haL => hLT a haL (hBT a ha)
  · change OpenTree _ _ (s.storeLtreep (some s.tree)).splay.istRtree
      (s.storeLtreep (some s.tree)).splay.istRtreep R
    rw [storeLtreep_istRtree,storeLtreep_istRtreep]
    exact htouch.openTree_mirror h.right hR hRL
  · rw [←h.whole]
    simp only [append_assoc,cons_append,nil_append]
  · change ((s.storeLtreep (some s.tree)).heap a).iteName<name
    rw [htouch.name]
    rw [mem_append,mem_append,mem_singleton] at ha
    rcases ha with (ha | ha) | rfl
    · exact h.below a ha
    · exact BitVec.lt_trans (hbelow a ha) hlt
    · exact hlt
  · change name<((s.storeLtreep (some s.tree)).heap a).iteName
    rw [htouch.name]
    exact h.above a ha

lemma Cut.linkRight (h : Cut s name W L T R) {c : ℕ} (hc : (s.heap s.tree).iteLchild=some c)
    (hlt : name<(s.heap s.tree).iteName) :
    ∃ s' A B,s.linkRight=some s' ∧ T=A++s.tree::B ∧ s'.tree=c ∧
      Cut s' name W L A (R++B.reverse++[s.tree]) ∧ Touches W s.heap s'.heap ∧
      s'.heap c=s.heap c := by
  obtain ⟨m,B,A,hm,hT,htree,hcut,htouch,hheap⟩ := h.mirror.linkLeft hc (not_lt_not.mpr hlt)
  refine ⟨m.mirror,A.reverse,B.reverse,?_,?_,htree,?_,?_,?_⟩
  · have := s.mirror.linkLeft_mirror
    rw [mirror_mirror,hm] at this
    exact this
  · have := congrArg List.reverse hT
    rw [reverse_reverse,reverse_append,reverse_cons,append_assoc,singleton_append] at this
    exact this
  · apply Cut.of_mirror
    rw [mirror_mirror,reverse_reverse,reverse_reverse]
    exact hcut
  · apply Touches.of_mirror
    change Touches _ _ m.mirror.mirror.heap
    rw [mirror_mirror]
    exact htouch.mono (reverse_subset.mpr (List.Subset.refl W))
  · change mirrorEntry (m.heap c)=_
    rw [hheap]
    exact congrFun (congrArg Splaying.heap s.mirror_mirror) c

lemma Cut.of_touches (h : Cut s name W L T R) {s' : Splaying} (htouch : Touches T s.heap s'.heap)
    (hsplay : s'.splay=s.splay) (hmid : TreeAt s'.heap (some s'.tree) T) : Cut s' name W L T R := by
  obtain ⟨hL,hR,hLT,-,hRT⟩ := h.nodup
  refine ⟨?_,hmid,?_,h.whole,htouch.ordered h.ordered,fun a ha => ?_,fun a ha => ?_⟩
  · rw [hsplay]
    exact htouch.openTree h.left hL hLT
  · rw [hsplay]
    exact htouch.openTree_mirror h.right hR hRT
  · rw [htouch.name]
    exact h.below a ha
  · rw [htouch.name]
    exact h.above a ha

lemma Cut.rotateLeft (h : Cut s name W L T R) {c : ℕ} (hc : (s.heap s.tree).iteRchild=some c) :
    ∃ s',s.rotateLeft=some s' ∧ s'.tree=c ∧ Cut s' name W L T R ∧
      Touches W s.heap s'.heap ∧ (s'.heap c).iteRchild=(s.heap c).iteRchild := by
  have hnodup := h.ordered_mid.nodup
  have hsub := h.subset
  obtain ⟨A,B,rfl,hA,hB,-,-⟩ := h.middle
  rw [hc] at hB
  obtain ⟨B₁,B₂,rfl,hB₁,hB₂⟩ := hB.some_inv
  rw [nodup_append,nodup_cons,nodup_append,nodup_cons] at hnodup
  obtain ⟨-,⟨htree,-,⟨hcB₂,-⟩,hcB₁⟩,hdisj⟩ := hnodup
  have hct : c≠s.tree := fun heq =>
    htree (heq▸mem_append_right _ mem_cons_self)
  have htT : s.tree∈A++s.tree::(B₁++c::B₂) :=
    mem_append_right _ mem_cons_self
  have hcT : c∈A++s.tree::(B₁++c::B₂) :=
    mem_append_right _ (mem_cons_of_mem _ (mem_append_right _ mem_cons_self))
  have htouch : ∀ xs : List ℕ,s.tree∈xs → c∈xs → Touches xs s.heap
      ((s.setRchild s.tree (s.heap c).iteLchild).setLchild c (some s.tree)).heap :=
    fun xs ht hcx => (s.setRchild_touches _ ht).trans (setLchild_touches _ _ hcx)
  have hrchild : rchild ((s.setRchild s.tree (s.heap c).iteLchild).setLchild c (some s.tree)).heap =
      update (rchild s.heap) s.tree (s.heap c).iteLchild := by
    rw [setLchild_rchild,setRchild_rchild]
  have hlchild : lchild ((s.setRchild s.tree (s.heap c).iteLchild).setLchild c (some s.tree)).heap =
      update (lchild s.heap) c (some s.tree) := by
    rw [setLchild_lchild,setRchild_lchild]
  have hkeep : ∀ (p : Option ℕ) (xs : List ℕ),TreeAt s.heap p xs → s.tree∉xs → c∉xs →
      TreeAt ((s.setRchild s.tree (s.heap c).iteLchild).setLchild c (some s.tree)).heap p xs := by
    intro p xs hxs ht hcx
    refine (htouch [s.tree,c] mem_cons_self
      (mem_cons_of_mem _ mem_cons_self)).treeAt hxs fun a ha hmem => ?_
    rw [mem_cons,mem_singleton] at hmem
    rcases hmem with rfl | rfl
    · exact ht ha
    · exact hcx ha
  have htl := (congrFun hlchild s.tree).trans (update_of_ne (Ne.symm hct) _ _)
  have htr := (congrFun hrchild s.tree).trans (update_self ..)
  have hcl := (congrFun hlchild c).trans (update_self ..)
  have hcr := (congrFun hrchild c).trans (update_of_ne hct _ _)
  have hA' := hkeep _ _ hA (fun hmem => hdisj _ hmem _ mem_cons_self rfl) fun hmem =>
    hdisj _ hmem c (mem_cons_of_mem _ (mem_append_right _ mem_cons_self)) rfl
  have hB₁' := hkeep _ _ hB₁ (fun hmem => htree (mem_append_left _ hmem))
    fun hmem => hcB₁ c hmem c mem_cons_self rfl
  have hB₂' := hkeep _ _ hB₂
    (fun hmem => htree (mem_append_right _ (mem_cons_of_mem _ hmem))) hcB₂
  have hcut : Cut { (s.setRchild s.tree (s.heap c).iteLchild).setLchild c (some s.tree) with
      tree := c} name W L (A++s.tree::(B₁++c::B₂)) R := by
    refine h.of_touches (htouch _ htT hcT) rfl ?_
    rw [show A++s.tree::(B₁++c::B₂)=(A++s.tree::B₁)++c::B₂ by
      rw [append_assoc,cons_append]]
    exact .node hcl hcr (.node htl htr hA' hB₁') hB₂'
  refine ⟨_,?_,rfl,hcut,htouch W (hsub.2.1 htT) (hsub.2.1 hcT),?_⟩
  · simp only [Splaying.rotateLeft,hc]
  · change rchild _ c=rchild s.heap c
    rw [hrchild,update_of_ne hct]

end Splaying
end Darwin.Ipc
