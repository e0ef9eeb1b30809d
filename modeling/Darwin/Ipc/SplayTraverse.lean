import Darwin.Ipc.SplayRun

/-! The traversal of a splay tree, which reverses the links on its way down. Entries that are
deleted on the way are freed, and what a freed entry holds is arbitrary. -/
open List Function Option Nat
namespace Darwin.Ipc
open Lib.LinkedTree Splaying

/-- The two pointers of a traversal. The links of the entries from `parent` up are reversed. -/
structure Traversing where
  heap : ℕ → IpcTreeEntry
  splay : IpcSplayTree
  current : ℕ
  parent : Option ℕ

namespace Traversing

def splaying (t : Traversing) : Splaying := ⟨t.heap,t.splay,t.current⟩

def setLchild (t : Traversing) (a : ℕ) (child : Option ℕ) : Traversing :=
  {t with heap := (t.splaying.setLchild a child).heap}

def setRchild (t : Traversing) (a : ℕ) (child : Option ℕ) : Traversing :=
  {t with heap := (t.splaying.setRchild a child).heap}

def iteFree (t : Traversing) (junk : ℕ → IpcTreeEntry) (a : ℕ) : Traversing :=
  {t with heap := update t.heap a (junk a)}

def moveTo (t : Traversing) (current : ℕ) (parent : Option ℕ) : Traversing :=
  {t with current := current,parent := parent}

def traverseEntry (t : Traversing) : Option ℕ × (ℕ → IpcTreeEntry) × IpcSplayTree :=
  (some t.current,t.heap,{t.splay with istLtree := some t.current,istRtree := t.parent})

def traverseLeft : ℕ → Traversing → Option Traversing
  | 0,_ => none
  | fuel+1,t =>
    match (t.heap t.current).iteLchild with
    | none => some t
    | some next =>
      traverseLeft fuel ((t.setLchild t.current t.parent).moveTo next (some t.current))

def traverseBack : ℕ → Traversing → Option (Option ℕ × (ℕ → IpcTreeEntry) × IpcSplayTree)
  | 0,_ => none
  | fuel+1,t =>
    match t.parent with
    | none => some (none,t.heap,{t.splay with istRoot := some t.current})
    | some parent =>
      if (t.heap t.current).iteName<(t.heap parent).iteName then
        some ((t.setLchild parent (some t.current)).moveTo parent
          (t.heap parent).iteLchild).traverseEntry
      else
        traverseBack fuel ((t.setRchild parent (some t.current)).moveTo parent
          (t.heap parent).iteRchild)

def traverseRight (fuel : ℕ) (t : Traversing) :
    Option (Option ℕ × (ℕ → IpcTreeEntry) × IpcSplayTree) :=
  match (t.heap t.current).iteRchild with
  | none => traverseBack fuel t
  | some next =>
    (traverseLeft fuel ((t.setRchild t.current t.parent).moveTo next (some t.current))).map
      traverseEntry

def deleteLeaf (junk : ℕ → IpcTreeEntry) (fuel : ℕ) (t : Traversing) :
    Option (Option ℕ × (ℕ → IpcTreeEntry) × IpcSplayTree) :=
  let freed := t.iteFree junk t.current
  match t.parent with
  | none => some (none,freed.heap,{t.splay with istRoot := none})
  | some parent =>
    if (t.heap t.current).iteName<(t.heap parent).iteName then
      some ((freed.setLchild parent none).moveTo parent (freed.heap parent).iteLchild).traverseEntry
    else
      traverseBack fuel ((freed.setRchild parent none).moveTo parent (freed.heap parent).iteRchild)

/-- The largest of the left children takes the place of `current`. The lookup has pointers of its
own, and leaves those of the splay tree alone. -/
def deleteBoth (junk : ℕ → IpcTreeEntry) (fuel : ℕ) (lchild : ℕ) (t : Traversing) :
    Option (Option ℕ × (ℕ → IpcTreeEntry) × IpcSplayTree) :=
  match ipcSplayPrimLookup machPortLargest fuel ⟨t.heap,t.splay,lchild⟩ with
  | none => none
  | some s =>
    let s := s.ipcSplayPrimAssemble
    let s := s.setRchild s.tree (s.heap t.current).iteRchild
    traverseRight fuel (({t with heap := s.heap}.iteFree junk t.current).moveTo s.tree t.parent)

end Traversing

open Traversing (traverseLeft traverseRight traverseBack traverseEntry)

def ipcSplayTraverseStart (fuel : ℕ) (heap : ℕ → IpcTreeEntry) (splay : IpcSplayTree) :
    Option (Option ℕ × (ℕ → IpcTreeEntry) × IpcSplayTree) :=
  match splay.istRoot with
  | none => some (none,heap,splay)
  | some root =>
    let s := ipcSplayPrimAssemble ⟨heap,splay,root⟩
    (traverseLeft fuel ⟨s.heap,s.splay,root,none⟩).map traverseEntry

def ipcSplayTraverseNext (junk : ℕ → IpcTreeEntry) (delete : Bool) (fuel : ℕ)
    (heap : ℕ → IpcTreeEntry) (splay : IpcSplayTree) :
    Option (Option ℕ × (ℕ → IpcTreeEntry) × IpcSplayTree) :=
  match splay.istLtree with
  | none => none
  | some current =>
    let t : Traversing := ⟨heap,splay,current,splay.istRtree⟩
    if !delete then t.traverseRight fuel
    else
      match (heap current).iteLchild,(heap current).iteRchild with
      | none,none => t.deleteLeaf junk fuel
      | none,some rchild =>
        (traverseLeft fuel ((t.iteFree junk current).moveTo rchild t.parent)).map traverseEntry
      | some lchild,none => traverseBack fuel ((t.iteFree junk current).moveTo lchild t.parent)
      | some lchild,some _ => t.deleteBoth junk fuel lchild

def ipcSplayTraverseFinish (heap : ℕ → IpcTreeEntry) (splay : IpcSplayTree) : IpcSplayTree :=
  match splay.istRoot with
  | none => splay
  | some root => splay.reset (heap root).iteName (some root)

/-- The rest of the loop that `ipc_splay_traverse_start` documents, from a round on and with what
the caller chooses in each round: the entries it visits. -/
def traverseRounds (junk : ℕ → IpcTreeEntry) (delete : ℕ → Bool) (fuel : ℕ) :
    ℕ → ℕ → Option ℕ × (ℕ → IpcTreeEntry) × IpcSplayTree →
      Option (List ℕ × (ℕ → IpcTreeEntry) × IpcSplayTree)
  | 0,_,_ => none
  | _+1,_,(none,heap,splay) => some ([],heap,ipcSplayTraverseFinish heap splay)
  | rounds+1,round,(some entry,heap,splay) => do
    let r ← ipcSplayTraverseNext junk (delete round) fuel heap splay
    let (visited,heap,splay) ← traverseRounds junk delete fuel rounds (round+1) r
    some (entry::visited,heap,splay)

def traversal (junk : ℕ → IpcTreeEntry) (delete : ℕ → Bool) (fuel : ℕ) (heap : ℕ → IpcTreeEntry)
    (splay : IpcSplayTree) : Option (List ℕ × (ℕ → IpcTreeEntry) × IpcSplayTree) := do
  let r ← ipcSplayTraverseStart fuel heap splay
  traverseRounds junk delete fuel fuel 0 r

/-- The entries of the rounds in which the caller does not delete, from a round on. -/
def kept (delete : ℕ → Bool) (round : ℕ) (xs : List ℕ) : List ℕ :=
  ((xs.zipIdx round).filter fun e => !delete e.2).map Prod.fst

/-! ### Where a traversal stands -/

def UpFrom (heap : ℕ → IpcTreeEntry) (parent : Option ℕ) (before after : List ℕ) : Prop :=
  PathTo (lchild heap) (rchild heap) parent before after

lemma Touches.upFrom {heap heap' : ℕ → IpcTreeEntry} {xs before after : List ℕ}
    {parent : Option ℕ} (h : Touches xs heap heap') (hup : UpFrom heap parent before after)
    (hdisj : ∀ a,a∈before++after → a∉xs) : UpFrom heap' parent before after := by
  refine PathTo.congr hup (fun a ha => ?_) fun a ha => ?_
  · rw [lchild,h.other a (hdisj a ha),lchild]
  · rw [rchild,h.other a (hdisj a ha),rchild]

lemma Touches.around {heap heap' : ℕ → IpcTreeEntry} {a : ℕ} {X Y before after : List ℕ}
    (h : Touches [a] heap heap')
    (ha : a∉before++X++(Y++after)) :
    (∀ parent,UpFrom heap parent before after → UpFrom heap' parent before after) ∧
      (∀ root,TreeAt heap root X → TreeAt heap' root X) ∧
      ∀ root,TreeAt heap root Y → TreeAt heap' root Y := by
  have hne : ∀ b,b∈before++X++(Y++after) → b∉[a] := fun b hb hbc =>
    ha (mem_singleton.mp hbc▸hb)
  simp only [mem_append] at hne
  refine ⟨fun parent hup => h.upFrom hup fun b hb => hne b ?_,
    fun root hX => h.treeAt hX fun b hb => hne b ?_,
    fun root hY => h.treeAt hY fun b hb => hne b ?_⟩
  · rw [mem_append] at hb
    tauto
  · simp only [hb,true_or,or_true]
  · simp only [hb,true_or,or_true]

/-- The traversal stands at an entry: those before it and those behind it, in order. -/
inductive StandsAt (heap : ℕ → IpcTreeEntry) (current : ℕ) (parent : Option ℕ) :
    List ℕ → List ℕ → Prop
  | intro {before after xs ys : List ℕ} (hup : UpFrom heap parent before after)
      (hl : TreeAt heap (heap current).iteLchild xs)
      (hr : TreeAt heap (heap current).iteRchild ys) :
      StandsAt heap current parent (before++xs) (ys++after)

/-- What a step returns and leaves: the entries that stay behind and those still to visit. -/
inductive Stopped : Option ℕ × (ℕ → IpcTreeEntry) × IpcSplayTree → List ℕ → List ℕ → Prop
  | finished {heap : ℕ → IpcTreeEntry} {splay : IpcSplayTree} {before : List ℕ}
      (htree : TreeAt heap splay.istRoot before) : Stopped (none,heap,splay) before []
  | entry {heap : ℕ → IpcTreeEntry} {splay : IpcSplayTree} {current : ℕ} {before after : List ℕ}
      (hcurrent : splay.istLtree=some current)
      (hat : StandsAt heap current splay.istRtree before after) :
      Stopped (some current,heap,splay) before (current::after)

namespace Traversing

variable {t : Traversing} {T X Y before after : List ℕ}

lemma traverseEntry_stopped (h : StandsAt t.heap t.current t.parent before after) :
    Stopped t.traverseEntry before (t.current::after) :=
  .entry rfl h

lemma notMem_middle {a : ℕ} {xs ys : List ℕ} (h : (xs++a::ys).Nodup) : a∉xs++ys :=
  (nodup_cons.mp (nodup_middle.mp h)).1

lemma touches_setLchild (t : Traversing) (a : ℕ) (child : Option ℕ) :
    Touches [a] t.heap (t.setLchild a child).heap :=
  t.splaying.setLchild_touches child (mem_singleton_self _)

lemma touches_setRchild (t : Traversing) (a : ℕ) (child : Option ℕ) :
    Touches [a] t.heap (t.setRchild a child).heap :=
  t.splaying.setRchild_touches child (mem_singleton_self _)

lemma lchild_setLchild (t : Traversing) (a : ℕ) (child : Option ℕ) :
    lchild (t.setLchild a child).heap a=child := by
  change lchild (t.splaying.setLchild a child).heap a=_
  rw [setLchild_lchild,update_self]

lemma rchild_setLchild (t : Traversing) (a : ℕ) (child : Option ℕ) :
    rchild (t.setLchild a child).heap a=(t.heap a).iteRchild := by
  change rchild (t.splaying.setLchild a child).heap a=rchild t.heap a
  rw [setLchild_rchild]
  rfl

lemma rchild_setRchild (t : Traversing) (a : ℕ) (child : Option ℕ) :
    rchild (t.setRchild a child).heap a=child := by
  change rchild (t.splaying.setRchild a child).heap a=_
  rw [setRchild_rchild,update_self]

lemma lchild_setRchild (t : Traversing) (a : ℕ) (child : Option ℕ) :
    lchild (t.setRchild a child).heap a=(t.heap a).iteLchild := by
  change lchild (t.splaying.setRchild a child).heap a=lchild t.heap a
  rw [setRchild_lchild]
  rfl

lemma setLchild_upFrom (hup : UpFrom t.heap t.parent before after)
    (hX : TreeAt t.heap (t.heap t.current).iteLchild X)
    (hY : TreeAt t.heap (t.heap t.current).iteRchild Y)
    (ha : t.current∉before++X++(Y++after)) :
    TreeAt (t.setLchild t.current t.parent).heap (t.heap t.current).iteLchild X ∧
      UpFrom (t.setLchild t.current t.parent).heap (some t.current) before
        (t.current::Y++after) ∧
      Touches [t.current] t.heap (t.setLchild t.current t.parent).heap := by
  have htouch := t.touches_setLchild t.current t.parent
  obtain ⟨hup',hX',hY'⟩ := htouch.around ha
  refine ⟨hX' _ hX,.fromLeft ?_ ?_,htouch⟩
  · rw [lchild_setLchild]
    exact hup' _ hup
  · rw [rchild_setLchild]
    exact hY' _ hY

lemma setRchild_upFrom (hup : UpFrom t.heap t.parent before after)
    (hX : TreeAt t.heap (t.heap t.current).iteLchild X)
    (hY : TreeAt t.heap (t.heap t.current).iteRchild Y)
    (ha : t.current∉before++X++(Y++after)) :
    TreeAt (t.setRchild t.current t.parent).heap (t.heap t.current).iteRchild Y ∧
      UpFrom (t.setRchild t.current t.parent).heap (some t.current)
        (before++X++[t.current]) after ∧
      Touches [t.current] t.heap (t.setRchild t.current t.parent).heap := by
  have htouch := t.touches_setRchild t.current t.parent
  obtain ⟨hup',hX',hY'⟩ := htouch.around ha
  refine ⟨hY' _ hY,.fromRight ?_ ?_,htouch⟩
  · rw [rchild_setRchild]
    exact hup' _ hup
  · rw [lchild_setRchild]
    exact hX' _ hX

lemma traverseLeft_spec (n : ℕ) : ∀ {t : Traversing} {T after : List ℕ},
    TreeAt t.heap (some t.current) T → UpFrom t.heap t.parent before after →
    (before++(T++after)).Nodup → T.length≤n →
    ∃ t' rest,(∀ fuel,n<fuel → traverseLeft fuel t=some t') ∧ T=t'.current::rest ∧
      StandsAt t'.heap t'.current t'.parent before (rest++after) ∧ Touches T t.heap t'.heap := by
  induction n with
  | zero =>
    intro t T after htree _ _ hlen
    rw [eq_nil_of_length_eq_zero (le_zero.mp hlen)] at htree
    exact absurd htree.mem_of_some not_mem_nil
  | succ n ih =>
    intro t T after htree hup hnodup hlen
    obtain ⟨X,Y,rfl,hX,hY⟩ := htree.some_inv
    rw [lchild] at hX
    rcases hnext : (t.heap t.current).iteLchild with _ | next
    · rw [hnext] at hX
      rw [hX.none_inv]
      refine ⟨t,Y,fun fuel hfuel => ?_,rfl,?_,Touches.refl _ _⟩
      · obtain ⟨fuel,rfl⟩ := Nat.exists_eq_add_of_lt hfuel
        rw [traverseLeft]
        simp only [hnext]
      · have hat : StandsAt t.heap t.current t.parent (before++[]) (Y++after) :=
          .intro hup (hnext▸InOrder.nil) hY
        rwa [append_nil] at hat
    · have hwhole : before++(X++t.current::Y++after)=before++X++t.current::(Y++after) := by
        simp only [append_assoc,cons_append]
      rw [hwhole] at hnodup
      obtain ⟨hX',hup',htouch⟩ := setLchild_upFrom hup hX hY (notMem_middle hnodup)
      rw [hnext] at hX'
      have hnodup' : (before++(X++(t.current::Y++after))).Nodup := by
        rwa [append_assoc] at hnodup
      obtain ⟨t',rest,hloop,rfl,hat,htouch'⟩ := ih
        (t := (t.setLchild t.current t.parent).moveTo next (some t.current)) hX' hup' hnodup'
        (by rw [length_append,length_cons] at hlen; omega)
      refine ⟨t',rest++t.current::Y,fun fuel hfuel => ?_,rfl,?_,?_⟩
      · obtain ⟨fuel,rfl⟩ := Nat.exists_eq_add_of_lt hfuel
        rw [traverseLeft]
        simp only [hnext]
        exact hloop _ (by omega)
      · rwa [append_assoc]
      · exact (htouch.mono (by simp)).trans (htouch'.mono (subset_append_left _ _))

lemma setLchild_standsAt {parent : ℕ} {child : Option ℕ}
    (hup : UpFrom t.heap (t.heap parent).iteLchild before after) (hT : TreeAt t.heap child T)
    (hY : TreeAt t.heap (t.heap parent).iteRchild Y)
    (ha : parent∉before++T++(Y++after)) :
    StandsAt (t.setLchild parent child).heap parent (t.heap parent).iteLchild (before++T)
        (Y++after) ∧ Touches [parent] t.heap (t.setLchild parent child).heap := by
  have htouch := t.touches_setLchild parent child
  obtain ⟨hup',hT',hY'⟩ := htouch.around ha
  have hl : ((t.setLchild parent child).heap parent).iteLchild=child :=
    t.lchild_setLchild parent child
  have hr : ((t.setLchild parent child).heap parent).iteRchild=(t.heap parent).iteRchild :=
    t.rchild_setLchild parent child
  refine ⟨.intro (hup' _ hup) ?_ ?_,htouch⟩
  · rw [hl]
    exact hT' _ hT
  · rw [hr]
    exact hY' _ hY

lemma setRchild_treeAt_upFrom {parent : ℕ} {child : Option ℕ}
    (hup : UpFrom t.heap (t.heap parent).iteRchild before after) (hT : TreeAt t.heap child T)
    (hX : TreeAt t.heap (t.heap parent).iteLchild X)
    (ha : parent∉before++X++(T++after)) :
    TreeAt (t.setRchild parent child).heap (some parent) (X++parent::T) ∧
      UpFrom (t.setRchild parent child).heap (t.heap parent).iteRchild before after ∧
      Touches [parent] t.heap (t.setRchild parent child).heap := by
  have htouch := t.touches_setRchild parent child
  have hnotMem := ha
  simp only [mem_append,not_or] at hnotMem
  obtain ⟨⟨-,hnotX⟩,hnotT,-⟩ := hnotMem
  exact ⟨setRchild_treeAt t.splaying hX hT hnotX hnotT,(htouch.around ha).1 _ hup,htouch⟩

lemma current_lt_parent {parent : ℕ} (hup : UpFrom t.heap (some parent) before after)
    (hcurrent : t.current∈T) (ho : Ordered t.heap (before++(T++after))) :
    (t.heap t.current).iteName<(t.heap parent).iteName ∧ (∃ ys rest,after=parent::ys++rest ∧
          UpFrom t.heap (t.heap parent).iteLchild before rest ∧
          TreeAt t.heap (t.heap parent).iteRchild ys) ∨
      ¬(t.heap t.current).iteName<(t.heap parent).iteName ∧ ∃ front xs,before=front++xs++[parent] ∧
          UpFrom t.heap (t.heap parent).iteRchild front after ∧
          TreeAt t.heap (t.heap parent).iteLchild xs := by
  rcases hup with _ | ⟨hup,hr⟩ | ⟨hup,hl⟩
  · have hlt := (pairwise_append.mp (pairwise_append.mp ho).2.1).2.2 _ hcurrent parent
      (mem_append_left _ mem_cons_self)
    exact Or.inl ⟨hlt,_,_,rfl,hup,hr⟩
  · have hlt := (pairwise_append.mp ho).2.2 parent
      (mem_append_right _ (mem_singleton_self _)) _ (mem_append_left _ hcurrent)
    exact Or.inr ⟨fun hgt => BitVec.lt_irrefl _ (BitVec.lt_trans hgt hlt),_,_,rfl,hup,hl⟩

lemma traverseBack_spec (n : ℕ) : ∀ {t : Traversing} {T before : List ℕ},
    TreeAt t.heap (some t.current) T → UpFrom t.heap t.parent before after →
    Ordered t.heap (before++(T++after)) → before.length<n →
    ∃ r,(∀ fuel,n≤fuel → traverseBack fuel t=some r) ∧ Stopped r (before++T) after ∧
      Touches (before++after) t.heap r.2.1 := by
  induction n with
  | zero => exact fun _ _ _ hlen => absurd hlen (not_lt_zero _)
  | succ n ih =>
    intro t T before htree hup ho hlen
    rcases hparent : t.parent with _ | parent
    · rw [hparent] at hup
      obtain ⟨rfl,rfl⟩ := hup.none_inv
      refine ⟨(none,t.heap,{t.splay with istRoot := some t.current}),fun fuel hfuel => ?_,
        .finished htree,Touches.refl _ _⟩
      obtain ⟨fuel,rfl⟩ := Nat.exists_eq_add_of_lt hfuel
      rw [traverseBack]
      simp only [hparent]
    · rw [hparent] at hup
      rcases current_lt_parent hup htree.mem_of_some ho with
        ⟨hlt,ys,rest,rfl,hup',hY⟩ | ⟨hge,front,xs,rfl,hup',hX⟩
      · have hwhole : before++(T++(parent::ys++rest))=before++T++parent::(ys++rest) := by
          simp only [append_assoc,cons_append]
        rw [hwhole] at ho
        obtain ⟨hat,htouch⟩ := setLchild_standsAt hup' htree hY (notMem_middle ho.nodup)
        refine ⟨_,fun fuel hfuel => ?_,traverseEntry_stopped
          (t := (t.setLchild parent (some t.current)).moveTo parent (t.heap parent).iteLchild) hat,
          htouch.mono (by simp)⟩
        obtain ⟨fuel,rfl⟩ := Nat.exists_eq_add_of_lt hfuel
        rw [traverseBack]
        simp only [hparent,if_pos hlt]
      · have hwhole : front++xs++[parent]++(T++after)=front++xs++parent::(T++after) := by
          simp only [append_assoc,cons_append,nil_append]
        rw [hwhole] at ho
        obtain ⟨htree',hup'',htouch⟩ :=
          setRchild_treeAt_upFrom hup' htree hX (notMem_middle ho.nodup)
        have ho' : Ordered (t.setRchild parent (some t.current)).heap
            (front++(xs++parent::T++after)) := by
          refine htouch.ordered ?_
          simpa only [append_assoc,cons_append] using ho
        obtain ⟨r,hloop,hstop,htouch'⟩ := ih
          (t := (t.setRchild parent (some t.current)).moveTo parent (t.heap parent).iteRchild)
          htree' hup'' ho' (by simp only [length_append,length_singleton] at hlen; omega)
        refine ⟨r,fun fuel hfuel => ?_,?_,(htouch.mono (by simp)).trans (htouch'.mono ?_)⟩
        · obtain ⟨fuel,rfl⟩ := Nat.exists_eq_add_of_lt hfuel
          rw [traverseBack]
          simp only [hparent,if_neg hge]
          exact hloop _ (by omega)
        · simpa only [append_assoc,singleton_append] using hstop
        · intro b hb
          simp only [mem_append] at hb ⊢
          tauto

lemma traverseRight_spec (h : StandsAt t.heap t.current t.parent before after)
    (ho : Ordered t.heap (before++t.current::after)) :
    ∃ r,(∀ fuel,(before++t.current::after).length<fuel → traverseRight fuel t=some r) ∧
      Stopped r (before++[t.current]) after ∧ Touches (before++t.current::after) t.heap r.2.1 := by
  obtain @⟨before,after,X,Y,hup,hX,hY⟩ := h
  have hcurrent := notMem_middle ho.nodup
  rcases hnext : (t.heap t.current).iteRchild with _ | next
  · rw [hnext] at hY
    rw [hY.none_inv] at ho ⊢
    have htree : TreeAt t.heap (some t.current) (X++[t.current]) := .node rfl hnext hX .nil
    obtain ⟨r,hloop,hstop,htouch⟩ := traverseBack_spec (before.length+1) htree hup
      (by simpa only [append_assoc,singleton_append,nil_append] using ho)
      (Nat.lt_succ_self _)
    refine ⟨r,fun fuel hfuel => ?_,?_,htouch.mono fun b hb => ?_⟩
    · rw [traverseRight]
      simp only [hnext]
      refine hloop fuel ?_
      simp only [length_append,length_cons] at hfuel
      omega
    · simpa only [append_assoc,nil_append] using hstop
    · simp only [mem_append,mem_cons,nil_append] at hb ⊢
      tauto
  · obtain ⟨hY',hup',htouch⟩ := setRchild_upFrom hup hX hY hcurrent
    rw [hnext] at hY'
    have hnodup : (before++X++[t.current]++(Y++after)).Nodup := by
      simpa only [append_assoc,singleton_append] using ho.nodup
    obtain ⟨t',rest,hloop,rfl,hat,htouch'⟩ := traverseLeft_spec Y.length
      (t := (t.setRchild t.current t.parent).moveTo next (some t.current)) hY' hup' hnodup le_rfl
    refine ⟨t'.traverseEntry,fun fuel hfuel => ?_,traverseEntry_stopped hat,
      (htouch.mono fun b hb => ?_).trans (htouch'.mono fun b hb => ?_)⟩
    · rw [traverseRight]
      simp only [hnext]
      rw [hloop fuel (by simp only [length_append,length_cons] at hfuel ⊢; omega)]
      rfl
    · rw [mem_singleton.mp hb]
      exact mem_append_right _ mem_cons_self
    · simp only [mem_append,mem_cons] at hb ⊢
      tauto

/-! ### Deletion -/

/-- An entry is gone: the links of these others may have changed, and nothing else. -/
structure Frees (a : ℕ) (xs : List ℕ) (heap heap' : ℕ → IpcTreeEntry) : Prop where
  name : ∀ b,b≠a → (heap' b).iteName=(heap b).iteName
  other : ∀ b,b∉a::xs → heap' b=heap b

section Frees

variable {heap heap' heap'' : ℕ → IpcTreeEntry} {a : ℕ} {xs ys : List ℕ} {p : Option ℕ}

lemma Frees.trans (h : Frees a xs heap heap') (h' : Touches ys heap' heap'') (hsub : ys⊆xs) :
    Frees a xs heap heap'' :=
  ⟨fun b hb => (h'.name b).trans (h.name b hb),fun b hb =>
    (h'.other b fun hys => hb (mem_cons_of_mem _ (hsub hys))).trans (h.other b hb)⟩

lemma Frees.of_touches (h : Touches ys heap heap') (h' : Frees a xs heap' heap'')
    (hsub : ys⊆a::xs) : Frees a xs heap heap'' :=
  ⟨fun b hb => (h'.name b hb).trans (h.name b),fun b hb =>
    (h'.other b hb).trans (h.other b fun hys => hb (hsub hys))⟩

lemma iteFree_frees (t : Traversing) (junk : ℕ → IpcTreeEntry) (a : ℕ) (xs : List ℕ) :
    Frees a xs t.heap (t.iteFree junk a).heap :=
  ⟨fun _ hb => congrArg IpcTreeEntry.iteName (update_of_ne hb _ _),fun b hb =>
    update_of_ne (fun hba : b=a => hb (hba▸mem_cons_self)) _ _⟩

lemma iteFree_other (t : Traversing) (junk : ℕ → IpcTreeEntry) {a b : ℕ} (h : b≠a) :
    (t.iteFree junk a).heap b=t.heap b :=
  update_of_ne h _ _

lemma iteFree_treeAt (junk : ℕ → IpcTreeEntry) (h : TreeAt t.heap p xs) (ha : a∉xs) :
    TreeAt (t.iteFree junk a).heap p xs :=
  have hsame : ∀ b,b∈xs → (t.iteFree junk a).heap b=t.heap b := fun b hb =>
    t.iteFree_other junk fun hba => ha (hba▸hb)
  InOrder.congr h (fun b hb => by rw [lchild,hsame b hb,lchild])
    fun b hb => by rw [rchild,hsame b hb,rchild]

lemma iteFree_upFrom (junk : ℕ → IpcTreeEntry) (h : UpFrom t.heap p before after)
    (ha : a∉before++after) : UpFrom (t.iteFree junk a).heap p before after :=
  have hsame : ∀ b,b∈before++after → (t.iteFree junk a).heap b=t.heap b := fun b hb =>
    t.iteFree_other junk fun hba => ha (hba▸hb)
  PathTo.congr h (fun b hb => by rw [lchild,hsame b hb,lchild])
    fun b hb => by rw [rchild,hsame b hb,rchild]

lemma Frees.ordered (h : Frees a xs heap heap') (ho : Ordered heap ys) (ha : a∉ys) :
    Ordered heap' ys :=
  ho.imp_of_mem fun hb hc hbc => by
    rwa [h.name _ fun hba => ha (hba▸hb),h.name _ fun hca => ha (hca▸hc)]

end Frees

variable {heap : ℕ → IpcTreeEntry}

lemma ordered_without {a : ℕ} {xs ys : List ℕ}
    (ho : Ordered heap (xs++a::ys)) : Ordered heap (xs++ys) :=
  ho.sublist (List.Sublist.append_left (sublist_cons_self _ _) _)

lemma deleteLeaf_spec (junk : ℕ → IpcTreeEntry) (hup : UpFrom t.heap t.parent before after)
    (ho : Ordered t.heap (before++t.current::after)) :
    ∃ r,(∀ fuel,before.length<fuel → deleteLeaf junk fuel t=some r) ∧
      Stopped r before after ∧ Frees t.current (before++after) t.heap r.2.1 := by
  have hcurrent := notMem_middle ho.nodup
  have hfrees := t.iteFree_frees junk t.current (before++after)
  have ho' := hfrees.ordered (ordered_without ho) hcurrent
  rcases hparent : t.parent with _ | parent
  · rw [hparent] at hup
    obtain ⟨rfl,rfl⟩ := hup.none_inv
    refine ⟨(none,(t.iteFree junk t.current).heap,{t.splay with istRoot := none}),
      fun fuel _ => ?_,.finished InOrder.nil,hfrees⟩
    rw [deleteLeaf]
    simp only [hparent]
  · rw [hparent] at hup
    rcases current_lt_parent hup (mem_singleton_self _) ho with
      ⟨hlt,ys,rest,rfl,hup',hY⟩ | ⟨hge,front,xs,rfl,hup',hX⟩
    · have hsame : (t.iteFree junk t.current).heap parent=t.heap parent :=
        t.iteFree_other junk fun heq => hcurrent (by simp [heq])
      rw [←hsame] at hup' hY
      have hwhole : before++(parent::ys++rest)=before++[]++parent::(ys++rest) := by
        simp only [append_assoc,cons_append,nil_append]
      obtain ⟨hat,htouch⟩ := setLchild_standsAt (t := t.iteFree junk t.current)
        (iteFree_upFrom junk hup' fun hmem => hcurrent (by
          simp only [mem_append,mem_cons] at hmem ⊢
          tauto))
        (InOrder.nil : TreeAt (t.iteFree junk t.current).heap none [])
        (iteFree_treeAt junk hY fun hmem => hcurrent (by simp [hmem]))
        (notMem_middle (hwhole▸ho'.nodup))
      rw [append_nil] at hat
      refine ⟨_,fun fuel _ => ?_,traverseEntry_stopped
        (t := ((t.iteFree junk t.current).setLchild parent none).moveTo parent
          ((t.iteFree junk t.current).heap parent).iteLchild) hat,hfrees.trans htouch ?_⟩
      · rw [deleteLeaf]
        simp only [hparent,if_pos hlt]
      · simp
    · have hsame : (t.iteFree junk t.current).heap parent=t.heap parent :=
        t.iteFree_other junk fun heq => hcurrent (by simp [heq])
      rw [←hsame] at hup' hX
      have hwhole : front++xs++[parent]++after=front++xs++parent::([]++after) := by
        simp only [append_assoc,cons_append,nil_append]
      obtain ⟨htree,hup'',htouch⟩ := setRchild_treeAt_upFrom (t := t.iteFree junk t.current)
        (iteFree_upFrom junk hup' fun hmem => hcurrent (by
          simp only [mem_append,mem_cons] at hmem ⊢
          tauto))
        (InOrder.nil : TreeAt (t.iteFree junk t.current).heap none [])
        (iteFree_treeAt junk hX fun hmem => hcurrent (by simp [hmem]))
        (notMem_middle (hwhole▸ho'.nodup))
      obtain ⟨r,hloop,hstop,htouch'⟩ := traverseBack_spec (front.length+1)
        (t := ((t.iteFree junk t.current).setRchild parent none).moveTo parent
          ((t.iteFree junk t.current).heap parent).iteRchild) htree hup''
        (htouch.ordered (by simpa only [append_assoc,cons_append,nil_append]
          using ho')) (Nat.lt_succ_self _)
      refine ⟨r,fun fuel hfuel => ?_,?_,(hfrees.trans htouch (by simp)).trans htouch' ?_⟩
      · rw [deleteLeaf]
        simp only [hparent,if_neg hge]
        refine hloop fuel ?_
        simp only [length_append,length_singleton] at hfuel
        omega
      · simpa only [append_assoc] using hstop
      · intro b hb
        simp only [mem_append] at hb ⊢
        tauto

lemma deleteOne_right (junk : ℕ → IpcTreeEntry) {right : ℕ}
    (hup : UpFrom t.heap t.parent before after) (hY : TreeAt t.heap (some right) Y)
    (ho : Ordered t.heap (before++t.current::(Y++after))) : ∃ r,(∀ fuel,Y.length<fuel →
        (traverseLeft fuel ((t.iteFree junk t.current).moveTo right t.parent)).map traverseEntry =
          some r) ∧
      Stopped r before (Y++after) ∧ Frees t.current (before++(Y++after)) t.heap r.2.1 := by
  have hcurrent := notMem_middle ho.nodup
  have hfrees := t.iteFree_frees junk t.current (before++(Y++after))
  obtain ⟨t',rest,hloop,rfl,hat,htouch⟩ := traverseLeft_spec Y.length
    (t := (t.iteFree junk t.current).moveTo right t.parent)
    (iteFree_treeAt junk hY fun hmem => hcurrent (by simp [hmem]))
    (iteFree_upFrom junk hup fun hmem => hcurrent (by
      simp only [mem_append] at hmem ⊢
      tauto))
    (ordered_without ho).nodup le_rfl
  refine ⟨t'.traverseEntry,fun fuel hfuel => ?_,traverseEntry_stopped hat,
    hfrees.trans htouch fun b hb => mem_append_right _ (mem_append_left _ hb)⟩
  rw [hloop fuel hfuel]
  rfl

lemma deleteOne_left (junk : ℕ → IpcTreeEntry) {left : ℕ}
    (hup : UpFrom t.heap t.parent before after) (hX : TreeAt t.heap (some left) X)
    (ho : Ordered t.heap (before++X++t.current::after)) : ∃ r,(∀ fuel,before.length<fuel →
        traverseBack fuel ((t.iteFree junk t.current).moveTo left t.parent)=some r) ∧
      Stopped r (before++X) after ∧ Frees t.current (before++X++after) t.heap r.2.1 := by
  have hcurrent := notMem_middle ho.nodup
  have hfrees := t.iteFree_frees junk t.current (before++X++after)
  obtain ⟨r,hloop,hstop,htouch⟩ := traverseBack_spec (before.length+1)
    (t := (t.iteFree junk t.current).moveTo left t.parent)
    (iteFree_treeAt junk hX fun hmem => hcurrent (by simp [hmem]))
    (iteFree_upFrom junk hup fun hmem => hcurrent (by
      simp only [mem_append] at hmem ⊢
      tauto))
    (by
      rw [←append_assoc]
      exact hfrees.ordered (ordered_without ho) hcurrent) (Nat.lt_succ_self _)
  refine ⟨r,fun fuel hfuel => hloop fuel hfuel,hstop,hfrees.trans htouch fun b hb => ?_⟩
  simp only [mem_append] at hb ⊢
  tauto

lemma children_treeAt {a : ℕ} (h : TreeAt heap (some a) (X++a::Y))
    (ha : a∉X++Y) : TreeAt heap (heap a).iteLchild X ∧ TreeAt heap (heap a).iteRchild Y := by
  obtain ⟨xs,ys,heq,hxs,hys⟩ := h.some_inv
  rw [mem_append,not_or] at ha
  obtain ⟨rfl,-,rfl⟩ := (append_cons_inj_of_notMem ha.1 ha.2).mp heq
  exact ⟨hxs,hys⟩

lemma deleteBoth_spec (junk : ℕ → IpcTreeEntry) {left : ℕ}
    (hup : UpFrom t.heap t.parent before after) (hX : TreeAt t.heap (some left) X)
    (hY : TreeAt t.heap (t.heap t.current).iteRchild Y)
    (ho : Ordered t.heap (before++X++t.current::(Y++after))) :
    ∃ r,(∀ fuel,(before++X++(Y++after)).length<fuel → deleteBoth junk fuel left t=some r) ∧
      Stopped r (before++X) (Y++after) ∧ Frees t.current (before++X++(Y++after)) t.heap r.2.1 := by
  have hcurrent := notMem_middle ho.nodup
  have hwithout := ordered_without ho
  obtain ⟨s,Z,hlookup,rfl,htree,hassemble,htouch⟩ :=
    splayLargest (s := ⟨t.heap,t.splay,left⟩) hX
      (pairwise_append.mp (pairwise_append.mp hwithout).1).2.1
  have hwhole : before++(Z++[s.tree])++(Y++after)=before++Z++s.tree::(Y++after) := by
    simp only [append_assoc,cons_append,nil_append]
  have hlast : s.tree∉before++Z++(Y++after) := notMem_middle (hwhole▸hwithout.nodup)
  have hnotX : ∀ b,b∈before++(Y++after) → b∉Z++[s.tree] := fun b hb hbX => by
    have hnodup := hwithout.nodup
    rw [append_assoc,nodup_append,nodup_append] at hnodup
    obtain ⟨-,⟨-,-,hXY⟩,hbefore⟩ := hnodup
    exact (mem_append.mp hb).elim
      (fun hb => hbefore b hb b (mem_append_left _ hbX) rfl) fun hb => hXY b hbX b hb rfl
  -- the left tree with its largest entry as the root, which then gets the right tree
  have hsame : s.ipcSplayPrimAssemble.heap t.current=t.heap t.current :=
    htouch.other _ fun hmem => hcurrent (by
      simp only [mem_append] at hmem ⊢
      tauto)
  have hY' : TreeAt s.ipcSplayPrimAssemble.heap
      (s.ipcSplayPrimAssemble.heap t.current).iteRchild Y := by
    rw [hsame]
    exact htouch.treeAt hY fun b hb => hnotX b (by simp [hb])
  have hset := setRchild_treeAt s.ipcSplayPrimAssemble
    (hassemble.of_last fun hmem => hlast (by simp [hmem])) hY' (fun hmem => hlast (by simp [hmem]))
    fun hmem => hlast (by simp [hmem])
  have htouch' : Touches (Z++[s.tree]) t.heap (s.ipcSplayPrimAssemble.setRchild s.tree
      (s.ipcSplayPrimAssemble.heap t.current).iteRchild).heap :=
    htouch.trans (setRchild_touches _ _ (mem_append_right _ (mem_singleton_self _)))
  generalize hheap : (s.ipcSplayPrimAssemble.setRchild s.tree
    (s.ipcSplayPrimAssemble.heap t.current).iteRchild).heap=heap at hset htouch'
  -- the deleted entry goes
  have hfrees : Frees t.current (before++(Z++[s.tree])++(Y++after)) t.heap
      ({t with heap := heap}.iteFree junk t.current).heap :=
    .of_touches htouch' ({t with heap := heap}.iteFree_frees junk t.current _) fun b hb => by
      simp only [mem_cons,mem_append] at hb ⊢
      tauto
  have hup' : UpFrom ({t with heap := heap}.iteFree junk t.current).heap t.parent before after :=
    iteFree_upFrom (t := {t with heap := heap}) junk
      (htouch'.upFrom hup fun b hb => hnotX b (by
        simp only [mem_append] at hb ⊢
        tauto)) fun hmem => hcurrent (by
          simp only [mem_append] at hmem ⊢
          tauto)
  have hset' : TreeAt ({t with heap := heap}.iteFree junk t.current).heap (some s.tree)
      (Z++s.tree::Y) :=
    iteFree_treeAt (t := {t with heap := heap}) junk hset fun hmem => hcurrent (by
      simp only [mem_append,mem_cons,not_mem_nil,or_false] at hmem ⊢
      tauto)
  obtain ⟨hZ,hY''⟩ := children_treeAt hset' fun hmem => hlast (by
    simp only [mem_append] at hmem ⊢
    tauto)
  have ho' := hfrees.ordered hwithout hcurrent
  rw [hwhole] at ho'
  obtain ⟨r,hloop,hstop,htouch''⟩ := traverseRight_spec
    (t := ({t with heap := heap}.iteFree junk t.current).moveTo s.tree t.parent)
    (.intro hup' hZ hY'') ho'
  refine ⟨r,fun fuel hfuel => ?_,?_,hfrees.trans htouch'' fun b hb => ?_⟩
  · rw [deleteBoth,hlookup fuel (by simp only [length_append] at hfuel ⊢; omega)]
    have htree' : (s.ipcSplayPrimAssemble.setRchild s.tree
        (s.ipcSplayPrimAssemble.heap t.current).iteRchild).tree=s.tree := htree
    simp only [htree,htree',hheap]
    exact hloop fuel (by rwa [hwhole] at hfuel)
  · rw [←append_assoc]
    exact hstop
  · rwa [hwhole]

lemma next_spec (junk : ℕ → IpcTreeEntry) (delete : Bool)
    {splay : IpcSplayTree} {current : ℕ} (hcurrent : splay.istLtree=some current)
    (hat : StandsAt heap current splay.istRtree before after)
    (ho : Ordered heap (before++current::after)) :
    ∃ r,(∀ fuel,(before++current::after).length<fuel →
        ipcSplayTraverseNext junk delete fuel heap splay=some r) ∧
      Stopped r (if delete then before else before++[current]) after ∧
      (∀ a,(delete=true → a≠current) → (r.2.1 a).iteName=(heap a).iteName) ∧
      ∀ a,a∉before++current::after → r.2.1 a=heap a := by
  cases delete with
  | false =>
    obtain ⟨r,hcall,hstop,htouch⟩ :=
      traverseRight_spec (t := ⟨heap,splay,current,splay.istRtree⟩) hat ho
    refine ⟨r,fun fuel hfuel => ?_,hstop,fun a _ => htouch.name a,htouch.other⟩
    rw [ipcSplayTraverseNext]
    simp only [hcurrent]
    exact hcall fuel hfuel
  | true =>
    have hfrees : ∃ r,(∀ fuel,(before++current::after).length<fuel →
        ipcSplayTraverseNext junk true fuel heap splay=some r) ∧
        Stopped r before after ∧ Frees current (before++after) heap r.2.1 := by
      obtain @⟨before,after,X,Y,hup,hX,hY⟩ := hat
      rcases hl : (heap current).iteLchild with _ | left
      · rw [hl] at hX
        rw [hX.none_inv,append_nil] at ho ⊢
        rcases hr : (heap current).iteRchild with _ | right
        · rw [hr] at hY
          rw [hY.none_inv,nil_append] at ho ⊢
          obtain ⟨r,hcall,hstop,hfrees⟩ :=
            deleteLeaf_spec (t := ⟨heap,splay,current,splay.istRtree⟩) junk hup ho
          refine ⟨r,fun fuel hfuel => ?_,hstop,hfrees⟩
          rw [ipcSplayTraverseNext]
          simp only [hcurrent,hl,hr]
          exact hcall fuel (by rw [length_append] at hfuel; omega)
        · rw [hr] at hY
          obtain ⟨r,hcall,hstop,hfrees⟩ :=
            deleteOne_right (t := ⟨heap,splay,current,splay.istRtree⟩) junk hup hY ho
          refine ⟨r,fun fuel hfuel => ?_,hstop,hfrees⟩
          rw [ipcSplayTraverseNext]
          simp only [hcurrent,hl,hr]
          exact hcall fuel (by simp only [length_append,length_cons] at hfuel; omega)
      · rw [hl] at hX
        rcases hr : (heap current).iteRchild with _ | right
        · rw [hr] at hY
          rw [hY.none_inv,nil_append] at ho ⊢
          obtain ⟨r,hcall,hstop,hfrees⟩ :=
            deleteOne_left (t := ⟨heap,splay,current,splay.istRtree⟩) junk hup hX ho
          refine ⟨r,fun fuel hfuel => ?_,hstop,hfrees⟩
          rw [ipcSplayTraverseNext]
          simp only [hcurrent,hl,hr]
          exact hcall fuel (by simp only [length_append,length_cons] at hfuel; omega)
        · obtain ⟨r,hcall,hstop,hfrees⟩ :=
            deleteBoth_spec (t := ⟨heap,splay,current,splay.istRtree⟩) junk hup hX hY ho
          refine ⟨r,fun fuel hfuel => ?_,hstop,hfrees⟩
          rw [ipcSplayTraverseNext]
          simp only [hcurrent,hl,hr]
          exact hcall fuel (by
            simp only [length_append,length_cons] at hfuel ⊢
            omega)
    obtain ⟨r,hcall,hstop,hfrees⟩ := hfrees
    refine ⟨r,hcall,hstop,fun a ha => hfrees.name a (ha rfl),fun a ha =>
      hfrees.other a fun hmem => ha ?_⟩
    simp only [mem_cons,mem_append] at hmem ⊢
    tauto

lemma start_spec {splay : IpcSplayTree} {W : List ℕ}
    (h : AtRest heap splay W) :
    ∃ r,(∀ fuel,W.length<fuel → ipcSplayTraverseStart fuel heap splay=some r) ∧
      Stopped r [] W ∧ Touches W heap r.2.1 := by
  rcases hroot : splay.istRoot with _ | root
  · simp only [AtRest,hroot] at h
    rw [h]
    refine ⟨(none,heap,splay),fun fuel _ => ?_,.finished (hroot▸InOrder.nil),Touches.refl _ _⟩
    simp only [ipcSplayTraverseStart,hroot]
  · simp only [AtRest,hroot] at h
    obtain ⟨L,T,R,hcut,-⟩ := h
    obtain ⟨hassemble,htree,htouch⟩ := hcut.assemble
    rw [htree] at hassemble
    obtain ⟨t',rest,hloop,rfl,hat,htouch'⟩ := traverseLeft_spec W.length
      (t := ⟨(ipcSplayPrimAssemble ⟨heap,splay,root⟩).heap,
        (ipcSplayPrimAssemble ⟨heap,splay,root⟩).splay,root,none⟩) hassemble
      (PathTo.top : UpFrom _ none [] [])
      (by simpa only [append_nil,nil_append] using hcut.ordered.nodup) le_rfl
    rw [append_nil] at hat
    refine ⟨t'.traverseEntry,fun fuel hfuel => ?_,traverseEntry_stopped hat,htouch.trans htouch'⟩
    simp only [ipcSplayTraverseStart,hroot]
    rw [hloop fuel hfuel]
    rfl

end Traversing

/-! ### Whole traversals -/

lemma kept_cons (delete : ℕ → Bool) (round a : ℕ) (xs : List ℕ) : kept delete round (a::xs) =
      if delete round then kept delete (round+1) xs else a::kept delete (round+1) xs := by
  rw [kept,zipIdx_cons]
  cases hd : delete round with
  | false => rw [filter_cons_of_pos (by simp only [hd,Bool.not_false])]; rfl
  | true => rw [filter_cons_of_neg (by simp [hd])]; rfl

lemma kept_sublist (delete : ℕ → Bool) (round : ℕ) (xs : List ℕ) :
    (kept delete round xs).Sublist xs := by
  have h := (filter_sublist (l := xs.zipIdx round) (p := fun e => !delete e.2)).map Prod.fst
  rwa [zipIdx_map_fst] at h

lemma atRest_finish {heap : ℕ → IpcTreeEntry} {splay : IpcSplayTree} {W : List ℕ}
    (htree : TreeAt heap splay.istRoot W) (ho : Ordered heap W) :
    AtRest heap (ipcSplayTraverseFinish heap splay) W := by
  rcases hroot : splay.istRoot with _ | root
  · rw [hroot] at htree
    simp only [ipcSplayTraverseFinish,AtRest,hroot]
    exact htree.none_inv
  · rw [hroot] at htree
    simp only [ipcSplayTraverseFinish,hroot]
    exact AtRest.reset splay htree ho

lemma traverseRounds_spec (junk : ℕ → IpcTreeEntry) (delete : ℕ → Bool) (rest : List ℕ) :
    ∀ {r : Option ℕ × (ℕ → IpcTreeEntry) × IpcSplayTree} {before : List ℕ} (round : ℕ),
    Stopped r before rest → Ordered r.2.1 (before++rest) → ∃ heap' splay',
      (∀ fuel rounds,(before++rest).length<fuel → rest.length<rounds →
        traverseRounds junk delete fuel rounds round r=some (rest,heap',splay')) ∧
      AtRest heap' splay' (before++kept delete round rest) ∧
      (∀ a,a∈before++kept delete round rest → (heap' a).iteName=(r.2.1 a).iteName) ∧
      ∀ a,a∉before++rest → heap' a=r.2.1 a := by
  induction rest with
  | nil =>
    intro r before round hstop ho
    obtain @⟨heap,splay,_,htree⟩ := hstop
    rw [append_nil] at ho
    refine ⟨heap,ipcSplayTraverseFinish heap splay,fun fuel rounds _ hrounds => ?_,?_,
      fun _ _ => rfl,fun _ _ => rfl⟩
    · obtain ⟨rounds,rfl⟩ := Nat.exists_eq_add_of_lt hrounds
      rw [length_nil,Nat.zero_add,traverseRounds]
    · rw [show kept delete round []=[] from rfl,append_nil]
      exact atRest_finish htree ho
  | cons current rest ih =>
    intro r before round hstop ho
    obtain _ | @⟨heap,splay,_,_,_,hcurrent,hat⟩ := hstop
    obtain ⟨r,hcall,hstop,hname,hother⟩ := Traversing.next_spec junk (delete round) hcurrent hat ho
    have hgone := Traversing.notMem_middle ho.nodup
    -- the entries that the next round finds, and their names
    have hmem : ∀ a,a∈(if delete round then before else before++[current])++rest →
        a∈before++current::rest ∧ (delete round=true → a≠current) := fun a ha => by
      split_ifs at ha with hd
      · refine ⟨?_,fun _ heq => hgone (heq▸ha)⟩
        simp only [mem_append,mem_cons] at ha ⊢
        tauto
      · refine ⟨by simpa only [append_assoc,singleton_append] using ha,
          fun hd' => absurd hd' hd⟩
    have hsub : ((if delete round then before else before++[current])++rest).Sublist
        (before++current::rest) := by
      split_ifs
      · exact List.Sublist.append_left (sublist_cons_self _ _) _
      · rw [append_assoc,singleton_append]
    have ho' : Ordered r.2.1
        ((if delete round then before else before++[current])++rest) :=
      (ho.sublist hsub).imp_of_mem fun ha hb hab => by
        rwa [hname _ (hmem _ ha).2,hname _ (hmem _ hb).2]
    have hkept : before++kept delete round (current::rest) =
        (if delete round then before else before++[current])++kept delete (round+1) rest := by
      rw [kept_cons]
      split_ifs
      · rfl
      · rw [append_assoc,singleton_append]
    obtain ⟨heap',splay',hloop,hrest,hname',hother'⟩ := ih (round+1) hstop ho'
    refine ⟨heap',splay',fun fuel rounds hfuel hrounds => ?_,?_,fun a ha => ?_,fun a ha => ?_⟩
    · obtain ⟨rounds,rfl⟩ := Nat.exists_eq_add_of_lt hrounds
      rw [traverseRounds,hcall fuel hfuel]
      have hlen := hsub.length_le
      rw [bind_eq_bind,bind_some,hloop fuel _ (by omega)
        (by rw [length_cons]; omega)]
      rfl
    · rwa [hkept]
    · rw [hkept] at ha
      rw [hname' a ha]
      exact hname a (hmem a ((kept_sublist delete (round+1) rest).append_left _ |>.subset ha)).2
    · rw [hother' a fun hmem' => ha (hmem a hmem').1]
      exact hother a ha

lemma traverse_spec (junk : ℕ → IpcTreeEntry) (delete : ℕ → Bool) {heap : ℕ → IpcTreeEntry}
    {splay : IpcSplayTree} {W : List ℕ} (h : AtRest heap splay W) : ∃ heap' splay',
      Returns (fun fuel => traversal junk delete fuel heap splay) (W,heap',splay') ∧
      AtRest heap' splay' (kept delete 0 W) ∧
      (∀ a,a∈kept delete 0 W → (heap' a).iteName=(heap a).iteName) ∧
      ∀ a,a∉W → heap' a=heap a := by
  obtain ⟨r,hstart,hstop,htouch⟩ := Traversing.start_spec h
  obtain ⟨heap',splay',hloop,hrest,hname,hother⟩ :=
    traverseRounds_spec junk delete W 0 hstop (htouch.ordered h.ordered)
  refine ⟨heap',splay',⟨W.length,fun fuel hfuel => ?_⟩,hrest,fun a ha => ?_,fun a ha => ?_⟩
  · simp only [traversal,hstart fuel hfuel,bind_eq_bind,bind_some]
    exact hloop fuel fuel hfuel hfuel
  · rw [hname a ha,htouch.name]
  · rw [hother a ha,htouch.other a ha]

namespace SplaySpace

/-- Whatever the caller deletes on the way, a traversal visits the entries of the tree once each,
in the order of their names, and leaves a tree of those that were not deleted; the other trees
stay as they were. -/
theorem traverse_visits_in_order {sp : SplaySpace} {m : ℕ → NameMap} {W : ℕ → List ℕ}
    (h : Denotes sp m W) (i : ℕ) (junk : ℕ → IpcTreeEntry) (delete : ℕ → Bool) : ∃ heap splay,
      Returns (fun fuel => traversal junk delete fuel sp.heap (sp.splay i)) (W i,heap,splay) ∧
      Ordered sp.heap (W i) ∧ Denotes (sp.set heap i splay)
        (update m i fun name => (m i name).filter (· ∈ kept delete 0 (W i)))
        (update W i (kept delete 0 (W i))) := by
  obtain ⟨heap,splay,hcall,hrest,hname,hother⟩ := traverse_spec junk delete (h.rest i)
  have hsub := (kept_sublist delete 0 (W i)).subset
  refine ⟨heap,splay,hcall,(h.rest i).ordered,h.set hrest (fun name a => ?_)
    (fun a ha => Or.inl (hsub ha)) fun j hj a ha => hother a (h.apart j i hj a ha)⟩
  rw [filter_eq_some_iff,h.maps,decide_eq_true_iff]
  constructor
  · rintro ⟨⟨-,rfl⟩,hkept⟩
    exact ⟨hkept,hname a hkept⟩
  · rintro ⟨hkept,rfl⟩
    exact ⟨⟨hsub hkept,(hname a hkept).symm⟩,hkept⟩

def threeEntries : SplaySpace where
  heap a := if a=2 then ⟨20,some 1,some 3⟩ else ⟨BitVec.ofNat 32 (10*a),none,none⟩
  splay i := if i=0 then ⟨20,some 2,none,none,none,none⟩ else ⟨0,none,none,none,none,none⟩

def threeEntriesOf (i : ℕ) : List ℕ := if i=0 then [1,2,3] else []

lemma threeEntries_denotes : Denotes threeEntries
      (fun i name => (threeEntriesOf i).find? fun a => (threeEntries.heap a).iteName=name)
      threeEntriesOf := by
  have hnil : TreeAt threeEntries.heap none [] := .nil
  have hleaf : ∀ a : ℕ,a≠2 → TreeAt threeEntries.heap (some a) ([]++a::[]) := fun a ha =>
    .node (by simp [threeEntries,ha]) (by simp [threeEntries,ha]) hnil hnil
  have htree : TreeAt threeEntries.heap (some 2) ([1]++2::[3]) :=
    .node rfl rfl (hleaf 1 (by decide)) (hleaf 3 (by decide))
  have ho : Ordered threeEntries.heap [1,2,3] := by
    unfold Ordered
    decide
  refine ⟨fun i => ?_,fun i name a => ?_,fun i j hij a ha => ?_⟩
  · by_cases hi : i=0
    · rw [hi]
      exact AtRest.reset ⟨20,some 2,none,none,none,none⟩ htree ho
    · rw [threeEntriesOf,if_neg hi]
      exact atRest_none _ (by simp only [threeEntries,if_neg hi])
  · refine ⟨fun hfind => ⟨mem_of_find?_eq_some hfind,by simpa using find?_some hfind⟩,?_⟩
    rintro ⟨ha,rfl⟩
    rw [threeEntriesOf] at ha ⊢
    split_ifs at ha ⊢ with hi
    · simp only [mem_cons,not_mem_nil,or_false] at ha
      obtain rfl | rfl | rfl := ha <;> decide
    · exact absurd ha not_mem_nil
  · rw [threeEntriesOf] at ha ⊢
    split_ifs at ha with hi
    · rw [if_neg fun hj => hij (hi.trans hj.symm)]
      exact not_mem_nil
    · exact absurd ha not_mem_nil

theorem traverse_visits_in_order_three : ∃ heap splay,
      Returns (fun fuel => traversal (fun _ => ⟨0,none,none⟩) (·=1) fuel threeEntries.heap
        (threeEntries.splay 0)) ([1,2,3],heap,splay) ∧ AtRest heap splay [1,3] := by
  obtain ⟨heap,splay,hcall,-,hdenotes⟩ := traverse_visits_in_order threeEntries_denotes 0
    (fun _ => ⟨0,none,none⟩) (·=1)
  have hkept : kept (·=1) 0 (threeEntriesOf 0)=[1,3] := by decide
  rw [hkept] at hdenotes
  refine ⟨heap,splay,hcall,?_⟩
  simpa only [SplaySpace.set,update_self] using hdenotes.rest 0

example : (traversal (fun _ => ⟨0,none,none⟩) (·=1) 4 threeEntries.heap
    (threeEntries.splay 0)).map (fun r => (r.1,r.2.2.istRoot))=some ([1,2,3],some 1) := by
  decide

end SplaySpace
end Darwin.Ipc
