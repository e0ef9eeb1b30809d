import Darwin.Ipc.SplaySplit

/-! Any number of splay trees as finite maps from names to entries, and the runs of their
operations. -/
open List Function Option
namespace Darwin.Ipc
open Splaying

def Returns {α : Type} (call : ℕ → Option α) (result : α) : Prop :=
  ∃ bound,∀ fuel,bound<fuel → call fuel=some result

lemma Returns.unique {α : Type} {call : ℕ → Option α} {x y : α} (hx : Returns call x)
    (hy : Returns call y) : x=y := by
  obtain ⟨n,hn⟩ := hx
  obtain ⟨k,hk⟩ := hy
  have h := (hn (n+k+1) (by omega)).symm.trans (hk (n+k+1) (by omega))
  exact some.inj h

structure SplaySpace where
  heap : ℕ → IpcTreeEntry
  splay : ℕ → IpcSplayTree

namespace SplaySpace

def set (sp : SplaySpace) (heap : ℕ → IpcTreeEntry) (i : ℕ) (splay : IpcSplayTree) : SplaySpace :=
  ⟨heap,update sp.splay i splay⟩

/-! ### The maps -/

abbrev NameMap := MachPortName → Option ℕ

def NameMap.below (M : NameMap) (name : MachPortName) : NameMap :=
  fun n => if n<name then M n else none

def NameMap.from (M : NameMap) (name : MachPortName) : NameMap :=
  fun n => if n<name then none else M n

def NameMap.join (M small : NameMap) : NameMap := fun n => (small n).or (M n)

def NameMap.Above (M small : NameMap) : Prop :=
  ∀ n n',small n≠none → M n'≠none → n<n'

def NameMap.IsLower (M : NameMap) (name lower : MachPortName) : Prop :=
  (M lower≠none ∧ lower≤name ∧ ∀ n,M n≠none → n≤name → n≤lower) ∨
  (∀ n,M n≠none → ¬n≤name) ∧ lower=machPortLargest

def NameMap.IsUpper (M : NameMap) (name upper : MachPortName) : Prop :=
  (M upper≠none ∧ name≤upper ∧ ∀ n,M n≠none → name≤n → upper≤n) ∨
  (∀ n,M n≠none → ¬name≤n) ∧ upper=machPortSmallest

lemma NameMap.join_split (M : NameMap) (name : MachPortName) :
    (M.from name).join (M.below name)=M ∧ (M.from name).Above (M.below name) := by
  refine ⟨?_,fun n n' hn hn' => ?_⟩
  · funext n
    unfold join below NameMap.from
    split_ifs
    · exact or_none
    · exact none_or
  · unfold below at hn
    unfold NameMap.from at hn'
    split_ifs at hn with hlt
    · split_ifs at hn' with hlt'
      · exact absurd rfl hn'
      · rw [BitVec.lt_def] at hlt hlt' ⊢
        omega
    · exact absurd rfl hn

/-- The operations on the trees of a space, with the maps they stand for. The caller gives a new
entry to insert, deletes a name that is there and joins trees whose names are apart. -/
inductive SplayRun : SplaySpace → (ℕ → NameMap) → Prop
  | init {sp : SplaySpace} (hroot : ∀ i,(sp.splay i).istRoot=none) : SplayRun sp fun _ _ => none
  | lookup {sp : SplaySpace} {m : ℕ → NameMap} {r : Option ℕ} {heap : ℕ → IpcTreeEntry}
      {splay : IpcSplayTree} (i : ℕ) (name : MachPortName) (hrun : SplayRun sp m)
      (hcall : Returns (fun fuel => ipcSplayTreeLookup name fuel sp.heap (sp.splay i))
        (r,heap,splay)) : SplayRun (sp.set heap i splay) m
  | insert {sp : SplaySpace} {m : ℕ → NameMap} {heap : ℕ → IpcTreeEntry} {splay : IpcSplayTree}
      (i : ℕ) (name : MachPortName) (entry : ℕ) (hrun : SplayRun sp m) (hnew : m i name=none)
      (hentry : ∀ j n,m j n≠some entry)
      (hcall : Returns (fun fuel => ipcSplayTreeInsert name entry fuel sp.heap (sp.splay i))
        (heap,splay)) : SplayRun (sp.set heap i splay)
        (update m i (update (m i) name (some entry)))
  | delete {sp : SplaySpace} {m : ℕ → NameMap} {heap : ℕ → IpcTreeEntry} {splay : IpcSplayTree}
      (i : ℕ) (name : MachPortName) (hrun : SplayRun sp m) (hmem : m i name≠none)
      (hcall : Returns (fun fuel => ipcSplayTreeDelete name fuel sp.heap (sp.splay i))
        (heap,splay)) : SplayRun (sp.set heap i splay) (update m i (update (m i) name none))
  | split {sp : SplaySpace} {m : ℕ → NameMap} {heap : ℕ → IpcTreeEntry}
      {splay small : IpcSplayTree} (i j : ℕ) (name : MachPortName) (hrun : SplayRun sp m)
      (hne : i≠j)
      (hcall : Returns (fun fuel => ipcSplayTreeSplit name fuel sp.heap (sp.splay i) (sp.splay j))
        (heap,splay,small)) : SplayRun ((sp.set heap i splay).set heap j small)
        (update (update m i ((m i).from name)) j ((m i).below name))
  | join {sp : SplaySpace} {m : ℕ → NameMap} {heap : ℕ → IpcTreeEntry}
      {splay small : IpcSplayTree} (i j : ℕ) (hrun : SplayRun sp m) (hne : i≠j)
      (habove : (m i).Above (m j))
      (hcall : Returns (fun fuel => ipcSplayTreeJoin fuel sp.heap (sp.splay i) (sp.splay j))
        (heap,splay,small)) : SplayRun ((sp.set heap j small).set heap i splay)
        (update (update m j fun _ => none) i ((m i).join (m j)))
  | bounds {sp : SplaySpace} {m : ℕ → NameMap} {r : MachPortName × MachPortName}
      {heap : ℕ → IpcTreeEntry} {splay : IpcSplayTree} (i : ℕ) (name : MachPortName)
      (hrun : SplayRun sp m)
      (hcall : Returns (fun fuel => ipcSplayTreeBounds name fuel sp.heap (sp.splay i))
        (r,heap,splay)) : SplayRun (sp.set heap i splay) m

/-! ### The invariant -/

/-- The entries of every tree, in order, with the names that the maps give them. -/
structure Denotes (sp : SplaySpace) (m : ℕ → NameMap) (W : ℕ → List ℕ) : Prop where
  rest : ∀ i,AtRest sp.heap (sp.splay i) (W i)
  maps : ∀ i n a,m i n=some a ↔ a∈W i ∧ (sp.heap a).iteName=n
  apart : ∀ i j,i≠j → ∀ a,a∈W i → a∉W j

namespace Denotes

variable {sp : SplaySpace} {m : ℕ → NameMap} {W : ℕ → List ℕ}

lemma ne_none (h : Denotes sp m W) {i a : ℕ} (ha : a∈W i) : m i (sp.heap a).iteName≠none := by
  rw [(h.maps i _ a).mpr ⟨ha,rfl⟩]
  exact some_ne_none a

lemma set (h : Denotes sp m W) {i : ℕ} {heap : ℕ → IpcTreeEntry} {splay : IpcSplayTree}
    {X : List ℕ} {M : NameMap} (hrest : AtRest heap splay X)
    (hmaps : ∀ n a,M n=some a ↔ a∈X ∧ (heap a).iteName=n)
    (hsub : ∀ a,a∈X → a∈W i ∨ ∀ j,a∉W j)
    (hsame : ∀ j,j≠i → ∀ a,a∈W j → heap a=sp.heap a) :
    Denotes (sp.set heap i splay) (update m i M) (update W i X) := by
  have hX : ∀ j,j≠i → ∀ a,a∈X → a∉W j := fun j hj a ha haj =>
    (hsub a ha).elim (fun hai => h.apart j i hj a haj hai) fun hnone => hnone j haj
  refine ⟨fun j => ?_,fun j n a => ?_,fun j k hjk a ha => ?_⟩
  · change AtRest heap (update sp.splay i splay j) _
    by_cases hj : j=i
    · rw [hj,update_self,update_self]
      exact hrest
    · rw [update_of_ne hj,update_of_ne hj]
      exact (h.rest j).congr (hsame j hj)
  · change _ ↔ _ ∧ (heap a).iteName=n
    by_cases hj : j=i
    · rw [hj,update_self,update_self]
      exact hmaps n a
    · rw [update_of_ne hj,update_of_ne hj,h.maps]
      exact and_congr_right fun ha => by rw [hsame j hj a ha]
  · by_cases hj : j=i
    · rw [hj,update_self] at ha
      rw [update_of_ne (hj▸Ne.symm hjk)]
      exact hX k (hj▸Ne.symm hjk) a ha
    · rw [update_of_ne hj] at ha
      by_cases hk : k=i
      · rw [hk,update_self]
        exact fun haX => hX j hj a haX ha
      · rw [update_of_ne hk]
        exact h.apart j k hjk a ha

lemma touch (h : Denotes sp m W) {i : ℕ} {heap : ℕ → IpcTreeEntry} {splay : IpcSplayTree}
    (hrest : AtRest heap splay (W i)) (htouch : Touches (W i) sp.heap heap) :
    Denotes (sp.set heap i splay) m W := by
  have hset := h.set (M := m i) hrest (fun n a => by rw [htouch.name]; exact h.maps i n a)
    (fun a ha => Or.inl ha) fun j hj a ha => htouch.other a (h.apart j i hj a ha)
  rwa [update_eq_self,update_eq_self] at hset

lemma lookup (h : Denotes sp m W) (i : ℕ) (name : MachPortName) : ∃ heap splay,
      Returns (fun fuel => ipcSplayTreeLookup name fuel sp.heap (sp.splay i))
        (m i name,heap,splay) ∧ Denotes (sp.set heap i splay) m W := by
  obtain ⟨r,heap,splay,hcall,hrest,htouch,hr⟩ := lookup_spec name (h.rest i)
  have hrm : r=m i name := Option.ext fun a => (hr a).trans (h.maps i name a).symm
  subst hrm
  exact ⟨heap,splay,⟨_,hcall⟩,h.touch hrest htouch⟩

lemma insert (h : Denotes sp m W) (i : ℕ) {name : MachPortName} {entry : ℕ}
    (hnew : m i name=none) (hentry : ∀ j n,m j n≠some entry) : ∃ heap splay,
      Returns (fun fuel => ipcSplayTreeInsert name entry fuel sp.heap (sp.splay i))
        (heap,splay) ∧ ∃ W',Denotes (sp.set heap i splay)
        (update m i (update (m i) name (some entry))) W' := by
  have hfree : ∀ j,entry∉W j := fun j hmem => hentry j _ ((h.maps j _ entry).mpr ⟨hmem,rfl⟩)
  obtain ⟨heap,splay,X,Y,hcall,hW,hrest,hname,hother⟩ := insert_spec (h.rest i) (hfree i)
    fun a ha hname => by
      have := (h.maps i name a).mpr ⟨ha,hname⟩
      rw [hnew] at this
      cases this
  have hne : ∀ a,a∈W i → a≠entry := fun a ha heq => hfree i (heq▸ha)
  have hmem : ∀ a,a∈X++entry::Y ↔ a=entry ∨ a∈W i := fun a => by
    rw [hW,mem_append,mem_cons,mem_append,or_left_comm]
  refine ⟨heap,splay,⟨_,hcall⟩,_,h.set hrest (fun n a => ?_) (fun a ha => ?_) fun j hj a ha => ?_⟩
  · rw [hmem,hname]
    by_cases hn : n=name
    · rw [hn,update_self,some.injEq]
      constructor
      · intro ha
        exact ⟨Or.inl ha.symm,if_pos ha.symm⟩
      · rintro ⟨ha | ha,hna⟩
        · exact ha.symm
        · rw [if_neg (hne a ha)] at hna
          have := (h.maps i name a).mpr ⟨ha,hna⟩
          rw [hnew] at this
          cases this
    · rw [update_of_ne hn,h.maps]
      constructor
      · rintro ⟨ha,hna⟩
        exact ⟨Or.inr ha,by rw [if_neg (hne a ha),hna]⟩
      · rintro ⟨ha,hna⟩
        split_ifs at hna with hae
        · exact absurd hna.symm hn
        · exact ⟨ha.resolve_left hae,hna⟩
  · rcases (hmem a).mp ha with rfl | ha
    · exact Or.inr hfree
    · exact Or.inl ha
  · refine hother a fun hmem => ?_
    rcases mem_cons.mp hmem with rfl | hai
    · exact hfree j ha
    · exact h.apart j i hj a ha hai

lemma delete (h : Denotes sp m W) (i : ℕ) {name : MachPortName} (hmem : m i name≠none) :
    ∃ heap splay,
      Returns (fun fuel => ipcSplayTreeDelete name fuel sp.heap (sp.splay i)) (heap,splay) ∧
      ∃ W',Denotes (sp.set heap i splay)
        (update m i (update (m i) name none)) W' := by
  obtain ⟨a,ha⟩ := ne_none_iff_exists'.mp hmem
  obtain ⟨haW,hname⟩ := (h.maps i name a).mp ha
  obtain ⟨X,Y,heap,splay,hcall,hW,hrest,htouch⟩ := delete_spec (h.rest i) haW hname
  have hnodup := (h.rest i).ordered.nodup
  rw [hW,nodup_append,nodup_cons] at hnodup
  obtain ⟨-,⟨haY,-⟩,hX⟩ := hnodup
  have haX : a∉X := fun hmem => hX a hmem a mem_cons_self rfl
  have hXY : ∀ b,b∈X++Y ↔ b∈W i ∧ b≠a := by
    intro b
    rw [hW,mem_append,mem_append,mem_cons]
    constructor
    · rintro (hb | hb)
      · exact ⟨Or.inl hb,fun heq => haX (heq▸hb)⟩
      · exact ⟨Or.inr (Or.inr hb),fun heq => haY (heq▸hb)⟩
    · rintro ⟨hb | hb | hb,hne⟩
      · exact Or.inl hb
      · exact absurd hb hne
      · exact Or.inr hb
  refine ⟨heap,splay,⟨_,hcall⟩,_,h.set hrest (fun n b => ?_)
    (fun b hb => Or.inl ((hXY b).mp hb).1) fun j hj b hb => htouch.other b (h.apart j i hj b hb)⟩
  rw [hXY,htouch.name]
  by_cases hn : n=name
  · rw [hn,update_self]
    refine ⟨fun hb => absurd hb (some_ne_none b).symm,?_⟩
    rintro ⟨⟨hb,hne⟩,hbn⟩
    have := (h.maps i name b).mpr ⟨hb,hbn⟩
    rw [ha,some.injEq] at this
    exact absurd this.symm hne
  · rw [update_of_ne hn,h.maps]
    constructor
    · rintro ⟨hb,hbn⟩
      refine ⟨⟨hb,fun heq => ?_⟩,hbn⟩
      rw [heq,hname] at hbn
      exact hn hbn.symm
    · rintro ⟨⟨hb,-⟩,hbn⟩
      exact ⟨hb,hbn⟩

lemma split (h : Denotes sp m W) (i j : ℕ) (name : MachPortName) : ∃ heap splay small,
      Returns (fun fuel => ipcSplayTreeSplit name fuel sp.heap (sp.splay i) (sp.splay j))
        (heap,splay,small) ∧ ∃ W',Denotes ((sp.set heap i splay).set heap j small)
        (update (update m i ((m i).from name)) j ((m i).below name)) W' := by
  obtain ⟨X,Y,heap,splay,small,hcall,hW,hY,hX,htouch,hbelow,hfrom⟩ :=
    split_spec name (sp.splay j) (h.rest i)
  have hWi : ∀ a,a∈W i ↔ a∈X ∨ a∈Y := fun a => by rw [hW,mem_append]
  have hnodup := (h.rest i).ordered.nodup
  rw [hW,nodup_append] at hnodup
  have hfirst := h.set (M := (m i).from name) hY (fun n a => ?_)
    (fun a ha => Or.inl ((hWi a).mpr (Or.inr ha)))
    fun k hk a ha => htouch.other a (h.apart k i hk a ha)
  · refine ⟨heap,splay,small,⟨_,hcall⟩,_,hfirst.set hX (fun n a => ?_) (fun a ha => ?_)
      fun _ _ _ _ => rfl⟩
    · rw [htouch.name]
      unfold NameMap.below
      constructor
      · intro hn
        split_ifs at hn with hlt
        obtain ⟨ha,hna⟩ := (h.maps i n a).mp hn
        rcases (hWi a).mp ha with ha | ha
        · exact ⟨ha,hna⟩
        · exact absurd (hna▸hlt) (hfrom a ha)
      · rintro ⟨ha,rfl⟩
        rw [if_pos (hbelow a ha)]
        exact (h.maps i _ a).mpr ⟨(hWi a).mpr (Or.inl ha),rfl⟩
    · refine Or.inr fun k hk => ?_
      by_cases hki : k=i
      · rw [hki,update_self] at hk
        exact hnodup.2.2 a ha a hk rfl
      · rw [update_of_ne hki] at hk
        exact h.apart k i hki a hk ((hWi a).mpr (Or.inl ha))
  · rw [htouch.name]
    unfold NameMap.from
    constructor
    · intro hn
      split_ifs at hn with hlt
      obtain ⟨ha,hna⟩ := (h.maps i n a).mp hn
      rcases (hWi a).mp ha with ha | ha
      · exact absurd (hna▸hbelow a ha) hlt
      · exact ⟨ha,hna⟩
    · rintro ⟨ha,rfl⟩
      rw [if_neg (hfrom a ha)]
      exact (h.maps i _ a).mpr ⟨(hWi a).mpr (Or.inr ha),rfl⟩

lemma join (h : Denotes sp m W) {i j : ℕ} (hne : i≠j) (habove : (m i).Above (m j)) :
    ∃ heap splay small,
      Returns (fun fuel => ipcSplayTreeJoin fuel sp.heap (sp.splay i) (sp.splay j))
        (heap,splay,small) ∧ ∃ W',Denotes ((sp.set heap j small).set heap i splay)
        (update (update m j fun _ => none) i ((m i).join (m j))) W' := by
  have hlt : ∀ a,a∈W j → ∀ b,b∈W i → (sp.heap a).iteName<(sp.heap b).iteName :=
    fun a ha b hb => habove _ _ (h.ne_none ha) (h.ne_none hb)
  obtain ⟨heap,splay,small,hcall,hrest,hsmall,htouch⟩ := join_spec (h.rest i) (h.rest j) hlt
  -- first the small tree loses its entries, then the other one takes them
  have hfirst : Denotes (sp.set sp.heap j small) (update m j fun _ => none)
      (update W j []) := by
    refine h.set (hsmall.congr fun _ ha => absurd ha not_mem_nil) (fun n a => ?_)
      (fun a ha => absurd ha not_mem_nil) fun _ _ _ _ => rfl
    exact ⟨fun hn => absurd hn (some_ne_none a).symm,fun ha => absurd ha.1 not_mem_nil⟩
  have hdisj : ∀ n a b,m j n=some a → m i n=some b → False := fun n a b ha hb =>
    BitVec.lt_irrefl n (habove n n (by rw [ha]; exact some_ne_none a)
      (by rw [hb]; exact some_ne_none b))
  refine ⟨heap,splay,small,⟨_,hcall⟩,_,hfirst.set hrest (fun n a => ?_) (fun a ha => ?_)
    fun k hk a ha => ?_⟩
  · rw [htouch.name,mem_append,or_and_right,←h.maps,←h.maps]
    unfold NameMap.join
    rcases hj : m j n with _ | b
    · rw [none_or]
      exact (or_iff_right (some_ne_none a).symm).symm
    · rw [some_or]
      exact (or_iff_left fun hi => hdisj n b a hj hi).symm
  · rcases mem_append.mp ha with ha | ha
    · refine Or.inr fun k hk => ?_
      by_cases hkj : k=j
      · rw [hkj,update_self] at hk
        exact absurd hk not_mem_nil
      · rw [update_of_ne hkj] at hk
        exact h.apart k j hkj a hk ha
    · rw [update_of_ne hne]
      exact Or.inl ha
  · by_cases hkj : k=j
    · rw [hkj,update_self] at ha
      exact absurd ha not_mem_nil
    · rw [update_of_ne hkj] at ha
      refine htouch.other a fun hmem => ?_
      exact (mem_append.mp hmem).elim (fun hj => h.apart k j hkj a ha hj)
        fun hi => h.apart k i hk a ha hi

lemma bounds (h : Denotes sp m W) (i : ℕ) (name : MachPortName) : ∃ lower upper heap splay,
      Returns (fun fuel => ipcSplayTreeBounds name fuel sp.heap (sp.splay i))
        ((lower,upper),heap,splay) ∧ (m i).IsLower name lower ∧ (m i).IsUpper name upper ∧
      Denotes (sp.set heap i splay) m W := by
  obtain ⟨lower,upper,heap,splay,hcall,hrest,htouch,hlower,hupper⟩ :=
    bounds_spec name (h.rest i)
  have hmem : ∀ n,m i n≠none → ∃ a,a∈W i ∧ (sp.heap a).iteName=n := fun n hn => by
    obtain ⟨a,ha⟩ := ne_none_iff_exists'.mp hn
    exact ⟨a,(h.maps i n a).mp ha⟩
  refine ⟨lower,upper,heap,splay,⟨_,hcall⟩,?_,?_,h.touch hrest htouch⟩
  · rcases hlower with ⟨a,ha,rfl,hle,hmax⟩ | ⟨hnone,hlargest⟩
    · refine Or.inl ⟨h.ne_none ha,hle,fun n hn hnn => ?_⟩
      obtain ⟨b,hb,rfl⟩ := hmem n hn
      exact hmax b hb hnn
    · refine Or.inr ⟨fun n hn hnn => ?_,hlargest⟩
      obtain ⟨b,hb,rfl⟩ := hmem n hn
      exact hnone b hb hnn
  · rcases hupper with ⟨a,ha,rfl,hle,hmin⟩ | ⟨hnone,hsmallest⟩
    · refine Or.inl ⟨h.ne_none ha,hle,fun n hn hnn => ?_⟩
      obtain ⟨b,hb,rfl⟩ := hmem n hn
      exact hmin b hb hnn
    · refine Or.inr ⟨fun n hn hnn => ?_,hsmallest⟩
      obtain ⟨b,hb,rfl⟩ := hmem n hn
      exact hnone b hb hnn

end Denotes

lemma SplayRun.denotes {sp : SplaySpace} {m : ℕ → NameMap} (h : SplayRun sp m) :
    ∃ W,Denotes sp m W := by
  induction h with
  | init hroot =>
    refine ⟨fun _ => [],fun i => atRest_none _ (hroot i),fun i n a => ?_,
      fun _ _ _ _ ha => absurd ha not_mem_nil⟩
    exact ⟨fun hn => absurd hn (some_ne_none a).symm,fun ha => absurd ha.1 not_mem_nil⟩
  | lookup i name _ hcall ih =>
    obtain ⟨W,hW⟩ := ih
    obtain ⟨heap,splay,hcall',hW'⟩ := hW.lookup i name
    cases hcall.unique hcall'
    exact ⟨W,hW'⟩
  | insert i name entry _ hnew hentry hcall ih =>
    obtain ⟨W,hW⟩ := ih
    obtain ⟨heap,splay,hcall',hW'⟩ := hW.insert i hnew hentry
    cases hcall.unique hcall'
    exact hW'
  | delete i name _ hmem hcall ih =>
    obtain ⟨W,hW⟩ := ih
    obtain ⟨heap,splay,hcall',hW'⟩ := hW.delete i hmem
    cases hcall.unique hcall'
    exact hW'
  | split i j name _ hne hcall ih =>
    obtain ⟨W,hW⟩ := ih
    obtain ⟨heap,splay,small,hcall',hW'⟩ := hW.split i j name
    cases hcall.unique hcall'
    exact hW'
  | join i j _ hne habove hcall ih =>
    obtain ⟨W,hW⟩ := ih
    obtain ⟨heap,splay,small,hcall',hW'⟩ := hW.join hne habove
    cases hcall.unique hcall'
    exact hW'
  | bounds i name _ hcall ih =>
    obtain ⟨W,hW⟩ := ih
    obtain ⟨lower,upper,heap,splay,hcall',-,-,hW'⟩ := hW.bounds i name
    cases hcall.unique hcall'
    exact ⟨W,hW'⟩

/-- In every run the trees are search trees of their maps, every call returns, and what it
returns is what the maps say. -/
theorem splayRun_correct {sp : SplaySpace} {m : ℕ → NameMap} (h : SplayRun sp m) :
    (∃ W,Denotes sp m W) ∧ (∀ i name,∃ heap splay,Returns
      (fun fuel => ipcSplayTreeLookup name fuel sp.heap (sp.splay i)) (m i name,heap,splay)) ∧
    (∀ i name entry,m i name=none → (∀ j n,m j n≠some entry) → ∃ r,Returns
      (fun fuel => ipcSplayTreeInsert name entry fuel sp.heap (sp.splay i)) r) ∧
    (∀ i name,m i name≠none → ∃ r,Returns
      (fun fuel => ipcSplayTreeDelete name fuel sp.heap (sp.splay i)) r) ∧ (∀ i j name,(∃ r,Returns
      (fun fuel => ipcSplayTreeSplit name fuel sp.heap (sp.splay i) (sp.splay j)) r) ∧
      ((m i).from name).join ((m i).below name)=m i) ∧ (∀ i j,i≠j → (m i).Above (m j) → ∃ r,Returns
      (fun fuel => ipcSplayTreeJoin fuel sp.heap (sp.splay i) (sp.splay j)) r) ∧
    ∀ i name,∃ lower upper heap splay,Returns
      (fun fuel => ipcSplayTreeBounds name fuel sp.heap (sp.splay i)) ((lower,upper),heap,splay) ∧
      (m i).IsLower name lower ∧ (m i).IsUpper name upper := by
  obtain ⟨W,hW⟩ := h.denotes
  refine ⟨⟨W,hW⟩,fun i name => ?_,fun i name entry hnew hentry => ?_,fun i name hmem => ?_,
    fun i j name => ⟨?_,((m i).join_split name).1⟩,fun i j hne habove => ?_,fun i name => ?_⟩
  · obtain ⟨heap,splay,hcall,-⟩ := hW.lookup i name
    exact ⟨heap,splay,hcall⟩
  · obtain ⟨heap,splay,hcall,-⟩ := hW.insert i hnew hentry
    exact ⟨_,hcall⟩
  · obtain ⟨heap,splay,hcall,-⟩ := hW.delete i hmem
    exact ⟨_,hcall⟩
  · obtain ⟨heap,splay,small,hcall,-⟩ := hW.split i j name
    exact ⟨_,hcall⟩
  · obtain ⟨heap,splay,small,hcall,-⟩ := hW.join hne habove
    exact ⟨_,hcall⟩
  · obtain ⟨lower,upper,heap,splay,hcall,hlower,hupper,-⟩ := hW.bounds i name
    exact ⟨lower,upper,heap,splay,hcall,hlower,hupper⟩

/-- Two names are inserted one after the other, then the first one is looked up. -/
theorem splayRun_correct_twoNames :
    ∃ (sp : SplaySpace) (heap : ℕ → IpcTreeEntry) (splay : IpcSplayTree),Returns
      (fun fuel => ipcSplayTreeLookup 5 fuel sp.heap (sp.splay 0)) (some 1,heap,splay) := by
  have hstart : SplayRun ⟨fun _ => ⟨0,none,none⟩,fun _ => ⟨0,none,none,none,none,none⟩⟩
      fun _ _ => none := .init fun _ => rfl
  obtain ⟨⟨heap₁,splay₁⟩,hcall₁⟩ := (splayRun_correct hstart).2.2.1 0 5 1 rfl
    fun _ _ h => absurd h (some_ne_none 1).symm
  have hfirst := SplayRun.insert 0 5 1 hstart rfl
    (fun _ _ h => absurd h (some_ne_none 1).symm) hcall₁
  have hother : ∀ (j : ℕ) (n : MachPortName),update (fun _ _ => none) 0
      (update (fun _ => none) 5 (some 1)) j n≠some 2 := by
    intro j n
    by_cases hj : j=0
    · rw [hj,update_self]
      by_cases hn : n=5
      · rw [hn,update_self]
        decide
      · rw [update_of_ne hn]
        exact (some_ne_none 2).symm
    · rw [update_of_ne hj]
      exact (some_ne_none 2).symm
  obtain ⟨⟨heap₂,splay₂⟩,hcall₂⟩ := (splayRun_correct hfirst).2.2.1 0 3 2 (by decide) hother
  have hsecond := SplayRun.insert 0 3 2 hfirst (by decide) hother hcall₂
  exact ⟨_,(splayRun_correct hsecond).2.1 0 5⟩

end SplaySpace
end Darwin.Ipc
