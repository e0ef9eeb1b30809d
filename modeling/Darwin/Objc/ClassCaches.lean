import Darwin.Objc.MethodCache

/-! Classes, their method lists and their caches, from `runtime/objc-class.m`: how a method is looked
up and put into a cache, and which caches are flushed when the method lists change. Messages are not
logged, and a second thread does not hold the lock for updates of caches. -/
open List Function Option
namespace Darwin.Objc

variable {ι : Type} [DecidableEq ι]

section Data

/-- Classes and their metaclasses. A metaclass inherits from the metaclass of the superclass, that of
a root class from the root class itself. -/
structure Hierarchy (ι : Type) where
  super_class : ι → Option ι
  isa : ι → ι
  isMeta : ι → Bool
  /-- what `objc_getClassList` gives -/
  classes : List ι
  rank : ι → ℕ
  rank_lt : ∀ c d,super_class c=some d → rank d<rank c
  mem_classes : ∀ c,c∈classes ↔ isMeta c=false
  isMeta_isa : ∀ c,isMeta c=false → isMeta (isa c)=true
  isa_surjective : ∀ m,isMeta m=true → ∃ c,isMeta c=false ∧ isa c=m
  isa_injective : ∀ c d,isMeta c=false → isMeta d=false → isa c=isa d → c=d
  isMeta_super : ∀ c d,isMeta c=false → super_class c=some d → isMeta d=false
  super_isa : ∀ c,isMeta c=false → super_class (isa c)=some (((super_class c).map isa).getD c)

/-- `objc_method_list`, at an address. -/
structure MethodList where
  address : ℕ
  method_list : List (SEL × ℕ)
  deriving DecidableEq

/-- What changes in the classes. A class without a cache of its own has the `emptyCache`. -/
structure Runtime (ι : Type) where
  methodLists : ι → List MethodList
  cache : ι → Option Cache
  /-- `CLS_GROW_CACHE` -/
  grow : ι → Bool
  /-- `CLS_INITIALIZED`, of metaclasses -/
  initialized : ι → Bool
  /-- how many forwarding entries were allocated, and which were freed -/
  allocated : ℕ
  freed : List ℕ

variable (h : Hierarchy ι) (s : Runtime ι)

def Hierarchy.chainFrom : ℕ → ι → List ι
  | 0,_ => []
  | n+1,c => c::((h.super_class c).map (Hierarchy.chainFrom n)).getD []

def Hierarchy.chain (c : ι) : List ι := h.chainFrom (h.rank c+1) c

def GETMETA (c : ι) : ι := if h.isMeta c then c else h.isa c

def ISINITIALIZED (c : ι) : Bool := s.initialized (GETMETA h c)

def Runtime.cacheOf (c : ι) : Cache := (s.cache c).getD emptyCache

def Runtime.setCache (c : ι) (cache : Cache) : Runtime ι :=
  {s with cache := update s.cache c (some cache)}

end Data

section Methods

variable (h : Hierarchy ι) (s : Runtime ι)

def findMethodInList (mlist : MethodList) (sel : SEL) : Option Method :=
  (mlist.method_list.find? fun m => m.1=sel).map fun m => .method m.1 m.2

def findMethodInClass (cls : ι) (sel : SEL) : Option Method :=
  (s.methodLists cls).findSome? fun mlist => findMethodInList mlist sel

def getMethod (cls : ι) (sel : SEL) : Option Method :=
  (h.chain cls).findSome? fun c => findMethodInClass s c sel

end Methods

section Caches

variable (s : Runtime ι)

/-- A class gets an empty table; the forwarding entries of the old one are freed. -/
def Runtime.clearCache (cls : ι) (mask : ℕ) : Runtime ι :=
  { s with
    cache := update s.cache cls (some ⟨mask,0,fun _ => none⟩)
    freed := s.freed++forwards (s.cacheOf cls)}

def cacheFlush (cls : ι) : Runtime ι :=
  match s.cache cls with
  | none => s
  | some cache => s.clearCache cls cache.mask

def INIT_CACHE_SIZE : ℕ := 4

def cacheCreate (cls : ι) : Runtime ι :=
  {s.setCache cls (newCache INIT_CACHE_SIZE) with grow := update s.grow cls false}

/-- `_cache_expand`; `_class_slow_grow` and `_class_uncache` are 1, so every other time the table is
used again, and no entry is taken over into a larger one. -/
def cacheExpand (cls : ι) : Runtime ι :=
  match s.cache cls with
  | none => cacheCreate s cls
  | some cache =>
    if s.grow cls then
      {s.clearCache cls ((cache.mask+1)*2-1) with grow := update s.grow cls false}
    else {s.clearCache cls cache.mask with grow := update s.grow cls true}

def cacheFill (cls : ι) (smt : Method) (sel : SEL) : Option (Runtime ι) :=
  (lookInCache (s.cacheOf cls) sel).bind fun placed =>
    if placed.isSome then some s
    else
      let newOccupied := (s.cacheOf cls).occupied+1
      let s := if newOccupied*4≤((s.cacheOf cls).mask+1)*3 then s else cacheExpand s cls
      let cache := s.cacheOf cls
      (slideEntries cache.mask (cache.mask+1) cache.buckets (sel&&&cache.mask) smt).map fun b =>
        s.setCache cls ⟨cache.mask,cache.occupied+1,b⟩

end Caches

section Lookup

variable (h : Hierarchy ι) (s : Runtime ι)

def fillForward (cls : ι) (sel : SEL) : Option (Runtime ι) :=
  cacheFill {s with allocated := s.allocated+1} cls (.forward sel s.allocated) sel

/-- The outer loop of `_class_lookupMethodAndLoadCache`, from a class of the chain on. -/
def searchClasses (cls : ι) (sel : SEL) : List ι → Option (Runtime ι × Option IMP)
  | [] => some (s,none)
  | curClass::rest =>
    (lookInCache (s.cacheOf curClass) sel).bind fun
      | some entry =>
        if curClass≠cls then
          (cacheFill s cls entry sel).map fun s => (s,some entry.method_imp)
        else some (s,some entry.method_imp)
      | none =>
        match findMethodInClass s curClass sel with
        | some smt => (cacheFill s cls smt sel).map fun s => (s,some smt.method_imp)
        | none => searchClasses cls sel rest

def lookupMethodAndLoadCache (cls : ι) (sel : SEL) : Option (Runtime ι × IMP) :=
  (searchClasses s cls sel (h.chain cls)).bind fun
    | (s,some methodPC) => some (s,methodPC)
    | (s,none) => (fillForward s cls sel).map fun s => (s,.msgForward)

/-- `class_lookupMethod`, where the class is initialized, or its cache has the selector. -/
def class_lookupMethod (cls : ι) (sel : SEL) : Option (Runtime ι × IMP) :=
  (lookInCache (s.cacheOf cls) sel).bind fun
    | some entry => some (s,entry.method_imp)
    | none => if ISINITIALIZED h s cls then lookupMethodAndLoadCache h s cls sel else none

def class_respondsToMethod (cls : ι) (sel : SEL) : Option (Runtime ι × Bool) :=
  if sel=0 then some (s,false)
  else
    (lookInCache (s.cacheOf cls) sel).bind fun
      | some entry => some (s,entry.method_imp≠.msgForward)
      | none =>
        match getMethod h s cls sel with
        | some meth => (cacheFill s cls meth sel).map fun s => (s,true)
        | none => (fillForward s cls sel).map fun s => (s,false)

end Lookup

section Changes

variable (h : Hierarchy ι) (s : Runtime ι)

/-- The inner loop of `flush_caches` for a class, up its chain: the classes whose caches it flushes. -/
def flushTargets (cls : ι) (flush_meta : Bool) (clsObject : ι) : List ι → List ι
  | [] => []
  | clsIter::rest =>
    if clsIter=cls then clsObject::if flush_meta then [h.isa clsObject] else []
    else if h.isa clsIter=cls then [h.isa clsObject]
    else if ISINITIALIZED h s clsIter then flushTargets cls flush_meta clsObject rest
    else []

/-- The caches that one turn of an outer loop of `flush_caches` flushes: those of every class when the
methods of a root class change. -/
def turnTargets (cls : ι) (flush_meta : Bool) (clsObject : ι) : List ι :=
  if h.super_class cls=none then clsObject::if flush_meta then [h.isa clsObject] else []
  else flushTargets h s cls flush_meta clsObject (h.chain clsObject)

def flushClass (cls : ι) (flush_meta : Bool) (s : Runtime ι) (clsObject : ι) : Runtime ι :=
  (turnTargets h s cls flush_meta clsObject).foldl cacheFlush s

def flushCaches (cls : ι) (flush_meta : Bool) : Runtime ι :=
  h.classes.foldl (flushClass h cls flush_meta) s

def insertMethods (cls : ι) (meths : MethodList) : Runtime ι :=
  {s with methodLists := update s.methodLists cls (meths::s.methodLists cls)}

def removeMethods (cls : ι) (meths : MethodList) : Runtime ι :=
  {s with methodLists := update s.methodLists cls ((s.methodLists cls).erase meths)}

def class_addMethods (cls : ι) (meths : MethodList) : Runtime ι :=
  flushCaches h (insertMethods s cls meths) cls false

def class_removeMethods (cls : ι) (meths : MethodList) : Runtime ι :=
  flushCaches h (removeMethods s cls meths) cls false

/-- What `class_initialize` marks, once the superclass is initialized; the calls that the method
`initialize` makes come next. -/
def markInitialized (cls : ι) : Option (Runtime ι) :=
  if h.isMeta cls=false ∧ ∀ d∈h.super_class cls,ISINITIALIZED h s d=true then
    some {s with initialized := update s.initialized (h.isa cls) true}
  else none

end Changes

end Darwin.Objc

/-! The memory of the caches: tables are in order, and no forwarding entry is in two places, or freed
while a cache holds it. -/
namespace Darwin.Objc

variable {ι : Type} {s s' : Runtime ι} {c cls : ι} {e smt : Method} {sel : SEL}

def Held (s : Runtime ι) (c : ι) (e : Method) : Prop := Cached (s.cacheOf c) e

structure Memory (s : Runtime ι) : Prop where
  table : ∀ c,CacheOk (s.cacheOf c)
  size : ∀ c cache,s.cache c=some cache → 2≤cache.mask+1
  unique : ∀ c d n m b,Held s c (.forward n b) → Held s d (.forward m b) → c=d ∧ n=m
  block : ∀ c n b,Held s c (.forward n b) → b<s.allocated ∧ b∉s.freed
  freed_lt : ∀ b∈s.freed,b<s.allocated
  nodup : s.freed.Nodup

/-- Only caches change, and what is freed with them. -/
structure Kept (s s' : Runtime ι) : Prop where
  methodLists : s'.methodLists=s.methodLists
  initialized : s'.initialized=s.initialized
  allocated : s'.allocated=s.allocated

/-- Besides, the caches lose the entries of one class. -/
structure Emptied (s s' : Runtime ι) (c : ι) : Prop extends Kept s s' where
  memory : Memory s'
  held : ∀ d e,Held s' d e ↔ Held s d e ∧ d≠c
  freed : ∀ b∈s'.freed,b∈s.freed ∨ ∃ n,Held s c (.forward n b)

lemma Kept.refl (s : Runtime ι) : Kept s s := ⟨rfl,rfl,rfl⟩

lemma Kept.trans {s'' : Runtime ι} (h : Kept s s') (h' : Kept s' s'') : Kept s s'' :=
  ⟨h'.methodLists.trans h.methodLists,h'.initialized.trans h.initialized,
    h'.allocated.trans h.allocated⟩

section Flush

lemma not_cached_none {mask occupied : ℕ} : ¬Cached ⟨mask,occupied,fun _ => none⟩ e := fun h => by
  obtain ⟨p,-,hp⟩ := h
  cases hp

lemma mem_forwards {cache : Cache} {b : ℕ} :
    b∈forwards cache ↔ ∃ n,Cached cache (.forward n b) := by
  rw [forwards,mem_filterMap]
  constructor
  · rintro ⟨p,hp,hb⟩
    obtain ⟨e,he,hblock⟩ := bind_eq_some_iff.mp hb
    cases e with
    | method n pc => cases hblock
    | forward n b' =>
      cases hblock
      exact ⟨n,p,Nat.le_of_lt_succ (mem_range.mp hp),he⟩
  · rintro ⟨n,p,hp,he⟩
    exact ⟨p,mem_range.mpr (Nat.lt_succ_of_le hp),by rw [he]; rfl⟩

lemma Memory.nodup_forwards (h : Memory s) (c : ι) : (forwards (s.cacheOf c)).Nodup := by
  have hblock : ∀ p,∀ b∈((s.cacheOf c).buckets p).bind Method.block,
      ∃ n,(s.cacheOf c).buckets p=some (.forward n b) := by
    intro p b hb
    obtain ⟨e,he,hblock⟩ := bind_eq_some_iff.mp hb
    cases e with
    | method n pc => cases hblock
    | forward n b' =>
      cases hblock
      exact ⟨n,he⟩
  rw [forwards,nodup_iff_pairwise_ne,pairwise_filterMap]
  refine nodup_range.imp_of_mem fun {p q} hp hq hne b hb b' hb' heq => hne ?_
  subst heq
  have hp' := Nat.le_of_lt_succ (mem_range.mp hp)
  have hq' := Nat.le_of_lt_succ (mem_range.mp hq)
  obtain ⟨n,hn⟩ := hblock p b hb
  obtain ⟨m,hm⟩ := hblock q b hb'
  obtain ⟨-,rfl⟩ := h.unique c c n m b ⟨p,hp',hn⟩ ⟨q,hq',hm⟩
  exact (h.table c).distinct p q _ _ hp' hq' hn hm rfl

lemma not_held_none (hc : s.cache c=none) : ¬Held s c e := by
  rw [Held,Runtime.cacheOf,hc]
  exact not_cached_none

variable [DecidableEq ι]

lemma clearCache_cacheOf (c : ι) (mask : ℕ) (grow : ι → Bool) (d : ι) :
    Runtime.cacheOf {s.clearCache c mask with grow := grow} d =
      if d=c then ⟨mask,0,fun _ => none⟩ else s.cacheOf d := by
  rw [Runtime.cacheOf,Runtime.clearCache]
  dsimp only
  rw [update_apply]
  split_ifs
  · rfl
  · rfl

lemma Memory.clearCache (h : Memory s) (c : ι) {mask k : ℕ} (hmask : mask+1=2^k)
    (hsize : 2 ≤ mask+1) (grow : ι → Bool) :
    Emptied s {s.clearCache c mask with grow := grow} c := by
  have hcache := clearCache_cacheOf (s := s) c mask grow
  have hheld : ∀ d e,Held {s.clearCache c mask with grow := grow} d e ↔ Held s d e ∧ d≠c := by
    intro d e
    rw [Held,hcache,Held]
    split_ifs with hd
    · exact iff_of_false not_cached_none fun hh => hh.2 hd
    · exact (and_iff_left hd).symm
  refine ⟨⟨rfl,rfl,rfl⟩,⟨fun d => ?_,fun d cache hd => ?_,fun a d n m b ha hd => ?_,
    fun d n b hd => ?_,fun b hb => ?_,?_⟩,hheld,
    fun b hb => (mem_append.mp hb).imp_right mem_forwards.mp⟩
  · rw [hcache]
    split_ifs
    · exact cacheOk_none hmask
    · exact h.table d
  · change update s.cache c _ d=some cache at hd
    rw [update_apply] at hd
    split_ifs at hd
    · cases hd
      exact hsize
    · exact h.size d cache hd
  · exact h.unique a d n m b ((hheld _ _).mp ha).1 ((hheld _ _).mp hd).1
  · obtain ⟨hd,hne⟩ := (hheld _ _).mp hd
    obtain ⟨hlt,hnot⟩ := h.block d n b hd
    refine ⟨hlt,fun hmem => ?_⟩
    rcases mem_append.mp hmem with hmem | hmem
    · exact hnot hmem
    · obtain ⟨m,hm⟩ := mem_forwards.mp hmem
      exact hne (h.unique d c n m b hd hm).1
  · rcases mem_append.mp hb with hb | hb
    · exact h.freed_lt b hb
    · obtain ⟨n,hn⟩ := mem_forwards.mp hb
      exact (h.block c n b hn).1
  · refine nodup_append.mpr ⟨h.nodup,h.nodup_forwards c,fun a ha b hb hab => ?_⟩
    obtain ⟨n,hn⟩ := mem_forwards.mp hb
    exact (h.block c n b hn).2 (hab▸ha)

lemma cacheFlush_spec (h : Memory s) (c : ι) : Emptied s (cacheFlush s c) c := by
  rw [cacheFlush]
  cases hc : s.cache c with
  | none =>
    refine ⟨Kept.refl s,h,fun d e => (and_iff_left_of_imp fun hd heq => ?_).symm,
      fun b hb => .inl hb⟩
    exact not_held_none hc (heq▸hd)
  | some cache =>
    have htable := h.table c
    rw [Runtime.cacheOf,hc,getD_some] at htable
    obtain ⟨k,hk⟩ := htable.size
    exact h.clearCache c hk (h.size c cache hc) s.grow

lemma cacheExpand_spec (h : Memory s) (c : ι) : Emptied s (cacheExpand s c) c ∧
    ((cacheExpand s c).cacheOf c).occupied=0 ∧ 2≤((cacheExpand s c).cacheOf c).mask+1 := by
  rw [cacheExpand]
  cases hc : s.cache c with
  | none =>
    have hclear : cacheCreate s c =
        {s.clearCache c 3 with grow := update s.grow c false} := by
      have hfreed : forwards (s.cacheOf c)=[] := by
        rw [Runtime.cacheOf,hc]
        rfl
      rw [cacheCreate,Runtime.clearCache,hfreed,append_nil]
      rfl
    have hcache := clearCache_cacheOf (s := s) c 3 (update s.grow c false) c
    dsimp only
    rw [hclear,hcache,if_pos rfl]
    exact ⟨h.clearCache c (show 3+1=2^2 from rfl) (by omega) _,rfl,show 2≤3+1 by omega⟩
  | some cache =>
    have htable := h.table c
    rw [Runtime.cacheOf,hc,getD_some] at htable
    obtain ⟨k,hk⟩ := htable.size
    have hsize := h.size c cache hc
    dsimp only
    split_ifs with hgrow
    · have hdouble : (cache.mask+1)*2-1+1=2^(k+1) := by
        rw [pow_succ,←hk]
        omega
      have hcache := clearCache_cacheOf (s := s) c ((cache.mask+1)*2-1)
        (update s.grow c false) c
      rw [hcache,if_pos rfl]
      exact ⟨h.clearCache c hdouble (by omega) _,rfl,show 2≤(cache.mask+1)*2-1+1 by omega⟩
    · have hcache := clearCache_cacheOf (s := s) c cache.mask (update s.grow c true) c
      rw [hcache,if_pos rfl]
      exact ⟨h.clearCache c hk hsize _,rfl,hsize⟩

end Flush

section Fill

variable [DecidableEq ι]

def Fresh (s : Runtime ι) (smt : Method) : Prop :=
  ∀ n b,smt=.forward n b → b<s.allocated ∧ b∉s.freed ∧ ∀ d m,¬Held s d (.forward m b)

lemma setCache_cacheOf (s : Runtime ι) (c : ι) (cache : Cache) (d : ι) :
    (s.setCache c cache).cacheOf d=if d=c then cache else s.cacheOf d := by
  rw [Runtime.cacheOf,Runtime.setCache]
  dsimp only
  rw [update_apply]
  split_ifs
  · rfl
  · rfl

lemma Memory.setCache (h : Memory s) {cache : Cache} (hcache : CacheOk cache)
    (hsize : 2≤cache.mask+1)
    (hcached : ∀ e,Cached cache e ↔ e=smt ∨ Held s c e) (hfresh : Fresh s smt) :
    Memory (s.setCache c cache) := by
  have hheld : ∀ d e,Held (s.setCache c cache) d e → (d=c ∧ e=smt) ∨ Held s d e := by
    intro d e hd
    rw [Held,setCache_cacheOf] at hd
    split_ifs at hd with hdc
    · rw [hdc]
      exact ((hcached e).mp hd).imp_left fun he => ⟨rfl,he⟩
    · exact .inr hd
  refine ⟨fun d => ?_,fun d x hd => ?_,fun a d n m b ha hd => ?_,fun d n b hd => ?_,
    h.freed_lt,h.nodup⟩
  · rw [setCache_cacheOf]
    split_ifs
    · exact hcache
    · exact h.table d
  · change update s.cache c (some cache) d=some x at hd
    rw [update_apply] at hd
    split_ifs at hd
    · cases hd
      exact hsize
    · exact h.size d x hd
  · rcases hheld a _ ha with ⟨hac,hn⟩ | ha'
    · rcases hheld d _ hd with ⟨hdc,hm⟩ | hd'
      · cases hn.trans hm.symm
        exact ⟨hac.trans hdc.symm,rfl⟩
      · exact absurd hd' ((hfresh n b hn.symm).2.2 d m)
    · rcases hheld d _ hd with ⟨hdc,hm⟩ | hd'
      · exact absurd ha' ((hfresh m b hm.symm).2.2 a n)
      · exact h.unique a d n m b ha' hd'
  · rcases hheld d _ hd with ⟨-,hn⟩ | hd
    · obtain ⟨hlt,hnot,-⟩ := hfresh n b hn.symm
      exact ⟨hlt,hnot⟩
    · exact h.block d n b hd

lemma cacheFill_spec (h : Memory s) (c : ι) (smt : Method) :
    ∃ s',cacheFill s c smt smt.method_name=some s' ∧ (Fresh s smt → Memory s' ∧ Kept s s' ∧
        ∀ d e,Held s' d e → Held s d e ∨ (d=c ∧ e=smt)) := by
  obtain ⟨placed,hplaced,-,hmissed⟩ := lookInCache_spec (h.table c) smt.method_name
  rw [cacheFill,hplaced,bind_some]
  cases placed with
  | some e => exact ⟨s,rfl,fun _ => ⟨h,Kept.refl s,fun d e hd => .inl hd⟩⟩
  | none =>
    rw [isSome_none,if_neg Bool.false_ne_true]
    dsimp only
    generalize hs1 : (if ((s.cacheOf c).occupied+1)*4≤((s.cacheOf c).mask+1)*3 then s
      else cacheExpand s c)=s1
    obtain ⟨hmemory,hkept,hheld,hfreed,hroom⟩ : Memory s1 ∧ Kept s s1 ∧
        (∀ d e,Held s1 d e → Held s d e) ∧ (∀ b∈s1.freed,b∈s.freed ∨ ∃ n,Held s c (.forward n b)) ∧
        ((s1.cacheOf c).occupied+1)*4≤((s1.cacheOf c).mask+1)*3 := by
      split_ifs at hs1 with hroom
      · subst hs1
        exact ⟨h,Kept.refl s,fun d e hd => hd,fun b hb => .inl hb,hroom⟩
      · subst hs1
        obtain ⟨hemptied,hoccupied,hsize⟩ := cacheExpand_spec h c
        exact ⟨hemptied.memory,hemptied.toKept,fun d e hd => ((hemptied.held d e).mp hd).1,
          hemptied.freed,by omega⟩
    obtain ⟨b,hb,hcache,hcached⟩ := (hmemory.table c).filled smt hroom fun e he =>
      hmissed rfl e (hheld c e he)
    rw [hb,map_some]
    refine ⟨_,rfl,fun hfresh => ?_⟩
    have hfresh1 : Fresh s1 smt := fun n b hn => by
      obtain ⟨hlt,hnot,hnone⟩ := hfresh n b hn
      refine ⟨hkept.allocated.symm▸hlt,fun hmem => ?_,fun d m hd => hnone d m (hheld d _ hd)⟩
      rcases hfreed b hmem with hmem | ⟨m,hm⟩
      · exact hnot hmem
      · exact hnone c m hm
    refine ⟨hmemory.setCache hcache (show 2≤(s1.cacheOf c).mask+1 by omega) hcached hfresh1,
      ⟨hkept.methodLists,hkept.initialized,hkept.allocated⟩,fun d e hd => ?_⟩
    rw [Held,setCache_cacheOf] at hd
    split_ifs at hd with hdc
    · rcases (hcached e).mp hd with he | he
      · exact .inr ⟨hdc,he⟩
      · exact .inl (hdc▸hheld c e he)
    · exact .inl (hheld d e hd)

end Fill

end Darwin.Objc
