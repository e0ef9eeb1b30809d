import Darwin.Objc.ClassLookup

/-! Flushing: which caches are empty after method lists changed, and when that is enough. -/
open List Function Option
namespace Darwin.Objc

variable {ι : Type} [DecidableEq ι] {h : Hierarchy ι} {s s' : Runtime ι} {c cls d : ι} {e : Method}
  {sel : SEL} {flush_meta : Bool}

lemma flushAll_spec (hs : Memory s) (targets : List ι) :
    Memory (targets.foldl cacheFlush s) ∧ Kept s (targets.foldl cacheFlush s) ∧
      ∀ d e,Held (targets.foldl cacheFlush s) d e ↔ Held s d e ∧ d∉targets := by
  induction targets generalizing s with
  | nil => exact ⟨hs,Kept.refl s,fun d e => by simp⟩
  | cons c targets ih =>
    have hfirst := cacheFlush_spec hs c
    obtain ⟨hmemory,hkept,hheld⟩ := ih hfirst.memory
    refine ⟨hmemory,hfirst.toKept.trans hkept,fun d e => ?_⟩
    rw [foldl_cons,hheld,hfirst.held,and_assoc,mem_cons,not_or]

lemma flushTargets_congr (hinit : s'.initialized=s.initialized) (clsObject : ι) (cs : List ι) :
    flushTargets h s' cls flush_meta clsObject cs=flushTargets h s cls flush_meta clsObject cs := by
  induction cs with
  | nil => rfl
  | cons c cs ih => rw [flushTargets,flushTargets,ih,ISINITIALIZED,ISINITIALIZED,hinit]

lemma flushClasses_spec (hs : Memory s) (cls : ι) (flush_meta : Bool) (classes : List ι) :
    Memory (classes.foldl (flushClass h cls flush_meta) s) ∧
      Kept s (classes.foldl (flushClass h cls flush_meta) s) ∧
      ∀ d e,Held (classes.foldl (flushClass h cls flush_meta) s) d e →
        Held s d e ∧ ∀ clsObject∈classes,d∉turnTargets h s cls flush_meta clsObject := by
  induction classes generalizing s with
  | nil => exact ⟨hs,Kept.refl s,fun d e hd => ⟨hd,fun c hc => absurd hc not_mem_nil⟩⟩
  | cons c classes ih =>
    obtain ⟨hmemory,hkept,hheld⟩ :=
      flushAll_spec hs (turnTargets h s cls flush_meta c)
    obtain ⟨hmemory',hkept',hheld'⟩ := ih hmemory
    refine ⟨hmemory',hkept.trans hkept',fun d e hd => ?_⟩
    obtain ⟨hd',hrest⟩ := hheld' d e hd
    obtain ⟨hd,hnot⟩ := (hheld d e).mp hd'
    refine ⟨hd,fun clsObject hmem => ?_⟩
    rcases mem_cons.mp hmem with rfl | hmem
    · exact hnot
    · have htargets := hrest clsObject hmem
      rwa [turnTargets,flushTargets_congr hkept.initialized] at htargets

section Reach

/-- The caches that are flushed when the methods of a class change: with a root class those of
classes, and otherwise those of what is initialized. -/
def Flushed (h : Hierarchy ι) (s : Runtime ι) (cls c : ι) : Prop :=
  (h.super_class cls=none → h.isMeta c=false) ∧
    (h.super_class cls≠none → c=cls ∨ ISINITIALIZED h s c=true)

omit [DecidableEq ι] in
lemma isMeta_chain (hd : h.isMeta d=false) : ∀ c∈h.chain d,h.isMeta c=false := by
  induction d using chain_induction (h := h) with
  | root d hroot =>
    intro c hc
    rw [chain_root hroot,mem_singleton] at hc
    exact hc▸hd
  | super d d' hsuper ih =>
    intro c hc
    rw [chain_super hsuper] at hc
    rcases mem_cons.mp hc with rfl | hc
    · exact hd
    · exact ih (h.isMeta_super d d' hd hsuper) c hc

omit [DecidableEq ι] in
lemma super_isa_root (hd : h.isMeta d=false) (hroot : h.super_class d=none) :
    h.super_class (h.isa d)=some d := by
  rw [h.super_isa d hd,hroot]
  rfl

omit [DecidableEq ι] in
lemma super_isa_super {d' : ι} (hd : h.isMeta d=false) (hsuper : h.super_class d=some d') :
    h.super_class (h.isa d)=some (h.isa d') := by
  rw [h.super_isa d hd,hsuper]
  rfl

omit [DecidableEq ι] in
lemma isInitialized_isa (hd : h.isMeta d=false) :
    ISINITIALIZED h s (h.isa d)=ISINITIALIZED h s d := by
  rw [ISINITIALIZED,ISINITIALIZED,GETMETA,GETMETA,if_pos (h.isMeta_isa d hd),hd,
    if_neg Bool.false_ne_true]

omit [DecidableEq ι] in
lemma chain_isa (hd : h.isMeta d=false) :
    ∀ c∈h.chain (h.isa d),h.isMeta c=true ∨ h.super_class c=none := by
  induction d using chain_induction (h := h) with
  | root d hroot =>
    intro c hc
    rw [chain_super (super_isa_root hd hroot),chain_root hroot,mem_cons,mem_singleton]
      at hc
    rcases hc with rfl | rfl
    · exact .inl (h.isMeta_isa d hd)
    · exact .inr hroot
  | super d d' hsuper ih =>
    intro c hc
    rw [chain_super (super_isa_super hd hsuper)] at hc
    rcases mem_cons.mp hc with rfl | hc
    · exact .inl (h.isMeta_isa d hd)
    · exact ih (h.isMeta_super d d' hd hsuper) c hc

lemma walk_class (hinit : ∀ c d,h.super_class c=some d → ISINITIALIZED h s c=true →
      ISINITIALIZED h s d=true) (clsObject : ι) (hd : h.isMeta d=false)
    (hcls : cls∈h.chain d) (hflush : d=cls ∨ ISINITIALIZED h s d=true) :
    clsObject∈flushTargets h s cls flush_meta clsObject (h.chain d) := by
  have hmeta := isMeta_chain hd cls hcls
  induction d using chain_induction (h := h) with
  | root d hroot =>
    rw [chain_root hroot] at hcls ⊢
    rw [flushTargets,if_pos (mem_singleton.mp hcls).symm]
    exact mem_cons_self
  | super d d' hsuper ih =>
    rw [chain_super hsuper] at hcls ⊢
    rw [flushTargets]
    by_cases heq : d=cls
    · rw [if_pos heq]
      exact mem_cons_self
    · have hisa : h.isa d≠cls := fun hisa => by
        rw [←hisa,h.isMeta_isa d hd] at hmeta
        cases hmeta
      have hd' := hflush.resolve_left heq
      rw [if_neg heq,if_neg hisa,if_pos hd']
      exact ih (h.isMeta_super d d' hd hsuper)
        ((mem_cons.mp hcls).resolve_left fun hc => heq hc.symm) (.inr (hinit d d' hsuper hd'))

lemma walk_meta (hinit : ∀ c d,h.super_class c=some d → ISINITIALIZED h s c=true →
      ISINITIALIZED h s d=true) (clsObject : ι) (hd : h.isMeta d=false)
    (hmeta : h.isMeta cls=true) (hcls : cls∈h.chain (h.isa d))
    (hflush : h.isa d=cls ∨ ISINITIALIZED h s (h.isa d)=true) :
    h.isa clsObject∈flushTargets h s cls flush_meta clsObject (h.chain d) := by
  have hne : ∀ d,h.isMeta d=false → d≠cls := fun d hd heq => by
    rw [heq,hmeta] at hd
    cases hd
  induction d using chain_induction (h := h) with
  | root d hroot =>
    rw [chain_super (super_isa_root hd hroot),chain_root hroot,mem_cons,mem_singleton]
      at hcls
    have hisa := hcls.resolve_right fun hc => hne d hd hc.symm
    rw [chain_root hroot,flushTargets,if_neg (hne d hd),if_pos hisa.symm]
    exact mem_singleton_self _
  | super d d' hsuper ih =>
    rw [chain_super (super_isa_super hd hsuper)] at hcls
    rw [chain_super hsuper,flushTargets,if_neg (hne d hd)]
    by_cases hisa : h.isa d=cls
    · rw [if_pos hisa]
      exact mem_singleton_self _
    · have hd' := hflush.resolve_left hisa
      rw [if_neg hisa,if_pos ((isInitialized_isa hd).symm.trans hd')]
      exact ih (h.isMeta_super d d' hd hsuper)
        ((mem_cons.mp hcls).resolve_left fun hc => hisa hc.symm)
        (.inr (hinit _ _ (super_isa_super hd hsuper) hd'))

lemma flushed_spec (flush_meta : Bool) (hinit : ∀ c d,h.super_class c=some d → ISINITIALIZED h s c=true →
      ISINITIALIZED h s d=true) (hcls : cls∈h.chain c) (hflush : Flushed h s cls c) :
    ∃ clsObject∈h.classes,c∈turnTargets h s cls flush_meta clsObject := by
  by_cases hroot : h.super_class cls=none
  · refine ⟨c,(h.mem_classes c).mpr (hflush.1 hroot),?_⟩
    rw [turnTargets,if_pos hroot]
    exact mem_cons_self
  · cases hc : h.isMeta c with
    | false =>
      refine ⟨c,(h.mem_classes c).mpr hc,?_⟩
      rw [turnTargets,if_neg hroot]
      exact walk_class hinit c hc hcls (hflush.2 hroot)
    | true =>
      obtain ⟨d,hd,rfl⟩ := h.isa_surjective c hc
      refine ⟨d,(h.mem_classes d).mpr hd,?_⟩
      rw [turnTargets,if_neg hroot]
      exact walk_meta hinit d hd ((chain_isa hd cls hcls).resolve_right hroot) hcls
        (hflush.2 hroot)

end Reach

section Change

variable {meths : MethodList}

def MethodList.names (meths : MethodList) : List SEL := meths.method_list.map Prod.fst

lemma findMethodInList_none (hsel : sel∉meths.names) : findMethodInList meths sel=none := by
  rw [findMethodInList,map_eq_none_iff,find?_eq_none]
  exact fun m hm heq => hsel (mem_map.mpr ⟨m,hm,of_decide_eq_true heq⟩)

lemma findSome?_erase {f : MethodList → Option Method} (hf : f meths=none)
    (mlists : List MethodList) : (mlists.erase meths).findSome? f=mlists.findSome? f := by
  induction mlists with
  | nil => rfl
  | cons mlist mlists ih =>
    by_cases heq : mlist=meths
    · rw [heq,erase_cons_head,findSome?_cons,hf]
    · rw [erase_cons_tail (by simpa using heq),findSome?_cons,findSome?_cons,ih]

/-- Other selectors, and classes that do not inherit, have the methods that they had. -/
structure Changed (s s' : Runtime ι) (cls : ι) (meths : MethodList) : Prop where
  cache : s'.cache=s.cache
  initialized : s'.initialized=s.initialized
  allocated : s'.allocated=s.allocated
  freed : s'.freed=s.freed
  find : ∀ d sel,d≠cls ∨ sel∉meths.names → findMethodInClass s' d sel=findMethodInClass s d sel

lemma insertMethods_changed (s : Runtime ι) (cls : ι) (meths : MethodList) :
    Changed s (insertMethods s cls meths) cls meths := by
  refine ⟨rfl,rfl,rfl,rfl,fun d sel hd => ?_⟩
  rw [findMethodInClass,insertMethods]
  dsimp only
  rw [update_apply]
  split_ifs with heq
  · rw [findSome?_cons,findMethodInList_none (hd.resolve_left fun hne => hne heq),heq]
    rfl
  · rfl

lemma removeMethods_changed (s : Runtime ι) (cls : ι) (meths : MethodList) :
    Changed s (removeMethods s cls meths) cls meths := by
  refine ⟨rfl,rfl,rfl,rfl,fun d sel hd => ?_⟩
  rw [findMethodInClass,removeMethods]
  dsimp only
  rw [update_apply]
  split_ifs with heq
  · rw [findSome?_erase (findMethodInList_none (hd.resolve_left fun hne => hne heq)),heq]
    rfl
  · rfl

omit [DecidableEq ι] in
lemma Changed.uncached (hchanged : Changed s s' cls meths) (c : ι)
    (hsel : cls∉h.chain c ∨ sel∉meths.names) : uncached h s' c sel=uncached h s c sel := by
  rw [Objc.uncached,Objc.uncached,getMethod,getMethod]
  have hfind : ∀ cs : List ι,(cls∉cs ∨ sel∉meths.names) →
      cs.findSome? (fun c => findMethodInClass s' c sel) =
        cs.findSome? fun c => findMethodInClass s c sel := by
    intro cs
    induction cs with
    | nil => exact fun _ => rfl
    | cons d cs ih =>
      intro hcs
      rw [findSome?_cons,findSome?_cons,
        ih (hcs.imp_left fun hnot hmem => hnot (mem_cons_of_mem d hmem)),
        hchanged.find d sel (hcs.imp_left fun hnot heq => hnot (heq▸mem_cons_self))]
  rw [hfind _ hsel]

omit [DecidableEq ι] in
lemma rank_chain (h : Hierarchy ι) (c : ι) : ∀ d∈h.chain c,h.rank d≤h.rank c := by
  induction c using chain_induction (h := h) with
  | root c hroot =>
    intro d hd
    rw [chain_root hroot,mem_singleton] at hd
    rw [hd]
  | super c c' hsuper ih =>
    intro d hd
    rw [chain_super hsuper] at hd
    rcases mem_cons.mp hd with rfl | hd
    · exact le_rfl
    · exact (ih d hd).trans (h.rank_lt c c' hsuper).le

def Overridden (h : Hierarchy ι) (s : Runtime ι) (cls c : ι) (sel : SEL) : Prop :=
  ∃ d∈h.chain c,cls∈h.chain d ∧ d≠cls ∧ findMethodInClass s d sel≠none

omit [DecidableEq ι] in
lemma Changed.overridden (hchanged : Changed s s' cls meths) (c : ι)
    (hover : Overridden h s cls c sel) : Objc.uncached h s' c sel=Objc.uncached h s c sel := by
  induction c using chain_induction (h := h) with
  | root c hroot =>
    obtain ⟨d,hd,hcls,hne,-⟩ := hover
    rw [chain_root hroot,mem_singleton] at hd
    rw [hd,chain_root hroot,mem_singleton] at hcls
    exact absurd (hd.trans hcls.symm) hne
  | super c c' hsuper ih =>
    obtain ⟨d,hd,hcls,hne,hfind⟩ := hover
    rw [chain_super hsuper] at hd
    have hc : c≠cls := fun heq => by
      rcases mem_cons.mp hd with hdc | hd
      · exact hne (hdc.trans heq)
      · have hbelow := rank_chain h c' d hd
        have habove := rank_chain h d cls hcls
        have hrank := h.rank_lt c c' hsuper
        rw [heq] at hrank
        omega
    have hsame := hchanged.find c sel (.inl hc)
    cases hown : findMethodInClass s c sel with
    | some e => rw [uncached_own (hsame.trans hown),uncached_own hown]
    | none =>
      rw [uncached_super hsuper (hsame.trans hown),uncached_super hsuper hown]
      refine ih ⟨d,(mem_cons.mp hd).resolve_left fun hdc => ?_,hcls,hne,hfind⟩
      exact hfind (hdc▸hown)

/-- The condition on a change of method lists: a cache that holds something about one of its
selectors is flushed, unless it comes from below. -/
def ChangeFair (h : Hierarchy ι) (s : Runtime ι) (cls : ι) (meths : MethodList) : Prop :=
  ∀ c e,cls∈h.chain c → Held s c e → e.method_name∈meths.names →
    Flushed h s cls c ∨ Overridden h s cls c e.method_name

lemma Good.change (hs : Good h s) (hchanged : Changed s s' cls meths)
    (hfair : ChangeFair h s cls meths) : Good h (flushCaches h s' cls false) := by
  have hcache : ∀ c,s'.cacheOf c=s.cacheOf c := fun c => by
    rw [Runtime.cacheOf,hchanged.cache,Runtime.cacheOf]
  have hheld : ∀ c e,Held s' c e ↔ Held s c e := fun c e => by rw [Held,hcache,Held]
  have hmemory : Memory s' := by
    refine ⟨fun c => hcache c▸hs.table c,fun c cache hc => hs.size c cache (hchanged.cache▸hc),
      fun c d n m b hc hd => ?_,fun c n b hc => ?_,?_,hchanged.freed▸hs.nodup⟩
    · exact hs.unique c d n m b ((hheld _ _).mp hc) ((hheld _ _).mp hd)
    · rw [hchanged.allocated,hchanged.freed]
      exact hs.block c n b ((hheld _ _).mp hc)
    · rw [hchanged.allocated,hchanged.freed]
      exact hs.freed_lt
  have hinit : ∀ c,ISINITIALIZED h s' c=ISINITIALIZED h s c := fun c => by
    rw [ISINITIALIZED,hchanged.initialized,ISINITIALIZED]
  have hupward : ∀ c d,h.super_class c=some d → ISINITIALIZED h s' c=true →
      ISINITIALIZED h s' d=true := fun c d hc hd => by
    rw [hinit] at hd ⊢
    exact hs.initialized c d hc hd
  obtain ⟨hmemory',hkept,hleft⟩ := flushClasses_spec (h := h) hmemory cls false h.classes
  refine ⟨hmemory',fun c e hc => ?_,fun c d hc hd => ?_⟩
  · obtain ⟨hold,hnot⟩ := hleft c e hc
    have hold' := (hheld c e).mp hold
    have hsame : uncached h s' c e.method_name=uncached h s c e.method_name := by
      by_cases hname : cls∈h.chain c ∧ e.method_name∈meths.names
      · obtain ⟨hcls,hname⟩ := hname
        rcases hfair c e hcls hold' hname with hflush | hover
        · have hflush' : Flushed h s' cls c := by
            rw [Flushed,hinit]
            exact hflush
          obtain ⟨clsObject,hmem,hin⟩ := flushed_spec false hupward hcls hflush'
          exact absurd hin (hnot clsObject hmem)
        · exact hchanged.overridden c hover
      · exact hchanged.uncached c (not_and_or.mp hname)
    rw [flushCaches,uncached_congr hkept.methodLists,hsame]
    exact hs.answer c e hold'
  · rw [ISINITIALIZED,flushCaches,hkept.initialized] at hd ⊢
    exact hupward c d hc hd

lemma Good.markInitialized (hs : Good h s) (hmark : markInitialized h s cls=some s') :
    Good h s' := by
  rw [Objc.markInitialized] at hmark
  split_ifs at hmark with hcls
  cases hmark
  obtain ⟨hclass,hsupers⟩ := hcls
  refine ⟨⟨hs.table,hs.size,hs.unique,hs.block,hs.freed_lt,hs.nodup⟩,hs.answer,
    fun c d hc hinit => ?_⟩
  have hmore : ∀ x,ISINITIALIZED h s x=true →
      ISINITIALIZED h { s with
        initialized := update s.initialized (h.isa cls) true} x=true := by
    intro x hx
    rw [ISINITIALIZED]
    dsimp only
    rw [update_apply]
    split_ifs
    · rfl
    · exact hx
  by_cases hmeta : GETMETA h c=h.isa cls
  · cases hkind : h.isMeta c with
    | false =>
      rw [GETMETA,hkind,if_neg Bool.false_ne_true] at hmeta
      cases h.isa_injective c cls hkind hclass hmeta
      exact hmore d (hsupers d hc)
    | true =>
      rw [GETMETA,hkind,if_pos rfl] at hmeta
      rw [hmeta] at hc
      cases hsuper : h.super_class cls with
      | none =>
        rw [super_isa_root hclass hsuper] at hc
        cases hc
        rw [ISINITIALIZED,GETMETA,hclass,if_neg Bool.false_ne_true]
        exact update_self ..
      | some d' =>
        rw [super_isa_super hclass hsuper] at hc
        cases hc
        refine hmore _ ?_
        rw [isInitialized_isa (h.isMeta_super cls d' hclass hsuper)]
        exact hsupers d' hsuper
  · rw [ISINITIALIZED] at hinit
    dsimp only at hinit
    rw [update_apply,if_neg hmeta] at hinit
    exact hmore d (hs.initialized c d hc hinit)

end Change

end Darwin.Objc

/-! Runs of lookups and changes of method lists. -/
namespace Darwin.Objc

variable {ι : Type} [DecidableEq ι] {h : Hierarchy ι} {s s' : Runtime ι}

/-- A call. A lookup in a class that is not initialized marks the class first; the calls that its
method `initialize` makes come then, and the rest of `_class_lookupMethodAndLoadCache` last. -/
inductive ClassCall (ι : Type)
  | classLookupMethod (cls : ι) (sel : SEL)
  | classInitialize (cls : ι)
  | lookupAndLoadCache (cls : ι) (sel : SEL)
  | classRespondsToMethod (cls : ι) (sel : SEL)
  | classAddMethods (cls : ι) (meths : MethodList)
  | classRemoveMethods (cls : ι) (meths : MethodList)

def ClassCall.perform (h : Hierarchy ι) (s : Runtime ι) : ClassCall ι → Option (Runtime ι)
  | .classLookupMethod cls sel => (class_lookupMethod h s cls sel).map Prod.fst
  | .classInitialize cls => markInitialized h s cls
  | .lookupAndLoadCache cls sel =>
    if ISINITIALIZED h s cls then (lookupMethodAndLoadCache h s cls sel).map Prod.fst else none
  | .classRespondsToMethod cls sel => (class_respondsToMethod h s cls sel).map Prod.fst
  | .classAddMethods cls meths => some (class_addMethods h s cls meths)
  | .classRemoveMethods cls meths => some (class_removeMethods h s cls meths)

def runCalls (h : Hierarchy ι) (s : Runtime ι) : List (ClassCall ι) → Option (Runtime ι)
  | [] => some s
  | call::calls => (call.perform h s).bind fun s => runCalls h s calls

/-- The condition on a call: a lookup does not take a forwarding entry over from a superclass, and the
caches that a change of method lists makes wrong are flushed. -/
def ClassCall.Fair (h : Hierarchy ι) (s : Runtime ι) : ClassCall ι → Prop
  | .classLookupMethod cls sel | .lookupAndLoadCache cls sel => NoShare h s cls sel
  | .classAddMethods cls meths | .classRemoveMethods cls meths => ChangeFair h s cls meths
  | .classInitialize _ | .classRespondsToMethod _ _ => True

def FairCalls (h : Hierarchy ι) (s : Runtime ι) : List (ClassCall ι) → Prop
  | [] => True
  | call::calls => call.Fair h s ∧ ∀ s'∈call.perform h s,FairCalls h s' calls

section Runs

variable {call : ClassCall ι} {calls : List (ClassCall ι)}

/-- The classes are loaded, and nothing was looked up. -/
structure Loaded (h : Hierarchy ι) (s : Runtime ι) : Prop where
  cache : ∀ c,s.cache c=none ∨ s.cache c=some (newCache INIT_CACHE_SIZE)
  freed : s.freed=[]
  initialized : ∀ c d,h.super_class c=some d → ISINITIALIZED h s c=true → ISINITIALIZED h s d=true

omit [DecidableEq ι] in
lemma Loaded.good (hs : Loaded h s) : Good h s := by
  have hheld : ∀ c e,¬Held s c e := fun c e hc => by
    rw [Held,Runtime.cacheOf] at hc
    rcases hs.cache c with hnone | hnew
    · rw [hnone] at hc
      exact not_cached_none hc
    · rw [hnew] at hc
      exact not_cached_none hc
  refine ⟨⟨fun c => ?_,fun c cache hc => ?_,fun c d n m b hc => absurd hc (hheld c _),
    fun c n b hc => absurd hc (hheld c _),fun b hb => ?_,?_⟩,fun c e hc => absurd hc (hheld c e),
    hs.initialized⟩
  · rw [Runtime.cacheOf]
    rcases hs.cache c with hnone | hnew
    · rw [hnone]
      exact cacheOk_none (k := 0) rfl
    · rw [hnew]
      exact cacheOk_none (k := 2) rfl
  · rcases hs.cache c with hnone | hnew
    · rw [hnone] at hc
      cases hc
    · rw [hnew] at hc
      cases hc
      decide
  · rw [hs.freed] at hb
    cases hb
  · rw [hs.freed]
    exact nodup_nil

lemma class_lookupMethod_enabled (hs : Good h s) {cls : ι} {sel : SEL} {found : Runtime ι × IMP}
    (hfound : class_lookupMethod h s cls sel=some found) :
    ISINITIALIZED h s cls=true ∨ ∃ e,Held s cls e ∧ e.method_name=sel := by
  obtain ⟨r,hr,hcached,-⟩ := lookInCache_spec (hs.table cls) sel
  rw [class_lookupMethod,hr,bind_some] at hfound
  cases r with
  | some entry =>
    obtain ⟨hname,hheld⟩ := hcached entry rfl
    exact .inr ⟨entry,hheld,hname⟩
  | none =>
    dsimp only at hfound
    split_ifs at hfound with hinit
    exact .inl hinit

lemma Good.step (hs : Good h s) (hfair : call.Fair h s) (hcall : call.perform h s=some s') :
    Good h s' := by
  cases call with
  | classLookupMethod cls sel =>
    obtain ⟨found,hfound,rfl⟩ := map_eq_some_iff.mp hcall
    have hinit := class_lookupMethod_enabled hs hfound
    obtain ⟨s'',hspec,hgood⟩ := class_lookupMethod_spec hs cls sel hinit
    rw [hspec] at hfound
    cases hfound
    exact hgood hfair
  | classInitialize cls => exact hs.markInitialized hcall
  | lookupAndLoadCache cls sel =>
    rw [ClassCall.perform] at hcall
    split_ifs at hcall with hinit
    obtain ⟨s'',hspec,hgood⟩ := lookupMethodAndLoadCache_spec hs cls sel
    rw [hspec] at hcall
    cases hcall
    exact hgood hfair
  | classRespondsToMethod cls sel =>
    obtain ⟨s'',r,hspec,hgood,-⟩ := class_respondsToMethod_spec hs cls sel
    rw [ClassCall.perform,hspec] at hcall
    cases hcall
    exact hgood
  | classAddMethods cls meths =>
    cases hcall
    exact hs.change (insertMethods_changed s cls meths) hfair
  | classRemoveMethods cls meths =>
    cases hcall
    exact hs.change (removeMethods_changed s cls meths) hfair

lemma Good.run (hs : Good h s) (hfair : FairCalls h s calls)
    (hrun : runCalls h s calls=some s') : Good h s' := by
  induction calls generalizing s with
  | nil =>
    cases hrun
    exact hs
  | cons call calls ih =>
    obtain ⟨u,hu,hrun⟩ := Option.bind_eq_some_iff.mp hrun
    exact ih (hs.step hfair.1 hu) (hfair.2 u hu) hrun

/-- In every state that a run reaches whose calls meet the condition, lookups end and find what the
method lists have, and no forwarding entry was freed twice, or is freed while a cache holds it. -/
theorem methods_run (hloaded : Loaded h s) (hfair : FairCalls h s calls)
    (hrun : runCalls h s calls=some s') :
    (∀ cls sel,(ISINITIALIZED h s' cls=true ∨ ∃ e,Held s' cls e ∧ e.method_name=sel) →
        (class_lookupMethod h s' cls sel).map Prod.snd=some (uncached h s' cls sel)) ∧
      (∀ cls sel,(lookupMethodAndLoadCache h s' cls sel).map Prod.snd =
        some (uncached h s' cls sel)) ∧
      (∀ cls sel,sel≠0 → (class_respondsToMethod h s' cls sel).map Prod.snd =
        some (decide (uncached h s' cls sel≠.msgForward))) ∧
      s'.freed.Nodup ∧ ∀ c n b,Held s' c (.forward n b) → b∉s'.freed := by
  have hgood := hloaded.good.run hfair hrun
  refine ⟨fun cls sel hinit => ?_,fun cls sel => ?_,fun cls sel hsel => ?_,hgood.nodup,
    fun c n b hc => (hgood.block c n b hc).2⟩
  · obtain ⟨u,hu,-⟩ := class_lookupMethod_spec hgood cls sel hinit
    rw [hu]
    rfl
  · obtain ⟨u,hu,-⟩ := lookupMethodAndLoadCache_spec hgood cls sel
    rw [hu]
    rfl
  · obtain ⟨u,r,hu,-,hr⟩ := class_respondsToMethod_spec hgood cls sel
    rw [hu,hr hsel]
    rfl

/-- A root class and a subclass, with their metaclasses. -/
inductive TwoClasses
  | root
  | rootMeta
  | sub
  | subMeta
  deriving DecidableEq

def twoClasses : Hierarchy TwoClasses where
  super_class
    | .root => none
    | .rootMeta => some .root
    | .sub => some .root
    | .subMeta => some .rootMeta
  isa
    | .root => .rootMeta
    | .sub => .subMeta
    | .rootMeta | .subMeta => .rootMeta
  isMeta
    | .root | .sub => false
    | .rootMeta | .subMeta => true
  classes := [.root,.sub]
  rank
    | .root => 0
    | .rootMeta | .sub => 1
    | .subMeta => 2
  rank_lt := fun c d hc => by cases c <;> cases d <;> simp_all
  mem_classes := fun c => by cases c <;> decide
  isMeta_isa := fun c hc => by cases c <;> simp_all
  isa_surjective := fun m hm => by
    cases m with
    | root => cases hm
    | sub => cases hm
    | rootMeta => exact ⟨.root,rfl,rfl⟩
    | subMeta => exact ⟨.sub,rfl,rfl⟩
  isa_injective := fun c d hc hd heq => by cases c <;> cases d <;> simp_all
  isMeta_super := fun c d hc hd => by cases c <;> cases d <;> simp_all
  super_isa := fun c hc => by cases c <;> simp_all

def twoLoaded : Runtime TwoClasses := ⟨fun _ => [],fun _ => none,fun _ => true,fun _ => false,0,[]⟩

lemma twoLoaded_loaded : Loaded twoClasses twoLoaded :=
  ⟨fun _ => .inl rfl,rfl,fun _ _ _ hinit => by cases hinit⟩

theorem methods_run_root : ∃ s,runCalls twoClasses twoLoaded
    [.classInitialize .root,.lookupAndLoadCache .root 5]=some s ∧
      (class_lookupMethod twoClasses s .root 5).map Prod.snd=some .msgForward := by
  have hfair : FairCalls twoClasses twoLoaded
      [.classInitialize .root,.lookupAndLoadCache .root 5] := by
    refine ⟨trivial,fun s' _ => ⟨fun _ => .inr fun d hd hne => ?_,fun _ _ => trivial⟩⟩
    exact absurd (mem_singleton.mp hd) hne
  refine ⟨_,rfl,?_⟩
  exact (methods_run twoLoaded_loaded hfair rfl).1 .root 5 (.inl (by decide))

def added : MethodList := ⟨1,[(5,7)]⟩

def bothInitialized : List (ClassCall TwoClasses) := [.classInitialize .root,.classInitialize .sub]

/-- The subclass takes the forwarding entry over, and both caches free it. The metaclass of the root
class keeps its forwarding entry when the root class gets the method. -/
theorem sharedEntry_freedTwice : ((runCalls twoClasses twoLoaded (bothInitialized++
      [.lookupAndLoadCache .root 5,.lookupAndLoadCache .sub 5,.classAddMethods .root added])).map
        fun s => s.freed)=some [0,0] ∧ ((runCalls twoClasses twoLoaded (bothInitialized++
      [.lookupAndLoadCache .rootMeta 5,.classAddMethods .root added])).map fun s =>
        ((class_lookupMethod twoClasses s .rootMeta 5).map Prod.snd,
          uncached twoClasses s .rootMeta 5))=some (some .msgForward,.code 7) :=
  ⟨by decide,by decide⟩

end Runs

end Darwin.Objc
