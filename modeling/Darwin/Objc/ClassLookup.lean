import Darwin.Objc.ClassCaches

/-! Looking methods up: caches answer what a search of the method lists would find. -/
open List Option Nat
namespace Darwin.Objc

variable {ι : Type} [DecidableEq ι] {h : Hierarchy ι} {s s' : Runtime ι} {c cls : ι} {e : Method}
  {sel : SEL}

section Chains

omit [DecidableEq ι] in
lemma chainFrom_enough (h : Hierarchy ι) {n m : ℕ} {c : ι} (hn : h.rank c<n)
    (hm : h.rank c < m) : h.chainFrom n c=h.chainFrom m c := by
  induction n generalizing m c with
  | zero => omega
  | succ n ih =>
    obtain ⟨m,rfl⟩ : ∃ k,m=k+1 := ⟨m-1,by omega⟩
    rw [Hierarchy.chainFrom,Hierarchy.chainFrom]
    cases hc : h.super_class c with
    | none => rfl
    | some d =>
      have hrank := h.rank_lt c d hc
      rw [map_some,map_some,ih (show h.rank d<n by omega) (show h.rank d < m by omega)]

omit [DecidableEq ι] in
lemma chain_root (hc : h.super_class c=none) : h.chain c=[c] := by
  rw [Hierarchy.chain,Hierarchy.chainFrom,hc]
  rfl

omit [DecidableEq ι] in
lemma chain_super {d : ι} (hc : h.super_class c=some d) : h.chain c=c::h.chain d := by
  have hrank := h.rank_lt c d hc
  rw [Hierarchy.chain,Hierarchy.chainFrom,hc,map_some,getD_some,Hierarchy.chain,
    chainFrom_enough h (m := h.rank d+1) hrank (lt_succ_self _)]

omit [DecidableEq ι] in
lemma chain_induction {P : ι → Prop} (root : ∀ c,h.super_class c=none → P c)
    (super : ∀ c d,h.super_class c=some d → P d → P c) (c : ι) : P c := by
  induction hn : h.rank c using Nat.strong_induction_on generalizing c with
  | _ n ih =>
    cases hc : h.super_class c with
    | none => exact root c hc
    | some d => exact super c d hc (ih (h.rank d) (hn▸h.rank_lt c d hc) d rfl)

end Chains

section Answers

def uncached (h : Hierarchy ι) (s : Runtime ι) (c : ι) (sel : SEL) : IMP :=
  ((getMethod h s c sel).map Method.method_imp).getD .msgForward

/-- The caches are in order, and answer what the method lists do. The superclasses of a class that
is initialized are. -/
structure Good (h : Hierarchy ι) (s : Runtime ι) : Prop extends Memory s where
  answer : ∀ c e,Held s c e → e.method_imp=uncached h s c e.method_name
  initialized : ∀ c d,h.super_class c=some d → ISINITIALIZED h s c=true → ISINITIALIZED h s d=true

omit [DecidableEq ι] in
lemma uncached_super {d : ι} (hc : h.super_class c=some d)
    (hnone : findMethodInClass s c sel=none) : uncached h s c sel=uncached h s d sel := by
  rw [uncached,getMethod,chain_super hc,findSome?_cons,hnone]
  rfl

omit [DecidableEq ι] in
lemma uncached_root (hc : h.super_class c=none) (hnone : findMethodInClass s c sel=none) :
    uncached h s c sel=.msgForward := by
  rw [uncached,getMethod,chain_root hc,findSome?_cons,hnone]
  rfl

omit [DecidableEq ι] in
lemma uncached_own (hsome : findMethodInClass s c sel=some e) :
    uncached h s c sel=e.method_imp := by
  rw [uncached,getMethod]
  cases hc : h.super_class c with
  | none => rw [chain_root hc,findSome?_cons,hsome]; rfl
  | some d => rw [chain_super hc,findSome?_cons,hsome]; rfl

omit [DecidableEq ι] in
lemma findMethodInClass_some (h : findMethodInClass s c sel=some e) : ∃ pc,e=.method sel pc := by
  obtain ⟨mlist,-,hm⟩ := exists_of_findSome?_eq_some h
  obtain ⟨m,hfind,rfl⟩ := map_eq_some_iff.mp hm
  have hname := find?_some hfind
  exact ⟨m.2,by rw [of_decide_eq_true hname]⟩

omit [DecidableEq ι] in
lemma getMethod_some (hg : getMethod h s c sel=some e) : ∃ pc,e=.method sel pc := by
  obtain ⟨d,-,hd⟩ := exists_of_findSome?_eq_some hg
  exact findMethodInClass_some hd

omit [DecidableEq ι] in
lemma uncached_congr (hlists : s'.methodLists=s.methodLists) (c : ι) (sel : SEL) :
    uncached h s' c sel=uncached h s c sel := by
  rw [uncached,uncached,getMethod,getMethod]
  simp only [findMethodInClass,hlists]

lemma Good.fill (hs : Good h s) (c : ι) (e : Method) : ∃ s',cacheFill s c e e.method_name=some s' ∧
      (Fresh s e → e.method_imp=uncached h s c e.method_name → Good h s' ∧ Kept s s') := by
  obtain ⟨s',hfill,hspec⟩ := cacheFill_spec hs.toMemory c e
  refine ⟨s',hfill,fun hfresh hanswer => ?_⟩
  obtain ⟨hmemory,hkept,hheld⟩ := hspec hfresh
  refine ⟨⟨hmemory,fun d x hd => ?_,fun c d hc hinit => ?_⟩,hkept⟩
  · rw [uncached_congr hkept.methodLists]
    rcases hheld d x hd with hold | ⟨rfl,rfl⟩
    · exact hs.answer d x hold
    · exact hanswer
  · rw [ISINITIALIZED,hkept.initialized] at hinit ⊢
    exact hs.initialized c d hc hinit

omit [DecidableEq ι] in
lemma fresh_method (n pc : ℕ) : Fresh s (.method n pc) := fun m b hm => by cases hm

lemma Good.fillForward (hs : Good h s) (hanswer : uncached h s c sel=.msgForward) :
    ∃ s',fillForward s c sel=some s' ∧ Good h s' := by
  have hmore : Good h {s with allocated := s.allocated+1} := by
    refine ⟨⟨hs.table,hs.size,hs.unique,fun d n b hd => ?_,fun b hb => ?_,hs.nodup⟩,?_,
      hs.initialized⟩
    · obtain ⟨hlt,hnot⟩ := hs.block d n b hd
      exact ⟨lt_succ_of_lt hlt,hnot⟩
    · exact lt_succ_of_lt (hs.freed_lt b hb)
    · exact hs.answer
  have hfresh : Fresh {s with allocated := s.allocated+1} (.forward sel s.allocated) := by
    intro n b hn
    cases hn
    refine ⟨lt_succ_self _,fun hmem => ?_,fun d m hd => ?_⟩
    · exact absurd (hs.freed_lt _ hmem) (lt_irrefl _)
    · exact absurd (hs.block d m _ hd).1 (lt_irrefl _)
  obtain ⟨s',hfill,hspec⟩ := hmore.fill c (.forward sel s.allocated)
  exact ⟨s',hfill,(hspec hfresh hanswer.symm).1⟩

end Answers

section Lookup

/-- A lookup that ends in forwarding finds an entry for the selector in the class's own cache, or
none in the caches of its superclasses. -/
def NoShare (h : Hierarchy ι) (s : Runtime ι) (cls : ι) (sel : SEL) : Prop :=
  uncached h s cls sel=.msgForward → (∃ e,Held s cls e ∧ e.method_name=sel) ∨
    ∀ d∈h.chain cls,d≠cls → ∀ e,Held s d e → e.method_name≠sel

omit [DecidableEq ι] in
lemma mem_chain_self (h : Hierarchy ι) (c : ι) : c∈h.chain c := by
  cases hc : h.super_class c with
  | none => rw [chain_root hc]; exact mem_cons_self
  | some d => rw [chain_super hc]; exact mem_cons_self

omit [DecidableEq ι] in
lemma mem_chain_super {d d' : ι} (hd : d∈h.chain c) (hsuper : h.super_class d=some d') :
    d'∈h.chain c := by
  induction c using chain_induction (h := h) with
  | root c hc =>
    rw [chain_root hc,mem_singleton] at hd
    rw [hd,hc] at hsuper
    cases hsuper
  | super c e hc ih =>
    rw [chain_super hc] at hd ⊢
    rcases mem_cons.mp hd with rfl | hd
    · cases hc.symm.trans hsuper
      exact mem_cons_of_mem _ (mem_chain_self h _)
    · exact mem_cons_of_mem _ (ih hd)

def SearchOk (h : Hierarchy ι) (s : Runtime ι) (cls : ι) (sel : SEL)
    (found : Option (Runtime ι × Option IMP)) : Prop :=
  ∃ s' r,found=some (s',r) ∧ r.getD .msgForward=uncached h s cls sel ∧ (r=none → s'=s) ∧
    (NoShare h s cls sel → Good h s')

lemma searchOk_fill (hs : Good h s) {e : Method} (hname : e.method_name=sel)
    (hanswer : e.method_imp=uncached h s cls sel)
    (hfresh : NoShare h s cls sel → Fresh s e) :
    SearchOk h s cls sel ((cacheFill s cls e sel).map fun s => (s,some e.method_imp)) := by
  obtain ⟨s',hfill,hspec⟩ := hs.fill cls e
  rw [hname] at hfill hspec
  rw [hfill]
  refine ⟨s',some e.method_imp,rfl,hanswer,(fun hnone => by cases hnone),fun hshare => ?_⟩
  exact (hspec (hfresh hshare) hanswer).1

lemma searchOk_step (hs : Good h s) {d : ι} (hd : d∈h.chain cls)
    (hsame : uncached h s d sel=uncached h s cls sel)
    (hmissed : d=cls ∨ ∀ e,Held s cls e → e.method_name≠sel) {rest : List ι}
    (hrest : findMethodInClass s d sel=none → (∀ e,Held s cls e → e.method_name≠sel) →
      SearchOk h s cls sel (searchClasses s cls sel rest)) :
    SearchOk h s cls sel (searchClasses s cls sel (d::rest)) := by
  obtain ⟨r,hr,hfound,hnone⟩ := lookInCache_spec (hs.table d) sel
  rw [searchClasses,hr,bind_some]
  cases r with
  | some entry =>
    obtain ⟨hname,hheld⟩ := hfound entry rfl
    have hanswer : entry.method_imp=uncached h s cls sel := by
      rw [hs.answer d entry hheld,hname,hsame]
    dsimp only
    split_ifs with hne
    · refine searchOk_fill hs hname hanswer fun hshare n b hn => ?_
      exfalso
      rw [hn] at hanswer
      rcases hshare hanswer.symm with ⟨e,he,hename⟩ | hnot
      · exact (hmissed.resolve_left hne) e he hename
      · exact hnot d hd hne entry hheld hname
    · exact ⟨s,_,rfl,hanswer,(fun hnone => by cases hnone),fun _ => hs⟩
  | none =>
    dsimp only
    cases hfind : findMethodInClass s d sel with
    | some smt =>
      obtain ⟨pc,rfl⟩ := findMethodInClass_some hfind
      exact searchOk_fill hs rfl ((uncached_own hfind).symm.trans hsame)
        fun _ => fresh_method sel pc
    | none =>
      refine hrest hfind ?_
      rcases hmissed with rfl | hmissed
      · exact hnone rfl
      · exact hmissed

lemma searchClasses_spec (hs : Good h s) (cls : ι) (sel : SEL) (d : ι) (hd : d∈h.chain cls)
    (hsame : uncached h s d sel=uncached h s cls sel)
    (hmissed : d=cls ∨ ∀ e,Held s cls e → e.method_name≠sel) :
    SearchOk h s cls sel (searchClasses s cls sel (h.chain d)) := by
  induction d using chain_induction (h := h) with
  | root d hroot =>
    rw [chain_root hroot]
    refine searchOk_step hs hd hsame hmissed fun hnone _ => ?_
    exact ⟨s,none,rfl,(uncached_root hroot hnone).symm.trans hsame,fun _ => rfl,
      fun _ => hs⟩
  | super d d' hsuper ih =>
    rw [chain_super hsuper]
    refine searchOk_step hs hd hsame hmissed fun hnone hmissed => ?_
    exact ih (mem_chain_super hd hsuper) ((uncached_super hsuper hnone).symm.trans hsame)
      (.inr hmissed)

lemma lookupMethodAndLoadCache_spec (hs : Good h s) (cls : ι) (sel : SEL) :
    ∃ s',lookupMethodAndLoadCache h s cls sel=some (s',uncached h s cls sel) ∧
      (NoShare h s cls sel → Good h s') := by
  obtain ⟨s',r,hsearch,hanswer,hsame,hgood⟩ :=
    searchClasses_spec hs cls sel cls (mem_chain_self h cls) rfl (.inl rfl)
  rw [lookupMethodAndLoadCache,hsearch,bind_some]
  cases r with
  | some imp =>
    rw [getD_some] at hanswer
    rw [hanswer]
    exact ⟨s',rfl,hgood⟩
  | none =>
    rw [getD_none] at hanswer
    rw [hsame rfl]
    obtain ⟨s'',hfill,hgood'⟩ := hs.fillForward (c := cls) hanswer.symm
    dsimp only
    rw [hfill,←hanswer]
    exact ⟨s'',rfl,fun _ => hgood'⟩

lemma class_lookupMethod_spec (hs : Good h s) (cls : ι) (sel : SEL)
    (hinit : ISINITIALIZED h s cls=true ∨ ∃ e,Held s cls e ∧ e.method_name=sel) :
    ∃ s',class_lookupMethod h s cls sel=some (s',uncached h s cls sel) ∧
      (NoShare h s cls sel → Good h s') := by
  obtain ⟨r,hr,hfound,hnone⟩ := lookInCache_spec (hs.table cls) sel
  rw [class_lookupMethod,hr,bind_some]
  cases r with
  | some entry =>
    obtain ⟨hname,hheld⟩ := hfound entry rfl
    dsimp only
    rw [hs.answer cls entry hheld,hname]
    exact ⟨s,rfl,fun _ => hs⟩
  | none =>
    have hinit' : ISINITIALIZED h s cls=true := by
      refine hinit.resolve_right fun hheld => ?_
      obtain ⟨e,he,hname⟩ := hheld
      exact hnone rfl e he hname
    dsimp only
    rw [if_pos hinit']
    exact lookupMethodAndLoadCache_spec hs cls sel

lemma class_respondsToMethod_spec (hs : Good h s) (cls : ι) (sel : SEL) :
    ∃ s' r,class_respondsToMethod h s cls sel=some (s',r) ∧ Good h s' ∧
      (sel≠0 → r=decide (uncached h s cls sel≠.msgForward)) := by
  rw [class_respondsToMethod]
  by_cases hsel : sel=0
  · rw [if_pos hsel]
    exact ⟨s,false,rfl,hs,fun hne => absurd hsel hne⟩
  rw [if_neg hsel]
  obtain ⟨r,hr,hfound,hnone⟩ := lookInCache_spec (hs.table cls) sel
  rw [hr,bind_some]
  cases r with
  | some entry =>
    obtain ⟨hname,hheld⟩ := hfound entry rfl
    dsimp only
    refine ⟨s,_,rfl,hs,fun _ => ?_⟩
    rw [hs.answer cls entry hheld,hname]
  | none =>
    dsimp only
    cases hg : getMethod h s cls sel with
    | some meth =>
      obtain ⟨pc,rfl⟩ := getMethod_some hg
      have hanswer : uncached h s cls sel=.code pc := by
        rw [uncached,hg]
        rfl
      obtain ⟨s',hfill,hspec⟩ := hs.fill cls (.method sel pc)
      dsimp only
      rw [show cacheFill s cls (.method sel pc) sel=some s' from hfill]
      refine ⟨s',true,rfl,(hspec (fresh_method sel pc) hanswer.symm).1,fun _ => ?_⟩
      rw [hanswer]
      rfl
    | none =>
      have hanswer : uncached h s cls sel=.msgForward := by
        rw [uncached,hg]
        rfl
      obtain ⟨s',hfill,hgood⟩ := hs.fillForward (c := cls) hanswer
      dsimp only
      rw [hfill]
      refine ⟨s',false,rfl,hgood,fun _ => ?_⟩
      rw [hanswer]
      rfl

end Lookup

end Darwin.Objc
