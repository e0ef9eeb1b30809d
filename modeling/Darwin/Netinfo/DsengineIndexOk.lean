import Darwin.Netinfo.DsengineIndex

/-! Under which conditions the operations of the engine keep the indexes in step with the children. -/
open List Function Option
namespace Darwin.Netinfo
open Lib

variable {s : Engine} {store store' : Dsstore Attributes} {sub sub' : List ℕ} {x : Dsindex}
  {p d n : ℕ}

def attributesOf (store : Dsstore Attributes) (c : ℕ) : Option Attributes :=
  (store.get c).map Dsrecord.attributes

def superOf (store : Dsstore Attributes) (c : ℕ) : Option ℕ := (store.get c).map Dsrecord.super

/-- For each of its keys, an index has just the children with their values. -/
structure Complete (store : Dsstore Attributes) (sub : List ℕ) (x : Dsindex) : Prop where
  ok : IndexOk x
  holds : ∀ k,HasKey x k → ∀ b c,Holds x k b c ↔
    c∈sub ∧ ∃ at'∈attributesOf store c,HasValue at'.attributes k b

/-- Children name their parent, and indexes are complete. -/
structure Good (s : Engine) : Prop where
  child : ∀ q r c,s.store.get q=some r → c∈r.sub → superOf s.store c=some q
  nodup : ∀ q r,s.store.get q=some r → r.sub.Nodup
  index : ∀ q x,s.index q=some x → ∃ r,s.store.get q=some r ∧ Complete s.store r.sub x

def TakesSub (p : ℕ) (r : Dsrecord Attributes) (c : ℕ) : Prop := c≠0 ∧ c≠p ∧ c≠r.super

/-- Each key of a record is a key of the index, or no other child has values under it. -/
def TakesKeys (store : Dsstore Attributes) (sub : List ℕ) (x : Dsindex)
    (attributes : List Dsattribute) (d : ℕ) : Prop :=
  ∀ a∈attributes,HasKey x a.key ∨
    ∀ c∈sub,c≠d → ∀ at'∈attributesOf store c,∀ b,¬HasValue at'.attributes a.key b

section Indexes

lemma Complete.congr (h : Complete store sub x) (hsub : ∀ c,c∈sub' ↔ c∈sub)
    (hsame : ∀ c∈sub,attributesOf store' c=attributesOf store c) : Complete store' sub' x := by
  refine ⟨h.ok,fun k hk b c => (h.holds k hk b c).trans ?_⟩
  rw [hsub]
  exact and_congr_right fun hc => by rw [hsame c hc]

lemma Complete.delete (h : Complete store sub x) (hsub : ∀ c,c∈sub' ↔ c∈sub ∧ c≠d)
    (hsame : ∀ c∈sub',attributesOf store' c=attributesOf store c) :
    Complete store' sub' (dsindexDeleteDsid x d) := by
  obtain ⟨hok,hkeys,hholds⟩ := deleteDsid_spec h.ok d
  refine ⟨hok,fun k hk b c => ?_⟩
  rw [hholds,h.holds k ((hkeys k).mp hk)]
  constructor
  · rintro ⟨⟨hc,hat⟩,hne⟩
    have hmem := (hsub c).mpr ⟨hc,hne⟩
    exact ⟨hmem,by rwa [hsame c hmem]⟩
  · rintro ⟨hmem,hat⟩
    obtain ⟨hc,hne⟩ := (hsub c).mp hmem
    exact ⟨⟨hc,by rwa [hsame c hmem] at hat⟩,hne⟩

lemma TakesKeys.congr {attributes : List Dsattribute}
    (h : TakesKeys store sub x attributes d)
    (hsame : ∀ c∈sub,c≠d → attributesOf store' c=attributesOf store c) :
    TakesKeys store' sub x attributes d := fun a ha => (h a ha).imp_right fun hnone c hc hcd => by
  rw [hsame c hc hcd]
  exact hnone c hc hcd

lemma Complete.insert (h : Complete store sub x) {at' : Attributes}
    (hkeys : TakesKeys store' sub x at'.attributes n) (hn : attributesOf store' n=some at')
    (hsub : ∀ c,c∈sub' ↔ c∈sub ∨ c=n) (hnot : n∉sub)
    (hsame : ∀ c∈sub,attributesOf store' c=attributesOf store c) :
    Complete store' sub' (dsindexInsertRecord x at'.attributes n) := by
  obtain ⟨hok,hkeys',hholds⟩ := insertRecord_spec h.ok at'.attributes n
  refine ⟨hok,fun k hk b c => ?_⟩
  -- of the children that were there
  have hold : Holds x k b c ↔ c∈sub ∧ ∃ at''∈attributesOf store' c,
      HasValue at''.attributes k b := by
    by_cases hx : HasKey x k
    · rw [h.holds k hx]
      exact and_congr_right fun hc => by rw [hsame c hc]
    · refine iff_of_false (fun hh => hx hh.hasKey) fun hh => ?_
      obtain ⟨hc,at'',hat'',hvalue⟩ := hh
      obtain ⟨a,ha,rfl⟩ := ((hkeys' k).mp hk).resolve_left hx
      exact ((hkeys a ha).resolve_left hx) c hc (fun heq => hnot (heq▸hc)) at'' hat'' b hvalue
  rw [hholds,hold,hsub,or_and_right]
  refine or_congr_right ⟨fun hnew => ?_,fun hnew => ?_⟩
  · obtain ⟨hvalue,rfl⟩ := hnew
    exact ⟨rfl,at',hn,hvalue⟩
  · obtain ⟨rfl,at'',hat'',hvalue⟩ := hnew
    rw [hn] at hat''
    cases hat''
    exact ⟨hvalue,rfl⟩

lemma appendSub_cases (p : ℕ) (r : Dsrecord Attributes) (c : ℕ) :
    (dsrecordAppendSub p r c).super=r.super ∧
      (dsrecordAppendSub p r c).attributes=r.attributes ∧ ((dsrecordAppendSub p r c).sub=r.sub ∨
        (dsrecordAppendSub p r c).sub=r.sub++[c] ∧ c∉r.sub) := by
  rw [dsrecordAppendSub]
  split_ifs with h0 hp hsuper hmem
  · exact ⟨rfl,rfl,.inl rfl⟩
  · exact ⟨rfl,rfl,.inl rfl⟩
  · exact ⟨rfl,rfl,.inl rfl⟩
  · exact ⟨rfl,rfl,.inl rfl⟩
  · exact ⟨rfl,rfl,.inr ⟨rfl,hmem⟩⟩

variable {r : Dsrecord Attributes}

lemma appendSub_takes {c : ℕ} (h : TakesSub p r c) (hc : c∉r.sub) :
    (dsrecordAppendSub p r c).sub=r.sub++[c] := by
  rw [dsrecordAppendSub,if_neg h.1,if_neg h.2.1,if_neg h.2.2,if_neg hc]

lemma superOf_eq {c : ℕ} (h : store.get c=some r) :
    superOf store c=some r.super := by rw [superOf,h,map_some]

lemma attributesOf_eq {c : ℕ} (h : store.get c=some r) :
    attributesOf store c=some r.attributes := by rw [attributesOf,h,map_some]

lemma superOf_put (h : store.get d=some r)
    (r' : Dsrecord Attributes) (hr : r'.super=r.super) (c : ℕ) : superOf (store.put d r') c=superOf store c := by
  rw [superOf,SortedMap.get_put]
  split_ifs with hcd
  · rw [hcd,superOf_eq h,map_some,hr]
  · rfl

lemma attributesOf_put (h : store.get d=some r)
    (r' : Dsrecord Attributes) (hr : r'.attributes=r.attributes) (c : ℕ) :
    attributesOf (store.put d r') c=attributesOf store c := by
  rw [attributesOf,SortedMap.get_put]
  split_ifs with hcd
  · rw [hcd,attributesOf_eq h,map_some,hr]
  · rfl

lemma Good.parent (h : Good s) {q c : ℕ} {r rc : Dsrecord Attributes}
    (hq : s.store.get q=some r) (hc : c∈r.sub) (hrc : s.store.get c=some rc) : rc.super=q := by
  have hsuper := h.child q r c hq hc
  rw [superOf_eq hrc] at hsuper
  exact some.inj hsuper

end Indexes

section Children

variable {r rp rd : Dsrecord Attributes} {f : Dsindex → Dsindex}

def Unlisted (s : Engine) (d : ℕ) : Prop := ∀ q r,s.store.get q=some r → d∉r.sub

lemma Good.congr {s' : Engine} (h : Good s) (hget : ∀ c,s'.store.get c=s.store.get c)
    (hindex : s'.index=s.index) : Good s' := by
  refine ⟨fun q r c hq hc => ?_,fun q r hq => h.nodup q r (hget q▸hq),fun q x hx => ?_⟩
  · rw [superOf,hget]
    exact h.child q r c (hget q▸hq) hc
  · obtain ⟨r,hr,hcomplete⟩ := h.index q x (hindex▸hx)
    refine ⟨r,(hget q).trans hr,hcomplete.congr (fun c => Iff.rfl) fun c _ => ?_⟩
    rw [attributesOf,hget,attributesOf]

lemma Good.setSub (h : Good s) (hp : s.store.get p=some rp) (hsuper : r.super=rp.super)
    (hattr : r.attributes=rp.attributes) (hnodup : r.sub.Nodup)
    (hchild : ∀ c∈r.sub,superOf s.store c=some p)
    (hx : ∀ x,s.index p=some x → Complete s.store rp.sub x → Complete s.store r.sub (f x)) :
    Good ((s.put p r).atIndex p f) := by
  have hget : ∀ c,((s.put p r).atIndex p f).store.get c =
      if c=p then some r else s.store.get c := fun c => SortedMap.get_put s.store c p r
  have hindex : ∀ q,((s.put p r).atIndex p f).index q =
      if q=p then (s.index p).map f else s.index q := fun q =>
    update_apply s.index p _ q
  have hsup : ∀ c,superOf ((s.put p r).atIndex p f).store c=superOf s.store c :=
    superOf_put hp r hsuper
  have hatt : ∀ c,attributesOf ((s.put p r).atIndex p f).store c=attributesOf s.store c :=
    attributesOf_put hp r hattr
  refine ⟨fun q rq c hq hc => ?_,fun q rq hq => ?_,fun q x hxq => ?_⟩
  · rw [hsup]
    rw [hget] at hq
    split_ifs at hq with hqp
    · cases hq
      exact hqp▸hchild c hc
    · exact h.child q rq c hq hc
  · rw [hget] at hq
    split_ifs at hq with hqp
    · cases hq
      exact hnodup
    · exact h.nodup q rq hq
  · rw [hindex] at hxq
    split_ifs at hxq with hqp
    · obtain ⟨y,hy,rfl⟩ := map_eq_some_iff.mp hxq
      obtain ⟨rq,hq,hcomplete⟩ := h.index p y hy
      cases hp.symm.trans hq
      exact ⟨r,by rw [hget,if_pos hqp],
        (hx y hy hcomplete).congr (fun c => Iff.rfl) fun c _ => hatt c⟩
    · obtain ⟨rq,hq,hcomplete⟩ := h.index q x hxq
      exact ⟨rq,by rw [hget,if_neg hqp,hq],
        hcomplete.congr (fun c => Iff.rfl) fun c _ => hatt c⟩

lemma Good.attach (h : Good s) (rd : Dsrecord Attributes) (hd : s.store.get d=some rd)
    (hp : s.store.get p=some rp)
    (hsuper : rd.super=p) (hunlisted : Unlisted s d)
    (hfair : ∀ x∈s.index p,TakesSub p rp d ∧
      TakesKeys s.store rp.sub x rd.attributes.attributes d) :
    Good ((s.put p (dsrecordAppendSub p rp d)).atIndex p fun x =>
      dsindexInsertRecord x rd.attributes.attributes d) := by
  obtain ⟨hsup,hattr,hcases⟩ := appendSub_cases p rp d
  have hnot := hunlisted p rp hp
  refine h.setSub hp hsup hattr ?_ (fun c hc => ?_) fun x hx hcomplete => ?_
  · rcases hcases with heq | ⟨heq,-⟩
    · exact heq▸h.nodup p rp hp
    · rw [heq]
      exact nodup_append.mpr ⟨h.nodup p rp hp,nodup_singleton d,
        fun a ha b hb hab => hnot (by rwa [←mem_singleton.mp hb,←hab])⟩
  · rcases hcases with heq | ⟨heq,-⟩
    · exact h.child p rp c hp (heq▸hc)
    · rw [heq] at hc
      rcases mem_append.mp hc with hc | hc
      · exact h.child p rp c hp hc
      · rw [mem_singleton.mp hc,superOf_eq hd,hsuper]
  · obtain ⟨htakes,hkeys⟩ := hfair x hx
    rw [appendSub_takes htakes hnot]
    exact hcomplete.insert hkeys (attributesOf_eq hd)
      (fun c => by rw [mem_append,mem_singleton]) hnot fun c _ => rfl

lemma Good.detach (h : Good s) (hd : s.store.get d=some rd)
    (hp : s.store.get rd.super=some rp) :
    Good ((s.put rd.super (dsrecordRemoveSub rp d)).atIndex rd.super fun x =>
        dsindexDeleteDsid x d) ∧
      Unlisted ((s.put rd.super (dsrecordRemoveSub rp d)).atIndex rd.super fun x =>
        dsindexDeleteDsid x d) d := by
  have hmem : ∀ c,c∈(dsrecordRemoveSub rp d).sub ↔ c∈rp.sub ∧ c≠d := fun c =>
    ((h.nodup _ rp hp).mem_erase_iff).trans and_comm
  refine ⟨h.setSub hp rfl rfl ((h.nodup _ rp hp).erase d)
    (fun c hc => h.child _ rp c hp ((hmem c).mp hc).1)
    fun x _ hcomplete => hcomplete.delete hmem fun c _ => rfl,fun q rq hq hdq => ?_⟩
  change (s.store.put rd.super (dsrecordRemoveSub rp d)).get q=some rq at hq
  rw [SortedMap.get_put] at hq
  split_ifs at hq with hqp
  · cases hq
    exact ((hmem d).mp hdq).2 rfl
  · exact hqp (h.parent hq hdq hd).symm

lemma Good.setSuper (h : Good s) (hd : s.store.get d=some rd) (hunlisted : Unlisted s d)
    (p : ℕ) : Good (s.put d {rd with super := p}) ∧
      Unlisted (s.put d {rd with super := p}) d := by
  have hget : ∀ c,(s.put d {rd with super := p}).store.get c =
      if c=d then some {rd with super := p} else s.store.get c := fun c =>
    SortedMap.get_put s.store c d _
  have hback : ∀ q rq',(s.put d {rd with super := p}).store.get q=some rq' →
      ∃ rq,s.store.get q=some rq ∧ rq'.sub=rq.sub := by
    intro q rq' hq'
    rw [hget] at hq'
    split_ifs at hq' with hqd
    · cases hq'
      exact ⟨rd,hqd▸hd,rfl⟩
    · exact ⟨rq',hq',rfl⟩
  have hunlisted' : Unlisted (s.put d {rd with super := p}) d := fun q rq' hq' hdq => by
    obtain ⟨rq,hq,hsub⟩ := hback q rq' hq'
    exact hunlisted q rq hq (hsub▸hdq)
  refine ⟨⟨fun q rq' c hq' hc => ?_,fun q rq' hq' => ?_,fun q x hx => ?_⟩,hunlisted'⟩
  · have hcd : c≠d := fun heq => hunlisted' q rq' hq' (heq▸hc)
    obtain ⟨rq,hq,hsub⟩ := hback q rq' hq'
    rw [superOf,hget,if_neg hcd]
    exact h.child q rq c hq (hsub▸hc)
  · obtain ⟨rq,hq,hsub⟩ := hback q rq' hq'
    exact hsub▸h.nodup q rq hq
  · obtain ⟨rq,hq,hcomplete⟩ := h.index q x hx
    have hatt : ∀ c,attributesOf (s.put d {rd with super := p}).store c=attributesOf s.store c :=
      attributesOf_put hd {rd with super := p} rfl
    by_cases hqd : q=d
    · rw [hqd,hd] at hq
      cases hq
      exact ⟨{rd with super := p},by rw [hget,if_pos hqd],
        hcomplete.congr (fun c => Iff.rfl) fun c _ => hatt c⟩
    · exact ⟨rq,by rw [hget,if_neg hqd,hq],hcomplete.congr (fun c => Iff.rfl) fun c _ => hatt c⟩

lemma Good.erase (h : Good s) (hunlisted : Unlisted s d) : Good (s.erase d) := by
  have hget : ∀ c,(s.erase d).store.get c=if c=d then none else s.store.get c := fun c =>
    SortedMap.get_erase s.store c d
  have hindex : ∀ q,(s.erase d).index q=if q=d then none else s.index q := fun q =>
    update_apply s.index d none q
  have hback : ∀ q rq,(s.erase d).store.get q=some rq → s.store.get q=some rq := by
    intro q rq hq
    rw [hget] at hq
    split_ifs at hq
    exact hq
  refine ⟨fun q rq c hq hc => ?_,fun q rq hq => h.nodup q rq (hback q rq hq),fun q x hx => ?_⟩
  · have hcd : c≠d := fun heq => hunlisted q rq (hback q rq hq) (heq▸hc)
    rw [superOf,hget,if_neg hcd]
    exact h.child q rq c (hback q rq hq) hc
  · rw [hindex] at hx
    split_ifs at hx with hqd
    obtain ⟨rq,hq,hcomplete⟩ := h.index q x hx
    refine ⟨rq,by rw [hget,if_neg hqd,hq],hcomplete.congr (fun c => Iff.rfl) fun c hc => ?_⟩
    have hcd : c≠d := fun heq => hunlisted q rq hq (heq▸hc)
    rw [attributesOf,hget,if_neg hcd,attributesOf]

lemma Good.new (h : Good s) (hfresh : s.store.get n=none) (hsub : r.sub=[]) :
    Good ((s.put n r).setIndex n none) ∧ Unlisted ((s.put n r).setIndex n none) n := by
  have hget : ∀ c,((s.put n r).setIndex n none).store.get c =
      if c=n then some r else s.store.get c := fun c => SortedMap.get_put s.store c n r
  have hindex : ∀ q,((s.put n r).setIndex n none).index q =
      if q=n then none else s.index q := fun q => update_apply s.index n none q
  have hlisted : Unlisted s n := fun q rq hq hc => by
    have hsuper := h.child q rq n hq hc
    rw [superOf,hfresh] at hsuper
    cases hsuper
  have hback : ∀ q rq c,((s.put n r).setIndex n none).store.get q=some rq → c∈rq.sub →
      s.store.get q=some rq := by
    intro q rq c hq hc
    rw [hget] at hq
    split_ifs at hq with hqn
    · cases hq
      rw [hsub] at hc
      cases hc
    · exact hq
  refine ⟨⟨fun q rq c hq hc => ?_,fun q rq hq => ?_,fun q x hx => ?_⟩,
    fun q rq hq hc => hlisted q rq (hback q rq n hq hc) hc⟩
  · have hold := hback q rq c hq hc
    have hcn : c≠n := fun heq => hlisted q rq hold (heq▸hc)
    rw [superOf,hget,if_neg hcn]
    exact h.child q rq c hold hc
  · rw [hget] at hq
    split_ifs at hq with hqn
    · cases hq
      rw [hsub]
      exact nodup_nil
    · exact h.nodup q rq hq
  · rw [hindex] at hx
    split_ifs at hx with hqn
    obtain ⟨rq,hq,hcomplete⟩ := h.index q x hx
    refine ⟨rq,by rw [hget,if_neg hqn,hq],hcomplete.congr (fun c => Iff.rfl) fun c hc => ?_⟩
    have hcn : c≠n := fun heq => hlisted q rq hq (heq▸hc)
    rw [attributesOf,hget,if_neg hcn,attributesOf]

end Children

section Operations

variable {r : Dsrecord Attributes}

lemma Good.create (h : Good s) (hsub : r.sub=[])
    (hfair : ∀ rp,s.store.get p=some rp → ∀ x∈s.index p,TakesSub p rp s.store.fresh ∧
        TakesKeys s.store rp.sub x r.attributes.attributes s.store.fresh) :
    Good (s.create r p) := by
  cases hp : s.store.get p with
  | none =>
    rw [Engine.create,hp]
    exact h
  | some rp =>
    have hfresh := s.store.get_fresh
    have hpn : p≠s.store.fresh := fun heq => by
      rw [←heq,hp] at hfresh
      cases hfresh
    rw [Engine.create,hp]
    obtain ⟨hgood,hunlisted⟩ := h.new (r := {r with super := p}) hfresh hsub
    refine hgood.attach {r with super := p} ?_ ?_ rfl hunlisted fun x hx => ?_
    · exact (SortedMap.get_put s.store _ _ _).trans (if_pos rfl)
    · exact (SortedMap.get_put s.store _ _ _).trans ((if_neg hpn).trans hp)
    · have hx' : s.index p=some x :=
        ((update_apply s.index _ none p).trans (if_neg hpn)).symm.trans hx
      obtain ⟨htakes,hkeys⟩ := hfair rp hp x hx'
      refine ⟨htakes,hkeys.congr fun c _ hc => ?_⟩
      rw [attributesOf,attributesOf]
      exact congrArg _ ((SortedMap.get_put s.store c _ _).trans (if_neg hc))

lemma Good.removeOne (h : Good s) (d : ℕ) : Good (s.removeOne d).1 := by
  cases hd : s.store.get d with
  | none =>
    rw [Engine.removeOne,hd]
    exact h
  | some rd =>
    cases hp : s.store.get rd.super with
    | none =>
      rw [Engine.removeOne,hd]
      dsimp only
      rw [hp]
      exact h
    | some rp =>
      rw [Engine.removeOne,hd]
      dsimp only
      rw [hp]
      obtain ⟨hgood,hunlisted⟩ := h.detach hd hp
      exact hgood.erase hunlisted

lemma Good.forKids {f : Engine → ℕ → Option (Engine × DSStatus)}
    (hf : ∀ s kid removed,Good s → f s kid=some removed → Good removed.1) {kids : List ℕ}
    {removed : Engine × DSStatus} (h : Good s) (hrun : Engine.forKids f kids s=some removed) :
    Good removed.1 := by
  induction kids generalizing s with
  | nil =>
    cases hrun
    exact h
  | cons kid kids ih =>
    obtain ⟨first,hfirst,hrest⟩ := bind_eq_some_iff.mp hrun
    have hgood := hf s kid first h hfirst
    split_ifs at hrest
    · cases hrest
      exact hgood
    · exact ih hgood hrest

lemma Good.remove {depth : ℕ} {removed : Engine × DSStatus} (h : Good s)
    (hrun : Engine.remove depth s d=some removed) : Good removed.1 := by
  induction depth generalizing s d removed with
  | zero => cases hrun
  | succ depth ih =>
    rw [Engine.remove] at hrun
    cases hd : s.store.get d with
    | none =>
      rw [hd] at hrun
      cases hrun
      exact h
    | some rd =>
      rw [hd] at hrun
      obtain ⟨kids,hkids,heq⟩ := map_eq_some_iff.mp hrun
      have hgood := h.forKids (fun s kid removed hs hrun => ih hs hrun) hkids
      split_ifs at heq
      · exact heq▸hgood
      · exact heq▸hgood.removeOne d

lemma Good.leave {rd ro r1 : Dsrecord Attributes} (h : Good s) (hd : s.store.get d=some rd)
    (hold : s.store.get rd.super=some ro)
    (hr1 : (s.put d {rd with super := p}).store.get rd.super=some r1) {s2 : Engine}
    (hs2 : s2=((s.put d {rd with super := p}).put rd.super (dsrecordRemoveSub r1 d)).atIndex
      rd.super fun x => dsindexDeleteDsid x d) :
    Good s2 ∧ Unlisted s2 d ∧ (∀ c,attributesOf s2.store c=attributesOf s.store c) ∧
      ∃ rd2,s2.store.get d=some rd2 ∧ rd2.super=p ∧ rd2.attributes=rd.attributes := by
  obtain ⟨hgood,hunlisted⟩ := h.detach hd hold
  have hindex : s2.index=((s.put rd.super (dsrecordRemoveSub ro d)).atIndex rd.super fun x =>
      dsindexDeleteDsid x d).index := by
    rw [hs2]
    rfl
  generalize hs1 : ((s.put rd.super (dsrecordRemoveSub ro d)).atIndex rd.super fun x =>
    dsindexDeleteDsid x d)=s1 at hgood hunlisted hindex
  have hget1 : ∀ c,s1.store.get c =
      if c=rd.super then some (dsrecordRemoveSub ro d) else s.store.get c := by
    intro c
    rw [←hs1]
    exact SortedMap.get_put s.store c rd.super _
  have hget2 : ∀ c,s2.store.get c=if c=rd.super then some (dsrecordRemoveSub r1 d)
      else if c=d then some {rd with super := p} else s.store.get c := by
    intro c
    rw [hs2]
    exact (SortedMap.get_put _ c rd.super _).trans
      (if_congr Iff.rfl rfl (SortedMap.get_put s.store c d _))
  have hr1' : (if rd.super=d then some {rd with super := p} else s.store.get rd.super) =
      some r1 := (SortedMap.get_put s.store rd.super d _).symm.trans hr1
  -- the two changes may come in either order
  have hsame : ∃ rd1,s1.store.get d=some rd1 ∧ rd1.attributes=rd.attributes ∧
      ∀ c,s2.store.get c=(s1.put d {rd1 with super := p}).store.get c := by
    by_cases hself : rd.super=d
    · rw [if_pos hself] at hr1'
      cases hr1'
      rw [hself,hd] at hold
      cases hold
      refine ⟨dsrecordRemoveSub rd d,(hget1 d).trans (if_pos hself.symm),rfl,fun c => ?_⟩
      refine (hget2 c).trans (Eq.trans ?_ (SortedMap.get_put s1.store c d _).symm)
      rw [hself,hget1]
      split_ifs with hcd
      · rfl
      · rw [hself] at *
        contradiction
      · rfl
    · rw [if_neg hself,hold] at hr1'
      cases hr1'
      refine ⟨rd,(hget1 d).trans ((if_neg (Ne.symm hself)).trans hd),rfl,fun c => ?_⟩
      refine (hget2 c).trans (Eq.trans ?_ (SortedMap.get_put s1.store c d _).symm)
      rw [hget1]
      split_ifs with hc hcd
      · exact absurd (hc.symm.trans hcd) hself
      · rfl
      · rfl
      · rfl
  obtain ⟨rd1,hd1,hattr,hsame⟩ := hsame
  obtain ⟨hgood,hunlisted⟩ := hgood.setSuper hd1 hunlisted p
  have hatt : ∀ c,attributesOf s2.store c=attributesOf s.store c := by
    intro c
    have hfirst : attributesOf (s.put d {rd with super := p}).store c =
        attributesOf s.store c := attributesOf_put hd {rd with super := p} rfl c
    rw [hs2]
    exact (attributesOf_put hr1 (dsrecordRemoveSub r1 d) rfl c).trans hfirst
  exact ⟨hgood.congr hsame hindex,fun q rq hq => hunlisted q rq ((hsame q).symm.trans hq),hatt,
    {rd1 with super := p},(hsame d).trans ((SortedMap.get_put s1.store d d _).trans (if_pos rfl)),
    rfl,hattr⟩

lemma Good.move (h : Good s)
    (hfair : ∀ rd rp,s.store.get d=some rd → s.store.get p=some rp → ∀ x∈s.index p,
      TakesSub p rp d ∧ TakesKeys s.store rp.sub x rd.attributes.attributes d) :
    Good (s.move d p) := by
  rw [Engine.move]
  by_cases h0 : d=0
  · rw [if_pos h0]
    exact h
  rw [if_neg h0]
  cases hd : s.store.get d with
  | none => exact h
  | some rd =>
    dsimp only
    by_cases hsame : rd.super=p
    · rw [if_pos hsame]
      exact h
    rw [if_neg hsame]
    have hget : ∀ c,(s.put d {rd with super := p}).store.get c =
        if c=d then some {rd with super := p} else s.store.get c := fun c =>
      SortedMap.get_put s.store c d _
    cases hold : s.store.get rd.super with
    | none =>
      have hne : rd.super≠d := fun heq => by
        rw [heq,hd] at hold
        cases hold
      rw [hget,if_neg hne,hold]
      exact (h.setSuper hd (fun q rq hq hdq => by
        rw [h.parent hq hdq hd,hq] at hold
        cases hold) p).1
    | some ro =>
      obtain ⟨r1,hr1⟩ : ∃ r1,(s.put d {rd with super := p}).store.get rd.super=some r1 := by
        rw [hget]
        split_ifs
        · exact ⟨_,rfl⟩
        · exact ⟨ro,hold⟩
      rw [hr1]
      dsimp only
      obtain ⟨hgood,hunlisted,hatt,rd2,hd2,hsuper,hattr⟩ := h.leave hd hold hr1 rfl
      generalize hs2 : ((s.put d {rd with super := p}).put rd.super
        (dsrecordRemoveSub r1 d)).atIndex rd.super (fun x => dsindexDeleteDsid x d)=s2
        at hgood hunlisted hatt hd2 ⊢
      have hget2 : s2.store.get p=if p=d then some {rd with super := p}
          else s.store.get p := by
        rw [←hs2]
        exact (SortedMap.get_put _ p rd.super _).trans ((if_neg (Ne.symm hsame)).trans (hget p))
      have hindex2 : s2.index p=s.index p := by
        rw [←hs2]
        exact (update_apply s.index rd.super _ p).trans (if_neg (Ne.symm hsame))
      cases hp : s2.store.get p with
      | none => exact hgood
      | some rp =>
        dsimp only
        rw [←hattr]
        refine hgood.attach rd2 hd2 hp hsuper hunlisted fun x hx => ?_
        rw [hindex2] at hx
        rw [hp] at hget2
        by_cases hpd : p=d
        · exact absurd hpd.symm (hfair rd rd hd (hpd▸hd) x hx).1.2.1
        · rw [if_neg hpd] at hget2
          rw [hattr]
          obtain ⟨htakes,hkeys⟩ := hfair rd rp hd hget2.symm x hx
          exact ⟨htakes,hkeys.congr fun c _ _ => hatt c⟩

end Operations

section Save

variable {r rd rp : Dsrecord Attributes} {same : Bool}

lemma save_get (r : Dsrecord Attributes) (same : Bool) (hd : s.store.get d=some rd) (hp : s.store.get rd.super=some rp) (c : ℕ) :
    (s.save d r same).store.get c=if c=d then some r else s.store.get c := by
  rw [Engine.save,hd]
  dsimp only
  rw [hp]
  cases same <;> simp [Engine.atIndex,Engine.setIndex,Engine.put]

lemma save_index (r : Dsrecord Attributes) (same : Bool) (hd : s.store.get d=some rd) (hp : s.store.get rd.super=some rp) (q : ℕ) :
    (s.save d r same).index q=if q=d ∧ same=false then none
      else if q=rd.super then (s.index q).map fun x =>
        dsindexInsertRecord (dsindexDeleteDsid x d) r.attributes.attributes d
      else s.index q := by
  rw [Engine.save,hd]
  dsimp only
  rw [hp]
  cases same with
  | false =>
    rw [if_neg Bool.false_ne_true]
    simp only [Engine.atIndex,Engine.setIndex,Engine.put,update_apply,and_true]
    split_ifs with hqd hqp
    · rfl
    · rw [hqp]
    · rfl
  | true =>
    rw [if_pos rfl]
    simp only [Engine.atIndex,Engine.setIndex,Engine.put,update_apply,reduceCtorEq,
      and_false,if_false]
    split_ifs with hqp
    · rw [hqp]
    · rfl

lemma Good.save (h : Good s)
    (hsame : ∀ rd,s.store.get d=some rd → r.super=rd.super ∧ r.sub=rd.sub)
    (hfair : ∀ rd rp,s.store.get d=some rd → s.store.get rd.super=some rp →
      ¬(rd.super=d ∧ same=false) → ∀ x∈s.index rd.super,
        d∈rp.sub ∧ TakesKeys s.store rp.sub x r.attributes.attributes d) :
    Good (s.save d r same) := by
  cases hd : s.store.get d with
  | none =>
    rw [Engine.save,hd]
    exact h
  | some rd =>
    cases hp : s.store.get rd.super with
    | none =>
      rw [Engine.save,hd]
      dsimp only
      rw [hp]
      exact h
    | some rp =>
      obtain ⟨hsuper,hsub⟩ := hsame rd hd
      have hget := save_get r same hd hp
      have hindex := save_index r same hd hp
      have hback : ∀ q rq',(s.save d r same).store.get q=some rq' →
          ∃ rq,s.store.get q=some rq ∧ rq'.sub=rq.sub := by
        intro q rq' hq'
        rw [hget] at hq'
        split_ifs at hq' with hqd
        · cases hq'
          exact ⟨rd,hqd▸hd,hsub⟩
        · exact ⟨rq',hq',rfl⟩
      have hforth : ∀ q rq,s.store.get q=some rq →
          ∃ rq',(s.save d r same).store.get q=some rq' ∧ rq'.sub=rq.sub := by
        intro q rq hq
        rw [hget]
        split_ifs with hqd
        · rw [hqd,hd] at hq
          cases hq
          exact ⟨r,rfl,hsub⟩
        · exact ⟨rq,hq,rfl⟩
      have hsup : ∀ c,superOf (s.save d r same).store c=superOf s.store c := by
        intro c
        rw [superOf,hget]
        split_ifs with hcd
        · rw [hcd,superOf_eq hd,map_some,hsuper]
        · rfl
      have hatt : ∀ c,c≠d → attributesOf (s.save d r same).store c=attributesOf s.store c := by
        intro c hc
        rw [attributesOf,hget,if_neg hc]
        rfl
      have hnew : (s.save d r same).store.get d=some r := by rw [hget,if_pos rfl]
      refine ⟨fun q rq' c hq' hc => ?_,fun q rq' hq' => ?_,fun q x' hx' => ?_⟩
      · obtain ⟨rq,hq,heq⟩ := hback q rq' hq'
        rw [hsup]
        exact h.child q rq c hq (heq▸hc)
      · obtain ⟨rq,hq,heq⟩ := hback q rq' hq'
        rw [heq]
        exact h.nodup q rq hq
      · rw [hindex] at hx'
        split_ifs at hx' with hdropped hqp
        · subst hqp
          obtain ⟨x,hx,rfl⟩ := map_eq_some_iff.mp hx'
          obtain ⟨rq,hq,hcomplete⟩ := h.index rd.super x hx
          cases hp.symm.trans hq
          obtain ⟨hmem,hkeys⟩ := hfair rd rp hd hp hdropped x hx
          obtain ⟨rp',hrp',hsub'⟩ := hforth rd.super rp hp
          have hdeleted : Complete (s.save d r same).store (rp.sub.erase d)
              (dsindexDeleteDsid x d) :=
            hcomplete.delete
              (fun c => ((h.nodup _ rp hp).mem_erase_iff).trans and_comm)
              fun c hc => hatt c ((h.nodup _ rp hp).mem_erase_iff.mp hc).1
          refine ⟨rp',hrp',hdeleted.insert (fun a ha => ?_) (attributesOf_eq hnew) (fun c => ?_)
            (fun hmem => ((h.nodup _ rp hp).mem_erase_iff.mp hmem).1 rfl) fun c _ => rfl⟩
          · refine (hkeys a ha).imp ((deleteDsid_spec hcomplete.ok d).2.1 a.key).mpr ?_
            intro hnone c hc hcd
            rw [hatt c hcd]
            exact hnone c ((h.nodup _ rp hp).mem_erase_iff.mp hc).2 hcd
          · rw [hsub',(h.nodup _ rp hp).mem_erase_iff]
            by_cases hcd : c=d
            · simp [hcd,hmem]
            · simp [hcd]
        · obtain ⟨rq,hq,hcomplete⟩ := h.index q x' hx'
          obtain ⟨rq',hrq',hsub'⟩ := hforth q rq hq
          refine ⟨rq',hrq',hcomplete.congr (fun c => by rw [hsub']) fun c hc => hatt c fun heq => ?_⟩
          exact hqp (h.parent hq (heq▸hc) hd).symm

end Save

end Darwin.Netinfo
