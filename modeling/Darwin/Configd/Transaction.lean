import Darwin.Configd.SessionRun

/-! The lock as a transaction: what its holder does stays unseen until the lock is released, comes
into effect then, and is thrown away when the holder dies. -/
open List
namespace Darwin.Configd

variable {Key Data : Type} [DecidableEq Key] (env : Environment Key Data)

section Deferred

def Request.Releases : Request Key Data → Prop
  | .unlock | .close | .died => True
  | _ => False

def Request.Rewatches : Request Key Data → Prop
  | .notifyAdd _ _ | .notifyRemove _ _ => True
  | _ => False

/-- Steps of the holder `p` of the lock that change the keys in `K`: other sessions and the saved
cache are left alone, and so is what `p` watches unless `W`. -/
structure Defers (p : MachPort) (W : Prop) (K : Key → Prop) (σ σ' : Server Key Data) : Prop where
  saved : σ'.saved=σ.saved
  isLocked : σ'.isLocked=σ.isLocked
  holds : holdsLock σ' p=holdsLock σ p
  changed : ∀ k,k∈σ'.cache.changedKeys ↔ k∈σ.cache.changedKeys ∨ K k
  info : ∀ q,q≠p → σ'.sessionData q=σ.sessionData q
  needs : ∀ q,q≠p → σ'.needsNotification q=σ.needsNotification q
  others : ∀ q s,q≠p → σ.sessions q=some s → σ'.sessions q=some s
  watches : ¬W → (σ'.sessions p).map SCDSession.watches=(σ.sessions p).map SCDSession.watches

omit [DecidableEq Key] in
lemma Defers.refl (p : MachPort) (W : Prop) {K : Key → Prop} (hK : ∀ k,¬K k)
    (σ : Server Key Data) : Defers p W K σ σ :=
  ⟨rfl,rfl,rfl,fun k => (or_iff_left (hK k)).symm,fun _ _ => rfl,fun _ _ => rfl,
    fun _ _ _ h => h,fun _ => rfl⟩

omit [DecidableEq Key] in
lemma Defers.trans {p : MachPort} {W W' : Prop} {K L : Key → Prop} {σ τ υ : Server Key Data}
    (h : Defers p W K σ τ) (g : Defers p W' L τ υ) :
    Defers p (W ∨ W') (fun k => K k ∨ L k) σ υ where
  saved := g.saved.trans h.saved
  isLocked := g.isLocked.trans h.isLocked
  holds := g.holds.trans h.holds
  changed := fun k => by rw [g.changed k,h.changed k,or_assoc]
  info := fun q hq => (g.info q hq).trans (h.info q hq)
  needs := fun q hq => (g.needs q hq).trans (h.needs q hq)
  others := fun q s hq hs => g.others q s hq (h.others q s hq hs)
  watches := fun hW => (g.watches fun hw => hW (.inr hw)).trans (h.watches fun hw => hW (.inl hw))

omit [DecidableEq Key] in
lemma Defers.mono {p : MachPort} {W W' : Prop} {K L : Key → Prop} {σ τ : Server Key Data}
    (h : Defers p W K σ τ) (hW : W → W') (hK : ∀ k,K k ↔ L k) : Defers p W' L σ τ :=
  { h with
    changed := fun k => (h.changed k).trans (or_congr_right (hK k))
    watches := fun hw => h.watches fun hw' => hw (hW hw')}

omit [DecidableEq Key] in
lemma defers_cacheOnly (p : MachPort) {K : Key → Prop} {σ σ' : Server Key Data}
    (hσ : σ'={σ with cache := σ'.cache})
    (hchanged : ∀ k,k∈σ'.cache.changedKeys ↔ k∈σ.cache.changedKeys ∨ K k) :
    Defers p False K σ σ' := by
  generalize σ'.cache=c at hσ hchanged
  subst hσ
  exact ⟨rfl,rfl,rfl,hchanged,fun _ _ => rfl,fun _ _ => rfl,fun _ _ _ h => h,fun _ => rfl⟩

omit [DecidableEq Key] in
lemma defers_onlyWatches {p : MachPort} {σ σ' : Server Key Data} (h : OnlyWatches p σ σ') :
    Defers p True (fun _ => False) σ σ' where
  saved := h.saved
  isLocked := h.isLocked
  holds := h.holdsLock p
  changed := fun k => by rw [h.lists.1,or_false]
  info := fun q hq => by
    obtain ⟨hkeys,hchanges,hregex⟩ := h.info q
    generalize σ'.sessionData q=a at hkeys hchanges hregex ⊢
    generalize σ.sessionData q=b at hkeys hchanges hregex ⊢
    cases a
    cases b
    simp only [SessionInfo.mk.injEq] at hkeys hchanges hregex ⊢
    exact ⟨hchanges,hkeys,hregex hq⟩
  needs := h.needs
  others := fun q s hq hs => (h.others q hq).trans hs
  watches := fun hw => absurd trivial hw

omit [DecidableEq Key] in
lemma defers_saveCaller {σ : Server Key Data} (m : Message Key Data) :
    Defers m.server False (fun _ => False) σ (saveCaller σ m) where
  saved := saveCaller_saved σ m
  isLocked := (saveCaller_sessionData σ m).2
  holds := holdsLock_saveCaller σ m m.server
  changed := fun k => by rw [saveCaller_cache,or_false]
  info := fun q _ => by rw [(saveCaller_sessionData σ m).1]
  needs := fun q _ => by rw [saveCaller_needs]
  others := fun q s hq hs => (saveCaller_others σ m hq).trans hs
  watches := fun _ => saveCaller_watches σ m m.server

lemma defers_record (σ : Server Key Data) (p : MachPort) (key : Key) :
    Defers p False (fun _ => False) σ (recordSessionKey σ p key) where
  saved := rfl
  isLocked := rfl
  holds := rfl
  changed := fun k => (or_false _).symm▸Iff.rfl
  info := fun q hq => by
    simp only [recordSessionKey]
    split
    · rfl
    · rw [Function.update_of_ne hq]
  needs := fun _ _ => rfl
  others := fun _ _ _ h => h
  watches := fun _ => rfl

omit [DecidableEq Key] in
lemma defers_changes (σ : Server Key Data) (p : MachPort) :
    Defers p False (fun _ => False) σ (scdNotifierGetChanges σ p).2 := by
  unfold scdNotifierGetChanges
  split
  · exact .refl p False (fun _ => id) σ
  · exact ⟨rfl,rfl,rfl,fun k => (or_false _).symm▸Iff.rfl,
      fun q hq => by simp [Server.setInfo,hq],fun _ _ => rfl,fun _ _ _ h => h,fun _ => rfl⟩

omit [DecidableEq Key] in
lemma defers_open {σ : Server Key Data} {p q : MachPort} (hp : p≠q)
    (hnone : σ.sessions q=none) (euid : ℕ) :
    Defers p False (fun _ => False) σ (configopen σ q euid) where
  saved := rfl
  isLocked := rfl
  holds := by
    have hsame : (configopen σ q euid).sessions p=σ.sessions p := by
      simp [configopen,Server.setSession,hp]
    rw [holdsLock,holdsLock,hsame]
  changed := fun k => (or_false _).symm▸Iff.rfl
  info := fun _ _ => rfl
  needs := fun _ _ => rfl
  others := fun r s _ hs => by
    have hne : r≠q := by
      rintro rfl
      rw [hnone] at hs
      cases hs
    simpa [configopen,Server.setSession,hne] using hs
  watches := fun _ => by simp [configopen,Server.setSession,hp]

end Deferred

section Transaction

lemma scdAddEntry_changed (σ : Server Key Data) (p : MachPort) (key : Key)
    (handle : SCDHandle Data) (k : Key) :
    k∈(scdAddEntry env σ p key handle).2.cache.changedKeys ↔ k∈σ.cache.changedKeys ∨
      ((scdAddEntry env σ p key handle).1.1=.ok ∧ k=key) := by
  unfold scdAddEntry
  split
  · exact scdSetEntry_changed env σ p key handle k
  · simp

variable {σ : Server Key Data} {p : MachPort}

lemma serve_held (hok : ServerOk σ) {s : SCDSession Key}
    (hs : σ.sessions p=some s) (hl : σ.isLocked=true) {euid : ℕ}
    {request : Request Key Data} (hne : request≠.open) (hin : ¬request.Releases)
    {r : Reply Key Data × Server Key Data} (hr : serve env σ ⟨p,euid,request⟩=some r) :
    Defers p request.Rewatches (fun k => keyEvent k ⟨p,euid,request⟩ r.1≠none) σ r.2 := by
  have hcaller := defers_saveCaller (σ := σ) ⟨p,euid,request⟩
  have hlocked : (saveCaller σ ⟨p,euid,request⟩).isLocked=true := hcaller.isLocked.trans hl
  have hc : CacheOk (saveCaller σ ⟨p,euid,request⟩).cache := (hok.saveCaller _).cache
  obtain ⟨s',hs'⟩ : ∃ s',(saveCaller σ ⟨p,euid,request⟩).sessions p=some s' := by
    have hmap := saveCaller_watches σ ⟨p,euid,request⟩ p
    rw [hs] at hmap
    obtain ⟨s',hs',-⟩ := Option.map_eq_some_iff.mp hmap
    exact ⟨s',hs'⟩
  -- every case below says what the request does after the caller has been noted
  have hstep : ∀ {W : Prop} {K : Key → Prop},
      Defers p W K (saveCaller σ ⟨p,euid,request⟩) r.2 → (W → request.Rewatches) →
      (∀ k,K k ↔ keyEvent k ⟨p,euid,request⟩ r.1≠none) →
      Defers p request.Rewatches (fun k => keyEvent k ⟨p,euid,request⟩ r.1≠none) σ r.2 := by
    intro W K h hW hK
    refine (hcaller.trans h).mono (fun hw => hW (hw.resolve_left id)) fun k => ?_
    rw [false_or]
    exact hK k
  have hquiet : (∀ k,request.event k=none) → ∀ k,
      False ↔ keyEvent k ⟨p,euid,request⟩ r.1≠none := fun he k =>
    (iff_false_intro (not_not.mpr (keyEvent_none (he k) _))).symm
  cases request with
  | «open» => exact absurd rfl hne
  | close => exact absurd trivial hin
  | died => exact absurd trivial hin
  | unlock => exact absurd trivial hin
  | lock =>
    cases hr
    refine hstep (W := False) (K := fun _ => False) ?_ False.elim (hquiet fun _ => rfl)
    have hsame : (scdLock (saveCaller σ ⟨p,euid,.lock⟩) p).2=saveCaller σ ⟨p,euid,.lock⟩ := by
      simp [scdLock,hs',hlocked]
    simp only [statusReply,hsame]
    exact .refl p False (fun _ => id) _
  | get key =>
    cases hr
    exact hstep (.refl p False (fun _ => id) _) False.elim (hquiet fun _ => rfl)
  | add key data =>
    have hadd : scdAdd env (saveCaller σ ⟨p,euid,.add key data⟩) p key ⟨data,0⟩ =
        scdAddEntry env (saveCaller σ ⟨p,euid,.add key data⟩) p key ⟨data,0⟩ := by
      rw [scdAdd_eq,withLock_locked env hs' hlocked]
    simp only [serve,hadd] at hr
    cases hr
    exact hstep (defers_cacheOnly p (scdAddEntry_cacheOnly env p key _ _)
      (scdAddEntry_changed env _ p key _)) False.elim fun k => by
        simp [keyEvent,Request.event,handleReply,eq_comm]
  | addSession key data =>
    have hadd : scdAdd env (saveCaller σ ⟨p,euid,.addSession key data⟩) p key ⟨data,0⟩ =
        scdAddEntry env (saveCaller σ ⟨p,euid,.addSession key data⟩) p key ⟨data,0⟩ := by
      rw [scdAdd_eq,withLock_locked env hs' hlocked]
    have hentry := defers_cacheOnly p
      (scdAddEntry_cacheOnly env p key ⟨data,0⟩ (saveCaller σ ⟨p,euid,.addSession key data⟩))
      (scdAddEntry_changed env _ p key _)
    simp only [serve,scdAddSession_eq,hadd] at hr
    by_cases hst : (scdAddEntry env (saveCaller σ ⟨p,euid,.addSession key data⟩) p key
        ⟨data,0⟩).1.1=.ok
    · rw [if_pos hst] at hr
      cases hr
      exact hstep (hentry.trans (defers_record _ p key)) (fun hw => hw.elim False.elim False.elim)
        fun k => by simp [keyEvent,Request.event,handleReply,eq_comm]
    · rw [if_neg hst] at hr
      cases hr
      exact hstep hentry False.elim fun k => by simp [keyEvent,Request.event,handleReply,eq_comm]
  | set key handle =>
    have hset : scdSet env (saveCaller σ ⟨p,euid,.set key handle⟩) p key handle =
        scdSetEntry env (saveCaller σ ⟨p,euid,.set key handle⟩) p key handle := by
      rw [scdSet,withLock_locked env hs' hlocked]
    simp only [serve,hset] at hr
    cases hr
    exact hstep (defers_cacheOnly p (scdSetEntry_cacheOnly env p key _ _)
      (scdSetEntry_changed env _ p key _)) False.elim fun k => by
        simp [keyEvent,Request.event,handleReply,eq_comm]
  | touch key now =>
    have htouch : scdTouch env (saveCaller σ ⟨p,euid,.touch key now⟩) p key now =
        scdTouchEntry env (saveCaller σ ⟨p,euid,.touch key now⟩) p key now := by
      rw [scdTouch_eq,withLock_locked env hs' hlocked]
    simp only [serve,htouch] at hr
    cases hr
    refine hstep (defers_cacheOnly p (K := (·=key)) (scdTouchEntry_cacheOnly env p key now _)
      fun k => ?_) False.elim fun k => ?_
    · change k∈(scdTouchEntry env (saveCaller σ ⟨p,euid,.touch key now⟩) p key
        now).2.cache.changedKeys ↔ _
      rw [scdTouchEntry,scdSetEntry_ok env (accepts_touchHandle env hc key now)]
      exact setCache_changed env _ p key _ k
    · simp [keyEvent,Request.event,statusReply,scdTouchEntry,eq_comm]
  | remove key =>
    have hremove : scdRemove env (saveCaller σ ⟨p,euid,.remove key⟩) p key =
        scdRemoveEntry (saveCaller σ ⟨p,euid,.remove key⟩) key := by
      rw [scdRemove,withLock_locked env hs' hlocked]
    simp only [serve,hremove] at hr
    cases hr
    exact hstep (defers_cacheOnly p (scdRemoveEntry_cacheOnly key _)
      (scdRemoveEntry_changed _ key)) False.elim fun k => by
        simp [keyEvent,Request.event,statusReply,eq_comm]
  | notifyAdd key regex =>
    cases hr
    exact hstep (defers_onlyWatches (scdNotifierAdd_onlyWatches env _ p key regex))
      (fun _ => trivial) (hquiet fun _ => rfl)
  | notifyRemove key regex =>
    simp only [serve,Option.map_eq_some_iff] at hr
    obtain ⟨r₀,hremove,rfl⟩ := hr
    exact hstep (defers_onlyWatches (scdNotifierRemove_onlyWatches env hremove))
      (fun _ => trivial) (hquiet fun _ => rfl)
  | notifyChanges =>
    cases hr
    exact hstep (defers_changes _ p) False.elim (hquiet fun _ => rfl)

omit [DecidableEq Key] in
lemma receives_held (hok : ServerOk σ)
    (hl : σ.isLocked=true) (hp : holdsLock σ p=true) {m : Message Key Data}
    (hreceives : receives σ m=true) : m.request=.open ∨ m.server=p := by
  by_cases hne : m.request=.open
  · exact .inl hne
  · obtain ⟨s,hs,hlock⟩ := receives_session hreceives hne hok
    obtain ⟨t,ht,hm⟩ : ∃ t,σ.sessions p=some t ∧ t.isLocked=true := by
      cases ht : σ.sessions p with
      | none => simp [holdsLock,ht] at hp
      | some t => exact ⟨t,rfl,(holdsLock_of_session ht).symm.trans hp⟩
    exact .inr (hok.holder m.server p s t hs ht (hlock.trans hl) hm)

lemma serve_defers (hok : ServerOk σ)
    (hl : σ.isLocked=true) (hp : holdsLock σ p=true) {m : Message Key Data}
    (hreceives : receives σ m=true) (hin : ¬m.request.Releases)
    {r : Reply Key Data × Server Key Data} (hr : serve env σ m=some r) :
    Defers p m.request.Rewatches (fun k => keyEvent k m r.1≠none) σ r.2 := by
  obtain ⟨s,hs⟩ : ∃ s,σ.sessions p=some s := by
    cases hs : σ.sessions p with
    | none => simp [holdsLock,hs] at hp
    | some s => exact ⟨s,rfl⟩
  have hwho := receives_held hok hl hp hreceives
  obtain ⟨q,euid,request⟩ := m
  by_cases hne : request=.open
  · subst hne
    have hnone : σ.sessions q=none := by simpa [receives] using hreceives
    have hpq : p≠q := by
      rintro rfl
      rw [hnone] at hs
      cases hs
    have hsame : saveCaller σ ⟨q,euid,.open⟩=σ := by simp [saveCaller,hnone]
    simp only [serve,hsame] at hr
    cases hr
    exact (defers_open hpq hnone euid).mono False.elim fun k =>
      (iff_false_intro (not_not.mpr (keyEvent_none rfl _))).symm
  · obtain rfl : q=p := hwho.resolve_left hne
    exact serve_held env hok hs hl hne hin hr

lemma serveAll_defers (hok : ServerOk σ)
    (hl : σ.isLocked=true) (hp : holdsLock σ p=true) {ms : List (Message Key Data)}
    (hin : ∀ m∈ms,¬m.request.Releases) {rs : List (Reply Key Data)} {σ' : Server Key Data}
    (hr : serveAll env σ ms=some (rs,σ')) :
    Defers p (∃ m∈ms,m.request.Rewatches) (fun k => keyEvents k ms rs≠[]) σ σ' := by
  induction ms generalizing σ rs with
  | nil =>
    cases hr
    exact .refl p _ (fun k h => h rfl) _
  | cons m ms ih =>
    simp only [serveAll] at hr
    split at hr
    · rename_i hreceives
      simp only [Option.bind_eq_some_iff,Option.map_eq_some_iff] at hr
      obtain ⟨r,hone,⟨rs',σ''⟩,hrest,heq⟩ := hr
      cases heq
      have hstep := serve_defers env hok hl hp hreceives (hin m mem_cons_self) hone
      have htail := ih (serve_serverOk env hok m hone) (hstep.isLocked.trans hl)
        (hstep.holds.trans hp) (fun m' hm' => hin m' (mem_cons_of_mem m hm')) hrest
      refine (hstep.trans htail).mono ?_ fun k => ?_
      · rintro (hw | ⟨m',hm',hw⟩)
        · exact ⟨m,mem_cons_self,hw⟩
        · exact ⟨m',mem_cons_of_mem m hm',hw⟩
      · simp only [keyEvents,zip_cons_cons,filterMap_cons]
        cases he : keyEvent k m r.1 with
        | none => simp only [ne_eq,not_true_eq_false,false_or]
        | some e => exact iff_of_true (.inl (Option.some_ne_none e)) (cons_ne_nil _ _)
    · cases hr

/-- What others see of the holder's changes before the lock is released: nothing. -/
structure Uncommitted (p : MachPort) (σ τ : Server Key Data) : Prop where
  heard : ∀ m,receives τ m=true → m.request=.open ∨ m.server=p
  info : ∀ q,q≠p → τ.sessionData q=σ.sessionData q
  needs : ∀ q,q≠p → τ.needsNotification q=σ.needsNotification q
  others : ∀ q s,q≠p → σ.sessions q=some s → τ.sessions q=some s

/-- The release of the lock: every entry stays as the holder left it, and the watchers of the
changed keys, and nobody else, are told now. -/
structure Committed (τ ρ : Server Key Data) : Prop where
  entries : ∀ k,(ρ.cache.cacheData k).data=(τ.cache.cacheData k).data ∧
    (ρ.cache.cacheData k).inst=(τ.cache.cacheData k).inst ∧
    (ρ.cache.cacheData k).session=(τ.cache.cacheData k).session
  changes : ∀ q k,k∈(ρ.sessionData q).changedKeys ↔ k∈(τ.sessionData q).changedKeys ∨
    (k∈τ.cache.changedKeys ∧ 0<(τ.cache.cacheData k).watchers q)
  needs : ∀ q,ρ.needsNotification q=true ↔ τ.needsNotification q=true ∨
    ∃ k∈τ.cache.changedKeys,0<(τ.cache.cacheData k).watchers q
  lists : ρ.cache.changedKeys=[] ∧ ρ.cache.deferredRemovals=[] ∧ ρ.cache.removedSessionKeys=[]
  isLocked : ρ.isLocked=false

lemma serve_unlock (hok : ServerOk σ)
    (hl : σ.isLocked=true) (hp : holdsLock σ p=true) (euid : ℕ) :
    ∃ r,serve env σ ⟨p,euid,.unlock⟩=some r ∧ r.1.status=.ok ∧ Committed σ r.2 := by
  obtain ⟨hdata,hlocked⟩ := saveCaller_sessionData σ ⟨p,euid,.unlock⟩
  have hcache := saveCaller_cache σ ⟨p,euid,.unlock⟩
  have hneeds := saveCaller_needs σ ⟨p,euid,.unlock⟩
  have hholds := holdsLock_saveCaller σ ⟨p,euid,.unlock⟩ p
  have hc : CacheOk (saveCaller σ ⟨p,euid,.unlock⟩).cache := (hok.saveCaller _).cache
  simp only [serve]
  generalize saveCaller σ ⟨p,euid,.unlock⟩=τ at hdata hlocked hcache hneeds hholds hc ⊢
  rw [hp] at hholds
  obtain ⟨s,hs,hm⟩ : ∃ s,τ.sessions p=some s ∧ s.isLocked=true := by
    cases hs : τ.sessions p with
    | none => simp [holdsLock,hs] at hholds
    | some s => exact ⟨s,rfl,(holdsLock_of_session hs).symm.trans hholds⟩
  refine ⟨_,rfl,?_,?_⟩
  · rw [statusReply,scdUnlock_held env hs (hlocked.trans hl) hm]
  · rw [statusReply,scdUnlock_held env hs (hlocked.trans hl) hm]
    refine ⟨fun k => ?_,fun q k => ?_,fun q => ?_,commit_lists env τ,rfl⟩
    · obtain ⟨hsession,hdata',hinst⟩ := commit_session env hc k
      rw [←hcache]
      exact ⟨hdata',hinst,hsession⟩
    · rw [Server.freed,commit_changes,mem_appendNew,decide_eq_true_iff,hcache,hdata]
    · rw [Server.freed,commit_needsNotification,hcache,hneeds]

omit [DecidableEq Key] in
lemma scdLock_ok (hst : (scdLock σ p).1=.ok) :
    σ.isLocked=false ∧ ∃ s,σ.sessions p=some s ∧ (scdLock σ p).2=σ.held p s := by
  cases hs : σ.sessions p with
  | none => simp [scdLock,hs] at hst
  | some s =>
    cases hl : σ.isLocked with
    | true => simp [scdLock,hs,hl] at hst
    | false =>
      by_cases hu : s.callerEUID=0
      · exact ⟨rfl,s,rfl,by rw [scdLock_taken hs hl hu]⟩
      · rw [scdLock_denied hs hl hu] at hst
        cases hst

lemma removeNotifications_keys_some (σ : Server Key Data) (p : MachPort) (keys : List Key) :
    ∃ σ',removeNotifications env p false σ keys=some σ' := by
  induction keys generalizing σ with
  | nil => exact ⟨σ,rfl⟩
  | cons key keys ih =>
    obtain ⟨r,hr⟩ : ∃ r,scdNotifierRemove env σ p key false=some r := by
      unfold scdNotifierRemove
      split
      · exact ⟨_,rfl⟩
      · simp only [Bool.false_eq_true,if_false]
        split <;> exact ⟨_,rfl⟩
    obtain ⟨σ',hσ'⟩ := ih r.2
    exact ⟨σ',by simpa [removeNotifications,hr] using hσ'⟩

lemma removeNotifications_reKeys_some {s : SCDSession Key}
    (hs : σ.sessions p=some s) (hc : s.reKeys.Subperm (σ.sessionData p).regexKeys) :
    ∃ σ',removeNotifications env p true σ s.reKeys=some σ' := by
  generalize hkeys : s.reKeys=keys at hc ⊢
  induction keys generalizing σ s with
  | nil => exact ⟨σ,rfl⟩
  | cons key keys ih =>
    have hmem : key∈s.reKeys := by simp [hkeys]
    have hinfo : key∈(σ.sessionData p).regexKeys := hc.subset mem_cons_self
    have hremove : scdNotifierRemove env σ p key true =
        some (.ok,unwatchPattern env σ p s key) := by
      simp [scdNotifierRemove,hs,hmem,Server.setSession,unwatchPattern,hinfo]
    have hself : (unwatchPattern env σ p s key).sessions p=some {s with reKeys := keys} := by
      simp [unwatchPattern,Server.setInfo,Server.applyCache,Server.setSession,hkeys]
    have hsub : keys.Subperm ((unwatchPattern env σ p s key).sessionData p).regexKeys := by
      have herase := hc.erase key
      rw [erase_cons_head] at herase
      simpa [unwatchPattern,Server.setInfo] using herase
    obtain ⟨σ',hσ'⟩ := ih hself rfl hsub
    exact ⟨σ',by simpa [removeNotifications,hremove] using hσ'⟩

lemma scdClose_returns {s : SCDSession Key}
    (hs : σ.sessions p=some s) (hc : s.reKeys.Subperm (σ.sessionData p).regexKeys) :
    ∃ r,scdClose env σ p=some r := by
  obtain ⟨σ₁,h₁⟩ := removeNotifications_keys_some env σ p s.keys
  obtain ⟨hs₁,hdata,-⟩ := removeNotifications_keys env hs h₁
  obtain ⟨σ₂,h₂⟩ := removeNotifications_reKeys_some env (s := {s with keys := []}) hs₁
    (by rw [hdata]; exact hc)
  simp only [scdClose,hs,h₁,h₂,Option.bind_eq_bind,Option.bind_some]
  exact ⟨_,rfl⟩

def watchedKey : List (Message String String) :=
  [⟨1,0,.open⟩,⟨2,0,.open⟩,⟨2,0,.notifyAdd "State:/en0" false⟩]

end Transaction

end Darwin.Configd
