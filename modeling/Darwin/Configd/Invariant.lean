import Darwin.Configd.Effects
import Mathlib.Data.List.Nodup

/-! Every request keeps the lists of the server in order, and leaves them empty while the cache is
not locked. -/
open Function Option List
namespace Darwin.Configd

variable {Key Data : Type} [DecidableEq Key] (env : Environment Key Data)

section CacheOk

/-- The lists have no repetitions, a key has an instance exactly when it has data, and only a key
with data has an owner. -/
structure CacheOk (c : Cache Key Data) : Prop where
  changed : c.changedKeys.Nodup
  deferred : c.deferredRemovals.Nodup
  entries : ∀ k,(c.cacheData k).data.isSome=(c.cacheData k).inst.isSome
  marked : ∀ k p,(c.cacheData k).session=some p → (c.cacheData k).data.isSome=true

omit [DecidableEq Key] in
lemma cacheOk_empty : CacheOk (Cache.empty : Cache Key Data) :=
  ⟨nodup_nil,nodup_nil,fun _ => rfl,fun _ _ h => by cases h⟩

variable {σ : Server Key Data}

lemma cacheOk_setCache (h : CacheOk σ.cache) (session : MachPort)
    (key : Key) (data : Data) : CacheOk (setCache env σ session key data) := by
  obtain ⟨hchanged,hdeferred,-⟩ := setCache_lists env σ session key data
  refine ⟨?_,?_,?_,?_⟩
  · rw [hchanged]
    exact List.Nodup.insert h.changed
  · rw [hdeferred]
    split
    · exact h.deferred.erase key
    · exact h.deferred
  · intro k
    rw [setCache_cacheData]
    by_cases hk : k=key
    · subst k
      rw [update_self]
      split <;> rfl
    · rw [update_of_ne hk]
      exact h.entries k
  · intro k p hp
    rw [setCache_cacheData] at hp ⊢
    by_cases hk : k=key
    · subst k
      rw [update_self]
      split <;> rfl
    · rw [update_of_ne hk] at hp ⊢
      exact h.marked k p hp

lemma cacheOk_removeCache {c : Cache Key Data} (h : CacheOk c) (key : Key) :
    CacheOk (removeCache c key) := by
  refine ⟨List.Nodup.insert h.changed,List.Nodup.insert h.deferred,fun k => ?_,fun k p hp => ?_⟩
  · by_cases hk : k=key
    · subst k
      simp [removeCache]
    · simp only [removeCache,update_of_ne hk]
      exact h.entries k
  · by_cases hk : k=key
    · subst k
      simp [removeCache] at hp
    · simp only [removeCache,update_of_ne hk] at hp ⊢
      exact h.marked k p hp

lemma cacheOk_commit (h : CacheOk σ.cache) : CacheOk (commit env σ).cache := by
  obtain ⟨hchanged,hdeferred,-⟩ := commit_lists env σ
  refine ⟨?_,?_,?_,?_⟩
  · rw [hchanged]
    exact nodup_nil
  · rw [hdeferred]
    exact nodup_nil
  · intro k
    rw [commit_cacheData env σ h.deferred]
    split
    · exact h.entries k
    · exact h.entries k
  · intro k p
    rw [commit_cacheData env σ h.deferred]
    split
    · exact h.marked k p
    · exact h.marked k p

omit [DecidableEq Key] in
lemma CacheOk.applyCache (h : CacheOk σ.cache)
    {f : Key → CacheEntry Data → CacheEntry Data}
    (hf : ∀ k e,(f k e).data=e.data ∧ (f k e).inst=e.inst ∧ (f k e).session=e.session) :
    CacheOk (σ.applyCache f).cache := by
  refine ⟨h.changed,h.deferred,fun k => ?_,fun k p => ?_⟩
  · change (f k (σ.cache.cacheData k)).data.isSome=(f k (σ.cache.cacheData k)).inst.isSome
    rw [(hf k _).1,(hf k _).2.1]
    exact h.entries k
  · change (f k (σ.cache.cacheData k)).session=some p → (f k (σ.cache.cacheData k)).data.isSome=true
    rw [(hf k _).1,(hf k _).2.2]
    exact h.marked k p

lemma CacheOk.modify {c : Cache Key Data} (h : CacheOk c) (key : Key)
    {f : CacheEntry Data → CacheEntry Data}
    (hf : ∀ e,(f e).data=e.data ∧ (f e).inst=e.inst)
    (hmarked : ∀ e p,(f e).session=some p → e.session=some p ∨ (c.cacheData key).data.isSome) :
    CacheOk (c.modify key f) := by
  refine ⟨h.changed,h.deferred,fun k => ?_,fun k p hp => ?_⟩
  · by_cases hk : k=key
    · rw [hk,modify_self,(hf _).1,(hf _).2]
      exact h.entries key
    · rw [modify_other c f hk]
      exact h.entries k
  · by_cases hk : k=key
    · rw [hk,modify_self] at hp ⊢
      rw [(hf _).1]
      exact (hmarked _ p hp).elim (h.marked key p) id
    · rw [modify_other c f hk] at hp ⊢
      exact h.marked k p hp

lemma cacheOk_scdSetEntry (h : CacheOk σ.cache) (session : MachPort)
    (key : Key) (handle : SCDHandle Data) :
    CacheOk (scdSetEntry env σ session key handle).2.cache := by
  by_cases ha : Accepts (σ.cache.cacheData key) handle
  · rw [scdSetEntry_ok env ha]
    exact cacheOk_setCache env h session key handle.data
  · rw [scdSetEntry_stale env ha]
    exact h

lemma cacheOk_scdAddEntry (h : CacheOk σ.cache) (session : MachPort)
    (key : Key) (handle : SCDHandle Data) :
    CacheOk (scdAddEntry env σ session key handle).2.cache := by
  unfold scdAddEntry
  split
  · exact cacheOk_scdSetEntry env h session key handle
  · exact h

lemma cacheOk_scdRemoveEntry (h : CacheOk σ.cache) (key : Key) :
    CacheOk (scdRemoveEntry σ key).2.cache := by
  rw [scdRemoveEntry_eq]
  split
  · exact h
  · exact cacheOk_removeCache h key

end CacheOk

section ServerOk
variable {α : Type}

/-- Nothing is pending while the cache is not locked, and at most one session holds the lock. -/
structure ServerOk (σ : Server Key Data) : Prop where
  cache : CacheOk σ.cache
  saved : CacheOk σ.saved
  idle : σ.isLocked=false → σ.cache.changedKeys=[] ∧ σ.cache.deferredRemovals=[] ∧
    σ.cache.removedSessionKeys=[]
  free : σ.isLocked=false → ∀ p s,σ.sessions p=some s → s.isLocked=false
  holder : ∀ p q s t,σ.sessions p=some s → σ.sessions q=some t → s.isLocked=true →
    t.isLocked=true → p=q

omit [DecidableEq Key] in
lemma serverOk_initial : ServerOk (Server.initial : Server Key Data) where
  cache := cacheOk_empty
  saved := cacheOk_empty
  idle := fun _ => ⟨rfl,rfl,rfl⟩
  free := fun _ _ _ h => by cases h
  holder := fun _ _ _ _ h => by cases h

variable {σ : Server Key Data}

omit [DecidableEq Key] in
lemma ServerOk.setSession (h : ServerOk σ) (p : MachPort)
    {s : Option (SCDSession Key)}
    (hs : ∀ t,s=some t → t.isLocked=true → ∃ t₀,σ.sessions p=some t₀ ∧ t₀.isLocked=true) :
    ServerOk (σ.setSession p s) := by
  have hflag : ∀ q t,(σ.setSession p s).sessions q=some t → t.isLocked=true →
      ∃ t₀,σ.sessions q=some t₀ ∧ t₀.isLocked=true := by
    intro q t hq ht
    by_cases hp : q=p
    · subst q
      exact hs t (by simpa [Server.setSession] using hq) ht
    · exact ⟨t,by simpa [Server.setSession,hp] using hq,ht⟩
  refine ⟨h.cache,h.saved,h.idle,?_,?_⟩
  · intro hl q t hq
    cases ht : t.isLocked with
    | false => rfl
    | true =>
      obtain ⟨t₀,h₀,ht₀⟩ := hflag q t hq ht
      exact absurd (h.free hl q t₀ h₀) (by simp [ht₀])
  · intro q r t u hq hr ht hu
    obtain ⟨t₀,h₀,ht₀⟩ := hflag q t hq ht
    obtain ⟨u₀,h₁,hu₀⟩ := hflag r u hr hu
    exact h.holder q r t₀ u₀ h₀ h₁ ht₀ hu₀

omit [DecidableEq Key] in
lemma ServerOk.setInfo (h : ServerOk σ) (p : MachPort)
    (info : SessionInfo Key) : ServerOk (σ.setInfo p info) :=
  ⟨h.cache,h.saved,h.idle,h.free,h.holder⟩

omit [DecidableEq Key] in
lemma ServerOk.setCache (h : ServerOk σ) {c : Cache Key Data}
    (hc : CacheOk c) (hchanged : c.changedKeys=σ.cache.changedKeys)
    (hdeferred : c.deferredRemovals=σ.cache.deferredRemovals)
    (hremoved : c.removedSessionKeys=σ.cache.removedSessionKeys) :
    ServerOk {σ with cache := c} := by
  refine ⟨hc,h.saved,?_,h.free,h.holder⟩
  intro hl
  change c.changedKeys=[] ∧ c.deferredRemovals=[] ∧ c.removedSessionKeys=[]
  rw [hchanged,hdeferred,hremoved]
  exact h.idle hl

omit [DecidableEq Key] in
lemma ServerOk.setCache_locked (h : ServerOk σ) (hl : σ.isLocked=true)
    {c : Cache Key Data} (hc : CacheOk c) : ServerOk {σ with cache := c} :=
  ⟨hc,h.saved,fun hf => absurd (hl.symm.trans hf) Bool.noConfusion,h.free,h.holder⟩

omit [DecidableEq Key] in
lemma ServerOk.held (h : ServerOk σ) (hl : σ.isLocked=false)
    (p : MachPort) (s : SCDSession Key) : ServerOk (σ.held p s) := by
  have honly : ∀ q t,(σ.held p s).sessions q=some t → t.isLocked=true → q=p := by
    intro q t hq ht
    by_contra hne
    have := h.free hl q t (by simpa [Server.held,hne] using hq)
    simp [this] at ht
  refine ⟨h.cache,h.cache,fun h => Bool.noConfusion h,fun h => Bool.noConfusion h,?_⟩
  intro q r t u hq hr ht hu
  exact (honly q t hq ht).trans (honly r u hr hu).symm

lemma ServerOk.freed_commit (h : ServerOk σ) {p : MachPort}
    {s : SCDSession Key} (hs : σ.sessions p=some s) (hm : s.isLocked=true) :
    ServerOk ((commit env σ).freed p s) := by
  have hfree : ∀ q t,((commit env σ).freed p s).sessions q=some t → t.isLocked=false := by
    intro q t hq
    by_cases hne : q=p
    · subst q
      simp only [Server.freed,update_self,some.injEq] at hq
      rw [←hq]
    · rw [Server.freed,commit_sessions] at hq
      simp only [update_of_ne hne] at hq
      cases ht : t.isLocked with
      | false => rfl
      | true => exact absurd (h.holder q p t s hq hs ht hm) hne
  refine ⟨cacheOk_commit env h.cache,?_,fun _ => commit_lists env σ,fun _ => hfree,?_⟩
  · rw [Server.freed,commit_saved]
    exact cacheOk_empty
  · intro q r t u hq _ ht
    exact absurd (hfree q t hq) (by simp [ht])

omit [DecidableEq Key] in
lemma ServerOk.swap (h : ServerOk σ) (hl : σ.isLocked=true) : ServerOk (swapLockedCacheData σ) :=
  ⟨h.saved,h.cache,fun hf => absurd (hl.symm.trans hf) Bool.noConfusion,h.free,h.holder⟩

omit [DecidableEq Key] in
lemma ServerOk.scdLock (h : ServerOk σ) (p : MachPort) : ServerOk (scdLock σ p).2 := by
  cases hs : σ.sessions p with
  | none => simpa [Configd.scdLock,hs] using h
  | some s =>
    cases hl : σ.isLocked with
    | true => simpa [Configd.scdLock,hs,hl] using h
    | false =>
      by_cases hu : s.callerEUID=0
      · rw [scdLock_taken hs hl hu]
        exact h.held hl p s
      · rw [scdLock_denied hs hl hu]
        exact h

lemma ServerOk.scdUnlock (h : ServerOk σ) (p : MachPort) : ServerOk (scdUnlock env σ p).2 := by
  cases hs : σ.sessions p with
  | none => simpa [Configd.scdUnlock,hs] using h
  | some s =>
    cases hl : σ.isLocked with
    | false =>
      rw [scdUnlock_free env hs (.inl hl)]
      exact h
    | true =>
      cases hm : s.isLocked with
      | false =>
        rw [scdUnlock_free env hs (.inr hm)]
        exact h
      | true =>
        rw [scdUnlock_held env hs hl hm]
        exact h.freed_commit env hs hm

lemma ServerOk.withLock (h : ServerOk σ) (p : MachPort)
    (fail : SCDStatus → α) {body : Server Key Data → α × Server Key Data}
    (hb : CacheOnly body) (hc : ∀ τ,CacheOk τ.cache → CacheOk (body τ).2.cache) :
    ServerOk (withLock env σ p fail body).2 := by
  cases hs : σ.sessions p with
  | none =>
    rw [withLock_none env hs]
    exact h
  | some s =>
    cases hl : σ.isLocked with
    | true =>
      rw [withLock_locked env hs hl,hb]
      exact h.setCache_locked hl (hc σ h.cache)
    | false =>
      rw [withLock_free env hs hl fail hb]
      split
      · have hheld := h.held hl p s
        have hbody : ServerOk (body (σ.held p s)).2 := by
          rw [hb]
          exact hheld.setCache_locked rfl (hc _ hheld.cache)
        have hsession : (body (σ.held p s)).2.sessions p=some {s with isLocked := true} := by
          rw [hb]
          simp [Server.held]
        exact hbody.freed_commit env hsession rfl
      · exact h

end ServerOk

section Requests

variable {σ : Server Key Data} {r : SCDStatus × Server Key Data}

lemma ServerOk.scdSet (h : ServerOk σ) (p : MachPort) (key : Key)
    (handle : SCDHandle Data) : ServerOk (scdSet env σ p key handle).2 :=
  h.withLock env p _ (scdSetEntry_cacheOnly env p key handle)
    fun _ hc => cacheOk_scdSetEntry env hc p key handle

lemma ServerOk.scdAdd (h : ServerOk σ) (p : MachPort) (key : Key)
    (handle : SCDHandle Data) : ServerOk (scdAdd env σ p key handle).2 := by
  rw [scdAdd_eq]
  exact h.withLock env p _ (scdAddEntry_cacheOnly env p key handle)
    fun _ hc => cacheOk_scdAddEntry env hc p key handle

lemma ServerOk.scdTouch (h : ServerOk σ) (p : MachPort) (key : Key)
    (now : Data) : ServerOk (scdTouch env σ p key now).2 := by
  rw [scdTouch_eq]
  exact h.withLock env p _ (scdTouchEntry_cacheOnly env p key now)
    fun _ hc => cacheOk_scdSetEntry env hc p key _

lemma ServerOk.scdRemove (h : ServerOk σ) (p : MachPort) (key : Key) :
    ServerOk (scdRemove env σ p key).2 :=
  h.withLock env p _ (scdRemoveEntry_cacheOnly key) fun _ hc => cacheOk_scdRemoveEntry hc key

def recordSessionKey (σ : Server Key Data) (session : MachPort) (key : Key) : Server Key Data :=
  let info := σ.sessionData session
  let sessionData :=
    if info.sessionKeys.contains key then σ.sessionData
    else update σ.sessionData session
      {info with sessionKeys := info.sessionKeys++[key]}
  { σ with
    sessionData := sessionData
    cache := σ.cache.modify key fun dict => {dict with session := some session}}

lemma scdAddSession_eq (σ : Server Key Data) (session : MachPort) (key : Key)
    (handle : SCDHandle Data) : scdAddSession env σ session key handle =
      if (scdAdd env σ session key handle).1.1=.ok then
        ((scdAdd env σ session key handle).1,
          recordSessionKey (scdAdd env σ session key handle).2 session key)
      else scdAdd env σ session key handle := by
  rcases hadd : Configd.scdAdd env σ session key handle with ⟨⟨status,handle'⟩,σ'⟩
  cases status <;> simp [Configd.scdAddSession,hadd,recordSessionKey]

lemma ServerOk.recordSessionKey (h : ServerOk σ) (p : MachPort)
    {key : Key} (hd : (σ.cache.cacheData key).data.isSome=true) :
    ServerOk (recordSessionKey σ p key) :=
  ⟨h.cache.modify key (f := fun dict => {dict with session := some p}) (fun _ => ⟨rfl,rfl⟩)
      fun _ _ _ => .inr hd,
    h.saved,h.idle,h.free,h.holder⟩

lemma scdAddEntry_data {p : MachPort} {key : Key} {handle : SCDHandle Data}
    (hst : (scdAddEntry env σ p key handle).1.1=.ok) :
    ((scdAddEntry env σ p key handle).2.cache.cacheData key).data.isSome=true := by
  unfold scdAddEntry at hst ⊢
  split
  · by_cases ha : Accepts (σ.cache.cacheData key) handle
    · rw [scdSetEntry_ok env ha,setCache_cacheData,update_self]
      split <;> rfl
    · rename_i hnone
      rw [if_pos hnone,scdSetEntry_stale env ha] at hst
      cases hst
  · rename_i hnone
    rw [if_neg hnone] at hst
    cases hst

lemma scdAdd_data (h : ServerOk σ) {p : MachPort} {key : Key}
    {handle : SCDHandle Data} (hst : (scdAdd env σ p key handle).1.1=.ok) :
    ((scdAdd env σ p key handle).2.cache.cacheData key).data.isSome=true := by
  rw [scdAdd_eq] at hst ⊢
  rcases withLock_cases env σ p (fun status => (status,handle))
    (scdAddEntry_cacheOnly env p key handle) with ⟨-,st,hne,-,heq⟩ | ⟨-,-,heq⟩ | ⟨-,-,s,-,heq⟩
  · rw [heq] at hst
    exact absurd hst hne
  · rw [heq] at hst ⊢
    exact scdAddEntry_data env hst
  · rw [heq] at hst ⊢
    have hc := cacheOk_scdAddEntry env (σ := σ.held p s) h.cache p key handle
    have hdata := scdAddEntry_data env hst
    rw [Server.freed,commit_cacheData env _ hc.deferred]
    split
    · exact hdata
    · exact hdata

lemma ServerOk.scdAddSession (h : ServerOk σ) (p : MachPort) (key : Key)
    (handle : SCDHandle Data) : ServerOk (scdAddSession env σ p key handle).2 := by
  rw [scdAddSession_eq]
  have hadd := h.scdAdd env p key handle
  split
  · rename_i hst
    exact hadd.recordSessionKey p (scdAdd_data env h hst)
  · exact hadd

lemma ServerOk.scdNotifierAdd (h : ServerOk σ) (p : MachPort) (key : Key)
    (regex : Bool) : ServerOk (scdNotifierAdd env σ p key regex).2 := by
  cases hs : σ.sessions p with
  | none => simpa [Configd.scdNotifierAdd,hs] using h
  | some s =>
    have hkeep : ∀ s',s'.isLocked=s.isLocked → ServerOk (σ.setSession p (some s')) := by
      intro s' hs'
      refine h.setSession p fun t ht hm => ⟨s,hs,?_⟩
      cases ht
      exact hs'.symm.trans hm
    simp only [Configd.scdNotifierAdd,hs]
    split
    · split
      · exact h
      · have hk := hkeep {s with reKeys := s.reKeys++[key]} rfl
        split
        · exact hk
        · have hwatch : ServerOk ((σ.setSession p (some { s with
              reKeys := s.reKeys++[key]})).applyCache (addRegexWatcherByKey env p key)) := by
            refine hk.setCache (hk.cache.applyCache fun k e => ?_) rfl rfl rfl
            exact addRegexWatcherByKey_content env p key k e
          simp only
          split
          · exact hwatch
          · exact hwatch.setInfo p _
    · split
      · exact h
      · have hk := hkeep {s with keys := s.keys++[key]} rfl
        exact hk.setCache (hk.cache.modify key (fun _ => ⟨rfl,rfl⟩) fun _ _ => .inl) rfl rfl rfl

lemma ServerOk.scdNotifierRemove (h : ServerOk σ) (p : MachPort)
    (key : Key) (regex : Bool)
    (hr : scdNotifierRemove env σ p key regex=some r) : ServerOk r.2 := by
  cases hs : σ.sessions p with
  | none =>
    simp only [Configd.scdNotifierRemove,hs,some.injEq] at hr
    rw [←hr]
    exact h
  | some s =>
    have hkeep : ∀ s',s'.isLocked=s.isLocked → ServerOk (σ.setSession p (some s')) := by
      intro s' hs'
      refine h.setSession p fun t ht hm => ⟨s,hs,?_⟩
      cases ht
      exact hs'.symm.trans hm
    simp only [Configd.scdNotifierRemove,hs] at hr
    split at hr
    · split at hr
      · cases hr
        exact h
      · split at hr
        · cases hr
        · cases hr
          have hk := hkeep {s with reKeys := s.reKeys.erase key} rfl
          refine (hk.setCache (hk.cache.applyCache fun k e => ?_) rfl rfl rfl).setInfo p _
          exact removeRegexWatcherByKey_content env p key k e
    · split at hr
      · cases hr
        exact h
      · cases hr
        have hk := hkeep {s with keys := s.keys.erase key} rfl
        exact hk.setCache (hk.cache.modify key (fun _ => ⟨rfl,rfl⟩) fun _ _ => .inl) rfl rfl rfl

lemma ServerOk.removeNotifications {σ σ' : Server Key Data} (h : ServerOk σ) (p : MachPort)
    (regex : Bool) (keys : List Key) (hr : removeNotifications env p regex σ keys=some σ') :
    ServerOk σ' := by
  induction keys generalizing σ with
  | nil =>
    cases hr
    exact h
  | cons key keys ih =>
    simp only [Configd.removeNotifications,foldlM_cons,bind_eq_bind,
      bind_eq_some_iff,map_eq_some_iff] at hr
    obtain ⟨_,⟨r,hone,rfl⟩,hrest⟩ := hr
    exact ih (h.scdNotifierRemove env p key regex hone) hrest

lemma ServerOk.removeMySessionKeys (h : ServerOk σ) (p : MachPort)
    (keys : List Key) : ServerOk (removeMySessionKeys env σ p keys) := by
  induction keys generalizing σ with
  | nil => exact h
  | cons key keys ih =>
    apply ih
    change ServerOk (if isMySessionKey σ p key then (Configd.scdRemove env σ p key).2 else σ)
    split
    · exact h.scdRemove env p key
    · exact h

lemma removeMySessionKeys_isLocked (hl : σ.isLocked=true) (p : MachPort)
    (keys : List Key) : (removeMySessionKeys env σ p keys).isLocked=true := by
  induction keys generalizing σ with
  | nil => exact hl
  | cons key keys ih =>
    apply ih
    change (if isMySessionKey σ p key then (scdRemove env σ p key).2 else σ).isLocked=true
    split
    · cases hs : σ.sessions p with
      | none =>
        rw [scdRemove,withLock_none env hs]
        exact hl
      | some s =>
        rw [scdRemove,withLock_locked env hs hl,scdRemoveEntry_cacheOnly]
        exact hl
    · exact hl

def closeSessionKeys (σ : Server Key Data) (session : MachPort) (keys : List Key) :
    Server Key Data :=
  if keys.isEmpty then σ
  else
    let wasLocked := σ.isLocked
    let σ := if wasLocked then σ else (scdLock σ session).2
    let σ := removeMySessionKeys env σ session keys
    if wasLocked then
      swapLockedCacheData (removeMySessionKeys env (swapLockedCacheData σ) session keys)
    else σ

lemma ServerOk.closeSessionKeys (h : ServerOk σ) (p : MachPort)
    (keys : List Key) : ServerOk (closeSessionKeys env σ p keys) := by
  unfold Configd.closeSessionKeys
  split
  · exact h
  · cases hl : σ.isLocked with
    | false =>
      simp only [Bool.false_eq_true,if_false]
      exact (h.scdLock p).removeMySessionKeys env p keys
    | true =>
      simp only [if_true]
      have hone := removeMySessionKeys_isLocked env hl p keys
      refine ((h.removeMySessionKeys env p keys).swap hone |>.removeMySessionKeys env p keys).swap ?_
      exact removeMySessionKeys_isLocked env (σ := swapLockedCacheData _) hone p keys

def holdsLock (σ : Server Key Data) (session : MachPort) : Bool :=
  match σ.sessions session with
  | some s => s.isLocked
  | none => false

lemma scdClose_some {p : MachPort} {s : SCDSession Key}
    (hs : σ.sessions p=some s)
    (hr : scdClose env σ p=some r) : ∃ σ₁ σ₂,removeNotifications env p false σ s.keys=some σ₁ ∧
      removeNotifications env p true σ₁ s.reKeys=some σ₂ ∧ r=(.ok,
        let τ := closeSessionKeys env (scdNotifierCancel σ₂ p) p (σ₂.sessionData p).sessionKeys
        (if holdsLock τ p then (scdUnlock env τ p).2 else τ).setSession p none) := by
  simp only [scdClose,hs,bind_eq_bind,bind_eq_some_iff] at hr
  obtain ⟨σ₁,h₁,σ₂,h₂,h₃⟩ := hr
  cases h₃
  exact ⟨σ₁,σ₂,h₁,h₂,rfl⟩

lemma ServerOk.scdClose (h : ServerOk σ) (p : MachPort)
    (hr : scdClose env σ p=some r) : ServerOk r.2 := by
  cases hs : σ.sessions p with
  | none =>
    simp only [Configd.scdClose,hs,some.injEq] at hr
    rw [←hr]
    exact h
  | some s =>
    obtain ⟨σ₁,σ₂,h₁,h₂,rfl⟩ := scdClose_some env hs hr
    have hσ₂ := (h.removeNotifications env p false _ h₁).removeNotifications env p true _ h₂
    have hcancel : ServerOk (scdNotifierCancel σ₂ p) :=
      ⟨hσ₂.cache,hσ₂.saved,hσ₂.idle,hσ₂.free,hσ₂.holder⟩
    have hkeys := hcancel.closeSessionKeys env p (σ₂.sessionData p).sessionKeys
    refine ServerOk.setSession ?_ p fun t ht => by cases ht
    split
    · exact hkeys.scdUnlock env p
    · exact hkeys

omit [DecidableEq Key] in
lemma ServerOk.saveCaller (h : ServerOk σ) (m : Message Key Data) : ServerOk (saveCaller σ m) := by
  unfold Configd.saveCaller
  split
  · exact h
  · exact h
  · rename_i s hs _
    refine h.setSession m.server fun t ht hm => ⟨s,hs,?_⟩
    cases ht
    exact hm

lemma serve_serverOk (h : ServerOk σ) (m : Message Key Data)
    {r : Reply Key Data × Server Key Data} (hr : serve env σ m=some r) : ServerOk r.2 := by
  have hs := h.saveCaller m
  obtain ⟨p,euid,request⟩ := m
  cases request with
  | «open» =>
    cases hr
    exact hs.setSession p fun t ht hm => by
      cases ht
      cases hm
  | close =>
    simp only [serve,configclose,map_eq_some_iff] at hr
    obtain ⟨_,⟨r₀,hclose,rfl⟩,rfl⟩ := hr
    have hσ := hs.scdClose env p hclose
    simp only [statusReply]
    split
    · exact hσ.setInfo p .empty
    · exact hσ
  | died =>
    simp only [serve,cleanupSession,map_eq_some_iff] at hr
    obtain ⟨_,⟨r₀,hclose,rfl⟩,rfl⟩ := hr
    refine (ServerOk.scdClose env ?_ p hclose).setInfo p .empty
    split
    · rename_i hl
      exact hs.swap (Bool.and_eq_true_iff.mp hl).1
    · exact hs
  | lock =>
    cases hr
    exact hs.scdLock p
  | unlock =>
    cases hr
    exact hs.scdUnlock env p
  | get key =>
    cases hr
    exact hs
  | add key data =>
    cases hr
    exact hs.scdAdd env p key ⟨data,0⟩
  | addSession key data =>
    cases hr
    exact hs.scdAddSession env p key ⟨data,0⟩
  | set key handle =>
    cases hr
    exact hs.scdSet env p key handle
  | touch key now =>
    cases hr
    exact hs.scdTouch env p key now
  | remove key =>
    cases hr
    exact hs.scdRemove env p key
  | notifyAdd key regex =>
    cases hr
    exact hs.scdNotifierAdd env p key regex
  | notifyRemove key regex =>
    simp only [serve,map_eq_some_iff] at hr
    obtain ⟨r₀,hremove,rfl⟩ := hr
    exact hs.scdNotifierRemove env p key regex hremove
  | notifyChanges =>
    cases hr
    simp only [scdNotifierGetChanges]
    split
    · exact hs
    · exact hs.setInfo p _

lemma serveAll_serverOk (h : ServerOk σ) (ms : List (Message Key Data))
    {rs : List (Reply Key Data)} {σ' : Server Key Data}
    (hr : serveAll env σ ms=some (rs,σ')) : ServerOk σ' := by
  induction ms generalizing σ rs with
  | nil =>
    cases hr
    exact h
  | cons m ms ih =>
    simp only [serveAll] at hr
    split at hr
    · simp only [bind_eq_some_iff,map_eq_some_iff] at hr
      obtain ⟨r,hone,⟨rs',σ''⟩,hrest,heq⟩ := hr
      cases heq
      exact ih (serve_serverOk env h m hone) hrest
    · cases hr

end Requests

end Darwin.Configd
