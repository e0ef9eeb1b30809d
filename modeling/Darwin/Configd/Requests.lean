import Darwin.Configd.Server

/-! Watch requests, the end of a session, and the server loop that takes one message at a time. -/
open Function
namespace Darwin.Configd

variable {Key Data : Type} [DecidableEq Key] (env : Environment Key Data)

def Server.setSession (σ : Server Key Data) (session : MachPort) (s : Option (SCDSession Key)) :
    Server Key Data :=
  {σ with sessions := update σ.sessions session s}

def Server.setInfo (σ : Server Key Data) (session : MachPort) (info : SessionInfo Key) :
    Server Key Data :=
  {σ with sessionData := update σ.sessionData session info}

/-- `CFDictionaryApplyFunction` over the cache; every call writes the entry of its own key. -/
def Server.applyCache (σ : Server Key Data)
    (f : Key → CacheEntry Data → CacheEntry Data) : Server Key Data :=
  {σ with cache := {σ.cache with cacheData := fun key => f key (σ.cache.cacheData key)}}

def scdNotifierAdd (σ : Server Key Data) (session : MachPort) (key : Key) (regex : Bool) :
    SCDStatus × Server Key Data :=
  match σ.sessions session with
  | none => (.noSession,σ)
  | some s =>
    if regex then
      if s.reKeys.contains key then (.keyExists,σ)
      else
        let σ := σ.setSession session (some {s with reKeys := s.reKeys++[key]})
        if !env.regcomp key then (.failed,σ)
        else
          let σ := σ.applyCache (addRegexWatcherByKey env session key)
          let info := σ.sessionData session
          (.ok,if info.regexKeys.contains key then σ
            else σ.setInfo session {info with regexKeys := info.regexKeys++[key]})
    else
      if s.keys.contains key then (.keyExists,σ)
      else
        let σ := σ.setSession session (some {s with keys := s.keys++[key]})
        (.ok,{σ with cache := σ.cache.modify key (·.addWatcher session)})

/-- There is no result when the pattern has no compiled form: the source then reads outside the
array of compiled forms. -/
def scdNotifierRemove (σ : Server Key Data) (session : MachPort) (key : Key) (regex : Bool) :
    Option (SCDStatus × Server Key Data) :=
  match σ.sessions session with
  | none => some (.noSession,σ)
  | some s =>
    if regex then
      if !s.reKeys.contains key then some (.noKey,σ)
      else
        let σ := σ.setSession session (some {s with reKeys := s.reKeys.erase key})
        let info := σ.sessionData session
        if !info.regexKeys.contains key then none
        else
          let σ := σ.applyCache (removeRegexWatcherByKey env session key)
          some (.ok,σ.setInfo session {info with regexKeys := info.regexKeys.erase key})
    else
      if !s.keys.contains key then some (.noKey,σ)
      else
        let σ := σ.setSession session (some {s with keys := s.keys.erase key})
        some (.ok,{σ with cache := σ.cache.modify key (·.removeWatcher session)})

def scdNotifierCancel (σ : Server Key Data) (session : MachPort) : Server Key Data :=
  {σ with needsNotification := update σ.needsNotification session false}

def scdNotifierGetChanges (σ : Server Key Data) (session : MachPort) :
    (SCDStatus × List Key) × Server Key Data :=
  match σ.sessions session with
  | none => ((.noSession,[]),σ)
  | some _ =>
    let info := σ.sessionData session
    ((.ok,info.changedKeys),σ.setInfo session {info with changedKeys := []})

def isMySessionKey (σ : Server Key Data) (session : MachPort) (key : Key) : Bool :=
  (σ.cache.cacheData key).session=some session

def removeMySessionKeys (σ : Server Key Data) (session : MachPort) (keys : List Key) :
    Server Key Data :=
  keys.foldl (fun σ key =>
    if isMySessionKey σ session key then (scdRemove env σ session key).2 else σ) σ

def removeNotifications (session : MachPort) (regex : Bool) (σ : Server Key Data)
    (keys : List Key) : Option (Server Key Data) :=
  keys.foldlM (fun σ key => (scdNotifierRemove env σ session key regex).map Prod.snd) σ

def scdClose (σ : Server Key Data) (session : MachPort) : Option (SCDStatus × Server Key Data) :=
  match σ.sessions session with
  | none => some (.noSession,σ)
  | some s => do
    let σ ← removeNotifications env session false σ s.keys
    let σ ← removeNotifications env session true σ s.reKeys
    let σ := scdNotifierCancel σ session
    let keys := (σ.sessionData session).sessionKeys
    let σ :=
      if keys.isEmpty then σ
      else
        let wasLocked := σ.isLocked
        let σ := if wasLocked then σ else (scdLock σ session).2
        let σ := removeMySessionKeys env σ session keys
        if wasLocked then
          swapLockedCacheData (removeMySessionKeys env (swapLockedCacheData σ) session keys)
        else σ
    let holdsLock := match σ.sessions session with
      | some s => s.isLocked
      | none => false
    let σ := if holdsLock then (scdUnlock env σ session).2 else σ
    some (.ok,σ.setSession session none)

def removeSession (σ : Server Key Data) (server : MachPort) : Server Key Data :=
  σ.setInfo server .empty

def configclose (σ : Server Key Data) (server : MachPort) : Option (SCDStatus × Server Key Data) :=
  (scdClose env σ server).map fun result =>
    if result.1=.ok then (.ok,removeSession result.2 server) else result

/-- What the death of a client starts: the changes made under its lock are thrown away. -/
def cleanupSession (σ : Server Key Data) (server : MachPort) : Option (Server Key Data) :=
  let holdsLock := match σ.sessions server with
    | some s => s.isLocked
    | none => false
  let σ := if σ.isLocked && holdsLock then swapLockedCacheData σ else σ
  (scdClose env σ server).map fun result => removeSession result.2 server

inductive Request (Key Data : Type)
  | open
  | close
  | died
  | lock
  | unlock
  | get (key : Key)
  | add (key : Key) (data : Data)
  | addSession (key : Key) (data : Data)
  | set (key : Key) (handle : SCDHandle Data)
  | touch (key : Key) (now : Data)
  | remove (key : Key)
  | notifyAdd (key : Key) (regex : Bool)
  | notifyRemove (key : Key) (regex : Bool)
  | notifyChanges

/-- A message to the server port of a session; `open` names the port the new session will have. -/
structure Message (Key Data : Type) where
  server : MachPort
  callerEUID : Nat
  request : Request Key Data

structure Reply (Key Data : Type) where
  status : SCDStatus
  handle : Option (SCDHandle Data)
  changes : List Key

/-- Whether the run loop takes the message now: while the cache is locked it listens only to the
holder of the lock and to the port on which sessions are opened. -/
def receives (σ : Server Key Data) (m : Message Key Data) : Bool :=
  match m.request,σ.sessions m.server with
  | .open,s => s.isNone
  | _,none => false
  | _,some s => !σ.isLocked || s.isLocked

/-- The credentials of the caller are taken from the trailer of every request, which the notice of
a client's death does not have. -/
def saveCaller (σ : Server Key Data) (m : Message Key Data) : Server Key Data :=
  match m.request,σ.sessions m.server with
  | .died,_ => σ
  | _,none => σ
  | _,some s => σ.setSession m.server (some {s with callerEUID := m.callerEUID})

def configopen (σ : Server Key Data) (newServer : MachPort) (callerEUID : Nat) : Server Key Data :=
  σ.setSession newServer (some ⟨callerEUID,[],[],false⟩)

def statusReply (result : SCDStatus × Server Key Data) : Reply Key Data × Server Key Data :=
  (⟨result.1,none,[]⟩,result.2)

def handleReply (result : (SCDStatus × SCDHandle Data) × Server Key Data) :
    Reply Key Data × Server Key Data :=
  (⟨result.1.1,some result.1.2,[]⟩,result.2)

/-- Serves one message; there is no result when the daemon does not survive it. -/
def serve (σ : Server Key Data) (m : Message Key Data) :
    Option (Reply Key Data × Server Key Data) :=
  let σ := saveCaller σ m
  let session := m.server
  match m.request with
  | .open => some (statusReply (.ok,configopen σ session m.callerEUID))
  | .close => (configclose env σ session).map statusReply
  | .died => (cleanupSession env σ session).map fun σ => statusReply (.ok,σ)
  | .lock => some (statusReply (scdLock σ session))
  | .unlock => some (statusReply (scdUnlock env σ session))
  | .get key =>
    let result := scdGet σ session key
    some (⟨result.1,result.2,[]⟩,σ)
  | .add key data => some (handleReply (scdAdd env σ session key ⟨data,0⟩))
  | .addSession key data => some (handleReply (scdAddSession env σ session key ⟨data,0⟩))
  | .set key handle => some (handleReply (scdSet env σ session key handle))
  | .touch key now => some (statusReply (scdTouch env σ session key now))
  | .remove key => some (statusReply (scdRemove env σ session key))
  | .notifyAdd key regex => some (statusReply (scdNotifierAdd env σ session key regex))
  | .notifyRemove key regex => (scdNotifierRemove env σ session key regex).map statusReply
  | .notifyChanges =>
    let result := scdNotifierGetChanges σ session
    some (⟨result.1.1,none,result.1.2⟩,result.2)

/-- A run of the server: each message is one the run loop takes in the state it finds. -/
def serveAll (σ : Server Key Data) :
    List (Message Key Data) → Option (List (Reply Key Data) × Server Key Data)
  | [] => some ([],σ)
  | m::ms =>
    if receives σ m then
      (serve env σ m).bind fun result =>
        (serveAll result.2 ms).map fun rest => (result.1::rest.1,rest.2)
    else none

end Darwin.Configd

/-! What taking and releasing the lock of configd does, and the invariant of its lists. -/
namespace Darwin.Configd

variable {Key Data : Type} [DecidableEq Key] (env : Environment Key Data)

section Commit

def Server.held (σ : Server Key Data) (session : MachPort) (s : SCDSession Key) : Server Key Data :=
  { σ with
    isLocked := true
    sessions := update σ.sessions session (some {s with isLocked := true})
    saved := σ.cache}

def commit (σ : Server Key Data) : Server Key Data :=
  cleanupRemovedSessionKeys (processDeferredRemovals env (notifyWatchers {σ with saved := .empty}))

def Server.freed (σ : Server Key Data) (session : MachPort) (s : SCDSession Key) :
    Server Key Data :=
  { σ with
    isLocked := false
    sessions := update σ.sessions session (some {s with isLocked := false})}

def dropRegexes (sessionData : MachPort → SessionInfo Key) (key : Key) (e : CacheEntry Data) :
    CacheEntry Data :=
  e.applySessions fun session => removeRegexWatchersBySession env (sessionData session) session key

omit [DecidableEq Key] in
@[simp] lemma applySessions_data (f : MachPort → CacheEntry Data → CacheEntry Data)
    (e : CacheEntry Data) : (e.applySessions f).data=e.data := rfl

omit [DecidableEq Key] in
@[simp] lemma applySessions_inst (f : MachPort → CacheEntry Data → CacheEntry Data)
    (e : CacheEntry Data) : (e.applySessions f).inst=e.inst := rfl

omit [DecidableEq Key] in
@[simp] lemma applySessions_session (f : MachPort → CacheEntry Data → CacheEntry Data)
    (e : CacheEntry Data) : (e.applySessions f).session=e.session := rfl

lemma modify_self (c : Cache Key Data) (key : Key) (f : CacheEntry Data → CacheEntry Data) :
    (c.modify key f).cacheData key=f (c.cacheData key) := by
  simp [Cache.modify]

lemma modify_other (c : Cache Key Data) {key k : Key} (f : CacheEntry Data → CacheEntry Data)
    (h : k≠key) : (c.modify key f).cacheData k=c.cacheData k := by
  simp [Cache.modify,h]

lemma foldl_modify (g : Key → CacheEntry Data → CacheEntry Data) {l : List Key} (hl : l.Nodup)
    (c : Cache Key Data) (k : Key) :
    (l.foldl (fun c key => c.modify key (g key)) c).cacheData k =
      if k∈l then g k (c.cacheData k) else c.cacheData k := by
  induction l generalizing c with
  | nil => simp
  | cons key l ih =>
    rw [List.nodup_cons] at hl
    rw [List.foldl_cons,ih hl.2]
    by_cases hk : k=key
    · subst k
      simp [hl.1,modify_self]
    · simp [hk,modify_other c _ hk]

lemma foldl_modify_lists (g : Key → CacheEntry Data → CacheEntry Data) (l : List Key)
    (c : Cache Key Data) :
    (l.foldl (fun c key => c.modify key (g key)) c).changedKeys=c.changedKeys ∧
      (l.foldl (fun c key => c.modify key (g key)) c).removedSessionKeys =
        c.removedSessionKeys := by
  induction l generalizing c with
  | nil => exact ⟨rfl,rfl⟩
  | cons key l ih => exact ih (c.modify key (g key))

lemma foldl_notifyKey (l : List Key) (σ : Server Key Data) :
    (l.foldl notifyKey σ).cache=σ.cache ∧ (l.foldl notifyKey σ).saved=σ.saved ∧
      (l.foldl notifyKey σ).sessions=σ.sessions ∧ (l.foldl notifyKey σ).isLocked=σ.isLocked := by
  induction l generalizing σ with
  | nil => exact ⟨rfl,rfl,rfl,rfl⟩
  | cons key l ih => exact ih (notifyKey σ key)

lemma commit_sessions (σ : Server Key Data) : (commit env σ).sessions=σ.sessions :=
  (foldl_notifyKey σ.cache.changedKeys {σ with saved := .empty}).2.2.1

lemma commit_saved (σ : Server Key Data) : (commit env σ).saved=.empty :=
  (foldl_notifyKey σ.cache.changedKeys {σ with saved := .empty}).2.1

lemma notifyWatchers_cache (σ : Server Key Data) :
    (notifyWatchers σ).cache={σ.cache with changedKeys := []} := by
  simp only [notifyWatchers,(foldl_notifyKey σ.cache.changedKeys σ).1]

lemma foldl_notifyKey_info (l : List Key) (σ : Server Key Data) (session : MachPort) :
    ((l.foldl notifyKey σ).sessionData session).regexKeys=(σ.sessionData session).regexKeys ∧
      ((l.foldl notifyKey σ).sessionData session).sessionKeys =
        (σ.sessionData session).sessionKeys := by
  induction l generalizing σ with
  | nil => exact ⟨rfl,rfl⟩
  | cons key l ih =>
    rw [List.foldl_cons,(ih _).1,(ih _).2]
    simp only [notifyKey]
    split <;> exact ⟨rfl,rfl⟩

omit [DecidableEq Key] in
lemma dropRegexes_congr {sd sd' : MachPort → SessionInfo Key}
    (h : ∀ session,(sd session).regexKeys=(sd' session).regexKeys) (key : Key)
    (e : CacheEntry Data) : dropRegexes env sd key e=dropRegexes env sd' key e := by
  unfold dropRegexes
  congr 1
  funext session e
  simp only [removeRegexWatchersBySession,h]

lemma commit_cacheData (σ : Server Key Data) (hd : σ.cache.deferredRemovals.Nodup) (k : Key) :
    (commit env σ).cache.cacheData k =
      if k∈σ.cache.deferredRemovals then
        dropRegexes env σ.sessionData k (σ.cache.cacheData k)
      else σ.cache.cacheData k := by
  have hcache := notifyWatchers_cache {σ with saved := .empty}
  have hd' : (notifyWatchers {σ with saved := .empty}).cache.deferredRemovals.Nodup := by
    rw [hcache]
    exact hd
  simp only [commit,cleanupRemovedSessionKeys,processDeferredRemovals]
  rw [foldl_modify _ hd',hcache]
  simp only
  congr 1
  exact dropRegexes_congr env
    (fun session => (foldl_notifyKey_info σ.cache.changedKeys {σ with saved := .empty} session).1)
    k (σ.cache.cacheData k)

lemma commit_lists (σ : Server Key Data) :
    (commit env σ).cache.changedKeys=[] ∧ (commit env σ).cache.deferredRemovals=[] ∧
      (commit env σ).cache.removedSessionKeys=[] := by
  refine ⟨?_,rfl,rfl⟩
  simp only [commit,cleanupRemovedSessionKeys,processDeferredRemovals]
  rw [(foldl_modify_lists _ _ _).1,notifyWatchers_cache]

end Commit

section Frames
variable {α : Type}

variable {σ : Server Key Data} {session : MachPort} {s : SCDSession Key}
    {body : Server Key Data → α × Server Key Data}

omit [DecidableEq Key] in
lemma scdLock_taken
    (hs : σ.sessions session=some s) (hl : σ.isLocked=false) (hu : s.callerEUID=0) :
    scdLock σ session=(.ok,σ.held session s) := by
  simp [scdLock,hs,hl,hu,Server.held]

omit [DecidableEq Key] in
lemma scdLock_denied
    (hs : σ.sessions session=some s) (hl : σ.isLocked=false) (hu : s.callerEUID≠0) :
    scdLock σ session=(.eAccess,σ) := by
  simp [scdLock,hs,hl,hu]

lemma scdUnlock_held
    (hs : σ.sessions session=some s) (hl : σ.isLocked=true) (hm : s.isLocked=true) :
    scdUnlock env σ session=(.ok,(commit env σ).freed session s) := by
  have h : (!σ.isLocked || !s.isLocked)=false := by rw [hl,hm]; rfl
  simp only [scdUnlock,hs,h,Bool.false_eq_true,if_false]
  rfl

lemma scdUnlock_free
    (hs : σ.sessions session=some s) (h : σ.isLocked=false ∨ s.isLocked=false) :
    scdUnlock env σ session=(.needLock,σ) := by
  rcases h with h | h <;> simp [scdUnlock,hs,h]

lemma withLock_locked
    (hs : σ.sessions session=some s) (hl : σ.isLocked=true) (fail : SCDStatus → α)
    (body : Server Key Data → α × Server Key Data) : withLock env σ session fail body=body σ := by
  simp [withLock,hs,hl]

lemma withLock_congr (fail : SCDStatus → α)
    {body body' : Server Key Data → α × Server Key Data}
    (h : ∀ τ s,τ.sessions session=some s → τ.isLocked=true → body τ=body' τ) :
    withLock env σ session fail body=withLock env σ session fail body' := by
  unfold withLock
  cases hs : σ.sessions session with
  | none => rfl
  | some s =>
    cases hl : σ.isLocked with
    | true => exact h σ s hs hl
    | false =>
      by_cases hu : s.callerEUID=0
      · have hbody := h (σ.held session s) {s with isLocked := true}
          (by simp [Server.held]) rfl
        simp only [Bool.false_eq_true,if_false,scdLock_taken hs hl hu,hbody]
      · simp only [Bool.false_eq_true,if_false,scdLock_denied hs hl hu]

def CacheOnly (body : Server Key Data → α × Server Key Data) : Prop :=
  ∀ σ,(body σ).2={σ with cache := (body σ).2.cache}

lemma withLock_free
    (hs : σ.sessions session=some s) (hl : σ.isLocked=false) (fail : SCDStatus → α)
    (hb : CacheOnly body) : withLock env σ session fail body =
      if s.callerEUID=0 then
        ((body (σ.held session s)).1,
          (commit env (body (σ.held session s)).2).freed session {s with isLocked := true})
      else (fail .eAccess,σ) := by
  by_cases hu : s.callerEUID=0
  · have hsession : (body (σ.held session s)).2.sessions session =
        some {s with isLocked := true} := by
      rw [hb]
      simp [Server.held]
    have hlocked : (body (σ.held session s)).2.isLocked=true := by
      rw [hb]
      rfl
    simp only [withLock,hs,hl,Bool.false_eq_true,if_false,scdLock_taken hs hl hu,if_pos hu]
    rw [scdUnlock_held env hsession hlocked rfl]
  · simp [withLock,hs,hl,scdLock_denied hs hl hu,hu]

lemma withLock_none
    (hs : σ.sessions session=none) (fail : SCDStatus → α)
    (body : Server Key Data → α × Server Key Data) :
    withLock env σ session fail body=(fail .noSession,σ) := by
  simp [withLock,hs]

def MayWrite (σ : Server Key Data) (session : MachPort) : Prop :=
  ∃ s,σ.sessions session=some s ∧ (σ.isLocked=true ∨ s.callerEUID=0)

lemma withLock_cases (σ : Server Key Data) (session : MachPort) (fail : SCDStatus → α)
    (hb : CacheOnly body) : (¬MayWrite σ session ∧ ∃ status,status≠.ok ∧ status≠.stale ∧
        withLock env σ session fail body=(fail status,σ)) ∨
    (σ.isLocked=true ∧ MayWrite σ session ∧ withLock env σ session fail body=body σ) ∨
    (σ.isLocked=false ∧ MayWrite σ session ∧
      ∃ s,σ.sessions session=some s ∧ withLock env σ session fail body =
        ((body (σ.held session s)).1,
          (commit env (body (σ.held session s)).2).freed session {s with isLocked := true})) := by
  cases hs : σ.sessions session with
  | none =>
    refine .inl ⟨?_,.noSession,by decide,by decide,withLock_none env hs fail body⟩
    rintro ⟨s,hs',-⟩
    rw [hs] at hs'
    cases hs'
  | some s =>
    cases hl : σ.isLocked with
    | true =>
      exact .inr (.inl ⟨rfl,⟨s,hs,.inl hl⟩,withLock_locked env hs hl fail body⟩)
    | false =>
      have hfree := withLock_free env hs hl fail hb
      by_cases hu : s.callerEUID=0
      · rw [if_pos hu] at hfree
        exact .inr (.inr ⟨rfl,⟨s,hs,.inr hu⟩,s,rfl,hfree⟩)
      · rw [if_neg hu] at hfree
        refine .inl ⟨?_,.eAccess,by decide,by decide,hfree⟩
        rintro ⟨s',hs',h⟩
        rw [hs] at hs'
        cases hs'
        rcases h with h | h
        · rw [hl] at h
          cases h
        · exact hu h

end Frames

end Darwin.Configd
