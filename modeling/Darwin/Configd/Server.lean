import Mathlib.Data.List.Basic

/-! The cache, the session data and the requests of configd. Its dictionaries are functions: a key
that is not in the cache is one whose entry holds nothing, since no empty entry is ever stored. -/
open Function
namespace Darwin.Configd

/-- A port name; the name of a session's server port stands for the session everywhere. -/
abbrev MachPort := BitVec 32

inductive SCDStatus
  | ok | noSession | locked | needLock | eAccess | noKey | keyExists | stale | failed
  deriving DecidableEq,Repr

/-- The handle a client reads and writes through: the data and the instance it belongs to. -/
structure SCDHandle (Data : Type) where
  data : Data
  inst : BitVec 32
  deriving DecidableEq,Repr

/-- What configd takes from the C library and CoreFoundation: whether a pattern compiles, whether
its compiled form matches a key, and whether a property list is a date. -/
structure Environment (Key Data : Type) where
  regcomp : Key → Bool
  regexec : Key → Key → Bool
  isDate : Data → Bool

/-- The dictionary kept for one key. `watchers` holds the two arrays of watching sessions and of
their reference counts, with 0 for a session that is not in them. -/
@[ext] structure CacheEntry (Data : Type) where
  data : Option Data
  inst : Option (BitVec 32)
  session : Option MachPort
  watchers : MachPort → Nat

/-- The dictionary kept for one session; `regexKeys` stands for the patterns and for their
compiled forms, which are added and removed together. -/
structure SessionInfo (Key : Type) where
  changedKeys : List Key
  sessionKeys : List Key
  regexKeys : List Key

/-- An open session, with the credentials of the caller of its last request. -/
structure SCDSession (Key : Type) where
  callerEUID : Nat
  keys : List Key
  reKeys : List Key
  isLocked : Bool

/-- What `_SCDLock` saves. A removed session key is the pair of its owner and itself. -/
structure Cache (Key Data : Type) where
  cacheData : Key → CacheEntry Data
  changedKeys : List Key
  deferredRemovals : List Key
  removedSessionKeys : List (MachPort × Key)

structure Server (Key Data : Type) where
  cache : Cache Key Data
  saved : Cache Key Data
  sessionData : MachPort → SessionInfo Key
  sessions : MachPort → Option (SCDSession Key)
  isLocked : Bool
  needsNotification : MachPort → Bool

def CacheEntry.empty {Data : Type} : CacheEntry Data := ⟨none,none,none,fun _ => 0⟩

def SessionInfo.empty {Key : Type} : SessionInfo Key := ⟨[],[],[]⟩

def Cache.empty {Key Data : Type} : Cache Key Data := ⟨fun _ => .empty,[],[],[]⟩

def Server.initial {Key Data : Type} : Server Key Data :=
  ⟨.empty,.empty,fun _ => .empty,fun _ => none,false,fun _ => false⟩

section Watchers
variable {Key Data : Type} (env : Environment Key Data)

def CacheEntry.addWatcher (e : CacheEntry Data) (sessionNum : MachPort) : CacheEntry Data :=
  {e with watchers := update e.watchers sessionNum (e.watchers sessionNum+1)}

def CacheEntry.removeWatcher (e : CacheEntry Data) (sessionNum : MachPort) : CacheEntry Data :=
  {e with watchers := update e.watchers sessionNum (e.watchers sessionNum-1)}

def addRegexWatcherByKey (session : MachPort) (preg : Key) (cacheStr : Key)
    (info : CacheEntry Data) : CacheEntry Data :=
  if info.data.isNone then info
  else if env.regexec preg cacheStr then info.addWatcher session
  else info

def removeRegexWatcherByKey (session : MachPort) (preg : Key) (cacheStr : Key)
    (info : CacheEntry Data) : CacheEntry Data :=
  if info.watchers session=0 then info
  else if env.regexec preg cacheStr then info.removeWatcher session
  else info

def addRegexWatchersBySession (info : SessionInfo Key) (sessionKey : MachPort) (addedKey : Key)
    (e : CacheEntry Data) : CacheEntry Data :=
  info.regexKeys.foldl
    (fun e preg => if env.regexec preg addedKey then e.addWatcher sessionKey else e) e

def removeRegexWatchersBySession (info : SessionInfo Key) (sessionKey : MachPort)
    (removedKey : Key) (e : CacheEntry Data) : CacheEntry Data :=
  info.regexKeys.foldl
    (fun e preg => if env.regexec preg removedKey then e.removeWatcher sessionKey else e) e

/-- Applies a function to every entry of the session data. The call for one session changes the
references of that session only, so the order of the calls does not matter. -/
def CacheEntry.applySessions (f : MachPort → CacheEntry Data → CacheEntry Data)
    (e : CacheEntry Data) : CacheEntry Data :=
  {e with watchers := fun sessionKey => (f sessionKey e).watchers sessionKey}

end Watchers

section Lock
variable {Key Data : Type} [DecidableEq Key] (env : Environment Key Data)

def Cache.modify (c : Cache Key Data) (key : Key) (f : CacheEntry Data → CacheEntry Data) :
    Cache Key Data :=
  {c with cacheData := update c.cacheData key (f (c.cacheData key))}

def scdLock (σ : Server Key Data) (session : MachPort) : SCDStatus × Server Key Data :=
  match σ.sessions session with
  | none => (.noSession,σ)
  | some mySession =>
    if σ.isLocked then (.locked,σ)
    else if mySession.callerEUID≠0 then (.eAccess,σ)
    else
      (.ok,{ σ with
        isLocked := true
        sessions := update σ.sessions session (some {mySession with isLocked := true})
        saved := σ.cache})

def swapLockedCacheData (σ : Server Key Data) : Server Key Data :=
  {σ with cache := σ.saved,saved := σ.cache}

def notifyKey (σ : Server Key Data) (key : Key) : Server Key Data :=
  let watching := fun session => decide (0<(σ.cache.cacheData key).watchers session)
  { σ with
    sessionData := fun session =>
      let info := σ.sessionData session
      if watching session && !(info.changedKeys.contains key) then
        {info with changedKeys := info.changedKeys++[key]}
      else info
    needsNotification := fun session => σ.needsNotification session || watching session}

def notifyWatchers (σ : Server Key Data) : Server Key Data :=
  let σ := σ.cache.changedKeys.foldl notifyKey σ
  {σ with cache := {σ.cache with changedKeys := []}}

def processDeferredRemovals (σ : Server Key Data) : Server Key Data :=
  let c := σ.cache.deferredRemovals.foldl
    (fun c key => c.modify key (CacheEntry.applySessions fun session =>
      removeRegexWatchersBySession env (σ.sessionData session) session key)) σ.cache
  {σ with cache := {c with deferredRemovals := []}}

def cleanupRemovedSessionKey (sessionData : MachPort → SessionInfo Key)
    (removedKey : MachPort × Key) : MachPort → SessionInfo Key :=
  let info := sessionData removedKey.1
  update sessionData removedKey.1
    {info with sessionKeys := info.sessionKeys.erase removedKey.2}

def cleanupRemovedSessionKeys (σ : Server Key Data) : Server Key Data :=
  { σ with
    sessionData := σ.cache.removedSessionKeys.foldl cleanupRemovedSessionKey σ.sessionData
    cache := {σ.cache with removedSessionKeys := []}}

def scdUnlock (σ : Server Key Data) (session : MachPort) : SCDStatus × Server Key Data :=
  match σ.sessions session with
  | none => (.noSession,σ)
  | some mySession =>
    if !σ.isLocked || !mySession.isLocked then (.needLock,σ)
    else
      let σ := {σ with saved := .empty}
      let σ := cleanupRemovedSessionKeys (processDeferredRemovals env (notifyWatchers σ))
      (.ok,{ σ with
        isLocked := false
        sessions := update σ.sessions session
          (some {mySession with isLocked := false})})

/-- The frame of every request that writes the cache: it takes the lock and releases it, unless
the lock is held already. -/
def withLock {α : Type} (σ : Server Key Data) (session : MachPort) (fail : SCDStatus → α)
    (body : Server Key Data → α × Server Key Data) : α × Server Key Data :=
  match σ.sessions session with
  | none => (fail .noSession,σ)
  | some _ =>
    if σ.isLocked then body σ
    else
      match scdLock σ session with
      | (.ok,σ) => ((body σ).1,(scdUnlock env (body σ).2 session).2)
      | (status,σ) => (fail status,σ)

end Lock

section Operations
variable {Key Data : Type} [DecidableEq Key] (env : Environment Key Data)

def scdGet (σ : Server Key Data) (session : MachPort) (key : Key) :
    SCDStatus × Option (SCDHandle Data) :=
  match σ.sessions session with
  | none => (.noSession,none)
  | some _ =>
    match (σ.cache.cacheData key).data with
    | none => (.noKey,none)
    | some data => (.ok,some ⟨data,(σ.cache.cacheData key).inst.getD 0⟩)

/-- Whether the key is on another session's remove-on-close list, and on whose. -/
def otherSession (session : MachPort) (dict : CacheEntry Data) : Option MachPort :=
  match dict.session with
  | none => none
  | some cacheSessionKey => if cacheSessionKey=session then none else some cacheSessionKey

/-- Steps 4 to 6 of `_SCDSet`: the new entry, which is no longer another session's key. -/
def saveEntry (c : Cache Key Data) (session : MachPort) (key : Key) (data : Data)
    (dictInstance : BitVec 32) : Cache Key Data :=
  let dict := c.cacheData key
  let newDict := {dict with data := some data,inst := some dictInstance}
  match otherSession session dict with
  | none => {c with cacheData := update c.cacheData key newDict}
  | some cacheSessionKey =>
    { c with
      cacheData := update c.cacheData key {newDict with session := none}
      removedSessionKeys := c.removedSessionKeys.insert (cacheSessionKey,key)}

/-- Step 7 of `_SCDSet`: a key whose removal is still pending has kept its pattern references. -/
def watchNewEntry (sessionData : MachPort → SessionInfo Key) (c : Cache Key Data) (key : Key) :
    Cache Key Data :=
  if c.deferredRemovals.contains key then
    {c with deferredRemovals := c.deferredRemovals.erase key}
  else
    c.modify key (CacheEntry.applySessions fun session =>
      addRegexWatchersBySession env (sessionData session) session key)

def scdSetEntry (σ : Server Key Data) (session : MachPort) (key : Key) (handle : SCDHandle Data) :
    (SCDStatus × SCDHandle Data) × Server Key Data :=
  let dict := σ.cache.cacheData key
  let dictInstance := dict.inst.getD 0
  let handle := if dict.inst.isNone then {handle with inst := dictInstance} else handle
  if handle.inst≠dictInstance then ((.stale,handle),σ)
  else
    let dictInstance := dictInstance+1
    let c := saveEntry σ.cache session key handle.data dictInstance
    let c := if dictInstance=1 then watchNewEntry env σ.sessionData c key else c
    ((.ok,{handle with inst := dictInstance}),
      {σ with cache := {c with changedKeys := c.changedKeys.insert key}})

def scdSet (σ : Server Key Data) (session : MachPort) (key : Key) (handle : SCDHandle Data) :
    (SCDStatus × SCDHandle Data) × Server Key Data :=
  withLock env σ session (fun status => (status,handle))
    fun σ => scdSetEntry env σ session key handle

def scdAdd (σ : Server Key Data) (session : MachPort) (key : Key) (handle : SCDHandle Data) :
    (SCDStatus × SCDHandle Data) × Server Key Data :=
  withLock env σ session (fun status => (status,handle)) fun σ =>
    match (scdGet σ session key).1 with
    | .noKey => scdSet env σ session key handle
    | .ok => ((.keyExists,handle),σ)
    | status => ((status,handle),σ)

def scdAddSession (σ : Server Key Data) (session : MachPort) (key : Key)
    (handle : SCDHandle Data) : (SCDStatus × SCDHandle Data) × Server Key Data :=
  match scdAdd env σ session key handle with
  | ((.ok,handle),σ) =>
    let info := σ.sessionData session
    let sessionData :=
      if info.sessionKeys.contains key then σ.sessionData
      else update σ.sessionData session
        {info with sessionKeys := info.sessionKeys++[key]}
    ((.ok,handle),{ σ with
      sessionData := sessionData
      cache := σ.cache.modify key fun dict => {dict with session := some session}})
  | failure => failure

def scdTouch (σ : Server Key Data) (session : MachPort) (key : Key) (now : Data) :
    SCDStatus × Server Key Data :=
  withLock env σ session id fun σ =>
    match scdGet σ session key with
    | (.noKey,_) => (.ok,(scdSet env σ session key ⟨now,0⟩).2)
    | (.ok,some handle) =>
      let handle := if env.isDate handle.data then {handle with data := now} else handle
      (.ok,(scdSet env σ session key handle).2)
    | _ => (.ok,σ)

def scdRemoveEntry (σ : Server Key Data) (key : Key) : SCDStatus × Server Key Data :=
  let dict := σ.cache.cacheData key
  if dict.data.isNone then (.noKey,σ)
  else
    let removedSessionKeys := match dict.session with
      | some sessionKey => σ.cache.removedSessionKeys.insert (sessionKey,key)
      | none => σ.cache.removedSessionKeys
    (.ok,{ σ with cache :=
      { cacheData := update σ.cache.cacheData key
          {dict with data := none,inst := none,session := none}
        changedKeys := σ.cache.changedKeys.insert key
        deferredRemovals := σ.cache.deferredRemovals.insert key
        removedSessionKeys := removedSessionKeys}})

def scdRemove (σ : Server Key Data) (session : MachPort) (key : Key) :
    SCDStatus × Server Key Data :=
  withLock env σ session id fun σ => scdRemoveEntry σ key

end Operations

end Darwin.Configd
