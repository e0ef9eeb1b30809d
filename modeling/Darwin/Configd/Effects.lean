import Darwin.Configd.Requests

/-! What each write does to the cache, entry by entry and list by list. -/
open Function Option List
namespace Darwin.Configd

variable {Key Data : Type} [DecidableEq Key] (env : Environment Key Data)

def scdAddEntry (σ : Server Key Data) (session : MachPort) (key : Key) (handle : SCDHandle Data) :
    (SCDStatus × SCDHandle Data) × Server Key Data :=
  if (σ.cache.cacheData key).data.isNone then scdSetEntry env σ session key handle
  else ((.keyExists,handle),σ)

def touchHandle (dict : CacheEntry Data) (now : Data) : SCDHandle Data :=
  match dict.data with
  | none => ⟨now,0⟩
  | some data => ⟨if env.isDate data then now else data,dict.inst.getD 0⟩

def scdTouchEntry (σ : Server Key Data) (session : MachPort) (key : Key) (now : Data) :
    SCDStatus × Server Key Data :=
  (.ok,(scdSetEntry env σ session key (touchHandle env (σ.cache.cacheData key) now)).2)

lemma scdAdd_eq (σ : Server Key Data) (session : MachPort) (key : Key) (handle : SCDHandle Data) :
    scdAdd env σ session key handle =
      withLock env σ session (fun status => (status,handle))
        fun σ => scdAddEntry env σ session key handle := by
  apply withLock_congr
  intro τ s hs hl
  cases hd : (τ.cache.cacheData key).data with
  | none => simp [scdGet,hs,hd,scdSet,scdAddEntry,withLock_locked env hs hl]
  | some d => simp [scdGet,hs,hd,scdAddEntry]

lemma scdTouch_eq (σ : Server Key Data) (session : MachPort) (key : Key) (now : Data) :
    scdTouch env σ session key now =
      withLock env σ session id fun σ => scdTouchEntry env σ session key now := by
  apply withLock_congr
  intro τ s hs hl
  cases hd : (τ.cache.cacheData key).data with
  | none => simp [scdGet,hs,hd,scdSet,scdTouchEntry,touchHandle,withLock_locked env hs hl]
  | some d =>
    by_cases he : env.isDate d <;>
      simp [scdGet,hs,hd,he,scdSet,scdTouchEntry,touchHandle,withLock_locked env hs hl]

def setCache (σ : Server Key Data) (session : MachPort) (key : Key) (data : Data) :
    Cache Key Data :=
  let dictInstance := (σ.cache.cacheData key).inst.getD 0+1
  let c := saveEntry σ.cache session key data dictInstance
  let c := if dictInstance=1 then watchNewEntry env σ.sessionData c key else c
  {c with changedKeys := c.changedKeys.insert key}

/-- A write goes through when the key has no instance yet or the one of the handle. -/
def Accepts (dict : CacheEntry Data) (handle : SCDHandle Data) : Prop :=
  ∀ i,dict.inst=some i → i=handle.inst

lemma scdSetEntry_ok {σ : Server Key Data} {session : MachPort} {key : Key}
    {handle : SCDHandle Data} (h : Accepts (σ.cache.cacheData key) handle) :
    scdSetEntry env σ session key handle =
      ((.ok,⟨handle.data,(σ.cache.cacheData key).inst.getD 0+1⟩),
        {σ with cache := setCache env σ session key handle.data}) := by
  cases hi : (σ.cache.cacheData key).inst with
  | none => simp [scdSetEntry,setCache,hi]
  | some i =>
    have := h i hi
    simp [scdSetEntry,setCache,hi,this]

lemma scdSetEntry_stale {σ : Server Key Data} {session : MachPort} {key : Key}
    {handle : SCDHandle Data} (h : ¬Accepts (σ.cache.cacheData key) handle) :
    scdSetEntry env σ session key handle=((.stale,handle),σ) := by
  cases hi : (σ.cache.cacheData key).inst with
  | none => exact absurd (fun i h => by rw [hi] at h; cases h) h
  | some i =>
    have hne : handle.inst≠i := fun he => h fun j hj => by
      rw [hi] at hj
      cases hj
      exact he.symm
    simp [scdSetEntry,hi,hne]

lemma scdSetEntry_cacheOnly (session : MachPort) (key : Key) (handle : SCDHandle Data) :
    CacheOnly fun σ => scdSetEntry env σ session key handle := by
  intro σ
  by_cases h : Accepts (σ.cache.cacheData key) handle
  · simp only [scdSetEntry_ok env h]
  · simp only [scdSetEntry_stale env h]

lemma scdAddEntry_cacheOnly (session : MachPort) (key : Key) (handle : SCDHandle Data) :
    CacheOnly fun σ => scdAddEntry env σ session key handle := by
  intro σ
  simp only [scdAddEntry]
  split
  · exact scdSetEntry_cacheOnly env session key handle σ
  · rfl

lemma scdTouchEntry_cacheOnly (session : MachPort) (key : Key) (now : Data) :
    CacheOnly fun σ => scdTouchEntry env σ session key now :=
  fun σ => scdSetEntry_cacheOnly env session key _ σ

lemma scdRemoveEntry_cacheOnly (key : Key) :
    CacheOnly fun σ : Server Key Data => scdRemoveEntry σ key := by
  intro σ
  simp only [scdRemoveEntry]
  split <;> rfl

section Effects

omit [DecidableEq Key] in
lemma addRegexWatcherByKey_content (session : MachPort) (preg key : Key)
    (e : CacheEntry Data) : (addRegexWatcherByKey env session preg key e).data=e.data ∧
      (addRegexWatcherByKey env session preg key e).inst=e.inst ∧
      (addRegexWatcherByKey env session preg key e).session=e.session := by
  unfold addRegexWatcherByKey
  split_ifs <;> exact ⟨rfl,rfl,rfl⟩

omit [DecidableEq Key] in
lemma removeRegexWatcherByKey_content (session : MachPort) (preg key : Key)
    (e : CacheEntry Data) : (removeRegexWatcherByKey env session preg key e).data=e.data ∧
      (removeRegexWatcherByKey env session preg key e).inst=e.inst ∧
      (removeRegexWatcherByKey env session preg key e).session=e.session := by
  unfold removeRegexWatcherByKey
  split_ifs <;> exact ⟨rfl,rfl,rfl⟩

def grantRegexes (sessionData : MachPort → SessionInfo Key) (key : Key) (e : CacheEntry Data) :
    CacheEntry Data :=
  e.applySessions fun session => addRegexWatchersBySession env (sessionData session) session key

def CacheEntry.written (dict : CacheEntry Data) (session : MachPort) (data : Data) :
    CacheEntry Data :=
  { dict with
    data := some data
    inst := some (dict.inst.getD 0+1)
    session := if (otherSession session dict).isSome then none else dict.session}

lemma saveEntry_cacheData (c : Cache Key Data) (session : MachPort) (key : Key) (data : Data) :
    (saveEntry c session key data ((c.cacheData key).inst.getD 0+1)).cacheData =
      update c.cacheData key ((c.cacheData key).written session data) := by
  cases ho : otherSession session (c.cacheData key) <;>
    simp [saveEntry,CacheEntry.written,ho]

lemma saveEntry_lists (c : Cache Key Data) (session : MachPort) (key : Key) (data : Data)
    (i : BitVec 32) : (saveEntry c session key data i).changedKeys=c.changedKeys ∧
      (saveEntry c session key data i).deferredRemovals=c.deferredRemovals ∧
      (saveEntry c session key data i).removedSessionKeys =
        match otherSession session (c.cacheData key) with
        | none => c.removedSessionKeys
        | some owner => c.removedSessionKeys.insert (owner,key) := by
  cases ho : otherSession session (c.cacheData key) <;> simp [saveEntry,ho]

lemma watchNewEntry_lists (sessionData : MachPort → SessionInfo Key) (c : Cache Key Data)
    (key : Key) : (watchNewEntry env sessionData c key).changedKeys=c.changedKeys ∧
      (watchNewEntry env sessionData c key).deferredRemovals=c.deferredRemovals.erase key ∧
      (watchNewEntry env sessionData c key).removedSessionKeys=c.removedSessionKeys := by
  by_cases hd : key∈c.deferredRemovals
  · simp [watchNewEntry,hd]
  · simp [watchNewEntry,hd,Cache.modify,erase_of_not_mem hd]

lemma watchNewEntry_cacheData (sessionData : MachPort → SessionInfo Key) (c : Cache Key Data)
    (key : Key) : (watchNewEntry env sessionData c key).cacheData =
      if key∈c.deferredRemovals then c.cacheData
      else update c.cacheData key (grantRegexes env sessionData key (c.cacheData key)) := by
  by_cases hd : key∈c.deferredRemovals
  · simp [watchNewEntry,hd]
  · simp [watchNewEntry,hd,Cache.modify,grantRegexes]

def FirstInstance (dict : CacheEntry Data) : Prop := dict.inst.getD 0+1=1

instance (dict : CacheEntry Data) : Decidable (FirstInstance dict) :=
  inferInstanceAs (Decidable (_=_))

lemma setCache_cacheData (σ : Server Key Data) (session : MachPort) (key : Key) (data : Data) :
    (setCache env σ session key data).cacheData=update σ.cache.cacheData key
      (if FirstInstance (σ.cache.cacheData key) ∧ key∉σ.cache.deferredRemovals then
        grantRegexes env σ.sessionData key ((σ.cache.cacheData key).written session data)
      else (σ.cache.cacheData key).written session data) := by
  have hsave := saveEntry_cacheData σ.cache session key data
  have hd := (saveEntry_lists σ.cache session key data ((σ.cache.cacheData key).inst.getD 0+1)).2.1
  by_cases hf : FirstInstance (σ.cache.cacheData key)
  · simp only [setCache,if_pos (show _=_ from hf),watchNewEntry_cacheData,hd,hsave,
      update_self,update_idem]
    by_cases hk : key∈σ.cache.deferredRemovals <;> simp [hk,hf]
  · simp only [setCache,if_neg (show ¬_=_ from hf),hsave,hf,false_and,if_false]

lemma setCache_lists (σ : Server Key Data) (session : MachPort) (key : Key) (data : Data) :
    (setCache env σ session key data).changedKeys=σ.cache.changedKeys.insert key ∧
      (setCache env σ session key data).deferredRemovals =
        (if FirstInstance (σ.cache.cacheData key) then σ.cache.deferredRemovals.erase key
        else σ.cache.deferredRemovals) ∧ (setCache env σ session key data).removedSessionKeys =
        match otherSession session (σ.cache.cacheData key) with
        | none => σ.cache.removedSessionKeys
        | some owner => σ.cache.removedSessionKeys.insert (owner,key) := by
  have hsave := saveEntry_lists σ.cache session key data
    ((σ.cache.cacheData key).inst.getD 0+1)
  by_cases hf : FirstInstance (σ.cache.cacheData key)
  · simp only [setCache,if_pos (show _=_ from hf),watchNewEntry_lists,hsave,hf,if_true,true_and]
  · simp only [setCache,if_neg (show ¬_=_ from hf),hsave,hf,if_false,true_and]

def removeCache (c : Cache Key Data) (key : Key) : Cache Key Data where
  cacheData := update c.cacheData key
    {c.cacheData key with data := none,inst := none,session := none}
  changedKeys := c.changedKeys.insert key
  deferredRemovals := c.deferredRemovals.insert key
  removedSessionKeys :=
    match (c.cacheData key).session with
    | some sessionKey => c.removedSessionKeys.insert (sessionKey,key)
    | none => c.removedSessionKeys

lemma scdRemoveEntry_eq (σ : Server Key Data) (key : Key) : scdRemoveEntry σ key =
      if (σ.cache.cacheData key).data.isNone then (.noKey,σ)
      else (.ok,{σ with cache := removeCache σ.cache key}) := rfl

end Effects

def addPattern (info : SessionInfo Key) (key : Key) : SessionInfo Key :=
  if info.regexKeys.contains key then info
  else {info with regexKeys := info.regexKeys++[key]}

def watchPattern (σ : Server Key Data) (session : MachPort) (s : SCDSession Key) (key : Key) :
    Server Key Data :=
  ((σ.setSession session (some {s with reKeys := s.reKeys++[key]})).applyCache
    (addRegexWatcherByKey env session key)).setInfo session
      (addPattern (σ.sessionData session) key)

def unwatchPattern (σ : Server Key Data) (session : MachPort) (s : SCDSession Key) (key : Key) :
    Server Key Data :=
  ((σ.setSession session (some {s with reKeys := s.reKeys.erase key})).applyCache
    (removeRegexWatcherByKey env session key)).setInfo session
      {σ.sessionData session with regexKeys := (σ.sessionData session).regexKeys.erase key}

def watchKey (σ : Server Key Data) (session : MachPort) (s : SCDSession Key) (key : Key) :
    Server Key Data :=
  { σ.setSession session (some {s with keys := s.keys++[key]}) with
    cache := σ.cache.modify key (·.addWatcher session)}

def unwatchKey (σ : Server Key Data) (session : MachPort) (s : SCDSession Key) (key : Key) :
    Server Key Data :=
  { σ.setSession session (some {s with keys := s.keys.erase key}) with
    cache := σ.cache.modify key (·.removeWatcher session)}

/-- All that `scdNotifierAdd` can do. -/
inductive AddsWatch (σ : Server Key Data) (session : MachPort) (key : Key) :
    Bool → SCDStatus × Server Key Data → Prop
  | refused (regex : Bool) (status : SCDStatus) (h : status≠.ok) :
    AddsWatch σ session key regex (status,σ)
  | notCompiled (s : SCDSession Key) (hs : σ.sessions session=some s) (hk : key∉s.reKeys)
    (hc : env.regcomp key=false) : AddsWatch σ session key true
      (.failed,σ.setSession session (some {s with reKeys := s.reKeys++[key]}))
  | pattern (s : SCDSession Key) (hs : σ.sessions session=some s) (hk : key∉s.reKeys)
    (hc : env.regcomp key=true) :
    AddsWatch σ session key true (.ok,watchPattern env σ session s key)
  | plain (s : SCDSession Key) (hs : σ.sessions session=some s) (hk : key∉s.keys) :
    AddsWatch σ session key false (.ok,watchKey σ session s key)

lemma scdNotifierAdd_adds (σ : Server Key Data) (session : MachPort) (key : Key)
    (regex : Bool) :
    AddsWatch env σ session key regex (scdNotifierAdd env σ session key regex) := by
  cases hs : σ.sessions session with
  | none =>
    simp only [scdNotifierAdd,hs]
    exact .refused regex .noSession (by decide)
  | some s =>
    cases regex with
    | false =>
      by_cases hk : key∈s.keys
      · simp only [scdNotifierAdd,hs,contains_iff_mem.mpr hk,if_true,Bool.false_eq_true,if_false]
        exact .refused false .keyExists (by decide)
      · have hcontains : s.keys.contains key=false := by simp [hk]
        simp only [scdNotifierAdd,hs,hcontains,Bool.false_eq_true,if_false]
        exact .plain s hs hk
    | true =>
      by_cases hk : key∈s.reKeys
      · simp only [scdNotifierAdd,hs,contains_iff_mem.mpr hk,if_true]
        exact .refused true .keyExists (by decide)
      · have hcontains : s.reKeys.contains key=false := by simp [hk]
        cases hc : env.regcomp key with
        | false =>
          simp only [scdNotifierAdd,hs,hcontains,hc,Bool.false_eq_true,if_false,if_true,
            Bool.not_false]
          exact .notCompiled s hs hk hc
        | true =>
          have heq : scdNotifierAdd env σ session key true =
              (.ok,watchPattern env σ session s key) := by
            simp only [scdNotifierAdd,hs,hcontains,hc,Bool.false_eq_true,if_false,if_true,
              Bool.not_true,watchPattern,addPattern]
            by_cases hi : key∈(σ.sessionData session).regexKeys <;>
              simp [Server.setSession,Server.applyCache,Server.setInfo,hi]
          rw [heq]
          exact .pattern s hs hk hc

/-- All that `scdNotifierRemove` can do. -/
inductive RemovesWatch (σ : Server Key Data) (session : MachPort) (key : Key) :
    Bool → SCDStatus × Server Key Data → Prop
  | refused (regex : Bool) (status : SCDStatus) (h : status≠.ok) :
    RemovesWatch σ session key regex (status,σ)
  | pattern (s : SCDSession Key) (hs : σ.sessions session=some s) (hk : key∈s.reKeys)
    (hi : key∈(σ.sessionData session).regexKeys) :
    RemovesWatch σ session key true (.ok,unwatchPattern env σ session s key)
  | plain (s : SCDSession Key) (hs : σ.sessions session=some s) (hk : key∈s.keys) :
    RemovesWatch σ session key false (.ok,unwatchKey σ session s key)

lemma scdNotifierRemove_removes {σ : Server Key Data} {session : MachPort} {key : Key}
    {regex : Bool} {r : SCDStatus × Server Key Data}
    (hr : scdNotifierRemove env σ session key regex=some r) :
    RemovesWatch env σ session key regex r := by
  cases hs : σ.sessions session with
  | none =>
    simp only [scdNotifierRemove,hs,some.injEq] at hr
    subst r
    exact .refused regex .noSession (by decide)
  | some s =>
    cases regex with
    | false =>
      by_cases hk : key∈s.keys
      · simp only [scdNotifierRemove,hs,contains_iff_mem.mpr hk,Bool.not_true,
          Bool.false_eq_true,if_false,some.injEq] at hr
        subst r
        exact .plain s hs hk
      · have hcontains : s.keys.contains key=false := by simp [hk]
        simp only [scdNotifierRemove,hs,hcontains,Bool.not_false,Bool.false_eq_true,if_false,
          if_true,some.injEq] at hr
        subst r
        exact .refused false .noKey (by decide)
    | true =>
      by_cases hk : key∈s.reKeys
      · simp only [scdNotifierRemove,hs,contains_iff_mem.mpr hk,Bool.not_true,
          Bool.false_eq_true,if_false,if_true] at hr
        by_cases hi : key∈(σ.sessionData session).regexKeys
        · have hcontains : (σ.sessionData session).regexKeys.contains key=true :=
            contains_iff_mem.mpr hi
          simp only [Server.setSession,hcontains,Bool.not_true,Bool.false_eq_true,if_false,
            some.injEq] at hr
          subst r
          exact .pattern s hs hk hi
        · simp [Server.setSession,hi] at hr
      · have hcontains : s.reKeys.contains key=false := by simp [hk]
        simp only [scdNotifierRemove,hs,hcontains,Bool.not_false,if_true,some.injEq] at hr
        subst r
        exact .refused true .noKey (by decide)

end Darwin.Configd
