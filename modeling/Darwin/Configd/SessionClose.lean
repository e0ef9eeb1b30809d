import Darwin.Configd.SessionKeys

/-! The end of a session. Its watches go first; then the keys it owns are removed under the lock,
from the cache that is kept, and their watchers are told when the lock is released. -/
open List
namespace Darwin.Configd

variable {Key Data : Type} [DecidableEq Key] (env : Environment Key Data)

section Strip

def CacheEntry.cleared (e : CacheEntry Data) : CacheEntry Data :=
  {e with data := none,inst := none,session := none}

omit [DecidableEq Key] in
@[simp] lemma cleared_session (e : CacheEntry Data) : e.cleared.session=none := rfl

def stripKeys (p : MachPort) (keys : List Key) (c : Cache Key Data) : Cache Key Data :=
  keys.foldl (fun c key => if (c.cacheData key).session=some p then removeCache c key else c) c

lemma removeCache_self (c : Cache Key Data) (key : Key) :
    (removeCache c key).cacheData key=(c.cacheData key).cleared := by
  simp [removeCache,CacheEntry.cleared]

lemma removeCache_other (c : Cache Key Data) {key k : Key} (h : k≠key) :
    (removeCache c key).cacheData k=c.cacheData k := by
  simp [removeCache,h]

lemma removeCache_pairs {c : Cache Key Data} {key : Key} {p : MachPort}
    (h : (c.cacheData key).session=some p) (q : MachPort) (k : Key) :
    (q,k)∈(removeCache c key).removedSessionKeys ↔ (q=p ∧ k=key) ∨ (q,k)∈c.removedSessionKeys := by
  simp only [removeCache,h]
  rw [mem_insert_iff,Prod.mk.injEq]

lemma stripKeys_effect (p : MachPort) (keys : List Key) (c : Cache Key Data) :
    (∀ k,(stripKeys p keys c).cacheData k =
      if k∈keys ∧ (c.cacheData k).session=some p then (c.cacheData k).cleared
      else c.cacheData k) ∧ (∀ k,k∈(stripKeys p keys c).changedKeys ↔
      k∈c.changedKeys ∨ (k∈keys ∧ (c.cacheData k).session=some p)) ∧
    (∀ k,k∈(stripKeys p keys c).deferredRemovals ↔
      k∈c.deferredRemovals ∨ (k∈keys ∧ (c.cacheData k).session=some p)) := by
  induction keys generalizing c with
  | nil => simp [stripKeys]
  | cons key keys ih =>
    by_cases hkey : (c.cacheData key).session=some p
    · have hfold : stripKeys p (key::keys) c=stripKeys p keys (removeCache c key) := by
        simp [stripKeys,hkey]
      obtain ⟨hentry,hchanged,hdeferred⟩ := ih (removeCache c key)
      refine ⟨fun k => ?_,fun k => ?_,fun k => ?_⟩
      · rw [hfold,hentry k]
        by_cases hk : k=key
        · subst k
          simp [hkey,removeCache_self]
        · simp [removeCache_other c hk,hk]
      · rw [hfold,hchanged k]
        by_cases hk : k=key
        · subst k
          simp [hkey,removeCache]
        · simp [hk,removeCache]
      · rw [hfold,hdeferred k]
        by_cases hk : k=key
        · subst k
          simp [hkey,removeCache]
        · simp [hk,removeCache]
    · have hfold : stripKeys p (key::keys) c=stripKeys p keys c := by simp [stripKeys,hkey]
      obtain ⟨hentry,hchanged,hdeferred⟩ := ih c
      refine ⟨fun k => ?_,fun k => ?_,fun k => ?_⟩
      · rw [hfold,hentry k]
        by_cases hk : k=key
        · subst k
          simp [hkey]
        · simp [hk]
      · rw [hfold,hchanged k]
        by_cases hk : k=key
        · subst k
          simp [hkey]
        · simp [hk]
      · rw [hfold,hdeferred k]
        by_cases hk : k=key
        · subst k
          simp [hkey]
        · simp [hk]

lemma stripKeys_pairs (p : MachPort) (keys : List Key) (c : Cache Key Data) {q : MachPort}
    {k : Key} (h : (q,k)∈(stripKeys p keys c).removedSessionKeys) :
    (q,k)∈c.removedSessionKeys ∨ q=p := by
  induction keys generalizing c with
  | nil => exact .inl h
  | cons key keys ih =>
    by_cases hkey : (c.cacheData key).session=some p
    · have hfold : stripKeys p (key::keys) c=stripKeys p keys (removeCache c key) := by
        simp [stripKeys,hkey]
      rw [hfold] at h
      rcases ih (removeCache c key) h with hc | hq
      · rcases (removeCache_pairs hkey q k).mp hc with ⟨hq,-⟩ | hc
        · exact .inr hq
        · exact .inl hc
      · exact .inr hq
    · have hfold : stripKeys p (key::keys) c=stripKeys p keys c := by simp [stripKeys,hkey]
      exact ih c (hfold▸h)

lemma OwnersOk.strip {σ : Server Key Data} {E : MachPort → Prop} (h : OwnersOk σ E)
    (p : MachPort) (keys : List Key) :
    OwnersOk {σ with cache := stripKeys p keys σ.cache} E := by
  induction keys generalizing σ with
  | nil => exact h
  | cons key keys ih =>
    by_cases hkey : (σ.cache.cacheData key).session=some p
    · have hfold : stripKeys p (key::keys) σ.cache =
          stripKeys p keys (removeCache σ.cache key) := by simp [stripKeys,hkey]
      rw [hfold]
      exact ih (h.removal key)
    · have hfold : stripKeys p (key::keys) σ.cache=stripKeys p keys σ.cache := by
        simp [stripKeys,hkey]
      rw [hfold]
      exact ih h

lemma removeMySessionKeys_eq {σ : Server Key Data} {p : MachPort} {s : SCDSession Key}
    (hs : σ.sessions p=some s) (hl : σ.isLocked=true)
    (hc : CacheOk σ.cache) (keys : List Key) :
    removeMySessionKeys env σ p keys={σ with cache := stripKeys p keys σ.cache} := by
  induction keys generalizing σ with
  | nil => rfl
  | cons key keys ih =>
    have hfold : removeMySessionKeys env σ p (key::keys)=removeMySessionKeys env
          (if isMySessionKey σ p key then (scdRemove env σ p key).2 else σ) p keys := rfl
    by_cases hkey : (σ.cache.cacheData key).session=some p
    · have hmine : isMySessionKey σ p key=true := by simp [isMySessionKey,hkey]
      have hsome : (σ.cache.cacheData key).data.isNone=false := by
        rw [Option.isNone_eq_false_iff]
        exact hc.marked key p hkey
      have hremove : (scdRemove env σ p key).2 =
          {σ with cache := removeCache σ.cache key} := by
        rw [scdRemove,withLock_locked env hs hl,scdRemoveEntry_eq,hsome]
        rfl
      rw [hfold,if_pos hmine,hremove,ih (σ := {σ with cache := removeCache σ.cache key}) hs hl
        (cacheOk_removeCache hc key)]
      simp [stripKeys,hkey]
    · have hmine : isMySessionKey σ p key=false := by simp [isMySessionKey,hkey]
      rw [hfold,hmine]
      simp only [Bool.false_eq_true,if_false]
      rw [ih hs hl hc]
      simp [stripKeys,hkey]

lemma cacheOk_stripKeys {p : MachPort} {keys : List Key} {c : Cache Key Data} (h : CacheOk c) :
    CacheOk (stripKeys p keys c) := by
  induction keys generalizing c with
  | nil => exact h
  | cons key keys ih =>
    change CacheOk (stripKeys p keys (if (c.cacheData key).session=some p then
      removeCache c key else c))
    split
    · exact ih (cacheOk_removeCache h key)
    · exact ih h

end Strip

section Close

variable {s : SCDSession Key} {p : MachPort} {σ : Server Key Data}

lemma commit_quiet (hchanged : σ.cache.changedKeys=[])
    (hdeferred : σ.cache.deferredRemovals=[]) (hremoved : σ.cache.removedSessionKeys=[]) :
    commit env σ={σ with saved := .empty} := by
  rcases σ with ⟨⟨cacheData,changed,deferred,removed⟩,saved,info,sessions,locked,needs⟩
  simp only at hchanged hdeferred hremoved
  subst hchanged hdeferred hremoved
  rfl

lemma foldl_notifyKey_needs (l : List Key) (σ : Server Key Data) (q : MachPort) :
    (l.foldl notifyKey σ).needsNotification q=true ↔
      σ.needsNotification q=true ∨ ∃ k∈l,0<(σ.cache.cacheData k).watchers q := by
  induction l generalizing σ with
  | nil => simp
  | cons key l ih =>
    rw [foldl_cons,ih]
    simp [notifyKey,or_assoc]

lemma commit_needsNotification (σ : Server Key Data) (q : MachPort) :
    (commit env σ).needsNotification q=true ↔ σ.needsNotification q=true ∨
      ∃ k∈σ.cache.changedKeys,0<(σ.cache.cacheData k).watchers q :=
  foldl_notifyKey_needs σ.cache.changedKeys {σ with saved := .empty} q

/-- The state in which the session keys of a closing session have been removed. -/
structure Stripped (p : MachPort) (σ τ : Server Key Data) : Prop where
  cache : τ.cache=stripKeys p (σ.sessionData p).sessionKeys σ.cache
  info : τ.sessionData=σ.sessionData
  needs : τ.needsNotification=σ.needsNotification
  others : ∀ q,q≠p → τ.sessions q=σ.sessions q

lemma removeMySessionKeys_cacheOnly (σ : Server Key Data) (p : MachPort) (hl : σ.isLocked=true)
    (keys : List Key) : ∃ c,removeMySessionKeys env σ p keys={σ with cache := c} := by
  induction keys generalizing σ with
  | nil => exact ⟨σ.cache,rfl⟩
  | cons key keys ih =>
    have hstep : ∃ c,(if isMySessionKey σ p key then (scdRemove env σ p key).2 else σ) =
        {σ with cache := c} := by
      split
      · cases hs : σ.sessions p with
        | none =>
          rw [scdRemove,withLock_none env hs]
          exact ⟨σ.cache,rfl⟩
        | some s =>
          rw [scdRemove,withLock_locked env hs hl]
          exact ⟨_,scdRemoveEntry_cacheOnly key σ⟩
      · exact ⟨σ.cache,rfl⟩
    obtain ⟨c,hc⟩ := hstep
    obtain ⟨c',hc'⟩ := ih {σ with cache := c} hl
    refine ⟨c',?_⟩
    rw [←hc',←hc]
    rfl

lemma closeSessionKeys_stripped
    (hs : σ.sessions p=some s) (hlock : s.isLocked=σ.isLocked) (hc : CacheOk σ.cache)
    (hwrite : s.callerEUID=0 ∨ σ.isLocked=true ∨ (σ.sessionData p).sessionKeys=[]) :
    Stripped p σ (closeSessionKeys env σ p (σ.sessionData p).sessionKeys) ∧
      ∃ s',(closeSessionKeys env σ p (σ.sessionData p).sessionKeys).sessions p=some s' ∧
        s'.isLocked=(closeSessionKeys env σ p (σ.sessionData p).sessionKeys).isLocked := by
  generalize hkeys : (σ.sessionData p).sessionKeys=keys at hwrite ⊢
  by_cases hempty : keys=[]
  · subst hempty
    exact ⟨⟨by rw [hkeys]; rfl,rfl,rfl,fun _ _ => rfl⟩,s,hs,hlock⟩
  · have hne : keys.isEmpty=false := by simpa using hempty
    unfold closeSessionKeys
    rw [hne]
    cases hl : σ.isLocked with
    | true =>
      simp only [Bool.false_eq_true,if_false,if_true]
      rw [removeMySessionKeys_eq env hs hl hc]
      obtain ⟨c,hcache⟩ := removeMySessionKeys_cacheOnly env
        (swapLockedCacheData {σ with cache := stripKeys p keys σ.cache}) p hl keys
      rw [hcache]
      exact ⟨⟨by rw [hkeys]; rfl,rfl,rfl,fun _ _ => rfl⟩,s,hs,hlock⟩
    | false =>
      have hu : s.callerEUID=0 := by
        rcases hwrite with hu | hl' | hnil
        · exact hu
        · rw [hl] at hl'
          cases hl'
        · exact absurd hnil hempty
      have hself : (σ.held p s).sessions p=some {s with isLocked := true} := by simp [Server.held]
      simp only [Bool.false_eq_true,if_false]
      rw [scdLock_taken hs hl hu,removeMySessionKeys_eq env hself rfl hc]
      refine ⟨⟨by rw [hkeys]; rfl,rfl,rfl,fun q hq => ?_⟩,_,hself,rfl⟩
      simp [Server.held,hq]

/-- What is left of a server after the session has released the lock and gone. -/
structure Released (p : MachPort) (τ ρ : Server Key Data) : Prop where
  cache : ρ.cache=(commit env τ).cache
  info : ρ.sessionData=(commit env τ).sessionData
  needs : ρ.needsNotification=(commit env τ).needsNotification
  isLocked : ρ.isLocked=false
  gone : ρ.sessions p=none
  others : ∀ q,q≠p → ρ.sessions q=τ.sessions q

lemma released_close {τ : Server Key Data} (hok : ServerOk τ)
    (hs : τ.sessions p=some s) (hlock : s.isLocked=τ.isLocked) : Released env p τ
      ((if holdsLock τ p then (scdUnlock env τ p).2 else τ).setSession p none) := by
  cases hl : τ.isLocked with
  | true =>
    have hm : s.isLocked=true := hlock.trans hl
    have hholds : holdsLock τ p=true := by simp [holdsLock,hs,hm]
    rw [if_pos hholds,scdUnlock_held env hs hl hm]
    refine ⟨rfl,rfl,rfl,rfl,by simp [Server.setSession],fun q hq => ?_⟩
    simp [Server.setSession,Server.freed,hq,commit_sessions]
  | false =>
    have hm : s.isLocked=false := hlock.trans hl
    have hholds : ¬holdsLock τ p=true := by simp [holdsLock,hs,hm]
    obtain ⟨hchanged,hdeferred,hremoved⟩ := hok.idle hl
    have hquiet := commit_quiet env hchanged hdeferred hremoved
    rw [if_neg hholds]
    refine ⟨by rw [hquiet]; rfl,by rw [hquiet]; rfl,by rw [hquiet]; rfl,hl,
      by simp [Server.setSession],fun q hq => ?_⟩
    simp [Server.setSession,hq]

/-- The keys that the end of session `p` removes: those on its list that it still owns. -/
def SessionKey (σ : Server Key Data) (p : MachPort) (key : Key) : Prop :=
  key∈(σ.sessionData p).sessionKeys ∧ (σ.cache.cacheData key).session=some p

/-- What the end of session `p` makes of a server: the keys in `mine` are gone and their watchers
have been told, every other key is as it was, and so is what other sessions watch and list. -/
structure Closed (p : MachPort) (mine : Key → Prop) (σ ρ : Server Key Data) : Prop where
  removed : ∀ k,mine k → (ρ.cache.cacheData k).data=none ∧
    (ρ.cache.cacheData k).inst=none ∧ (ρ.cache.cacheData k).session=none
  kept : ∀ k,¬mine k → (ρ.cache.cacheData k).data=(σ.cache.cacheData k).data ∧
    (ρ.cache.cacheData k).inst=(σ.cache.cacheData k).inst ∧
    (ρ.cache.cacheData k).session=(σ.cache.cacheData k).session
  watchers : ∀ q k,q≠p → ¬mine k → k∉σ.cache.deferredRemovals →
    (ρ.cache.cacheData k).watchers q=(σ.cache.cacheData k).watchers q
  dropped : ∀ q k,q≠p → mine k ∨ k∈σ.cache.deferredRemovals → (ρ.cache.cacheData k).watchers q =
      (σ.cache.cacheData k).watchers q-patternWatches env (σ.sessionData q) k
  own : ∀ s,σ.sessions p=some s → ∀ k,¬mine k → k∉σ.cache.deferredRemovals →
    (ρ.cache.cacheData k).watchers p=(σ.cache.cacheData k).watchers p -
      (s.keys.count k+s.reKeys.countP fun preg => env.regexec preg k)
  changes : ∀ q k,q≠p → (k∈(ρ.sessionData q).changedKeys ↔ k∈(σ.sessionData q).changedKeys ∨
      (0<(σ.cache.cacheData k).watchers q ∧ (k∈σ.cache.changedKeys ∨ mine k)))
  needs : ∀ q,q≠p → (ρ.needsNotification q=true ↔ σ.needsNotification q=true ∨
    ∃ k,0<(σ.cache.cacheData k).watchers q ∧ (k∈σ.cache.changedKeys ∨ mine k))
  lists : ρ.cache.changedKeys=[] ∧ ρ.cache.deferredRemovals=[] ∧ ρ.cache.removedSessionKeys=[]
  regexKeys : ∀ q,q≠p → (ρ.sessionData q).regexKeys=(σ.sessionData q).regexKeys
  sessionKeys : ∀ q,q≠p → (∀ k,(q,k)∉σ.cache.removedSessionKeys) →
    (ρ.sessionData q).sessionKeys=(σ.sessionData q).sessionKeys
  isLocked : ρ.isLocked=false
  gone : ρ.sessions p=none
  others : ∀ q,q≠p → ρ.sessions q=σ.sessions q

lemma foldl_cleanup_other {l : List (MachPort × Key)} {q : MachPort}
    (h : ∀ k,(q,k)∉l) (sessionData : MachPort → SessionInfo Key) :
    ((l.foldl cleanupRemovedSessionKey sessionData) q).sessionKeys =
      (sessionData q).sessionKeys := by
  induction l generalizing sessionData with
  | nil => rfl
  | cons removed l ih =>
    obtain ⟨owner,key⟩ := removed
    have hne : q≠owner := by
      rintro rfl
      exact h key mem_cons_self
    rw [foldl_cons,ih fun k hk => h k (mem_cons_of_mem _ hk)]
    simp [cleanupRemovedSessionKey,hne]

lemma commit_sessionKeys_other {τ : Server Key Data} {q : MachPort}
    (h : ∀ k,(q,k)∉τ.cache.removedSessionKeys) :
    ((commit env τ).sessionData q).sessionKeys=(τ.sessionData q).sessionKeys := by
  have hremoved : (processDeferredRemovals env
      (notifyWatchers {τ with saved := .empty})).cache.removedSessionKeys =
        τ.cache.removedSessionKeys := by
    simp only [processDeferredRemovals]
    rw [(foldl_modify_lists _ _ _).2,notifyWatchers_cache]
  simp only [commit,cleanupRemovedSessionKeys]
  rw [foldl_cleanup_other (by rw [hremoved]; exact h)]
  exact (foldl_notifyKey_info τ.cache.changedKeys {τ with saved := .empty} q).2

lemma closed_of_parts {σ σ₂ τ ρ : Server Key Data} (hc : CacheOk σ₂.cache)
    (hw : OnlyWatches p σ σ₂) (hstrip : Stripped p σ₂ τ) (hreleased : Released env p τ ρ)
    (hown : ∀ s,σ.sessions p=some s → ∀ k,(σ₂.cache.cacheData k).watchers p =
      (σ.cache.cacheData k).watchers p -
        (s.keys.count k+s.reKeys.countP fun preg => env.regexec preg k)) :
    Closed env p (SessionKey σ p) σ ρ := by
  obtain ⟨hentry,hchanged,hdeferred⟩ :=
    stripKeys_effect p (σ₂.sessionData p).sessionKeys σ₂.cache
  rw [←hstrip.cache] at hentry hchanged hdeferred
  have hmine : ∀ k,k∈(σ₂.sessionData p).sessionKeys ∧ (σ₂.cache.cacheData k).session=some p ↔
      SessionKey σ p k := by
    intro k
    rw [(hw.entries k).1,(hw.info p).1,SessionKey]
  have hcτ : CacheOk τ.cache := hstrip.cache▸cacheOk_stripKeys hc
  have hcontent := fun k => commit_session env (σ := τ) hcτ k
  have hrefs : ∀ q k,(τ.cache.cacheData k).watchers q=(σ₂.cache.cacheData k).watchers q := by
    intro q k
    rw [hentry k]
    split <;> rfl
  have hwatch : ∀ q k,q≠p → (τ.cache.cacheData k).watchers q=(σ.cache.cacheData k).watchers q :=
    fun q k hq => (hrefs q k).trans (hw.watchers k q hq)
  have hkeys : ∀ k,k∈τ.cache.changedKeys ↔ k∈σ.cache.changedKeys ∨ SessionKey σ p k := by
    intro k
    rw [hchanged k,hmine k,hw.lists.1]
  have hpending : ∀ k,k∈τ.cache.deferredRemovals ↔
      k∈σ.cache.deferredRemovals ∨ SessionKey σ p k := by
    intro k
    rw [hdeferred k,hmine k,hw.lists.2.1]
  have hsteady : ∀ k,¬SessionKey σ p k → k∉σ.cache.deferredRemovals →
      ρ.cache.cacheData k=τ.cache.cacheData k := by
    intro k hk hd
    rw [hreleased.cache,commit_cacheData env τ hcτ.deferred,if_neg]
    exact fun h => ((hpending k).mp h).elim hd hk
  refine
    { removed := fun k hk => ?_
      kept := fun k hk => ?_
      watchers := fun q k hq hk hd => by rw [hsteady k hk hd,hwatch q k hq]
      dropped := fun q k hq hk => ?_
      own := fun s hs k hk hd => by rw [hsteady k hk hd,hrefs,hown s hs k]
      changes := fun q k hq => ?_
      needs := fun q hq => ?_
      lists := ?_
      regexKeys := fun q hq => ?_
      sessionKeys := fun q hq h => ?_
      isLocked := hreleased.isLocked
      gone := hreleased.gone
      others := fun q hq => ?_}
  · obtain ⟨hsession,hdata,hinst⟩ := hcontent k
    rw [hreleased.cache,hsession,hdata,hinst,hentry k,if_pos ((hmine k).mpr hk)]
    exact ⟨rfl,rfl,rfl⟩
  · obtain ⟨hsession,hdata,hinst⟩ := hcontent k
    obtain ⟨hsession',hdata',hinst'⟩ := hw.entries k
    rw [hreleased.cache,hsession,hdata,hinst,hentry k,if_neg (fun h => hk ((hmine k).mp h))]
    exact ⟨hdata',hinst',hsession'⟩
  · rw [hreleased.cache,commit_cacheData env τ hcτ.deferred,
      if_pos ((hpending k).mpr hk.symm),dropRegexes_watchers,hwatch q k hq,hstrip.info,
      patternWatches,patternWatches,(hw.info q).2.2 hq]
  · rw [hreleased.info,commit_changes,mem_appendNew,hstrip.info,(hw.info q).2.1,
      decide_eq_true_iff,hwatch q k hq,hkeys k,and_comm]
  · rw [hreleased.needs,commit_needsNotification,hstrip.needs,hw.needs q hq]
    refine or_congr_right (exists_congr fun k => ?_)
    rw [hkeys k,hwatch q k hq,and_comm]
  · rw [hreleased.cache]
    exact commit_lists env τ
  · rw [hreleased.info,commit_regexKeys,hstrip.info,(hw.info q).2.2 hq]
  · rw [hreleased.info,commit_sessionKeys_other env fun k hk => ?_,hstrip.info,(hw.info q).1]
    rw [hstrip.cache] at hk
    rcases stripKeys_pairs p _ σ₂.cache hk with hold | hqp
    · exact h k (hw.lists.2.2▸hold)
    · exact hq hqp
  · rw [hreleased.others q hq,hstrip.others q hq,hw.others q hq]

omit [DecidableEq Key] in
lemma onlyWatches_cancel (σ : Server Key Data) (p : MachPort) :
    OnlyWatches p σ (scdNotifierCancel σ p) :=
  ⟨fun _ => ⟨rfl,rfl,rfl⟩,fun _ _ _ => rfl,⟨rfl,rfl,rfl⟩,rfl,rfl,fun _ => ⟨rfl,rfl,fun _ => rfl⟩,
    fun _ _ => rfl,rfl,fun q hq => by simp [scdNotifierCancel,hq]⟩

lemma removeNotifications_keys {σ σ' : Server Key Data}
    (hs : σ.sessions p=some s) (hr : removeNotifications env p false σ s.keys=some σ') :
    σ'.sessions p=some {s with keys := []} ∧ σ'.sessionData=σ.sessionData ∧ ∀ k,
      (σ'.cache.cacheData k).watchers p=(σ.cache.cacheData k).watchers p-s.keys.count k := by
  generalize hkeys : s.keys=keys at hr ⊢
  induction keys generalizing σ s with
  | nil =>
    cases hr
    refine ⟨?_,rfl,fun k => rfl⟩
    rw [hs,←hkeys]
  | cons key keys ih =>
    have hremove : scdNotifierRemove env σ p key false=some (.ok,unwatchKey σ p s key) := by
      simp [scdNotifierRemove,hs,hkeys,unwatchKey,Server.setSession]
    simp only [removeNotifications,foldlM_cons,Option.bind_eq_bind,hremove,Option.map_some,
      Option.bind_some] at hr
    have hself : (unwatchKey σ p s key).sessions p=some {s with keys := keys} := by
      simp [unwatchKey,Server.setSession,hkeys]
    obtain ⟨hsession,hdata,hwatch⟩ := ih hself rfl hr
    refine ⟨hsession,hdata,fun k => ?_⟩
    rw [hwatch k,count_cons]
    by_cases hk : k=key
    · subst k
      simp only [unwatchKey,modify_self,CacheEntry.removeWatcher,Function.update_self,
        beq_self_eq_true,if_true]
      omega
    · have hbeq : (key == k)=false := by simpa using fun h => hk h.symm
      simp only [unwatchKey,modify_other _ _ hk,hbeq,Bool.false_eq_true,if_false,Nat.add_zero]

lemma removeNotifications_reKeys {σ σ' : Server Key Data}
    (hs : σ.sessions p=some s) (hr : removeNotifications env p true σ s.reKeys=some σ')
    (k : Key) : (σ'.cache.cacheData k).watchers p =
      (σ.cache.cacheData k).watchers p-s.reKeys.countP fun preg => env.regexec preg k := by
  generalize hkeys : s.reKeys=keys at hr ⊢
  induction keys generalizing σ s with
  | nil =>
    cases hr
    rfl
  | cons key keys ih =>
    have hmem : key∈s.reKeys := by simp [hkeys]
    simp only [removeNotifications,foldlM_cons,Option.bind_eq_bind,
      Option.bind_eq_some_iff,Option.map_eq_some_iff] at hr
    obtain ⟨_,⟨r,hone,rfl⟩,hrest⟩ := hr
    have hinfo : key∈(σ.sessionData p).regexKeys := by
      by_contra hi
      simp [scdNotifierRemove,hs,hmem,Server.setSession,hi] at hone
    have hremove : scdNotifierRemove env σ p key true =
        some (.ok,unwatchPattern env σ p s key) := by
      simp [scdNotifierRemove,hs,hmem,Server.setSession,unwatchPattern,hinfo]
    rw [hremove] at hone
    cases hone
    have hself : (unwatchPattern env σ p s key).sessions p=some {s with reKeys := keys} := by
      simp [unwatchPattern,Server.setInfo,Server.applyCache,Server.setSession,hkeys]
    have hstep : ((unwatchPattern env σ p s key).cache.cacheData k).watchers p =
        (σ.cache.cacheData k).watchers p-if env.regexec key k=true then 1 else 0 := by
      change (removeRegexWatcherByKey env p key k (σ.cache.cacheData k)).watchers p=_
      rw [removeRegexWatcherByKey_watchers]
      simp
    rw [ih hself rfl hrest,hstep,countP_cons]
    omega

/-- A close that is able to remove the session's keys, whether or not it finds the cache locked. -/
theorem scdClose_closed (hok : ServerOk σ)
    (hs : σ.sessions p=some s) (hlock : s.isLocked=σ.isLocked)
    (hwrite : s.callerEUID=0 ∨ σ.isLocked=true ∨ (σ.sessionData p).sessionKeys=[])
    {r : SCDStatus × Server Key Data} (hr : scdClose env σ p=some r) :
    r.1=.ok ∧ Closed env p (SessionKey σ p) σ r.2 ∧
      ∃ τ,(∀ E,OwnersOk σ E → OwnersOk τ E) ∧ CacheOk τ.cache ∧ Released env p τ r.2 := by
  obtain ⟨σ₁,σ₂,h₁,h₂,rfl⟩ := scdClose_some env hs hr
  have hw : OnlyWatches p σ (scdNotifierCancel σ₂ p) :=
    ((removeNotifications_onlyWatches env h₁).trans
      (removeNotifications_onlyWatches env h₂)).trans (onlyWatches_cancel σ₂ p)
  have hok₂ : ServerOk σ₂ :=
    (hok.removeNotifications env p false _ h₁).removeNotifications env p true _ h₂
  have hcancel : ServerOk (scdNotifierCancel σ₂ p) :=
    ⟨hok₂.cache,hok₂.saved,hok₂.idle,hok₂.free,hok₂.holder⟩
  obtain ⟨s₂,hs₂,hm₂,hu₂⟩ : ∃ s₂,(scdNotifierCancel σ₂ p).sessions p=some s₂ ∧
      s₂.isLocked=s.isLocked ∧ s₂.callerEUID=s.callerEUID := by
    have hmap := hw.lock
    rw [hs] at hmap
    obtain ⟨s₂,hs₂,heq⟩ := Option.map_eq_some_iff.mp hmap
    exact ⟨s₂,hs₂,congrArg Prod.fst heq,congrArg Prod.snd heq⟩
  have hwrite₂ : s₂.callerEUID=0 ∨ (scdNotifierCancel σ₂ p).isLocked=true ∨
      ((scdNotifierCancel σ₂ p).sessionData p).sessionKeys=[] := by
    rw [hu₂,hw.isLocked,(hw.info p).1]
    exact hwrite
  have hlock₂ : s₂.isLocked=(scdNotifierCancel σ₂ p).isLocked := by rw [hm₂,hw.isLocked,hlock]
  obtain ⟨hstrip,s',hs',hlock'⟩ :=
    closeSessionKeys_stripped env hs₂ hlock₂ hcancel.cache hwrite₂
  have hokτ := hcancel.closeSessionKeys env p
    ((scdNotifierCancel σ₂ p).sessionData p).sessionKeys
  have hreleased := released_close env hokτ hs' hlock'
  have hown : ∀ t,σ.sessions p=some t → ∀ k,
      ((scdNotifierCancel σ₂ p).cache.cacheData k).watchers p=(σ.cache.cacheData k).watchers p -
        (t.keys.count k+t.reKeys.countP fun preg => env.regexec preg k) := by
    intro t ht k
    obtain rfl : s=t := Option.some.inj (hs.symm.trans ht)
    obtain ⟨hs₁,-,hkeys⟩ := removeNotifications_keys env hs h₁
    have hpatterns := removeNotifications_reKeys env hs₁ h₂ k
    change (σ₂.cache.cacheData k).watchers p=_
    rw [hpatterns,hkeys k]
    exact Nat.sub_sub _ _ _
  refine ⟨rfl,closed_of_parts env hcancel.cache hw hstrip hreleased hown,_,fun E hE => ?_,
    hokτ.cache,hreleased⟩
  have howners₂ : OwnersOk (scdNotifierCancel σ₂ p) E :=
    hE.congr (fun k => (hw.entries k).1) hw.lists.2.2 fun q => (hw.info q).1
  exact (howners₂.strip p _).of_eq hstrip.cache hstrip.info

end Close

end Darwin.Configd
