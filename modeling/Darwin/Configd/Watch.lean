import Darwin.Configd.Invariant
import Darwin.Lib.AppendNew
import Mathlib.Data.List.Count

/-! The reference counts of watched keys: what a session's own watches ask for, and that every
request which does not meet one of three flaws keeps the counts at that. -/
open List Function Option
namespace Darwin.Configd

variable {Key Data : Type} [DecidableEq Key] (env : Environment Key Data)

section Counts

def patternWatches (info : SessionInfo Key) (key : Key) : ℕ :=
  info.regexKeys.countP (env.regexec · key)

def directWatch (s : Option (SCDSession Key)) (key : Key) : ℕ :=
  match s with
  | some s => if key∈s.keys then 1 else 0
  | none => 0

/-- Patterns count for a key that has data, and until the lock is released for one that has lost
its data under the lock. -/
def Counted (c : Cache Key Data) (key : Key) : Prop :=
  (c.cacheData key).data.isSome=true ∨ key∈c.deferredRemovals

instance (c : Cache Key Data) (key : Key) : Decidable (Counted c key) :=
  inferInstanceAs (Decidable (_ ∨ _))

def expectedRefs (σ : Server Key Data) (session : MachPort) (key : Key) : ℕ :=
  directWatch (σ.sessions session) key +
    if Counted σ.cache key then patternWatches env (σ.sessionData session) key else 0

omit [DecidableEq Key] in
lemma foldl_addWatcher (l : List Key) (session : MachPort) (key : Key) (e : CacheEntry Data) :
    (l.foldl (fun e preg => if env.regexec preg key then e.addWatcher session else e) e).watchers
      session=e.watchers session+l.countP (env.regexec · key) := by
  induction l generalizing e with
  | nil => rfl
  | cons preg l ih =>
    rw [foldl_cons,ih,countP_cons]
    cases hm : env.regexec preg key with
    | false => simp
    | true =>
      simp only [CacheEntry.addWatcher,if_true,update_self]
      omega

omit [DecidableEq Key] in
lemma foldl_removeWatcher (l : List Key) (session : MachPort) (key : Key) (e : CacheEntry Data) :
    (l.foldl (fun e preg => if env.regexec preg key then e.removeWatcher session else e)
      e).watchers session=e.watchers session-l.countP (env.regexec · key) := by
  induction l generalizing e with
  | nil => rfl
  | cons preg l ih =>
    rw [foldl_cons,ih,countP_cons]
    cases hm : env.regexec preg key with
    | false => simp
    | true =>
      simp only [CacheEntry.removeWatcher,if_true,update_self]
      omega

omit [DecidableEq Key] in
lemma grantRegexes_watchers (sessionData : MachPort → SessionInfo Key) (key : Key)
    (e : CacheEntry Data) (session : MachPort) :
    (grantRegexes env sessionData key e).watchers session =
      e.watchers session+patternWatches env (sessionData session) key :=
  foldl_addWatcher env _ session key e

omit [DecidableEq Key] in
lemma dropRegexes_watchers (sessionData : MachPort → SessionInfo Key) (key : Key)
    (e : CacheEntry Data) (session : MachPort) :
    (dropRegexes env sessionData key e).watchers session =
      e.watchers session-patternWatches env (sessionData session) key :=
  foldl_removeWatcher env _ session key e

omit [DecidableEq Key] in
lemma addRegexWatcherByKey_watchers (session : MachPort) (preg key : Key) (e : CacheEntry Data)
    (p : MachPort) : (addRegexWatcherByKey env session preg key e).watchers p=e.watchers p +
      if p=session ∧ e.data.isSome=true ∧ env.regexec preg key=true then 1 else 0 := by
  cases hd : e.data <;> cases hm : env.regexec preg key <;> by_cases hp : p=session <;>
    simp [addRegexWatcherByKey,CacheEntry.addWatcher,hd,hm,hp]

omit [DecidableEq Key] in
lemma removeRegexWatcherByKey_watchers (session : MachPort) (preg key : Key)
    (e : CacheEntry Data) (p : MachPort) :
    (removeRegexWatcherByKey env session preg key e).watchers p=e.watchers p -
      if p=session ∧ env.regexec preg key=true then 1 else 0 := by
  cases hm : env.regexec preg key with
  | false => simp [removeRegexWatcherByKey,hm]
  | true =>
    by_cases hp : p=session
    · subst p
      by_cases hw : e.watchers session=0
      · simp [removeRegexWatcherByKey,hw]
      · simp [removeRegexWatcherByKey,CacheEntry.removeWatcher,hm,hw]
    · by_cases hw : e.watchers session=0
      · simp [removeRegexWatcherByKey,hw,hp]
      · simp [removeRegexWatcherByKey,CacheEntry.removeWatcher,hm,hw,hp]

end Counts

section Invariant

/-- The counts are the expected ones, and what keeps them so: a pattern in use is one its session
has asked for, no key is watched by name twice, and a changed key has data or has lost it under
the lock. -/
structure WatchInv (σ : Server Key Data) : Prop where
  refs : ∀ p k,(σ.cache.cacheData k).watchers p=expectedRefs env σ p k
  pending : ∀ k∈σ.cache.deferredRemovals,(σ.cache.cacheData k).data=none
  changed : ∀ k∈σ.cache.changedKeys,Counted σ.cache k
  compiled : ∀ p s,σ.sessions p=some s → ∀ preg∈(σ.sessionData p).regexKeys,preg∈s.reKeys
  closed : ∀ p,σ.sessions p=none → (σ.sessionData p).regexKeys=[]
  plain : ∀ p s,σ.sessions p=some s → s.keys.Nodup
  patterns : ∀ p,(σ.sessionData p).regexKeys.Nodup
  notified : ∀ p,(σ.sessionData p).changedKeys.Nodup

omit [DecidableEq Key] in
def SCDSession.watches (s : SCDSession Key) : List Key × List Key := (s.keys,s.reKeys)

lemma directWatch_congr {s t : Option (SCDSession Key)}
    (h : s.map SCDSession.watches=t.map SCDSession.watches) (key : Key) :
    directWatch s key=directWatch t key := by
  cases s with
  | none =>
    cases t with
    | none => rfl
    | some t => cases h
  | some s =>
    cases t with
    | none => cases h
    | some t =>
      have hkeys : s.keys=t.keys := congrArg Prod.fst (some.inj h)
      simp only [directWatch,hkeys]

lemma WatchInv.congr {σ σ' : Server Key Data} (h : WatchInv env σ) (hcache : σ'.cache=σ.cache)
    (hregex : ∀ p,(σ'.sessionData p).regexKeys=(σ.sessionData p).regexKeys)
    (hnotified : ∀ p,(σ'.sessionData p).changedKeys.Nodup)
    (hsessions : ∀ p,(σ'.sessions p).map SCDSession.watches =
      (σ.sessions p).map SCDSession.watches) : WatchInv env σ' := by
  have hsome : ∀ p s,σ'.sessions p=some s → ∃ t,σ.sessions p=some t ∧
      s.keys=t.keys ∧ s.reKeys=t.reKeys := by
    intro p s hs
    have hp := hsessions p
    rw [hs] at hp
    cases ht : σ.sessions p with
    | none =>
      rw [ht] at hp
      cases hp
    | some t =>
      rw [ht] at hp
      have hw := some.inj hp
      exact ⟨t,rfl,congrArg Prod.fst hw,congrArg Prod.snd hw⟩
  refine ⟨?_,?_,?_,?_,?_,?_,fun p => hregex p▸h.patterns p,hnotified⟩
  · intro p k
    rw [hcache,h.refs p k]
    simp only [expectedRefs,hcache,directWatch_congr (hsessions p),patternWatches,hregex]
  · rw [hcache]
    exact h.pending
  · rw [hcache]
    exact h.changed
  · intro p s hs preg hpreg
    obtain ⟨t,ht,-,hre⟩ := hsome p s hs
    rw [hre]
    exact h.compiled p t ht preg (by rwa [hregex] at hpreg)
  · intro p hp
    have hnone : σ.sessions p=none := by
      have := hsessions p
      rw [hp] at this
      cases ht : σ.sessions p with
      | none => rfl
      | some t =>
        rw [ht] at this
        cases this
    rw [hregex]
    exact h.closed p hnone
  · intro p s hs
    obtain ⟨t,ht,hkeys,-⟩ := hsome p s hs
    rw [hkeys]
    exact h.plain p t ht

variable {σ : Server Key Data}

lemma WatchInv.setCache (h : WatchInv env σ) {c : Cache Key Data}
    (hrefs : ∀ p k,(c.cacheData k).watchers p=directWatch (σ.sessions p) k +
      if Counted c k then patternWatches env (σ.sessionData p) k else 0)
    (hpending : ∀ k∈c.deferredRemovals,(c.cacheData k).data=none)
    (hchanged : ∀ k∈c.changedKeys,Counted c k) : WatchInv env {σ with cache := c} :=
  ⟨hrefs,hpending,hchanged,h.compiled,h.closed,h.plain,h.patterns,h.notified⟩

lemma WatchInv.write (h : WatchInv env σ) (hc : CacheOk σ.cache)
    (p : MachPort) (key : Key) (data : Data)
    (hsafe : (σ.cache.cacheData key).inst≠some 0) :
    WatchInv env {σ with cache := Configd.setCache env σ p key data} := by
  obtain ⟨hchanged,hdeferred,-⟩ := setCache_lists env σ p key data
  have hentry := setCache_cacheData env σ p key data
  have hother : ∀ k,k≠key → (Configd.setCache env σ p key data).cacheData k =
      σ.cache.cacheData k := by
    intro k hk
    rw [hentry,update_of_ne hk]
  have hmem : ∀ k,k≠key → (k∈(Configd.setCache env σ p key data).deferredRemovals ↔
      k∈σ.cache.deferredRemovals) := by
    intro k hk
    rw [hdeferred]
    split
    · exact mem_erase_of_ne hk
    · rfl
  have hdata : ((Configd.setCache env σ p key data).cacheData key).data=some data := by
    rw [hentry,update_self]
    split <;> rfl
  have hcounted : ∀ k,k≠key → (Counted (Configd.setCache env σ p key data) k ↔
      Counted σ.cache k) := by
    intro k hk
    rw [Counted,Counted,hother k hk,hmem k hk]
  have hfirst : FirstInstance (σ.cache.cacheData key) ↔ (σ.cache.cacheData key).data=none := by
    have hentries := hc.entries key
    cases hi : (σ.cache.cacheData key).inst with
    | none =>
      rw [hi,isSome_none,isSome_eq_false_iff,isNone_iff_eq_none] at hentries
      simp [FirstInstance,hi,hentries]
    | some i =>
      rw [hi,isSome_some] at hentries
      have hi0 : i≠0 := fun he => hsafe (by rw [hi,he])
      refine ⟨fun hf => absurd ?_ hi0,fun hd => by simp [hd] at hentries⟩
      simpa [FirstInstance,hi] using hf
  refine h.setCache env ?_ ?_ ?_
  · intro q k
    by_cases hk : k=key
    · subst k
      rw [if_pos (.inl (by rw [hdata]; rfl)),hentry,update_self]
      have hold := h.refs q key
      simp only [expectedRefs] at hold
      by_cases hf : FirstInstance (σ.cache.cacheData key)
      · by_cases hd : key∈σ.cache.deferredRemovals
        · rw [if_neg (by simp [hd])]
          rw [if_pos (.inr hd)] at hold
          exact hold
        · rw [if_pos ⟨hf,hd⟩,grantRegexes_watchers]
          rw [if_neg (by simp [Counted,hfirst.mp hf,hd])] at hold
          change (σ.cache.cacheData key).watchers q+_=_
          rw [hold,Nat.add_zero]
      · rw [if_neg (by simp [hf])]
        rw [if_pos (.inl (isSome_iff_ne_none.mpr (mt hfirst.mpr hf)))] at hold
        exact hold
    · rw [hother k hk,h.refs q k,expectedRefs]
      simp only [hcounted k hk]
  · intro k hk
    have hne : k≠key := by
      rintro rfl
      rw [hdeferred] at hk
      split at hk
      · exact (hc.deferred.not_mem_erase) hk
      · rename_i hf
        exact hf (hfirst.mpr (h.pending k hk))
    rw [hother k hne]
    exact h.pending k ((hmem k hne).mp hk)
  · intro k hk
    by_cases hne : k=key
    · subst k
      exact .inl (by rw [hdata]; rfl)
    · rw [hchanged,mem_insert_iff] at hk
      exact (hcounted k hne).mpr (h.changed k (hk.resolve_left hne))

lemma WatchInv.removal (h : WatchInv env σ) (key : Key)
    (hd : (σ.cache.cacheData key).data.isSome=true) :
    WatchInv env {σ with cache := removeCache σ.cache key} := by
  have hself : ((removeCache σ.cache key).cacheData key).data=none := by simp [removeCache]
  have hother : ∀ k,k≠key → (removeCache σ.cache key).cacheData k=σ.cache.cacheData k := by
    intro k hk
    simp [removeCache,hk]
  have hcounted : ∀ k,Counted (removeCache σ.cache key) k ↔ Counted σ.cache k := by
    intro k
    by_cases hk : k=key
    · subst k
      exact ⟨fun _ => .inl hd,fun _ => .inr mem_insert_self⟩
    · rw [Counted,Counted,hother k hk]
      simp [removeCache,hk]
  refine h.setCache env ?_ ?_ ?_
  · intro q k
    simp only [hcounted k]
    rw [show ((removeCache σ.cache key).cacheData k).watchers q =
      (σ.cache.cacheData k).watchers q from ?_]
    · exact h.refs q k
    · by_cases hk : k=key
      · subst k
        simp [removeCache]
      · rw [hother k hk]
  · intro k hk
    by_cases hne : k=key
    · subst k
      exact hself
    · rw [hother k hne]
      exact h.pending k ((mem_insert_iff.mp hk).resolve_left hne)
  · intro k hk
    rw [hcounted]
    by_cases hne : k=key
    · subst k
      exact .inl hd
    · exact h.changed k ((mem_insert_iff.mp hk).resolve_left hne)

lemma foldl_notifyKey_changes (l : List Key) (σ : Server Key Data) (p : MachPort) :
    ((l.foldl notifyKey σ).sessionData p).changedKeys =
      appendNew (fun k => decide (0<(σ.cache.cacheData k).watchers p))
        (σ.sessionData p).changedKeys l := by
  induction l generalizing σ with
  | nil => rfl
  | cons key l ih =>
    rw [foldl_cons,ih]
    change appendNew _ (((notifyKey σ key).sessionData p).changedKeys) l=appendNew _ _ l
    congr 1
    simp only [notifyKey,appendOne]
    split <;> rfl

lemma foldl_cleanup (l : List (MachPort × Key)) (sessionData : MachPort → SessionInfo Key)
    (p : MachPort) : ((l.foldl cleanupRemovedSessionKey sessionData) p).changedKeys =
        (sessionData p).changedKeys ∧ ((l.foldl cleanupRemovedSessionKey sessionData) p).regexKeys =
        (sessionData p).regexKeys := by
  induction l generalizing sessionData with
  | nil => exact ⟨rfl,rfl⟩
  | cons removed l ih =>
    rw [foldl_cons,(ih _).1,(ih _).2]
    by_cases hp : p=removed.1
    · subst p
      simp [cleanupRemovedSessionKey]
    · simp [cleanupRemovedSessionKey,hp]

lemma commit_changes (σ : Server Key Data) (p : MachPort) :
    ((commit env σ).sessionData p).changedKeys =
      appendNew (fun k => decide (0<(σ.cache.cacheData k).watchers p))
        (σ.sessionData p).changedKeys σ.cache.changedKeys :=
  (foldl_cleanup _ _ p).1.trans
    (foldl_notifyKey_changes σ.cache.changedKeys {σ with saved := .empty} p)

lemma commit_regexKeys (σ : Server Key Data) (p : MachPort) :
    ((commit env σ).sessionData p).regexKeys=(σ.sessionData p).regexKeys :=
  (foldl_cleanup _ _ p).2.trans
    (foldl_notifyKey_info σ.cache.changedKeys {σ with saved := .empty} p).1

lemma WatchInv.commit (h : WatchInv env σ) (hc : CacheOk σ.cache) :
    WatchInv env (commit env σ) := by
  obtain ⟨hchanged,hdeferred,-⟩ := commit_lists env σ
  have hentry := commit_cacheData env σ hc.deferred
  refine ⟨?_,?_,?_,?_,?_,?_,fun p => commit_regexKeys env σ p▸h.patterns p,?_⟩
  · intro p k
    have hold := h.refs p k
    rw [hentry,expectedRefs,commit_sessions,patternWatches,commit_regexKeys]
    rw [expectedRefs,patternWatches] at hold
    by_cases hk : k∈σ.cache.deferredRemovals
    · have hnot : ¬Counted (Configd.commit env σ).cache k := by
        rw [Counted,hdeferred,hentry,if_pos hk]
        simp [dropRegexes,h.pending k hk]
      rw [if_pos (.inr hk)] at hold
      rw [if_pos hk,if_neg hnot,dropRegexes_watchers,hold,patternWatches]
      omega
    · have hcounted : Counted (Configd.commit env σ).cache k ↔ Counted σ.cache k := by
        rw [Counted,Counted,hdeferred,hentry,if_neg hk]
        simp [hk]
      rw [if_neg hk,hold]
      simp only [hcounted]
  · rw [hdeferred]
    exact fun k hk => absurd hk not_mem_nil
  · rw [hchanged]
    exact fun k hk => absurd hk not_mem_nil
  · intro p s hs preg hpreg
    rw [commit_sessions] at hs
    rw [commit_regexKeys] at hpreg
    exact h.compiled p s hs preg hpreg
  · intro p hp
    rw [commit_sessions] at hp
    rw [commit_regexKeys]
    exact h.closed p hp
  · intro p s hs
    rw [commit_sessions] at hs
    exact h.plain p s hs
  · intro p
    rw [commit_changes]
    exact appendNew_nodup _ (h.notified p) _

end Invariant

end Darwin.Configd
