import Darwin.Configd.Watch
import Darwin.Configd.StaleWrites

/-! Watches over a whole run: the reference counts, and who is told about a change when the lock is
released. -/
open List Function Option Nat Prod
namespace Darwin.Configd

variable {Key Data : Type} [DecidableEq Key] (env : Environment Key Data)

section Steps
variable {α : Type}

def Watches (σ : Server Key Data) (session : MachPort) (key : Key) : Prop :=
  0<directWatch (σ.sessions session) key+patternWatches env (σ.sessionData session) key

/-- The watchers of the keys in `K` have them in their lists once, and no other list has changed. -/
def Notified (σ σ' : Server Key Data) (K : Key → Prop) : Prop :=
  ∀ q k,(K k ∧ Watches env σ q k → (σ'.sessionData q).changedKeys.count k=1) ∧
    (¬(K k ∧ Watches env σ q k) →
      (k∈(σ'.sessionData q).changedKeys ↔ k∈(σ.sessionData q).changedKeys))

/-- A step that changes the keys in `K`: they stay on the list of changed keys while the cache is
locked, and their watchers are told as soon as it is not. -/
structure Moves (σ σ' : Server Key Data) (K : Key → Prop) : Prop where
  inv : WatchInv env σ'
  kept : σ'.isLocked=true → ∀ k,k∈σ'.cache.changedKeys ↔ k∈σ.cache.changedKeys ∨ K k
  notified : σ'.isLocked=false → Notified env σ σ' fun k => k∈σ.cache.changedKeys ∨ K k

lemma Moves.quiet {σ σ' : Server Key Data} (hok : ServerOk σ) (hinv : WatchInv env σ')
    (hl : σ'.isLocked=false → σ.isLocked=false)
    (hchanged : σ'.cache.changedKeys=σ.cache.changedKeys)
    (hchanges : ∀ q,(σ'.sessionData q).changedKeys=(σ.sessionData q).changedKeys)
    {K : Key → Prop} (hK : ∀ k,¬K k) : Moves env σ σ' K := by
  refine ⟨hinv,fun _ k => ?_,fun hfree q k => ⟨?_,fun _ => by rw [hchanges]⟩⟩
  · rw [hchanged,or_iff_left (hK k)]
  · rintro ⟨hk | hk,-⟩
    · rw [(hok.idle (hl hfree)).1] at hk
      exact absurd hk not_mem_nil
    · exact absurd hk (hK k)

lemma Moves.congr {σ σ' : Server Key Data} {K L : Key → Prop} (h : Moves env σ σ' K)
    (hKL : ∀ k,L k ↔ K k) : Moves env σ σ' L := by
  have heq : L=K := by
    funext k
    exact propext (hKL k)
  rw [heq]
  exact h

variable {σ : Server Key Data}

lemma notified_commit (h : WatchInv env σ) :
    Notified env σ (commit env σ) (· ∈ σ.cache.changedKeys) := by
  intro q k
  have hmem : k∈((commit env σ).sessionData q).changedKeys ↔
      k∈(σ.sessionData q).changedKeys ∨ k∈σ.cache.changedKeys ∧ Watches env σ q k := by
    rw [commit_changes,mem_appendNew,decide_eq_true_iff]
    refine or_congr_right (and_congr_right fun hk => ?_)
    rw [h.refs q k,expectedRefs,if_pos (h.changed k hk),Watches]
  constructor
  · intro hk
    refine count_eq_one_of_mem ?_ (hmem.mpr (.inr hk))
    rw [commit_changes]
    exact appendNew_nodup _ (h.notified q) _
  · intro hk
    rw [hmem,or_iff_left hk]

lemma WatchInv.held (h : WatchInv env σ) {p : MachPort}
    {s : SCDSession Key} (hs : σ.sessions p=some s) : WatchInv env (σ.held p s) := by
  refine h.congr env rfl (fun _ => rfl) h.notified fun q => ?_
  by_cases hq : q=p
  · subst q
    simp [Server.held,hs,SCDSession.watches]
  · simp [Server.held,hq]

lemma WatchInv.freed (h : WatchInv env σ) {p : MachPort}
    {s : SCDSession Key} (hs : σ.sessions p=some s) : WatchInv env (σ.freed p s) := by
  refine h.congr env rfl (fun _ => rfl) h.notified fun q => ?_
  by_cases hq : q=p
  · subst q
    simp [Server.freed,hs,SCDSession.watches]
  · simp [Server.freed,hq]

omit [DecidableEq Key] in
lemma saveCaller_watches (σ : Server Key Data) (m : Message Key Data) (q : MachPort) :
    ((saveCaller σ m).sessions q).map SCDSession.watches =
      (σ.sessions q).map SCDSession.watches := by
  unfold saveCaller
  split
  · rfl
  · rfl
  · rename_i s hs _
    by_cases hq : q=m.server
    · subst q
      simp [Server.setSession,hs,SCDSession.watches]
    · simp [Server.setSession,hq]

omit [DecidableEq Key] in
lemma saveCaller_sessionData (σ : Server Key Data) (m : Message Key Data) :
    (saveCaller σ m).sessionData=σ.sessionData ∧ (saveCaller σ m).isLocked=σ.isLocked := by
  unfold saveCaller
  split <;> exact ⟨rfl,rfl⟩

lemma WatchInv.saveCaller (h : WatchInv env σ) (m : Message Key Data) :
    WatchInv env (saveCaller σ m) := by
  obtain ⟨hdata,-⟩ := saveCaller_sessionData σ m
  refine h.congr env (saveCaller_cache σ m) (fun q => by rw [hdata]) (fun q => ?_)
    (saveCaller_watches σ m)
  rw [hdata]
  exact h.notified q

lemma Moves.of_saveCaller {σ σ' : Server Key Data} {m : Message Key Data} {K : Key → Prop}
    (h : Moves env (Configd.saveCaller σ m) σ' K) : Moves env σ σ' K := by
  obtain ⟨hdata,-⟩ := saveCaller_sessionData σ m
  have hwatches : ∀ q k,Watches env (Configd.saveCaller σ m) q k ↔ Watches env σ q k := by
    intro q k
    rw [Watches,Watches,directWatch_congr (saveCaller_watches σ m q),hdata]
  refine ⟨h.inv,fun hl k => ?_,fun hl q k => ?_⟩
  · rw [h.kept hl k,saveCaller_cache]
  · have := h.notified hl q k
    rw [hwatches,saveCaller_cache,hdata] at this
    exact this

lemma withLock_moves (h : WatchInv env σ) (hok : ServerOk σ) (p : MachPort)
    {fail : SCDStatus → α} {body : Server Key Data → α × Server Key Data} (hb : CacheOnly body)
    (hc : ∀ τ,CacheOk τ.cache → CacheOk (body τ).2.cache)
    (hinv : MayWrite σ p → ∀ τ,WatchInv env τ → CacheOk τ.cache → τ.cache=σ.cache →
      WatchInv env (body τ).2)
    (status : α → SCDStatus) (hfail : ∀ st,status (fail st)=st) (e : Key → Prop)
    (hchanged : ∀ τ,CacheOk τ.cache → ∀ k,k∈(body τ).2.cache.changedKeys ↔
      k∈τ.cache.changedKeys ∨ (status (body τ).1=.ok ∧ e k)) :
    Moves env σ (withLock env σ p fail body).2
      fun k => status (withLock env σ p fail body).1=.ok ∧ e k := by
  rcases withLock_cases env σ p fail hb with
    ⟨-,st,hst,-,heq⟩ | ⟨hl,hw,heq⟩ | ⟨hl,hw,s,hs,heq⟩
  · rw [heq]
    exact Moves.quiet env hok h id rfl (fun _ => rfl) fun k hk => hst ((hfail st).symm.trans hk.1)
  · rw [heq]
    refine ⟨hinv hw σ h hok.cache rfl,fun _ => hchanged σ hok.cache,fun hfree => ?_⟩
    rw [hb] at hfree
    exact absurd (hl.symm.trans hfree) Bool.noConfusion
  · have hheld := h.held env hs
    have hbody := hinv hw (σ.held p s) hheld hok.cache rfl
    have hbsession : (body (σ.held p s)).2.sessions p=some {s with isLocked := true} := by
      rw [hb]
      simp [Server.held]
    have hcommit := hbody.commit env (hc _ hok.cache)
    have hcsession : (commit env (body (σ.held p s)).2).sessions p =
        some {s with isLocked := true} := by
      rw [commit_sessions]
      exact hbsession
    rw [heq]
    refine ⟨hcommit.freed env hcsession,fun hfree => Bool.noConfusion hfree,fun _ q k => ?_⟩
    have hnotified := notified_commit env hbody q k
    have hdata : (body (σ.held p s)).2.sessionData=σ.sessionData := by
      rw [hb]
      rfl
    have hwatches : Watches env (body (σ.held p s)).2 q k ↔ Watches env σ q k := by
      have hsame : ((body (σ.held p s)).2.sessions q).map SCDSession.watches =
          (σ.sessions q).map SCDSession.watches := by
        rw [hb]
        by_cases hq : q=p
        · subst q
          simp [Server.held,hs,SCDSession.watches]
        · simp [Server.held,hq]
      rw [Watches,Watches,directWatch_congr hsame,hdata]
    simp only [hwatches,hdata,hchanged (σ.held p s) hok.cache k] at hnotified
    exact hnotified

end Steps

section Requests

lemma setCache_changed (σ : Server Key Data) (p : MachPort) (key : Key) (data : Data) (k : Key) :
    k∈(setCache env σ p key data).changedKeys ↔ k∈σ.cache.changedKeys ∨ k=key := by
  rw [(setCache_lists env σ p key data).1,mem_insert_iff,or_comm]

lemma scdSetEntry_changed (σ : Server Key Data) (p : MachPort) (key : Key)
    (handle : SCDHandle Data) (k : Key) :
    k∈(scdSetEntry env σ p key handle).2.cache.changedKeys ↔ k∈σ.cache.changedKeys ∨
      ((scdSetEntry env σ p key handle).1.1=.ok ∧ k=key) := by
  by_cases ha : Accepts (σ.cache.cacheData key) handle
  · simp only [scdSetEntry_ok env ha,setCache_changed,true_and]
  · simp [scdSetEntry_stale env ha]

lemma scdRemoveEntry_changed (σ : Server Key Data) (key k : Key) :
    k∈(scdRemoveEntry σ key).2.cache.changedKeys ↔ k∈σ.cache.changedKeys ∨
      ((scdRemoveEntry σ key).1=.ok ∧ k=key) := by
  rw [scdRemoveEntry_eq]
  split
  · simp
  · simp [removeCache,or_comm]

variable {σ : Server Key Data}

lemma WatchInv.scdSetEntry (h : WatchInv env σ) (hc : CacheOk σ.cache)
    (p : MachPort) (key : Key) (handle : SCDHandle Data)
    (hsafe : (σ.cache.cacheData key).inst=some 0 → handle.inst≠0) :
    WatchInv env (scdSetEntry env σ p key handle).2 := by
  by_cases ha : Accepts (σ.cache.cacheData key) handle
  · rw [scdSetEntry_ok env ha]
    exact h.write env hc p key handle.data fun h0 => hsafe h0 (ha 0 h0).symm
  · rw [scdSetEntry_stale env ha]
    exact h

lemma scdSet_moves (h : WatchInv env σ) (hok : ServerOk σ) (p : MachPort)
    (key : Key) (handle : SCDHandle Data)
    (hsafe : MayWrite σ p → (σ.cache.cacheData key).inst=some 0 → handle.inst≠0) :
    Moves env σ (scdSet env σ p key handle).2
      fun k => (scdSet env σ p key handle).1.1=.ok ∧ k=key :=
  withLock_moves env h hok p (scdSetEntry_cacheOnly env p key handle)
    (fun _ hc => cacheOk_scdSetEntry env hc p key handle)
    (fun hw _ hτ hc heq => hτ.scdSetEntry env hc p key handle (heq▸hsafe hw))
    fst (fun _ => rfl) (·=key) fun τ _ => scdSetEntry_changed env τ p key handle

lemma scdAdd_moves (h : WatchInv env σ) (hok : ServerOk σ) (p : MachPort)
    (key : Key) (handle : SCDHandle Data) : Moves env σ (scdAdd env σ p key handle).2
      fun k => (scdAdd env σ p key handle).1.1=.ok ∧ k=key := by
  rw [scdAdd_eq]
  refine withLock_moves env h hok p (scdAddEntry_cacheOnly env p key handle)
    (fun _ hc => cacheOk_scdAddEntry env hc p key handle) (fun _ τ hτ hc _ => ?_)
    fst (fun _ => rfl) (·=key) fun τ _ k => ?_
  · unfold scdAddEntry
    split
    · rename_i hd
      refine hτ.scdSetEntry env hc p key handle fun h0 => ?_
      have hentries := hc.entries key
      rw [h0] at hentries
      rw [isNone_iff_eq_none.mp hd] at hentries
      cases hentries
    · exact hτ
  · unfold scdAddEntry
    split
    · exact scdSetEntry_changed env τ p key handle k
    · simp

lemma scdTouch_moves (h : WatchInv env σ) (hok : ServerOk σ)
    (p : MachPort) (key : Key) (now : Data)
    (hsafe : MayWrite σ p → (σ.cache.cacheData key).inst≠some 0) :
    Moves env σ (scdTouch env σ p key now).2
      fun k => (scdTouch env σ p key now).1=.ok ∧ k=key := by
  rw [scdTouch_eq]
  refine withLock_moves env h hok p (scdTouchEntry_cacheOnly env p key now)
    (fun _ hc => cacheOk_scdSetEntry env hc p key _) (fun hw τ hτ hc heq => ?_)
    id (fun _ => rfl) (·=key) fun τ hc k => ?_
  · refine hτ.scdSetEntry env hc p key _ fun h0 => absurd h0 ?_
    rw [heq]
    exact hsafe hw
  · simp only [scdTouchEntry,scdSetEntry_ok env (accepts_touchHandle env hc key now),
      setCache_changed,id,true_and]

lemma scdRemove_moves (h : WatchInv env σ) (hok : ServerOk σ)
    (p : MachPort) (key : Key) : Moves env σ (scdRemove env σ p key).2
      fun k => (scdRemove env σ p key).1=.ok ∧ k=key := by
  refine withLock_moves env h hok p (scdRemoveEntry_cacheOnly key)
    (fun _ hc => cacheOk_scdRemoveEntry hc key) (fun _ τ hτ _ _ => ?_)
    id (fun _ => rfl) (·=key) fun τ _ => scdRemoveEntry_changed τ key
  rw [scdRemoveEntry_eq]
  split
  · exact hτ
  · rename_i hd
    exact hτ.removal env key (by simpa [isSome_iff_ne_none] using hd)

lemma WatchInv.recordSessionKey (h : WatchInv env σ) (p : MachPort)
    (key : Key) : WatchInv env (recordSessionKey σ p key) := by
  have hentry : ∀ k,((Configd.recordSessionKey σ p key).cache.cacheData k).watchers =
      (σ.cache.cacheData k).watchers ∧ ((Configd.recordSessionKey σ p key).cache.cacheData k).data =
        (σ.cache.cacheData k).data := by
    intro k
    by_cases hk : k=key
    · subst k
      simp [Configd.recordSessionKey,Cache.modify]
    · simp [Configd.recordSessionKey,Cache.modify,hk]
  have hinfo : ∀ q,((Configd.recordSessionKey σ p key).sessionData q).regexKeys =
      (σ.sessionData q).regexKeys ∧ ((Configd.recordSessionKey σ p key).sessionData q).changedKeys =
        (σ.sessionData q).changedKeys := by
    intro q
    simp only [Configd.recordSessionKey]
    split
    · exact ⟨rfl,rfl⟩
    · by_cases hq : q=p
      · subst q
        simp
      · simp [hq]
  have hcounted : ∀ k,Counted (Configd.recordSessionKey σ p key).cache k ↔ Counted σ.cache k := by
    intro k
    rw [Counted,Counted,(hentry k).2]
    rfl
  refine ⟨?_,?_,?_,?_,?_,h.plain,fun q => (hinfo q).1▸h.patterns q,?_⟩
  · intro q k
    rw [(hentry k).1,h.refs q k]
    simp only [expectedRefs,hcounted k,patternWatches,(hinfo q).1]
    rfl
  · intro k hk
    rw [(hentry k).2]
    exact h.pending k hk
  · exact fun k hk => (hcounted k).mpr (h.changed k hk)
  · intro q s hs preg hpreg
    rw [(hinfo q).1] at hpreg
    exact h.compiled q s hs preg hpreg
  · intro q hq
    rw [(hinfo q).1]
    exact h.closed q hq
  · intro q
    rw [(hinfo q).2]
    exact h.notified q

lemma scdAddSession_moves (h : WatchInv env σ) (hok : ServerOk σ)
    (p : MachPort) (key : Key) (handle : SCDHandle Data) :
    Moves env σ (scdAddSession env σ p key handle).2
      fun k => (scdAddSession env σ p key handle).1.1=.ok ∧ k=key := by
  have hadd := scdAdd_moves env h hok p key handle
  rw [scdAddSession_eq]
  split
  · refine ⟨hadd.inv.recordSessionKey env p key,hadd.kept,fun hl q k => ?_⟩
    have hchanges : ((recordSessionKey (scdAdd env σ p key handle).2 p key).sessionData
        q).changedKeys=((scdAdd env σ p key handle).2.sessionData q).changedKeys := by
      simp only [recordSessionKey]
      split
      · rfl
      · by_cases hq : q=p
        · subst q
          simp
        · simp [hq]
    rw [hchanges]
    exact hadd.notified hl q k
  · exact hadd

lemma scdLock_moves (h : WatchInv env σ) (hok : ServerOk σ) (p : MachPort) :
    Moves env σ (scdLock σ p).2 fun _ => False := by
  cases hs : σ.sessions p with
  | none =>
    simp only [scdLock,hs]
    exact Moves.quiet env hok h id rfl (fun _ => rfl) fun _ => id
  | some s =>
    cases hl : σ.isLocked with
    | true =>
      simp only [scdLock,hs,hl,if_true]
      exact Moves.quiet env hok h id rfl (fun _ => rfl) fun _ => id
    | false =>
      by_cases hu : s.callerEUID=0
      · rw [scdLock_taken hs hl hu]
        exact Moves.quiet env hok (h.held env hs) (fun h => Bool.noConfusion h) rfl
          (fun _ => rfl) fun _ => id
      · rw [scdLock_denied hs hl hu]
        exact Moves.quiet env hok h id rfl (fun _ => rfl) fun _ => id

lemma scdUnlock_moves (h : WatchInv env σ) (hok : ServerOk σ)
    (p : MachPort) : Moves env σ (scdUnlock env σ p).2 fun _ => False := by
  cases hs : σ.sessions p with
  | none =>
    simp only [scdUnlock,hs]
    exact Moves.quiet env hok h id rfl (fun _ => rfl) fun _ => id
  | some s =>
    by_cases hl : σ.isLocked=true ∧ s.isLocked=true
    · rw [scdUnlock_held env hs hl.1 hl.2]
      have hsession : (commit env σ).sessions p=some s := by
        rw [commit_sessions]
        exact hs
      refine ⟨(h.commit env hok.cache).freed env hsession,fun hfree => Bool.noConfusion hfree,
        fun _ q k => ?_⟩
      simp only [or_false]
      exact notified_commit env h q k
    · have hfree : σ.isLocked=false ∨ s.isLocked=false := by
        rwa [not_and_or,Bool.not_eq_true,Bool.not_eq_true] at hl
      rw [scdUnlock_free env hs hfree]
      exact Moves.quiet env hok h id rfl (fun _ => rfl) fun _ => id

end Requests

section Notifier

variable {σ : Server Key Data} {s : SCDSession Key} {p : MachPort}

lemma WatchInv.rewatch (h : WatchInv env σ) (p : MachPort)
    (f : Key → CacheEntry Data → CacheEntry Data) (info : SessionInfo Key)
    (hf : ∀ k e,(f k e).data=e.data)
    (hother : ∀ q k e,q≠p → (f k e).watchers q=e.watchers q)
    (hself : ∀ k,(f k (σ.cache.cacheData k)).watchers p=directWatch (some s) k +
      if Counted σ.cache k then patternWatches env info k else 0)
    (hcompiled : ∀ preg∈info.regexKeys,preg∈s.reKeys) (hplain : s.keys.Nodup)
    (hpatterns : info.regexKeys.Nodup) (hnotified : info.changedKeys.Nodup) :
    WatchInv env (((σ.setSession p (some s)).applyCache f).setInfo p info) := by
  have hcounted : ∀ k,Counted (((σ.setSession p (some s)).applyCache f).setInfo p info).cache k ↔
      Counted σ.cache k := by
    intro k
    simp only [Counted,Server.setInfo,Server.applyCache,Server.setSession,hf]
  refine ⟨fun q k => ?_,fun k hk => ?_,fun k hk => (hcounted k).mpr (h.changed k hk),?_,?_,?_,?_,?_⟩
  · simp only [expectedRefs,hcounted k]
    by_cases hq : q=p
    · subst q
      simp only [Server.setInfo,Server.applyCache,Server.setSession,update_self]
      exact hself k
    · simp only [Server.setInfo,Server.applyCache,Server.setSession,update_of_ne hq]
      rw [hother q k _ hq]
      exact h.refs q k
  · exact (hf k _).trans (h.pending k hk)
  · intro q t ht
    by_cases hq : q=p
    · subst q
      simp only [Server.setInfo,Server.applyCache,Server.setSession,update_self,some.injEq] at ht ⊢
      subst t
      exact hcompiled
    · simp only [Server.setInfo,Server.applyCache,Server.setSession,update_of_ne hq] at ht ⊢
      exact h.compiled q t ht
  · intro q hq
    by_cases hp : q=p
    · subst q
      simp [Server.setInfo,Server.applyCache,Server.setSession] at hq
    · simp only [Server.setInfo,Server.applyCache,Server.setSession,update_of_ne hp] at hq ⊢
      exact h.closed q hq
  · intro q t ht
    by_cases hq : q=p
    · subst q
      simp only [Server.setInfo,Server.applyCache,Server.setSession,update_self,some.injEq] at ht
      subst t
      exact hplain
    · simp only [Server.setInfo,Server.applyCache,Server.setSession,update_of_ne hq] at ht
      exact h.plain q t ht
  · intro q
    by_cases hq : q=p
    · subst q
      simpa [Server.setInfo] using hpatterns
    · simp only [Server.setInfo,Server.applyCache,Server.setSession,update_of_ne hq]
      exact h.patterns q
  · intro q
    by_cases hq : q=p
    · subst q
      simpa [Server.setInfo] using hnotified
    · simp only [Server.setInfo,Server.applyCache,Server.setSession,update_of_ne hq]
      exact h.notified q

lemma WatchInv.resession (h : WatchInv env σ) (p : MachPort)
    (s : SCDSession Key) (hdirect : ∀ k,directWatch (σ.sessions p) k=directWatch (some s) k)
    (hcompiled : ∀ preg∈(σ.sessionData p).regexKeys,preg∈s.reKeys) (hplain : s.keys.Nodup) :
    WatchInv env (σ.setSession p (some s)) := by
  have hinv := h.rewatch env p (s := s) (fun _ e => e) (σ.sessionData p) (fun _ _ => rfl)
    (fun _ _ _ _ => rfl) (fun k => by rw [←hdirect k]; exact h.refs p k) hcompiled hplain
    (h.patterns p) (h.notified p)
  simpa only [Server.setInfo,Server.applyCache,Server.setSession,update_eq_self] using hinv

lemma WatchInv.watchPattern (h : WatchInv env σ)
    (hs : σ.sessions p=some s) {preg : Key} (hnew : preg∉s.reKeys)
    (hsafe : ∀ k∈σ.cache.deferredRemovals,env.regexec preg k=false) :
    WatchInv env (watchPattern env σ p s preg) := by
  have hnot : preg∉(σ.sessionData p).regexKeys := mt (h.compiled p s hs preg) hnew
  have hinfo : addPattern (σ.sessionData p) preg =
      {σ.sessionData p with regexKeys := (σ.sessionData p).regexKeys++[preg]} := by
    simp [addPattern,hnot]
  rw [Configd.watchPattern,hinfo]
  refine h.rewatch env p (addRegexWatcherByKey env p preg) _
    (fun k e => (addRegexWatcherByKey_content env p preg k e).1) (fun q k e hq => ?_)
    (fun k => ?_) (fun r hr => ?_) (h.plain p s hs) ?_ (h.notified p)
  · rw [addRegexWatcherByKey_watchers,if_neg (fun h => hq h.1),add_zero]
  · have hold := h.refs p k
    rw [expectedRefs,hs] at hold
    rw [addRegexWatcherByKey_watchers,hold]
    simp only [patternWatches,countP_append,countP_singleton,true_and]
    by_cases hd : (σ.cache.cacheData k).data.isSome=true
    · have hc : Counted σ.cache k := .inl hd
      rw [if_pos hc,if_pos hc]
      cases env.regexec preg k <;> simp [hd,directWatch,add_assoc]
    · by_cases hk : k∈σ.cache.deferredRemovals
      · have hc : Counted σ.cache k := .inr hk
        rw [if_pos hc,if_pos hc]
        simp [hsafe k hk,directWatch]
      · have hc : ¬Counted σ.cache k := fun hc => hc.elim hd hk
        rw [if_neg hc,if_neg hc]
        simp [hd,directWatch]
  · rcases mem_append.mp hr with hr | hr
    · exact mem_append_left _ (h.compiled p s hs r hr)
    · exact mem_append_right _ hr
  · exact concat_eq_append▸(h.patterns p).concat hnot

lemma WatchInv.unwatchPattern (h : WatchInv env σ)
    (hs : σ.sessions p=some s) {preg : Key}
    (hin : preg∈(σ.sessionData p).regexKeys)
    (hsafe : ∀ k∈s.keys,env.regexec preg k=true → Counted σ.cache k) :
    WatchInv env (unwatchPattern env σ p s preg) := by
  refine h.rewatch env p (removeRegexWatcherByKey env p preg) _
    (fun k e => (removeRegexWatcherByKey_content env p preg k e).1) (fun q k e hq => ?_)
    (fun k => ?_) (fun r hr => ?_) (h.plain p s hs) ((h.patterns p).erase preg) (h.notified p)
  · rw [removeRegexWatcherByKey_watchers,if_neg (fun h => hq h.1),Nat.sub_zero]
  · have hold := h.refs p k
    rw [expectedRefs,hs] at hold
    rw [removeRegexWatcherByKey_watchers,hold]
    simp only [patternWatches,true_and]
    by_cases hm : env.regexec preg k=true
    · have hpos : 0<(σ.sessionData p).regexKeys.countP (env.regexec · k) :=
        countP_pos_iff.mpr ⟨preg,hin,hm⟩
      rw [if_pos hm]
      by_cases hc : Counted σ.cache k
      · rw [if_pos hc,if_pos hc,countP_erase,if_pos ⟨hin,hm⟩]
        simp only [directWatch]
        omega
      · have hk : k∉s.keys := fun hk => hc (hsafe k hk hm)
        rw [if_neg hc,if_neg hc]
        simp [directWatch,hk]
    · have hcount : ((σ.sessionData p).regexKeys.erase preg).countP (env.regexec · k) =
          (σ.sessionData p).regexKeys.countP (env.regexec · k) := by
        rw [countP_erase,if_neg (fun h => hm h.2),Nat.sub_zero]
      rw [if_neg hm,Nat.sub_zero,hcount]
      rfl
  · have hne : r≠preg := fun he => (h.patterns p).not_mem_erase (he▸hr)
    exact (mem_erase_of_ne hne).mpr (h.compiled p s hs r (mem_of_mem_erase hr))

lemma modify_eq_applyCache (σ : Server Key Data) (p : MachPort) (s : SCDSession Key) (key : Key)
    (f : CacheEntry Data → CacheEntry Data) :
    {σ.setSession p (some s) with cache := σ.cache.modify key f} =
      ((σ.setSession p (some s)).applyCache fun k e => if k=key then f e else e).setInfo p
        (σ.sessionData p) := by
  have hdata : update σ.cache.cacheData key (f (σ.cache.cacheData key)) =
      fun k => if k=key then f (σ.cache.cacheData k) else σ.cache.cacheData k := by
    funext k
    by_cases hk : k=key
    · subst k
      simp
    · simp [hk]
  simp [Server.setSession,Server.applyCache,Server.setInfo,Cache.modify,hdata]

lemma WatchInv.watchKey (h : WatchInv env σ)
    (hs : σ.sessions p=some s) {key : Key} (hnew : key∉s.keys) :
    WatchInv env (watchKey σ p s key) := by
  rw [Configd.watchKey,modify_eq_applyCache]
  refine h.rewatch env p (fun k e => if k=key then e.addWatcher p else e) _ (fun k e => ?_)
    (fun q k e hq => ?_) (fun k => ?_) (h.compiled p s hs) ?_ (h.patterns p) (h.notified p)
  · split <;> rfl
  · split
    · simp [CacheEntry.addWatcher,hq]
    · rfl
  · have hold := h.refs p k
    rw [expectedRefs,hs] at hold
    by_cases hk : k=key
    · subst k
      rw [if_pos rfl]
      simp only [CacheEntry.addWatcher,update_self,hold]
      simp only [directWatch,if_neg hnew,mem_append,mem_singleton,or_true,if_true]
      omega
    · rw [if_neg hk,hold]
      simp [directWatch,hk]
  · exact concat_eq_append▸(h.plain p s hs).concat hnew

lemma WatchInv.unwatchKey (h : WatchInv env σ)
    (hs : σ.sessions p=some s) {key : Key} (hin : key∈s.keys) :
    WatchInv env (unwatchKey σ p s key) := by
  have hplain := h.plain p s hs
  rw [Configd.unwatchKey,modify_eq_applyCache]
  refine h.rewatch env p (fun k e => if k=key then e.removeWatcher p else e) _ (fun k e => ?_)
    (fun q k e hq => ?_) (fun k => ?_) (h.compiled p s hs) (hplain.erase key) (h.patterns p)
    (h.notified p)
  · split <;> rfl
  · split
    · simp [CacheEntry.removeWatcher,hq]
    · rfl
  · have hold := h.refs p k
    rw [expectedRefs,hs] at hold
    by_cases hk : k=key
    · subst k
      rw [if_pos rfl]
      simp only [CacheEntry.removeWatcher,update_self,hold]
      simp only [directWatch,if_pos hin,if_neg hplain.not_mem_erase]
      omega
    · rw [if_neg hk,hold]
      simp only [directWatch,mem_erase_of_ne hk]

lemma scdNotifierAdd_moves (h : WatchInv env σ) (hok : ServerOk σ)
    (p : MachPort) (key : Key) (regex : Bool)
    (hsafe : regex=true → ∀ s,σ.sessions p=some s → key∉s.reKeys →
      env.regcomp key=true → ∀ k∈σ.cache.deferredRemovals,env.regexec key k=false) :
    Moves env σ (scdNotifierAdd env σ p key regex).2 fun _ => False := by
  have hadds := scdNotifierAdd_adds env σ p key regex
  generalize scdNotifierAdd env σ p key regex=r at hadds ⊢
  cases hadds with
  | refused => exact Moves.quiet env hok h id rfl (fun _ => rfl) fun _ => id
  | notCompiled s hs hk hc =>
    have hreKeys : ∀ preg∈(σ.sessionData p).regexKeys,preg∈s.reKeys++[key] :=
      fun preg hpreg => mem_append_left _ (h.compiled p s hs preg hpreg)
    exact Moves.quiet env hok (h.resession env p {s with reKeys := s.reKeys++[key]}
      (fun k => by rw [hs]; rfl) hreKeys (h.plain p s hs)) id rfl (fun _ => rfl) fun _ => id
  | pattern s hs hk hc =>
    refine Moves.quiet env hok (h.watchPattern env hs hk (hsafe rfl s hs hk hc)) id rfl
      (fun q => ?_) fun _ => id
    by_cases hq : q=p
    · subst q
      simp only [Configd.watchPattern,Server.setInfo,update_self,addPattern]
      split <;> rfl
    · simp [Configd.watchPattern,Server.setInfo,Server.applyCache,Server.setSession,hq]
  | plain s hs hk =>
    exact Moves.quiet env hok (h.watchKey env hs hk) id rfl (fun _ => rfl) fun _ => id

lemma scdNotifierRemove_moves (h : WatchInv env σ) (hok : ServerOk σ)
    (p : MachPort) (key : Key) (regex : Bool)
    (hsafe : regex=true → ∀ s,σ.sessions p=some s → key∈s.reKeys →
      ∀ k∈s.keys,env.regexec key k=true → Counted σ.cache k)
    {r : SCDStatus × Server Key Data} (hr : scdNotifierRemove env σ p key regex=some r) :
    Moves env σ r.2 fun _ => False := by
  cases scdNotifierRemove_removes env hr with
  | refused => exact Moves.quiet env hok h id rfl (fun _ => rfl) fun _ => id
  | pattern s hs hk hi =>
    refine Moves.quiet env hok (h.unwatchPattern env hs hi (hsafe rfl s hs hk)) id rfl
      (fun q => ?_) fun _ => id
    by_cases hq : q=p
    · subst q
      simp [Configd.unwatchPattern,Server.setInfo]
    · simp [Configd.unwatchPattern,Server.setInfo,Server.applyCache,Server.setSession,hq]
  | plain s hs hk =>
    exact Moves.quiet env hok (h.unwatchKey env hs hk) id rfl (fun _ => rfl) fun _ => id

end Notifier

section Run

/-- The requests that keep the reference counts right. A key may not be written once its instance
has come round to 0; a pattern may not be added while it matches a key whose removal is pending;
and a pattern may not be dropped while it matches a key that its session watches by name and that
has no data. -/
def WatchSafe (σ : Server Key Data) (m : Message Key Data) : Prop :=
  match m.request with
  | .set key handle => MayWrite (saveCaller σ m) m.server →
      (σ.cache.cacheData key).inst=some 0 → handle.inst≠0
  | .touch key _ => MayWrite (saveCaller σ m) m.server → (σ.cache.cacheData key).inst≠some 0
  | .notifyAdd preg true => ∀ s,σ.sessions m.server=some s → preg∉s.reKeys →
      env.regcomp preg=true → ∀ k∈σ.cache.deferredRemovals,env.regexec preg k=false
  | .notifyRemove preg true => ∀ s,σ.sessions m.server=some s → preg∈s.reKeys →
      ∀ k∈s.keys,env.regexec preg k=true → Counted σ.cache k
  | _ => True

def RunMeets (C : Server Key Data → Message Key Data → Prop) :
    Server Key Data → List (Message Key Data) → Prop
  | _,[] => True
  | σ,m::ms => C σ m ∧ ∀ r,serve env σ m=some r → RunMeets C r.2 ms

variable {σ : Server Key Data} {r : Reply Key Data × Server Key Data} {m : Message Key Data}

omit [DecidableEq Key] in
lemma saveCaller_session {p : MachPort}
    {s : SCDSession Key} (hs : (saveCaller σ m).sessions p=some s) :
    ∃ t,σ.sessions p=some t ∧ t.keys=s.keys ∧ t.reKeys=s.reKeys := by
  have h := saveCaller_watches σ m p
  rw [hs] at h
  cases ht : σ.sessions p with
  | none =>
    rw [ht] at h
    cases h
  | some t =>
    rw [ht] at h
    have hw := (some.inj h).symm
    exact ⟨t,rfl,congrArg fst hw,congrArg snd hw⟩

/-- Every safe request of an open session, except the one that fetches the changes, moves the
watched keys by the event it stands for. -/
theorem serve_moves (h : WatchInv env σ) (hok : ServerOk σ)
    (m : Message Key Data) (hreceives : receives σ m=true) (hin : m.request.InSession)
    (hchanges : m.request≠.notifyChanges) (hsafe : WatchSafe env σ m)
    (hr : serve env σ m=some r) :
    Moves env σ r.2 fun k => keyEvent k m r.1≠none := by
  have hs := hok.saveCaller m
  have hw := h.saveCaller env m
  have hcache := saveCaller_cache σ m
  refine Moves.of_saveCaller env (m := m) ?_
  obtain ⟨p,euid,request⟩ := m
  cases request with
  | close => cases hin
  | died => cases hin
  | notifyChanges => exact absurd rfl hchanges
  | «open» =>
    cases hr
    have hnone : (saveCaller σ ⟨p,euid,.open⟩).sessions p=none := by
      have := saveCaller_watches σ ⟨p,euid,.open⟩ p
      have hp : σ.sessions p=none := by simpa [receives] using hreceives
      rw [hp] at this
      exact map_eq_none_iff.mp this
    have hregex := hw.closed p hnone
    have hinv := hw.resession env p ⟨euid,[],[],false⟩ (fun k => by rw [hnone]; rfl)
      (fun preg hpreg => by rw [hregex] at hpreg; cases hpreg) nodup_nil
    exact Moves.quiet env hs hinv id rfl (fun _ => rfl) fun _ => not_not.mpr (keyEvent_none rfl _)
  | lock =>
    cases hr
    exact (scdLock_moves env hw hs p).congr env fun _ =>
      iff_false_intro (not_not.mpr (keyEvent_none rfl _))
  | unlock =>
    cases hr
    exact (scdUnlock_moves env hw hs p).congr env fun _ =>
      iff_false_intro (not_not.mpr (keyEvent_none rfl _))
  | get key =>
    cases hr
    exact Moves.quiet env hs hw id rfl (fun _ => rfl) fun _ => not_not.mpr (keyEvent_none rfl _)
  | add key data =>
    cases hr
    exact (scdAdd_moves env hw hs p key ⟨data,0⟩).congr env fun k => by
      simp [keyEvent,Request.event,handleReply,eq_comm]
  | addSession key data =>
    cases hr
    exact (scdAddSession_moves env hw hs p key ⟨data,0⟩).congr env fun k => by
      simp [keyEvent,Request.event,handleReply,eq_comm]
  | set key handle =>
    cases hr
    exact (scdSet_moves env hw hs p key handle (hcache▸hsafe)).congr env fun k => by
      simp [keyEvent,Request.event,handleReply,eq_comm]
  | touch key now =>
    cases hr
    exact (scdTouch_moves env hw hs p key now (hcache▸hsafe)).congr env fun k => by
      simp [keyEvent,Request.event,statusReply,eq_comm]
  | remove key =>
    cases hr
    exact (scdRemove_moves env hw hs p key).congr env fun k => by
      simp [keyEvent,Request.event,statusReply,eq_comm]
  | notifyAdd key regex =>
    cases hr
    refine (scdNotifierAdd_moves env hw hs p key regex ?_).congr env fun _ =>
      iff_false_intro (not_not.mpr (keyEvent_none rfl _))
    rintro rfl s hsession hk hc
    obtain ⟨t,ht,-,hre⟩ := saveCaller_session hsession
    rw [hcache]
    exact hsafe t ht (hre▸hk) hc
  | notifyRemove key regex =>
    simp only [serve,map_eq_some_iff] at hr
    obtain ⟨r₀,hremove,rfl⟩ := hr
    refine (scdNotifierRemove_moves env hw hs p key regex ?_ hremove).congr env fun _ =>
      iff_false_intro (not_not.mpr (keyEvent_none rfl _))
    rintro rfl s hsession hk
    obtain ⟨t,ht,hkeys,hre⟩ := saveCaller_session hsession
    rw [hcache,←hkeys]
    exact hsafe t ht (hre▸hk)

lemma withLock_isLocked {α : Type} (p : MachPort) (fail : SCDStatus → α)
    {body : Server Key Data → α × Server Key Data} (hb : CacheOnly body)
    (hl : (withLock env σ p fail body).2.isLocked=true) : σ.isLocked=true := by
  rcases withLock_cases env σ p fail hb with ⟨-,_,-,-,heq⟩ | ⟨hσ,-,-⟩ | ⟨-,-,_,-,heq⟩
  · rwa [heq] at hl
  · exact hσ
  · rw [heq] at hl
    cases hl

lemma scdAdd_isLocked {p : MachPort} {key : Key} {handle : SCDHandle Data}
    (hl : (scdAdd env σ p key handle).2.isLocked=true) : σ.isLocked=true := by
  rw [scdAdd_eq] at hl
  exact withLock_isLocked env p _ (scdAddEntry_cacheOnly env p key handle) hl

lemma serve_isLocked (hin : m.request.InSession)
    (hm : m.request≠.lock)
    (hr : serve env σ m=some r) (hl : r.2.isLocked=true) : σ.isLocked=true := by
  obtain ⟨-,hlocked⟩ := saveCaller_sessionData σ m
  rw [←hlocked]
  obtain ⟨p,euid,request⟩ := m
  cases request with
  | close => cases hin
  | died => cases hin
  | lock => exact absurd rfl hm
  | «open» =>
    cases hr
    exact hl
  | unlock =>
    cases hr
    simp only [statusReply,scdUnlock] at hl
    split at hl
    · exact hl
    · split at hl
      · exact hl
      · cases hl
  | get key =>
    cases hr
    exact hl
  | add key data =>
    cases hr
    exact scdAdd_isLocked env hl
  | addSession key data =>
    cases hr
    simp only [handleReply,scdAddSession_eq] at hl
    split at hl <;> exact scdAdd_isLocked env hl
  | set key handle =>
    cases hr
    exact withLock_isLocked env p _ (scdSetEntry_cacheOnly env p key handle) hl
  | touch key now =>
    cases hr
    simp only [statusReply,scdTouch_eq] at hl
    exact withLock_isLocked env p _ (scdTouchEntry_cacheOnly env p key now) hl
  | remove key =>
    cases hr
    exact withLock_isLocked env p _ (scdRemoveEntry_cacheOnly key) hl
  | notifyAdd key regex =>
    cases hr
    have hadds := scdNotifierAdd_adds env (saveCaller σ ⟨p,euid,.notifyAdd key regex⟩) p key regex
    simp only [statusReply] at hl
    generalize scdNotifierAdd env _ p key regex=r at hadds hl
    cases hadds <;> exact hl
  | notifyRemove key regex =>
    simp only [serve,map_eq_some_iff] at hr
    obtain ⟨r₀,hremove,rfl⟩ := hr
    cases scdNotifierRemove_removes env hremove <;> exact hl
  | notifyChanges =>
    cases hr
    simp only [scdNotifierGetChanges] at hl
    split at hl <;> exact hl

def changedStep (P : Key → Prop) (m : Message Key Data) (r : Reply Key Data) : Key → Prop :=
  match m.request with
  | .lock => if r.status=.ok then fun _ => False else P
  | _ => fun k => P k ∨ keyEvent k m r≠none

def changedSinceLock (ms : List (Message Key Data)) (rs : List (Reply Key Data)) : Key → Prop :=
  (ms.zip rs).foldl (fun P x => changedStep P x.1 x.2) fun _ => False

/-- What holds between any two messages of a run, with `P` the keys changed since the lock was
taken. -/
structure RunInv (σ : Server Key Data) (P : Key → Prop) : Prop where
  ok : ServerOk σ
  watch : WatchInv env σ
  changed : σ.isLocked=true → ∀ k,k∈σ.cache.changedKeys ↔ P k

lemma runInv_initial : RunInv env (Server.initial : Server Key Data) fun _ => False where
  ok := serverOk_initial
  watch :=
    { refs := fun _ _ => by simp [expectedRefs,directWatch,Server.initial,Counted,Cache.empty,
        CacheEntry.empty]
      pending := fun _ hk => absurd hk not_mem_nil
      changed := fun _ hk => absurd hk not_mem_nil
      compiled := fun _ _ hs => by cases hs
      closed := fun _ _ => rfl
      plain := fun _ _ hs => by cases hs
      patterns := fun _ => nodup_nil
      notified := fun _ => nodup_nil}
  changed := fun h => Bool.noConfusion h

lemma WatchInv.notifyChanges (h : WatchInv env σ) (p : MachPort) :
    WatchInv env (scdNotifierGetChanges σ p).2 ∧ (scdNotifierGetChanges σ p).2.isLocked=σ.isLocked ∧
      (scdNotifierGetChanges σ p).2.cache=σ.cache := by
  unfold scdNotifierGetChanges
  split
  · exact ⟨h,rfl,rfl⟩
  · refine ⟨h.congr env rfl (fun q => ?_) (fun q => ?_) fun _ => rfl,rfl,rfl⟩
    · by_cases hq : q=p
      · subst q
        simp [Server.setInfo]
      · simp [Server.setInfo,hq]
    · by_cases hq : q=p
      · subst q
        simp [Server.setInfo]
      · simp only [Server.setInfo,update_of_ne hq]
        exact h.notified q

omit [DecidableEq Key] in
lemma scdLock_status (σ : Server Key Data) (p : MachPort) :
    ((scdLock σ p).1=.ok ∧ σ.isLocked=false) ∨ ((scdLock σ p).1≠.ok ∧ (scdLock σ p).2=σ) := by
  cases hs : σ.sessions p with
  | none => exact .inr (by simp [scdLock,hs])
  | some s =>
    cases hl : σ.isLocked with
    | true => exact .inr (by simp [scdLock,hs,hl])
    | false =>
      by_cases hu : s.callerEUID=0
      · exact .inl ⟨by rw [scdLock_taken hs hl hu],rfl⟩
      · rw [scdLock_denied hs hl hu]
        exact .inr ⟨fun h => SCDStatus.noConfusion h,rfl⟩

lemma changedStep_other {P : Key → Prop} (hm : m.request≠.lock)
    (r : Reply Key Data) (k : Key) : changedStep P m r k ↔ P k ∨ keyEvent k m r≠none := by
  obtain ⟨p,euid,request⟩ := m
  cases request with
  | lock => exact absurd rfl hm
  | _ => rfl

lemma RunInv.step {P : Key → Prop} (h : RunInv env σ P)
    (m : Message Key Data) (hreceives : receives σ m=true) (hin : m.request.InSession)
    (hsafe : WatchSafe env σ m)
    (hr : serve env σ m=some r) : RunInv env r.2 (changedStep P m r.1) := by
  have hok := serve_serverOk env h.ok m hr
  have hcache := saveCaller_cache σ m
  obtain ⟨-,hlocked⟩ := saveCaller_sessionData σ m
  by_cases hchanges : m.request=.notifyChanges
  · obtain ⟨p,euid,request⟩ := m
    cases hchanges
    obtain ⟨hinv,hl,hc⟩ := (h.watch.saveCaller env ⟨p,euid,.notifyChanges⟩).notifyChanges env p
    cases hr
    refine ⟨hok,hinv,fun hlock k => ?_⟩
    rw [changedStep_other (by simp),or_iff_left (not_not.mpr (keyEvent_none rfl _))]
    simp only [hc,hcache]
    exact h.changed (hlocked.symm.trans (hl.symm.trans hlock)) k
  · have hmoves := serve_moves env h.watch h.ok m hreceives hin hchanges hsafe hr
    refine ⟨hok,hmoves.inv,fun hl k => ?_⟩
    by_cases hlock : m.request=.lock
    · obtain ⟨p,euid,request⟩ := m
      cases hlock
      cases hr
      rcases scdLock_status (saveCaller σ ⟨p,euid,.lock⟩) p with ⟨hst,hfree⟩ | ⟨hst,hsame⟩
      · have hempty := (h.ok.idle (hlocked.symm.trans hfree)).1
        have hkept := hmoves.kept hl k
        rw [hempty,or_iff_left (not_not.mpr (keyEvent_none rfl _))] at hkept
        simp only [changedStep,statusReply,hst,if_true]
        exact hkept.trans (iff_false_intro not_mem_nil)
      · simp only [changedStep,statusReply,if_neg hst,hsame,hcache] at hl ⊢
        exact h.changed (hlocked.symm.trans hl) k
    · rw [hmoves.kept hl k,changedStep_other hlock,h.changed (serve_isLocked env hin hlock hr hl) k]

lemma RunInv.run {P : Key → Prop} (h : RunInv env σ P)
    {ms : List (Message Key Data)} {rs : List (Reply Key Data)} {σ' : Server Key Data}
    (hr : serveAll env σ ms=some (rs,σ')) (hin : ∀ m∈ms,m.request.InSession)
    (hsafe : RunMeets env (WatchSafe env) σ ms) :
    RunInv env σ' ((ms.zip rs).foldl (fun P x => changedStep P x.1 x.2) P) := by
  induction ms generalizing σ P rs with
  | nil =>
    cases hr
    exact h
  | cons m ms ih =>
    simp only [serveAll] at hr
    split at hr
    · rename_i hreceives
      simp only [bind_eq_some_iff,map_eq_some_iff] at hr
      obtain ⟨r,hone,⟨rs',σ''⟩,hrest,heq⟩ := hr
      cases heq
      have hstep := h.step env m hreceives (hin m mem_cons_self) hsafe.1 hone
      exact ih hstep hrest (fun m' hm' => hin m' (mem_cons_of_mem m hm')) (hsafe.2 r hone)
    · cases hr

/-- In every run of safe requests the reference counts are the expected ones: one for a watch by
name and one for each matching pattern, as long as the key has data or, under the lock, has just
lost it. Whenever a request leaves the cache unlocked, each session that watches a key changed
since the lock was taken has it in its list of changes exactly once, and the list is otherwise as
before. -/
theorem watches_run {ms : List (Message Key Data)} {rs : List (Reply Key Data)}
    {σ : Server Key Data} (hr : serveAll env .initial ms=some (rs,σ))
    (hin : ∀ m∈ms,m.request.InSession)
    (hsafe : RunMeets env (WatchSafe env) .initial ms) :
    (∀ p k,(σ.cache.cacheData k).watchers p=expectedRefs env σ p k) ∧
      (σ.isLocked=false → ∀ k,Counted σ.cache k ↔ (σ.cache.cacheData k).data.isSome=true) ∧
      ∀ m r σ',receives σ m=true → m.request.InSession → m.request≠.notifyChanges →
        WatchSafe env σ m → serve env σ m=some (r,σ') → σ'.isLocked=false →
        Notified env σ σ' fun k =>
          (σ.isLocked=true ∧ changedSinceLock ms rs k) ∨ keyEvent k m r≠none := by
  have hrun := (runInv_initial env).run env hr hin hsafe
  refine ⟨hrun.watch.refs,fun hl k => ?_,fun m r σ' hreceives hm hchanges hs hserve hl => ?_⟩
  · rw [Counted,(hrun.ok.idle hl).2.1]
    simp
  · have hmoves := serve_moves env hrun.watch hrun.ok m hreceives hm hchanges hs hserve
    have hreleased : (fun k => (σ.isLocked=true ∧ changedSinceLock ms rs k) ∨
        keyEvent k m r≠none)=fun k => k∈σ.cache.changedKeys ∨ keyEvent k m r≠none := by
      funext k
      refine propext (or_congr_left ?_)
      cases hlocked : σ.isLocked with
      | true =>
        rw [hrun.changed hlocked k]
        exact and_iff_right rfl
      | false =>
        rw [(hrun.ok.idle hlocked).1]
        simp
    rw [hreleased]
    exact hmoves.notified hl

def literalEnvironment : Environment String String :=
  ⟨fun _ => true,fun preg key => preg == key,fun _ => false⟩

def patternThenKey : List (Message String String) :=
  [⟨1,0,.open⟩,⟨1,0,.notifyAdd "State:/en0" true⟩,⟨1,0,.add "State:/en0" "up"⟩]

/-- A pattern added before the key it matches. -/
theorem watches_run_patternThenKey :
    ∃ rs σ,serveAll literalEnvironment .initial patternThenKey=some (rs,σ) ∧
      (∀ p k,(σ.cache.cacheData k).watchers p=expectedRefs literalEnvironment σ p k) ∧
      (σ.cache.cacheData "State:/en0").watchers 1=1 := by
  have hrun : ∃ rs σ,serveAll literalEnvironment .initial patternThenKey=some (rs,σ) ∧
      (σ.cache.cacheData "State:/en0").watchers 1=1 := ⟨_,_,rfl,by decide⟩
  obtain ⟨rs,σ,hrun,hone⟩ := hrun
  refine ⟨rs,σ,hrun,(watches_run literalEnvironment hrun ?_ ?_).1,hone⟩
  · intro m hm
    simp only [patternThenKey,mem_cons,not_mem_nil,or_false] at hm
    rcases hm with rfl | rfl | rfl <;> exact trivial
  · refine ⟨trivial,fun r hr => ?_⟩
    cases hr
    exact ⟨fun _ _ _ _ k hk => absurd hk not_mem_nil,fun _ _ => ⟨trivial,fun _ _ => trivial⟩⟩

/-- A session watches a key that does not exist yet, by name and through a pattern, and drops the
pattern. -/
def patternDropped : List (Message String String) :=
  [⟨1,0,.open⟩,⟨2,0,.open⟩,⟨1,0,.notifyAdd "State:/en0" false⟩,
    ⟨1,0,.notifyAdd "State:/en0" true⟩,⟨1,0,.notifyRemove "State:/en0" true⟩]

/-- Dropping the pattern has taken the reference of the watch by name, and the session is not told
when the key is added. -/
theorem patternDropped_losesWatch :
    ∃ rs σ r σ',serveAll literalEnvironment .initial patternDropped=some (rs,σ) ∧
      σ.isLocked=false ∧ (σ.cache.cacheData "State:/en0").watchers 1=0 ∧
      expectedRefs literalEnvironment σ 1 "State:/en0" = 1 ∧
      serve literalEnvironment σ ⟨2,0,.add "State:/en0" "up"⟩=some (r,σ') ∧
      r.status=.ok ∧ Watches literalEnvironment σ 1 "State:/en0" ∧
      "State:/en0"∉(σ'.sessionData 1).changedKeys := by
  refine ⟨_,_,_,_,rfl,rfl,?_,?_,rfl,?_,?_,?_⟩
  · decide
  · decide
  · decide
  · exact (by decide : 0<1)
  · decide

end Run

end Darwin.Configd
