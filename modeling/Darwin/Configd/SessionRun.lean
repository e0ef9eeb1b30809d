import Darwin.Configd.SessionClose

/-! Session keys over a whole run: who owns what at every point at which the cache is not locked,
and what is left when a session ends. -/
open Option List
namespace Darwin.Configd

variable {Key Data : Type} [DecidableEq Key] (env : Environment Key Data)

section Closing

/-- The state whose cache the end of a session works on: the death of the holder of the lock
brings back the cache it had locked. -/
def closingState (σ : Server Key Data) (m : Message Key Data) : Server Key Data :=
  match m.request with
  | .died => if σ.isLocked && holdsLock σ m.server then swapLockedCacheData σ else σ
  | _ => σ

def Request.Closes : Request Key Data → Prop
  | .close | .died => True
  | _ => False

/-- A session with keys may not end while the cache is free if its caller is not allowed to lock
it. -/
def MayClose (σ : Server Key Data) (m : Message Key Data) : Prop :=
  match m.request with
  | .close => m.callerEUID=0 ∨ σ.isLocked=true ∨ (σ.sessionData m.server).sessionKeys=[]
  | .died => (∀ s,σ.sessions m.server=some s → s.callerEUID=0) ∨ σ.isLocked=true ∨
      (σ.sessionData m.server).sessionKeys=[]
  | _ => True

/-- The requests that keep owners and lists together. Under the lock a session may not add a key
again that has just been taken from its list. -/
def SessionSafe (σ : Server Key Data) (m : Message Key Data) : Prop :=
  MayClose σ m ∧ match m.request with
    | .addSession key _ => (σ.cache.cacheData key).data≠none ∨
        (m.server,key)∉σ.cache.removedSessionKeys
    | _ => True

variable {σ : Server Key Data} {p : MachPort} {m : Message Key Data}

omit [DecidableEq Key] in
lemma receives_session
    (h : receives σ m=true) (hne : m.request≠.open) (hok : ServerOk σ) :
    ∃ s,σ.sessions m.server=some s ∧ s.isLocked=σ.isLocked := by
  have hcases : ∃ s,σ.sessions m.server=some s ∧ (!σ.isLocked || s.isLocked)=true := by
    unfold receives at h
    split at h
    · rename_i heq
      exact absurd heq hne
    · cases h
    · exact ⟨_,‹_›,h⟩
  obtain ⟨s,hs,hl⟩ := hcases
  refine ⟨s,hs,?_⟩
  cases hlocked : σ.isLocked with
  | true => simpa [hlocked] using hl
  | false => exact hok.free hlocked m.server s hs

lemma Closed.congr {mine : Key → Prop} {σ σ' ρ : Server Key Data}
    (h : Closed env p mine σ ρ) (hcache : σ.cache=σ'.cache)
    (hinfo : σ.sessionData=σ'.sessionData) (hneeds : σ.needsNotification=σ'.needsNotification)
    (hothers : ∀ q,q≠p → σ.sessions q=σ'.sessions q)
    (hown : (σ.sessions p).map SCDSession.watches=(σ'.sessions p).map SCDSession.watches) :
    Closed env p mine σ' ρ := by
  obtain ⟨hremoved,hkept,hwatchers,hdropped,ho,hchanges,hn,hlists,hregex,hkeys,hl,hgone,hq⟩ := h
  rw [hcache] at hkept hwatchers hdropped ho hchanges hn hkeys
  rw [hinfo] at hdropped hchanges hregex hkeys
  rw [hneeds] at hn
  refine ⟨hremoved,hkept,hwatchers,hdropped,fun s' hs' k hk hd => ?_,hchanges,hn,hlists,hregex,
    hkeys,hl,hgone,fun q hne => (hq q hne).trans (hothers q hne)⟩
  rw [hs'] at hown
  obtain ⟨s,hs,hwatches⟩ := map_eq_some_iff.mp hown
  rw [ho s hs k hk hd,show s.keys=s'.keys from congrArg Prod.fst hwatches,
    show s.reKeys=s'.reKeys from congrArg Prod.snd hwatches]

lemma Closed.mono {mine mine' : Key → Prop} {σ ρ : Server Key Data}
    (h : Closed env p mine σ ρ) (hmine : ∀ k,mine k ↔ mine' k) : Closed env p mine' σ ρ := by
  rwa [show mine=mine' from funext fun k => propext (hmine k)] at h

lemma Closed.removeSession {mine : Key → Prop} {σ ρ : Server Key Data}
    (h : Closed env p mine σ ρ) : Closed env p mine σ (removeSession ρ p) := by
  have hinfo : ∀ q,q≠p → (Configd.removeSession ρ p).sessionData q=ρ.sessionData q :=
    fun q hq => by simp [Configd.removeSession,Server.setInfo,hq]
  exact
    { h with
      changes := fun q k hq => by rw [hinfo q hq]; exact h.changes q k hq
      regexKeys := fun q hq => by rw [hinfo q hq]; exact h.regexKeys q hq
      sessionKeys := fun q hq => by rw [hinfo q hq]; exact h.sessionKeys q hq}

omit [DecidableEq Key] in
lemma OwnersOk.sessionKey {E : MachPort → Prop} (h : OwnersOk σ E)
    (p : MachPort) (k : Key) : SessionKey σ p k ↔ (σ.cache.cacheData k).session=some p :=
  and_iff_right_of_imp fun hk => (h.listed p k hk).1

lemma Closed.noneOwned {σ ρ : Server Key Data}
    (h : Closed env p (fun k => (σ.cache.cacheData k).session=some p) σ ρ) (k : Key) :
    (ρ.cache.cacheData k).session≠some p := by
  intro hk
  by_cases hσ : (σ.cache.cacheData k).session=some p
  · rw [(h.removed k hσ).2.2] at hk
    cases hk
  · exact hσ ((h.kept k hσ).2.2▸hk)

lemma Closed.keysInv {σ τ ρ : Server Key Data} {E : MachPort → Prop}
    (h : Closed env p (fun k => (σ.cache.cacheData k).session=some p) σ ρ) (hτ : OwnersOk τ E) (hc : CacheOk τ.cache)
    (hreleased : Released env p τ ρ) (hE : ∀ q,E q → q=p) :
    KeysInv (Configd.removeSession ρ p) := by
  have hρ : OwnersOk ρ E := (hτ.commit env hc).of_eq hreleased.cache hreleased.info
  have hself : ((Configd.removeSession ρ p).sessionData p).sessionKeys=[] := by
    simp [Configd.removeSession,Server.setInfo,SessionInfo.empty]
  have hother : ∀ q,q≠p →
      ((Configd.removeSession ρ p).sessionData q).sessionKeys=(ρ.sessionData q).sessionKeys :=
    fun q hq => by simp [Configd.removeSession,Server.setInfo,hq]
  refine ⟨⟨fun q => ?_,fun q k hk => ?_,fun q _ k hk hr => ?_⟩,fun hl => ?_⟩
  · by_cases hq : q=p
    · rw [hq,hself]
      exact nodup_nil
    · rw [hother q hq]
      exact hρ.lists q
  · have hq : q≠p := fun he => h.noneOwned env k (he▸hk)
    rw [hother q hq]
    exact hρ.listed q k hk
  · by_cases hq : q=p
    · rw [hq,hself] at hk
      cases hk
    · rw [hother q hq] at hk
      exact hρ.owned q (fun he => hq (hE q he)) k hk hr
  · rw [show (Configd.removeSession ρ p).isLocked=ρ.isLocked from rfl,h.isLocked] at hl
    cases hl

omit [DecidableEq Key] in
lemma saveCaller_needs (σ : Server Key Data) (m : Message Key Data) :
    (saveCaller σ m).needsNotification=σ.needsNotification := by
  unfold saveCaller
  split <;> rfl

omit [DecidableEq Key] in
lemma saveCaller_others (σ : Server Key Data) (m : Message Key Data) {q : MachPort}
    (hq : q≠m.server) : (saveCaller σ m).sessions q=σ.sessions q := by
  unfold saveCaller
  split
  · rfl
  · rfl
  · simp [Server.setSession,hq]

omit [DecidableEq Key] in
lemma holdsLock_of_session {s : SCDSession Key}
    (hs : σ.sessions p=some s) : holdsLock σ p=s.isLocked := by
  simp [holdsLock,hs]

lemma serve_closes (hok : ServerOk σ)
    (hreceives : receives σ m=true) (hcloses : m.request.Closes) (hsafe : MayClose σ m)
    {r : Reply Key Data × Server Key Data} (hr : serve env σ m=some r) :
    r.1.status=.ok ∧ ∃ τ ρ,r.2=removeSession ρ m.server ∧
      Closed env m.server (SessionKey (closingState σ m) m.server) (closingState σ m) ρ ∧
      (∀ E,OwnersOk (closingState σ m) E → OwnersOk τ E) ∧ CacheOk τ.cache ∧
      Released env m.server τ ρ := by
  have hne : m.request≠.open := by
    intro he
    rw [he] at hcloses
    exact hcloses
  obtain ⟨s,hs,hlock⟩ := receives_session hreceives hne hok
  obtain ⟨hdata,hl⟩ := saveCaller_sessionData σ m
  have hcache := saveCaller_cache σ m
  obtain ⟨p,euid,request⟩ := m
  cases request with
  | close =>
    have hs' : (saveCaller σ ⟨p,euid,.close⟩).sessions p=some {s with callerEUID := euid} := by
      simp only at hs
      simp [saveCaller,hs,Server.setSession]
    simp only [serve,configclose,map_eq_some_iff] at hr
    obtain ⟨_,⟨r₀,hclose,rfl⟩,rfl⟩ := hr
    have hwrite : euid=0 ∨ (saveCaller σ ⟨p,euid,.close⟩).isLocked=true ∨
        ((saveCaller σ ⟨p,euid,.close⟩).sessionData p).sessionKeys=[] := by
      rw [hl,hdata]
      exact hsafe
    obtain ⟨hst,hclosed,τ,hτ,hcτ,hreleased⟩ := scdClose_closed env
      (hok.saveCaller ⟨p,euid,.close⟩) hs' (hlock.trans hl.symm) hwrite hclose
    simp only [statusReply,if_pos hst]
    refine ⟨trivial,τ,r₀.2,rfl,?_,fun E hE => hτ E (hE.of_eq hcache hdata),hcτ,hreleased⟩
    have hmine : SessionKey (saveCaller σ ⟨p,euid,.close⟩) p=SessionKey σ p := by
      funext k
      rw [SessionKey,SessionKey,hcache,hdata]
    rw [hmine] at hclosed
    exact hclosed.congr env hcache hdata (saveCaller_needs σ _)
      (fun q hq => saveCaller_others σ _ hq) (saveCaller_watches σ _ p)
  | died =>
    simp only [serve,cleanupSession,map_eq_some_iff] at hr
    obtain ⟨_,⟨r₀,hclose,rfl⟩,rfl⟩ := hr
    have hstart : scdClose env (closingState σ ⟨p,euid,.died⟩) p=some r₀ := hclose
    have hholds := holdsLock_of_session hs
    cases hlocked : σ.isLocked with
    | true =>
      have hmine : holdsLock σ p=true := hholds.trans (hlock.trans hlocked)
      have hstate : closingState σ ⟨p,euid,.died⟩=swapLockedCacheData σ := by
        simp [closingState,hlocked,hmine]
      rw [hstate] at hstart ⊢
      obtain ⟨-,hclosed,τ,hτ,hcτ,hreleased⟩ := scdClose_closed env
        (σ := swapLockedCacheData σ) (hok.swap hlocked) hs hlock (.inr (.inl hlocked)) hstart
      exact ⟨rfl,τ,r₀.2,rfl,hclosed,hτ,hcτ,hreleased⟩
    | false =>
      have hstate : closingState σ ⟨p,euid,.died⟩=σ := by simp [closingState,hlocked]
      have hwrite : s.callerEUID=0 ∨ σ.isLocked=true ∨ (σ.sessionData p).sessionKeys=[] :=
        hsafe.imp_left fun hu => hu s hs
      rw [hstate] at hstart ⊢
      obtain ⟨-,hclosed,τ,hτ,hcτ,hreleased⟩ := scdClose_closed env hok hs hlock hwrite hstart
      exact ⟨rfl,τ,r₀.2,rfl,hclosed,hτ,hcτ,hreleased⟩
  | _ => exact hcloses.elim

omit [DecidableEq Key] in
lemma KeysInv.closingState (h : KeysInv σ) (hok : ServerOk σ)
    (hreceives : receives σ m=true) (hne : m.request≠.open) :
    ∃ E : MachPort → Prop,(∀ q,E q → q=m.server) ∧ OwnersOk (closingState σ m) E := by
  obtain ⟨s,hs,hlock⟩ := receives_session hreceives hne hok
  unfold Configd.closingState
  split
  · split
    · rename_i hheld
      obtain ⟨hlocked,-⟩ := Bool.and_eq_true_iff.mp hheld
      obtain ⟨-,-,-,howners⟩ := h.saved hlocked
      refine ⟨fun q => holdsLock σ q=true,fun q hq => ?_,howners.of_eq rfl rfl⟩
      obtain ⟨t,ht,hm⟩ : ∃ t,σ.sessions q=some t ∧ t.isLocked=true := by
        cases ht : σ.sessions q with
        | none => simp [holdsLock,ht] at hq
        | some t => exact ⟨t,rfl,(holdsLock_of_session ht).symm.trans hq⟩
      exact hok.holder q m.server t s ht hs hm (hlock.trans hlocked)
    · exact ⟨fun _ => False,fun _ => False.elim,h.owners⟩
  · exact ⟨fun _ => False,fun _ => False.elim,h.owners⟩

lemma serve_closed (h : KeysInv σ) (hok : ServerOk σ)
    (hreceives : receives σ m=true) (hcloses : m.request.Closes)
    (hsafe : MayClose σ m) {r : Reply Key Data × Server Key Data} (hr : serve env σ m=some r) :
    Closed env m.server
      (fun k => ((closingState σ m).cache.cacheData k).session=some m.server)
      (closingState σ m) r.2 ∧ KeysInv r.2 := by
  have hne : m.request≠.open := by
    intro he
    rw [he] at hcloses
    exact hcloses
  obtain ⟨-,τ,ρ,hρ,hclosed,hτ,hcτ,hreleased⟩ := serve_closes env hok hreceives hcloses hsafe hr
  obtain ⟨E,hE,howners⟩ := h.closingState hok hreceives hne
  have hmine := hclosed.mono env fun k => howners.sessionKey m.server k
  rw [hρ]
  exact ⟨hmine.removeSession env,hmine.keysInv env (hτ E howners) hcτ hreleased hE⟩

end Closing

section Run

variable {σ : Server Key Data}

omit [DecidableEq Key] in
lemma KeysInv.notifyChanges (h : KeysInv σ) (p : MachPort) :
    KeysInv (scdNotifierGetChanges σ p).2 := by
  unfold scdNotifierGetChanges
  split
  · exact h
  · refine h.congr (fun _ => rfl) rfl (fun q => ?_) id rfl fun _ => id
    by_cases hq : q=p
    · subst q
      simp [Server.setInfo]
    · simp [Server.setInfo,hq]

omit [DecidableEq Key] in
lemma KeysInv.configopen (h : KeysInv σ) {p : MachPort}
    (hnone : σ.sessions p=none) (euid : ℕ) : KeysInv (configopen σ p euid) := by
  refine h.congr (fun _ => rfl) rfl (fun _ => rfl) id rfl fun q hq => ?_
  have hne : q≠p := by
    rintro rfl
    simp [holdsLock,hnone] at hq
  have hsame : (Configd.configopen σ p euid).sessions q=σ.sessions q := by
    simp [Configd.configopen,Server.setSession,hne]
  rw [holdsLock,hsame]
  exact hq

lemma serve_keysInv (h : KeysInv σ) (hok : ServerOk σ)
    (m : Message Key Data) (hreceives : receives σ m=true) (hsafe : SessionSafe σ m)
    {r : Reply Key Data × Server Key Data} (hr : serve env σ m=some r) : KeysInv r.2 := by
  have hs := hok.saveCaller m
  have hk := h.saveCaller m
  have hcache := saveCaller_cache σ m
  obtain ⟨-,hl⟩ := saveCaller_sessionData σ m
  by_cases hcloses : m.request.Closes
  · exact (serve_closed env h hok hreceives hcloses hsafe.1 hr).2
  have hholds : m.request≠.open →
      (saveCaller σ m).isLocked=true → holdsLock (saveCaller σ m) m.server=true := by
    intro hne hlocked
    obtain ⟨s,hs,hlock⟩ := receives_session hreceives hne hok
    rw [holdsLock_saveCaller,holdsLock_of_session hs,hlock,←hl]
    exact hlocked
  obtain ⟨p,euid,request⟩ := m
  cases request with
  | «open» =>
    cases hr
    have hnone : σ.sessions p=none := by simpa [receives] using hreceives
    refine hk.configopen ?_ euid
    simp [saveCaller,hnone]
  | close => exact absurd trivial hcloses
  | died => exact absurd trivial hcloses
  | lock =>
    cases hr
    exact hk.scdLock hs p
  | unlock =>
    cases hr
    exact hk.scdUnlock env hs p
  | get key =>
    cases hr
    exact hk
  | add key data =>
    cases hr
    exact hk.scdAdd env hs p key ⟨data,0⟩
  | addSession key data =>
    cases hr
    refine hk.scdAddSession env hs p key ⟨data,0⟩ (hholds (by simp)) ?_
    rw [hcache]
    exact hsafe.2
  | set key handle =>
    cases hr
    exact withLock_keysInv env hk hs p _ (scdSetEntry_cacheOnly env p key handle)
      (fun _ hc => cacheOk_scdSetEntry env hc p key handle)
      fun τ E hE => hE.scdSetEntry env p key handle
  | touch key now =>
    cases hr
    simp only [statusReply,scdTouch_eq]
    exact withLock_keysInv env hk hs p _ (scdTouchEntry_cacheOnly env p key now)
      (fun _ hc => cacheOk_scdSetEntry env hc p key _)
      fun τ E hE => hE.scdSetEntry env p key _
  | remove key =>
    cases hr
    exact withLock_keysInv env hk hs p _ (scdRemoveEntry_cacheOnly key)
      (fun _ hc => cacheOk_scdRemoveEntry hc key) fun τ E hE => hE.scdRemoveEntry key
  | notifyAdd key regex =>
    cases hr
    exact hk.onlyWatches (scdNotifierAdd_onlyWatches env _ p key regex)
  | notifyRemove key regex =>
    simp only [serve,map_eq_some_iff] at hr
    obtain ⟨r₀,hremove,rfl⟩ := hr
    exact hk.onlyWatches (scdNotifierRemove_onlyWatches env hremove)
  | notifyChanges =>
    cases hr
    exact hk.notifyChanges p

omit [DecidableEq Key] in
lemma keysInv_initial : KeysInv (Server.initial : Server Key Data) where
  owners :=
    { lists := fun _ => nodup_nil
      listed := fun _ _ h => by cases h
      owned := fun _ _ _ h => by cases h}
  saved := fun h => by cases h

lemma serveAll_keysInv (h : KeysInv σ) (hok : ServerOk σ)
    {ms : List (Message Key Data)} {rs : List (Reply Key Data)} {σ' : Server Key Data}
    (hr : serveAll env σ ms=some (rs,σ')) (hsafe : RunMeets env SessionSafe σ ms) : KeysInv σ' := by
  induction ms generalizing σ rs with
  | nil =>
    cases hr
    exact h
  | cons m ms ih =>
    simp only [serveAll] at hr
    split at hr
    · rename_i hreceives
      simp only [bind_eq_some_iff,map_eq_some_iff] at hr
      obtain ⟨r,hone,⟨rs',σ''⟩,hrest,heq⟩ := hr
      cases heq
      exact ih (serve_keysInv env h hok m hreceives hsafe.1 hone) (serve_serverOk env hok m hone)
        hrest (hsafe.2 r hone)
    · cases hr

/-- In every run of safe requests, whenever the cache is not locked a session's list holds exactly
the keys it owns, each once. The end of a session removes those keys and tells their watchers, and
leaves every other key as it was. -/
theorem sessionKeys_run {ms : List (Message Key Data)} {rs : List (Reply Key Data)}
    {σ : Server Key Data} (hr : serveAll env .initial ms=some (rs,σ))
    (hsafe : RunMeets env SessionSafe .initial ms) :
    (σ.isLocked=false → ∀ p,(σ.sessionData p).sessionKeys.Nodup ∧
      ∀ k,k∈(σ.sessionData p).sessionKeys ↔ (σ.cache.cacheData k).session=some p) ∧
    ∀ m r,receives σ m=true → m.request.Closes → MayClose σ m → serve env σ m=some r →
      Closed env m.server
        (fun k => ((closingState σ m).cache.cacheData k).session=some m.server)
        (closingState σ m) r.2 := by
  have hkeys := serveAll_keysInv env keysInv_initial serverOk_initial hr hsafe
  have hok := serveAll_serverOk env serverOk_initial ms hr
  refine ⟨fun hl p => ⟨hkeys.owners.lists p,fun k => ⟨fun hk => ?_,fun hk => ?_⟩⟩,
    fun m r hreceives hcloses hs hserve =>
      (serve_closed env hkeys hok hreceives hcloses hs hserve).1⟩
  · refine hkeys.owners.owned p id k hk ?_
    rw [(hok.idle hl).2.2]
    exact not_mem_nil
  · exact (hkeys.owners.listed p k hk).1

/-- A session adds a key of its own and a permanent key takes over another one. -/
def ownedAndTaken : List (Message String String) :=
  [⟨1,0,.open⟩,⟨2,0,.open⟩,⟨1,0,.addSession "Plugin:/a" "a"⟩,⟨1,0,.addSession "Plugin:/b" "b"⟩,
    ⟨2,0,.notifyAdd "Plugin:/a" false⟩,⟨2,0,.set "Plugin:/b" ⟨"c",1⟩⟩]

/-- The first session's end removes the one key it still owns. -/
theorem sessionKeys_run_ownedAndTaken :
    ∃ rs σ r,serveAll plainEnvironment .initial ownedAndTaken=some (rs,σ) ∧
      (σ.sessionData 1).sessionKeys=["Plugin:/a"] ∧
      serve plainEnvironment σ ⟨1,0,.close⟩=some r ∧
      Closed plainEnvironment 1 (fun k => (σ.cache.cacheData k).session=some 1) σ r.2 ∧
      (r.2.cache.cacheData "Plugin:/b").data=some "c" ∧
      (r.2.sessionData 2).changedKeys=["Plugin:/a"] := by
  have hrun : ∃ rs σ r,serveAll plainEnvironment .initial ownedAndTaken=some (rs,σ) ∧
      (σ.sessionData 1).sessionKeys=["Plugin:/a"] ∧
      serve plainEnvironment σ ⟨1,0,.close⟩=some r ∧ receives σ ⟨1,0,.close⟩=true ∧
      (r.2.cache.cacheData "Plugin:/b").data=some "c" ∧
      (r.2.sessionData 2).changedKeys=["Plugin:/a"] :=
    ⟨_,_,_,rfl,by decide,rfl,by decide,by decide,by decide⟩
  obtain ⟨rs,σ,r,hall,hlist,hserve,hreceives,hb,hchanges⟩ := hrun
  refine ⟨rs,σ,r,hall,hlist,hserve,?_,hb,hchanges⟩
  refine (sessionKeys_run plainEnvironment hall ?_).2 ⟨1,0,.close⟩ r hreceives trivial (.inl rfl)
    hserve
  refine ⟨⟨trivial,trivial⟩,fun r hr => ⟨⟨trivial,trivial⟩,fun r' hr' => ⟨⟨trivial,.inr ?_⟩,
    fun r'' hr'' => ⟨⟨trivial,.inr ?_⟩,fun _ _ => ⟨⟨trivial,trivial⟩,
      fun _ _ => ⟨⟨trivial,trivial⟩,fun _ _ => trivial⟩⟩⟩⟩⟩⟩
  · cases hr
    cases hr'
    exact not_mem_nil
  · cases hr
    cases hr'
    cases hr''
    exact not_mem_nil

/-- Under the lock a session adds a key of its own, removes it and adds it again. -/
def readded : List (Message String String) :=
  [⟨1,0,.open⟩,⟨1,0,.lock⟩,⟨1,0,.addSession "Plugin:/a" "a"⟩,⟨1,0,.remove "Plugin:/a"⟩,
    ⟨1,0,.addSession "Plugin:/a" "b"⟩,⟨1,0,.unlock⟩]

/-- After the unlock the session owns the key without listing it, and its end leaves the key. -/
theorem readded_keyRemains :
    ∃ rs σ r,serveAll plainEnvironment .initial readded=some (rs,σ) ∧ σ.isLocked=false ∧
      (σ.cache.cacheData "Plugin:/a").session=some 1 ∧ (σ.sessionData 1).sessionKeys=[] ∧
      serve plainEnvironment σ ⟨1,0,.close⟩=some r ∧ r.1.status=.ok ∧
      (r.2.cache.cacheData "Plugin:/a").data=some "b" :=
  ⟨_,_,_,rfl,by decide,by decide,by decide,rfl,by decide,by decide⟩

end Run

end Darwin.Configd
