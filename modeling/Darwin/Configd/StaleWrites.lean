import Darwin.Configd.Invariant
import Darwin.Lib.VersionCell

/-! When a write through an old handle is noticed. The entry of a key is a cell with a version:
every write of the key that succeeds is a write of the cell, every removal a removal. -/
open Option List
namespace Darwin.Configd

open VersionCell

variable {Key Data : Type} [DecidableEq Key] (env : Environment Key Data)

def Request.event (key : Key) : Request Key Data → Option CellEvent
  | .add k _ | .addSession k _ | .set k _ | .touch k _ => if k=key then some .write else none
  | .remove k => if k=key then some .removal else none
  | _ => none

def keyEvent (key : Key) (m : Message Key Data) (r : Reply Key Data) : Option CellEvent :=
  if r.status=.ok then m.request.event key else none

def keyEvents (key : Key) (ms : List (Message Key Data)) (rs : List (Reply Key Data)) :
    List CellEvent :=
  (ms.zip rs).filterMap fun x => keyEvent key x.1 x.2

def Request.InSession : Request Key Data → Prop
  | .close | .died => False
  | _ => True

section Instances
variable {α : Type}

variable {σ : Server Key Data}

lemma withLock_inst (h : ServerOk σ) (session : MachPort)
    {fail : SCDStatus → α} {body : Server Key Data → α × Server Key Data} (hb : CacheOnly body)
    (hc : ∀ τ,CacheOk τ.cache → CacheOk (body τ).2.cache) (status : α → SCDStatus)
    (hfail : ∀ st,status (fail st)=st) (e : Option CellEvent) (key : Key)
    (hbody : ∀ τ,CacheOk τ.cache → ((body τ).2.cache.cacheData key).inst =
      replay (τ.cache.cacheData key).inst
        (if status (body τ).1=.ok then e else none).toList) :
    ((withLock env σ session fail body).2.cache.cacheData key).inst =
      replay (σ.cache.cacheData key).inst
        (if status (withLock env σ session fail body).1=.ok then e else none).toList := by
  rcases withLock_cases env σ session fail hb with ⟨-,st,hst,-,heq⟩ | ⟨-,-,heq⟩ | ⟨-,-,s,-,heq⟩
  · simp [heq,hfail,hst]
  · rw [heq]
    exact hbody σ h.cache
  · have hcache := hc (σ.held session s) h.cache
    rw [heq]
    change ((commit env (body (σ.held session s)).2).cache.cacheData key).inst=_
    rw [commit_cacheData env _ hcache.deferred]
    refine Eq.trans ?_ (hbody (σ.held session s) h.cache)
    split <;> rfl

lemma setCache_inst (σ : Server Key Data) (session : MachPort) (k : Key) (data : Data)
    (key : Key) : ((setCache env σ session k data).cacheData key).inst =
      replay (σ.cache.cacheData key).inst
        (if k=key then some CellEvent.write else none).toList := by
  rw [setCache_cacheData]
  by_cases hk : key=k
  · subst key
    rw [Function.update_self,if_pos rfl]
    split <;> rfl
  · rw [Function.update_of_ne hk,if_neg (Ne.symm hk)]
    rfl

lemma scdSetEntry_inst (σ : Server Key Data) (session : MachPort) (k : Key)
    (handle : SCDHandle Data) (key : Key) :
    ((scdSetEntry env σ session k handle).2.cache.cacheData key).inst =
      replay (σ.cache.cacheData key).inst
        (if (scdSetEntry env σ session k handle).1.1=.ok then
          (if k=key then some CellEvent.write else none) else none).toList := by
  by_cases ha : Accepts (σ.cache.cacheData k) handle
  · rw [scdSetEntry_ok env ha,if_pos rfl]
    exact setCache_inst env σ session k handle.data key
  · rw [scdSetEntry_stale env ha]
    rfl

omit [DecidableEq Key] in
lemma accepts_touchHandle {c : Cache Key Data} (h : CacheOk c) (k : Key) (now : Data) :
    Accepts (c.cacheData k) (touchHandle env (c.cacheData k) now) := by
  intro i hi
  have hdata := h.entries k
  rw [hi,isSome_some,isSome_iff_exists] at hdata
  obtain ⟨data,hdata⟩ := hdata
  simp [touchHandle,hdata,hi]

lemma scdSet_inst (h : ServerOk σ) (p : MachPort) (k : Key)
    (handle : SCDHandle Data) (key : Key) : ((scdSet env σ p k handle).2.cache.cacheData key).inst =
      replay (σ.cache.cacheData key).inst (if (scdSet env σ p k handle).1.1=.ok then
        (if k=key then some CellEvent.write else none) else none).toList :=
  withLock_inst env h p (scdSetEntry_cacheOnly env p k handle)
    (fun _ hc => cacheOk_scdSetEntry env hc p k handle) Prod.fst (fun _ => rfl) _ key
    fun τ _ => scdSetEntry_inst env τ p k handle key

lemma scdAdd_inst (h : ServerOk σ) (p : MachPort) (k : Key)
    (handle : SCDHandle Data) (key : Key) : ((scdAdd env σ p k handle).2.cache.cacheData key).inst =
      replay (σ.cache.cacheData key).inst (if (scdAdd env σ p k handle).1.1=.ok then
        (if k=key then some CellEvent.write else none) else none).toList := by
  rw [scdAdd_eq]
  refine withLock_inst env h p (scdAddEntry_cacheOnly env p k handle)
    (fun _ hc => cacheOk_scdAddEntry env hc p k handle) Prod.fst (fun _ => rfl) _ key ?_
  intro τ _
  unfold scdAddEntry
  split
  · exact scdSetEntry_inst env τ p k handle key
  · rfl

lemma scdTouch_inst (h : ServerOk σ) (p : MachPort) (k : Key)
    (now : Data) (key : Key) : ((scdTouch env σ p k now).2.cache.cacheData key).inst =
      replay (σ.cache.cacheData key).inst (if (scdTouch env σ p k now).1=.ok then
        (if k=key then some CellEvent.write else none) else none).toList := by
  rw [scdTouch_eq]
  refine withLock_inst env h p (scdTouchEntry_cacheOnly env p k now)
    (fun _ hc => cacheOk_scdSetEntry env hc p k _) id (fun _ => rfl) _ key ?_
  intro τ hτ
  simp only [scdTouchEntry,scdSetEntry_ok env (accepts_touchHandle env hτ k now),id,if_true]
  exact setCache_inst env τ p k _ key

lemma scdRemove_inst (h : ServerOk σ) (p : MachPort) (k key : Key) :
    ((scdRemove env σ p k).2.cache.cacheData key).inst =
      replay (σ.cache.cacheData key).inst (if (scdRemove env σ p k).1=.ok then
        (if k=key then some CellEvent.removal else none) else none).toList := by
  refine withLock_inst env h p (scdRemoveEntry_cacheOnly k)
    (fun _ hc => cacheOk_scdRemoveEntry hc k) id (fun _ => rfl) _ key ?_
  intro τ _
  rw [scdRemoveEntry_eq]
  split
  · rfl
  · by_cases hk : key=k
    · subst key
      simp [removeCache,replay,replayEvent]
    · simp [removeCache,hk,Ne.symm hk]

lemma scdUnlock_inst (h : ServerOk σ) (p : MachPort) (key : Key) :
    ((scdUnlock env σ p).2.cache.cacheData key).inst=(σ.cache.cacheData key).inst := by
  unfold scdUnlock
  split
  · rfl
  · split
    · rfl
    · refine (congrArg CacheEntry.inst (commit_cacheData env σ h.cache.deferred key)).trans ?_
      split <;> rfl

lemma modify_inst (c : Cache Key Data) (k key : Key) {f : CacheEntry Data → CacheEntry Data}
    (hf : ∀ e,(f e).inst=e.inst) : ((c.modify k f).cacheData key).inst=(c.cacheData key).inst := by
  by_cases hk : key=k
  · rw [hk,modify_self,hf]
  · rw [modify_other c f hk]

lemma scdNotifierAdd_inst (σ : Server Key Data) (p : MachPort) (k : Key) (regex : Bool)
    (key : Key) : ((scdNotifierAdd env σ p k regex).2.cache.cacheData key).inst =
      (σ.cache.cacheData key).inst := by
  have hadds := scdNotifierAdd_adds env σ p k regex
  generalize scdNotifierAdd env σ p k regex=r at hadds ⊢
  cases hadds with
  | refused => rfl
  | notCompiled => rfl
  | pattern => exact (addRegexWatcherByKey_content env p k key _).2.1
  | plain => exact modify_inst σ.cache k key (f := (·.addWatcher p)) fun _ => rfl

lemma scdNotifierRemove_inst {p : MachPort} {k : Key} {regex : Bool}
    {r : SCDStatus × Server Key Data} (hr : scdNotifierRemove env σ p k regex=some r)
    (key : Key) : (r.2.cache.cacheData key).inst=(σ.cache.cacheData key).inst := by
  cases scdNotifierRemove_removes env hr with
  | refused => rfl
  | pattern => exact (removeRegexWatcherByKey_content env p k key _).2.1
  | plain => exact modify_inst σ.cache k key (f := (·.removeWatcher p)) fun _ => rfl

omit [DecidableEq Key] in
lemma saveCaller_cache (σ : Server Key Data) (m : Message Key Data) :
    (saveCaller σ m).cache=σ.cache := by
  unfold saveCaller
  split <;> rfl

lemma keyEvent_none {key : Key} {m : Message Key Data} (h : m.request.event key=none)
    (r : Reply Key Data) : keyEvent key m r=none := by
  simp only [keyEvent,h]
  split <;> rfl

lemma serve_inst (h : ServerOk σ) (m : Message Key Data)
    (hm : m.request.InSession) {r : Reply Key Data × Server Key Data}
    (hr : serve env σ m=some r) (key : Key) : (r.2.cache.cacheData key).inst =
      replay (σ.cache.cacheData key).inst (keyEvent key m r.1).toList := by
  have hs := h.saveCaller m
  rw [←saveCaller_cache σ m]
  obtain ⟨p,euid,request⟩ := m
  cases request with
  | close => cases hm
  | died => cases hm
  | «open» =>
    cases hr
    rfl
  | lock =>
    cases hr
    rw [keyEvent_none rfl]
    simp only [statusReply,scdLock]
    split
    · rfl
    · split_ifs <;> rfl
  | unlock =>
    cases hr
    rw [keyEvent_none rfl]
    exact scdUnlock_inst env hs p key
  | get k =>
    cases hr
    rw [keyEvent_none rfl]
    rfl
  | add k data =>
    cases hr
    exact scdAdd_inst env hs p k ⟨data,0⟩ key
  | addSession k data =>
    cases hr
    have hadd := scdAdd_inst env hs p k ⟨data,0⟩ key
    simp only [handleReply,keyEvent,Request.event,scdAddSession_eq]
    by_cases hok : (scdAdd env (saveCaller σ ⟨p,euid,.addSession k data⟩) p k ⟨data,0⟩).1.1=.ok
    · rw [if_pos hok] at hadd ⊢
      rw [if_pos hok]
      exact (modify_inst _ k key (f := fun dict => {dict with session := some p})
        fun _ => rfl).trans hadd
    · rw [if_neg hok] at hadd ⊢
      rw [if_neg hok]
      exact hadd
  | set k handle =>
    cases hr
    exact scdSet_inst env hs p k handle key
  | touch k now =>
    cases hr
    exact scdTouch_inst env hs p k now key
  | remove k =>
    cases hr
    exact scdRemove_inst env hs p k key
  | notifyAdd k regex =>
    cases hr
    rw [keyEvent_none rfl]
    exact scdNotifierAdd_inst env _ p k regex key
  | notifyRemove k regex =>
    simp only [serve,map_eq_some_iff] at hr
    obtain ⟨r₀,hremove,rfl⟩ := hr
    rw [keyEvent_none rfl]
    exact scdNotifierRemove_inst env hremove key
  | notifyChanges =>
    cases hr
    rw [keyEvent_none rfl]
    simp only [scdNotifierGetChanges]
    split <;> rfl

lemma serveAll_inst (h : ServerOk σ) (ms : List (Message Key Data))
    (hms : ∀ m∈ms,m.request.InSession) {rs : List (Reply Key Data)} {σ' : Server Key Data}
    (hr : serveAll env σ ms=some (rs,σ')) (key : Key) : (σ'.cache.cacheData key).inst =
      replay (σ.cache.cacheData key).inst (keyEvents key ms rs) := by
  induction ms generalizing σ rs with
  | nil =>
    cases hr
    rfl
  | cons m ms ih =>
    simp only [serveAll] at hr
    split at hr
    · simp only [bind_eq_some_iff,map_eq_some_iff] at hr
      obtain ⟨r,hone,⟨rs',σ''⟩,hrest,heq⟩ := hr
      cases heq
      rw [ih (serve_serverOk env h m hone) (fun m' hm' => hms m' (mem_cons_of_mem m hm'))
        hrest,serve_inst env h m (hms m mem_cons_self) hone key,←replay_append]
      congr 1
      simp only [keyEvents,zip_cons_cons,filterMap_cons]
      cases keyEvent key m r.1 <;> rfl
    · cases hr

end Instances

section Stale

variable {σ : Server Key Data} {handle : SCDHandle Data} {p : MachPort}

lemma commit_idle (hchanged : σ.cache.changedKeys=[])
    (hdeferred : σ.cache.deferredRemovals=[]) (hremoved : σ.cache.removedSessionKeys=[]) :
    (commit env σ).cache=σ.cache := by
  rcases hc : σ.cache with ⟨cacheData,changed,deferred,removed⟩
  rw [hc] at hchanged hdeferred hremoved
  simp only at hchanged hdeferred hremoved
  subst hchanged hdeferred hremoved
  simp [commit,cleanupRemovedSessionKeys,processDeferredRemovals,notifyWatchers,hc]

lemma scdSet_refused (hw : ¬MayWrite σ p) (key : Key)
    (handle : SCDHandle Data) :
    (scdSet env σ p key handle).1.1≠.ok ∧ (scdSet env σ p key handle).2=σ := by
  rcases withLock_cases env σ p (fun st => (st,handle))
    (scdSetEntry_cacheOnly env p key handle) with ⟨-,st,hst,-,heq⟩ | ⟨-,hmay,-⟩ | ⟨-,hmay,-⟩
  · rw [scdSet,heq]
    exact ⟨hst,rfl⟩
  · exact absurd hmay hw
  · exact absurd hmay hw

lemma scdSet_accepted (hw : MayWrite σ p) {key : Key}
    (ha : Accepts (σ.cache.cacheData key) handle) : (scdSet env σ p key handle).1.1=.ok := by
  rcases withLock_cases env σ p (fun st => (st,handle))
    (scdSetEntry_cacheOnly env p key handle) with ⟨hmay,-⟩ | ⟨-,-,heq⟩ | ⟨-,-,s,-,heq⟩
  · exact absurd hw hmay
  · rw [scdSet,heq,scdSetEntry_ok env ha]
  · have ha' : Accepts ((σ.held p s).cache.cacheData key) handle := ha
    rw [scdSet,heq,scdSetEntry_ok env ha']

lemma scdSet_rejected (h : ServerOk σ) (hw : MayWrite σ p)
    {key : Key} (ha : ¬Accepts (σ.cache.cacheData key) handle) :
    (scdSet env σ p key handle).1.1=.stale ∧ (scdSet env σ p key handle).2.cache=σ.cache := by
  rcases withLock_cases env σ p (fun st => (st,handle))
    (scdSetEntry_cacheOnly env p key handle) with ⟨hmay,-⟩ | ⟨-,-,heq⟩ | ⟨hl,-,s,-,heq⟩
  · exact absurd hw hmay
  · rw [scdSet,heq,scdSetEntry_stale env ha]
    exact ⟨rfl,rfl⟩
  · have ha' : ¬Accepts ((σ.held p s).cache.cacheData key) handle := ha
    rw [scdSet,heq,scdSetEntry_stale env ha']
    obtain ⟨hchanged,hdeferred,hremoved⟩ := h.idle hl
    exact ⟨rfl,commit_idle env (σ := σ.held p s) hchanged hdeferred hremoved⟩

/-- What a reader expects of a write through its handle, with `es` the events on the key since the
handle was read: it only succeeds when there were none, and otherwise it is reported as stale,
provided the session may write at all, and changes nothing. -/
def NoLostUpdate (es : List CellEvent) (mayWrite : Prop) (σ : Server Key Data)
    (r : Reply Key Data × Server Key Data) : Prop :=
  (r.1.status=.ok → es=[]) ∧ (es≠[] → r.2.cache=σ.cache ∧ (mayWrite → r.1.status=.stale))

omit [DecidableEq Key] in
lemma mayWrite_saveCaller {euid : ℕ} {key : Key}
    (h : receives σ ⟨p,euid,.set key handle⟩=true) :
    MayWrite (saveCaller σ ⟨p,euid,.set key handle⟩) p ↔ σ.isLocked=true ∨ euid=0 := by
  cases hs : σ.sessions p with
  | none => simp [receives,hs] at h
  | some s => simp [MayWrite,saveCaller,hs,Server.setSession]

omit [DecidableEq Key] in
lemma not_accepts_iff (dict : CacheEntry Data) (handle : SCDHandle Data) :
    ¬Accepts dict handle ↔ ∃ v,dict.inst=some v ∧ v≠handle.inst := by
  simp only [Accepts]
  push Not
  rfl

lemma get_inst (h : ServerOk σ) {q : MachPort} {euid : ℕ} {key : Key}
    {changes : List Key} {σ' : Server Key Data}
    (hget : serve env σ ⟨q,euid,.get key⟩=some (⟨.ok,some handle,changes⟩,σ')) :
    (σ'.cache.cacheData key).inst=some handle.inst := by
  have hs := h.saveCaller ⟨q,euid,.get key⟩
  simp only [serve,some.injEq,Prod.mk.injEq,Reply.mk.injEq] at hget
  obtain ⟨⟨hok,hhandle,-⟩,rfl⟩ := hget
  generalize saveCaller σ ⟨q,euid,.get key⟩=τ at hs hok hhandle ⊢
  have hentries := hs.cache.entries key
  cases hsession : τ.sessions q with
  | none => simp [scdGet,hsession] at hok
  | some s =>
    cases hd : (τ.cache.cacheData key).data with
    | none => simp [scdGet,hsession,hd] at hok
    | some d =>
      rw [hd,isSome_some] at hentries
      obtain ⟨i,hi⟩ := isSome_iff_exists.mp hentries.symm
      simp only [scdGet,hsession,hd,hi,getD_some,some.injEq] at hhandle
      rw [hi,←hhandle]

/-- A write through the handle of an earlier read loses no update exactly when the key has not
been touched in between, or it has been and its instance shows it, or the session may not write.
The instance does not show a removal that is still in effect, and it starts again from 1 when the
key is created anew. -/
theorem set_noLostUpdate_iff {ms₀ ms : List (Message Key Data)} {rs₀ rs : List (Reply Key Data)}
    {σ₀ σ σ₁ : Server Key Data} {p q : MachPort} {euid euid' : ℕ} {key : Key} {data : Data}
    {handle : SCDHandle Data} {changes : List Key} {r : Reply Key Data × Server Key Data}
    (h₀ : serveAll env .initial ms₀=some (rs₀,σ₀))
    (hget : serve env σ₀ ⟨q,euid',.get key⟩=some (⟨.ok,some handle,changes⟩,σ))
    (hms : ∀ m∈ms,m.request.InSession) (hrun : serveAll env σ ms=some (rs,σ₁))
    (hset : receives σ₁ ⟨p,euid,.set key ⟨data,handle.inst⟩⟩=true)
    (hr : serve env σ₁ ⟨p,euid,.set key ⟨data,handle.inst⟩⟩=some r) :
    NoLostUpdate (keyEvents key ms rs) (σ₁.isLocked=true ∨ euid=0) σ₁ r ↔
      keyEvents key ms rs=[] ∨ Detectable handle.inst (keyEvents key ms rs) ∨
        ¬(σ₁.isLocked=true ∨ euid=0) := by
  have hσ₀ := serveAll_serverOk env serverOk_initial ms₀ h₀
  have hσ := serve_serverOk env hσ₀ _ hget
  have hσ₁ := serveAll_serverOk env hσ ms hrun
  have hreplay := serveAll_inst env hσ ms hms hrun key
  rw [get_inst env hσ₀ hget] at hreplay
  have hmay := mayWrite_saveCaller hset
  have hcache := saveCaller_cache σ₁ ⟨p,euid,.set key ⟨data,handle.inst⟩⟩
  have hdetect : ¬Accepts ((saveCaller σ₁ ⟨p,euid,.set key ⟨data,handle.inst⟩⟩).cache.cacheData
      key) ⟨data,handle.inst⟩ ↔ Detectable handle.inst (keyEvents key ms rs) := by
    rw [not_accepts_iff,hcache,hreplay]
    exact replay_detects_iff handle.inst (keyEvents key ms rs)
  have hs := hσ₁.saveCaller ⟨p,euid,.set key ⟨data,handle.inst⟩⟩
  simp only [serve,some.injEq] at hr
  subst r
  rw [←hmay]
  by_cases hw : MayWrite (saveCaller σ₁ ⟨p,euid,.set key ⟨data,handle.inst⟩⟩) p
  · by_cases hd : Detectable handle.inst (keyEvents key ms rs)
    · obtain ⟨hstale,hsame⟩ := scdSet_rejected env hs hw (hdetect.mpr hd)
      refine ⟨fun _ => .inr (.inl hd),fun _ => ⟨fun hok => ?_,fun _ => ⟨?_,fun _ => hstale⟩⟩⟩
      · exact absurd (hstale.symm.trans hok) (by decide)
      · exact hsame.trans hcache
    · have hok := scdSet_accepted env hw (not_not.mp (mt hdetect.mp hd))
      constructor
      · intro h
        exact .inl (h.1 hok)
      · rintro (h | h | h)
        · exact ⟨fun _ => h,fun hne => absurd h hne⟩
        · exact absurd h hd
        · exact absurd hw h
  · obtain ⟨hnot,hsame⟩ := scdSet_refused env hw key ⟨data,handle.inst⟩
    refine ⟨fun _ => .inr (.inr hw),fun _ => ⟨fun hok => absurd hok hnot,fun _ => ⟨?_,?_⟩⟩⟩
    · exact (congrArg Server.cache hsame).trans hcache
    · exact fun h => absurd h hw

theorem reached_serverOk (ms : List (Message Key Data)) {rs : List (Reply Key Data)}
    {σ : Server Key Data} (hr : serveAll env .initial ms=some (rs,σ)) : ServerOk σ :=
  serveAll_serverOk env serverOk_initial ms hr

def plainEnvironment : Environment String String := ⟨fun _ => true,fun _ _ => false,fun _ => false⟩

def beforeRead : List (Message String String) :=
  [⟨1,0,.open⟩,⟨2,0,.open⟩,⟨1,0,.add "Setup:/Network" "old"⟩]

theorem reached_serverOk_beforeRead :
    ∃ rs σ,serveAll plainEnvironment .initial beforeRead=some (rs,σ) ∧ ServerOk σ :=
  ⟨_,_,rfl,reached_serverOk plainEnvironment beforeRead rfl⟩

def recreation : List (Message String String) :=
  [⟨2,0,.remove "Setup:/Network"⟩,⟨2,0,.add "Setup:/Network" "new"⟩]

/-- The first session read the key before it was removed and created anew, and its write still
goes through. -/
theorem recreatedKey_lostUpdate : ∃ rs₀ σ₀ handle changes σ rs σ₁ r,
      serveAll plainEnvironment .initial beforeRead=some (rs₀,σ₀) ∧
      serve plainEnvironment σ₀ ⟨1,0,.get "Setup:/Network"⟩ =
        some (⟨.ok,some handle,changes⟩,σ) ∧ serveAll plainEnvironment σ recreation=some (rs,σ₁) ∧
      receives σ₁ ⟨1,0,.set "Setup:/Network" ⟨"mine",handle.inst⟩⟩=true ∧
      serve plainEnvironment σ₁ ⟨1,0,.set "Setup:/Network" ⟨"mine",handle.inst⟩⟩=some r ∧
      r.1.status=.ok ∧ keyEvents "Setup:/Network" recreation rs=[.removal,.write] ∧
      ¬NoLostUpdate (keyEvents "Setup:/Network" recreation rs) True σ₁ r := by
  refine ⟨_,_,_,_,_,_,_,_,rfl,rfl,rfl,rfl,rfl,?_,?_,?_⟩
  · decide
  · decide
  · intro h
    have := h.1 (by decide)
    exact absurd this (by decide)

/-- A write of the key in between is noticed. -/
theorem set_noLostUpdate_touched : ∃ rs₀ σ₀ handle changes σ rs σ₁ r,
      serveAll plainEnvironment .initial beforeRead=some (rs₀,σ₀) ∧
      serve plainEnvironment σ₀ ⟨1,0,.get "Setup:/Network"⟩ =
        some (⟨.ok,some handle,changes⟩,σ) ∧
      serveAll plainEnvironment σ [⟨2,0,.touch "Setup:/Network" "now"⟩]=some (rs,σ₁) ∧
      serve plainEnvironment σ₁ ⟨1,0,.set "Setup:/Network" ⟨"mine",handle.inst⟩⟩=some r ∧
      (NoLostUpdate (keyEvents "Setup:/Network" [⟨2,0,.touch "Setup:/Network" "now"⟩] rs)
          (σ₁.isLocked=true ∨ 0=0) σ₁ r ↔
        keyEvents "Setup:/Network" [⟨2,0,.touch "Setup:/Network" "now"⟩] rs=[] ∨
          Detectable handle.inst
            (keyEvents "Setup:/Network" [⟨2,0,.touch "Setup:/Network" "now"⟩] rs) ∨
          ¬(σ₁.isLocked=true ∨ 0=0)) := by
  refine ⟨_,_,_,_,_,_,_,_,rfl,rfl,rfl,rfl,?_⟩
  refine set_noLostUpdate_iff plainEnvironment
    (show serveAll plainEnvironment .initial beforeRead=some _ from rfl)
    (show serve plainEnvironment _ ⟨1,0,.get "Setup:/Network"⟩=some _ from rfl) ?_
    (show serveAll plainEnvironment _ [⟨2,0,.touch "Setup:/Network" "now"⟩]=some _ from rfl)
    (show receives _ ⟨1,0,.set "Setup:/Network" ⟨"mine",_⟩⟩=true from rfl) rfl
  intro m hm
  rw [mem_singleton.mp hm]
  trivial

end Stale

end Darwin.Configd
