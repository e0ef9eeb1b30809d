import Darwin.Configd.WatchRun

/-! Session keys. A key's owner is recorded in its entry and in the list of the owning session, and
the pairs removed under the lock say where the two differ until the lock is released. -/
open List Function Option
namespace Darwin.Configd

variable {Key Data : Type} [DecidableEq Key] (env : Environment Key Data)

lemma foldl_cleanup_sessionKeys (l : List (MachPort × Key))
    {sessionData : MachPort → SessionInfo Key} {p : MachPort}
    (h : (sessionData p).sessionKeys.Nodup) :
    ((l.foldl cleanupRemovedSessionKey sessionData) p).sessionKeys.Nodup ∧
      ∀ k,k∈((l.foldl cleanupRemovedSessionKey sessionData) p).sessionKeys ↔
        k∈(sessionData p).sessionKeys ∧ (p,k)∉l := by
  induction l generalizing sessionData with
  | nil => exact ⟨h,fun k => by simp⟩
  | cons removed l ih =>
    obtain ⟨owner,key⟩ := removed
    by_cases hp : p=owner
    · subst owner
      have hkeys : (cleanupRemovedSessionKey sessionData (p,key) p).sessionKeys =
          (sessionData p).sessionKeys.erase key := by simp [cleanupRemovedSessionKey]
      obtain ⟨hnodup,hmem⟩ := ih (by rw [hkeys]; exact h.erase key)
      refine ⟨hnodup,fun k => ?_⟩
      rw [foldl_cons,hmem k,hkeys,h.mem_erase_iff,mem_cons,Prod.mk.injEq]
      tauto
    · have hkeys : (cleanupRemovedSessionKey sessionData (owner,key) p).sessionKeys =
          (sessionData p).sessionKeys := by simp [cleanupRemovedSessionKey,hp]
      obtain ⟨hnodup,hmem⟩ := ih (by rw [hkeys]; exact h)
      refine ⟨hnodup,fun k => ?_⟩
      rw [foldl_cons,hmem k,hkeys,mem_cons,Prod.mk.injEq]
      tauto

lemma commit_sessionKeys {σ : Server Key Data} {p : MachPort}
    (h : (σ.sessionData p).sessionKeys.Nodup) : ((commit env σ).sessionData p).sessionKeys.Nodup ∧
      ∀ k,k∈((commit env σ).sessionData p).sessionKeys ↔
        k∈(σ.sessionData p).sessionKeys ∧ (p,k)∉σ.cache.removedSessionKeys := by
  have hsame := (foldl_notifyKey_info σ.cache.changedKeys {σ with saved := .empty} p).2
  have hremoved : (processDeferredRemovals env
      (notifyWatchers {σ with saved := .empty})).cache.removedSessionKeys =
        σ.cache.removedSessionKeys := by
    simp only [processDeferredRemovals]
    rw [(foldl_modify_lists _ _ _).2,notifyWatchers_cache]
  have hclean := foldl_cleanup_sessionKeys σ.cache.removedSessionKeys (p := p) (by rw [hsame]; exact h)
  rw [hsame] at hclean
  simp only [commit,cleanupRemovedSessionKeys,hremoved]
  exact hclean

lemma commit_session {σ : Server Key Data} (hc : CacheOk σ.cache) (k : Key) :
    ((commit env σ).cache.cacheData k).session=(σ.cache.cacheData k).session ∧
      ((commit env σ).cache.cacheData k).data=(σ.cache.cacheData k).data ∧
      ((commit env σ).cache.cacheData k).inst=(σ.cache.cacheData k).inst := by
  rw [commit_cacheData env σ hc.deferred]
  split <;> exact ⟨rfl,rfl,rfl⟩

section Owners
variable {α : Type}

/-- The entries and the lists agree on who owns which session key, up to the pairs still to be
removed from the lists. The sessions in `E` may list more than they own. -/
structure OwnersOk (σ : Server Key Data) (E : MachPort → Prop) : Prop where
  lists : ∀ p,(σ.sessionData p).sessionKeys.Nodup
  listed : ∀ p k,(σ.cache.cacheData k).session=some p →
    k∈(σ.sessionData p).sessionKeys ∧ (p,k)∉σ.cache.removedSessionKeys
  owned : ∀ p,¬E p → ∀ k,k∈(σ.sessionData p).sessionKeys →
    (p,k)∉σ.cache.removedSessionKeys → (σ.cache.cacheData k).session=some p

variable {E : MachPort → Prop} {σ : Server Key Data}

omit [DecidableEq Key] in
lemma OwnersOk.congr {σ σ' : Server Key Data} (h : OwnersOk σ E)
    (hentry : ∀ k,(σ'.cache.cacheData k).session=(σ.cache.cacheData k).session)
    (hremoved : σ'.cache.removedSessionKeys=σ.cache.removedSessionKeys)
    (hlists : ∀ p,(σ'.sessionData p).sessionKeys=(σ.sessionData p).sessionKeys) :
    OwnersOk σ' E := by
  refine ⟨fun p => hlists p▸h.lists p,fun p k hk => ?_,fun p hE k hk hr => ?_⟩
  · rw [hentry k] at hk
    rw [hlists,hremoved]
    exact h.listed p k hk
  · rw [hlists] at hk
    rw [hremoved] at hr
    rw [hentry k]
    exact h.owned p hE k hk hr

omit [DecidableEq Key] in
lemma OwnersOk.of_eq {σ σ' : Server Key Data} (h : OwnersOk σ E)
    (hcache : σ'.cache=σ.cache) (hdata : σ'.sessionData=σ.sessionData) : OwnersOk σ' E :=
  h.congr (fun k => by rw [hcache]) (by rw [hcache]) fun p => by rw [hdata]

lemma OwnersOk.disown (h : OwnersOk σ E) (key : Key)
    {c : Cache Key Data} (hother : ∀ k,k≠key → c.cacheData k=σ.cache.cacheData k)
    (hcase : ((c.cacheData key).session=(σ.cache.cacheData key).session ∧
        c.removedSessionKeys=σ.cache.removedSessionKeys) ∨
      ((c.cacheData key).session=none ∧ c.removedSessionKeys =
        match (σ.cache.cacheData key).session with
        | some owner => σ.cache.removedSessionKeys.insert (owner,key)
        | none => σ.cache.removedSessionKeys)) :
    OwnersOk {σ with cache := c} E := by
  have hremoved : ∀ p k,k≠key → ((p,k)∈c.removedSessionKeys ↔
      (p,k)∈σ.cache.removedSessionKeys) := by
    intro p k hk
    rcases hcase with ⟨-,hr⟩ | ⟨-,hr⟩
    · rw [hr]
    · rw [hr]
      split
      · rw [mem_insert_iff,Prod.mk.injEq]
        exact or_iff_right fun he => hk he.2
      · rfl
  refine ⟨h.lists,fun p k hk => ?_,fun p hE k hk hr => ?_⟩
  · by_cases hkey : k=key
    · subst k
      rcases hcase with ⟨hs,hr⟩ | ⟨hs,-⟩
      · simp only [hs] at hk
        simp only [hr]
        exact h.listed p key hk
      · simp only [hs] at hk
        cases hk
    · simp only [hother k hkey] at hk
      simp only [hremoved p k hkey]
      exact h.listed p k hk
  · by_cases hkey : k=key
    · subst k
      rcases hcase with ⟨hs,hr'⟩ | ⟨hs,hr'⟩
      · simp only [hr'] at hr
        exact hs.trans (h.owned p hE key hk hr)
      · simp only [hr'] at hr
        have hold : (p,key)∉σ.cache.removedSessionKeys := by
          cases ho : (σ.cache.cacheData key).session with
          | none => simpa [ho] using hr
          | some owner =>
            simp only [ho,mem_insert_iff,not_or] at hr
            exact hr.2
        have howner := h.owned p hE key hk hold
        simp [howner] at hr
    · simp only [hremoved p k hkey] at hr
      simp only [hother k hkey]
      exact h.owned p hE k hk hr

lemma OwnersOk.write (h : OwnersOk σ E)
    (p : MachPort) (key : Key) (data : Data) :
    OwnersOk {σ with cache := setCache env σ p key data} E := by
  obtain ⟨-,-,hremoved⟩ := setCache_lists env σ p key data
  have hentry := setCache_cacheData env σ p key data
  refine h.disown key (fun k hk => by rw [hentry,update_of_ne hk]) ?_
  have hself : ((setCache env σ p key data).cacheData key).session =
      if (otherSession p (σ.cache.cacheData key)).isSome then none
      else (σ.cache.cacheData key).session := by
    rw [hentry,update_self]
    split <;> rfl
  cases ho : otherSession p (σ.cache.cacheData key) with
  | none =>
    rw [ho] at hself hremoved
    exact .inl ⟨hself,hremoved⟩
  | some owner =>
    rw [ho] at hself hremoved
    refine .inr ⟨hself,?_⟩
    unfold otherSession at ho
    cases hs : (σ.cache.cacheData key).session with
    | none => simp [hs] at ho
    | some q =>
      have hq : q=owner := by
        simp only [hs] at ho
        split at ho
        · cases ho
        · exact some.inj ho
      rw [hremoved,hq]

lemma OwnersOk.removal (h : OwnersOk σ E)
    (key : Key) : OwnersOk {σ with cache := removeCache σ.cache key} E :=
  h.disown key (fun k hk => by simp [removeCache,hk])
    (.inr ⟨by simp [removeCache],by
      cases ho : (σ.cache.cacheData key).session <;> simp [removeCache,ho]⟩)

lemma OwnersOk.commit (h : OwnersOk σ E)
    (hc : CacheOk σ.cache) : OwnersOk (commit env σ) E := by
  obtain ⟨-,-,hremoved⟩ := commit_lists env σ
  refine ⟨fun p => (commit_sessionKeys env (h.lists p)).1,fun p k hk => ?_,
    fun p hE k hk _ => ?_⟩
  · rw [(commit_session env hc k).1] at hk
    rw [(commit_sessionKeys env (h.lists p)).2 k,hremoved]
    exact ⟨h.listed p k hk,not_mem_nil⟩
  · rw [(commit_sessionKeys env (h.lists p)).2 k] at hk
    rw [(commit_session env hc k).1]
    exact h.owned p hE k hk.1 hk.2

lemma recordSessionKey_lists (σ : Server Key Data) (p : MachPort) (key : Key) {q : MachPort}
    (h : (σ.sessionData q).sessionKeys.Nodup) :
    ((recordSessionKey σ p key).sessionData q).sessionKeys.Nodup ∧
      ∀ k,k∈((recordSessionKey σ p key).sessionData q).sessionKeys ↔
        k∈(σ.sessionData q).sessionKeys ∨ (q=p ∧ k=key) := by
  by_cases hin : key∈(σ.sessionData p).sessionKeys
  · have hsame : (recordSessionKey σ p key).sessionData=σ.sessionData := by
      simp [recordSessionKey,hin]
    rw [hsame]
    refine ⟨h,fun k => ⟨.inl,?_⟩⟩
    rintro (hk | ⟨rfl,rfl⟩)
    · exact hk
    · exact hin
  · by_cases hq : q=p
    · subst q
      have hkeys : ((recordSessionKey σ p key).sessionData p).sessionKeys =
          (σ.sessionData p).sessionKeys++[key] := by simp [recordSessionKey,hin]
      rw [hkeys]
      refine ⟨concat_eq_append▸h.concat hin,fun k => ?_⟩
      rw [mem_append,mem_singleton,and_iff_right rfl]
    · have hkeys : ((recordSessionKey σ p key).sessionData q).sessionKeys =
          (σ.sessionData q).sessionKeys := by simp [recordSessionKey,hin,hq]
      rw [hkeys]
      exact ⟨h,fun k => (or_iff_left fun he => hq he.1).symm⟩

lemma OwnersOk.record (h : OwnersOk σ E)
    {p : MachPort} {key : Key} (hnone : (σ.cache.cacheData key).session=none)
    (hremoved : (p,key)∉σ.cache.removedSessionKeys) : OwnersOk (recordSessionKey σ p key) E := by
  have hself : ((recordSessionKey σ p key).cache.cacheData key).session=some p := by
    simp [recordSessionKey,Cache.modify]
  have hother : ∀ k,k≠key → (recordSessionKey σ p key).cache.cacheData k =
      σ.cache.cacheData k := fun k hk =>
    modify_other σ.cache (fun dict => {dict with session := some p}) hk
  refine ⟨fun q => (recordSessionKey_lists σ p key (h.lists q)).1,fun q k hk => ?_,
    fun q hE k hk hr => ?_⟩
  · rw [(recordSessionKey_lists σ p key (h.lists q)).2]
    by_cases hkey : k=key
    · subst k
      rw [hself,some.injEq] at hk
      subst q
      exact ⟨.inr ⟨rfl,rfl⟩,hremoved⟩
    · rw [hother k hkey] at hk
      exact ⟨.inl (h.listed q k hk).1,(h.listed q k hk).2⟩
  · rw [(recordSessionKey_lists σ p key (h.lists q)).2] at hk
    by_cases hkey : k=key
    · subst k
      rcases hk with hk | ⟨rfl,-⟩
      · have howner := h.owned q hE key hk hr
        rw [hnone] at howner
        cases howner
      · exact hself
    · rw [hother k hkey]
      exact h.owned q hE k (hk.resolve_right fun he => hkey he.2) hr

end Owners

section Requests
variable {α : Type}

/-- The saved cache, which takes over when the holder of the lock dies: nothing is pending in it,
and its owners agree with the lists, in which the holder may have recorded more keys since. -/
def SavedOk (σ : Server Key Data) : Prop :=
  σ.isLocked=true → σ.saved.changedKeys=[] ∧ σ.saved.deferredRemovals=[] ∧
    σ.saved.removedSessionKeys=[] ∧
    OwnersOk {σ with cache := σ.saved} fun p => holdsLock σ p=true

structure KeysInv (σ : Server Key Data) : Prop where
  owners : OwnersOk σ fun _ => False
  saved : SavedOk σ

omit [DecidableEq Key] in
lemma SavedOk.congr {σ σ' : Server Key Data} (h : SavedOk σ)
    (hl : σ'.isLocked=true → σ.isLocked=true) (hsaved : σ'.saved=σ.saved)
    (hlists : ∀ p,(σ'.sessionData p).sessionKeys=(σ.sessionData p).sessionKeys)
    (hholds : ∀ p,holdsLock σ p=true → holdsLock σ' p=true) : SavedOk σ' := by
  intro hlocked
  obtain ⟨hchanged,hdeferred,hremoved,howners⟩ := h (hl hlocked)
  rw [hsaved]
  refine ⟨hchanged,hdeferred,hremoved,?_⟩
  have hcongr : OwnersOk {σ' with cache := σ.saved} fun p => holdsLock σ p=true :=
    howners.congr (fun _ => rfl) rfl hlists
  exact ⟨hcongr.lists,hcongr.listed,fun p hp => hcongr.owned p fun hold => hp (hholds p hold)⟩

omit [DecidableEq Key] in
lemma KeysInv.congr {σ σ' : Server Key Data} (h : KeysInv σ)
    (hentry : ∀ k,(σ'.cache.cacheData k).session=(σ.cache.cacheData k).session)
    (hremoved : σ'.cache.removedSessionKeys=σ.cache.removedSessionKeys)
    (hlists : ∀ p,(σ'.sessionData p).sessionKeys=(σ.sessionData p).sessionKeys)
    (hl : σ'.isLocked=true → σ.isLocked=true) (hsaved : σ'.saved=σ.saved)
    (hholds : ∀ p,holdsLock σ p=true → holdsLock σ' p=true) : KeysInv σ' :=
  ⟨h.owners.congr hentry hremoved hlists,h.saved.congr hl hsaved hlists hholds⟩

variable {σ : Server Key Data} {body : Server Key Data → α × Server Key Data} {E : MachPort → Prop}

omit [DecidableEq Key] in
lemma KeysInv.held (h : KeysInv σ) (hok : ServerOk σ)
    (hl : σ.isLocked=false) (p : MachPort) (s : SCDSession Key) : KeysInv (σ.held p s) := by
  obtain ⟨hchanged,hdeferred,hremoved⟩ := hok.idle hl
  refine ⟨h.owners.of_eq rfl rfl,fun _ => ⟨hchanged,hdeferred,hremoved,?_⟩⟩
  exact ⟨h.owners.lists,h.owners.listed,fun q _ => h.owners.owned q id⟩

lemma withLock_keysInv (h : KeysInv σ) (hok : ServerOk σ) (p : MachPort)
    (fail : SCDStatus → α) (hb : CacheOnly body)
    (hc : ∀ τ,CacheOk τ.cache → CacheOk (body τ).2.cache)
    (howners : ∀ τ E,OwnersOk τ E → OwnersOk (body τ).2 E) :
    KeysInv (withLock env σ p fail body).2 := by
  rcases withLock_cases env σ p fail hb with ⟨-,_,-,-,heq⟩ | ⟨-,-,heq⟩ | ⟨hl,-,s,-,heq⟩
  · rw [heq]
    exact h
  · rw [heq]
    refine ⟨howners σ _ h.owners,h.saved.congr ?_ ?_ ?_ ?_⟩
    · rw [hb]
      exact id
    · rw [hb]
    · rw [hb]
      exact fun _ => rfl
    · rw [hb]
      exact fun _ => id
  · rw [heq]
    have hbody := howners (σ.held p s) _ (h.owners.of_eq rfl rfl)
    have hcommit := hbody.commit env (hc (σ.held p s) hok.cache)
    exact ⟨hcommit.of_eq rfl rfl,fun hlocked => Bool.noConfusion hlocked⟩

lemma OwnersOk.scdSetEntry (h : OwnersOk σ E)
    (p : MachPort) (key : Key) (handle : SCDHandle Data) :
    OwnersOk (scdSetEntry env σ p key handle).2 E := by
  by_cases ha : Accepts (σ.cache.cacheData key) handle
  · rw [scdSetEntry_ok env ha]
    exact h.write env p key handle.data
  · rw [scdSetEntry_stale env ha]
    exact h

lemma OwnersOk.scdAddEntry (h : OwnersOk σ E)
    (p : MachPort) (key : Key) (handle : SCDHandle Data) :
    OwnersOk (scdAddEntry env σ p key handle).2 E := by
  unfold Configd.scdAddEntry
  split
  · exact h.scdSetEntry env p key handle
  · exact h

lemma OwnersOk.scdRemoveEntry (h : OwnersOk σ E)
    (key : Key) : OwnersOk (scdRemoveEntry σ key).2 E := by
  rw [scdRemoveEntry_eq]
  split
  · exact h
  · exact h.removal key

lemma KeysInv.scdAdd (h : KeysInv σ) (hok : ServerOk σ) (p : MachPort)
    (key : Key) (handle : SCDHandle Data) : KeysInv (scdAdd env σ p key handle).2 := by
  rw [scdAdd_eq]
  exact withLock_keysInv env h hok p _ (scdAddEntry_cacheOnly env p key handle)
    (fun _ hc => cacheOk_scdAddEntry env hc p key handle)
    fun τ E hE => hE.scdAddEntry env p key handle

lemma scdAdd_added (hok : ServerOk σ) (p : MachPort)
    (key : Key) (handle : SCDHandle Data) (hst : (scdAdd env σ p key handle).1.1=.ok) :
    (σ.cache.cacheData key).data=none ∧
      ((scdAdd env σ p key handle).2.cache.cacheData key).session=none ∧
      ((scdAdd env σ p key handle).2.cache.removedSessionKeys=[] ∨
        (scdAdd env σ p key handle).2.cache.removedSessionKeys =
          σ.cache.removedSessionKeys) := by
  have hentry : ∀ τ : Server Key Data,τ.cache=σ.cache →
      (Configd.scdAddEntry env τ p key handle).1.1=.ok → (σ.cache.cacheData key).data=none ∧
        ((Configd.scdAddEntry env τ p key handle).2.cache.cacheData key).session=none ∧
        (Configd.scdAddEntry env τ p key handle).2.cache.removedSessionKeys =
          σ.cache.removedSessionKeys := by
    intro τ hτ hok'
    unfold Configd.scdAddEntry at hok' ⊢
    by_cases hd : (τ.cache.cacheData key).data.isNone=true
    · rw [if_pos hd] at hok' ⊢
      by_cases ha : Accepts (τ.cache.cacheData key) handle
      · have hdata : (σ.cache.cacheData key).data=none := by
          rw [←hτ]
          exact isNone_iff_eq_none.mp hd
        have hsession : (σ.cache.cacheData key).session=none := by
          cases hs : (σ.cache.cacheData key).session with
          | none => rfl
          | some q =>
            have hsome := hok.cache.marked key q hs
            rw [hdata] at hsome
            cases hsome
        have hother : otherSession p (σ.cache.cacheData key)=none := by simp [otherSession,hsession]
        obtain ⟨-,-,hremoved⟩ := setCache_lists env τ p key handle.data
        rw [hτ,hother] at hremoved
        rw [scdSetEntry_ok env ha]
        refine ⟨hdata,?_,hremoved⟩
        rw [setCache_cacheData,update_self]
        split <;> simp [CacheEntry.written,grantRegexes,hτ,hother,hsession]
      · rw [scdSetEntry_stale env ha] at hok'
        cases hok'
    · rw [if_neg hd] at hok'
      cases hok'
  rw [scdAdd_eq] at hst ⊢
  rcases withLock_cases env σ p (fun status => (status,handle))
    (scdAddEntry_cacheOnly env p key handle) with ⟨-,st,hne,-,heq⟩ | ⟨-,-,heq⟩ | ⟨-,-,s,-,heq⟩
  · rw [heq] at hst
    exact absurd hst hne
  · rw [heq] at hst ⊢
    obtain ⟨hdata,hsession,hremoved⟩ := hentry σ rfl hst
    exact ⟨hdata,hsession,.inr hremoved⟩
  · rw [heq] at hst ⊢
    obtain ⟨hdata,hsession,-⟩ := hentry (σ.held p s) rfl hst
    have hc := cacheOk_scdAddEntry env (σ := σ.held p s) hok.cache p key handle
    exact ⟨hdata,(commit_session env hc key).1.trans hsession,.inl (commit_lists env _).2.2⟩

lemma withLock_sessions (p : MachPort) (fail : SCDStatus → α)
    (hb : CacheOnly body)
    (hl : (withLock env σ p fail body).2.isLocked=true) :
    (withLock env σ p fail body).2.sessions=σ.sessions := by
  rcases withLock_cases env σ p fail hb with ⟨-,_,-,-,heq⟩ | ⟨-,-,heq⟩ | ⟨-,-,_,-,heq⟩
  · rw [heq]
  · rw [heq,hb]
  · rw [heq] at hl
    cases hl

lemma SavedOk.record (h : SavedOk σ) {p : MachPort} (key : Key)
    (hp : σ.isLocked=true → holdsLock σ p=true) : SavedOk (recordSessionKey σ p key) := by
  intro hl
  obtain ⟨hchanged,hdeferred,hremoved,howners⟩ := h hl
  refine ⟨hchanged,hdeferred,hremoved,?_⟩
  have hlists := fun q => recordSessionKey_lists σ p key (q := q) (howners.lists q)
  refine ⟨fun q => (hlists q).1,fun q k hk => ?_,fun q hq k hk hr => ?_⟩
  · have hold := howners.listed q k hk
    exact ⟨((hlists q).2 k).mpr (.inl hold.1),hold.2⟩
  · have hne : q≠p := fun he => hq (he▸hp hl)
    exact howners.owned q hq k ((((hlists q).2 k).mp hk).resolve_right fun he => hne he.1) hr

lemma KeysInv.scdAddSession (h : KeysInv σ) (hok : ServerOk σ)
    (p : MachPort) (key : Key) (handle : SCDHandle Data)
    (hp : σ.isLocked=true → holdsLock σ p=true)
    (hsafe : (σ.cache.cacheData key).data≠none ∨ (p,key)∉σ.cache.removedSessionKeys) :
    KeysInv (scdAddSession env σ p key handle).2 := by
  have hadd := h.scdAdd env hok p key handle
  rw [scdAddSession_eq]
  split
  · rename_i hst
    obtain ⟨hdata,hsession,hremoved⟩ := scdAdd_added env hok p key handle hst
    refine ⟨hadd.owners.record hsession ?_,hadd.saved.record key fun hl => ?_⟩
    · rcases hremoved with hr | hr
      · rw [hr]
        exact not_mem_nil
      · rw [hr]
        exact hsafe.resolve_left (not_not.mpr hdata)
    · have hold := scdAdd_isLocked env hl
      rw [scdAdd_eq] at hl ⊢
      rw [holdsLock,withLock_sessions env p _ (scdAddEntry_cacheOnly env p key handle) hl]
      exact hp hold
  · exact hadd

omit [DecidableEq Key] in
lemma holdsLock_saveCaller (σ : Server Key Data) (m : Message Key Data) (p : MachPort) :
    holdsLock (saveCaller σ m) p=holdsLock σ p := by
  unfold saveCaller
  split
  · rfl
  · rfl
  · rename_i s hs _
    by_cases hp : p=m.server
    · subst p
      simp [holdsLock,Server.setSession,hs]
    · simp [holdsLock,Server.setSession,hp]

omit [DecidableEq Key] in
lemma saveCaller_saved (σ : Server Key Data) (m : Message Key Data) :
    (saveCaller σ m).saved=σ.saved := by
  unfold saveCaller
  split <;> rfl

omit [DecidableEq Key] in
lemma KeysInv.saveCaller (h : KeysInv σ) (m : Message Key Data) : KeysInv (saveCaller σ m) := by
  obtain ⟨hdata,hl⟩ := saveCaller_sessionData σ m
  refine h.congr (fun k => by rw [saveCaller_cache]) (by rw [saveCaller_cache])
    (fun p => by rw [hdata]) (fun h => hl▸h) (saveCaller_saved σ m) fun p hp => ?_
  rw [holdsLock_saveCaller]
  exact hp

omit [DecidableEq Key] in
lemma KeysInv.scdLock (h : KeysInv σ) (hok : ServerOk σ) (p : MachPort) :
    KeysInv (scdLock σ p).2 := by
  cases hs : σ.sessions p with
  | none => simpa [Configd.scdLock,hs] using h
  | some s =>
    cases hl : σ.isLocked with
    | true => simpa [Configd.scdLock,hs,hl] using h
    | false =>
      by_cases hu : s.callerEUID=0
      · rw [scdLock_taken hs hl hu]
        exact h.held hok hl p s
      · rw [scdLock_denied hs hl hu]
        exact h

lemma KeysInv.scdUnlock (h : KeysInv σ) (hok : ServerOk σ) (p : MachPort) :
    KeysInv (scdUnlock env σ p).2 := by
  cases hs : σ.sessions p with
  | none => simpa [Configd.scdUnlock,hs] using h
  | some s =>
    by_cases hl : σ.isLocked=true ∧ s.isLocked=true
    · rw [scdUnlock_held env hs hl.1 hl.2]
      exact ⟨(h.owners.commit env hok.cache).of_eq rfl rfl,fun hlocked => Bool.noConfusion hlocked⟩
    · have hfree : σ.isLocked=false ∨ s.isLocked=false := by
        rwa [not_and_or,Bool.not_eq_true,Bool.not_eq_true] at hl
      rw [scdUnlock_free env hs hfree]
      exact h

end Requests

section Frame

/-- A step that changes nothing but the watches of session `p`. -/
structure OnlyWatches (p : MachPort) (σ σ' : Server Key Data) : Prop where
  entries : ∀ k,(σ'.cache.cacheData k).session=(σ.cache.cacheData k).session ∧
    (σ'.cache.cacheData k).data=(σ.cache.cacheData k).data ∧
    (σ'.cache.cacheData k).inst=(σ.cache.cacheData k).inst
  watchers : ∀ k q,q≠p → (σ'.cache.cacheData k).watchers q=(σ.cache.cacheData k).watchers q
  lists : σ'.cache.changedKeys=σ.cache.changedKeys ∧
    σ'.cache.deferredRemovals=σ.cache.deferredRemovals ∧
    σ'.cache.removedSessionKeys=σ.cache.removedSessionKeys
  saved : σ'.saved=σ.saved
  isLocked : σ'.isLocked=σ.isLocked
  info : ∀ q,(σ'.sessionData q).sessionKeys=(σ.sessionData q).sessionKeys ∧
    (σ'.sessionData q).changedKeys=(σ.sessionData q).changedKeys ∧
    (q≠p → (σ'.sessionData q).regexKeys=(σ.sessionData q).regexKeys)
  others : ∀ q,q≠p → σ'.sessions q=σ.sessions q
  lock : (σ'.sessions p).map (fun s => (s.isLocked,s.callerEUID)) =
    (σ.sessions p).map fun s => (s.isLocked,s.callerEUID)
  needs : ∀ q,q≠p → σ'.needsNotification q=σ.needsNotification q

omit [DecidableEq Key] in
lemma OnlyWatches.refl (p : MachPort) (σ : Server Key Data) : OnlyWatches p σ σ :=
  ⟨fun _ => ⟨rfl,rfl,rfl⟩,fun _ _ _ => rfl,⟨rfl,rfl,rfl⟩,rfl,rfl,fun _ => ⟨rfl,rfl,fun _ => rfl⟩,
    fun _ _ => rfl,rfl,fun _ _ => rfl⟩

variable {p : MachPort} {σ σ' : Server Key Data}

omit [DecidableEq Key] in
lemma OnlyWatches.trans {σ τ υ : Server Key Data} (h : OnlyWatches p σ τ)
    (g : OnlyWatches p τ υ) : OnlyWatches p σ υ where
  entries := fun k => ⟨(g.entries k).1.trans (h.entries k).1,
    (g.entries k).2.1.trans (h.entries k).2.1,(g.entries k).2.2.trans (h.entries k).2.2⟩
  watchers := fun k q hq => (g.watchers k q hq).trans (h.watchers k q hq)
  lists := ⟨g.lists.1.trans h.lists.1,g.lists.2.1.trans h.lists.2.1,g.lists.2.2.trans h.lists.2.2⟩
  saved := g.saved.trans h.saved
  isLocked := g.isLocked.trans h.isLocked
  info := fun q => ⟨(g.info q).1.trans (h.info q).1,(g.info q).2.1.trans (h.info q).2.1,
    fun hq => ((g.info q).2.2 hq).trans ((h.info q).2.2 hq)⟩
  others := fun q hq => (g.others q hq).trans (h.others q hq)
  lock := g.lock.trans h.lock
  needs := fun q hq => (g.needs q hq).trans (h.needs q hq)

omit [DecidableEq Key] in
lemma onlyWatches_rewatch (σ : Server Key Data) {s : SCDSession Key}
    (hs : σ.sessions p=some s) (s' : SCDSession Key) (hl : s'.isLocked=s.isLocked)
    (hu : s'.callerEUID=s.callerEUID) {f : Key → CacheEntry Data → CacheEntry Data}
    (hf : ∀ k e,(f k e).data=e.data ∧ (f k e).inst=e.inst ∧ (f k e).session=e.session)
    (hother : ∀ q k e,q≠p → (f k e).watchers q=e.watchers q) (info : SessionInfo Key)
    (hkeys : info.sessionKeys=(σ.sessionData p).sessionKeys)
    (hchanges : info.changedKeys=(σ.sessionData p).changedKeys) :
    OnlyWatches p σ (((σ.setSession p (some s')).applyCache f).setInfo p info) where
  entries := fun k => ⟨(hf k _).2.2,(hf k _).1,(hf k _).2.1⟩
  watchers := fun k q hq => hother q k _ hq
  lists := ⟨rfl,rfl,rfl⟩
  saved := rfl
  isLocked := rfl
  info := fun q => by
    by_cases hq : q=p
    · subst q
      simp [Server.setInfo,hkeys,hchanges]
    · simp [Server.setInfo,Server.applyCache,Server.setSession,hq]
  others := fun q hq => by simp [Server.setInfo,Server.applyCache,Server.setSession,hq]
  lock := by simp [Server.setInfo,Server.applyCache,Server.setSession,hs,hl,hu]
  needs := fun _ _ => rfl

lemma scdNotifierAdd_onlyWatches (σ : Server Key Data) (p : MachPort) (key : Key)
    (regex : Bool) : OnlyWatches p σ (scdNotifierAdd env σ p key regex).2 := by
  have hadds := scdNotifierAdd_adds env σ p key regex
  generalize scdNotifierAdd env σ p key regex=r at hadds ⊢
  cases hadds with
  | refused => exact .refl p σ
  | notCompiled s hs =>
    have h := onlyWatches_rewatch σ hs {s with reKeys := s.reKeys++[key]} rfl rfl
      (f := fun _ e => e) (fun _ _ => ⟨rfl,rfl,rfl⟩) (fun _ _ _ _ => rfl)
      (σ.sessionData p) rfl rfl
    simpa only [Server.setInfo,Server.applyCache,Server.setSession,update_eq_self] using h
  | pattern s hs =>
    refine onlyWatches_rewatch σ hs {s with reKeys := s.reKeys++[key]} rfl rfl
      (fun k e => ?_) (fun q k e hq => ?_) (addPattern (σ.sessionData p) key) ?_ ?_
    · exact addRegexWatcherByKey_content env p key k e
    · rw [addRegexWatcherByKey_watchers,if_neg (fun h => hq h.1),Nat.add_zero]
    · unfold addPattern
      split <;> rfl
    · unfold addPattern
      split <;> rfl
  | plain s hs =>
    rw [watchKey,modify_eq_applyCache]
    refine onlyWatches_rewatch σ hs {s with keys := s.keys++[key]} rfl rfl
      (fun k e => ?_) (fun q k e hq => ?_) (σ.sessionData p) rfl rfl
    · split <;> exact ⟨rfl,rfl,rfl⟩
    · split
      · simp [CacheEntry.addWatcher,hq]
      · rfl

lemma scdNotifierRemove_onlyWatches {σ : Server Key Data} {key : Key}
    {regex : Bool} {r : SCDStatus × Server Key Data}
    (hr : scdNotifierRemove env σ p key regex=some r) : OnlyWatches p σ r.2 := by
  cases scdNotifierRemove_removes env hr with
  | refused => exact .refl p σ
  | pattern s hs =>
    refine onlyWatches_rewatch σ hs {s with reKeys := s.reKeys.erase key} rfl rfl
      (fun k e => ?_) (fun q k e hq => ?_)
      {σ.sessionData p with regexKeys := (σ.sessionData p).regexKeys.erase key} rfl rfl
    · exact removeRegexWatcherByKey_content env p key k e
    · rw [removeRegexWatcherByKey_watchers,if_neg (fun h => hq h.1),Nat.sub_zero]
  | plain s hs =>
    rw [unwatchKey,modify_eq_applyCache]
    refine onlyWatches_rewatch σ hs {s with keys := s.keys.erase key} rfl rfl
      (fun k e => ?_) (fun q k e hq => ?_) (σ.sessionData p) rfl rfl
    · split <;> exact ⟨rfl,rfl,rfl⟩
    · split
      · simp [CacheEntry.removeWatcher,hq]
      · rfl

lemma removeNotifications_onlyWatches {regex : Bool}
    {keys : List Key} (hr : removeNotifications env p regex σ keys=some σ') :
    OnlyWatches p σ σ' := by
  induction keys generalizing σ with
  | nil =>
    cases hr
    exact .refl p _
  | cons key keys ih =>
    simp only [removeNotifications,foldlM_cons,bind_eq_bind,
      Option.bind_eq_some_iff,map_eq_some_iff] at hr
    obtain ⟨_,⟨r,hone,rfl⟩,hrest⟩ := hr
    exact (scdNotifierRemove_onlyWatches env hone).trans (ih hrest)

omit [DecidableEq Key] in
lemma holdsLock_eq (σ : Server Key Data) (p : MachPort) :
    holdsLock σ p=((σ.sessions p).map SCDSession.isLocked).getD false := by
  cases hs : σ.sessions p with
  | none => simp [holdsLock,hs]
  | some s => simp [holdsLock,hs]

omit [DecidableEq Key] in
lemma OnlyWatches.holdsLock (h : OnlyWatches p σ σ')
    (q : MachPort) : Configd.holdsLock σ' q=Configd.holdsLock σ q := by
  by_cases hq : q=p
  · subst q
    have hlock := congrArg (Option.map Prod.fst) h.lock
    rw [Option.map_map,Option.map_map] at hlock
    rw [holdsLock_eq,holdsLock_eq]
    exact congrArg (getD · false) hlock
  · rw [Configd.holdsLock,Configd.holdsLock,h.others q hq]

omit [DecidableEq Key] in
lemma KeysInv.onlyWatches (h : KeysInv σ)
    (hw : OnlyWatches p σ σ') : KeysInv σ' :=
  h.congr (fun k => (hw.entries k).1) hw.lists.2.2
    (fun q => (hw.info q).1) (fun hl => hw.isLocked▸hl) hw.saved
    fun q hq => (hw.holdsLock q).trans hq

end Frame

end Darwin.Configd
