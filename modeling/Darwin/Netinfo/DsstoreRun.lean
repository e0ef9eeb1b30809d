import Darwin.Netinfo.DsstoreSlots

/-! Saving records, closing a store and opening it again. -/
open List
namespace Darwin.Netinfo.Files
open Lib

variable {D : Type} {x y z : Session D} {pending : UInt32} {dsid : ℕ}

def withPlaceholder (z : Session D) (dsid : ℕ) : Session D :=
  {z with s := {z.s with index := z.s.index.put dsid ⟨4294967295,none⟩}}

def Same (dsid : ℕ) (z x : Session D) : Prop :=
  x=z ∨ x=withPlaceholder z dsid ∧ z.s.index.get dsid=none

lemma Same.markDirty (h : Same dsid z x) : Same dsid z.markDirty x.markDirty := by
  rcases h with rfl | ⟨rfl,hnone⟩
  · exact .inl rfl
  · refine .inr ⟨?_,?_⟩
    · cases hdirty : z.s.dirty <;>
        simp [Session.markDirty,Session.write,withPlaceholder,hdirty]
    · rw [(markDirty_frame z).2.2.2.1]
      exact hnone

lemma Same.write (h : Same dsid z x) (f : Disk D → Disk D) : Same dsid (z.write f) (x.write f) := by
  rcases h with rfl | ⟨rfl,hnone⟩
  · exact .inl rfl
  · exact .inr ⟨rfl,hnone⟩

lemma dsstoreRemove_placeholder (hnone : z.s.index.get dsid=none) :
    dsstoreRemove (withPlaceholder z dsid) dsid=(z,.ok) := by
  have hget : (withPlaceholder z dsid).s.index.get dsid=some ⟨4294967295,none⟩ :=
    (SortedMap.get_put _ _ _ _).trans (if_pos rfl)
  have herase : (z.s.index.put dsid ⟨4294967295,none⟩).erase dsid=z.s.index := by
    have hentries : ((z.s.index.put dsid ⟨4294967295,none⟩).erase dsid).entries =
        z.s.index.entries := by
      refine (SortedMap.filter_putEntry (p := fun k => k≠dsid) (fun h => h rfl)
        z.s.index.entries).trans (filter_eq_self.mpr fun e he => decide_eq_true ?_)
      rintro rfl
      rw [SortedMap.get_eq_some_iff.mpr he] at hnone
      cases hnone
    cases hs : z.s.index with
    | mk entries sorted =>
      rw [hs] at hentries
      exact (SortedMap.mk.injEq (κ := ℕ) _ _ _ _).mpr hentries
  rw [dsstoreRemove,hget]
  dsimp only [withPlaceholder]
  rw [herase]

lemma Same.removed (h : Same dsid z x) (hz : Working pending z) :
    (dsstoreRemove x dsid).2=.ok ∧ Removed dsid pending z (dsstoreRemove x dsid).1 := by
  rcases h with rfl | ⟨rfl,hnone⟩
  · exact remove_spec hz dsid
  · rw [dsstoreRemove_placeholder hnone]
    exact ⟨rfl,hz,hnone,fun _ h => h,rfl,rfl,id,fun hd => ⟨hd,rfl,rfl⟩⟩

def counted (x : Session D) (r : Dsrecord D) : Session D :=
  { x with s := { x.s with
    max_vers := x.s.max_vers+1
    nichecksum := x.s.nichecksum+weight r.dsid r.serial}}

lemma prepare_spec (x : Session D) (r : Dsrecord D) (serial : UInt32) :
    Same (prepare x r serial).2.dsid (counted x (prepare x r serial).2)
        (prepare x r serial).1 ∧ (prepare x r serial).2.vers=x.s.max_vers+1 := by
  rw [prepare]
  split_ifs
  · exact ⟨.inr ⟨rfl,SortedMap.get_fresh x.s.index⟩,rfl⟩
  · exact ⟨.inl rfl,rfl⟩

lemma lt_succ_of_le {v max : UInt32} (hv : v ≤ max) (hmax : max.toNat+1<2^32) : v < max+1 := by
  have hle := UInt32.le_iff_toNat_le.mp hv
  rw [UInt32.lt_iff_toNat_lt,UInt32.toNat_add]
  have hone : (1 : UInt32).toNat=1 := rfl
  rw [hone,Nat.mod_eq_of_lt hmax]
  omega

lemma Working.counted (h : Working 0 x) (hmax : x.s.max_vers.toNat+1<2^32) (r : Dsrecord D) :
    Working (weight r.dsid r.serial) (counted x r) := by
  refine ⟨h.agree,?_,h.sound,fun w hw => ?_,h.index,h.history⟩
  · have hsum := h.sum
    rw [UInt32.add_zero] at hsum
    rw [Files.counted]
    dsimp only
    rw [hsum]
  · exact UInt32.le_of_lt (lt_succ_of_le (h.vers_le w hw) hmax)

section Save

variable {quantized : Dsrecord D → ℕ} {r : Dsrecord D}

lemma storeSaveData_spec (h : Working (weight r.dsid r.serial) y)
    (habsent : y.s.index.get r.dsid=none)
    (hlt : ∀ w∈located y.disk.store,w.2.2.vers<r.vers) (hmax : y.s.max_vers=r.vers) :
    Working 0 (storeSaveData quantized y r) ∧ (storeSaveData quantized y r).s.dirty=true ∧
      (storeSaveData quantized y r).disk.create=y.disk.create ∧
      (storeSaveData quantized y r).disk.delete=y.disk.delete := by
  obtain ⟨hstore,hcreate,hdelete,hindex,hmaxd⟩ := markDirty_frame y
  have hd := h.markDirty
  have hp := located_fill y.disk.store (quantized r) r
  have hsound : Sound (y.disk.store.put (quantized r)
      (fill (slots y.disk.store (quantized r)) r)) :=
    h.sound.cons hp (h.agree.absent habsent) fun w hw => UInt32.ne_of_lt (hlt w hw)
  refine ⟨⟨?_,?_,?_,?_,hd.index,fun d hmem => ?_⟩,markDirty_dirty y,hcreate,hdelete⟩
  · simp only [storeSaveData,Session.write,hstore,hindex]
    exact h.agree.put habsent hp
  · have hsum := hd.sum
    have hpart := checksum_perm hp
    rw [hstore] at hsum
    simp only [storeSaveData,Session.write,hstore]
    rw [hsum,hpart,UInt32.add_zero]
  · simp only [storeSaveData,Session.write,hstore]
    exact hsound
  · simp only [storeSaveData,Session.write,hstore,hmaxd,hmax]
    intro w hw
    rcases mem_cons.mp (hp.subset hw) with rfl | hw
    · exact UInt32.le_refl _
    · exact UInt32.le_of_lt (hlt w hw)
  · simp only [storeSaveData,Session.write] at hmem
    rcases mem_append.mp hmem with hmem | hmem
    · exact hd.history d hmem
    · rw [mem_singleton.mp hmem]
      refine recoverable_of_index ?_ hd.index
      dsimp only
      rw [hstore]
      exact hsound

lemma Ok.working {d : Disk D} {s : Dsstore} (h : Ok d s) : Working 0 ⟨d,s,[]⟩ :=
  ⟨h.agree,by rw [UInt32.add_zero]; exact h.sum,h.sound,h.vers_le,h.index,
    fun _ hd => absurd hd not_mem_nil⟩

lemma Working.ok (h : Working 0 x) (hcreate : x.disk.create=none)
    (hdelete : x.disk.delete=none)
    (hclean : x.s.dirty=false → x.disk.clean=some (some x.s.nichecksum)) : Ok x.disk x.s := by
  have hsum := h.sum
  rw [UInt32.add_zero] at hsum
  exact ⟨h.agree,hsum,h.sound,h.vers_le,hcreate,hdelete,h.index,hclean⟩

/-- What an operation on an open store has to leave: an open store, and files after each step from
which it can be read again. -/
def Done (x : Session D) : Prop := Ok x.disk x.s ∧ ∀ d∈x.history,Recoverable d

lemma Working.done (h : Working 0 x) (hcreate : x.disk.create=none)
    (hdelete : x.disk.delete=none) (hdirty : x.s.dirty=true) : Done x := by
  refine ⟨h.ok hcreate hdelete fun hclean => ?_,h.history⟩
  rw [hdirty] at hclean
  cases hclean

lemma Removed.save (hremoved : Removed r.dsid (weight r.dsid r.serial) z y)
    (quantized : Dsrecord D → ℕ)
    (hlt : ∀ w∈located z.disk.store,w.2.2.vers<r.vers) (hmax : z.s.max_vers=r.vers) :
    Working 0 (storeSaveData quantized y r) ∧ (storeSaveData quantized y r).s.dirty=true ∧
      (storeSaveData quantized y r).disk.create=z.disk.create ∧
      (z.disk.delete=none → (storeSaveData quantized y r).disk.delete=none) := by
  obtain ⟨hworking,hdirty,hcreate,hdelete⟩ := storeSaveData_spec hremoved.working
    hremoved.absent (fun w hw => hlt w (hremoved.subset w hw)) (hremoved.max_vers.trans hmax)
  exact ⟨hworking,hdirty,hcreate.trans hremoved.create,
    fun hnone => hdelete.trans (hremoved.delete hnone)⟩

lemma save_done {d : Disk D} {s : Dsstore} (h : Ok d s) (hmax : s.max_vers.toNat+1<2^32)
    (quantized : Dsrecord D → ℕ) (r : Dsrecord D) : Done (dsstoreSave quantized ⟨d,s,[]⟩ r).1 := by
  obtain ⟨hsame,hvers⟩ := prepare_spec ⟨d,s,[]⟩ r (r.serial+1)
  rw [dsstoreSave]
  generalize prepare ⟨d,s,[]⟩ r (r.serial+1)=p at hsame hvers
  dsimp only
  have hcounted := (h.working.counted hmax p.2).markDirty
  have hz := hcounted.write (f := fun d => {d with create := some p.2}) rfl hcounted.index
  obtain ⟨hstore,-,hdelete,-,hmaxd⟩ := markDirty_frame (counted ⟨d,s,[]⟩ p.2)
  obtain ⟨hok,hremoved⟩ := (hsame.markDirty.write fun d => {d with create := some p.2}).removed hz
  rw [if_neg (not_not.mpr hok)]
  obtain ⟨hworking,hdirty,-,hdel⟩ := hremoved.save quantized (fun w hw => by
    rw [hvers]
    rw [Session.write] at hw
    dsimp only at hw
    rw [hstore] at hw
    exact lt_succ_of_le (h.vers_le w hw) hmax) (hmaxd.trans hvers.symm)
  exact (hworking.write (f := fun d => {d with create := none}) rfl hworking.index).done rfl
    (hdel (hdelete.trans h.delete)) hdirty

lemma saveCopy_done {d : Disk D} {s : Dsstore} (h : Ok d s) (hmax : s.max_vers.toNat+1<2^32)
    (quantized : Dsrecord D → ℕ) (r : Dsrecord D) :
    Done (dsstoreSaveCopy quantized ⟨d,s,[]⟩ r).1 := by
  obtain ⟨hsame,hvers⟩ := prepare_spec ⟨d,s,[]⟩ r r.serial
  rw [dsstoreSaveCopy]
  generalize prepare ⟨d,s,[]⟩ r r.serial=p at hsame hvers
  have hz := (h.working.counted hmax p.2).markDirty
  obtain ⟨hstore,hcreate,hdelete,-,hmaxd⟩ := markDirty_frame (counted ⟨d,s,[]⟩ p.2)
  obtain ⟨hok,hremoved⟩ := hsame.markDirty.removed hz
  rw [if_neg (not_not.mpr hok)]
  obtain ⟨hworking,hdirty,hcre,hdel⟩ := hremoved.save quantized (fun w hw => by
    rw [hstore] at hw
    rw [hvers]
    exact lt_succ_of_le (h.vers_le w hw) hmax) (hmaxd.trans hvers.symm)
  exact hworking.done (hcre.trans (hcreate.trans h.create)) (hdel (hdelete.trans h.delete)) hdirty

lemma remove_done {d : Disk D} {s : Dsstore} (h : Ok d s) (dsid : ℕ) :
    Done (dsstoreRemove ⟨d,s,[]⟩ dsid).1 := by
  obtain ⟨-,hremoved⟩ := remove_spec h.working dsid
  refine ⟨hremoved.working.ok (hremoved.create.trans h.create) (hremoved.delete h.delete)
    fun hd => ?_,hremoved.working.history⟩
  obtain ⟨hdirty,hclean,hsum⟩ := hremoved.dirty hd
  rw [hclean,hsum]
  exact h.clean hdirty

end Save

end Darwin.Netinfo.Files

/-! Runs of a data store, with crashes. Its checksum stays the sum over its records, unless a save is
completed by `create_recovery`, or a Clean file of before is found beside a new Index. -/
namespace Darwin.Netinfo.Files
open Lib

variable {D : Type} {d : Disk D} {s s' : Dsstore}

lemma recoverable_closed (h : Ok d s) {clean : Option (Option UInt32)}
    (hclean : ∀ c,clean=some (some c) → c=s.nichecksum) :
    Recoverable {d with index := some s.index,clean := clean} := by
  refine ⟨h.sound,fun c index hfiles => ?_⟩
  rw [cleanFiles] at hfiles
  split at hfiles
  · rename_i heq hindex
    dsimp only at heq hindex
    cases hindex
    split_ifs at hfiles
    cases hfiles
    exact ⟨h.agree,(hclean _ heq).trans h.sum⟩
  · cases hfiles

lemma close_spec (h : Ok d s) : Recoverable (dsstoreClose ⟨d,s,[]⟩).disk ∧
      ∀ steps,(steps=2 → ∀ c,d.clean=some (some c) → c=s.nichecksum) →
        Recoverable ((dsstoreClose ⟨d,s,[]⟩).crashed d steps) := by
  have hfinal : Recoverable (dsstoreClose ⟨d,s,[]⟩).disk :=
    recoverable_closed h fun c hc => by cases hc; rfl
  refine ⟨hfinal,fun steps hsteps => ?_⟩
  rcases steps with - | - | - | - | steps
  · exact recoverable_of_index h.sound h.index
  · exact recoverable_of_index h.sound rfl
  · exact recoverable_closed h (hsteps rfl)
  · exact recoverable_closed h fun c hc => by cases hc
  · rcases steps with - | steps
    · exact hfinal
    · exact hfinal

lemma indexRecovery_spec {l : List (ℕ × ℕ × Dsrecord D)} (h : indexRecovery l s=some s') :
    s'.index.entries.Perm (l.map entryOf++s.index.entries) ∧
      s'.nichecksum=s.nichecksum+(l.map fun x => weight x.2.2.dsid x.2.2.serial).sum ∧
      (∀ x∈l,x.2.2.vers ≤ s'.max_vers) ∧ s.max_vers ≤ s'.max_vers ∧ s'.dirty=s.dirty := by
  induction l generalizing s with
  | nil =>
    cases h
    exact ⟨List.Perm.refl _,(UInt32.add_zero _).symm,fun x hx => absurd hx not_mem_nil,
      UInt32.le_refl _,rfl⟩
  | cons y l ih =>
    obtain ⟨size,pos,r⟩ := y
    rw [indexRecovery] at h
    cases hget : s.index.get r.dsid with
    | some e =>
      rw [hget] at h
      cases h
    | none =>
      rw [hget] at h
      obtain ⟨hperm,hsum,hvers,hmax,hdirty⟩ := ih h
      have hstep : s.max_vers≤(if s.max_vers<r.vers then r.vers else s.max_vers) ∧
          r.vers≤(if s.max_vers<r.vers then r.vers else s.max_vers) := by
        split_ifs with hlt
        · exact ⟨UInt32.le_of_lt hlt,UInt32.le_refl _⟩
        · exact ⟨UInt32.le_refl _,UInt32.not_lt.mp hlt⟩
      refine ⟨?_,?_,fun x hx => ?_,UInt32.le_trans hstep.1 hmax,hdirty⟩
      · refine hperm.trans (((entries_put_perm hget _).append_left _).trans ?_)
        exact perm_middle
      · rw [hsum,map_cons,sum_cons,UInt32.add_assoc]
      · rcases mem_cons.mp hx with rfl | hx
        · exact UInt32.le_trans hstep.2 hmax
        · exact hvers x hx

lemma le_foldl_vers (l : List (ℕ × IndexEntry)) (m : UInt32) :
    m≤l.foldl (fun max_vers e => if max_vers<e.2.vers then e.2.vers else max_vers) m ∧
      ∀ e∈l,e.2.vers ≤
        l.foldl (fun max_vers e => if max_vers<e.2.vers then e.2.vers else max_vers) m := by
  induction l generalizing m with
  | nil => exact ⟨UInt32.le_refl _,fun e he => absurd he not_mem_nil⟩
  | cons e l ih =>
    obtain ⟨hle,hall⟩ := ih (if m<e.2.vers then e.2.vers else m)
    rw [foldl_cons]
    have hstep : m≤(if m<e.2.vers then e.2.vers else m) ∧
        e.2.vers≤(if m<e.2.vers then e.2.vers else m) := by
      split_ifs with hlt
      · exact ⟨UInt32.le_of_lt hlt,UInt32.le_refl _⟩
      · exact ⟨UInt32.le_refl _,UInt32.not_lt.mp hlt⟩
    refine ⟨UInt32.le_trans hstep.1 hle,fun x hx => ?_⟩
    rcases mem_cons.mp hx with rfl | hx
    · exact UInt32.le_trans hstep.2 hle
    · exact hall x hx

lemma readStore_spec (h : Recoverable d) (hs : readStore d=some s) :
    Agree d.store s.index ∧ s.nichecksum=checksum d.store ∧
      (∀ x∈located d.store,x.2.2.vers ≤ s.max_vers) ∧
      (s.dirty=false → d.clean=some (some s.nichecksum)) := by
  rw [readStore] at hs
  cases hfiles : cleanFiles d with
  | some p =>
    obtain ⟨c,index⟩ := p
    rw [hfiles] at hs
    cases hs
    obtain ⟨hagree,hsum⟩ := h.clean c index hfiles
    refine ⟨hagree,hsum,fun x hx => ?_,fun _ => ?_⟩
    · have hmem := hagree.symm.subset (mem_map_of_mem hx)
      exact (le_foldl_vers index.entries 0).2 _ hmem
    · rw [cleanFiles] at hfiles
      split at hfiles
      · rename_i heq hindex
        split_ifs at hfiles
        cases hfiles
        exact heq
      · cases hfiles
  | none =>
    rw [hfiles] at hs
    obtain ⟨hperm,hsum,hvers,-,hdirty⟩ := indexRecovery_spec hs
    refine ⟨?_,?_,hvers,fun hfalse => ?_⟩
    · rw [Agree]
      exact hperm.trans (by rw [SortedMap.empty,append_nil])
    · rw [hsum,UInt32.zero_add]
      rfl
    · rw [hdirty] at hfalse
      cases hfalse

lemma deleteRecovery_spec {x : Session D} (hx : Working 0 x) (hcreate : x.disk.create=none)
    (hclean : x.s.dirty=false → x.disk.clean=some (some x.s.nichecksum))
    (delete : Option ℕ) : Working 0 (deleteRecovery x delete).1 ∧ ((deleteRecovery x delete).2=.ok →
        Ok (deleteRecovery x delete).1.disk (deleteRecovery x delete).1.s) := by
  cases delete with
  | none =>
    exact ⟨hx.write (f := fun d => {d with delete := none}) rfl hx.index,
      fun hok => (by cases hok)⟩
  | some dsid =>
    obtain ⟨-,hremoved⟩ := remove_spec hx dsid
    have hworking := hremoved.working.write (f := fun d => {d with delete := none}) rfl
      hremoved.working.index
    refine ⟨hworking,fun _ => hworking.ok (hremoved.create.trans hcreate) rfl fun hd => ?_⟩
    obtain ⟨hdirty,hkept,hsum⟩ := hremoved.dirty hd
    exact hkept.trans ((hclean hdirty).trans (congrArg (fun c => some (some c)) hsum.symm))

lemma completeFiles_spec {x : Session D} (hx : Working 0 x) (hcreate : x.disk.create=none)
    (hclean : x.s.dirty=false → x.disk.clean=some (some x.s.nichecksum))
    (quantized : Dsrecord D → ℕ) : Working 0 (completeFiles quantized x).1 ∧
      ((completeFiles quantized x).2=.ok →
        Ok (completeFiles quantized x).1.disk (completeFiles quantized x).1.s) := by
  rw [completeFiles,hcreate]
  cases hdelete : x.disk.delete with
  | none =>
    simp only [ne_eq,not_true_eq_false,if_false]
    exact ⟨hx,fun _ => hx.ok hcreate hdelete hclean⟩
  | some delete =>
    simp only [ne_eq,not_true_eq_false,if_false]
    exact deleteRecovery_spec hx hcreate hclean delete

lemma init_spec (h : Recoverable d) (hcreate : d.create=none) (quantized : Dsrecord D → ℕ) :
    ((dsstoreInit quantized d).2=.ok →
        Ok (dsstoreInit quantized d).1.disk (dsstoreInit quantized d).1.s) ∧
      Recoverable (dsstoreInit quantized d).1.disk ∧
      ∀ d'∈(dsstoreInit quantized d).1.history,Recoverable d' := by
  rw [dsstoreInit]
  cases hs : readStore d with
  | none => exact ⟨fun hok => (by cases hok),h,fun d' hd => absurd hd not_mem_nil⟩
  | some s =>
    obtain ⟨hagree,hsum,hvers,hclean⟩ := readStore_spec h hs
    have hx : Working 0 ((⟨d,s,[]⟩ : Session D).write fun d => {d with index := none}) := by
      refine ⟨hagree,hsum.trans (UInt32.add_zero _).symm,h.sound,hvers,rfl,fun d' hd => ?_⟩
      rw [mem_singleton.mp hd]
      exact recoverable_of_index h.sound rfl
    obtain ⟨hworking,hok⟩ := completeFiles_spec hx hcreate hclean quantized
    dsimp only
    rw [checkRoot]
    split_ifs with hfailed hroot
    · exact ⟨fun h => absurd h hfailed,recoverable_of_index hworking.sound hworking.index,
        hworking.history⟩
    · exact ⟨fun h => (by cases h),recoverable_of_index hworking.sound hworking.index,
        hworking.history⟩
    · exact ⟨hok,recoverable_of_index hworking.sound hworking.index,hworking.history⟩

section Runs

variable {quantized : Dsrecord D → ℕ} {t t' : State D} {e : Event D} {es : List (Event D)}

/-- The store between events: open, or closed with files from which it can be read. -/
def StateOk (t : State D) : Prop :=
  match t.s with
  | none => Recoverable t.disk
  | some s => Ok t.disk s

def Call.saves : Call D → Bool
  | .save _ | .saveCopy _ => true
  | _ => false

/-- The condition on an event. A save does not overflow the version; a close does not end right
after the Index is there while the Clean file has the checksum of before; and no store with a Create
file is opened. -/
def State.Fair (t : State D) : Event D → Prop
  | .call c => ∀ s∈t.s,c.saves=true → s.max_vers.toNat+1<2^32
  | .crash c steps => ∀ s∈t.s,(c.saves=true → s.max_vers.toNat+1<2^32) ∧
      (c.isClose=true → steps=2 → ∀ sum,t.disk.clean=some (some sum) → sum=s.nichecksum)
  | .reopen | .crashReopen _ => t.disk.create=none

def State.FairRun (quantized : Dsrecord D → ℕ) (t : State D) : List (Event D) → Prop
  | [] => True
  | e::es => t.Fair e ∧ ∀ t'∈t.step quantized e,t'.FairRun quantized es

lemma crashed_recoverable {x : Session D} (hstart : Recoverable d) (hfinal : Recoverable x.disk)
    (hhistory : ∀ d'∈x.history,Recoverable d') (steps : ℕ) : Recoverable (x.crashed d steps) := by
  rw [Session.crashed]
  cases hget : (d::x.history)[steps]? with
  | none => exact hfinal
  | some d' =>
    rcases mem_cons.mp (mem_of_getElem? hget) with rfl | hmem
    · exact hstart
    · exact hhistory d' hmem

lemma call_done (h : Ok d s) (quantized : Dsrecord D → ℕ) {c : Call D} (hclose : c.isClose=false)
    (hsave : c.saves=true → s.max_vers.toNat+1<2^32) : Done (c.run quantized ⟨d,s,[]⟩) := by
  cases c with
  | save r => exact save_done h (hsave rfl) quantized r
  | saveCopy r => exact saveCopy_done h (hsave rfl) quantized r
  | remove dsid => exact remove_done h dsid
  | close => cases hclose

lemma StateOk.step (h : StateOk t) (hfair : t.Fair e) (hs : t.step quantized e=some t') :
    StateOk t' := by
  obtain ⟨disk,opened⟩ := t
  cases opened with
  | none =>
    have hrecover : Recoverable disk := h
    cases e with
    | call c => cases hs
    | crash c steps => cases hs
    | reopen =>
      cases hs
      obtain ⟨hok,hdisk,-⟩ := init_spec hrecover hfair quantized
      rw [StateOk]
      dsimp only
      split_ifs with hstatus
      · exact hok hstatus
      · exact hdisk
    | crashReopen steps =>
      cases hs
      obtain ⟨-,hdisk,hhistory⟩ := init_spec hrecover hfair quantized
      exact crashed_recoverable hrecover hdisk hhistory steps
  | some s =>
    have hok : Ok disk s := h
    cases e with
    | reopen => cases hs
    | crashReopen steps => cases hs
    | call c =>
      cases hs
      cases hclose : c.isClose with
      | false => exact (call_done hok quantized hclose (hfair s rfl)).1
      | true =>
        cases c with
        | close => exact (close_spec hok).1
        | save r => cases hclose
        | saveCopy r => cases hclose
        | remove dsid => cases hclose
    | crash c steps =>
      cases hs
      obtain ⟨hsave,hclosing⟩ := hfair s rfl
      cases hclose : c.isClose with
      | false =>
        obtain ⟨hdone,hhistory⟩ := call_done hok quantized hclose hsave
        exact crashed_recoverable (recoverable_of_index hok.sound hok.index)
          (recoverable_of_index hdone.sound hdone.index) hhistory steps
      | true =>
        cases c with
        | close => exact (close_spec hok).2 steps (hclosing rfl)
        | save r => cases hclose
        | saveCopy r => cases hclose
        | remove dsid => cases hclose

lemma stateOk_newStore : StateOk (newStore : State D) := by
  refine ⟨⟨nodup_nil,nodup_nil⟩,fun c index hfiles => ?_⟩
  cases hfiles

lemma StateOk.run (h : StateOk t) (hfair : t.FairRun quantized es)
    (ht : t.run quantized es=some t') : StateOk t' := by
  induction es generalizing t with
  | nil =>
    cases ht
    exact h
  | cons e es ih =>
    obtain ⟨u,hu,ht⟩ := Option.bind_eq_some_iff.mp ht
    exact ih (h.step hfair.1 hu) (hfair.2 u hu) ht

def rootRun : List (Event Unit) := [.reopen,.call (.save ⟨IndexNull,0,0,0,[1],()⟩)]

/-- The child is saved, and saved again, with a crash before its Create file is gone. -/
def interruptedRun : List (Event Unit) :=
  rootRun++[.call (.save ⟨IndexNull,0,0,0,[],()⟩),.crash (.save ⟨1,1,2,0,[],()⟩) 6,.reopen]

end Runs

end Darwin.Netinfo.Files
