import Darwin.Netinfo.DsstoreFiles
import Mathlib.Tactic
import Mathlib.Data.UInt

/-! The records in the store files and the entries of the index, as lists up to order. A record that
is written or removed is one more or one less. -/
open List
namespace Darwin.Netinfo.Files
open Lib

section Maps

variable {κ β : Type} [LinearOrder κ]

variable {es : List (κ × β)}

lemma putEntry_perm {k : κ} (h : SortedMap.getEntry k es=none) (v : β) :
    (SortedMap.putEntry k v es).Perm ((k,v)::es) := by
  induction es with
  | nil => exact List.Perm.refl _
  | cons e es ih =>
    rw [SortedMap.getEntry] at h
    split_ifs at h with hk
    rw [SortedMap.putEntry,if_neg hk]
    split_ifs
    · exact List.Perm.refl _
    · exact ((ih h).cons e).trans (List.Perm.swap _ _ _)

lemma entries_put_perm {m : SortedMap κ β} {k : κ} (h : m.get k=none) (v : β) :
    (m.put k v).entries.Perm ((k,v)::m.entries) := putEntry_perm h v

lemma filter_perm {k : κ} {v : β} (hs : es.Pairwise fun x y => x.1<y.1)
    (h : SortedMap.getEntry k es=some v) :
    es.Perm ((k,v)::es.filter fun e => e.1≠k) := by
  induction es with
  | nil => cases h
  | cons e es ih =>
    obtain ⟨hlt,hs⟩ := pairwise_cons.mp hs
    rw [SortedMap.getEntry] at h
    split_ifs at h with hk
    · cases h
      have hrest : es.filter (fun x => x.1≠k)=es :=
        filter_eq_self.mpr fun x hx => decide_eq_true (hk▸ne_of_gt (hlt x hx))
      rw [filter_cons_of_neg (by simp [hk]),hrest,hk]
    · rw [filter_cons_of_pos (by simpa using fun heq => hk heq.symm)]
      exact ((ih hs h).cons e).trans (List.Perm.swap _ _ _)

lemma entries_erase_perm {m : SortedMap κ β} {k : κ} {v : β} (h : m.get k=some v) :
    m.entries.Perm ((k,v)::(m.erase k).entries) := filter_perm m.sorted h

lemma flatMap_putEntry {γ : Type} (f : κ → β → List γ) {k : κ}
    (hs : es.Pairwise fun x y => x.1<y.1) (v : β) : (((SortedMap.getEntry k es).elim [] (f k))++
      (SortedMap.putEntry k v es).flatMap fun e => f e.1 e.2).Perm
      ((es.flatMap fun e => f e.1 e.2)++f k v) := by
  induction es with
  | nil => simp [SortedMap.getEntry,SortedMap.putEntry]
  | cons e es ih =>
    obtain ⟨hlt,hs⟩ := pairwise_cons.mp hs
    rw [SortedMap.getEntry,SortedMap.putEntry]
    by_cases hk : k=e.1
    · subst hk
      rw [if_pos rfl,if_neg (lt_irrefl _),if_pos rfl,flatMap_cons,flatMap_cons,
        Option.elim_some,append_assoc]
      exact (perm_append_comm).append_left _
    · rw [if_neg hk]
      split_ifs with hbefore
      · have hnone : SortedMap.getEntry k es=none :=
          SortedMap.getEntry_of_lt fun x hx => lt_trans hbefore (hlt x hx)
        rw [hnone,Option.elim_none,nil_append,flatMap_cons]
        exact perm_append_comm
      · rw [flatMap_cons,flatMap_cons,append_assoc]
        refine List.Perm.trans ?_ ((ih hs).append_left (f e.1 e.2))
        rw [←append_assoc,←append_assoc]
        exact perm_append_comm.append_right _

end Maps

section Slots

variable {D : Type} {store : StoreFiles D} {size pos : ℕ} {r : Dsrecord D}

lemma locatedIn_append (size i : ℕ) (l : List (Option (Dsrecord D))) (r : Dsrecord D) :
    (locatedIn size i (l++[some r])).Perm ((size,i+l.length,r)::locatedIn size i l) := by
  induction l generalizing i with
  | nil => exact List.Perm.refl _
  | cons o l ih =>
    have hlength : i+1+l.length=i+(o::l).length := by
      rw [length_cons]
      omega
    cases o with
    | none =>
      rw [←hlength]
      exact ih (i+1)
    | some r' =>
      rw [←hlength]
      exact ((ih (i+1)).cons _).trans (List.Perm.swap _ _ _)

variable {l : List (Option (Dsrecord D))}

lemma locatedIn_set_some (size i : ℕ) (r : Dsrecord D)
    (h : l[pos]?=some none) :
    (locatedIn size i (l.set pos (some r))).Perm ((size,i+pos,r)::locatedIn size i l) := by
  induction l generalizing i pos with
  | nil => cases h
  | cons o l ih =>
    cases pos with
    | zero =>
      cases h
      exact List.Perm.refl _
    | succ pos =>
      have hpos : i+1+pos=i+(pos+1) := by omega
      have h : l[pos]?=some none := h
      have hl := ih (i+1) h
      rw [hpos] at hl
      cases o with
      | none => exact hl
      | some r' => exact (hl.cons _).trans (List.Perm.swap _ _ _)

lemma locatedIn_set_none (size i : ℕ)
    (h : l[pos]?=some (some r)) :
    (locatedIn size i l).Perm ((size,i+pos,r)::locatedIn size i (l.set pos none)) := by
  induction l generalizing i pos with
  | nil => cases h
  | cons o l ih =>
    cases pos with
    | zero =>
      cases h
      exact List.Perm.refl _
    | succ pos =>
      have hpos : i+1+pos=i+(pos+1) := by omega
      have h : l[pos]?=some (some r) := h
      have hl := ih (i+1) h
      rw [hpos] at hl
      cases o with
      | none => exact hl
      | some r' => exact (hl.cons _).trans (List.Perm.swap _ _ _)

lemma locatedIn_fill (size : ℕ) (l : List (Option (Dsrecord D))) (r : Dsrecord D) :
    (locatedIn size 0 (fill l r)).Perm
      ((size,l.findIdx Option.isNone,r)::locatedIn size 0 l) := by
  rw [fill]
  split_ifs with hlt
  · have hget : l[l.findIdx Option.isNone]?=some none := by
      have hnone := findIdx_getElem (w := hlt)
      rw [getElem?_eq_getElem hlt,Option.isNone_iff_eq_none.mp hnone]
    have hperm := locatedIn_set_some size 0 r hget
    rwa [Nat.zero_add] at hperm
  · have hlength : l.findIdx Option.isNone=l.length :=
      Nat.le_antisymm findIdx_le_length (Nat.not_lt.mp hlt)
    have hperm := locatedIn_append size 0 l r
    rwa [Nat.zero_add,←hlength] at hperm

lemma mem_locatedIn {i : ℕ} {n : ℕ}
    (h : (n,pos,r)∈locatedIn size i l) : n=size ∧ i≤pos ∧ l[pos-i]?=some (some r) := by
  induction l generalizing i with
  | nil => cases h
  | cons o l ih =>
    have hlater : (n,pos,r)∈locatedIn size (i+1) l →
        n=size ∧ i≤pos ∧ (o::l)[pos-i]?=some (some r) := by
      intro hl
      obtain ⟨hn,hle,hget⟩ := ih hl
      refine ⟨hn,by omega,?_⟩
      have hpos : pos-i=pos-(i+1)+1 := by omega
      rw [hpos]
      exact hget
    cases o with
    | none => exact hlater h
    | some r' =>
      rcases mem_cons.mp h with heq | hl
      · cases heq
        exact ⟨rfl,Nat.le_refl _,by rw [Nat.sub_self]; rfl⟩
      · exact hlater hl

lemma slot_of_mem (h : (size,pos,r)∈located store) :
    slot store size pos=some r ∧ (slots store size)[pos]?=some (some r) := by
  obtain ⟨⟨n,l⟩,hmem,hl⟩ := mem_flatMap.mp h
  obtain ⟨rfl,-,hget⟩ := mem_locatedIn hl
  have hslots : slots store size=l := by
    rw [slots,SortedMap.get_eq_some_iff.mpr hmem,Option.getD_some]
  rw [slot,hslots]
  rw [Nat.sub_zero] at hget
  exact ⟨by rw [hget]; rfl,hget⟩

lemma located_put (store : StoreFiles D) (size : ℕ) (l : List (Option (Dsrecord D))) :
    (locatedIn size 0 (slots store size)++located (store.put size l)).Perm
      (located store++locatedIn size 0 l) := by
  have hperm := flatMap_putEntry (fun n l => locatedIn n 0 l) (k := size) store.sorted l
  have hslots : (SortedMap.getEntry size store.entries).elim []
      (fun l => locatedIn size 0 l)=locatedIn size 0 (slots store size) := by
    rw [slots,SortedMap.get]
    cases SortedMap.getEntry size store.entries <;> rfl
  rw [hslots] at hperm
  exact hperm

lemma located_fill (store : StoreFiles D) (size : ℕ) (r : Dsrecord D) :
    (located (store.put size (fill (slots store size) r))).Perm
      ((size,(slots store size).findIdx Option.isNone,r)::located store) := by
  have hperm := (located_put store size (fill (slots store size) r)).trans
    ((locatedIn_fill size (slots store size) r).append_left (located store))
  refine (perm_append_left_iff (locatedIn size 0 (slots store size))).mp (hperm.trans ?_)
  exact perm_middle.trans (perm_append_comm.cons _ |>.trans perm_middle.symm)

lemma located_clear (h : (size,pos,r)∈located store) : (located store).Perm
      ((size,pos,r)::located (store.put size ((slots store size).set pos none))) := by
  have hin := locatedIn_set_none size 0 (slot_of_mem h).2
  rw [Nat.zero_add] at hin
  have hperm := located_put store size ((slots store size).set pos none)
  have hboth := (hin.symm.append_right
    (located (store.put size ((slots store size).set pos none)))).trans hperm
  refine (perm_append_left_iff (locatedIn size 0 ((slots store size).set pos none))).mp ?_
  exact (perm_append_comm.trans hboth.symm).trans perm_middle.symm

end Slots

end Darwin.Netinfo.Files

/-! What the operations of a data store keep: the index names the stored records, the checksum is
their sum, and their versions are different and not above that of the store. -/
namespace Darwin.Netinfo.Files
open Lib

variable {D : Type}

def entryOf (x : ℕ × ℕ × Dsrecord D) : ℕ × IndexEntry :=
  (x.2.2.dsid,⟨x.2.2.vers,some (x.1,x.2.1)⟩)

def Agree (store : StoreFiles D) (index : Index) : Prop :=
  index.entries.Perm ((located store).map entryOf)

def checksum (store : StoreFiles D) : UInt32 :=
  ((located store).map fun x => weight x.2.2.dsid x.2.2.serial).sum

/-- No id and no version is there twice. -/
structure Sound (store : StoreFiles D) : Prop where
  ids : ((located store).map fun x => x.2.2.dsid).Nodup
  vers : ((located store).map fun x => x.2.2.vers).Nodup

/-- Files from which a store can be read again. -/
structure Recoverable (d : Disk D) : Prop where
  sound : Sound d.store
  clean : ∀ c index,cleanFiles d=some (c,index) → Agree d.store index ∧ c=checksum d.store

/-- An open store and its files, between operations. -/
structure Ok (d : Disk D) (s : Dsstore) : Prop where
  agree : Agree d.store s.index
  sum : s.nichecksum=checksum d.store
  sound : Sound d.store
  vers_le : ∀ x∈located d.store,x.2.2.vers ≤ s.max_vers
  create : d.create=none
  delete : d.delete=none
  index : d.index=none
  clean : s.dirty=false → d.clean=some (some s.nichecksum)

/-- An open store and its files, within an operation; the checksum is ahead by `pending`. -/
structure Working (pending : UInt32) (x : Session D) : Prop where
  agree : Agree x.disk.store x.s.index
  sum : x.s.nichecksum=checksum x.disk.store+pending
  sound : Sound x.disk.store
  vers_le : ∀ y∈located x.disk.store,y.2.2.vers≤x.s.max_vers
  index : x.disk.index=none
  history : ∀ d∈x.history,Recoverable d

section Files

variable {store store' : StoreFiles D} {y : ℕ × ℕ × Dsrecord D} {index : Index}

lemma Sound.tail (h : Sound store) (hp : (located store).Perm (y::located store')) :
    Sound store' := by
  have hids := (hp.map fun x => x.2.2.dsid).nodup_iff.mp h.ids
  have hvers := (hp.map fun x => x.2.2.vers).nodup_iff.mp h.vers
  exact ⟨(nodup_cons.mp hids).2,(nodup_cons.mp hvers).2⟩

lemma Sound.cons (h : Sound store) (hp : (located store').Perm (y::located store))
    (hid : ∀ x∈located store,x.2.2.dsid≠y.2.2.dsid)
    (hvers : ∀ x∈located store,x.2.2.vers≠y.2.2.vers) : Sound store' := by
  constructor
  · refine (hp.map fun x => x.2.2.dsid).nodup_iff.mpr (nodup_cons.mpr ⟨?_,h.ids⟩)
    rw [mem_map]
    rintro ⟨x,hx,heq⟩
    exact hid x hx heq
  · refine (hp.map fun x => x.2.2.vers).nodup_iff.mpr (nodup_cons.mpr ⟨?_,h.vers⟩)
    rw [mem_map]
    rintro ⟨x,hx,heq⟩
    exact hvers x hx heq

lemma sum_perm {l l' : List UInt32} (h : l.Perm l') : l.sum=l'.sum := by
  induction h with
  | nil => rfl
  | cons a h ih => rw [sum_cons,sum_cons,ih]
  | swap a b l =>
    rw [sum_cons,sum_cons,sum_cons,sum_cons,←UInt32.add_assoc,
      ← UInt32.add_assoc,UInt32.add_comm b a]
  | trans h h' ih ih' => exact ih.trans ih'

lemma checksum_perm (hp : (located store).Perm (y::located store')) :
    checksum store=checksum store'+weight y.2.2.dsid y.2.2.serial := by
  rw [checksum,sum_perm (hp.map _),map_cons,sum_cons,UInt32.add_comm]
  rfl

lemma Agree.located (h : Agree store index) {dsid : ℕ} {e : IndexEntry}
    (he : index.get dsid=some e) :
    ∃ size pos r,(size,pos,r)∈located store ∧ e=⟨r.vers,some (size,pos)⟩ ∧ r.dsid=dsid := by
  have hmem := h.subset (SortedMap.get_eq_some_iff.mp he)
  obtain ⟨⟨size,pos,r⟩,hr,heq⟩ := mem_map.mp hmem
  cases heq
  exact ⟨size,pos,r,hr,rfl,rfl⟩

lemma Agree.absent (h : Agree store index) {dsid : ℕ} (he : index.get dsid=none) :
    ∀ x∈Files.located store,x.2.2.dsid≠dsid := by
  intro x hx heq
  have hmem := h.symm.subset (mem_map_of_mem hx)
  have hget := SortedMap.get_eq_some_iff.mpr hmem
  rw [heq,he] at hget
  cases hget

lemma Agree.erase (h : Agree store index) {size pos : ℕ} {r : Dsrecord D}
    (he : index.get r.dsid=some ⟨r.vers,some (size,pos)⟩)
    (hp : (Files.located store).Perm ((size,pos,r)::Files.located store')) :
    Agree store' (index.erase r.dsid) :=
  ((entries_erase_perm he).symm.trans (h.trans (hp.map entryOf))).cons_inv

lemma Agree.put (h : Agree store index) {size pos : ℕ} {r : Dsrecord D}
    (he : index.get r.dsid=none)
    (hp : (Files.located store').Perm ((size,pos,r)::Files.located store)) :
    Agree store' (index.put r.dsid ⟨r.vers,some (size,pos)⟩) :=
  (entries_put_perm he _).trans ((h.cons _).trans (hp.map entryOf).symm)

lemma recoverable_of_index {d : Disk D} (hs : Sound d.store) (hi : d.index=none) :
    Recoverable d := by
  refine ⟨hs,fun c index hclean => ?_⟩
  rw [cleanFiles,hi] at hclean
  split at hclean
  · rename_i heq
    cases heq
  · cases hclean

end Files

section Session

variable {x : Session D} {pending : UInt32}

lemma Working.write (h : Working pending x) {f : Disk D → Disk D}
    (hstore : (f x.disk).store=x.disk.store) (hindex : (f x.disk).index=none) :
    Working pending (x.write f) := by
  have hsound : Sound (f x.disk).store := hstore▸h.sound
  refine ⟨?_,?_,hsound,?_,hindex,fun d hd => ?_⟩
  · rw [Session.write,hstore]
    exact h.agree
  · rw [Session.write,hstore]
    exact h.sum
  · rw [Session.write,hstore]
    exact h.vers_le
  · rcases mem_append.mp hd with hd | hd
    · exact h.history d hd
    · exact mem_singleton.mp hd▸recoverable_of_index hsound hindex

lemma Working.markDirty (h : Working pending x) : Working pending x.markDirty := by
  rw [Session.markDirty]
  split_ifs
  · exact h
  · have hdirty : Working pending {x with s := {x.s with dirty := true}} :=
      ⟨h.agree,h.sum,h.sound,h.vers_le,h.index,h.history⟩
    exact hdirty.write rfl h.index

lemma markDirty_dirty (x : Session D) : x.markDirty.s.dirty=true := by
  rw [Session.markDirty]
  split_ifs with h
  · exact h
  · rfl

lemma markDirty_frame (x : Session D) :
    x.markDirty.disk.store=x.disk.store ∧ x.markDirty.disk.create=x.disk.create ∧
      x.markDirty.disk.delete=x.disk.delete ∧ x.markDirty.s.index=x.s.index ∧
      x.markDirty.s.max_vers=x.s.max_vers := by
  rw [Session.markDirty]
  split_ifs <;> exact ⟨rfl,rfl,rfl,rfl,rfl⟩

end Session

section Remove

variable {x y : Session D} {pending : UInt32} {dsid : ℕ}

/-- What removing leaves. -/
structure Removed (dsid : ℕ) (pending : UInt32) (x y : Session D) : Prop where
  working : Working pending y
  absent : y.s.index.get dsid=none
  subset : ∀ z∈located y.disk.store,z∈located x.disk.store
  max_vers : y.s.max_vers=x.s.max_vers
  create : y.disk.create=x.disk.create
  delete : x.disk.delete=none → y.disk.delete=none
  dirty : y.s.dirty=false →
    x.s.dirty=false ∧ y.disk.clean=x.disk.clean ∧ y.s.nichecksum=x.s.nichecksum

def deleting (x : Session D) (dsid : ℕ) : Session D :=
  ((x.write fun d => {d with delete := some none}).markDirty).write
    fun d => {d with delete := some (some dsid)}

lemma Working.deleting (h : Working pending x) (dsid : ℕ) : Working pending (deleting x dsid) :=
  ((h.write rfl h.index).markDirty).write rfl (h.write rfl h.index).markDirty.index

lemma deleting_frame (x : Session D) (dsid : ℕ) : (deleting x dsid).disk.store=x.disk.store ∧
      (deleting x dsid).disk.create=x.disk.create ∧
      (deleting x dsid).s.max_vers=x.s.max_vers ∧ (deleting x dsid).s.dirty=true := by
  obtain ⟨hstore,hcreate,-,-,hmax⟩ :=
    markDirty_frame (x.write fun d => {d with delete := some none})
  exact ⟨hstore,hcreate,hmax,markDirty_dirty _⟩

lemma dsstoreRemove_stored {size pos : ℕ} {r : Dsrecord D} {v : UInt32}
    (he : x.s.index.get dsid=some ⟨v,some (size,pos)⟩)
    (hslot : slot x.disk.store size pos=some r) : dsstoreRemove x dsid =
      ((({ deleting x dsid with
        s := { (deleting x dsid).s with
          index := x.s.index.erase dsid
          nichecksum := (deleting x dsid).s.nichecksum-weight dsid r.serial}} :
        Session D).write fun d =>
          {d with store := d.store.put size ((slots d.store size).set pos none)}).write
        fun d => {d with delete := none},.ok) := by
  rw [dsstoreRemove,he]
  cases hdirty : x.s.dirty <;> simp [deleting,Session.markDirty,Session.write,hdirty,hslot]

lemma remove_spec (h : Working pending x) (dsid : ℕ) :
    (dsstoreRemove x dsid).2=.ok ∧ Removed dsid pending x (dsstoreRemove x dsid).1 := by
  cases he : x.s.index.get dsid with
  | none =>
    rw [dsstoreRemove,he]
    exact ⟨rfl,h,he,fun _ hz => hz,rfl,rfl,id,fun hd => ⟨hd,rfl,rfl⟩⟩
  | some e =>
    obtain ⟨size,pos,r,hmem,rfl,rfl⟩ := h.agree.located he
    obtain ⟨hstore,hcreate,hmax,hdirty⟩ := deleting_frame x r.dsid
    have hdel := h.deleting r.dsid
    have hp := located_clear hmem
    have hsound := h.sound.tail hp
    have hsubset : ∀ z∈located (x.disk.store.put size ((slots x.disk.store size).set pos none)),
        z∈located x.disk.store := fun z hz => hp.symm.subset (mem_cons_of_mem _ hz)
    rw [dsstoreRemove_stored he (slot_of_mem hmem).1]
    have hworking : Working pending (({ deleting x r.dsid with
        s := { (deleting x r.dsid).s with
          index := x.s.index.erase r.dsid
          nichecksum := (deleting x r.dsid).s.nichecksum-weight r.dsid r.serial}} :
        Session D).write fun d =>
          {d with store := d.store.put size ((slots d.store size).set pos none)}) := by
      refine ⟨?_,?_,?_,?_,hdel.index,fun d hd => ?_⟩
      · rw [Session.write]
        dsimp only
        rw [hstore]
        exact h.agree.erase he hp
      · have hsum := hdel.sum
        have hpart := checksum_perm hp
        rw [Session.write]
        dsimp only
        rw [hstore] at hsum ⊢
        rw [hsum,hpart]
        grind
      · rw [Session.write]
        dsimp only
        rw [hstore]
        exact hsound
      · rw [Session.write]
        dsimp only
        rw [hstore,hmax]
        exact fun z hz => h.vers_le z (hsubset z hz)
      · rcases mem_append.mp hd with hd | hd
        · exact hdel.history d hd
        · rw [mem_singleton.mp hd]
          refine recoverable_of_index ?_ hdel.index
          dsimp only
          rw [hstore]
          exact hsound
    refine ⟨rfl,?_,?_,?_,hmax,hcreate,fun _ => rfl,fun hd => ?_⟩
    · exact hworking.write (f := fun d => {d with delete := none}) rfl hworking.index
    · exact (SortedMap.get_erase _ _ _).trans (if_pos rfl)
    · rw [Session.write,Session.write]
      dsimp only
      rw [hstore]
      exact hsubset
    · exact absurd (hdirty.symm.trans hd) (by decide)

end Remove

end Darwin.Netinfo.Files
