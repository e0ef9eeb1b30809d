import Darwin.Ipc.Entry
import Darwin.Lib.LinearProbe

/-! The local reverse hash table of `ipc/ipc_hash.c`: the links `ie_index` of a space's table,
with linear probing. A loop that has not ended after one round of the table never ends; the
result of such a call is `none`. -/
open Function Set
namespace Darwin.Ipc
open Lib.LinearProbe

def ihLocalHash (obj : IpcObject) (size : ℕ) : ℕ := (obj>>>6).toNat%size

def ipcHashLocalLookup (t : IpcTable) (obj : IpcObject) : Option (Option (MachPortName × ℕ)) :=
  let size := t.isTableSize
  let found (hindex : ℕ) : Bool :=
    let index := (t.isTable hindex).ieIndex
    index == 0 || (t.isTable index).ieObject == obj
  match scan size found size (ihLocalHash obj size) with
  | none => none
  | some hindex =>
    let index := (t.isTable hindex).ieIndex
    if index=0 then some none
    else some (some (machPortMake index (ieBitsGen (t.isTable index).ieBits),index))

def ipcHashLocalInsert (t : IpcTable) (obj : IpcObject) (index : ℕ) : Option IpcTable :=
  let size := t.isTableSize
  match scan size (fun hindex => (t.isTable hindex).ieIndex == 0) size (ihLocalHash obj size) with
  | none => none
  | some hindex => some (t.setIndex hindex index)

/-- The test of `ipc_hash_local_delete` for the end of the clump or a displaced object. -/
def clumpStop (t : IpcTable) (hindex dindex : ℕ) : Bool :=
  let index := (t.isTable dindex).ieIndex
  index == 0 || displaced hindex dindex (ihLocalHash (t.isTable index).ieObject t.isTableSize)

/-- The outer loop: what ends the inner one goes to the hole, and its slot is the next hole. -/
def fillHole (t : IpcTable) : ℕ → ℕ → Option IpcTable
  | 0,_ => none
  | fuel+1,hindex =>
    let size := t.isTableSize
    match scan size (clumpStop t hindex) size (next size hindex) with
    | none => none
    | some dindex =>
      let index := (t.isTable dindex).ieIndex
      let t := t.setIndex hindex index
      if index=0 then some t else fillHole t fuel dindex

def ipcHashLocalDelete (t : IpcTable) (obj : IpcObject) (index : ℕ) : Option IpcTable :=
  let size := t.isTableSize
  match scan size (fun hindex => (t.isTable hindex).ieIndex == index) size
      (ihLocalHash obj size) with
  | none => none
  | some hindex => fillHole t size hindex

end Darwin.Ipc

/-! Runs of insertions into and deletions from a space's local reverse hash table. -/
namespace Darwin.Ipc
open Lib.LinearProbe

namespace IpcTable

def slot (t : IpcTable) (p : ℕ) : ℕ := (t.isTable p).ieIndex

def home (t : IpcTable) (i : ℕ) : ℕ := ihLocalHash (t.isTable i).ieObject t.isTableSize

lemma setIndex_slot (t : IpcTable) (hindex index : ℕ) :
    (t.setIndex hindex index).slot=update t.slot hindex index :=
  funext fun i => t.setIndex_ieIndex hindex index i

end IpcTable

/-- Only links of the reverse hash table differ. -/
structure Relinked (t t' : IpcTable) : Prop where
  size : t'.isTableSize=t.isTableSize
  entry : ∀ i,∃ index,t'.isTable i={t.isTable i with ieIndex := index}

namespace Relinked

variable {t t' t'' : IpcTable}

lemma trans (h : Relinked t t') (h' : Relinked t' t'') : Relinked t t'' := by
  refine ⟨h'.size.trans h.size,fun i => ?_⟩
  obtain ⟨index,hi⟩ := h.entry i
  obtain ⟨index',hi'⟩ := h'.entry i
  exact ⟨index',by rw [hi',hi]⟩

lemma setIndex (t : IpcTable) (hindex index : ℕ) : Relinked t (t.setIndex hindex index) := by
  refine ⟨rfl,fun i => ?_⟩
  by_cases h : i=hindex
  · exact ⟨index,by rw [h]; exact update_self _ _ _⟩
  · exact ⟨(t.isTable i).ieIndex,update_of_ne h _ _⟩

lemma ieObject (h : Relinked t t') (i : ℕ) : (t'.isTable i).ieObject=(t.isTable i).ieObject := by
  obtain ⟨index,hi⟩ := h.entry i
  rw [hi]

lemma home (h : Relinked t t') : t'.home=t.home := by
  funext i
  rw [IpcTable.home,IpcTable.home,h.ieObject,h.size]

end Relinked

/-- The indices in `s`, and no others, are in the reverse hash table of `t`. -/
structure Hashed (t : IpcTable) (s : Set ℕ) : Prop where
  size : 0<t.isTableSize
  probed : Probed t.isTableSize t.slot t.home
  occupant : ∀ i,Occupant t.isTableSize t.slot i ↔ i∈s
  range : ∀ i,i∈s → i<t.isTableSize

lemma ihLocalHash_lt {size : ℕ} (h : 0<size) (obj : IpcObject) : ihLocalHash obj size<size :=
  Nat.mod_lt _ h

namespace Hashed

variable {t : IpcTable} {s : Set ℕ}

lemma home_lt (h : Hashed t s) (i : ℕ) : t.home i<t.isTableSize := ihLocalHash_lt h.size _

lemma slot_lt (h : Hashed t s) {p : ℕ} (hp : p<t.isTableSize) : t.slot p<t.isTableSize := by
  by_cases h0 : t.slot p=0
  · rw [h0]
    exact h.size
  · exact h.range _ ((h.occupant _).mp ⟨h0,p,hp,rfl⟩)

lemma lookup (h : Hashed t s) (obj : IpcObject) : ∃ r,ipcHashLocalLookup t obj=some r ∧
      (∀ name index,r=some (name,index) → index∈s ∧ (t.isTable index).ieObject=obj ∧
        name=machPortMake index (ieBitsGen (t.isTable index).ieBits)) ∧
      (r=none → ∀ index,index∈s → (t.isTable index).ieObject≠obj) := by
  obtain ⟨p,hp,hp0⟩ := h.probed.gap
  have hstart := ihLocalHash_lt h.size obj
  obtain ⟨k,hk,hstop,hfirst,hscan⟩ := exists_scan
    (fun hindex => (t.isTable hindex).ieIndex == 0 ||
      (t.isTable (t.isTable hindex).ieIndex).ieObject == obj) hstart hp
    (by rw [show (t.isTable p).ieIndex=0 from hp0]; rfl)
  have hlt := after_lt h.size (ihLocalHash obj t.isTableSize) k
  simp only [ipcHashLocalLookup,hscan]
  by_cases h0 : (t.isTable (after t.isTableSize (ihLocalHash obj t.isTableSize) k)).ieIndex=0
  · rw [if_pos h0]
    refine ⟨none,rfl,fun _ _ hr => (Option.some_ne_none _ hr.symm).elim,fun _ index hindex hobj => ?_⟩
    obtain ⟨hne,q,hq,hslot⟩ := (h.occupant index).mpr hindex
    -- the way from the home of the object to its slot has no empty slot
    have hhome : t.home (t.slot q)=ihLocalHash obj t.isTableSize := by rw [hslot,IpcTable.home,hobj]
    have hle : steps t.isTableSize (t.home (t.slot q)) q≤k := by
      refine h.probed.steps_le_of_empty hq (hslot▸hne) ?_
      rw [hhome]
      exact h0
    rw [hhome] at hle
    have hat : after t.isTableSize (ihLocalHash obj t.isTableSize)
        (steps t.isTableSize (ihLocalHash obj t.isTableSize) q)=q := after_steps hstart hq
    have hne' : steps t.isTableSize (ihLocalHash obj t.isTableSize) q≠k := by
      intro heq
      rw [←heq,hat] at h0
      exact hne (hslot▸h0)
    have hpass := hfirst _ (lt_of_le_of_ne hle hne')
    simp only [hat,Bool.or_eq_false_iff,beq_eq_false_iff_ne] at hpass
    exact hpass.2 (hobj▸congrArg (fun i => (t.isTable i).ieObject) hslot)
  · rw [if_neg h0]
    refine ⟨_,rfl,fun name index hr => ?_,fun hr => (Option.some_ne_none _ hr).elim⟩
    cases hr
    rw [Bool.or_eq_true,beq_iff_eq,beq_iff_eq] at hstop
    exact ⟨(h.occupant _).mp ⟨h0,_,hlt,rfl⟩,hstop.resolve_left h0,rfl⟩

lemma insert (h : Hashed t s) {index : ℕ} (hpos : index≠0) (hlt : index<t.isTableSize)
    (hnew : index∉s) :
    ∃ t',ipcHashLocalInsert t (t.isTable index).ieObject index=some t' ∧ Relinked t t' ∧
      Hashed t' (Insert.insert index s) := by
  obtain ⟨p,hp,hp0⟩ := h.probed.gap
  have hstart : t.home index<t.isTableSize := h.home_lt index
  obtain ⟨k,hk,hstop,hfirst,hscan⟩ := exists_scan
    (fun hindex => (t.isTable hindex).ieIndex == 0) hstart hp
    (by rw [show (t.isTable p).ieIndex=0 from hp0]; rfl)
  have hnew' : ¬Occupant t.isTableSize t.slot index := fun ho => hnew ((h.occupant _).mp ho)
  have hempty : t.slot (after t.isTableSize (t.home index) k)=0 := beq_iff_eq.mp hstop
  have hprobed := h.probed.insert hpos hlt hstart hnew' (fun p hp => h.slot_lt hp)
    (hk.trans_lt (steps_lt hstart hp)) fun j hj => beq_eq_false_iff_ne.mp (hfirst j hj)
  have hlinks := Relinked.setIndex t (after t.isTableSize (t.home index) k) index
  refine ⟨t.setIndex (after t.isTableSize (t.home index) k) index,?_,hlinks,h.size,?_,
    fun i => ?_,fun i hi => ?_⟩
  · simp only [ipcHashLocalInsert]
    rw [show ihLocalHash (t.isTable index).ieObject t.isTableSize=t.home index from rfl,hscan]
  · rw [t.setIndex_slot,hlinks.home]
    exact hprobed
  · rw [t.setIndex_slot,t.setIndex_size,occupant_update hpos (after_lt h.size _ _) hempty,
      h.occupant,mem_insert_iff]
  · rw [t.setIndex_size]
    rcases hi with rfl | hi
    · exact hlt
    · exact h.range i hi

end Hashed

variable {t : IpcTable}

lemma fillHole_spec (fuel : ℕ) {h q : ℕ}
    (ht : Holed t.isTableSize t.slot t.home h) (hq : q<t.isTableSize) (hq0 : t.slot q=0)
    (hfuel : steps t.isTableSize h q≤fuel) : ∃ t',fillHole t fuel h=some t' ∧ Relinked t t' ∧
      Probed t'.isTableSize t'.slot t'.home ∧
      ∀ i,Occupant t'.isTableSize t'.slot i ↔ OtherOccupant t.isTableSize t.slot h i := by
  have hh := ht.hole.1
  have hn : 0<t.isTableSize := by omega
  have hhq : h≠q := fun heq => ht.hole.2 (heq▸hq0)
  have hsteps : steps t.isTableSize h q≠0 := fun h0 => hhq ((steps_eq_zero hh).mp h0)
  induction fuel generalizing t h with
  | zero => omega
  | succ fuel ih =>
    obtain ⟨k,hk,hstop,hfirst,hscan⟩ := exists_scan (clumpStop t h) (next_lt hh) hq
      (by rw [clumpStop,show (t.isTable q).ieIndex=0 from hq0]; rfl)
    have hsplit : steps t.isTableSize h q=1+steps t.isTableSize (next t.isTableSize h) q := by
      have hone := steps_after hh (show 1<t.isTableSize by omega)
      rw [after_one hh] at hone
      rw [←hone]
      exact steps_add hh (next_lt hh) hq (by omega)
    have hlast := steps_lt hh hq
    simp only [after_next hh] at hstop hfirst hscan
    obtain ⟨d,hd⟩ : ∃ d,d=after t.isTableSize h (k+1) := ⟨_,rfl⟩
    have hdlt : d<t.isTableSize := hd▸after_lt hn _ _
    have hhd : steps t.isTableSize h d=k+1 := by rw [hd,steps_after hh (by omega)]
    have hdh : d≠h := fun heq => by
      rw [(steps_eq_zero hh).mpr heq.symm] at hhd
      omega
    rw [←hd] at hstop hscan
    simp only [fillHole,hscan]
    have hlinks := Relinked.setIndex t h (t.isTable d).ieIndex
    by_cases hd0 : (t.isTable d).ieIndex=0
    · -- the clump ends here
      rw [if_pos hd0]
      refine ⟨_,rfl,hlinks,?_,fun i => ?_⟩
      · rw [hlinks.home,t.setIndex_slot,hd0,t.setIndex_size]
        refine ht.clear (e := k+1) (fun i => ihLocalHash_lt hn _) (hd▸hd0) fun j hj hjk => ?_
        have hpass := hfirst (j-1) (by omega)
        rw [Nat.sub_add_cancel hj,clumpStop,Bool.or_eq_false_iff] at hpass
        have hkept := (displaced_iff hh (ihLocalHash_lt hn _)).not.mp
          (ne_true_of_eq_false hpass.2)
        rw [steps_after hh (by omega)] at hkept
        exact not_le.mp hkept
      · rw [t.setIndex_slot,hd0,t.setIndex_size]
        exact occupant_clear i
    · -- the occupant of `d` goes to the hole
      rw [if_neg hd0]
      rw [clumpStop,Bool.or_eq_true,beq_iff_eq] at hstop
      have hdisplaced := (displaced_iff hh (ihLocalHash_lt hn _)).mp (hstop.resolve_left hd0)
      have hmoved := ht.move hdlt hdh hd0 hdisplaced
      have hslot : (t.setIndex h (t.isTable d).ieIndex).slot =
          update t.slot h (t.slot d) := t.setIndex_slot _ _
      have hq0' : (t.setIndex h (t.isTable d).ieIndex).slot q=0 := by
        rw [hslot,update_of_ne hhq.symm,hq0]
      have hrest := steps_add hh hdlt hq (by omega)
      have hdq : d≠q := fun heq => hd0 (show t.slot d=0 by rw [heq,hq0])
      obtain ⟨t',ht',hlinks',hprobed,hocc⟩ := ih (t := t.setIndex h (t.isTable d).ieIndex)
        (h := d) (by rw [hlinks.home,hslot]; exact hmoved) hq hq0' (by
          rw [t.setIndex_size]
          omega) hdlt hn hdq fun h0 => hdq ((steps_eq_zero hdlt).mp h0)
      refine ⟨t',ht',hlinks.trans hlinks',hprobed,fun i => ?_⟩
      rw [hocc,hslot,t.setIndex_size]
      exact ht.otherOccupant_move hdlt hdh i

lemma Hashed.delete {s : Set ℕ} (h : Hashed t s) {index : ℕ} (hmem : index∈s) :
    ∃ t',ipcHashLocalDelete t (t.isTable index).ieObject index=some t' ∧ Relinked t t' ∧
      Hashed t' (s \ {index}) := by
  obtain ⟨hne,p,hp,hslot⟩ := (h.occupant index).mpr hmem
  have hstart : t.home index<t.isTableSize := h.home_lt index
  obtain ⟨k,-,hstop,-,hscan⟩ := exists_scan
    (fun hindex => (t.isTable hindex).ieIndex == index) hstart hp (beq_iff_eq.mpr hslot)
  obtain ⟨d,hd⟩ : ∃ d,d=after t.isTableSize (t.home index) k := ⟨_,rfl⟩
  rw [←hd] at hstop hscan
  have hdlt : d<t.isTableSize := hd▸after_lt h.size _ _
  have hdslot : t.slot d=index := beq_iff_eq.mp hstop
  obtain ⟨q,hq,hq0⟩ := h.probed.gap
  obtain ⟨t',ht',hlinks,hprobed,hocc⟩ := fillHole_spec t.isTableSize
    (h.probed.holed hdlt (hdslot▸hne)) hq hq0 (steps_lt hdlt hq).le
  refine ⟨t',?_,hlinks,hlinks.size▸h.size,hprobed,fun i => ?_,fun i hi => ?_⟩
  · simp only [ipcHashLocalDelete]
    rw [show ihLocalHash (t.isTable index).ieObject t.isTableSize=t.home index from rfl,hscan]
    exact ht'
  · rw [hocc,h.probed.otherOccupant_iff hdlt,h.occupant,hdslot,mem_sdiff,mem_singleton_iff]
  · rw [hlinks.size]
    exact h.range i hi.1

/-- What the space does to an entry between two calls: its object stays while the entry is in
the reverse hash table, its link is left alone. -/
def IpcTable.writeEntry (t : IpcTable) (index : ℕ) (entry : IpcEntry) : IpcTable :=
  t.setEntry index {entry with ieIndex := (t.isTable index).ieIndex}

/-- The runs of a table, with the indices that are inserted and not deleted since. -/
inductive HashRun : IpcTable → Set ℕ → Prop
  | start {t : IpcTable} (hsize : 0<t.isTableSize)
      (hempty : ∀ p,p<t.isTableSize → (t.isTable p).ieIndex=0) : HashRun t ∅
  | insert {t t' : IpcTable} {s : Set ℕ} (index : ℕ) (hrun : HashRun t s) (hpos : index≠0)
      (hlt : index<t.isTableSize) (hnew : index∉s)
      (hcall : ipcHashLocalInsert t (t.isTable index).ieObject index=some t') :
      HashRun t' (Insert.insert index s)
  | delete {t t' : IpcTable} {s : Set ℕ} (index : ℕ) (hrun : HashRun t s) (hmem : index∈s)
      (hcall : ipcHashLocalDelete t (t.isTable index).ieObject index=some t') :
      HashRun t' (s \ {index})
  | write {t : IpcTable} {s : Set ℕ} (index : ℕ) (entry : IpcEntry) (hrun : HashRun t s)
      (hkeep : index∈s → entry.ieObject=(t.isTable index).ieObject) :
      HashRun (t.writeEntry index entry) s

lemma IpcTable.writeEntry_slot (t : IpcTable) (index : ℕ) (entry : IpcEntry) :
    (t.writeEntry index entry).slot=t.slot := by
  funext i
  change (update t.isTable index _ i).ieIndex=(t.isTable i).ieIndex
  by_cases h : i=index
  · rw [h,update_self]
  · rw [update_of_ne h]

lemma IpcTable.writeEntry_home {index i : ℕ} {entry : IpcEntry}
    (hkeep : i=index → entry.ieObject=(t.isTable index).ieObject) :
    (t.writeEntry index entry).home i=t.home i := by
  change ihLocalHash (update t.isTable index _ i).ieObject t.isTableSize=_
  by_cases h : i=index
  · rw [h,update_self,hkeep h,IpcTable.home]
  · rw [update_of_ne h,IpcTable.home]

lemma Hashed.write {s : Set ℕ} (h : Hashed t s) {index : ℕ} {entry : IpcEntry}
    (hkeep : index∈s → entry.ieObject=(t.isTable index).ieObject) :
    Hashed (t.writeEntry index entry) s := by
  have hslot := t.writeEntry_slot index entry
  have hsize : (t.writeEntry index entry).isTableSize=t.isTableSize := rfl
  refine ⟨h.size,?_,fun i => ?_,h.range⟩
  · rw [hslot,hsize]
    refine ⟨h.probed.inj,fun p hp hne k hk => ?_,h.probed.gap⟩
    have hmem : t.slot p∈s := (h.occupant _).mp ⟨hne,p,hp,rfl⟩
    have hhome : (t.writeEntry index entry).home (t.slot p)=t.home (t.slot p) :=
      IpcTable.writeEntry_home fun heq => hkeep (heq▸hmem)
    rw [hhome] at hk ⊢
    exact h.probed.path p hp hne k hk
  · rw [hslot,hsize]
    exact h.occupant i

lemma HashRun.hashed {s : Set ℕ} (h : HashRun t s) : Hashed t s := by
  induction h with
  | start hsize hempty =>
    refine ⟨hsize,⟨fun p _ hp _ hne => absurd (hempty p hp) hne,
      fun p hp hne => absurd (hempty p hp) hne,0,hsize,hempty 0 hsize⟩,fun i => ?_,
      fun i hi => absurd hi (notMem_empty i)⟩
    refine ⟨fun ⟨hi,p,hp,hslot⟩ => ?_,fun hi => absurd hi (notMem_empty i)⟩
    exact absurd (hslot▸hempty p hp) hi
  | insert index _ hpos hlt hnew hcall ih =>
    obtain ⟨t',ht',-,hhashed⟩ := ih.insert hpos hlt hnew
    rw [hcall] at ht'
    cases ht'
    exact hhashed
  | delete index _ hmem hcall ih =>
    obtain ⟨t',ht',-,hhashed⟩ := ih.delete hmem
    rw [hcall] at ht'
    cases ht'
    exact hhashed
  | write index entry _ hkeep ih => exact ih.write hkeep

/-- In every run each call ends, and a lookup finds an index of the object exactly when one is
inserted and not deleted since. -/
theorem hashRun_correct {t : IpcTable} {s : Set ℕ} (h : HashRun t s) :
    (∀ obj,∃ r,ipcHashLocalLookup t obj=some r ∧
      (∀ name index,r=some (name,index) → index∈s ∧ (t.isTable index).ieObject=obj ∧
        name=machPortMake index (ieBitsGen (t.isTable index).ieBits)) ∧
      (r=none → ∀ index,index∈s → (t.isTable index).ieObject≠obj)) ∧
    (∀ index,index≠0 → index<t.isTableSize → index∉s →
      ∃ t',ipcHashLocalInsert t (t.isTable index).ieObject index=some t') ∧
    ∀ index,index∈s → ∃ t',ipcHashLocalDelete t (t.isTable index).ieObject index=some t' := by
  have hs := h.hashed
  refine ⟨hs.lookup,fun index hpos hlt hnew => ?_,fun index hmem => ?_⟩
  · obtain ⟨t',ht',-⟩ := hs.insert hpos hlt hnew
    exact ⟨t',ht'⟩
  · obtain ⟨t',ht',-⟩ := hs.delete hmem
    exact ⟨t',ht'⟩

def clashTable : IpcTable where
  isTableSize := 4
  isTable i := ⟨BitVec.ofNat 32 (if i=1 then 0xc0 else if i=2 then 0x1c0 else 0),0,0,0⟩

def clashTable' : IpcTable :=
  (((clashTable.setIndex 3 1).setIndex 0 2).setIndex 3 2).setIndex 0 0

def clashSet : Set ℕ := Insert.insert 2 (Insert.insert 1 ∅) \ {1}

lemma clashTable_run : HashRun clashTable' clashSet := by
  have hstart : HashRun clashTable ∅ := .start (by decide) fun _ _ => rfl
  have hfirst : HashRun (clashTable.setIndex 3 1) (Insert.insert 1 ∅) :=
    .insert 1 hstart (by decide) (by decide) (notMem_empty 1) rfl
  have hsecond : HashRun ((clashTable.setIndex 3 1).setIndex 0 2)
      (Insert.insert 2 (Insert.insert 1 ∅)) :=
    .insert 2 hfirst (by decide) (by decide) (by simp) rfl
  exact .delete 1 hsecond (by simp) rfl

theorem hashRun_correct_clashTable : (∃ r,ipcHashLocalLookup clashTable' 0x1c0=some r ∧
      (∀ name index,r=some (name,index) → index∈clashSet ∧
        (clashTable'.isTable index).ieObject=0x1c0 ∧
        name=machPortMake index (ieBitsGen (clashTable'.isTable index).ieBits)) ∧
      (r=none → ∀ index,index∈clashSet → (clashTable'.isTable index).ieObject≠0x1c0)) :=
  (hashRun_correct clashTable_run).1 0x1c0

example : ipcHashLocalLookup clashTable' 0x1c0=some (some (machPortMake 2 0,2)) := by decide

end Darwin.Ipc
