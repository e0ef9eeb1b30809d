import Darwin.Hfs.BTree.NodeRecords

/-! Insertions and deletions in a node's buffer are insertions and deletions in its list of records.
`InsertKeyRecord` clears as many bytes too many as the length field has: they are the first of the
data, or of what comes behind the new record where that has no data. -/
open List Option Nat UInt8
namespace Darwin.Hfs.NodeImage

def keyBytes (b : ControlBlock) (keyPtr : Memory) (keyLength : ℕ) : List UInt8 :=
  (if b.bigKeys then [ofNat (keyLength/256),ofNat keyLength]
    else [ofNat keyLength]) ++ (bytesAt keyPtr (sizeOfLength b) (rawKeyLength b keyPtr) ++
    replicate (keySizeOf b keyLength-sizeOfLength b-rawKeyLength b keyPtr) 0)

/-- Callers pass the length of the key or, for keys of fixed length, `maxKeyLength`. No key is longer
than `kMaxKeyLength`, which is 520, and a length field of one byte has no more than 255. -/
structure KeyGiven (b : ControlBlock) (keyPtr : Memory) (keyLength : ℕ) : Prop where
  raw : rawKeyLength b keyPtr≤keyLength
  limit : keyLength ≤ if b.bigKeys then 65532 else 255

/-- A call has put this key and this data before the record `index`, and a deletion after it gives the
old list and the old free size. -/
structure ListInserted (b : ControlBlock) (m : Memory) (index : ℕ)
    (record : List UInt8 × List UInt8) (result : Bool × Memory) : Prop where
  fits : result.1=true
  inserted : records b result.2=(records b m).insertIdx index record
  wellFormed : recordKeySize b record.1=record.1.length → WellFormed b result.2
  restored : records b (deleteRecord b index result.2)=records b m
  freeSize : getNodeFreeSize b (deleteRecord b index result.2)=getNodeFreeSize b m

/-- What is promised of the three functions at one index: of every record that fits. -/
structure EditsList (b : ControlBlock) (m : Memory) (index : ℕ) (keyPtr : Memory) (keyLength : ℕ)
    (recPtr : Memory) (recSize : ℕ) : Prop where
  insertRecord : recSize+2≤getNodeFreeSize b m → ListInserted b m index
    (splitRecord b (bytesAt recPtr 0 recSize)) (insertRecord b index recPtr recSize m)
  insertKeyRecord : keySizeOf b keyLength+recSize+2≤getNodeFreeSize b m →
    ListInserted b m index (keyBytes b keyPtr keyLength,bytesAt recPtr 0 recSize)
      (insertKeyRecord b index keyPtr keyLength recPtr recSize m)
  deleteRecord : index<numRecords m → WellFormed b (deleteRecord b index m) ∧
    records b (deleteRecord b index m)=(records b m).eraseIdx index

section Keys
variable {b : ControlBlock} {keyPtr : Memory} {keyLength : ℕ}

lemma sizeOfLength_cases (b : ControlBlock) :
    (b.bigKeys=true ∧ sizeOfLength b=2) ∨ (b.bigKeys=false ∧ sizeOfLength b=1) := by
  cases hbig : b.bigKeys <;> simp [sizeOfLength,hbig]

lemma sizeOfLength_one_or_two (b : ControlBlock) : sizeOfLength b=1 ∨ sizeOfLength b=2 := by
  rcases sizeOfLength_cases b with ⟨-,hs⟩ | ⟨-,hs⟩ <;> omega

lemma KeyGiven.keySizeOf_eq (h : KeyGiven b keyPtr keyLength) : keySizeOf b keyLength =
    keyLength+sizeOfLength b+(keyLength+sizeOfLength b)%2 := by
  have hlimit := h.limit
  rw [keySizeOf]
  rcases sizeOfLength_cases b with ⟨hbig,hs⟩ | ⟨hbig,hs⟩
  · rw [hbig,if_pos rfl] at hlimit
    rw [hs]
    split_ifs <;> omega
  · rw [hbig,if_neg Bool.false_ne_true] at hlimit
    rw [hs]
    split_ifs <;> omega

lemma KeyGiven.length_keyBytes (h : KeyGiven b keyPtr keyLength) :
    (keyBytes b keyPtr keyLength).length=keySizeOf b keyLength := by
  have hraw := h.raw
  have hsize := h.keySizeOf_eq
  rw [keyBytes,length_append,length_append,length_bytesAt,length_replicate]
  rcases sizeOfLength_cases b with ⟨hbig,hs⟩ | ⟨hbig,hs⟩
  · rw [if_pos hbig,length_cons,length_singleton]
    omega
  · rw [hbig,if_neg Bool.false_ne_true,length_singleton]
    omega

lemma KeyGiven.complete (h : KeyGiven b keyPtr keyLength) :
    recordKeySize b (keyBytes b keyPtr keyLength)=(keyBytes b keyPtr keyLength).length := by
  have hlimit := h.limit
  rw [h.length_keyBytes,h.keySizeOf_eq,recordKeySize,keyBytes]
  rcases sizeOfLength_cases b with ⟨hbig,hs⟩ | ⟨hbig,hs⟩
  · rw [hbig,if_pos rfl] at hlimit
    simp only [hbig,hs,if_true,cons_append,getD_cons_zero,getD_cons_succ,toNat_ofNat']
    omega
  · rw [hbig,if_neg Bool.false_ne_true] at hlimit
    simp only [hbig,hs,Bool.false_eq_true,if_false,cons_append,getD_cons_zero,toNat_ofNat']
    omega

lemma two_le_recordKeySize (b : ControlBlock) (record : List UInt8) : 2≤recordKeySize b record := by
  rw [recordKeySize]
  split_ifs <;> omega

lemma recordKeySize_append {key : List UInt8} (h : recordKeySize b key=key.length)
    (data : List UInt8) : recordKeySize b (key++data)=key.length := by
  have htwo := two_le_recordKeySize b key
  have hfront : ∀ i<2,(key++data).getD i 0=key.getD i 0 := by
    intro i hi
    rw [getD_eq_getElem?_getD,getD_eq_getElem?_getD,
      getElem?_append_left (by omega)]
  rw [←h,recordKeySize,recordKeySize,hfront 0 (by decide),hfront 1 (by decide)]

lemma splitRecord_append {key : List UInt8} (h : recordKeySize b key=key.length)
    (data : List UInt8) : splitRecord b (key++data)=(key,data) := by
  rw [splitRecord,recordKeySize_append h,take_left,drop_left]

lemma recordKeySize_le {record : List UInt8}
    (h : recordKeySize b (splitRecord b record).1=(splitRecord b record).1.length) :
    recordKeySize b record≤record.length := by
  by_contra hlt
  rw [splitRecord] at h
  dsimp only at h
  rw [take_of_length_le (by omega)] at h
  omega

end Keys

section List
variable {b : ControlBlock} {m m' : Memory} {index size : ℕ}

lemma records_insertIdx {record : List UInt8}
    (h : rawRecords b m'=(rawRecords b m).insertIdx index record) :
    records b m'=(records b m).insertIdx index (splitRecord b record) := by
  rw [records,records,h,map_insertIdx]

lemma listInserted (hwf : WellFormed b m) (hindex : index≤numRecords m) {record : List UInt8}
    (heven : record.length%2=0) (hfit : record.length+2≤getNodeFreeSize b m)
    (h : Opened b m m' index record.length)
    (hrecord : bytesAt m' (getRecordOffset b m index) record.length=record) :
    ListInserted b m index (splitRecord b record) (true,m') := by
  have hfree := hwf.getNodeFreeSize_eq
  have hord : Ordered b m' := h.ordered hwf.toOrdered hindex heven (by omega)
  have hraw : rawRecords b m'=(rawRecords b m).insertIdx index record := by
    rw [h.rawRecords_eq hwf.toOrdered hindex,hrecord]
  have hcount := h.count
  have hclosed : Closed b m' (deleteRecord b index m') index :=
    deleteRecord_closed hord (by omega)
  have hrestored : rawRecords b (deleteRecord b index m')=rawRecords b m := by
    rw [hclosed.rawRecords_eq hord (by omega),hraw,eraseIdx_insertIdx_self]
  refine ⟨rfl,records_insertIdx hraw,fun hkey => ?_,?_,?_⟩
  · have hroom := recordKeySize_le hkey
    have htwo := two_le_recordKeySize b record
    refine ⟨hord,fun i hi => ?_,fun r hr => ?_⟩
    · dsimp only at hi
      rw [hcount] at hi
      rcases lt_trichotomy i index with hlt | rfl | hgt
      · rw [h.before i hlt.le,h.before (i+1) hlt]
        exact hwf.ascending i (by omega)
      · rw [h.before i (le_refl i),h.behind i (le_refl i) hindex]
        omega
      · obtain ⟨j,rfl⟩ : ∃ j,i=j+1 := ⟨i-1,by omega⟩
        rw [h.behind j (by omega) (by omega),h.behind (j+1) (by omega) (by omega)]
        exact Nat.add_lt_add_right (hwf.ascending j (by omega)) _
    · rw [hraw] at hr
      rcases eq_or_mem_of_mem_insertIdx hr with rfl | hr
      · exact hroom
      · exact hwf.keys r hr
  · rw [records,records,hrestored]
  · have hbehind := hclosed.behind (numRecords m) hindex (by omega)
    rw [h.behind index (le_refl _) hindex,h.behind _ hindex (le_refl _),
      h.before index (le_refl _)] at hbehind
    have hdeleted := (hclosed.ordered hord (by omega)).getNodeFreeSize_eq
    have hcount' := hclosed.count
    rw [show numRecords (deleteRecord b index m')=numRecords m by omega] at hdeleted
    dsimp only
    omega

lemma listDeleted (hwf : WellFormed b m) (hindex : index<numRecords m) :
    WellFormed b (deleteRecord b index m) ∧
      records b (deleteRecord b index m)=(records b m).eraseIdx index := by
  have h := deleteRecord_closed hwf.toOrdered hindex
  have hraw := h.rawRecords_eq hwf.toOrdered hindex
  have hcount := h.count
  refine ⟨⟨h.ordered hwf.toOrdered hindex,fun i hi => ?_,fun r hr => ?_⟩,?_⟩
  · rcases lt_or_ge i index with hlt | hge
    · rw [h.before i hlt.le,h.before (i+1) hlt]
      exact hwf.ascending i (by omega)
    · have hthis := h.behind i hge (by omega)
      have hnext := h.behind (i+1) (by omega) (by omega)
      have := hwf.ascending (i+1) (by omega)
      omega
  · rw [hraw] at hr
    exact hwf.keys r (mem_of_mem_eraseIdx hr)
  · rw [records,records,hraw,eraseIdx_map]

lemma insertRecord_listInserted (hwf : WellFormed b m) (hindex : index≤numRecords m)
    {recPtr : Memory} {recSize : ℕ} (heven : recSize%2=0)
    (hfit : recSize+2≤getNodeFreeSize b m) : ListInserted b m index
      (splitRecord b (bytesAt recPtr 0 recSize)) (insertRecord b index recPtr recSize m) := by
  have hfree := hwf.getNodeFreeSize_eq
  have hle := hwf.offset_mono hindex (le_refl _)
  have hfirst := hwf.first_le hindex
  rw [sizeofBTNodeDescriptor] at hfirst
  rw [insertRecord,if_neg (by omega)]
  refine listInserted hwf hindex (by simpa using heven) (by simpa using hfit) ?_ ?_
  · rw [length_bytesAt]
    refine (makeHole_opened hwf.toOrdered hindex (by omega)).agree ⟨?_,?_⟩ (fun a ha ha' => ?_)
      (fun a ha ha' => ?_) (fun a ha => ?_) hindex
    all_goals exact moveBytes_other (by omega)
  · rw [length_bytesAt]
    refine bytesAt_congr fun k hk => ?_
    rw [moveBytes_moved (by omega) (by omega)]
    exact congrArg recPtr (by ring)

end List

/-! ### A record with a key -/

/-- What `InsertKeyRecord` leaves: the record, and zeros behind a key without data. -/
structure KeyWritten (b : ControlBlock) (hole m' : Memory) (start : ℤ) (keyPtr : Memory)
    (keyLength : ℕ) (recPtr : Memory) (recSize : ℕ) : Prop where
  record : bytesAt m' start (keySizeOf b keyLength+recSize) =
    keyBytes b keyPtr keyLength++bytesAt recPtr 0 recSize
  other : ∀ a : ℤ,a<start ∨ start+keySizeOf b keyLength+recSize≤a →
    recSize≠0 ∨ a<start ∨ start+keySizeOf b keyLength+sizeOfLength b≤a → m' a=hole a
  cleared : recSize=0 → ∀ a : ℤ,start+keySizeOf b keyLength≤a →
    a<start+keySizeOf b keyLength+sizeOfLength b → m' a=0

section KeyRecord
variable {b : ControlBlock} {m hole : Memory} {index : ℕ} {keyPtr recPtr : Memory}
  {keyLength recSize : ℕ}

lemma bytesAt_lengthField {withLength : Memory} {start : ℤ}
    (h : withLength=if b.bigKeys then writeUInt16 start keyLength hole
      else writeUInt8 start keyLength hole) : bytesAt withLength start (sizeOfLength b) =
      if b.bigKeys then [ofNat (keyLength/256),ofNat keyLength]
      else [ofNat keyLength] := by
  rcases sizeOfLength_cases b with ⟨hbig,hs⟩ | ⟨hbig,hs⟩
  · rw [hbig,if_pos rfl] at h
    rw [hbig,if_pos rfl,hs,h]
    simp [bytesAt,range_succ,writeUInt16]
  · rw [hbig,if_neg Bool.false_ne_true] at h
    rw [hbig,if_neg Bool.false_ne_true,hs,h]
    simp [bytesAt,range_succ,writeUInt8]

lemma insertKeyRecord_written (hkey : KeyGiven b keyPtr keyLength) (heven : recSize%2=0)
    (hfit : keySizeOf b keyLength+recSize+2≤getNodeFreeSize b m) :
    ∃ m',insertKeyRecord b index keyPtr keyLength recPtr recSize m=(true,m') ∧
      KeyWritten b (makeHole b index (keySizeOf b keyLength+recSize) m) m'
        (getRecordOffset b m index) keyPtr keyLength recPtr recSize := by
  have hraw := hkey.raw
  have hsize := hkey.keySizeOf_eq
  have hlimit : keySizeOf b keyLength<2^16 := by
    rw [keySizeOf]
    split_ifs <;> omega
  have hs := sizeOfLength_one_or_two b
  have hbytes : (2^16+keySizeOf b keyLength-rawKeyLength b keyPtr)%2^16 =
      keySizeOf b keyLength-rawKeyLength b keyPtr := by
    omega
  obtain ⟨start,hstart⟩ : ∃ start : ℤ,start=getRecordOffset b m index := ⟨_,rfl⟩
  obtain ⟨withLength,hlength⟩ : ∃ withLength : Memory,withLength =
      if b.bigKeys then
        writeUInt16 start keyLength (makeHole b index (keySizeOf b keyLength+recSize) m)
      else writeUInt8 start keyLength (makeHole b index (keySizeOf b keyLength+recSize) m) :=
    ⟨_,rfl⟩
  obtain ⟨m',hm⟩ : ∃ m' : Memory,m'=moveBytes recPtr 0 (start+keySizeOf b keyLength) recSize
      (clearMemory (start+sizeOfLength b+rawKeyLength b keyPtr)
        (keySizeOf b keyLength-rawKeyLength b keyPtr)
        (moveBytes keyPtr (sizeOfLength b) (start+sizeOfLength b) (rawKeyLength b keyPtr)
          withLength)) := ⟨_,rfl⟩
  have hfield : ∀ a : ℤ,a<start+sizeOfLength b ∨
      (start+keySizeOf b keyLength+sizeOfLength b≤a ∨ recSize≠0 ∧
        start+keySizeOf b keyLength≤a) ∧ start+keySizeOf b keyLength+recSize≤a →
      m' a=withLength a := by
    intro a ha
    rw [hm,moveBytes_other (by omega),clearMemory_other (by omega),moveBytes_other (by omega)]
  have hcopied : ∀ a : ℤ,start+sizeOfLength b≤a →
      a<start+sizeOfLength b+rawKeyLength b keyPtr → m' a=keyPtr (a-start) := by
    intro a ha ha'
    rw [hm,moveBytes_other (by omega),clearMemory_other (by omega),moveBytes_moved (by omega) ha']
    exact congrArg keyPtr (by ring)
  have hcleared : ∀ a : ℤ,start+sizeOfLength b+rawKeyLength b keyPtr≤a →
      a<start+keySizeOf b keyLength+sizeOfLength b →
      recSize=0 ∨ a<start+keySizeOf b keyLength → m' a=0 := by
    intro a ha ha' hdata
    rw [hm,moveBytes_other (by omega),clearMemory,if_pos (by omega)]
  have hwithLength : ∀ a : ℤ,a<start ∨ start+sizeOfLength b≤a → withLength a =
      makeHole b index (keySizeOf b keyLength+recSize) m a := by
    intro a ha
    rw [hlength]
    rcases sizeOfLength_cases b with ⟨hbig,hs⟩ | ⟨hbig,hs⟩
    · rw [hbig,if_pos rfl,writeUInt16_other (by omega)]
    · rw [hbig,if_neg Bool.false_ne_true,writeUInt8,if_neg (by omega)]
  refine ⟨m',?_,?_,fun a ha ha' => ?_,fun h0 a ha ha' => ?_⟩
  · rw [insertKeyRecord,if_neg (by omega),hbytes]
    dsimp only
    rw [if_pos (show keySizeOf b keyLength-rawKeyLength b keyPtr≠0 by omega),←hstart,
      ← hlength,←hm]
  · rw [show keySizeOf b keyLength+recSize=sizeOfLength b+(rawKeyLength b keyPtr +
      (keySizeOf b keyLength-sizeOfLength b-rawKeyLength b keyPtr))+recSize by omega,
      bytesAt_add,bytesAt_add,bytesAt_add,keyBytes,←hstart]
    refine congrArg₂ (· ++ ·) (congrArg₂ (· ++ ·) ?_ (congrArg₂ (· ++ ·) ?_ ?_)) ?_
    · rw [←bytesAt_lengthField hlength]
      exact bytesAt_congr fun k hk => hfield _ (.inl (by omega))
    · refine bytesAt_congr fun k hk => ?_
      rw [hcopied _ (by omega) (by omega)]
      exact congrArg keyPtr (by ring)
    · refine ext_getElem (by simp) fun k hk hk' => ?_
      rw [length_bytesAt] at hk
      rw [getElem_bytesAt,getElem_replicate]
      exact hcleared _ (by omega) (by omega) (.inr (by omega))
    · refine bytesAt_congr fun k hk => ?_
      rw [hm,moveBytes_moved (by omega) (by omega)]
      exact congrArg recPtr (by omega)
  · rw [←hstart] at ha ha'
    by_cases hlt : a<start
    · rw [hfield a (.inl (by omega)),hwithLength a (.inl hlt)]
    · rw [hfield a (.inr ⟨by omega,by omega⟩),hwithLength a (.inr (by omega))]
  · rw [←hstart] at ha ha'
    exact hcleared a (by omega) ha' (.inl h0)

lemma calcKeySize_eq_sizeOfLength {a : ℤ} : calcKeySize b m a=sizeOfLength b ↔
    ∀ x : ℤ,a≤x → x<a+sizeOfLength b → m x=0 := by
  rcases sizeOfLength_cases b with ⟨hbig,hs⟩ | ⟨hbig,hs⟩
  · rw [calcKeySize,hbig,if_pos rfl,hs,readUInt16,readUInt8,readUInt8]
    constructor
    · intro h x hx hx'
      have hzero : (m a).toNat=0 ∧ (m (a+1)).toNat=0 := by omega
      obtain rfl | rfl : x=a ∨ x=a+1 := by omega
      · exact UInt8.toNat_inj.mp hzero.1
      · exact UInt8.toNat_inj.mp hzero.2
    · intro h
      rw [h a (Int.le_refl a) (by omega),h (a+1) (by omega) (by omega)]
      rfl
  · rw [calcKeySize,hbig,if_neg Bool.false_ne_true,hs,readUInt8]
    constructor
    · intro h x hx hx'
      obtain rfl : x=a := by omega
      exact UInt8.toNat_inj.mp (show (m x).toNat=0 by omega)
    · intro h
      rw [h a (Int.le_refl a) (by omega)]
      rfl

/-- What is cleared behind the key is data of the record, or it is zero or free. -/
def ClearsNothing (b : ControlBlock) (m : Memory) (index keyLength recSize : ℕ) : Prop :=
  recSize≠0 ∨ (index<numRecords m ∧ calcKeySize b m (getRecordOffset b m index)=sizeOfLength b) ∨
    index=numRecords m ∧ keySizeOf b keyLength+2<getNodeFreeSize b m

variable {m' : Memory}

lemma KeyWritten.listInserted (hwf : WellFormed b m) (hindex : index≤numRecords m)
    (hkey : KeyGiven b keyPtr keyLength) (heven : recSize%2=0)
    (hfit : keySizeOf b keyLength+recSize+2≤getNodeFreeSize b m)
    (hclears : ClearsNothing b m index keyLength recSize)
    (h : KeyWritten b (makeHole b index (keySizeOf b keyLength+recSize) m) m'
      (getRecordOffset b m index) keyPtr keyLength recPtr recSize) :
    ListInserted b m index (keyBytes b keyPtr keyLength,bytesAt recPtr 0 recSize) (true,m') := by
  have hfree := hwf.getNodeFreeSize_eq
  have hle := hwf.offset_mono hindex (le_refl _)
  have hfirst := hwf.first_le hindex
  have hnodeEven := nodeSize_even b
  have hlastEven := hwf.even _ (le_refl _)
  rw [sizeofBTNodeDescriptor] at hfirst
  have hsize := hkey.keySizeOf_eq
  have hs := sizeOfLength_one_or_two b
  have hlength : (keyBytes b keyPtr keyLength++bytesAt recPtr 0 recSize).length =
      keySizeOf b keyLength+recSize := by
    rw [length_append,hkey.length_keyBytes,length_bytesAt]
  have hhole := makeHole_opened hwf.toOrdered hindex
    (show getRecordOffset b m (numRecords m)+(keySizeOf b keyLength+recSize) +
      2*(numRecords m+2)≤b.nodeSize by omega)
  rw [←splitRecord_append hkey.complete (bytesAt recPtr 0 recSize)]
  refine NodeImage.listInserted hwf hindex (by omega) (by omega) ?_ ?_
  · rw [hlength]
    have hroom : recSize≠0 ∨ getRecordOffset b m index+keySizeOf b keyLength +
        sizeOfLength b+2*(numRecords m+2)≤b.nodeSize := by
      rcases hclears with hdata | ⟨hlt,-⟩ | ⟨rfl,hroom⟩
      · exact .inl hdata
      · have hnext := hwf.ascending index hlt
        have hlast := hwf.offset_mono (show index+1≤numRecords m from hlt) (le_refl _)
        have heven' := hwf.even index hlt.le
        have heven'' := hwf.even (index+1) hlt
        exact .inr (by omega)
      · exact .inr (by omega)
    refine hhole.agree ⟨h.other _ (.inl (by omega)) (.inr (.inl (by omega))),
      h.other _ (.inl (by omega)) (.inr (.inl (by omega)))⟩
      (fun a ha ha' => h.other a (.inl ha') (.inr (.inl ha'))) (fun a ha ha' => ?_)
      (fun a ha => h.other a (.inr (by omega)) (by omega)) hindex
    -- the record behind the new one: either nothing of it is cleared, or only zeros are
    rcases hclears with hdata | ⟨hlt,hempty⟩ | ⟨rfl,-⟩
    · exact h.other a (.inr (by omega)) (.inl hdata)
    · by_cases hbehind : getRecordOffset b m index+keySizeOf b keyLength+sizeOfLength b≤a
      · exact h.other a (.inr (by omega)) (.inr (.inr hbehind))
      by_cases hdata : recSize=0
      · have hzero := calcKeySize_eq_sizeOfLength.mp hempty (a-keySizeOf b keyLength) (by omega)
          (by omega)
        rw [h.cleared hdata a (by omega) (by omega),←hzero,
          ← hhole.moved (a-keySizeOf b keyLength) (by omega) (by omega)]
        exact congrArg _ (by omega)
      · exact h.other a (.inr (by omega)) (.inl hdata)
    · omega
  · rw [hlength]
    exact h.record

lemma KeyWritten.next_empty (hwf : WellFormed b m)
    (hfit : keySizeOf b keyLength+2≤getNodeFreeSize b m) (hindex : index<numRecords m)
    (h : KeyWritten b (makeHole b index (keySizeOf b keyLength+0) m) m'
      (getRecordOffset b m index) keyPtr keyLength recPtr 0) {record : List UInt8}
    (hraw : rawRecords b m'=(rawRecords b m).insertIdx index record) :
    calcKeySize b m (getRecordOffset b m index)=sizeOfLength b := by
  have hfree := hwf.getNodeFreeSize_eq
  have hfirst := hwf.first_le hindex.le
  rw [sizeofBTNodeDescriptor] at hfirst
  have hnext := hwf.ascending index hindex
  have hlast := hwf.offset_mono (show index+1≤numRecords m from hindex) (le_refl _)
  have heven := hwf.even index hindex.le
  have heven' := hwf.even (index+1) hindex
  have hs := sizeOfLength_one_or_two b
  have hhole := makeHole_opened hwf.toOrdered hindex.le
    (show getRecordOffset b m (numRecords m)+(keySizeOf b keyLength+0) +
      2*(numRecords m+2)≤b.nodeSize by omega)
  have hoffset : ∀ i≤numRecords m+1,getRecordOffset b m' i =
      getRecordOffset b (makeHole b index (keySizeOf b keyLength+0) m) i := by
    intro i hi
    rw [getRecordOffset_eq,getRecordOffset_eq]
    refine readUInt16_congr (h.other _ (.inr ?_) (.inr (.inr ?_)))
      (h.other _ (.inr ?_) (.inr (.inr ?_))) <;> rw [getOffsetAddress] <;> omega
  have hsame : rawRecord b m' (index+1)=rawRecord b m index := by
    have hget : (rawRecords b m')[index+1]?=(rawRecords b m)[index]? := by
      rw [hraw,List.getElem?_insertIdx_of_gt (Nat.lt_add_one index),Nat.add_sub_cancel]
    have hcount : numRecords m'=numRecords m+1 := by
      have hlength := congrArg List.length hraw
      rwa [length_rawRecords,length_insertIdx_of_le_length (by simpa using hindex.le),
        length_rawRecords] at hlength
    rw [getElem?_eq_getElem (by rw [length_rawRecords]; omega),
      getElem?_eq_getElem (by rwa [length_rawRecords]),some_inj,
      getElem_rawRecords,getElem_rawRecords] at hget
    exact hget
  rw [rawRecord,rawRecord,hoffset (index+1) (by omega),hoffset (index+1+1) (by omega),
    hhole.behind index (le_refl _) hindex.le,hhole.behind (index+1) (by omega) hindex,
    Nat.add_sub_add_right] at hsame
  refine calcKeySize_eq_sizeOfLength.mpr fun x hx hx' => ?_
  obtain ⟨k,rfl⟩ : ∃ k : ℕ,x=getRecordOffset b m index+k :=
    ⟨(x-getRecordOffset b m index).toNat,by omega⟩
  have hbyte := congrArg (fun l : List UInt8 => l[k]?) hsame
  rw [getElem?_eq_getElem (by rw [length_bytesAt]; omega),
    getElem?_eq_getElem (by rw [length_bytesAt]; omega),some_inj,getElem_bytesAt,
    getElem_bytesAt] at hbyte
  rw [←hbyte]
  exact h.cleared rfl _ (by omega) (by omega)

lemma KeyWritten.room_behind (hwf : WellFormed b m) (hkey : KeyGiven b keyPtr keyLength)
    (hfit : keySizeOf b keyLength+2≤getNodeFreeSize b m)
    (h : KeyWritten b (makeHole b (numRecords m) (keySizeOf b keyLength+0) m) m'
      (getRecordOffset b m (numRecords m)) keyPtr keyLength recPtr 0) {record : List UInt8}
    (hrecord : record.length=keySizeOf b keyLength)
    (hraw : rawRecords b m'=(rawRecords b m).insertIdx (numRecords m) record) :
    keySizeOf b keyLength+2<getNodeFreeSize b m := by
  by_contra hfull
  have hfree := hwf.getNodeFreeSize_eq
  have hbounds := nodeSize_bounds b
  have hascends := hwf.ascends (le_refl (numRecords m))
  rw [sizeofBTNodeDescriptor] at hascends
  have hsize := hkey.keySizeOf_eq
  have hs := sizeOfLength_one_or_two b
  have hhole := makeHole_opened hwf.toOrdered (le_refl (numRecords m))
    (show getRecordOffset b m (numRecords m)+(keySizeOf b keyLength+0) +
      2*(numRecords m+2)≤b.nodeSize by omega)
  have hoffset : getRecordOffset b m' (numRecords m)=getRecordOffset b m (numRecords m) := by
    rw [←hhole.before (numRecords m) (le_refl _),getRecordOffset_eq,getRecordOffset_eq]
    refine readUInt16_congr (h.other _ (.inr ?_) (.inr (.inr ?_)))
      (h.other _ (.inr ?_) (.inr (.inr ?_))) <;> rw [getOffsetAddress] <;> omega
  have hlost : getRecordOffset b m' (numRecords m+1)<256 := by
    have hzero : m' (getOffsetAddress b (numRecords m+1))=0 := by
      refine h.cleared rfl _ ?_ ?_ <;> rw [getOffsetAddress] <;> push_cast <;> omega
    have hlow := readUInt8_lt m' (getOffsetAddress b (numRecords m+1)+1)
    rw [getRecordOffset_eq,readUInt16,readUInt8,hzero,UInt8.toNat_zero]
    omega
  have hlength : (rawRecord b m' (numRecords m)).length=record.length := by
    have hget : (rawRecords b m')[numRecords m]?=some record := by
      rw [hraw,getElem?_insertIdx_self,if_pos (by simp)]
    have hcount : numRecords m'=numRecords m+1 := by
      have hlength := congrArg List.length hraw
      rwa [length_rawRecords,length_insertIdx_of_le_length (by simp),length_rawRecords] at hlength
    rw [getElem?_eq_getElem (by rw [length_rawRecords]; omega),some_inj,getElem_rawRecords] at hget
    rw [hget]
  rw [rawRecord,length_bytesAt,hoffset,hrecord] at hlength
  omega

/-- The node is the list with the record inserted, or without the one that is deleted, exactly if
nothing but data, zeros and free space is cleared behind the key. -/
theorem editsList_iff (hwf : WellFormed b m) (hindex : index≤numRecords m)
    (hkey : KeyGiven b keyPtr keyLength) (heven : recSize%2=0) :
    EditsList b m index keyPtr keyLength recPtr recSize ↔
      (keySizeOf b keyLength+recSize+2≤getNodeFreeSize b m →
        ClearsNothing b m index keyLength recSize) := by
  constructor
  · intro h hfit
    have hlist := (h.insertKeyRecord hfit).inserted
    obtain ⟨m',hinsert,hwritten⟩ :=
      @insertKeyRecord_written b m index keyPtr recPtr keyLength recSize hkey heven hfit
    rw [hinsert,←splitRecord_append hkey.complete (bytesAt recPtr 0 recSize),records,records,
      ← map_insertIdx] at hlist
    have hraw := map_injective_iff.mpr (splitRecord_injective b) hlist
    by_cases hdata : recSize=0
    · subst hdata
      rcases lt_or_ge index (numRecords m) with hlt | hge
      · exact .inr (.inl ⟨hlt,hwritten.next_empty hwf hfit hlt hraw⟩)
      · obtain rfl := le_antisymm hindex hge
        refine .inr (.inr ⟨rfl,hwritten.room_behind hwf hkey hfit ?_ hraw⟩)
        rw [length_append,hkey.length_keyBytes,length_bytesAt,add_zero]
    · exact .inl hdata
  · intro hclears
    refine ⟨fun hfit => insertRecord_listInserted hwf hindex heven hfit,fun hfit => ?_,
      fun hlt => listDeleted hwf hlt⟩
    obtain ⟨m',hinsert,hwritten⟩ :=
      @insertKeyRecord_written b m index keyPtr recPtr keyLength recSize hkey heven hfit
    rw [hinsert]
    exact hwritten.listInserted hwf hindex hkey heven hfit (hclears hfit)

end KeyRecord

/-- A leaf node with one record, whose key has one byte and whose data has two. -/
def leafImage : Memory := imageOf [0,0,0,0,0,0,0,0,255,1,0,1,0,0,1,7,5,6] [0,0,0,0,0,18,0,14]

def oneByteKey : Memory := imageOf [1,9] []

lemma leafImage_wellFormed : WellFormed smallBlock leafImage :=
  ⟨⟨by decide,by decide,by decide,by decide⟩,by decide,
    by decide⟩

theorem editsList_iff_leaf : EditsList smallBlock leafImage 0 oneByteKey 1 (imageOf [3,4] []) 2 ↔
    (keySizeOf smallBlock 1+2+2≤getNodeFreeSize smallBlock leafImage →
      ClearsNothing smallBlock leafImage 0 1 2) :=
  editsList_iff leafImage_wellFormed (by decide)
    ⟨by decide,by decide⟩ (by decide)

/-- The record is put before the other without data, and the other has no key any more. -/
theorem leaf_next_key_cleared : records smallBlock leafImage=[([1,7],[5,6])] ∧
    records smallBlock (insertKeyRecord smallBlock 0 oneByteKey 1 (imageOf [] []) 0 leafImage).2 =
      [([1,9],[]),([0,7],[5,6])] ∧
    ¬EditsList smallBlock leafImage 0 oneByteKey 1 (imageOf [] []) 0 := by
  have hafter : records smallBlock
      (insertKeyRecord smallBlock 0 oneByteKey 1 (imageOf [] []) 0 leafImage).2 =
      [([1,9],[]),([0,7],[5,6])] := by
    decide
  refine ⟨by decide,hafter,fun h => ?_⟩
  have hlist := (h.insertKeyRecord (by decide)).inserted
  rw [hafter] at hlist
  exact absurd hlist (by decide)

end Darwin.Hfs.NodeImage
