import Darwin.Netinfo.DsrecordData

/-! A record that is written and read back. The two passes of the encoder agree, and the decoder
and the short read give back what was written, exactly when the length of the stored form fits
32 bits. -/
open List Option Nat
namespace Darwin.Netinfo.Stored
open Lib Lib.Wire

def word (v : UInt32) : List UInt8 := Bytes.toBytes 4 v.toNat

def Dsdata.bytes (d : Dsdata) : List UInt8 := word d.type++(word d.length++d.data)

def Dsattribute.bytes (a : Dsattribute) : List UInt8 :=
  a.key.bytes++(word a.count++a.value.flatMap Dsdata.bytes)

def Dsrecord.bytes (r : Dsrecord) : List UInt8 :=
  word r.dsid++(word r.serial++(word r.vers++(word r.super++(word r.sub_count++
    (r.sub.flatMap word++(word r.count++(r.attributes.flatMap Dsattribute.bytes++
      (word r.meta_count++r.meta_attributes.flatMap Dsattribute.bytes))))))))

def Dsdata.storedSize (d : Dsdata) : ℕ := 8+d.data.length

def Dsattribute.storedSize (a : Dsattribute) : ℕ :=
  a.key.storedSize+4+(a.value.map Dsdata.storedSize).sum

def Dsrecord.storedSize (r : Dsrecord) : ℕ :=
  28+4*r.sub.length+(r.attributes.map Dsattribute.storedSize).sum
    +(r.meta_attributes.map Dsattribute.storedSize).sum

@[simp] lemma length_word (v : UInt32) : (word v).length=4 := Bytes.length_toBytes 4 _

lemma Dsdata.length_bytes (d : Dsdata) : d.bytes.length=d.storedSize := by
  simp only [Dsdata.bytes,Dsdata.storedSize,length_append,length_word]
  omega

lemma Dsattribute.length_bytes (a : Dsattribute) : a.bytes.length=a.storedSize := by
  simp only [Dsattribute.bytes,Dsattribute.storedSize,length_append,length_word,
    Dsdata.length_bytes,length_flatMap_eq a.value Dsdata.length_bytes]
  omega

lemma length_subs (l : List UInt32) : (l.flatMap word).length=4*l.length := by
  simp [length_flatMap,mul_comm]

lemma Dsrecord.length_bytes (r : Dsrecord) : r.bytes.length=r.storedSize := by
  simp only [Dsrecord.bytes,Dsrecord.storedSize,length_append,length_word,length_subs,
    length_flatMap_eq _ Dsattribute.length_bytes]
  omega

section Write

variable {n : ℕ}

lemma writes_serialize_32 (v : UInt32) : Buffer.Writes (n := n) (serialize_32 v) (word v) :=
  Buffer.writes_memmove _

lemma writes_serializeDsdata (d : Dsdata) : Buffer.Writes (n := n) (serializeDsdata d) d.bytes :=
  (writes_serialize_32 d.type).bind
    ((writes_serialize_32 d.length).bind (Buffer.writes_memmove d.data))

lemma writes_serializeDsattribute (a : Dsattribute) :
    Buffer.Writes (n := n) (serializeDsattribute a) a.bytes :=
  (writes_serializeDsdata a.key).bind
    ((writes_serialize_32 a.count).bind (Buffer.writes_each writes_serializeDsdata a.value))

lemma writes_dsrecordFill (r : Dsrecord) : Buffer.Writes (n := n) (dsrecordFill r) r.bytes :=
  (writes_serialize_32 r.dsid).bind <| (writes_serialize_32 r.serial).bind <|
    (writes_serialize_32 r.vers).bind <| (writes_serialize_32 r.super).bind <|
    (writes_serialize_32 r.sub_count).bind <|
    (Buffer.writes_each writes_serialize_32 r.sub).bind <|
    (writes_serialize_32 r.count).bind <|
    (Buffer.writes_each writes_serializeDsattribute r.attributes).bind <|
    (writes_serialize_32 r.meta_count).bind <|
    Buffer.writes_each writes_serializeDsattribute r.meta_attributes

end Write

lemma foldl_length {α : Type} {f : UInt32 → α → UInt32} {g : α → ℕ}
    (h : ∀ len a,f len a=len+UInt32.ofNat (g a)) (l : List α) (len : UInt32) :
    l.foldl f len=len+UInt32.ofNat (l.map g).sum := by
  induction l generalizing len with
  | nil => simp
  | cons a l ih =>
    rw [foldl_cons,ih,h,map_cons,sum_cons,UInt32.ofNat_add,UInt32.add_assoc]

lemma Dsdata.length_eq (d : Dsdata) : d.length=UInt32.ofNat d.data.length := by
  rw [d.size,UInt32.ofNat_toNat]

lemma addAttribute_eq (len : UInt32) (a : Dsattribute) :
    addAttribute len a=len+UInt32.ofNat a.storedSize := by
  have hvalue (len : UInt32) (v : Dsdata) : len+(4+4+v.length)=len+UInt32.ofNat v.storedSize := by
    rw [v.length_eq,Dsdata.storedSize,UInt32.ofNat_add]
    rfl
  rw [addAttribute,foldl_length hvalue,Dsattribute.storedSize,UInt32.ofNat_add,UInt32.ofNat_add,
    Dsdata.storedSize,UInt32.ofNat_add,a.key.length_eq]
  have h8 : UInt32.ofNat 8=4+4 := rfl
  have h4 : UInt32.ofNat 4=4 := rfl
  rw [h8,h4]
  simp only [UInt32.add_assoc]

lemma dsrecordLength_eq (r : Dsrecord) : dsrecordLength r=UInt32.ofNat r.storedSize := by
  have hsub : r.sub_count=UInt32.ofNat r.sub.length := by rw [r.sub_size,UInt32.ofNat_toNat]
  rw [dsrecordLength,foldl_length addAttribute_eq,foldl_length addAttribute_eq,hsub,
    Dsrecord.storedSize,UInt32.ofNat_add,UInt32.ofNat_add,UInt32.ofNat_add,UInt32.ofNat_mul]
  generalize (UInt32.ofNat (r.attributes.map Dsattribute.storedSize).sum)=x
  generalize (UInt32.ofNat (r.meta_attributes.map Dsattribute.storedSize).sum)=y
  generalize (UInt32.ofNat r.sub.length)=z
  have h28 : UInt32.ofNat 28=28 := rfl
  have h4 : UInt32.ofNat 4=4 := rfl
  rw [h28,h4]
  grind

lemma dsrecordLength_toNat (r : Dsrecord) : (dsrecordLength r).toNat=r.storedSize%2^32 := by
  rw [dsrecordLength_eq,UInt32.toNat_ofNat']

section Read

open Reader

lemma reads_deserialize_32 (v : UInt32) : Reads deserialize_32 (word v) v := by
  have hv : UInt32.ofNat (Bytes.ofBytes (word v))=v := by
    have hlt : v.toNat<256^4 := v.toNat_lt
    rw [word,Bytes.ofBytes_toBytes,mod_eq_of_lt hlt,UInt32.ofNat_toNat]
  refine (reads_bytes (word v) 4 (length_word v)).last ?_
  rw [hv]
  exact reads_pure v

lemma reads_deserializeDsdata (d : Dsdata) : Reads deserializeDsdata d.bytes d :=
  (reads_deserialize_32 d.type).bind <| (reads_deserialize_32 d.length).bind <|
    (reads_bytes d.data d.length.toNat d.size).last (reads_pure d)

lemma reads_deserializeDsattribute (a : Dsattribute) : Reads deserializeDsattribute a.bytes a :=
  (reads_deserializeDsdata a.key).bind <| (reads_deserialize_32 a.count).bind <|
    (reads_many a.value (fun v _ => reads_deserializeDsdata v) a.count.toNat a.size).last
      (reads_pure a)

lemma reads_deserializeDsrecord (r : Dsrecord) : Reads deserializeDsrecord r.bytes r :=
  (reads_deserialize_32 r.dsid).bind <| (reads_deserialize_32 r.serial).bind <|
    (reads_deserialize_32 r.vers).bind <| (reads_deserialize_32 r.super).bind <|
    (reads_deserialize_32 r.sub_count).bind <|
    (reads_many r.sub (fun v _ => reads_deserialize_32 v) r.sub_count.toNat r.sub_size).bind <|
    (reads_deserialize_32 r.count).bind <|
    (reads_many r.attributes (fun a _ => reads_deserializeDsattribute a) r.count.toNat
      r.size).bind <|
    (reads_deserialize_32 r.meta_count).bind <|
    (reads_many r.meta_attributes (fun a _ => reads_deserializeDsattribute a)
      r.meta_count.toNat r.meta_size).last (reads_pure r)

end Read

section RoundTrip

variable (junk : ℕ → UInt8) (r : Dsrecord)

/-- The record survives being stored: the buffer is filled exactly, the full read gives the record
back, and so does the short read for its ids. Other bytes may follow in the file. -/
structure Survives : Prop where
  counted : ∃ b,dsrecordFill r (Buffer.malloc junk (dsrecordLength r).toNat)=some b ∧
    b.written.length=(dsrecordLength r).toNat
  decoded : ∃ d,dsrecordToDsdata junk r=some d ∧ dsdataToDsrecord d=some r ∧
    ∀ rest,dsrecordFread (dsdataFwrite d++rest)=some r ∧
      dsrecordFstats (some (dsdataFwrite d++rest))=(.ok,⟨r.dsid,r.vers,r.serial,r.super⟩)

lemma dsrecordFill_of_lt (h : r.storedSize<2^32) :
    ∃ b,dsrecordFill r (Buffer.malloc junk (dsrecordLength r).toNat)=some b ∧
      b.written=r.bytes ∧ b.data=r.bytes := by
  have hlen : r.bytes.length=(dsrecordLength r).toNat := by
    rw [r.length_bytes,dsrecordLength_toNat,mod_eq_of_lt h]
  obtain ⟨b,hb,hw,hd⟩ := Buffer.memmove_malloc junk r.bytes hlen
  exact ⟨b,(writes_dsrecordFill r _).trans hb,hw,hd⟩

lemma dsrecordFill_of_le (h : 2^32≤r.storedSize) :
    dsrecordFill r (Buffer.malloc junk (dsrecordLength r).toNat)=none := by
  have hlt : (dsrecordLength r).toNat<r.bytes.length := by
    rw [r.length_bytes]
    exact lt_of_lt_of_le (dsrecordLength r).toNat_lt h
  exact (writes_dsrecordFill r _).trans (Buffer.memmove_malloc_none junk r.bytes hlt)

lemma dsrecordToDsdata_of_lt (h : r.storedSize<2^32) :
    ∃ d,dsrecordToDsdata junk r=some d ∧ d.type=DataTypeDSRecord ∧ d.data=r.bytes := by
  obtain ⟨b,hb,-,hd⟩ := dsrecordFill_of_lt junk r h
  refine ⟨⟨DataTypeDSRecord,dsrecordLength r,b.data,b.length_data⟩,?_,rfl,hd⟩
  rw [dsrecordToDsdata,hb,map_some]

lemma dsdataToDsrecord_bytes (d : Dsdata) (ht : d.type=DataTypeDSRecord)
    (hd : d.data=r.bytes) : dsdataToDsrecord d=some r := by
  have hread := reads_deserializeDsrecord r []
  rw [append_nil] at hread
  rw [dsdataToDsrecord,if_neg (not_not.mpr ht),hd,hread,map_some]

lemma dsdataFread_dsdataFwrite (d : Dsdata) (rest : List UInt8) :
    dsdataFread (dsdataFwrite d++rest)=some d := by
  have hread : deserializeDsdata (dsdataFwrite d++rest)=some (d,rest) :=
    reads_deserializeDsdata d rest
  rw [dsdataFread,hread,map_some]

lemma fread32_word (v : UInt32) (rest : List UInt8) :
    fread32 (word v++rest)=some (v,rest) := reads_deserialize_32 v rest

lemma dsrecordFstats_bytes (d : Dsdata) (ht : d.type=DataTypeDSRecord)
    (hd : d.data=r.bytes) (rest : List UInt8) : dsrecordFstats (some (dsdataFwrite d++rest)) =
      (.ok,⟨r.dsid,r.vers,r.serial,r.super⟩) := by
  have hfile : dsdataFwrite d=word d.type++(word d.length++r.bytes) := by
    rw [dsdataFwrite,hd]
    rfl
  simp only [hfile,Dsrecord.bytes,append_assoc,dsrecordFstats,fread32_word,ht,ne_eq,
    not_true_eq_false,if_false]

/-- A record survives being stored exactly when the size of its stored form is below 2^32. -/
theorem survives_iff : Survives junk r ↔ r.storedSize<2^32 := by
  constructor
  · intro h
    by_contra hlarge
    obtain ⟨b,hb,-⟩ := h.counted
    rw [dsrecordFill_of_le junk r (not_lt.mp hlarge)] at hb
    cases hb
  · intro h
    obtain ⟨b,hb,hw,-⟩ := dsrecordFill_of_lt junk r h
    obtain ⟨d,hd,ht,hbytes⟩ := dsrecordToDsdata_of_lt junk r h
    have hdecode := dsdataToDsrecord_bytes r d ht hbytes
    refine ⟨⟨b,hb,?_⟩,d,hd,hdecode,fun rest => ⟨?_,?_⟩⟩
    · rw [hw,r.length_bytes,dsrecordLength_toNat,mod_eq_of_lt h]
    · rw [dsrecordFread,dsdataFread_dsdataFwrite,bind_some,hdecode]
    · exact dsrecordFstats_bytes r d ht hbytes rest

end RoundTrip

def largeValue : Dsdata where
  type := 6
  length := 65536
  data := replicate 65536 120
  size := length_replicate

def largeRecord : Dsrecord where
  dsid := 5
  serial := 1
  vers := 9
  super := 0
  sub_count := 0
  sub := []
  sub_size := rfl
  count := 1
  attributes := [⟨⟨6,1,[107],rfl⟩,65536,replicate 65536 largeValue,length_replicate⟩]
  size := rfl
  meta_count := 0
  meta_attributes := []
  meta_size := rfl

lemma storedSize_replicate {r : Dsrecord} {a : Dsattribute} {d : Dsdata} {n : ℕ} (hsub : r.sub=[])
    (hattributes : r.attributes=[a]) (hmeta : r.meta_attributes=[])
    (hvalue : a.value=replicate n d) : r.storedSize=32+a.key.storedSize+n*d.storedSize := by
  rw [Dsrecord.storedSize,hsub,hattributes,hmeta,map_singleton,sum_singleton,
    Dsattribute.storedSize,hvalue,map_replicate,sum_replicate,smul_eq_mul]
  simp only [length_nil,map_nil,sum_nil]
  omega

lemma largeRecord_storedSize : largeRecord.storedSize=41+65536*65544 := by
  have hvalue : largeValue.data.length=65536 := length_replicate
  rw [storedSize_replicate (r := largeRecord) rfl rfl rfl rfl,Dsdata.storedSize,Dsdata.storedSize,
    hvalue]
  rfl

/-- The buffer for this record is overrun. -/
theorem largeRecord_not_survives : ¬Survives (fun _ => 0) largeRecord := by
  intro h
  have hlarge : 2^32≤largeRecord.storedSize := by
    rw [largeRecord_storedSize]
    norm_num
  obtain ⟨b,hb,-⟩ := h.counted
  rw [dsrecordFill_of_le (fun _ => 0) largeRecord hlarge] at hb
  cases hb

end Darwin.Netinfo.Stored
