import Darwin.Lib.Wire

/-! The stored form of a record, from `common/dsrecord.c` and `common/dsdata.c`. The pointers of
a record are all set; counts of retains and the index of a record are not part of its stored form.
A value's bytes are in a block of its length. -/
namespace Darwin.Netinfo.Stored
open Lib Lib.Wire

/-- Typed data: `length` bytes. -/
structure Dsdata where
  type : UInt32
  length : UInt32
  data : List UInt8
  size : data.length=length.toNat
  deriving DecidableEq

/-- A key and its values. -/
structure Dsattribute where
  key : Dsdata
  count : UInt32
  value : List Dsdata
  size : value.length=count.toNat
  deriving DecidableEq

/-- A record with its ids, its children and its attributes. -/
structure Dsrecord where
  dsid : UInt32
  serial : UInt32
  vers : UInt32
  super : UInt32
  sub_count : UInt32
  sub : List UInt32
  sub_size : sub.length=sub_count.toNat
  count : UInt32
  attributes : List Dsattribute
  size : attributes.length=count.toNat
  meta_count : UInt32
  meta_attributes : List Dsattribute
  meta_size : meta_attributes.length=meta_count.toNat
  deriving DecidableEq

def DataTypeDSRecord : UInt32 := 256
def IndexNull : UInt32 := 4294967295

section Write

variable {n : ℕ}

def serialize_32 (v : UInt32) (b : Buffer n) : Option (Buffer n) :=
  b.memmove (Bytes.toBytes 4 v.toNat)

def serializeDsdata (d : Dsdata) (b : Buffer n) : Option (Buffer n) := do
  let b ← serialize_32 d.type b
  let b ← serialize_32 d.length b
  b.memmove d.data

/-- An attribute is written as its key, the count of its values and the values. -/
def serializeDsattribute (a : Dsattribute) (b : Buffer n) : Option (Buffer n) := do
  let b ← serializeDsdata a.key b
  let b ← serialize_32 a.count b
  Buffer.each serializeDsdata a.value b

def dsrecordFill (r : Dsrecord) (b : Buffer n) : Option (Buffer n) := do
  let b ← serialize_32 r.dsid b
  let b ← serialize_32 r.serial b
  let b ← serialize_32 r.vers b
  let b ← serialize_32 r.super b
  let b ← serialize_32 r.sub_count b
  let b ← Buffer.each serialize_32 r.sub b
  let b ← serialize_32 r.count b
  let b ← Buffer.each serializeDsattribute r.attributes b
  let b ← serialize_32 r.meta_count b
  Buffer.each serializeDsattribute r.meta_attributes b

def addAttribute (len : UInt32) (a : Dsattribute) : UInt32 :=
  a.value.foldl (fun len v => len+(4+4+v.length)) (len+(4+4+a.key.length)+4)

/-- The first pass of `dsrecord_to_dsdata`, which computes the size of the buffer. -/
def dsrecordLength (r : Dsrecord) : UInt32 :=
  let len : UInt32 := 0
  let len := len+4
  let len := len+4
  let len := len+4
  let len := len+4
  let len := len+4
  let len := len+4*r.sub_count
  let len := len+4
  let len := r.attributes.foldl addAttribute len
  let len := len+4
  r.meta_attributes.foldl addAttribute len

/-- `dsrecord_to_dsdata`; nothing when a write goes past the end of the buffer. -/
def dsrecordToDsdata (junk : ℕ → UInt8) (r : Dsrecord) : Option Dsdata :=
  let len := dsrecordLength r
  (dsrecordFill r (Buffer.malloc junk len.toNat)).map fun b =>
    ⟨DataTypeDSRecord,len,b.data,b.length_data⟩

end Write

def deserialize_32 : Reader UInt32 := do
  let t ← Reader.bytes 4
  pure (UInt32.ofNat (Bytes.ofBytes t.1))

def deserializeDsdata : Reader Dsdata := do
  let type ← deserialize_32
  let length ← deserialize_32
  let data ← Reader.bytes length.toNat
  pure ⟨type,length,data.1,data.2⟩

def deserializeDsattribute : Reader Dsattribute := do
  let key ← deserializeDsdata
  let len ← deserialize_32
  let value ← Reader.many deserializeDsdata len.toNat
  pure ⟨key,len,value.1,value.2⟩

def deserializeDsrecord : Reader Dsrecord := do
  let dsid ← deserialize_32
  let serial ← deserialize_32
  let vers ← deserialize_32
  let super ← deserialize_32
  let sub_count ← deserialize_32
  let sub ← Reader.many deserialize_32 sub_count.toNat
  let count ← deserialize_32
  let attributes ← Reader.many deserializeDsattribute count.toNat
  let meta_count ← deserialize_32
  let meta_attributes ← Reader.many deserializeDsattribute meta_count.toNat
  pure ⟨dsid,serial,vers,super,sub_count,sub.1,sub.2,count,attributes.1,attributes.2,
    meta_count,meta_attributes.1,meta_attributes.2⟩

def dsdataToDsrecord (d : Dsdata) : Option Dsrecord :=
  if d.type≠DataTypeDSRecord then none
  else (deserializeDsrecord d.data).map Prod.fst

def dsdataFwrite (d : Dsdata) : List UInt8 :=
  Bytes.toBytes 4 d.type.toNat++(Bytes.toBytes 4 d.length.toNat++d.data)

def dsdataFread (f : List UInt8) : Option Dsdata := (deserializeDsdata f).map Prod.fst

def dsrecordFread (f : List UInt8) : Option Dsrecord := (dsdataFread f).bind dsdataToDsrecord

inductive DSStatus
  | ok
  | invalidStore
  | readFailed
  | invalidRecord
  deriving DecidableEq

/-- The numbers `dsrecord_fstats` stores through its pointers. -/
structure Stats where
  dsid : UInt32
  vers : UInt32
  serial : UInt32
  super : UInt32
  deriving DecidableEq

def fread32 (f : List UInt8) : Option (UInt32 × List UInt8) := deserialize_32 f

def dsrecordFstats (f : Option (List UInt8)) : DSStatus × Stats :=
  let st : Stats := ⟨IndexNull,IndexNull,IndexNull,IndexNull⟩
  match f with
  | none => (.invalidStore,st)
  | some f =>
    match fread32 f with
    | none => (.readFailed,st)
    | some (type,f) =>
      if type≠DataTypeDSRecord then (.invalidRecord,st)
      else
        match fread32 f with
        | none => (.readFailed,st)
        | some (_,f) =>
          match fread32 f with
          | none => (.readFailed,st)
          | some (dsid,f) =>
            let st := {st with dsid := dsid}
            match fread32 f with
            | none => (.readFailed,st)
            | some (serial,f) =>
              let st := {st with serial := serial}
              match fread32 f with
              | none => (.readFailed,st)
              | some (vers,f) =>
                let st := {st with vers := vers}
                match fread32 f with
                | none => (.readFailed,st)
                | some (super,_) => (.ok,{st with super := super})

end Darwin.Netinfo.Stored
