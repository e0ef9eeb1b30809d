import Darwin.Lib.SortedMap

/-! A data store and its files, from `common/dsstore.c`. Every change of a file is a step of its
own, and a crash can come after any of them. A file is read and written without errors. The Temp
files are never read, and a store file without records is as good as none. -/
open Option
namespace Darwin.Netinfo.Files
open Lib

variable {D : Type}

def IndexNull : ℕ := 4294967295

/-- A record; `data` are its attributes. -/
structure Dsrecord (D : Type) where
  dsid : ℕ
  serial : UInt32
  vers : UInt32
  super : ℕ
  sub : List ℕ
  data : D
  deriving DecidableEq

/-- The size of the store file a record is in, and its position there. An id that was given away
before its record is stored has none. -/
structure IndexEntry where
  vers : UInt32
  place : Option (ℕ × ℕ)
  deriving DecidableEq

abbrev Index := SortedMap ℕ IndexEntry

/-- The store files by their sizes; in each, a position is empty or has a record. -/
abbrev StoreFiles (D : Type) := SortedMap ℕ (List (Option (Dsrecord D)))

/-- The files of a store. A Delete file and a Clean file may be empty. -/
structure Disk (D : Type) where
  store : StoreFiles D
  create : Option (Dsrecord D)
  delete : Option (Option ℕ)
  clean : Option (Option UInt32)
  index : Option Index

/-- `dsstore`, when it is open. -/
structure Dsstore where
  max_vers : UInt32
  nichecksum : UInt32
  dirty : Bool
  index : Index

/-- An operation that runs, with the files after each of its steps so far. -/
structure Session (D : Type) where
  disk : Disk D
  s : Dsstore
  history : List (Disk D)

inductive DSStatus
  | ok
  | writeFailed
  | duplicateRecord
  | noRootRecord
  deriving DecidableEq

def slots (store : StoreFiles D) (size : ℕ) : List (Option (Dsrecord D)) :=
  (store.get size).getD []

def slot (store : StoreFiles D) (size pos : ℕ) : Option (Dsrecord D) :=
  ((slots store size)[pos]?).join

def fill (l : List (Option (Dsrecord D))) (r : Dsrecord D) : List (Option (Dsrecord D)) :=
  if l.findIdx isNone<l.length then l.set (l.findIdx isNone) (some r)
  else l++[some r]

def Session.write (x : Session D) (f : Disk D → Disk D) : Session D :=
  ⟨f x.disk,x.s,x.history++[f x.disk]⟩

def Session.markDirty (x : Session D) : Session D :=
  if x.s.dirty then x
  else
    ({x with s := {x.s with dirty := true}} : Session D).write fun d => {d with clean := none}

def weight (dsid : ℕ) (serial : UInt32) : UInt32 := (UInt32.ofNat dsid+1)*serial

section Operations

variable (quantized : Dsrecord D → ℕ)

def dsstoreCreateDsid (x : Session D) : Session D × ℕ :=
  ({x with s := {x.s with index := x.s.index.put x.s.index.fresh ⟨4294967295,none⟩}},
    x.s.index.fresh)

def dsstoreFetch (x : Session D) (dsid : ℕ) : Option (Dsrecord D) :=
  (x.s.index.get dsid).bind fun e => e.place.bind fun p => slot x.disk.store p.1 p.2

def dsstoreRemove (x : Session D) (dsid : ℕ) : Session D × DSStatus :=
  match x.s.index.get dsid with
  | none => (x,.ok)
  | some e =>
    let x : Session D := {x with s := {x.s with index := x.s.index.erase dsid}}
    match e.place with
    | none => (x,.ok)
    | some (size,pos) =>
      let x := x.write fun d => {d with delete := some none}
      let x := x.markDirty
      let x := x.write fun d => {d with delete := some (some dsid)}
      match slot x.disk.store size pos with
      | none => (x.write fun d => {d with delete := none},.writeFailed)
      | some r =>
        let x : Session D := { x with
          s := {x.s with nichecksum := x.s.nichecksum-weight dsid r.serial}}
        let x := x.write fun d =>
          {d with store := d.store.put size ((slots d.store size).set pos none)}
        (x.write fun d => {d with delete := none},.ok)

/-- `store_save_data`, where `quantized` is the size of a record's data in a store file. -/
def storeSaveData (x : Session D) (r : Dsrecord D) : Session D :=
  let size := quantized r
  let pos := (slots x.disk.store size).findIdx isNone
  let x := x.markDirty
  let x := x.write fun d => {d with store := d.store.put size (fill (slots d.store size) r)}
  {x with s := {x.s with index := x.s.index.put r.dsid ⟨r.vers,some (size,pos)⟩}}

/-- A record is given its id, if it is new, and its version, and counts in the checksum. -/
def prepare (x : Session D) (r : Dsrecord D) (serial : UInt32) : Session D × Dsrecord D :=
  let created := if r.dsid=IndexNull then dsstoreCreateDsid x else (x,r.dsid)
  let x := created.1
  let r := {r with dsid := created.2,vers := x.s.max_vers+1,serial := serial}
  ({ x with s := { x.s with
    max_vers := x.s.max_vers+1
    nichecksum := x.s.nichecksum+weight r.dsid r.serial}},r)

def dsstoreSave (x : Session D) (r : Dsrecord D) : Session D × DSStatus :=
  let prepared := prepare x r (r.serial+1)
  let x := prepared.1.markDirty
  let x := x.write fun d => {d with create := some prepared.2}
  let removed := dsstoreRemove x prepared.2.dsid
  if removed.2≠.ok then removed
  else
    let x := storeSaveData quantized removed.1 prepared.2
    (x.write fun d => {d with create := none},.ok)

def dsstoreSaveCopy (x : Session D) (r : Dsrecord D) : Session D × DSStatus :=
  let prepared := prepare x r r.serial
  let removed := dsstoreRemove prepared.1.markDirty prepared.2.dsid
  if removed.2≠.ok then removed else (storeSaveData quantized removed.1 prepared.2,.ok)

def dsstoreClose (x : Session D) : Session D :=
  let x := x.write fun d => {d with index := none}
  let x := x.write fun d => {d with index := some x.s.index}
  let x := x.write fun d => {d with clean := some none}
  x.write fun d => {d with clean := some (some x.s.nichecksum)}

end Operations

section Init

variable (quantized : Dsrecord D → ℕ)

def locatedIn (size : ℕ) : ℕ → List (Option (Dsrecord D)) → List (ℕ × ℕ × Dsrecord D)
  | _,[] => []
  | pos,none::l => locatedIn size (pos+1) l
  | pos,some r::l => (size,pos,r)::locatedIn size (pos+1) l

def located (store : StoreFiles D) : List (ℕ × ℕ × Dsrecord D) :=
  store.entries.flatMap fun e => locatedIn e.1 0 e.2

/-- The loop of `index_recovery_read`, over the records of all files as in `index_recovery`. -/
def indexRecovery : List (ℕ × ℕ × Dsrecord D) → Dsstore → Option Dsstore
  | [],s => some s
  | (size,pos,r)::l,s =>
    match s.index.get r.dsid with
    | some _ => none
    | none => indexRecovery l { s with
        index := s.index.put r.dsid ⟨r.vers,some (size,pos)⟩
        nichecksum := s.nichecksum+weight r.dsid r.serial
        max_vers := if s.max_vers<r.vers then r.vers else s.max_vers}

def dsstoreReadIndex (index : Index) (s : Dsstore) : Dsstore :=
  { s with
    index := index
    max_vers := index.entries.foldl
      (fun max_vers e => if max_vers<e.2.vers then e.2.vers else max_vers) s.max_vers}

def dsrecordAppendSub (r : Dsrecord D) (c : ℕ) : Dsrecord D :=
  if c=0 ∨ c=r.dsid ∨ c=r.super ∨ c∈r.sub then r else {r with sub := r.sub++[c]}

def createRecovery (x : Session D) (r : Dsrecord D) : Session D × DSStatus :=
  let removed := dsstoreRemove x r.dsid
  if removed.2≠.ok then (removed.1.write fun d => {d with create := none},.writeFailed)
  else
    let x := storeSaveData quantized removed.1 r
    match dsstoreFetch x r.super with
    | none => (x,.writeFailed)
    | some parent =>
      if r.dsid∈parent.sub then (x.write fun d => {d with create := none},.ok)
      else
        let saved := dsstoreSave quantized x (dsrecordAppendSub parent r.dsid)
        if saved.2≠.ok then (saved.1,.writeFailed)
        else (saved.1.write fun d => {d with create := none},.ok)

def deleteRecovery (x : Session D) (delete : Option ℕ) : Session D × DSStatus :=
  match delete with
  | none => (x.write fun d => {d with delete := none},.writeFailed)
  | some dsid =>
    let removed := dsstoreRemove x dsid
    (removed.1.write fun d => {d with delete := none},removed.2)

/-- What the files of a store that was closed say: its checksum and its index. -/
def cleanFiles (disk : Disk D) : Option (UInt32 × Index) :=
  match disk.create,disk.delete,disk.clean,disk.index with
  | none,none,some (some nichecksum),some index =>
    if index.entries=[] then none else some (nichecksum,index)
  | _,_,_,_ => none

/-- The store that `dsstore_init` reads; nothing for a record that is there twice. -/
def readStore (disk : Disk D) : Option Dsstore :=
  match cleanFiles disk with
  | some (nichecksum,index) =>
    some (dsstoreReadIndex index ⟨0,nichecksum,false,SortedMap.empty⟩)
  | none => indexRecovery (located disk.store) ⟨0,0,true,SortedMap.empty⟩

def completeFiles (x : Session D) : Session D × DSStatus :=
  let created := match x.disk.create with
    | none => (x,.ok)
    | some r => createRecovery quantized x r
  if created.2≠.ok then created
  else
    match created.1.disk.delete with
    | none => created
    | some delete => deleteRecovery created.1 delete

def checkRoot (r : Session D × DSStatus) : Session D × DSStatus :=
  if r.2≠.ok then r
  else if r.1.s.index.entries≠[] ∧ r.1.s.index.get 0=none then (r.1,.noRootRecord)
  else r

/-- `dsstore_init` of a store that may be written. What `tree_check` and `connection_check` do to a
store, they do with `dsstore_save`. -/
def dsstoreInit (disk : Disk D) : Session D × DSStatus :=
  match readStore disk with
  | none => (⟨disk,⟨0,0,true,SortedMap.empty⟩,[]⟩,.duplicateRecord)
  | some s =>
    let x := (⟨disk,s,[]⟩ : Session D).write fun d => {d with index := none}
    checkRoot (completeFiles quantized x)

end Init

section Runs

variable (quantized : Dsrecord D → ℕ)

/-- An operation on an open store. -/
inductive Call (D : Type)
  | save (r : Dsrecord D)
  | saveCopy (r : Dsrecord D)
  | remove (dsid : ℕ)
  | close

/-- An operation runs to its end, or a crash comes after so many steps. -/
inductive Event (D : Type)
  | call (c : Call D)
  | crash (c : Call D) (steps : ℕ)
  | reopen
  | crashReopen (steps : ℕ)

/-- The files, and the store if it is open. -/
structure State (D : Type) where
  disk : Disk D
  s : Option Dsstore

def Call.run (x : Session D) : Call D → Session D
  | .save r => (dsstoreSave quantized x r).1
  | .saveCopy r => (dsstoreSaveCopy quantized x r).1
  | .remove dsid => (dsstoreRemove x dsid).1
  | .close => dsstoreClose x

def Call.isClose : Call D → Bool
  | .close => true
  | _ => false

def Session.crashed (x : Session D) (start : Disk D) (steps : ℕ) : Disk D :=
  ((start::x.history)[steps]?).getD x.disk

def State.step (t : State D) (e : Event D) : Option (State D) :=
  match t.s,e with
  | some s,.call c =>
    let x := c.run quantized ⟨t.disk,s,[]⟩
    some ⟨x.disk,if c.isClose then none else some x.s⟩
  | some s,.crash c steps => some ⟨(c.run quantized ⟨t.disk,s,[]⟩).crashed t.disk steps,none⟩
  | none,.reopen =>
    let r := dsstoreInit quantized t.disk
    some ⟨r.1.disk,if r.2=.ok then some r.1.s else none⟩
  | none,.crashReopen steps => some ⟨(dsstoreInit quantized t.disk).1.crashed t.disk steps,none⟩
  | _,_ => none

def newStore : State D := ⟨⟨SortedMap.empty,none,none,none,some SortedMap.empty⟩,none⟩

def State.run (t : State D) : List (Event D) → Option (State D)
  | [] => some t
  | e::es => (t.step quantized e).bind fun t => t.run es

end Runs

end Darwin.Netinfo.Files
