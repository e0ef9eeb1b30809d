import Darwin.Lib.SortedMap

/-! The tree of records of a data store, from `common/dsengine.c`. The store reads and writes its
files without errors; a fetched record is the one in the cache, so an assignment to its fields is
seen by later fetches, saved or not. -/
namespace Darwin.Netinfo
open Lib

variable {A : Type}

/-- A record: its parent, its children, and its attributes. -/
structure Dsrecord (A : Type) where
  super : ℕ
  sub : List ℕ
  attributes : A

inductive DSStatus
  | ok
  | writeFailed
  | invalidRecordID
  | invalidPath
  deriving DecidableEq

abbrev Dsstore (A : Type) := SortedMap ℕ (Dsrecord A)

def dsrecordAppendSub (dsid : ℕ) (r : Dsrecord A) (c : ℕ) : Dsrecord A :=
  if c=0 then r
  else if c=dsid then r
  else if c=r.super then r
  else if c∈r.sub then r
  else {r with sub := r.sub++[c]}

def dsrecordRemoveSub (r : Dsrecord A) (c : ℕ) : Dsrecord A := {r with sub := r.sub.erase c}

section Dsstore

variable (readwrite : Bool)

def dsstoreSave (s : Dsstore A) (dsid : ℕ) (r : Dsrecord A) : Dsstore A × DSStatus :=
  if readwrite then (s.put dsid r,.ok) else (s,.writeFailed)

def dsstoreRemove (s : Dsstore A) (dsid : ℕ) : Dsstore A × DSStatus :=
  if readwrite then (s.erase dsid,.ok) else (s,.writeFailed)

end Dsstore

section Dsengine

variable (readwrite : Bool)

def dsengineCreate (s : Dsstore A) (r : Dsrecord A) (dsid : ℕ) : Dsstore A × DSStatus × ℕ :=
  match s.get dsid with
  | none => (s,.invalidPath,0)
  | some parent =>
    -- dsstore_save makes the id, the smallest unused one, of a new record
    let rdsid := s.fresh
    let saved := dsstoreSave readwrite s rdsid {r with super := dsid}
    if saved.2≠.ok then (saved.1,saved.2,0)
    else
      let parent := dsrecordAppendSub dsid parent rdsid
      let saved := dsstoreSave readwrite (saved.1.put dsid parent) dsid parent
      (saved.1,saved.2,rdsid)

def dsengineSave (s : Dsstore A) (dsid : ℕ) (r : Dsrecord A) : Dsstore A × DSStatus :=
  match s.get dsid with
  | none => (s,.invalidPath)
  | some stored =>
    match s.get stored.super with
    | none => (s,.invalidPath)
    | some _ => dsstoreSave readwrite s dsid r

def forKids (f : Dsstore A → ℕ → Option (Dsstore A × DSStatus)) :
    List ℕ → Dsstore A → Option (Dsstore A × DSStatus)
  | [],s => some (s,.ok)
  | kid::kids,s => (f s kid).bind fun r => if r.2≠.ok then some r else forKids f kids r.1

def dsengineRemove : ℕ → Dsstore A → ℕ → Option (Dsstore A × DSStatus)
  | 0,_,_ => none
  | depth+1,s,dsid =>
    match s.get dsid with
    | none => some (s,.ok)
    | some r => (forKids (dsengineRemove depth) r.sub s).map fun removed =>
      if removed.2≠.ok then removed
      else
        match removed.1.get dsid with
        | none => (removed.1,.invalidPath)
        | some r =>
          match removed.1.get r.super with
          | none => (removed.1,.invalidPath)
          | some parent =>
            let parent := dsrecordRemoveSub parent dsid
            let saved := dsstoreSave readwrite (removed.1.put r.super parent) r.super parent
            if saved.2≠.ok then saved else dsstoreRemove readwrite saved.1 dsid

def dsengineMove (s : Dsstore A) (dsid pdsid : ℕ) : Dsstore A × DSStatus :=
  if dsid=0 then (s,.invalidRecordID)
  else
    match s.get dsid with
    | none => (s,.invalidPath)
    | some child =>
      if child.super=pdsid then (s,.ok)
      else
        let old := child.super
        let child := {child with super := pdsid}
        let saved := dsstoreSave readwrite (s.put dsid child) dsid child
        if saved.2≠.ok then saved
        else
          match saved.1.get old with
          | none => (saved.1,.invalidPath)
          | some r =>
            let r := dsrecordRemoveSub r dsid
            let saved := dsstoreSave readwrite (saved.1.put old r) old r
            if saved.2≠.ok then saved
            else
              match saved.1.get pdsid with
              | none => (saved.1,.invalidPath)
              | some r =>
                let r := dsrecordAppendSub pdsid r dsid
                dsstoreSave readwrite (saved.1.put pdsid r) pdsid r

def dsengineCopy : ℕ → Dsstore A → ℕ → ℕ → Option (Dsstore A × DSStatus)
  | 0,_,_,_ => none
  | depth+1,s,dsid,pdsid =>
    match s.get dsid with
    | none => some (s,.invalidPath)
    | some r =>
      let created := dsengineCreate readwrite s {r with sub := []} pdsid
      if created.2.1≠.ok then some (created.1,created.2.1)
      else forKids (fun s kid => dsengineCopy depth s kid created.2.2) r.sub created.1

end Dsengine

end Darwin.Netinfo
