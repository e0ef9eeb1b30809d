import Darwin.Lib.SortedMap
import Mathlib.Data.Prod.Lex

/-! Exchanging the contents of two files, from `Catalog/FileIDsServices.c`. An insertion into the
extents file may fail; nothing else does. -/
namespace Darwin.Hfs.Catalog
open Lib

/-- A key of the extents file: file id, fork type and start block, compared in this order. -/
abbrev ExtentKey := ℕ ×ₗ ℕ ×ₗ ℕ

def ExtentKey.fileID (key : ExtentKey) : ℕ := (ofLex key).1

def ExtentKey.withFileID (key : ExtentKey) (fileID : ℕ) : ExtentKey :=
  toLex (fileID,(ofLex key).2)

def ExtentKey.first (fileID : ℕ) : ExtentKey := toLex (fileID,toLex (0,0))

structure ExtentDescriptor where
  startBlock : ℕ
  blockCount : ℕ
  deriving DecidableEq

abbrev ExtentRecord := List ExtentDescriptor

/-- What a catalog record says about a fork: its sizes and its first extents. -/
structure ForkData where
  logicalSize : ℕ
  totalBlocks : ℕ
  extents : ExtentRecord
  deriving DecidableEq

structure CatalogFile where
  fileID : ℕ
  dataFork : ForkData
  resourceFork : ForkData
  contentModDate : ℕ
  deriving DecidableEq

inductive CatalogRecord
  | file (file : CatalogFile)
  | folder
  deriving DecidableEq

inductive OSErr
  | noErr
  | dskFulErr
  | ioErr
  | btExists
  | cmNotFound
  | cmFThdDirErr
  | cmBadNews
  deriving DecidableEq

/-- How an insertion fails. -/
inductive InsertFailure
  | diskFull
  | other
  deriving DecidableEq

def InsertFailure.err : InsertFailure → OSErr
  | .diskFull => .dskFulErr
  | .other => .ioErr

/-- The extents file, and how many insertions into it have been tried. -/
structure ExtentsFile where
  tree : SortedMap ExtentKey ExtentRecord
  tried : ℕ

def kHFSBogusExtentFileID : ℕ := 15

def kNumExtentsToCache : ℕ := 4

section Extents

variable (fails : ℕ → Option InsertFailure)

def BTInsertRecord (x : ExtentsFile) (key : ExtentKey) (data : ExtentRecord) :
    ExtentsFile × OSErr :=
  let tried : ExtentsFile := {x with tried := x.tried+1}
  if x.tree.get key≠none then (tried,.btExists)
  else
    match fails x.tried with
    | some failure => (tried,failure.err)
    | none => ({tried with tree := x.tree.put key data},.noErr)

def deleteLoop (fileID : ℕ) : ℕ → SortedMap ExtentKey ExtentRecord → ExtentKey →
    Option (SortedMap ExtentKey ExtentRecord)
  | 0,_,_ => none
  | fuel+1,tree,btIterator =>
    match tree.next btIterator with
    | none => some tree
    | some (key,_) =>
      if key.fileID≠fileID then some tree else deleteLoop fileID fuel (tree.erase key) key

def DeleteExtents (x : ExtentsFile) (fileID : ℕ) : Option (ExtentsFile × OSErr) :=
  if x.tree.get (ExtentKey.first fileID)≠none then some (x,.cmBadNews)
  else (deleteLoop fileID (x.tree.entries.length+1) x.tree (ExtentKey.first fileID)).map
    fun tree => ({x with tree := tree},.noErr)

/-- The loop of `MoveExtents` that collects up to so many records, and the iterator then. -/
def collectExtents (tree : SortedMap ExtentKey ExtentRecord) (srcFileID : ℕ) :
    ℕ → ExtentKey → List (ExtentKey × ExtentRecord) × ExtentKey
  | 0,btIterator => ([],btIterator)
  | i+1,btIterator =>
    match tree.next btIterator with
    | none => ([],btIterator)
    | some (key,data) =>
      if key.fileID=srcFileID then
        let r := collectExtents tree srcFileID i key
        ((key,data)::r.1,r.2)
      else ([],key)

/-- The loop of `MoveExtents` that inserts the collected records under the other file id. -/
def insertExtents (destFileID : ℕ) :
    List (ExtentKey × ExtentRecord) → ExtentsFile → ExtentsFile × OSErr
  | [],x => (x,.noErr)
  | (key,data)::records,x =>
    let r := BTInsertRecord fails x (key.withFileID destFileID) data
    if r.2=.noErr then insertExtents destFileID records r.1
    else if r.2=.btExists then (r.1,.cmBadNews)
    else r

def moveLoop (srcFileID destFileID : ℕ) : ℕ → ExtentsFile → ExtentKey → Option (ExtentsFile × OSErr)
  | 0,_,_ => none
  | fuel+1,x,btIterator =>
    let collected := collectExtents x.tree srcFileID kNumExtentsToCache btIterator
    let inserted := insertExtents fails destFileID collected.1 x
    if inserted.2≠.noErr then some inserted
    else if collected.1.length≠kNumExtentsToCache then DeleteExtents inserted.1 srcFileID
    else moveLoop srcFileID destFileID fuel inserted.1 collected.2

def MoveExtents (x : ExtentsFile) (srcFileID destFileID : ℕ) : Option (ExtentsFile × OSErr) :=
  if x.tree.get (ExtentKey.first srcFileID)≠none then some (x,.cmBadNews)
  else moveLoop fails srcFileID destFileID (x.tree.entries.length+1) x (ExtentKey.first srcFileID)

end Extents

section Exchange

def checkFrom (totalBlocks : ℕ) : ℕ → ExtentRecord → ℕ
  | extentAllocationBlocks,[] => extentAllocationBlocks
  | extentAllocationBlocks,extent::extents =>
    let blocks := (extentAllocationBlocks+extent.blockCount)%2^32
    if totalBlocks≤blocks then 0 else checkFrom totalBlocks blocks extents

def CheckExtents (fork : ForkData) : ℕ :=
  if fork.totalBlocks=0 then 0 else checkFrom fork.totalBlocks 0 fork.extents

/-- Whether `numSrcExtentBlocks`, or `numDestExtentBlocks`, of 16 bits, is set for a file. -/
def extentBlocks (file : CatalogFile) : Bool :=
  CheckExtents file.dataFork%2^16≠0 || CheckExtents file.resourceFork%2^16≠0

def CopyCatalogNodeInfo (src dest : CatalogFile) : CatalogFile :=
  { dest with
    dataFork := src.dataFork
    resourceFork := src.resourceFork
    contentModDate := src.contentModDate}

variable {K : Type} [DecidableEq K]

structure ExtendedVCB (K : Type) where
  catalog : K → Option CatalogRecord
  extents : ExtentsFile

variable (fails : ℕ → Option InsertFailure)

def exUndo1a (x : ExtentsFile) : Option (ExtentsFile × OSErr) :=
  (DeleteExtents x kHFSBogusExtentFileID).map fun r =>
    if r.2≠.noErr then r else (r.1,.dskFulErr)

def exUndo2a (x : ExtentsFile) (srcID : ℕ) : Option (ExtentsFile × OSErr) :=
  (DeleteExtents x srcID).bind fun r =>
    if r.2≠.noErr then some r
    else (MoveExtents fails r.1 kHFSBogusExtentFileID srcID).bind fun r =>
      if r.2≠.noErr then some r else exUndo1a r.1

def exchangeBoth (x : ExtentsFile) (srcID destID : ℕ) : Option (ExtentsFile × OSErr) :=
  (MoveExtents fails x srcID kHFSBogusExtentFileID).bind fun r =>
    if r.2≠.noErr then if r.2≠.dskFulErr then some r else exUndo1a r.1
    else (MoveExtents fails r.1 destID srcID).bind fun r =>
      if r.2≠.noErr then if r.2≠.dskFulErr then some r else exUndo2a fails r.1 srcID
      else (MoveExtents fails r.1 kHFSBogusExtentFileID destID).bind fun r =>
        if r.2=.noErr then some r
        else if r.2≠.dskFulErr then some r
        else (DeleteExtents r.1 destID).bind fun r =>
          if r.2≠.noErr then some r
          else (MoveExtents fails r.1 srcID destID).bind fun r =>
            if r.2≠.noErr then some r else exUndo2a fails r.1 srcID

/-- Step 2 when just one of the files has extents: what there is to return, if there is, is `some`.
After a full disk the flush at `FlushAndReturn` sets the error. -/
def exchangeOne (x : ExtentsFile) (srcID destID : ℕ) : Option (ExtentsFile × Option OSErr) :=
  (MoveExtents fails x srcID destID).bind fun r =>
    if r.2=.noErr then some (r.1,none)
    else if r.2≠.dskFulErr then some (r.1,some r.2)
    else (DeleteExtents r.1 srcID).map fun r =>
      if r.2≠.noErr then (r.1,some r.2) else (r.1,some .noErr)

def exchangeExtents (x : ExtentsFile) (srcData destData : CatalogFile) :
    Option (ExtentsFile × Option OSErr) :=
  if extentBlocks srcData && extentBlocks destData then
    (exchangeBoth fails x srcData.fileID destData.fileID).map fun r =>
      (r.1,if r.2=.noErr then none else some r.2)
  else if extentBlocks srcData then exchangeOne fails x srcData.fileID destData.fileID
  else if extentBlocks destData then exchangeOne fails x destData.fileID srcData.fileID
  else some (x,none)

def exchangedCatalog (vcb : ExtendedVCB K) (srcKey destKey : K)
    (srcData destData : CatalogFile) : K → Option CatalogRecord :=
  Function.update (Function.update vcb.catalog srcKey
      (some (.file (CopyCatalogNodeInfo destData srcData)))) destKey
    (some (.file (CopyCatalogNodeInfo srcData destData)))

def ExchangeFileIDs (vcb : ExtendedVCB K) (srcKey destKey : K) : Option (ExtendedVCB K × OSErr) :=
  match vcb.catalog srcKey with
  | none => some (vcb,.cmNotFound)
  | some .folder => some (vcb,.cmFThdDirErr)
  | some (.file srcData) =>
    match vcb.catalog destKey with
    | none => some (vcb,.cmNotFound)
    | some .folder => some (vcb,.cmFThdDirErr)
    | some (.file destData) =>
      (DeleteExtents vcb.extents kHFSBogusExtentFileID).bind fun r =>
        if r.2≠.noErr then some ({vcb with extents := r.1},r.2)
        else (exchangeExtents fails r.1 srcData destData).map fun r =>
          match r.2 with
          | some err => ({vcb with extents := r.1},err)
          | none => (⟨exchangedCatalog vcb srcKey destKey srcData destData,r.1⟩,.noErr)

end Exchange

end Darwin.Hfs.Catalog
