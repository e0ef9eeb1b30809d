import Darwin.Hfs.CatalogIterators
import Darwin.Hfs.MangledName
import Darwin.Lib.SortedMap

/-! Reading a directory: `GetDirEntrySize` and `PositionIterator` of `Catalog/Catalog.c`, and
`hfs_readdir` of `hfs_vnodeops.c`. Nothing fails to be read or moved. -/
namespace Darwin.Hfs.Readdir
open Lib Vfs

/-- A record of the catalog: a folder, a file or the thread record of one. -/
inductive CatalogRecord
  | folder (folderID : ℕ)
  | file (fileID : ℕ)
  | thread

/-- What a volume says about names: their characters in the catalog, and the two conversions for
HFS names, of which `hfs_to_utf8` may fail and then leaves the length as it is. -/
structure ExtendedVCB (N : Type) where
  isHFSPlus : Bool
  chars : N → List ℕ
  hfsToUtf8 : List ℕ → Option (List ℕ)
  macRomanToUtf8 : List ℕ → List ℕ
  utf8chars : ℕ
  hiddenDirID : ℕ

/-- `DT_DIR` and `DT_REG` -/
inductive DirentType
  | dir
  | reg
  deriving DecidableEq

structure Dirent where
  d_fileno : ℕ
  d_reclen : ℕ
  d_type : DirentType
  d_namlen : ℕ
  d_name : List ℕ
  deriving DecidableEq

def DIRENTRY_SIZE (namlen : ℕ) : ℕ := 8+(namlen+1+3)/4*4

def dotSize : ℕ := 12

def CAT_START_OFFSET : ℕ := 2*dotSize

def averageDirentrySize : ℕ := 8+22+4

def rootDirID : ℕ := 2

def nameMax : ℕ := 255

variable {V N : Type} [DecidableEq V] [LinearOrder N] [OrderBot N]

def GetDirEntrySize (vol : ExtendedVCB N) (key : CatalogKey N) : ℕ :=
  if vol.isHFSPlus then
    let utf8chars := utf8Encodelen colon noFlags (vol.chars (ofLex key).2)
    DIRENTRY_SIZE ((if nameMax<utf8chars then nameMax else utf8chars)+1)
  else
    match vol.hfsToUtf8 (vol.chars (ofLex key).2) with
    | some name => DIRENTRY_SIZE name.length
    | none => DIRENTRY_SIZE vol.utf8chars

def direntName (vcb : ExtendedVCB N) (name : N) (fileno : ℕ) : List ℕ × ℕ :=
  if vcb.isHFSPlus then
    let r := utf8Encodestr (vcb.chars name) (nameMax+1) colon noFlags
    if r.1=some .nameTooLong then
      let mangled := convertUnicodeToUTF8Mangled (vcb.chars name) (nameMax+1) fileno
      (mangled.1,mangled.2.1)
    else (r.2,r.2.length)
  else
    match vcb.hfsToUtf8 (vcb.chars name) with
    | some utf8 => (utf8,utf8.length)
    | none => (vcb.macRomanToUtf8 (vcb.chars name),(vcb.macRomanToUtf8 (vcb.chars name)).length)

def direntOf (vcb : ExtendedVCB N) (name : N) (type : DirentType) (fileno : ℕ) : Dirent :=
  let d_name := direntName vcb name fileno
  ⟨fileno,DIRENTRY_SIZE d_name.2,type,d_name.2%2^8,d_name.1⟩

/-- The entry that `ProcessCatalogEntry` makes of a record, but not of a thread record. -/
def catent (vcb : ExtendedVCB N) (key : CatalogKey N) : CatalogRecord → Option Dirent
  | .folder folderID => some (direntOf vcb (ofLex key).2 .dir folderID)
  | .file fileID => some (direntOf vcb (ofLex key).2 .reg fileID)
  | .thread => none

def isHidden (vcb : ExtendedVCB N) (curID : ℕ) (ent : Dirent) : Bool :=
  curID=rootDirID && ent.d_fileno=vcb.hiddenDirID && ent.d_type=.dir

/-- `callbackstate` with its `uio`; the result is `ENOENT` or not. -/
structure Callbackstate where
  lastoffset : ℕ
  uioOffset : ℕ
  uioResid : ℕ
  moved : List Dirent
  noent : Bool

def ProcessCatalogEntry (vcb : ExtendedVCB N) (parentID : ℕ) (key : CatalogKey N)
    (record : CatalogRecord) (state : Callbackstate) : Callbackstate × Bool :=
  let lastitem : Callbackstate := { state with
    lastoffset := state.uioOffset
    noent := true}
  if parentID≠(ofLex key).1 then (lastitem,false)
  else
    match catent vcb key record with
    | none => (state,false)
    | some ent =>
      if isHidden vcb (ofLex key).1 ent then (lastitem,false)
      else if state.uioResid<ent.d_reclen then
        ({state with lastoffset := state.uioOffset},false)
      else
        (⟨state.uioOffset,state.uioOffset+ent.d_reclen,state.uioResid-ent.d_reclen,
            state.moved++[ent],state.noent⟩,
          decide (averageDirentrySize ≤ state.uioResid-ent.d_reclen))

/-- `kBTreeCurrentRecord` and `kBTreeNextRecord` -/
inductive BTreeIterationOperation
  | current
  | next

def recordsFrom (tree : SortedMap (CatalogKey N) CatalogRecord) (key : CatalogKey N) :
    BTreeIterationOperation → List (CatalogKey N × CatalogRecord)
  | .current => tree.entries.filter fun e => key≤e.1
  | .next => tree.entries.filter fun e => key<e.1

/-- The loop of `BTIterateRecords`: the state, the last key, and whether the tree ended. -/
def iterateLoop (vcb : ExtendedVCB N) (parentID : ℕ) :
    List (CatalogKey N × CatalogRecord) → CatalogKey N → Callbackstate →
      Callbackstate × CatalogKey N × Bool
  | [],key,state => (state,key,true)
  | e::records,_,state =>
    let r := ProcessCatalogEntry vcb parentID e.1 e.2 state
    if r.2 then iterateLoop vcb parentID records e.1 r.1 else (r.1,e.1,false)

def offsetLoop (vol : ExtendedVCB N) (pid offset : ℕ) :
    List (CatalogKey N × CatalogRecord) → CatalogKey N → ℕ → ℕ → Option (CatalogKey N × ℕ × ℕ)
  | [],key,curOffset,nextOffset =>
    if nextOffset=offset then some (key,curOffset,nextOffset) else none
  | e::records,key,curOffset,nextOffset =>
    if nextOffset<offset then
      if pid≠(ofLex e.1).1 then none
      else offsetLoop vol pid offset records e.1 nextOffset
        ((nextOffset+GetDirEntrySize vol e.1)%2^32)
    else if nextOffset=offset then some (key,curOffset,nextOffset)
    else none

/-- An iterator that was positioned, the key and the operation; or it was not found. -/
structure Positioned (V N : Type) where
  taken : Taken V N
  key : CatalogKey N
  op : BTreeIterationOperation

def positionFromStart (vol : ExtendedVCB N) (tree : SortedMap (CatalogKey N) CatalogRecord)
    (t : Taken V N) (offset : ℕ) : Option (Positioned V N) :=
  let key := t.cip.key t.longName
  if tree.get key=none then none
  else if offset≤CAT_START_OFFSET then some ⟨t,key,.next⟩
  else
    match recordsFrom tree key .next with
    | [] => none
    | e::records =>
      match offsetLoop vol (ofLex e.1).1 offset records e.1 CAT_START_OFFSET
        (GetDirEntrySize vol e.1) with
      | none => none
      | some (key,curOffset,nextOffset) =>
        let t := UpdateCatalogIterator (fun name => (vol.chars name).length) key t
        some ⟨{ t with
          cip := { t.cip with
            currentOffset := curOffset
            nextOffset := nextOffset}},key,.next⟩

def PositionIterator (vol : ExtendedVCB N) (tree : SortedMap (CatalogKey N) CatalogRecord)
    (t : Taken V N) (offset : ℕ) : Option (Positioned V N) :=
  if t.cip.folderID≠t.cip.parentID then none
  else if t.cip.currentOffset=offset then some ⟨t,t.cip.key t.longName,.current⟩
  else if t.cip.nextOffset=offset then some ⟨t,t.cip.key t.longName,.next⟩
  else positionFromStart vol tree t offset

/-- What a call of `hfs_readdir` returns: no error or `EINVAL`, the end of the directory, the
new offset, and the entries. -/
structure ReadResult where
  einval : Bool
  eofflag : Bool
  uioOffset : ℕ
  moved : List Dirent

def dotEntry (fileno namlen : ℕ) : Dirent :=
  ⟨fileno,dotSize,.dir,namlen,List.replicate namlen dot⟩

def rootdots (dirID parentDirID uioOffset : ℕ) : Option (List Dirent) :=
  if CAT_START_OFFSET≤uioOffset then some []
  else if uioOffset=0 then some [dotEntry dirID 1,dotEntry parentDirID 2]
  else if uioOffset=dotSize then some [dotEntry parentDirID 2]
  else none

def readEntries (vcb : ExtendedVCB N) (tree : SortedMap (CatalogKey N) CatalogRecord)
    (dirID uioOffset uioResid : ℕ) (moved : List Dirent) (p : Positioned V N) :
    CatalogCacheGlobals V N × ReadResult :=
  let r := iterateLoop vcb dirID (recordsFrom tree p.key p.op) p.key
    ⟨p.taken.cip.currentOffset,uioOffset,uioResid,moved,false⟩
  let t : Taken V N := { p.taken with
    cip := { p.taken.cip with
      currentOffset := r.1.lastoffset%2^32
      nextOffset := r.1.uioOffset%2^32}}
  ((UpdateCatalogIterator (fun name => (vcb.chars name).length) r.2.1 t).release,
    ⟨false,r.1.noent || r.2.2,r.1.uioOffset,r.1.moved⟩)

def hfsReaddir (vcb : ExtendedVCB N) (tree : SortedMap (CatalogKey N) CatalogRecord)
    (volume : V) (dirID parentDirID : ℕ) (cache : CatalogCacheGlobals V N)
    (uioOffset uioResid : ℕ) : CatalogCacheGlobals V N × ReadResult :=
  if uioResid<averageDirentrySize then (cache,⟨true,false,uioOffset,[]⟩)
  else
    match rootdots dirID parentDirID uioOffset with
    | none => (cache,⟨true,false,uioOffset,[]⟩)
    | some dots =>
      let offset := uioOffset+dots.length*dotSize
      let t := GetCatalogIterator cache volume dirID (offset%2^32)
      match PositionIterator vcb tree t (offset%2^32) with
      | none => (t.age,⟨false,true,offset,dots⟩)
      | some p => readEntries vcb tree dirID offset (uioResid-dots.length*dotSize) dots p

end Darwin.Hfs.Readdir
