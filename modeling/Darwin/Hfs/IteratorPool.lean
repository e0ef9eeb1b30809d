import Darwin.Lib.DoubleList

/-! The pool of catalog iterators with its links and the one buffer for a long name, from
`Catalog/CatalogIterators.c`. -/
namespace Darwin.Hfs.IteratorPool
open Function Darwin.Lib

def kCatalogIteratorCount : ℕ := 16

/-- The name type and, unless it is `kLongUnicodeName`, the name. -/
inductive FolderName
  | pascalName (name : List ℕ)
  | unicodeName (name : List ℕ)
  | longNamePtr

structure CatalogIterator (V : Type) where
  volume : Option V
  currentIndex : ℕ
  currentOffset : ℕ
  nextOffset : ℕ
  folderID : ℕ
  btreeNodeHint : ℕ
  btreeIndexHint : ℕ
  parentID : ℕ
  folderName : FolderName

/-- The ends of `order` are `mru` and `lru`, its links `nextMRU` and `nextLRU`. -/
structure CatalogCacheGlobals (V : Type) where
  order : DoubleList ℕ
  iterators : ℕ → CatalogIterator V
  longName : List ℕ

/-- What `BTreeIterator` says about a position in the catalog. -/
structure BTreeIterator where
  nodeNum : ℕ
  index : ℕ
  parentID : ℕ
  nodeName : List ℕ

variable {V : Type} [DecidableEq V]

namespace CatalogIterator

def isLong (c : CatalogIterator V) : Bool :=
  match c.folderName with
  | .longNamePtr => true
  | _ => false

/-- The iterator is valid and its name is in the buffer. -/
def ownsLong (c : CatalogIterator V) : Bool := c.volume.isSome && c.isLong

def trash (c : CatalogIterator V) : CatalogIterator V := {c with volume := none,folderID := 0}

/-- A recycled iterator; `oGetCatalogIterator` leaves the two offsets as they are. -/
def recycle (hfsPlus : Bool) (volume : V) (folderID currentIndex currentOffset nextOffset : ℕ) :
    CatalogIterator V :=
  ⟨some volume,currentIndex,currentOffset,nextOffset,folderID,0,0,folderID,
    if hfsPlus then .unicodeName [] else .pascalName []⟩

end CatalogIterator

namespace CatalogCacheGlobals

/-- `InitCatalogCache` clears the memory: the name type is `kShortPascalName`. -/
def InitCatalogCache : CatalogCacheGlobals V where
  order :=
    { first := some 0
      last := some (kCatalogIteratorCount-1)
      next := fun i => if i+1<kCatalogIteratorCount then some (i+1) else none
      prev := fun i => if i=0 then none else some (i-1)}
  iterators _ := ⟨none,0,0,0,0,0,0,0,.pascalName []⟩
  longName := []

def setIterator (g : CatalogCacheGlobals V) (i : ℕ) (f : CatalogIterator V → CatalogIterator V) :
    CatalogCacheGlobals V := {g with iterators := update g.iterators i (f (g.iterators i))}

def InsertCatalogIteratorAsMRU (g : CatalogCacheGlobals V) (i : ℕ) :
    Option (CatalogCacheGlobals V) :=
  (g.order.moveFirst i).map fun order => {g with order := order}

def InsertCatalogIteratorAsLRU (g : CatalogCacheGlobals V) (i : ℕ) :
    Option (CatalogCacheGlobals V) :=
  (g.order.mirror.moveFirst i).map fun order => {g with order := order.mirror}

/-- A loop over the iterators from `mru` on. -/
def walk {σ : Type} (g : CatalogCacheGlobals V) (step : σ → ℕ → σ × Bool) (s : σ) : Option σ :=
  g.order.loop step (kCatalogIteratorCount+1) g.order.first s

def findIterator (g : CatalogCacheGlobals V) (p : ℕ → Bool) : Option (Option ℕ) :=
  g.walk (fun s i => if p i then (some i,true) else (s,false)) none

def trashes (volume : V) (folderID : ℕ) (c : CatalogIterator V) : Bool :=
  c.volume=some volume && (folderID=0 || folderID=c.folderID)

def trashLoop (volume : V) (folderID : ℕ) :
    ℕ → Option ℕ → CatalogCacheGlobals V → Option (CatalogCacheGlobals V)
  | 0,_,_ => none
  | _+1,none,g => some g
  | n+1,some i,g =>
    if trashes volume folderID (g.iterators i) then
      match g.order.next i with
      | none => trashLoop volume folderID n none (g.setIterator i .trash)
      | some next =>
        ((g.setIterator i .trash).InsertCatalogIteratorAsLRU i).bind fun g =>
          trashLoop volume folderID n (some next) g
    else trashLoop volume folderID n (g.order.next i) g

-- an iterator that was moved to the end is passed once more
def TrashCatalogIterator (g : CatalogCacheGlobals V) (volume : V) (folderID : ℕ) :
    Option (CatalogCacheGlobals V) :=
  trashLoop volume folderID (2*kCatalogIteratorCount+1) g.order.first g

def AgeCatalogIterator (g : CatalogCacheGlobals V) (i : ℕ) : Option (CatalogCacheGlobals V) :=
  g.InsertCatalogIteratorAsLRU i

/-- One round of `oGetCatalogIterator`, with the best iterator so far and how far off it is. -/
def nearer (g : CatalogCacheGlobals V) (busy : ℕ → Bool) (volume : V) (folderID index : ℕ)
    (best : ℕ × Option ℕ) (i : ℕ) : (ℕ × Option ℕ) × Bool :=
  let c := g.iterators i
  if c.volume≠some volume ∨ c.folderID≠folderID ∨ c.currentIndex=0xFFFF ∨ busy i then
    (best,false)
  else if c.currentIndex=index then ((0,some i),true)
  else
    let delta := if c.currentIndex < index then index-c.currentIndex else c.currentIndex-index
    if delta<best.1 then ((delta,some i),delta=1) else (best,false)

/-- `isHFSPlus` is the signature of the volume; `busy` are the iterators locked by others. -/
def oGetCatalogIterator (isHFSPlus : V → Bool) (g : CatalogCacheGlobals V) (busy : ℕ → Bool)
    (volume : V) (folderID index : ℕ) : Option (CatalogCacheGlobals V) :=
  (g.walk (g.nearer busy volume folderID index) (0xFFFF,none)).bind fun best =>
    match best.2,decide (index<best.1) with
    | some i,false => g.InsertCatalogIteratorAsMRU i
    | _,_ => g.order.last.bind fun i =>
      (g.setIterator i fun c => .recycle (isHFSPlus volume) volume folderID 0 c.currentOffset
        c.nextOffset).InsertCatalogIteratorAsMRU i

def scores (volume : V) (folderID offset : ℕ) (c : CatalogIterator V) : Bool :=
  c.volume=some volume && c.folderID=folderID &&
    (c.currentOffset=offset || c.nextOffset=offset)

def GetCatalogIterator (isHFSPlus : V → Bool) (g : CatalogCacheGlobals V) (busy : ℕ → Bool)
    (volume : V) (folderID offset : ℕ) : Option (CatalogCacheGlobals V) :=
  (g.findIterator fun i => !busy i && scores volume folderID offset (g.iterators i)).bind fun
    | some i => g.InsertCatalogIteratorAsMRU i
    | none => g.order.last.bind fun i =>
      (g.setIterator i fun _ => .recycle (isHFSPlus volume) volume folderID 0xFFFF 0xFFFFFFFF
        0xFFFFFFFF).InsertCatalogIteratorAsMRU i

/-- The first iterator with a long name is invalidated, valid or not. -/
def PrepareForLongName (g : CatalogCacheGlobals V) (i : ℕ) : Option (CatalogCacheGlobals V) :=
  (g.findIterator fun j => (g.iterators j).isLong).bind fun
    | none => some (g.setIterator i fun c => {c with folderName := .longNamePtr})
    | some iter =>
      (if (g.order.next iter).isSome then g.InsertCatalogIteratorAsLRU iter else some g).map
        fun g => (g.setIterator iter .trash).setIterator i fun c => {c with folderName := .longNamePtr}

/-- What `UpdateCatalogIterator` stores in the iterator beside the name. -/
def place (bt : BTreeIterator) (c : CatalogIterator V) : CatalogIterator V :=
  { c with
    btreeNodeHint := bt.nodeNum
    btreeIndexHint := bt.index
    parentID := bt.parentID
    nextOffset := if bt.parentID≠c.folderID then 0xFFFFFFFF else c.nextOffset}

def needsLong (bt : BTreeIterator) (c : CatalogIterator V) : Bool :=
  match c.folderName with
  | .unicodeName _ => 63<bt.nodeName.length
  | _ => false

def UpdateCatalogIterator (g : CatalogCacheGlobals V) (bt : BTreeIterator) (i : ℕ) :
    Option (CatalogCacheGlobals V) :=
  if needsLong bt (g.iterators i) then
    (g.PrepareForLongName i).map fun g => {g.setIterator i (place bt) with longName := bt.nodeName}
  else
    some <| match (g.iterators i).folderName with
    | .pascalName _ =>
      g.setIterator i fun c => {place bt c with folderName := .pascalName bt.nodeName}
    | .unicodeName _ =>
      g.setIterator i fun c => {place bt c with folderName := .unicodeName bt.nodeName}
    | .longNamePtr => {g.setIterator i (place bt) with longName := bt.nodeName}

/-- The hints and the key; `BuildCatalogKey` makes an empty name of length 0 and of no name. -/
def UpdateBtreeIterator (g : CatalogCacheGlobals V) (i : ℕ) : BTreeIterator :=
  let c := g.iterators i
  ⟨c.btreeNodeHint,c.btreeIndexHint,c.parentID,match c.folderName with
    | .pascalName name => name
    | .unicodeName name => name
    | .longNamePtr => g.longName⟩

end CatalogCacheGlobals

/-- The calls, and the marks that a caller sets in an iterator. -/
inductive Call (V : Type)
  | get (busy : ℕ → Bool) (volume : V) (folderID offset : ℕ)
  | oGet (busy : ℕ → Bool) (volume : V) (folderID index : ℕ)
  | update (bt : BTreeIterator) (i : ℕ)
  | age (i : ℕ)
  | trash (volume : V) (folderID : ℕ)
  | mark (i currentIndex currentOffset nextOffset : ℕ)

namespace Call
open CatalogCacheGlobals

def InPool : Call V → Prop
  | .update _ i => i<kCatalogIteratorCount
  | .age i => i<kCatalogIteratorCount
  | .mark i _ _ _ => i<kCatalogIteratorCount
  | _ => True

def perform (isHFSPlus : V → Bool) (g : CatalogCacheGlobals V) :
    Call V → Option (CatalogCacheGlobals V)
  | .get busy volume folderID offset => GetCatalogIterator isHFSPlus g busy volume folderID offset
  | .oGet busy volume folderID index => oGetCatalogIterator isHFSPlus g busy volume folderID index
  | .update bt i => g.UpdateCatalogIterator bt i
  | .age i => g.AgeCatalogIterator i
  | .trash volume folderID => g.TrashCatalogIterator volume folderID
  | .mark i currentIndex currentOffset nextOffset =>
    some (g.setIterator i fun c =>
      { c with
        currentIndex := currentIndex
        currentOffset := currentOffset
        nextOffset := nextOffset})

/-- The iterator that a call returns or works on, given the state it leaves. -/
def operand (g' : CatalogCacheGlobals V) : Call V → Option ℕ
  | .get .. => g'.order.first
  | .oGet .. => g'.order.first
  | .update _ i => some i
  | .age i => some i
  | .trash .. => none
  | .mark i _ _ _ => some i

end Call

def run (isHFSPlus : V → Bool) (calls : List (Call V)) : Option (CatalogCacheGlobals V) :=
  calls.foldl (fun g call => g.bind (call.perform isHFSPlus)) (some .InitCatalogCache)

end Darwin.Hfs.IteratorPool
