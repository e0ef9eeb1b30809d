import Mathlib.Data.Prod.Lex

/-! The cache of catalog iterators, from `Catalog/CatalogIterators.c`. -/
namespace Darwin.Hfs.Readdir

abbrev CatalogKey (N : Type) := ℕ ×ₗ N

/-- The name in an iterator; a long one is in the buffer of the cache. -/
inductive FolderName (N : Type)
  | short (name : N)
  | long

structure CatalogIterator (V N : Type) where
  volume : Option V
  folderID : ℕ
  currentOffset : ℕ
  nextOffset : ℕ
  parentID : ℕ
  folderName : FolderName N

/-- The iterators, from `mru` to `lru`, and the buffer for a long name. -/
structure CatalogCacheGlobals (V N : Type) where
  iterators : List (CatalogIterator V N)
  longName : N

/-- An iterator that is taken from the cache, the others, and the buffer. -/
structure Taken (V N : Type) where
  cip : CatalogIterator V N
  others : List (CatalogIterator V N)
  longName : N

def noOffset : ℕ := 0xffffffff

variable {V N : Type} [DecidableEq V]

def CatalogIterator.isLong (cip : CatalogIterator V N) : Bool :=
  match cip.folderName with
  | .short _ => false
  | .long => true

def CatalogIterator.name (cip : CatalogIterator V N) (longName : N) : N :=
  match cip.folderName with
  | .short name => name
  | .long => longName

def CatalogIterator.key (cip : CatalogIterator V N) (longName : N) : CatalogKey N :=
  toLex (cip.parentID,cip.name longName)

def CatalogIterator.scores (volume : V) (folderID offset : ℕ) (cip : CatalogIterator V N) : Bool :=
  cip.volume=some volume && cip.folderID=folderID &&
    (cip.currentOffset=offset || cip.nextOffset=offset)

def CatalogIterator.trash (cip : CatalogIterator V N) : CatalogIterator V N :=
  { cip with
    volume := none
    folderID := 0}

def Taken.release (t : Taken V N) : CatalogCacheGlobals V N := ⟨t.cip::t.others,t.longName⟩

def Taken.age (t : Taken V N) : CatalogCacheGlobals V N := ⟨t.others++[t.cip],t.longName⟩

def GetCatalogIterator [Bot N] (cache : CatalogCacheGlobals V N) (volume : V)
    (folderID offset : ℕ) : Taken V N :=
  match cache.iterators.find? (CatalogIterator.scores volume folderID offset) with
  | some cip =>
    ⟨cip,cache.iterators.eraseP (CatalogIterator.scores volume folderID offset),cache.longName⟩
  | none =>
    -- start over with the iterator at the end
    ⟨⟨some volume,folderID,noOffset,noOffset,folderID,.short ⊥⟩,cache.iterators.dropLast,
      cache.longName⟩

def PrepareForLongName (others : List (CatalogIterator V N)) : List (CatalogIterator V N) :=
  match others.find? CatalogIterator.isLong with
  | some cip => others.eraseP CatalogIterator.isLong++[cip.trash]
  | none => others

def CatalogIterator.setParent (cip : CatalogIterator V N) (parentID : ℕ) : CatalogIterator V N :=
  { cip with
    parentID := parentID
    nextOffset := if parentID≠cip.folderID then noOffset else cip.nextOffset}

def UpdateCatalogIterator (length : N → ℕ) (key : CatalogKey N) (t : Taken V N) : Taken V N :=
  let cip := t.cip.setParent (ofLex key).1
  match t.cip.folderName with
  | .short _ =>
    if 63<length (ofLex key).2 then
      ⟨{cip with folderName := .long},PrepareForLongName t.others,(ofLex key).2⟩
    else ⟨{cip with folderName := .short (ofLex key).2},t.others,t.longName⟩
  | .long => ⟨cip,t.others,(ofLex key).2⟩

def TrashCatalogIterator (cache : CatalogCacheGlobals V N) (volume : V) (folderID : ℕ) :
    CatalogCacheGlobals V N :=
  let trashed : CatalogIterator V N → Bool := fun cip =>
    cip.volume=some volume && (folderID=0 || cip.folderID=folderID)
  { cache with
    iterators := cache.iterators.filter (fun cip => !trashed cip)++
      (cache.iterators.filter trashed).map CatalogIterator.trash}

end Darwin.Hfs.Readdir
