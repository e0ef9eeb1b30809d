import Darwin.Hfs.BTree.Node

/-! Searching and iterating: `SearchTree`, `FindIteratorPosition`, `BTSearchRecord` and
`BTIterateRecord`. The function `io` says how the block layer answers a request for
each node. -/
namespace Darwin.Hfs
namespace BTree

structure TreePathRecord where
  node : ℕ
  index : ℕ
  deriving DecidableEq,Repr

abbrev TreePathTable := ℕ → TreePathRecord

/-- What `SearchTree` reports besides its error; `keyFound` stands for `noErr` against
`fsBTRecordNotFoundErr`. -/
structure TreeSearch where
  keyFound : Bool
  treePathTable : TreePathTable
  nodeNum : ℕ
  node : Node
  index : ℕ

/-- The entry of an index node to go down by: the one found, or the one before the
insert index. -/
def childIndex (keyFound : Bool) (index : ℕ) : ℕ :=
  if keyFound=false ∧ index≠0 then index-1 else index

def searchTreeLoop (t : BTree) (io : ℕ → BlockRead) (searchKey : Key) :
    ℕ → ℕ → TreePathTable → Except BTErr TreeSearch
  | 0,_,_ => .error .unending
  | fuel+1,curNodeNum,path =>
    match t.getNode (io curNodeNum) curNodeNum with
    | .error e => .error e
    | .ok node =>
      let (keyFound,index) := searchNode t.toBTreeControlBlock node searchKey
      if node.kind=.leaf then
        .ok ⟨keyFound,Function.update path node.height ⟨curNodeNum,index⟩,curNodeNum,node,index⟩
      else
        let index := childIndex keyFound index
        searchTreeLoop t io searchKey fuel
          (childNodeNum t.toBTreeControlBlock (node.records.getD index []))
          (Function.update path node.height ⟨curNodeNum,index⟩)

def searchTree (t : BTree) (io : ℕ → BlockRead) (searchKey : Key) : Except BTErr TreeSearch :=
  if t.treeDepth=0 then .error .fsBTEmptyErr
  else searchTreeLoop t io searchKey t.treeDepth t.rootNode (fun _ => ⟨0,0⟩)

structure BTreeHint where
  writeCount : ℕ
  nodeNum : ℕ
  index : ℕ
  deriving DecidableEq,Repr

structure BTreeIterator where
  hint : BTreeHint
  hitCount : ℕ
  maxLeafRecs : ℕ
  key : Key
  deriving DecidableEq,Repr

def isItAHint (iterator : BTreeIterator) : Bool := decide (iterator.hint.nodeNum≠0)

def isLeafWithRecords (node : Node) : Bool := decide (node.kind=.leaf ∧ 0<node.numRecords)

/-- The position that `FindIteratorPosition` returns: a node, its siblings as far as it
has fetched them, an index and whether the key is there. -/
structure IteratorPosition where
  nodeNum : ℕ
  middle : Node
  index : ℕ
  foundRecord : Bool
  left : Option Node
  right : Option Node
  deriving DecidableEq,Repr

def searchTheTree (t : BTree) (io : ℕ → BlockRead) (key : Key) : Except BTErr IteratorPosition :=
  match t.searchTree io key with
  | .error e => .error e
  | .ok s => .ok ⟨s.nodeNum,s.node,s.index,s.keyFound,none,none⟩

/-- The hint node lies right of the key, or starts with the first record above it. -/
def positionFromLeft (t : BTree) (io : ℕ → BlockRead) (key : Key) (nodeNum : ℕ) (middle : Node) :
    Except BTErr IteratorPosition :=
  if middle.bLink=0 then .ok ⟨nodeNum,middle,0,false,none,none⟩
  else
    match t.getNode (io middle.bLink) middle.bLink with
    | .error e => .error e
    | .ok left =>
      if isLeafWithRecords left=false then t.searchTheTree io key
      else
        let (foundIt,leftIndex) := searchNode t.toBTreeControlBlock left key
        if foundIt then .ok ⟨middle.bLink,left,leftIndex,true,none,some middle⟩
        else if leftIndex=0 then t.searchTheTree io key
        else if left.numRecords≤leftIndex then .ok ⟨left.fLink,middle,0,false,some left,none⟩
        else .ok ⟨middle.bLink,left,leftIndex,false,none,some middle⟩

def positionFromRight (t : BTree) (io : ℕ → BlockRead) (key : Key) (nodeNum : ℕ) (middle : Node)
    (index : ℕ) : Except BTErr IteratorPosition :=
  if middle.fLink=0 then .ok ⟨nodeNum,middle,index,false,none,none⟩
  else
    match t.getNode (io middle.fLink) middle.fLink with
    | .error e => .error e
    | .ok right =>
      if isLeafWithRecords right=false then t.searchTheTree io key
      else
        let (foundIt,rightIndex) := searchNode t.toBTreeControlBlock right key
        if right.numRecords≤rightIndex then t.searchTheTree io key
        else .ok ⟨middle.fLink,right,rightIndex,foundIt,some middle,none⟩

def findIteratorPosition (t : BTree) (io : ℕ → BlockRead) :
    Option BTreeIterator → Except BTErr IteratorPosition
  | none => .error .fsBTInvalidIteratorErr
  | some iterator =>
    let nodeNum := iterator.hint.nodeNum
    if isItAHint iterator=false then t.searchTheTree io iterator.key
    else
      match t.getNode (io nodeNum) nodeNum with
      | .error .fsBTInvalidNodeErr => t.searchTheTree io iterator.key
      | .error e => .error e
      | .ok middle =>
        if isLeafWithRecords middle=false then t.searchTheTree io iterator.key
        else
          let (foundIt,index) := searchNode t.toBTreeControlBlock middle iterator.key
          if foundIt then .ok ⟨nodeNum,middle,index,true,none,none⟩
          else if index=0 then t.positionFromLeft io iterator.key nodeNum middle
          else if middle.numRecords ≤ index then
            t.positionFromRight io iterator.key nodeNum middle index
          else t.searchTheTree io iterator.key

/-- What a successful call gives its caller. The data is cut to the size of the
caller's buffer, if there is one; `recordLen` is its full length. -/
structure Found where
  key : Key
  record : Option (List UInt8)
  recordLen : ℕ
  deriving DecidableEq,Repr

def copyRecord (bufferSize : Option ℕ) (key : Key) (data : List UInt8) : Found :=
  ⟨key,bufferSize.map data.take,data.length⟩

def btInvalidateHint (iterator : BTreeIterator) : BTreeIterator :=
  {iterator with hint := {iterator.hint with nodeNum := 0}}

def clearedIterator (iterator : BTreeIterator) : BTreeIterator :=
  {iterator with hint := ⟨0,0,0⟩,key := []}

def kInvalidMRUCacheKey : ℕ := 2^32-1

def searchHintNode (t : BTree) (io : ℕ → BlockRead) (key : Key) (nodeNum : ℕ) : Option (Node × ℕ) :=
  match t.getNode (io nodeNum) nodeNum with
  | .error _ => none
  | .ok node =>
    if isLeafWithRecords node then
      let (foundRecord,index) := searchNode t.toBTreeControlBlock node key
      if foundRecord then some (node,index) else none
    else none

/-- The node, the index and whether the key is there, from the hint, the heuristic hint or
the tree. Without a hint the code compares `heuristicHint` with a local variable that has
no value yet; `unset` stands for what it holds. -/
def locateRecord (t : BTree) (io : ℕ → BlockRead) (unset : ℕ) (searchIterator : BTreeIterator)
    (heuristicHint : ℕ) : Except BTErr (ℕ × Node × ℕ × Bool) :=
  let nodeNum := if isItAHint searchIterator then searchIterator.hint.nodeNum else unset
  let hinted :=
    if isItAHint searchIterator then t.searchHintNode io searchIterator.key nodeNum else none
  match hinted with
  | some (node,index) => .ok (nodeNum,node,index,true)
  | none =>
    let guessed :=
      if heuristicHint≠kInvalidMRUCacheKey ∧ nodeNum≠heuristicHint then
        t.searchHintNode io searchIterator.key heuristicHint
      else none
    match guessed with
    | some (node,index) => .ok (heuristicHint,node,index,true)
    | none =>
      match t.searchTree io searchIterator.key with
      | .error e => .error e
      | .ok s => .ok (s.nodeNum,s.node,s.index,s.keyFound)

def btSearchRecord (t : BTree) (io : ℕ → BlockRead) (unset : ℕ) (searchIterator : BTreeIterator)
    (heuristicHint : ℕ) (bufferSize : Option ℕ) (resultIterator : BTreeIterator) :
    Except BTErr Found × BTreeIterator :=
  match t.locateRecord io unset searchIterator heuristicHint with
  | .error e =>
    (.error (if e=.fsBTEmptyErr then .fsBTRecordNotFoundErr else e),clearedIterator resultIterator)
  | .ok (nodeNum,node,index,foundRecord) =>
    let hint : BTreeHint := ⟨t.writeCount,nodeNum,index⟩
    if foundRecord then
      let r := node.records.getD index []
      let key := recordKey t.toBTreeControlBlock r
      (.ok (copyRecord bufferSize key (recordData t.toBTreeControlBlock r)),
        {resultIterator with hint := hint,key := key})
    else
      (.error .fsBTRecordNotFoundErr,
        {resultIterator with hint := hint,key := searchIterator.key})

inductive BTreeIterationOperation
  | kBTreeFirstRecord
  | kBTreeNextRecord
  | kBTreePrevRecord
  | kBTreeLastRecord
  | kBTreeCurrentRecord
  deriving DecidableEq,Repr

open BTreeIterationOperation

def endRecord (t : BTree) (io : ℕ → BlockRead) (first : Bool) : Except BTErr (ℕ × Node × ℕ) :=
  let nodeNum := if first then t.firstLeafNode else t.lastLeafNode
  if nodeNum=0 then .error .fsBTEmptyErr
  else
    match t.getNode (io nodeNum) nodeNum with
    | .error e => .error e
    | .ok node =>
      if isLeafWithRecords node=false then .error .fsBTInvalidNodeErr
      else .ok (nodeNum,node,if first then 0 else node.numRecords-1)

def lastOfLeft (t : BTree) (io : ℕ → BlockRead) (p : IteratorPosition) :
    Except BTErr (ℕ × Node × ℕ) :=
  match p.left with
  | some left => .ok (p.nodeNum,left,left.numRecords-1)
  | none =>
    let nodeNum := p.middle.bLink
    if nodeNum=0 then .error .fsBTStartOfIterationErr
    else
      match t.getNode (io nodeNum) nodeNum with
      | .error e => .error e
      | .ok left => .ok (nodeNum,left,left.numRecords-1)

def prevRecord (t : BTree) (io : ℕ → BlockRead) (p : IteratorPosition) :
    Except BTErr (ℕ × Node × ℕ) :=
  if 0<p.index then .ok (p.nodeNum,p.middle,p.index-1) else t.lastOfLeft io p

/-- The first record of the right sibling, which may have been fetched already. -/
def firstOfRight (t : BTree) (io : ℕ → BlockRead) (p : IteratorPosition) :
    Except BTErr (ℕ × Node × ℕ) :=
  match p.right with
  | some right => .ok (p.nodeNum,right,0)
  | none =>
    let nodeNum := p.middle.fLink
    if nodeNum=0 then .error .fsBTEndOfIterationErr
    else
      match t.getNode (io nodeNum) nodeNum with
      | .error e => .error e
      | .ok right => .ok (nodeNum,right,0)

def nextRecord (t : BTree) (io : ℕ → BlockRead) (p : IteratorPosition) :
    Except BTErr (ℕ × Node × ℕ) :=
  if p.foundRecord=false ∧ p.middle.fLink=0 ∧ p.index=p.middle.numRecords then
    .error .fsBTEndOfIterationErr
  -- the key is gone, but the index is already that of the next record
  else if p.foundRecord=false ∧ p.index≠p.middle.numRecords then
    .ok (p.nodeNum,p.middle,p.index)
  else if p.index+1<p.middle.numRecords then .ok (p.nodeNum,p.middle,p.index+1)
  else t.firstOfRight io p

def currentRecord (p : IteratorPosition) : Except BTErr (ℕ × Node × ℕ) :=
  if p.foundRecord=false ∧ p.middle.numRecords≤p.index then .error .fsBTEndOfIterationErr
  else .ok (p.nodeNum,p.middle,p.index)

def moveTo (t : BTree) (io : ℕ → BlockRead) (operation : BTreeIterationOperation)
    (iterator : Option BTreeIterator) : Except BTErr (ℕ × Node × ℕ) :=
  match operation with
  | kBTreeFirstRecord => t.endRecord io true
  | kBTreeLastRecord => t.endRecord io false
  | kBTreePrevRecord =>
    match t.findIteratorPosition io iterator with
    | .error e => .error e
    | .ok p => t.prevRecord io p
  | kBTreeNextRecord =>
    match t.findIteratorPosition io iterator with
    | .error e => .error e
    | .ok p => t.nextRecord io p
  | kBTreeCurrentRecord =>
    match t.findIteratorPosition io iterator with
    | .error e => .error e
    | .ok p => currentRecord p

def updateIterator (t : BTree) (operation : BTreeIterationOperation) (nodeNum index : ℕ)
    (key : Key) (iterator : BTreeIterator) : BTreeIterator where
  hint := ⟨t.writeCount,nodeNum,index⟩
  hitCount :=
    match operation with
    | kBTreeFirstRecord | kBTreeLastRecord => 1
    | kBTreeCurrentRecord => iterator.hitCount
    | _ => iterator.hitCount+1
  maxLeafRecs := max t.leafRecords iterator.maxLeafRecs
  key := key

/-- Both ends of an iteration are reported as a record that was not found, except the
one before the first record. -/
def iterationError : BTErr → BTErr
  | .fsBTEmptyErr => .fsBTRecordNotFoundErr
  | .fsBTEndOfIterationErr => .fsBTRecordNotFoundErr
  | e => e

def btIterateRecord (t : BTree) (io : ℕ → BlockRead) (operation : BTreeIterationOperation)
    (iterator : Option BTreeIterator) (bufferSize : Option ℕ) :
    Except BTErr Found × Option BTreeIterator :=
  match t.moveTo io operation iterator with
  | .error e => (.error (iterationError e),iterator.map clearedIterator)
  | .ok (nodeNum,node,index) =>
    match getRecordByIndex t.toBTreeControlBlock node index with
    | .error e => (.error (iterationError e),iterator.map clearedIterator)
    | .ok (key,data) =>
      (.ok (copyRecord bufferSize key data),
        iterator.map (t.updateIterator operation nodeNum index key))

end BTree
end Darwin.Hfs
