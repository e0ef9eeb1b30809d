import Darwin.Hfs.BTree.Node
import Darwin.Lib.BitWords

/-! The node map: a bitmap of the allocated nodes, kept in record 2 of the header node and
in record 0 of a chain of map nodes. Reads of nodes and the growth of the file may
fail; a node written back goes to the buffer cache, which does not. -/
namespace Darwin.Hfs
open Lib.BitWords

def mapWord (r : Record) (j : ℕ) : BitVec 16 :=
  (r.getD (2*j) 0).toBitVec++(r.getD (2*j+1) 0).toBitVec

def mapWords (r : Record) : List (BitVec 16) := (List.range (r.length/2)).map (mapWord r)

def setMapWord (r : Record) (j : ℕ) (x : BitVec 16) : Record :=
  (r.set (2*j) ⟨x.extractLsb' 8 8⟩).set (2*j+1) ⟨x.extractLsb' 0 8⟩

/-- A map record: the node that holds it and its index there. -/
structure MapRecord where
  nodeNum : ℕ
  mapIndex : ℕ
  deriving DecidableEq,Repr

namespace BTree

def mapRecord (t : BTree) (m : MapRecord) : Record := (t.nodes m.nodeNum).records.getD m.mapIndex []

def recordWords (t : BTree) (m : MapRecord) : List (BitVec 16) := mapWords (t.mapRecord m)

def updateNode (t : BTree) (nodeNum : ℕ) (node : Node) : BTree :=
  {t with nodes := Function.update t.nodes nodeNum node}

def setWord (t : BTree) (m : MapRecord) (pos : ℕ) (x : BitVec 16) : BTree :=
  let node := t.nodes m.nodeNum
  t.updateNode m.nodeNum
    {node with records := node.records.modify m.mapIndex fun r => setMapWord r pos x}

def getMapNode (t : BTree) (read : BlockRead) : Option MapRecord → Except BTErr MapRecord
  | some m =>
    let nextNodeNum := (t.nodes m.nodeNum).fLink
    if nextNodeNum=0 then .error .fsBTNoMoreMapNodesErr
    else
      match t.getNode read nextNodeNum with
      | .error e => .error e
      | .ok node => if node.kind≠.map then .error .fsBTBadNodeType else .ok ⟨nextNodeNum,0⟩
  | none =>
    match t.getNode read 0 with
    | .error e => .error e
    | .ok node => if node.kind≠.header then .error .fsBTInvalidHeaderErr else .ok ⟨0,2⟩

/-- The loop over the bits of a word that has a clear one: its offset from the right
and its mask. The last bit is not tested. -/
def freeBit (freeWord : BitVec 16) : ℕ → BitVec 16 → ℕ × BitVec 16
  | 0,mask => (0,mask)
  | bitOffset+1,mask =>
    if freeWord&&&mask=0 then (bitOffset+1,mask) else freeBit freeWord bitOffset (mask>>>1)

/-- The loop of `AllocateNode` over at most `fuel` map records; `reads k` answers the
request for the `k`-th one. -/
def allocateNodeLoop (t : BTree) (reads : ℕ → BlockRead) :
    ℕ → ℕ → Option MapRecord → ℕ → Except BTErr (ℕ × BTree)
  | 0,_,_,_ => .error .unending
  | fuel+1,k,prev,nodeNumber =>
    match t.getMapNode (reads k) prev with
    | .error e => .error e
    | .ok m =>
      match (t.recordWords m).findIdx? fun x => decide (x≠0xFFFF) with
      | none =>
        allocateNodeLoop t reads fuel (k+1) (some m) (nodeNumber+(t.mapRecord m).length*8)
      | some pos =>
        let freeWord := (t.recordWords m).getD pos 0
        let (bitOffset,mask) := freeBit freeWord 15 0x8000
        let nodeNumber := nodeNumber+pos*16+(15-bitOffset)
        if t.totalNodes≤nodeNumber then .error .fsBTFullErr
        else
          .ok (nodeNumber,{t.setWord m pos (freeWord|||mask) with freeNodes := t.freeNodes-1})

def allocateNode (t : BTree) (reads : ℕ → BlockRead) : Except BTErr (ℕ × BTree) :=
  t.allocateNodeLoop reads (t.totalNodes+1) 0 none 0

/-- The loop of `FreeNode`: the map record of a node and the number of its first bit. -/
def findMapRecord (t : BTree) (reads : ℕ → BlockRead) (nodeNum : ℕ) :
    ℕ → ℕ → Option MapRecord → ℕ → Except BTErr (MapRecord × ℕ)
  | 0,_,_,_ => .error .unending
  | fuel+1,k,prev,nodeIndex =>
    match t.getMapNode (reads k) prev with
    | .error e => .error e
    | .ok m =>
      if nodeIndex+(t.mapRecord m).length*8≤nodeNum then
        findMapRecord t reads nodeNum fuel (k+1) (some m) (nodeIndex+(t.mapRecord m).length*8)
      else .ok (m,nodeIndex)

def freeNode (t : BTree) (reads : ℕ → BlockRead) (nodeNum : ℕ) : Except BTErr BTree :=
  match t.findMapRecord reads nodeNum (t.totalNodes+1) 0 none 0 with
  | .error e => .error e
  | .ok (m,nodeIndex) =>
    let nodeNum := nodeNum-nodeIndex
    let bitOffset := 15-nodeNum%16
    let mapPos := nodeNum/16
    .ok { t.setWord m mapPos ((t.recordWords m).getD mapPos 0&&&~~~(1#16<<<bitOffset)) with
      freeNodes := t.freeNodes+1}

/-- What happens outside during one call of `ExtendBTree`: the reads of the map nodes, by
their place in the chain; whether the file could be extended and by how many bytes;
which new map nodes could be had; and the reads while they are marked, by number. -/
structure ExtendIO where
  scan : ℕ → BlockRead
  extended : Bool
  bytesAdded : ℕ
  created : ℕ → Bool
  marked : ℕ → BlockRead

/-- The loop of `ExtendBTree` that counts the bits of the map: its last record and the
number of the first bit there. -/
def lastMapRecord (t : BTree) (reads : ℕ → BlockRead) :
    ℕ → ℕ → Option MapRecord → ℕ → Except BTErr (MapRecord × ℕ)
  | 0,_,_,_ => .error .unending
  | fuel+1,k,prev,totalMapBits =>
    match t.getMapNode (reads k) prev with
    | .error e => .error e
    | .ok m =>
      if (t.nodes m.nodeNum).fLink≠0 then
        lastMapRecord t reads fuel (k+1) (some m) (totalMapBits+(t.mapRecord m).length*8)
      else .ok (m,totalMapBits)

def mapNodeRecSize (t : BTreeControlBlock) : ℕ := t.nodeSize-sizeofBTNodeDescriptor-6

def newMapNode (t : BTreeControlBlock) (fLink : ℕ) : Node :=
  ⟨fLink,0,.map,0,sizeofBTNodeDescriptor,[List.replicate (mapNodeRecSize t) 0]⟩

def createMapNodes (t : BTree) (created : ℕ → Bool) (lastNewMapNodeNum : ℕ) : ℕ → ℕ → Bool × BTree
  | 0,_ => (true,t)
  | n+1,nodeNum =>
    if created nodeNum=false then (false,t)
    else if nodeNum=lastNewMapNodeNum then
      (true,t.updateNode nodeNum (newMapNode t.toBTreeControlBlock 0))
    else
      createMapNodes (t.updateNode nodeNum (newMapNode t.toBTreeControlBlock (nodeNum+1)))
        created lastNewMapNodeNum n (nodeNum+1)

/-- The inner loop that goes on to the map record that holds the bit of `nodeNum`. -/
def nextMapRecord (t : BTree) (marked : ℕ → BlockRead) (nodeNum : ℕ) :
    ℕ → MapRecord → ℕ → Except BTErr (MapRecord × ℕ)
  | 0,_,_ => .error .unending
  | fuel+1,m,recStartBit =>
    if (t.mapRecord m).length*8≤(nodeNum+2^32-recStartBit)%2^32 then
      let nextNodeNum := (t.nodes m.nodeNum).fLink
      if nextNodeNum=0 then .error .fsBTNoMoreMapNodesErr
      else
        match t.getNode (marked nextNodeNum) nextNodeNum with
        | .error e => .error e
        | .ok _ =>
          nextMapRecord t marked nodeNum fuel ⟨nextNodeNum,0⟩
            (recStartBit+(t.mapRecord m).length*8)
    else .ok (m,recStartBit)

def markMapNodes (t : BTree) (marked : ℕ → BlockRead) : ℕ → ℕ → MapRecord → ℕ → Option BTErr × BTree
  | 0,_,_,_ => (none,t)
  | n+1,nodeNum,m,recStartBit =>
    match t.nextMapRecord marked nodeNum (t.totalNodes+1) m recStartBit with
    | .error e => (some e,t)
    | .ok (m,recStartBit) =>
      let bit := nodeNum-recStartBit
      let mapPos := bit/16
      let bitInWord := 15-bit%16
      let x := (t.recordWords m).getD mapPos 0|||(1#16<<<bitInWord)
      markMapNodes (t.setWord m mapPos x) marked n (nodeNum+1) m recStartBit

def newMapNodes (t : BTreeControlBlock) (newTotalNodes totalMapBits : ℕ) : ℕ :=
  if newTotalNodes≤totalMapBits then 0
  else (newTotalNodes-totalMapBits)/8/mapNodeRecSize t+1

def addMapNodes (t : BTree) (io : ExtendIO) (m : MapRecord) (recStartBit : ℕ) : Option BTErr × BTree :=
  let oldTotalNodes := t.totalNodes
  let newTotalNodes := t.fcbEOF/t.nodeSize
  let totalMapBits := recStartBit+(t.mapRecord m).length*8
  -- the total goes up here, the free count only at the end
  let t := {t with totalNodes := newTotalNodes}
  let n := newMapNodes t.toBTreeControlBlock newTotalNodes totalMapBits
  let freeNodes := t.freeNodes+(newTotalNodes-oldTotalNodes-n)
  if newTotalNodes≤totalMapBits then (none,{t with freeNodes := freeNodes})
  else
    let node := t.nodes m.nodeNum
    let t := t.updateNode m.nodeNum {node with fLink := oldTotalNodes}
    match t.createMapNodes io.created (oldTotalNodes+n-1) n oldTotalNodes with
    | (false,t) => (some .ioErr,t)
    | (true,t) =>
      match t.markMapNodes io.marked n oldTotalNodes m recStartBit with
      | (some e,t) => (some e,t)
      | (none,t) => (none,{t with freeNodes := freeNodes})

def extendBTree (t : BTree) (io : ExtendIO) (newTotalNodes : ℕ) : Option BTErr × BTree :=
  if newTotalNodes≤t.totalNodes then (none,t)
  else
    match t.lastMapRecord io.scan (t.totalNodes+1) 0 none 0 with
    | .error e => (some e,t)
    | .ok (m,recStartBit) =>
      let minEOF := newTotalNodes*t.nodeSize%2^32
      if t.fcbEOF < minEOF then
        let t := {t with fcbEOF := t.fcbEOF+io.bytesAdded}
        if io.extended=false then (some .ioErr,t) else t.addMapNodes io m recStartBit
      else t.addMapNodes io m recStartBit

end BTree
end Darwin.Hfs
