import Darwin.Lib.Bytes

/-! B-tree nodes and the control block. A node keeps its records as the byte strings
between neighbouring offsets; a record is a length field, the key, a pad byte if
needed, and the data. -/
namespace Darwin.Hfs
open Lib.Bytes

/-- The errors of the B-tree code. The last one is the model's own: a loop that has
taken more rounds than a tree of its depth allows. -/
inductive BTErr
  | fsBTInvalidNodeErr
  | fsBTRecordNotFoundErr
  | fsBTRecordTooLargeErr
  | fsBTDuplicateRecordErr
  | fsBTFullErr
  | fsBTEmptyErr
  | fsBTNoMoreMapNodesErr
  | fsBTBadNodeType
  | fsBTInvalidHeaderErr
  | fsBTInvalidIteratorErr
  | fsBTStartOfIterationErr
  | fsBTEndOfIterationErr
  | ioErr
  | unending
  deriving DecidableEq,Repr

abbrev Key := List UInt8
abbrev Record := List UInt8

inductive NodeKind
  | leaf
  | index
  | header
  | map
  | invalid
  deriving DecidableEq,Repr

/-- `firstOffset` is the offset of record 0, or of the free space if there is none. -/
structure Node where
  fLink : ℕ
  bLink : ℕ
  kind : NodeKind
  height : ℕ
  firstOffset : ℕ
  records : List Record
  deriving DecidableEq,Repr

/-- `kBTBigKeysMask` and `kBTVariableIndexKeysMask` are the two flags. -/
structure BTreeControlBlock where
  treeDepth : ℕ
  rootNode : ℕ
  leafRecords : ℕ
  firstLeafNode : ℕ
  lastLeafNode : ℕ
  nodeSize : ℕ
  maxKeyLength : ℕ
  totalNodes : ℕ
  freeNodes : ℕ
  bigKeys : Bool
  variableIndexKeys : Bool
  writeCount : ℕ
  keyCompareProc : Key → Key → Ordering

/-- A B-tree file: its control block, its size and what its nodes hold. -/
structure BTree extends BTreeControlBlock where
  fcbEOF : ℕ
  nodes : ℕ → Node

def sizeofBTNodeDescriptor : ℕ := 14
def kOffsetSize : ℕ := 2

namespace Node

def numRecords (node : Node) : ℕ := node.records.length

def clear : Node := ⟨0,0,.index,0,0,[]⟩

def getRecordOffset (node : Node) (index : ℕ) : ℕ :=
  node.firstOffset+((node.records.take index).map List.length).sum

end Node

namespace BTree

def sizeOfLength (t : BTreeControlBlock) : ℕ := if t.bigKeys then 2 else 1

def keyLength (t : BTreeControlBlock) (r : Record) : ℕ := ofBytes (r.take (sizeOfLength t))

def calcKeySize (t : BTreeControlBlock) (r : Record) : ℕ := keyLength t r+sizeOfLength t

def evenSize (n : ℕ) : ℕ := n+n%2

def recordKey (t : BTreeControlBlock) (r : Record) : Key :=
  (r.drop (sizeOfLength t)).take (keyLength t r)

def recordData (t : BTreeControlBlock) (r : Record) : List UInt8 :=
  r.drop (evenSize (calcKeySize t r))

def offsetFits (t : BTreeControlBlock) (node : Node) (index prevOffset : ℕ) : Bool :=
  let offset := node.getRecordOffset index
  if offset%2=1 then false
  else if prevOffset≤offset then false
  else
    -- reject keys that overflow their record; the free space has none
    !decide (node.kind=.leaf ∧ index<node.numRecords ∧
      prevOffset-offset<calcKeySize t (node.records.getD index []))

def checkOffsets (t : BTreeControlBlock) (node : Node) : ℕ → ℕ → Bool
  | 0,prevOffset =>
    offsetFits t node 0 prevOffset && decide (sizeofBTNodeDescriptor≤node.getRecordOffset 0)
  | index+1,prevOffset =>
    offsetFits t node (index+1) prevOffset &&
      checkOffsets t node index (node.getRecordOffset (index+1))

def checkNode (t : BTree) (node : Node) : Bool :=
  let maxNode := t.fcbEOF/t.nodeSize-1
  if maxNode<node.fLink ∨ maxNode<node.bLink then false
  else if node.kind=.invalid then false
  else if t.treeDepth<node.height then false
  else if (t.nodeSize-sizeofBTNodeDescriptor)/8<node.numRecords then false
  else checkOffsets t.toBTreeControlBlock node node.numRecords (t.nodeSize-2*node.numRecords)

/-- How the block layer answers one request for a node. -/
inductive BlockRead
  | cached
  | fromDisk
  | failed
  deriving DecidableEq,Repr

def getNode (t : BTree) (read : BlockRead) (nodeNum : ℕ) : Except BTErr Node :=
  if t.totalNodes≤nodeNum then .error .fsBTInvalidNodeErr
  else
    match read with
    | .failed => .error .ioErr
    | .cached => .ok (t.nodes nodeNum)
    | .fromDisk =>
      if t.checkNode (t.nodes nodeNum) then .ok (t.nodes nodeNum)
      else .error .fsBTInvalidNodeErr

def searchNodeLoop (compare : ℕ → Ordering) : ℕ → ℤ → ℤ → Bool × ℕ
  | 0,lowerBound,_ => (false,lowerBound.toNat)
  | fuel+1,lowerBound,upperBound =>
    if lowerBound≤upperBound then
      let index := (lowerBound+upperBound)/2
      match compare index.toNat with
      | .lt => searchNodeLoop compare fuel lowerBound (index-1)
      | .gt => searchNodeLoop compare fuel (index+1) upperBound
      | .eq => (true,index.toNat)
    else (false,lowerBound.toNat)

def searchNode (t : BTreeControlBlock) (node : Node) (searchKey : Key) : Bool × ℕ :=
  searchNodeLoop (fun i => t.keyCompareProc searchKey (recordKey t (node.records.getD i [])))
    node.numRecords 0 (node.numRecords-1)

def getRecordByIndex (t : BTreeControlBlock) (node : Node) (index : ℕ) :
    Except BTErr (Key × List UInt8) :=
  if node.numRecords ≤ index then .error .fsBTRecordNotFoundErr
  else
    let r := node.records.getD index []
    .ok (recordKey t r,recordData t r)

def childNodeNum (t : BTreeControlBlock) (r : Record) : ℕ := ofBytes ((recordData t r).take 4)

/-- The search bounds close in on `p`, below which every trial key is less and above
which every trial key is greater. -/
theorem searchNodeLoop_eq {compare : ℕ → Ordering} {n p : ℕ}
    (hbelow : ∀ i<p,compare i=.gt) (habove : ∀ i,p < i → i<n → compare i=.lt)
    (hp : p<n → compare p≠.gt) (fuel : ℕ) (lower upper : ℤ) (h0 : 0≤lower)
    (h1 : lower≤p) (h2 : (p : ℤ)≤upper+1) (h3 : upper<n) (hf : upper+1-lower≤fuel)
    (hedge : (p : ℤ)=upper+1 → p<n → compare p=.lt) :
    searchNodeLoop compare fuel lower upper=(decide (p<n ∧ compare p=.eq),p) := by
  have hdone : ∀ l u : ℤ,u<l → l≤p → (p : ℤ)≤u+1 → ((p : ℤ)=u+1 → p<n → compare p=.lt) →
      (false,l.toNat)=(decide (p<n ∧ compare p=.eq),p) := by
    intro l u hul hl hu he
    have hpl : l.toNat=p := by omega
    have hne : ¬(p<n ∧ compare p=.eq) := by
      rintro ⟨hpn,heq⟩
      rw [he (by omega) hpn] at heq
      cases heq
    rw [hpl,decide_eq_false hne]
  induction fuel generalizing lower upper with
  | zero =>
    simp only [Nat.cast_zero] at hf
    exact hdone lower upper (by omega) h1 h2 hedge
  | succ fuel ih =>
    rw [searchNodeLoop]
    by_cases hle : lower≤upper
    · rw [if_pos hle]
      simp only [Nat.cast_succ] at hf
      obtain ⟨index,hidx⟩ : ∃ index : ℕ,(lower+upper)/2=index :=
        ⟨((lower+upper)/2).toNat,by omega⟩
      simp only [hidx,Int.toNat_natCast]
      rcases lt_trichotomy index p with hlt | rfl | hgt
      · rw [hbelow index hlt]
        exact ih _ _ (by omega) (by omega) h2 h3 (by omega) hedge
      · cases hc : compare index with
        | lt =>
          have := ih lower (index-1) h0 h1 (by omega) (by omega) (by omega) (fun _ _ => hc)
          simpa only [hc] using this
        | gt => exact absurd hc (hp (by omega))
        | eq => simp only [and_true,decide_eq_true (show index<n by omega)]
      · rw [habove index hgt (by omega)]
        exact ih _ _ h0 h1 (by omega) (by omega) (by omega) (by omega)
    · rw [if_neg hle]
      exact hdone lower upper (by omega) h1 h2 hedge

end BTree
end Darwin.Hfs
