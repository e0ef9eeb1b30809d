import Darwin.Hfs.BTree.Node

/-! Headers and nodes of a B-tree file as they come from the disk: `VerifyHeader`,
`CheckNode`, and what a record of a checked node can be relied on for. -/
open Nat
namespace Darwin.Hfs

/-- The fields of the header record that `VerifyHeader` and `BTOpenPath` look at. -/
structure BTHeaderRec where
  treeDepth : UInt16
  rootNode : UInt32
  firstLeafNode : UInt32
  lastLeafNode : UInt32
  nodeSize : UInt16
  maxKeyLength : UInt16
  totalNodes : UInt32
  freeNodes : UInt32
  btreeType : UInt8
  bigKeys : Bool

def kMaxTreeDepth : ℕ := 16
def kUserBTreeType : UInt8 := 128
def kReservedBTreeType : UInt8 := 255

def allowedNodeSize (nodeSize : ℕ) : Bool :=
  [512,1024,2048,4096,8192,16384,32768].contains nodeSize

inductive HeaderErr
  | noErr
  | fsBTInvalidHeaderErr
  | fsBTUnknownVersionErr
  deriving DecidableEq,Repr

def verifyHeader (fcbEOF : UInt64) (header : BTHeaderRec) : HeaderErr :=
  if allowedNodeSize header.nodeSize.toNat=false then .fsBTInvalidHeaderErr
  else
    let totalNodes := header.totalNodes
    let forkSize := totalNodes*header.nodeSize.toUInt32
    if forkSize.toUInt64≠fcbEOF then .fsBTInvalidHeaderErr
    else if totalNodes≤header.freeNodes then .fsBTInvalidHeaderErr
    else if totalNodes≤header.rootNode then .fsBTInvalidHeaderErr
    else if totalNodes≤header.firstLeafNode then .fsBTInvalidHeaderErr
    else if totalNodes≤header.lastLeafNode then .fsBTInvalidHeaderErr
    else if kMaxTreeDepth<header.treeDepth.toNat then .fsBTInvalidHeaderErr
    else if header.btreeType=0 ∨ header.btreeType=kUserBTreeType ∨
        header.btreeType=kReservedBTreeType then .noErr
    else .fsBTUnknownVersionErr

section Header
variable {fcbEOF : UInt64} {header : BTHeaderRec}

/-- What a header that passes can be relied on for. -/
structure HeaderOK (fcbEOF : UInt64) (header : BTHeaderRec) : Prop where
  nodeSize : allowedNodeSize header.nodeSize.toNat=true
  fork : fcbEOF.toNat=header.totalNodes.toNat*header.nodeSize.toNat%2^32
  free : header.freeNodes.toNat<header.totalNodes.toNat
  root : header.rootNode.toNat<header.totalNodes.toNat
  treeDepth : header.treeDepth.toNat≤kMaxTreeDepth

lemma verifyHeader_ok (h : verifyHeader fcbEOF header=.noErr) : HeaderOK fcbEOF header := by
  rw [verifyHeader] at h
  dsimp only at h
  split_ifs at h with hsize hfork hfree hroot hfirst hlast hdepth
  refine ⟨?_,?_,?_,?_,Nat.le_of_not_lt hdepth⟩
  · simpa using hsize
  · rw [←not_not.mp hfork]
    simp
  · exact UInt32.lt_iff_toNat_lt.mp (UInt32.not_le.mp hfree)
  · exact UInt32.lt_iff_toNat_lt.mp (UInt32.not_le.mp hroot)

lemma allowedNodeSize_cases {n : ℕ} (h : allowedNodeSize n=true) : n=512 ∨ n=1024 ∨
    n=2048 ∨ n=4096 ∨ n=8192 ∨ n=16384 ∨ n=32768 := by
  simpa [allowedNodeSize] using h

/-- The nodes of a header that passes lie inside the fork just if their sizes add up to
less than 2^32 bytes. -/
theorem nodes_inside_iff (h : verifyHeader fcbEOF header=.noErr) :
    (∀ nodeNum<header.totalNodes.toNat,(nodeNum+1)*header.nodeSize.toNat≤fcbEOF.toNat) ↔
    header.totalNodes.toNat*header.nodeSize.toNat<2^32 := by
  have hok := verifyHeader_ok h
  have hfork := hok.fork
  constructor
  · intro hin
    have hlast := hin (header.totalNodes.toNat-1) (by have := hok.free; omega)
    rw [Nat.sub_add_cancel (by have := hok.free; omega)] at hlast
    have hmod := Nat.mod_lt (header.totalNodes.toNat*header.nodeSize.toNat) (show 0<2^32 by decide)
    omega
  · intro hlt nodeNum hn
    rw [hfork,mod_eq_of_lt hlt]
    exact mul_le_mul_right _ hn

def smallHeader (totalNodes : UInt32) : BTHeaderRec :=
  ⟨1,1,1,1,512,10,totalNodes,0,0,false⟩

theorem nodes_inside_iff_small : (∀ nodeNum<4,(nodeNum+1)*512≤2048) ↔ 4*512<2^32 :=
  nodes_inside_iff (show verifyHeader 2048 (smallHeader 4)=.noErr by decide)

/-- 2^23 + 2 nodes of 512 bytes are 1024 bytes more than 2^32. -/
theorem wrapped_fork_accepted : verifyHeader 1024 (smallHeader 0x800002)=.noErr ∧
    ¬∀ nodeNum<(smallHeader 0x800002).totalNodes.toNat,
      (nodeNum+1)*(smallHeader 0x800002).nodeSize.toNat≤(1024 : UInt64).toNat :=
  ⟨by decide,fun h => absurd (h 2 (by decide)) (by decide)⟩

end Header

namespace NodeImage

/-- What stands in memory from the beginning of a node's buffer on; the node is its first
`nodeSize` bytes. -/
abbrev Memory := ℤ → UInt8

section Memory
variable (m : Memory)

def readUInt8 (a : ℤ) : ℕ := (m a).toNat
def readUInt16 (a : ℤ) : ℕ := 256*readUInt8 m a+readUInt8 m (a+1)
def readUInt32 (a : ℤ) : ℕ := 65536*readUInt16 m a+readUInt16 m (a+2)

def fLink : ℕ := readUInt32 m 0
def bLink : ℕ := readUInt32 m 4
def kind : Int8 := (m 8).toInt8
def height : ℕ := readUInt8 m 9
def numRecords : ℕ := readUInt16 m 10

end Memory

def kBTLeafNode : Int8 := -1
def kBTIndexNode : Int8 := 0
def kBTMapNode : Int8 := 2

/-- The fields of the control block that the node operations look at. -/
structure ControlBlock where
  treeDepth : ℕ
  rootNode : ℕ
  totalNodes : ℕ
  nodeSize : ℕ
  bigKeys : Bool
  allowed : allowedNodeSize nodeSize=true

def openPath (header : BTHeaderRec) (h : allowedNodeSize header.nodeSize.toNat=true) :
    ControlBlock where
  treeDepth := header.treeDepth.toNat
  rootNode := header.rootNode.toNat
  totalNodes := header.totalNodes.toNat
  nodeSize := header.nodeSize.toNat
  bigKeys := header.bigKeys || decide (40<header.maxKeyLength.toNat)
  allowed := h

section
variable (b : ControlBlock) (m : Memory)

def getRecordOffset (index : ℕ) : ℕ :=
  readUInt16 m ((b.nodeSize : ℤ)-2*index-kOffsetSize)

def getRecordAddress (index : ℕ) : ℤ := (getRecordOffset b m index).toInt16.toInt

def calcKeySize (keyPtr : ℤ) : ℕ :=
  if b.bigKeys then readUInt16 m keyPtr+2 else readUInt8 m keyPtr+1

def offsetFits (index prevOffset : ℕ) : Bool :=
  let offset := getRecordOffset b m index
  if offset%2=1 then false
  else if prevOffset≤offset then false
  else
    -- reject keys that overflow record slot; ignore free space record
    !decide (kind m=kBTLeafNode ∧ index<numRecords m ∧ prevOffset-offset<calcKeySize b m offset)

def checkOffsets : ℕ → ℕ → Bool
  | 0,prevOffset =>
    offsetFits b m 0 prevOffset && decide (sizeofBTNodeDescriptor≤getRecordOffset b m 0)
  | index+1,prevOffset =>
    offsetFits b m (index+1) prevOffset && checkOffsets index (getRecordOffset b m (index+1))

def checkNode (fcbEOF : UInt64) : Bool :=
  let maxNode := (fcbEOF/b.nodeSize.toUInt64-1).toUInt32.toNat
  if maxNode<fLink m ∨ maxNode<bLink m then false
  else if kind m<kBTLeafNode ∨ kBTMapNode<kind m then false
  else if b.treeDepth<height m then false
  else if (b.nodeSize-sizeofBTNodeDescriptor)/8<numRecords m then false
  else checkOffsets b m (numRecords m) (b.nodeSize-2*numRecords m)

/-- What `GetRecordByIndex` returns; the pointers count from the beginning of the node. -/
structure RecordView where
  keyPtr : ℕ
  dataPtr : ℕ
  dataSize : ℕ
  deriving DecidableEq,Repr

def getRecordByIndex (index : ℕ) : Except BTErr RecordView :=
  if numRecords m ≤ index then .error .fsBTRecordNotFoundErr
  else
    let offset := getRecordOffset b m index
    let keySize := calcKeySize b m offset%2^16
    let keySize := if keySize%2=1 then (keySize+1)%2^16 else keySize
    let dataOffset := (offset+keySize)%2^16
    let nextOffset := getRecordOffset b m (index+1)
    .ok ⟨offset,dataOffset,(2^16+nextOffset-dataOffset)%2^16⟩

def childAddress (index : ℕ) : ℤ :=
  getRecordAddress b m index+calcKeySize b m (getRecordAddress b m index)

def getChildNodeNum (index : ℕ) : ℕ := readUInt32 m (childAddress b m index)

end

section Checked
variable {b : ControlBlock} {m : Memory} {fcbEOF : UInt64}

/-- What a node that passes can be relied on for. -/
structure NodeOK (b : ControlBlock) (m : Memory) : Prop where
  height : height m≤b.treeDepth
  count : numRecords m≤(b.nodeSize-sizeofBTNodeDescriptor)/8
  first : sizeofBTNodeDescriptor≤getRecordOffset b m 0
  even : ∀ i≤numRecords m,getRecordOffset b m i%2=0
  ascending : ∀ i<numRecords m,getRecordOffset b m i<getRecordOffset b m (i+1)
  free : getRecordOffset b m (numRecords m)<b.nodeSize-2*numRecords m
  keys : kind m=kBTLeafNode → ∀ i<numRecords m,
    calcKeySize b m (getRecordOffset b m i)≤getRecordOffset b m (i+1)-getRecordOffset b m i

lemma offsetFits_iff {index prevOffset : ℕ} : offsetFits b m index prevOffset=true ↔
    getRecordOffset b m index%2=0 ∧ getRecordOffset b m index<prevOffset ∧
      (kind m=kBTLeafNode → index<numRecords m →
        calcKeySize b m (getRecordOffset b m index)≤prevOffset-getRecordOffset b m index) := by
  rw [offsetFits]
  split_ifs with hodd hle
  · simp only [false_iff]
    omega
  · simp only [false_iff]
    omega
  · simp only [Bool.not_eq_eq_eq_not,Bool.not_true,decide_eq_false_iff_not,not_and,not_lt]
    exact ⟨fun h => ⟨by omega,by omega,h⟩,fun h => h.2.2⟩

lemma checkOffsets_spec (n prevOffset : ℕ) (h : checkOffsets b m n prevOffset=true) :
    sizeofBTNodeDescriptor≤getRecordOffset b m 0 ∧ (∀ i≤n,getRecordOffset b m i%2=0) ∧
    (∀ i<n,getRecordOffset b m i<getRecordOffset b m (i+1)) ∧ getRecordOffset b m n<prevOffset ∧
    (kind m=kBTLeafNode → ∀ i<n,i<numRecords m → calcKeySize b m (getRecordOffset b m i) ≤
      getRecordOffset b m (i+1)-getRecordOffset b m i) := by
  induction n generalizing prevOffset with
  | zero =>
    rw [checkOffsets,Bool.and_eq_true,offsetFits_iff,decide_eq_true_iff] at h
    obtain ⟨⟨heven,hlt,-⟩,hfirst⟩ := h
    refine ⟨hfirst,fun i hi => ?_,fun i hi => absurd hi (not_lt_zero i),hlt,
      fun _ i hi => absurd hi (not_lt_zero i)⟩
    rw [le_zero.mp hi]
    exact heven
  | succ n ih =>
    rw [checkOffsets,Bool.and_eq_true,offsetFits_iff] at h
    obtain ⟨⟨heven,hlt,-⟩,hrest⟩ := h
    obtain ⟨hfirst,hevens,hascending,hbelow,hkeys⟩ := ih _ hrest
    have hkey : kind m=kBTLeafNode → n<numRecords m → calcKeySize b m (getRecordOffset b m n) ≤
          getRecordOffset b m (n+1)-getRecordOffset b m n := by
      cases n with
      | zero =>
        rw [checkOffsets,Bool.and_eq_true,offsetFits_iff] at hrest
        exact hrest.1.2.2
      | succ n =>
        rw [checkOffsets,Bool.and_eq_true,offsetFits_iff] at hrest
        exact hrest.1.2.2
    refine ⟨hfirst,fun i hi => ?_,fun i hi => ?_,hlt,fun hleaf i hi hin => ?_⟩
    · rcases le_succ_iff.mp hi with hi | rfl
      · exact hevens i hi
      · exact heven
    · rcases Nat.lt_succ_iff_lt_or_eq.mp hi with hi | rfl
      · exact hascending i hi
      · exact hbelow
    · rcases Nat.lt_succ_iff_lt_or_eq.mp hi with hi | rfl
      · exact hkeys hleaf i hi hin
      · exact hkey hleaf hin

lemma checkNode_ok (h : checkNode b m fcbEOF=true) : NodeOK b m := by
  rw [checkNode] at h
  split_ifs at h with hlinks hkind hheight hcount
  obtain ⟨hfirst,heven,hascending,hfree,hkeys⟩ := checkOffsets_spec _ _ h
  exact ⟨Nat.le_of_not_lt hheight,Nat.le_of_not_lt hcount,hfirst,heven,hascending,hfree,
    fun hleaf i hi => hkeys hleaf i hi hi⟩

lemma NodeOK.offset_mono (h : NodeOK b m) {i j : ℕ} (hij : i≤j) (hj : j≤numRecords m) :
    getRecordOffset b m i≤getRecordOffset b m j := by
  induction j,hij using le_induction with
  | base => exact le_refl _
  | succ j hij ih => exact (ih (by omega)).trans (h.ascending j (by omega)).le

lemma NodeOK.offset_le (h : NodeOK b m) {i : ℕ} (hi : i≤numRecords m) :
    getRecordOffset b m i+2*(numRecords m+1)≤b.nodeSize := by
  have hmono := h.offset_mono hi (le_refl _)
  have hfree := h.free
  have heven := h.even _ (le_refl _)
  rcases allowedNodeSize_cases b.allowed with hs | hs | hs | hs | hs | hs | hs <;> omega

lemma NodeOK.address (h : NodeOK b m) {i : ℕ} (hi : i≤numRecords m) :
    getRecordAddress b m i=getRecordOffset b m i := by
  have hle := h.offset_le hi
  have hsize : b.nodeSize≤2^15 := by
    rcases allowedNodeSize_cases b.allowed with hs | hs | hs | hs | hs | hs | hs <;> omega
  rw [getRecordAddress,Int16.toInt_ofNat_of_lt]
  omega

/-- The key and the data of a record lie between its two offsets, inside the node, and so
does the child number of an index record. -/
structure RecordInside (b : ControlBlock) (m : Memory) (index : ℕ) : Prop where
  node : sizeofBTNodeDescriptor≤getRecordOffset b m index ∧ getRecordOffset b m (index+1)≤b.nodeSize
  record : ∃ r,getRecordByIndex b m index=.ok r ∧ getRecordOffset b m index≤r.keyPtr ∧
    r.keyPtr+calcKeySize b m r.keyPtr≤getRecordOffset b m (index+1) ∧
    getRecordOffset b m index≤r.dataPtr ∧ r.dataPtr+r.dataSize=getRecordOffset b m (index+1)
  child : kind m=kBTIndexNode → (getRecordOffset b m index : ℤ)≤childAddress b m index ∧
    childAddress b m index+4≤getRecordOffset b m (index+1)

lemma NodeOK.record_inside (h : NodeOK b m) {index : ℕ} (hi : index<numRecords m)
    (hkey : calcKeySize b m (getRecordOffset b m index) ≤
      getRecordOffset b m (index+1)-getRecordOffset b m index)
    (hchild : kind m=kBTIndexNode → calcKeySize b m (getRecordOffset b m index)+4 ≤
      getRecordOffset b m (index+1)-getRecordOffset b m index) : RecordInside b m index := by
  have hle := h.offset_le (show index+1≤numRecords m from hi)
  have hsize : b.nodeSize≤2^15 := by
    rcases allowedNodeSize_cases b.allowed with hs | hs | hs | hs | hs | hs | hs <;> omega
  have heven := h.even index hi.le
  have heven' := h.even (index+1) hi
  have hlt := h.ascending index hi
  refine ⟨⟨h.first.trans (h.offset_mono (zero_le _) hi.le),by omega⟩,?_,fun hindex => ?_⟩
  · rw [getRecordByIndex,if_neg (not_le.mpr hi)]
    refine ⟨_,rfl,le_refl _,by dsimp only; omega,?_,?_⟩
    · dsimp only
      split_ifs <;> omega
    · dsimp only
      split_ifs <;> omega
  · have hfits := hchild hindex
    rw [childAddress,h.address hi.le]
    omega

/-- `CheckNode` looks at the keys of leaf nodes only: in an index node each key has to leave
room for a child number. -/
theorem records_inside_iff (h : checkNode b m fcbEOF=true)
    (hkind : kind m=kBTLeafNode ∨ kind m=kBTIndexNode) :
    (∀ index<numRecords m,RecordInside b m index) ↔ kind m=kBTLeafNode ∨
      ∀ index<numRecords m,calcKeySize b m (getRecordOffset b m index)+4 ≤
        getRecordOffset b m (index+1)-getRecordOffset b m index := by
  have hok := checkNode_ok h
  constructor
  · intro hinside
    rcases hkind with hleaf | hindex
    · exact .inl hleaf
    · refine .inr fun index hi => ?_
      have hchild := (hinside index hi).child hindex
      rw [childAddress,hok.address hi.le] at hchild
      omega
  · rintro (hleaf | hroom) index hi
    · refine hok.record_inside hi (hok.keys hleaf index hi) fun hindex => ?_
      rw [hleaf] at hindex
      exact absurd hindex (by decide)
    · exact hok.record_inside hi (le_of_add_right_le (hroom index hi)) fun _ => hroom index hi

end Checked

/-- Memory with these bytes from the address 0 on, these from the address 504 on, and zeros. -/
def imageOf (front back : List UInt8) : Memory := fun a =>
  if 504≤a then back.getD (a-504).toNat 0
  else if 0≤a then front.getD a.toNat 0
  else 0

def smallBlock : ControlBlock := ⟨1,1,4,512,false,rfl⟩

/-- An index node with one record of six bytes at offset 14, whose key has this length. -/
def indexImage (keyLength : UInt8) : Memory :=
  imageOf [0,0,0,0,0,0,0,0,0,1,0,1,0,0,keyLength,7,0,0,0,2] [0,0,0,0,0,20,0,14]

theorem records_inside_iff_index :
    (∀ index<numRecords (indexImage 1),RecordInside smallBlock (indexImage 1) index) ↔
      kind (indexImage 1)=kBTLeafNode ∨ ∀ index<numRecords (indexImage 1),
        calcKeySize smallBlock (indexImage 1) (getRecordOffset smallBlock (indexImage 1) index)+4 ≤
          getRecordOffset smallBlock (indexImage 1) (index+1) -
            getRecordOffset smallBlock (indexImage 1) index :=
  records_inside_iff (show checkNode smallBlock (indexImage 1) 2048=true by decide)
    (by decide)

/-- A key of 255 bytes in a record of six. -/
theorem long_index_key_accepted : checkNode smallBlock (indexImage 255) 2048=true ∧
    kind (indexImage 255)=kBTIndexNode ∧ ¬∀ index<numRecords (indexImage 255),
      RecordInside smallBlock (indexImage 255) index := by
  refine ⟨by decide,by decide,fun h => ?_⟩
  have hchild := ((h 0 (by decide)).child (by decide)).2
  exact absurd hchild (by decide)

end NodeImage
end Darwin.Hfs
