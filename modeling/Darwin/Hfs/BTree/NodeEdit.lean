import Darwin.Hfs.BTree.NodeImage

/-! Records are put into a node and taken out of it in its buffer: `InsertRecord`,
`InsertKeyRecord` and `DeleteRecord`. The records grow from the front of the buffer, the table
of their offsets from its end. -/
namespace Darwin.Hfs.NodeImage

/-- `MoveRecordsLeft` and `MoveRecordsRight` are both `bcopy`: the bytes are read before any is
stored. -/
def moveBytes (from' : Memory) (src dst : ℤ) (bytes : ℕ) (m : Memory) : Memory := fun a =>
  if dst≤a ∧ a<dst+bytes then from' (a-dst+src) else m a

def clearMemory (start : ℤ) (bytes : ℕ) (m : Memory) : Memory := fun a =>
  if start≤a ∧ a<start+bytes then 0 else m a

def writeUInt8 (a : ℤ) (v : ℕ) (m : Memory) : Memory := fun x =>
  if x=a then UInt8.ofNat v else m x

def writeUInt16 (a : ℤ) (v : ℕ) (m : Memory) : Memory := fun x =>
  if x=a then UInt8.ofNat (v/256) else if x=a+1 then UInt8.ofNat v else m x

section Memory
variable {m m' : Memory} {a x : ℤ}

lemma readUInt8_lt (m : Memory) (a : ℤ) : readUInt8 m a<256 := (m a).toNat_lt

lemma readUInt16_congr (h : m' a=m a) (h' : m' (a+1)=m (a+1)) : readUInt16 m' a=readUInt16 m a := by
  rw [readUInt16,readUInt16,readUInt8,readUInt8,readUInt8,readUInt8,h,h']

lemma readUInt16_writeUInt16 (a : ℤ) (v : ℕ) (m : Memory) :
    readUInt16 (writeUInt16 a v m) a=v%2^16 := by
  have hhigh : readUInt8 (writeUInt16 a v m) a=v/256%256 := by simp [readUInt8,writeUInt16]
  have hlow : readUInt8 (writeUInt16 a v m) (a+1)=v%256 := by simp [readUInt8,writeUInt16]
  rw [readUInt16,hhigh,hlow]
  omega

lemma writeUInt16_other {v : ℕ} (h : x<a ∨ a+2≤x) : writeUInt16 a v m x=m x := by
  rw [writeUInt16,if_neg (by omega),if_neg (by omega)]

lemma moveBytes_other {from' : Memory} {src dst : ℤ} {bytes : ℕ} (h : x<dst ∨ dst+bytes≤x) :
    moveBytes from' src dst bytes m x=m x := if_neg (by omega)

lemma moveBytes_moved {from' : Memory} {src dst : ℤ} {bytes : ℕ} (h : dst≤x)
    (h' : x<dst+bytes) : moveBytes from' src dst bytes m x=from' (x-dst+src) :=
  if_pos ⟨h,h'⟩

lemma clearMemory_other {start : ℤ} {bytes : ℕ} (h : x<start ∨ start+bytes≤x) :
    clearMemory start bytes m x=m x := if_neg (by omega)

end Memory

section Code
variable (b : ControlBlock)

def numRecordsAddress : ℤ := 10

def getOffsetAddress (index : ℕ) : ℤ := (b.nodeSize : ℤ)-2*index-2

def getNodeFreeSize (m : Memory) : ℕ :=
  (((b.nodeSize : ℤ)-getRecordOffset b m (numRecords m)-2*numRecords m-kOffsetSize) % 2^16).toNat

def insertOffsetLoop (delta : ℕ) : ℕ → ℤ → Memory → Memory
  | 0,_,m => m
  | n+1,src,m =>
    insertOffsetLoop delta n (src+2) (writeUInt16 (src-2) (readUInt16 m src+delta) m)

def insertOffset (index delta : ℕ) (m : Memory) : Memory :=
  let src := getOffsetAddress b (numRecords m)
  let numOffsets := (2^16+numRecords m-index)%2^16
  let m := writeUInt16 numRecordsAddress (numRecords m+1) m
  insertOffsetLoop delta (numOffsets+1) src m

def deleteOffsetLoop (delta : ℕ) : ℕ → ℤ → Memory → Memory
  | 0,_,m => m
  | n+1,dst,m =>
    let dst := dst-2
    deleteOffsetLoop delta n dst
      (writeUInt16 dst (2^16+readUInt16 m (dst-2)-delta) m)

def deleteOffset (index : ℕ) (m : Memory) : Memory :=
  let dst := getOffsetAddress b index
  let src := dst-2
  let delta := (2^16+readUInt16 m src-readUInt16 m dst)%2^16
  let m := writeUInt16 numRecordsAddress (2^16+numRecords m-1) m
  let numOffsets := (2^16+numRecords m-index)%2^16
  deleteOffsetLoop delta numOffsets dst m

/-- What both insertions do first: a hole of `size` bytes at the record `index`. -/
def makeHole (index size : ℕ) (m : Memory) : Memory :=
  let indexOffset := getRecordOffset b m index
  let freeOffset := getRecordOffset b m (numRecords m)
  let bytesToMove := (2^16+freeOffset-indexOffset)%2^16
  let moved :=
    if bytesToMove≠0 then moveBytes m indexOffset (indexOffset+size) bytesToMove m else m
  insertOffset b index (size%2^16) moved

def insertRecord (index : ℕ) (recPtr : Memory) (recSize : ℕ) (m : Memory) : Bool × Memory :=
  if getNodeFreeSize b m<recSize+2 then (false,m)
  else
    let indexOffset := getRecordOffset b m index
    (true,moveBytes recPtr 0 indexOffset recSize (makeHole b index recSize m))

def sizeOfLength : ℕ := if b.bigKeys then 2 else 1

def keySizeOf (keyLength : ℕ) : ℕ :=
  let keySize := (keyLength+sizeOfLength b)%2^16
  if keySize%2=1 then (keySize+1)%2^16 else keySize

def rawKeyLength (keyPtr : Memory) : ℕ :=
  if b.bigKeys then readUInt16 keyPtr 0 else readUInt8 keyPtr 0

/-- `keyPtr` and `recPtr` are memory as it is seen from the key and from the record on. -/
def insertKeyRecord (index : ℕ) (keyPtr : Memory) (keyLength : ℕ) (recPtr : Memory)
    (recSize : ℕ) (m : Memory) : Bool × Memory :=
  let keySize := keySizeOf b keyLength
  if getNodeFreeSize b m<keySize+recSize+2 then (false,m)
  else
    let indexOffset := getRecordOffset b m index
    let hole := makeHole b index (keySize+recSize) m
    -- use keyLength rather than key.length
    let withLength :=
      if b.bigKeys then writeUInt16 indexOffset keyLength hole
      else writeUInt8 indexOffset keyLength hole
    let dst : ℤ := indexOffset+sizeOfLength b
    let withKey := moveBytes keyPtr (sizeOfLength b) dst (rawKeyLength b keyPtr) withLength
    let bytesToMove := (2^16+keySize-rawKeyLength b keyPtr)%2^16
    let padded :=
      if bytesToMove≠0 then clearMemory (dst+rawKeyLength b keyPtr) bytesToMove withKey
      else withKey
    (true,moveBytes recPtr 0 (indexOffset+keySize) recSize padded)

/-- `bytesToMove` is a `SInt16`, which `bcopy` and `bzero` take as an unsigned number. -/
def shortSize (n : ℤ) : ℕ := (n.bmod (2^16)%2^32).toNat

def deleteRecord (index : ℕ) (m : Memory) : Memory :=
  let indexOffset := getRecordAddress b m index
  let nextOffset := getRecordAddress b m (index+1)
  let freeOffset := getRecordAddress b m (numRecords m)
  let bytesToMove := shortSize (freeOffset-nextOffset)
  let moved := if bytesToMove≠0 then moveBytes m nextOffset indexOffset bytesToMove m else m
  let deleted := deleteOffset b index moved
  clearMemory (getRecordAddress b deleted (numRecords deleted))
    (shortSize (nextOffset-indexOffset)) deleted

end Code

/-! ### The table of offsets -/

section Offsets
variable {b : ControlBlock} {m m' : Memory} {delta n index size : ℕ} {src dst a : ℤ}

lemma insertOffsetLoop_other (h : a<src-2 ∨ src-2+2*n≤a) :
    insertOffsetLoop delta n src m a=m a := by
  induction n generalizing src m with
  | zero => rfl
  | succ n ih => rw [insertOffsetLoop,ih (by push_cast at h; omega),writeUInt16_other (by omega)]

lemma insertOffsetLoop_slot {j : ℕ} (hj : j<n) :
    readUInt16 (insertOffsetLoop delta n src m) (src-2+2*j) =
      (readUInt16 m (src+2*j)+delta)%2^16 := by
  induction n generalizing src m j with
  | zero => exact absurd hj (Nat.not_lt_zero j)
  | succ n ih =>
    rw [insertOffsetLoop]
    cases j with
    | zero =>
      rw [readUInt16_congr (insertOffsetLoop_other (by omega)) (insertOffsetLoop_other (by omega))]
      simp only [Nat.cast_zero,mul_zero,add_zero]
      exact readUInt16_writeUInt16 _ _ _
    | succ j =>
      have hnext := @ih (writeUInt16 (src-2) (readUInt16 m src+delta) m) (src+2) j (by omega)
      have hdst : src-2+2*((j+1 : ℕ) : ℤ)=src+2-2+2*j := by push_cast; ring
      have hsrc : src+2*((j+1 : ℕ) : ℤ)=src+2+2*j := by push_cast; ring
      rw [hdst,hsrc,hnext,readUInt16_congr (writeUInt16_other (by omega))
        (writeUInt16_other (by omega))]

lemma deleteOffsetLoop_other (h : dst≤a ∨ a<dst-2*n) : deleteOffsetLoop delta n dst m a=m a := by
  induction n generalizing dst m with
  | zero => rfl
  | succ n ih =>
    push_cast at h
    rw [deleteOffsetLoop,ih (by omega),writeUInt16_other (by omega)]

lemma deleteOffsetLoop_slot {j : ℕ} (hj : j<n) :
    readUInt16 (deleteOffsetLoop delta n dst m) (dst-2*(j+1 : ℕ)) =
      (2^16+readUInt16 m (dst-2*(j+2 : ℕ))-delta)%2^16 := by
  induction n generalizing dst m j with
  | zero => exact absurd hj (Nat.not_lt_zero j)
  | succ n ih =>
    rw [deleteOffsetLoop]
    cases j with
    | zero =>
      rw [readUInt16_congr (deleteOffsetLoop_other (by omega)) (deleteOffsetLoop_other (by omega)),
        show dst-2*((0+1 : ℕ) : ℤ)=dst-2 by norm_num,readUInt16_writeUInt16,
        show dst-2*((0+2 : ℕ) : ℤ)=dst-2-2 by push_cast; ring]
    | succ j =>
      have hnext := @ih (writeUInt16 (dst-2) (2^16+readUInt16 m (dst-2-2)-delta) m)
        (dst-2) j (by omega)
      have hdst : dst-2*((j+1+1 : ℕ) : ℤ)=dst-2-2*(j+1 : ℕ) := by push_cast; ring
      have hsrc : dst-2*((j+1+2 : ℕ) : ℤ)=dst-2-2*(j+2 : ℕ) := by push_cast; ring
      rw [hdst,hsrc,hnext,readUInt16_congr (writeUInt16_other (by push_cast; omega))
        (writeUInt16_other (by push_cast; omega))]

lemma getRecordOffset_eq (b : ControlBlock) (m : Memory) (index : ℕ) :
    getRecordOffset b m index=readUInt16 m (getOffsetAddress b index) := rfl

end Offsets
end Darwin.Hfs.NodeImage
