import Mathlib.Data.BitVec
import Mathlib.Tactic

/-! The volume bitmap, one bit for each allocation block, in words of 32 bits that are read
a bitmap block of 128 words at a time. A read of a bitmap block may fail; a changed
block is written later by the buffer cache, which reports nothing. -/
namespace Darwin.Hfs

inductive OSErr
  | dskFulErr
  | ioErr
  deriving DecidableEq,Repr

/-- The volume control block with its bitmap: `bitmap j` is word `j`, also past the end. -/
structure ExtendedVCB where
  blockSize : ℕ
  totalBlocks : ℕ
  freeBlocks : ℕ
  nextAllocation : ℕ
  bitmap : ℕ → BitVec 32

def kBitsPerWord : ℕ := 32
def kWordsPerBlock : ℕ := 128
def kBitsPerBlock : ℕ := 4096
def kHighBitInWordMask : BitVec 32 := 0x80000000
def kLowBitInWordMask : BitVec 32 := 1
def kAllBitsSetInWord : BitVec 32 := 0xFFFFFFFF

namespace ExtendedVCB

def store (v : ExtendedVCB) (word : ℕ) (x : BitVec 32) : ExtendedVCB :=
  {v with bitmap := Function.update v.bitmap word x}

def readBitmapBlock (block : ℕ) : ℕ := block/kBitsPerBlock*kWordsPerBlock

def fileBytesToBlocks (numerator : ℤ) (denominator : ℕ) : ℕ :=
  let quotient := (numerator.tdiv denominator%2^32).toNat
  if ((quotient*denominator%2^32 : ℕ) : ℤ)≠numerator then (quotient+1)%2^32 else quotient

/-- A position in the bitmap: `word` is where `buffer` points, `reads` counts the bitmap
blocks read so far. -/
structure Cursor where
  block : ℕ
  word : ℕ
  currentWord : BitVec 32
  bitMask : BitVec 32
  wordsLeft : ℕ
  reads : ℕ

def cursorAt (v : ExtendedVCB) (block reads : ℕ) : Cursor :=
  let wordIndexInBlock := block%kBitsPerBlock/kBitsPerWord
  let word := readBitmapBlock block+wordIndexInBlock
  { block := block
    word := word
    currentWord := v.bitmap word
    bitMask := kHighBitInWordMask>>>(block%kBitsPerWord)
    wordsLeft := kWordsPerBlock-wordIndexInBlock
    reads := reads}

/-- On to the next word, perhaps in the next bitmap block; `none` if its read fails. -/
def Cursor.nextWord (v : ExtendedVCB) (read : ℕ → Bool) (c : Cursor) : Option Cursor :=
  if c.wordsLeft-1=0 then
    if read c.reads=false then none
    else
      let word := readBitmapBlock c.block
      some { c with
        word := word
        currentWord := v.bitmap word
        bitMask := kHighBitInWordMask
        wordsLeft := kWordsPerBlock
        reads := c.reads+1}
  else
    some { c with
      word := c.word+1
      currentWord := v.bitmap (c.word+1)
      bitMask := kHighBitInWordMask
      wordsLeft := c.wordsLeft-1}

def Cursor.next (v : ExtendedVCB) (read : ℕ → Bool) (c : Cursor) : Option Cursor :=
  let c : Cursor := {c with block := (c.block+1)%2^32,bitMask := c.bitMask>>>1}
  if c.bitMask=0 then c.nextWord v read else some c

/-- The loop of `BlockAllocateAny` that finds the first unallocated block, over at most `n`
blocks. -/
def findFree (v : ExtendedVCB) (read : ℕ → Bool) : ℕ → Cursor → Option Cursor
  | 0,c => some c
  | n+1,c =>
    if c.currentWord&&&c.bitMask=0 then some c
    else
      match c.next v read with
      | none => none
      | some c => findFree v read n c

/-- The loop of `BlockAllocateAny` that allocates all of the consecutive blocks, at most
`n`; `none` if a read fails. -/
def allocateFree (read : ℕ → Bool) (endingBlock : ℕ) : ℕ → ExtendedVCB → Cursor →
    Option ℕ × ExtendedVCB
  | 0,v,c => (some c.block,v)
  | n+1,v,c =>
    if c.currentWord&&&c.bitMask=0 then
      let c : Cursor := {c with currentWord := c.currentWord|||c.bitMask}
      if (c.block+1)%2^32=endingBlock then (some endingBlock,v.store c.word c.currentWord)
      else
        let v := if c.bitMask>>>1=0 then v.store c.word c.currentWord else v
        match c.next v read with
        | none => (none,v)
        | some c => allocateFree read endingBlock n v c
    else (some c.block,v.store c.word c.currentWord)

/-- The reads of one call: while it searches, in its first and in its second attempt, and
while it changes the bitmap. -/
structure BitmapReads where
  first : ℕ → Bool
  second : ℕ → Bool
  change : ℕ → Bool

def blockAllocateAny (v : ExtendedVCB) (search change : ℕ → Bool)
    (startingBlock endingBlock maxBlocks : ℕ) : Except OSErr (ℕ × ℕ) × ExtendedVCB :=
  let room := (2^32+endingBlock-startingBlock)%2^32
  let maxBlocks := if room < maxBlocks then room else maxBlocks
  if search 0=false then (.error .ioErr,v)
  else
    match findFree v search (endingBlock-startingBlock) (v.cursorAt startingBlock 1) with
    | none => (.error .ioErr,v)
    | some c =>
      if c.block=endingBlock then (.error .dskFulErr,v)
      else
        let actualStartBlock := c.block
        let endingBlock :=
          if c.block<(2^32+endingBlock-maxBlocks)%2^32 then (c.block+maxBlocks)%2^32
          else endingBlock
        match allocateFree change endingBlock (2^32+endingBlock-c.block) v {c with reads := 1} with
        | (none,v) => (.error .ioErr,v)
        | (some block,v) =>
          (.ok (actualStartBlock,(2^32+block-actualStartBlock)%2^32),v)

/-- The state of the search of `BlockFindContiguous`. -/
structure FindState where
  currentBlock : ℕ
  stopBlock : ℕ
  freeBlocks : ℕ
  countedFreeBlocks : ℕ
  word : ℕ
  tempWord : BitVec 32
  bitMask : BitVec 32
  wordsLeft : ℕ
  currentSector : ℕ
  reads : ℕ

/-- What is known after a step of the search. -/
inductive FindStep
  | failed
  | enough (s : FindState)
  | more (s : FindState)

/-- Back to the word before, perhaps in the bitmap block of `currentBlock`; `none` if its
read fails. -/
def FindState.previousWord (v : ExtendedVCB) (read : ℕ → Bool) (s : FindState) : Option FindState :=
  if s.wordsLeft≠0 then
    some { s with
      word := s.word-1
      wordsLeft := s.wordsLeft-1
      tempWord := v.bitmap (s.word-1)}
  else if read s.reads=false then none
  else
    let word := readBitmapBlock s.currentBlock+kWordsPerBlock-1
    some { s with
      currentSector := s.currentBlock/kBitsPerBlock
      word := word
      wordsLeft := kWordsPerBlock-1
      tempWord := v.bitmap word
      reads := s.reads+1}

/-- The part at `NextWord`, which skips words of free blocks, at most `n` of them. -/
def nextWord (v : ExtendedVCB) (read : ℕ → Bool) (minBlocks : ℕ) : ℕ → FindState → FindStep
  | 0,s => .more s
  | n+1,s =>
    match s.previousWord v read with
    | none => .failed
    | some s =>
      if s.tempWord=0 then
        let s : FindState := { s with
          freeBlocks := s.freeBlocks+kBitsPerWord
          currentBlock := (2^32+s.currentBlock-kBitsPerWord)%2^32}
        if minBlocks ≤ s.freeBlocks+s.countedFreeBlocks then .enough s
        else nextWord v read minBlocks n s
      else .more s

def findLoop (v : ExtendedVCB) (read : ℕ → Bool) (endingBlock minBlocks : ℕ) :
    ℕ → FindState → Option FindState
  | 0,s => some s
  | n+1,s =>
    if s.stopBlock ≤ s.currentBlock then
      if s.tempWord&&&s.bitMask=0 then
        let s : FindState := { s with
          freeBlocks := s.freeBlocks+1
          currentBlock := (2^32+s.currentBlock-1)%2^32
          bitMask := s.bitMask<<<1}
        if s.bitMask=0 then
          match nextWord v read minBlocks (2^32) {s with bitMask := kLowBitInWordMask} with
          | .failed => none
          | .enough s => some s
          | .more s => findLoop v read endingBlock minBlocks n s
        else findLoop v read endingBlock minBlocks n s
      else if minBlocks ≤ s.freeBlocks+s.countedFreeBlocks then some s
      else
        -- a used block: the next candidate starts right after it
        let s : FindState := { s with
          stopBlock := s.currentBlock+1+s.freeBlocks
          currentBlock := (s.currentBlock+minBlocks)%2^32}
        if endingBlock ≤ s.currentBlock then some s
        else
          let s : FindState := {s with countedFreeBlocks := s.freeBlocks,freeBlocks := 0}
          let newSector := s.currentBlock/kBitsPerBlock
          if s.currentSector≠newSector ∧ read s.reads=false then none
          else
            let wordsLeft := s.currentBlock%kBitsPerBlock/kBitsPerWord
            let word := readBitmapBlock s.currentBlock+wordsLeft
            findLoop v read endingBlock minBlocks n { s with
              reads := if s.currentSector≠newSector then s.reads+1 else s.reads
              currentSector := newSector
              wordsLeft := wordsLeft
              word := word
              tempWord := v.bitmap word
              bitMask := kHighBitInWordMask>>>(s.currentBlock%kBitsPerWord)}
    else some s

/-- The forward search that takes more free blocks, over at most `n` blocks; `none` if a
read fails. -/
def growLoop (v : ExtendedVCB) (read : ℕ → Bool) (maxBlocks : ℕ) : ℕ → Cursor → ℕ → Option ℕ
  | 0,_,actualNumBlocks => some actualNumBlocks
  | n+1,c,actualNumBlocks =>
    if c.currentWord&&&c.bitMask=0 then
      if actualNumBlocks+1=maxBlocks then some maxBlocks
      else
        match c.next v read with
        | none => none
        | some c => growLoop v read maxBlocks n c (actualNumBlocks+1)
    else some actualNumBlocks

def blockFindContiguous (v : ExtendedVCB) (read : ℕ → Bool)
    (startingBlock endingBlock minBlocks maxBlocks : ℕ) : Except OSErr (ℕ × ℕ) :=
  if (2^32+endingBlock-startingBlock)%2^32 < minBlocks then .error .dskFulErr
  else
    let currentBlock := (2^32+(startingBlock+minBlocks)-1)%2^32
    if read 0=false then .error .ioErr
    else
      let wordsLeft := currentBlock%kBitsPerBlock/kBitsPerWord
      let word := readBitmapBlock currentBlock+wordsLeft
      -- each block is looked at once, and at most a word below block 0
      match findLoop v read endingBlock minBlocks (2*kBitsPerWord+endingBlock)
        { currentBlock := currentBlock
          stopBlock := startingBlock
          freeBlocks := 0
          countedFreeBlocks := 0
          word := word
          tempWord := v.bitmap word
          bitMask := kHighBitInWordMask>>>(currentBlock%kBitsPerWord)
          wordsLeft := wordsLeft
          currentSector := currentBlock/kBitsPerBlock
          reads := 1} with
      | none => .error .ioErr
      | some s =>
        if s.freeBlocks+s.countedFreeBlocks < minBlocks then .error .dskFulErr
        else
          let actualStartBlock := s.stopBlock-s.countedFreeBlocks
          let currentBlock := actualStartBlock+minBlocks
          if s.currentSector≠currentBlock/kBitsPerBlock ∧ read s.reads=false then
            -- the space has been found already
            .ok (actualStartBlock,minBlocks)
          else if minBlocks < maxBlocks then
            let reads := if s.currentSector≠currentBlock/kBitsPerBlock then s.reads+1 else s.reads
            match growLoop v read maxBlocks (endingBlock-currentBlock)
              (v.cursorAt currentBlock reads) minBlocks with
            | none => .error .ioErr
            | some actualNumBlocks => .ok (actualStartBlock,actualNumBlocks)
          else .ok (actualStartBlock,minBlocks)

def markBits (allocate : Bool) (x bitMask : BitVec 32) : BitVec 32 :=
  if allocate then x|||bitMask else x&&&~~~bitMask

/-- Where a marking loop is: the next word, how many words the bitmap block still has,
and the block number of its last read. -/
structure MarkState where
  startingBlock : ℕ
  word : ℕ
  wordsLeft : ℕ
  reads : ℕ

def MarkState.refill (read : ℕ → Bool) (s : MarkState) : Option MarkState :=
  if s.wordsLeft=0 then
    let startingBlock := (s.startingBlock+kBitsPerBlock)%2^32
    if read s.reads=false then none
    else some ⟨startingBlock,readBitmapBlock startingBlock,kWordsPerBlock,s.reads+1⟩
  else some s

def markWords (allocate : Bool) (read : ℕ → Bool) : ℕ → ExtendedVCB → MarkState → ℕ →
    Option OSErr × ExtendedVCB
  | 0,v,s,numBlocks =>
    if numBlocks≠0 then
      match s.refill read with
      | none => (some .ioErr,v)
      | some s =>
        (none,v.store s.word
          (markBits allocate (v.bitmap s.word) (~~~(kAllBitsSetInWord>>>numBlocks))))
    else (none,v)
  | n+1,v,s,numBlocks =>
    match s.refill read with
    | none => (some .ioErr,v)
    | some s =>
      markWords allocate read n (v.store s.word (if allocate then kAllBitsSetInWord else 0))
        {s with word := s.word+1,wordsLeft := s.wordsLeft-1} (numBlocks-kBitsPerWord)

def blockMark (allocate : Bool) (v : ExtendedVCB) (read : ℕ → Bool) (startingBlock numBlocks : ℕ) :
    Option OSErr × ExtendedVCB :=
  if read 0=false then (some .ioErr,v)
  else
    let wordIndexInBlock := startingBlock%kBitsPerBlock/kBitsPerWord
    let s : MarkState := ⟨startingBlock,readBitmapBlock startingBlock+wordIndexInBlock,
      kWordsPerBlock-wordIndexInBlock,1⟩
    let firstBit := startingBlock%kBitsPerWord
    if firstBit≠0 then
      let numBits := if numBlocks<kBitsPerWord-firstBit then numBlocks else kBitsPerWord-firstBit
      let bitMask := kAllBitsSetInWord>>>firstBit
      let bitMask :=
        if numBlocks<kBitsPerWord-firstBit then
          bitMask&&&~~~(kAllBitsSetInWord>>>(firstBit+numBits))
        else bitMask
      markWords allocate read ((numBlocks-numBits)/kBitsPerWord)
        (v.store s.word (markBits allocate (v.bitmap s.word) bitMask))
        {s with word := s.word+1,wordsLeft := s.wordsLeft-1} (numBlocks-numBits)
    else markWords allocate read (numBlocks/kBitsPerWord) v s numBlocks

def blockMarkAllocated (v : ExtendedVCB) (read : ℕ → Bool) (startingBlock numBlocks : ℕ) :
    Option OSErr × ExtendedVCB := blockMark true v read startingBlock numBlocks

def blockMarkFree (v : ExtendedVCB) (read : ℕ → Bool) (startingBlock numBlocks : ℕ) :
    Option OSErr × ExtendedVCB := blockMark false v read startingBlock numBlocks

def findContiguous (v : ExtendedVCB) (reads : BitmapReads)
    (startingBlock minBlocks maxBlocks : ℕ) : Except OSErr (ℕ × ℕ) :=
  match v.blockFindContiguous reads.first startingBlock v.totalBlocks minBlocks maxBlocks with
  | .ok found => .ok found
  | .error e =>
    if e=.dskFulErr then
      v.blockFindContiguous reads.second 0 v.totalBlocks minBlocks maxBlocks
    else .error e

def blockAllocateContig (v : ExtendedVCB) (reads : BitmapReads)
    (startingBlock minBlocks maxBlocks : ℕ) : Except OSErr (ℕ × ℕ) × ExtendedVCB :=
  match v.findContiguous reads startingBlock minBlocks maxBlocks with
  | .error e => (.error e,v)
  | .ok (actualStartBlock,actualNumBlocks) =>
    match v.blockMarkAllocated reads.change actualStartBlock actualNumBlocks with
    | (some e,v) => (.error e,v)
    | (none,v) => (.ok (actualStartBlock,actualNumBlocks),v)

def allocateAny (v : ExtendedVCB) (reads : BitmapReads) (startingBlock maxBlocks : ℕ) :
    Except OSErr (ℕ × ℕ) × ExtendedVCB :=
  match v.blockAllocateAny reads.first reads.change startingBlock v.totalBlocks maxBlocks with
  | (.ok found,v) => (.ok found,v)
  | (.error e,v) =>
    if e=.dskFulErr then v.blockAllocateAny reads.second reads.change 0 startingBlock maxBlocks
    else (.error e,v)

def blockAllocate (v : ExtendedVCB) (reads : BitmapReads) (startingBlock : ℕ)
    (bytesRequested bytesMaximum : ℤ) (forceContiguous : Bool) :
    Except OSErr (ℕ × ℕ) × ExtendedVCB :=
  let minBlocks := fileBytesToBlocks bytesRequested v.blockSize
  let maxBlocks := fileBytesToBlocks bytesMaximum v.blockSize
  if v.freeBlocks=0 then (.error .dskFulErr,v)
  else if forceContiguous ∧ v.freeBlocks < minBlocks then (.error .dskFulErr,v)
  else
    let updateAllocPtr := decide (startingBlock=0)
    let startingBlock := if startingBlock=0 then v.nextAllocation else startingBlock
    let allocated :=
      if forceContiguous then v.blockAllocateContig reads startingBlock minBlocks maxBlocks
      else v.allocateAny reads startingBlock maxBlocks
    match allocated with
    | (.error e,v) => (.error e,v)
    | (.ok (actualStartBlock,actualNumBlocks),v) =>
      (.ok (actualStartBlock,actualNumBlocks),
        { v with
          nextAllocation := if updateAllocPtr then actualStartBlock else v.nextAllocation
          freeBlocks := v.freeBlocks-actualNumBlocks})

def blockDeallocate (v : ExtendedVCB) (read : ℕ → Bool) (firstBlock numBlocks : ℕ) :
    Option OSErr × ExtendedVCB :=
  if numBlocks=0 then (none,v)
  else
    match v.blockMarkFree read firstBlock numBlocks with
    | (some e,v) => (some e,v)
    | (none,v) => (none,{v with freeBlocks := v.freeBlocks+numBlocks})

end ExtendedVCB
end Darwin.Hfs
