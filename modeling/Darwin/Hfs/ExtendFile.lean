import Darwin.Hfs.TruncateFork
import Darwin.Hfs.VolumeAmount
import Mathlib.Data.List.TakeWhile

/-! `ExtendFileC`, from `Misc/FileExtentMapping.c`, where any read of the bitmap and any access to
the extents file may fail. -/
open List Nat
namespace Darwin.Hfs.Extents
open Lib Catalog

/-- The errors of `ExtendFileC`; `ioErr` stands for those of the B-tree. -/
inductive ExtendErr
  | dskFulErr
  | fxOvFlErr
  | fileBoundsErr
  | ioErr
  deriving DecidableEq

def kHFSExtentsFileID : ℕ := 3

/-- What happens below one round of the loop: which accesses succeed, how the insertion of a record
ends, and what it leaves of the volume, since the extents file may have to grow for it. -/
structure ExtendRound extends DiskAccess where
  reads : ExtendedVCB.BitmapReads
  create : Option ExtendErr
  grown : ExtendedVCB → ExtendedVCB

/-- The variables of the loop of `ExtendFileC`. -/
structure ExtendState where
  vcb : Volume
  fcb : FCB
  foundKey : Option ExtentKey
  foundData : ExtentRecord
  foundIndex : ℕ
  nextBlock : ℕ
  bytesToAdd : ℤ
  maximumBytes : ℤ
  wantContig : Bool

/-- A round ends the loop, or another one follows. -/
inductive RoundEnd
  | done (err : Option ExtendErr) (s : ExtendState)
  | again (s : ExtendState)

namespace ExtendRound

def CreateExtentRecord (io : ExtendRound) (v : Volume) (key : ExtentKey) (extents : ExtentRecord) :
    Option ExtendErr × Volume :=
  let grown := io.grown v.toExtendedVCB
  let v : Volume := { v with
    bitmap := grown.bitmap
    freeBlocks := grown.freeBlocks
    nextAllocation := grown.nextAllocation}
  if (v.extents.get key).isSome then (some .ioErr,v)
  else
    match io.create with
    | some err => (some err,v)
    | none => (none,{v with extents := v.extents.put key extents})

def updateRecord (io : ExtendRound) (s : ExtendState) (foundData : ExtentRecord) (foundIndex : ℕ) :
    Option ExtendErr × ExtendState :=
  let r := io.UpdateExtentRecord s.vcb s.fcb s.foundKey foundData
  (r.1.map fun _ => .ioErr,
    {s with vcb := r.2.1,fcb := r.2.2,foundData := foundData,foundIndex := foundIndex})

def createRecord (io : ExtendRound) (s : ExtendState) (actualStartBlock actualNumBlocks : ℕ) :
    Option ExtendErr × ExtendState :=
  let key : ExtentKey := toLex (s.fcb.fileID,
    toLex (s.fcb.forkType,s.nextBlock%s.vcb.vcbSigWord.fabnLimit))
  let foundData := ⟨actualStartBlock,actualNumBlocks⟩::
    replicate (s.vcb.vcbSigWord.numExtentsPerRecord-1) ⟨0,0⟩
  match io.CreateExtentRecord s.vcb key foundData with
  | (some err,v) =>
    -- the extents file could not grow: the blocks are given back
    if err=.fxOvFlErr then
      (some .dskFulErr,{s with vcb := (io.BlockDeallocate v actualStartBlock actualNumBlocks).2})
    else (some err,{s with vcb := v})
  | (none,v) =>
    (none,{s with vcb := v,foundKey := some key,foundData := foundData,foundIndex := 0})

def addExtent (io : ExtendRound) (s : ExtendState)
    (startBlock actualStartBlock actualNumBlocks : ℕ) : Option ExtendErr × ExtendState :=
  let e := s.foundData.getD s.foundIndex ⟨0,0⟩
  if actualStartBlock=startBlock then
    io.updateRecord s
      (s.foundData.set s.foundIndex ⟨e.startBlock,(e.blockCount+actualNumBlocks)%2^32⟩)
      s.foundIndex
  else
    let foundIndex := if e.blockCount≠0 then s.foundIndex+1 else s.foundIndex
    if foundIndex=s.vcb.vcbSigWord.numExtentsPerRecord then
      if s.fcb.fileID=kHFSExtentsFileID then (some .fxOvFlErr,s)
      else io.createRecord s actualStartBlock actualNumBlocks
    else
      io.updateRecord s (s.foundData.set foundIndex ⟨actualStartBlock,actualNumBlocks⟩) foundIndex

def countExtent (s : ExtendState) (volumeBlockSize actualNumBlocks : ℕ) : ExtendState :=
  let bytesThisExtent := actualNumBlocks*volumeBlockSize
  { s with
    nextBlock := (s.nextBlock+actualNumBlocks)%2^32
    bytesToAdd := if s.bytesToAdd<bytesThisExtent then 0 else s.bytesToAdd-bytesThisExtent
    maximumBytes :=
      if s.bytesToAdd<bytesThisExtent then s.maximumBytes else s.maximumBytes-bytesThisExtent
    fcb := {s.fcb with fcbPLen := s.fcb.fcbPLen+bytesThisExtent}}

def round (io : ExtendRound) (volumeBlockSize : ℕ) (forceContig : Bool) (s : ExtendState) :
    RoundEnd :=
  let e := s.foundData.getD s.foundIndex ⟨0,0⟩
  let startBlock := (e.startBlock+e.blockCount)%2^32
  match s.vcb.blockAllocate io.reads startBlock s.bytesToAdd s.maximumBytes s.wantContig with
  | (.error err,v) =>
    let s := {s with vcb := {s.vcb with toExtendedVCB := v}}
    if err=.ioErr then .done (some .ioErr) s
    else if forceContig=true ∨ s.wantContig=false then .done (some .dskFulErr) s
    else if s.bytesToAdd=0 then .done none {s with wantContig := false}
    else .again {s with wantContig := false}
  | (.ok (actualStartBlock,actualNumBlocks),v) =>
    match io.addExtent {s with vcb := {s.vcb with toExtendedVCB := v}} startBlock
      actualStartBlock actualNumBlocks with
    | (some err,s) => .done (some err) s
    | (none,s) =>
      let s := countExtent s volumeBlockSize actualNumBlocks
      if forceContig then .done (if s.bytesToAdd≠0 then some .dskFulErr else none) s
      else if s.bytesToAdd=0 then .done none s
      else .again s

end ExtendRound

def extendLoop (volumeBlockSize : ℕ) (forceContig : Bool) :
    ℕ → (ℕ → ExtendRound) → ExtendState → Option ExtendErr × ExtendState
  | 0,_,s => (none,s)
  | n+1,io,s =>
    match (io 0).round volumeBlockSize forceContig s with
    | .done err s => (err,s)
    | .again s => extendLoop volumeBlockSize forceContig n (fun k => io (k+1)) s

/-- What happens below a call: whether the record that the search needs can be read, and then the
rounds of the loop. -/
structure ExtendAccess where
  find : Bool
  round : ℕ → ExtendRound

structure ExtendResult where
  err : Option ExtendErr
  vcb : Volume
  fcb : FCB
  actualBytesAdded : ℤ

def extendExit (previousPEOF : ℕ) (err : Option ExtendErr) (v : Volume) (fcb : FCB) :
    ExtendResult :=
  ⟨err,v,fcb,fcb.fcbPLen-previousPEOF⟩

def kTwoGigabytes : ℤ := 0x80000000

/-- The part of `ExtendFileC` from where it is known how many bytes are to be added. -/
def ExtendAccess.extend (io : ExtendAccess) (v : Volume) (fcb : FCB) (bytesToAdd maximumBytes : ℤ)
    (forceContig : Bool) : ExtendResult :=
  let peof := fcb.fcbPLen+bytesToAdd
  let block := (peof-1).toNat/v.blockSize%2^32
  if DiskAccess.needsRecord fcb block ∧ io.find=false then
    extendExit fcb.fcbPLen (some .ioErr) v fcb
  else
    let f := SearchExtentFile v fcb (peof-1).toNat
    if f.err=none then
      extendExit fcb.fcbPLen none v {fcb with fcbPLen := peof.toNat}
    else
      let peof := f.endingFABNPlusOne*v.blockSize
      let r := extendLoop v.blockSize forceContig ((bytesToAdd-(peof-fcb.fcbPLen)).toNat+2)
        io.round
        { vcb := v
          fcb := {fcb with fcbPLen := peof}
          foundKey := f.foundExtentKey
          foundData := f.foundExtentData
          foundIndex := f.foundExtentIndex
          nextBlock := f.endingFABNPlusOne
          bytesToAdd := bytesToAdd-(peof-fcb.fcbPLen)
          maximumBytes := maximumBytes
          wantContig := true}
      extendExit fcb.fcbPLen r.1 r.2.vcb r.2.fcb

def ExtendAccess.ExtendFileC (io : ExtendAccess) (v : Volume) (fcb : FCB) (fcbClmpSize : ℕ)
    (bytesToAdd : ℤ) (allOrNothing forceContig : Bool) : ExtendResult :=
  if v.vcbSigWord=.kHFSSigWord ∧
      (kTwoGigabytes≤bytesToAdd ∨ kTwoGigabytes≤fcb.fcbPLen+bytesToAdd) then
    extendExit fcb.fcbPLen (some .fileBoundsErr) v fcb
  else
    let blocksToAdd := ExtendedVCB.fileBytesToBlocks bytesToAdd v.blockSize
    let bytesToAdd : ℤ := blocksToAdd*v.blockSize
    let maximumBytes : ℤ :=
      if v.blockSize<fcbClmpSize then
        ExtendedVCB.fileBytesToBlocks bytesToAdd fcbClmpSize*fcbClmpSize
      else bytesToAdd
    if v.vcbSigWord=.kHFSSigWord ∧ kTwoGigabytes≤fcb.fcbPLen+bytesToAdd then
      if allOrNothing then extendExit fcb.fcbPLen (some .fileBoundsErr) v fcb
      else io.extend v fcb (bytesToAdd-v.blockSize) maximumBytes forceContig
    else if allOrNothing=true ∧ v.freeBlocks<blocksToAdd then
      extendExit fcb.fcbPLen (some .dskFulErr) v fcb
    else io.extend v fcb bytesToAdd maximumBytes forceContig

end Darwin.Hfs.Extents

/-! The end of a fork: where `SearchExtentFile` stops when it does not find a block, and how extents
are written and added there. -/
namespace Darwin.Hfs.Extents
open Lib Catalog

/-- The last record of a fork holds the extents `data`, those before it hold `first`. -/
def LastRecord (v : Volume) (fcb : FCB) (key : Option ExtentKey)
    (first data : List ExtentDescriptor) : Prop :=
  key=none ∧ fcb.fcbExtents=data ∧ first=[] ∧ overflowRecords v fcb=[] ∨
  key=some (overflowKey fcb (blocks first)) ∧ ∃ pre,
    overflowRecords v fcb=pre++[(blocks first,data)] ∧
    first=fcb.fcbExtents++pre.flatMap Prod.snd ∧ ∀ x∈pre,x.1<blocks first

section Record
variable {v : Volume} {fcb : FCB} {key : Option ExtentKey} {first data : List ExtentDescriptor}

lemma LastRecord.extentList (h : LastRecord v fcb key first data) :
    extentList v fcb=first++data := by
  rw [Extents.extentList]
  rcases h with ⟨-,hfcb,rfl,hnil⟩ | ⟨-,pre,hrecords,rfl,-⟩
  · rw [hfcb,hnil]
    simp
  · rw [hrecords]
    simp

lemma LastRecord.key_lt (h : LastRecord v fcb key first data) (hpos : 0<blocks data)
    {x : ℕ × ExtentRecord} (hx : x∈overflowRecords v fcb) : x.1<blocks (first++data) := by
  rw [blocks_append]
  rcases h with ⟨-,-,-,hnil⟩ | ⟨-,pre,hrecords,-,hbefore⟩
  · rw [hnil] at hx
    cases hx
  · rw [hrecords] at hx
    rcases mem_append.mp hx with hx | hx
    · have := hbefore x hx
      omega
    · rw [mem_singleton.mp hx]
      dsimp only
      omega

lemma LastRecord.update (h : LastRecord v fcb key first data) (io : DiskAccess)
    (data' : List ExtentDescriptor) : io.UpdateExtentRecord v fcb key data'=(some .ioErr,v,fcb) ∨
    ∃ v' fcb',io.UpdateExtentRecord v fcb key data'=(none,v',fcb') ∧
      LastRecord v' fcb' key first data' ∧ v'.toExtendedVCB=v.toExtendedVCB ∧
      v'.vcbSigWord=v.vcbSigWord ∧ SameFork fcb fcb' := by
  rcases h with ⟨rfl,-,rfl,hnil⟩ | ⟨rfl,pre,hrecords,hfirst,hbefore⟩
  · exact .inr ⟨v,_,rfl,.inl ⟨rfl,rfl,rfl,hnil⟩,rfl,rfl,⟨_,rfl⟩⟩
  · rw [DiskAccess.UpdateExtentRecord]
    by_cases hupdate : io.update=false
    · exact .inl (if_pos hupdate)
    · refine .inr ⟨_,fcb,if_neg hupdate,.inr ⟨rfl,pre,?_,hfirst,hbefore⟩,rfl,rfl,⟨_,rfl⟩⟩
      rw [overflowRecords_put (by rw [hrecords]; exact mem_append_right _ mem_cons_self),
        hrecords,map_sides hbefore (forall_mem_nil _)]

lemma LastRecord.create (h : LastRecord v fcb key first data) (hpos : 0<blocks data)
    (data' : List ExtentDescriptor) : v.extents.get (overflowKey fcb (blocks (first++data)))=none ∧
    LastRecord {v with extents := v.extents.put (overflowKey fcb (blocks (first++data))) data'}
      fcb (some (overflowKey fcb (blocks (first++data)))) (first++data) data' := by
  have hlt : ∀ x∈overflowRecords v fcb,x.1<blocks (first++data) :=
    fun x hx => h.key_lt hpos hx
  refine ⟨?_,.inr ⟨rfl,overflowRecords v fcb,?_,h.extentList.symm,hlt⟩⟩
  · cases hget : v.extents.get (overflowKey fcb (blocks (first++data))) with
    | none => rfl
    | some r =>
      exact absurd (hlt _ (mem_overflowRecords.mpr (SortedMap.get_eq_some_iff.mp hget)))
        (lt_irrefl _)
  · have hput := SortedMap.filter_putEntry_last (v := data')
      (p := fun key : ExtentKey => key.fileID=fcb.fileID ∧ key.forkType=fcb.forkType)
      (k := overflowKey fcb (blocks (first++data))) ⟨rfl,rfl⟩ v.extents.sorted ?_
    · rw [overflowRecords,SortedMap.put,overflowRecords]
      dsimp only
      rw [hput,map_append]
      rfl
    · intro e he hfork
      have hmem : (e.1.startBlock,e.2)∈overflowRecords v fcb :=
        mem_map.mpr ⟨e,mem_filter.mpr ⟨he,decide_eq_true hfork⟩,rfl⟩
      rw [overflowKey_eq_iff.mpr ⟨hfork.1,hfork.2,rfl⟩]
      exact Prod.Lex.lt_iff.mpr (.inr ⟨rfl,Prod.Lex.lt_iff.mpr (.inr ⟨rfl,hlt _ hmem⟩)⟩)

end Record

section Search
variable {b : ℕ} {r : ExtentRecord}

lemma searchLoop_index (hp : Packed r) (index ending : ℕ) (hsmall : ending+blocks r<2^32)
    (h : ending+blocks r≤b) : (searchLoop b r index ending).foundExtentIndex =
      index+(r.takeWhile fun e => e.blockCount≠0).length-1 := by
  induction r generalizing index ending with
  | nil => rfl
  | cons e es ih =>
    obtain ⟨hempty,hp⟩ := pairwise_cons.mp hp
    rw [blocks_cons] at hsmall h
    rw [searchLoop]
    by_cases hzero : e.blockCount=0
    · rw [if_pos hzero,takeWhile_cons_of_neg (by simpa using hzero)]
      rfl
    · rw [if_neg hzero,mod_eq_of_lt (by omega),
        takeWhile_cons_of_pos (by simpa using hzero)]
      simp only [if_neg (show ¬b<ending+e.blockCount by omega)]
      rw [ih hp (index+1) (ending+e.blockCount) (by omega) (by omega),length_cons]
      omega

lemma exists_last (hp : Packed r) (hne : r≠[]) :
    ∃ xs e ys,r=xs++e::ys ∧ (∀ d∈ys,d.blockCount=0) ∧ (e.blockCount=0 → xs=[]) ∧
      (r.takeWhile fun e => e.blockCount≠0).length-1=xs.length := by
  have hrest : ∀ d∈r.dropWhile fun e => e.blockCount≠0,d.blockCount=0 := by
    cases hdrop : r.dropWhile fun e => e.blockCount≠0 with
    | nil => exact forall_mem_nil _
    | cons d ds =>
      have hd : d.blockCount=0 := by
        have := head?_dropWhile_not (fun e : ExtentDescriptor => decide (e.blockCount≠0)) r
        rw [hdrop] at this
        simpa using this
      have hpd : Packed (d::ds) := by
        rw [←hdrop]
        exact hp.sublist (dropWhile_sublist _)
      exact forall_mem_cons.mpr ⟨hd,fun x hx => (pairwise_cons.mp hpd).1 x hx hd⟩
  have hsplit := takeWhile_append_dropWhile
    (p := fun e : ExtentDescriptor => decide (e.blockCount≠0)) (l := r)
  rcases eq_nil_or_concat (r.takeWhile fun e => e.blockCount≠0) with hnil | ⟨xs,e,hxs⟩
  · obtain ⟨e,ys,rfl⟩ := exists_cons_of_ne_nil hne
    rw [hnil,nil_append] at hsplit
    rw [hsplit] at hrest
    exact ⟨[],e,ys,rfl,fun d hd => hrest d (mem_cons_of_mem e hd),fun _ => rfl,
      by rw [hnil]; rfl⟩
  · rw [hxs] at hsplit
    refine ⟨xs,e,_,?_,hrest,fun hzero => ?_,?_⟩
    · rw [concat_eq_append,append_assoc] at hsplit
      exact hsplit.symm
    · have he : e∈r.takeWhile fun e => e.blockCount≠0 := by
        rw [hxs]
        simp
      exact absurd hzero (by simpa using mem_takeWhile_imp he)
    · rw [hxs]
      simp

variable {v : Volume} {fcb : FCB}

lemma searchExtentFile_end (h : WellFormed v fcb) {filePosition : ℕ}
    (hb : filePosition/v.blockSize%2^32=b) (hge : blocks (extentList v fcb)≤b)
    (hlimit : b<v.vcbSigWord.fabnLimit) :
    ∃ key first xs e ys,LastRecord v fcb key first (xs++e::ys) ∧
      (∀ d∈ys,d.blockCount=0) ∧ (e.blockCount=0 → first=[] ∧ xs=[]) ∧
      (xs++e::ys).length=v.vcbSigWord.numExtentsPerRecord ∧ SearchExtentFile v fcb filePosition =
        ⟨some .fxRangeErr,key,xs++e::ys,xs.length,blocks (extentList v fcb)⟩ := by
  have hsmall := h.small.trans_le (fabnLimit_le v.vcbSigWord)
  have htotal : blocks (extentList v fcb)=_ := blocks_extentList
  have hlength : ∀ r : ExtentRecord,r.length=v.vcbSigWord.numExtentsPerRecord → r≠[] := by
    rintro r hr rfl
    cases hsig : v.vcbSigWord <;> rw [hsig] at hr <;> cases hr
  obtain ⟨hfound,hend,hmore⟩ := searchLoop_not_found h.packed 0 0 (b := b) (by omega) (by omega)
  have hindex := searchLoop_index h.packed 0 0 (b := b) (by omega) (by omega)
  rw [SearchExtentFile,hb]
  dsimp only
  rw [SearchExtentRecord,hfound]
  rcases eq_nil_or_concat (overflowRecords v fcb) with hnil | ⟨pre,⟨k,r⟩,hrecords⟩
  · obtain ⟨xs,e,ys,hr,hys,hzero,hlast⟩ := exists_last h.packed (hlength _ h.length.1)
    have hresult : (⟨some .fxRangeErr,none,fcb.fcbExtents,
        (searchLoop b fcb.fcbExtents 0 0).foundExtentIndex,
        (searchLoop b fcb.fcbExtents 0 0).endingFABNPlusOne⟩ : FileSearch) =
        ⟨some .fxRangeErr,none,xs++e::ys,xs.length,blocks (extentList v fcb)⟩ := by
      rw [hindex,hend,zero_add,hlast,hr,htotal,hnil,hr]
      simp
    refine ⟨none,[],xs,e,ys,.inl ⟨rfl,hr,rfl,hnil⟩,hys,fun h => ⟨rfl,hzero h⟩,hr▸h.length.1,?_⟩
    cases hfull : (searchLoop b fcb.fcbExtents 0 0).noMoreExtents with
    | true =>
      rw [if_pos (Or.inr rfl),RecordSearch.err,hfound]
      exact hresult
    | false =>
      rw [if_neg (by simp)]
      cases hfind : FindExtentRecord v fcb.forkType fcb.fileID b true with
      | none => exact hresult
      | some found =>
        obtain ⟨key,data⟩ := found
        have hmem := find_mem hfind
        rw [hnil] at hmem
        cases hmem
  · rw [concat_eq_append] at hrecords
    have hmem : (k,r)∈overflowRecords v fcb := by
      rw [hrecords]
      exact mem_append_right _ mem_cons_self
    have hchain := h.chain
    rw [hrecords] at hchain
    obtain ⟨hk,hbefore,-,hpacked,hpos,-⟩ := hchain.sides
    have hkend := h.chain.end_le hmem
    dsimp only at hkend
    have hfind := find_of_unique hmem (b := b) (by omega) hlimit fun x hx h1 _ => by
      rw [hrecords] at hx
      rcases mem_append.mp hx with hx | hx
      · exact absurd (hbefore x hx) (not_lt.mpr h1)
      · exact mem_singleton.mp hx
    rw [if_neg (by rw [hmore.mpr (h.full fun hnil => by rw [hnil] at hmem; cases hmem)]; simp),
      hfind]
    obtain ⟨xs,e,ys,hr,hys,hzero,hlast⟩ := exists_last hpacked (hlength _ (h.length.2 _ hmem))
    obtain ⟨hfound',hend',-⟩ := searchLoop_not_found hpacked 0 k (b := b) (by omega) (by omega)
    have hindex' := searchLoop_index hpacked 0 k (b := b) (by omega) (by omega)
    have hfirst : blocks (fcb.fcbExtents++pre.flatMap Prod.snd)=k := by rw [blocks_append,hk]
    refine ⟨some (overflowKey fcb k),fcb.fcbExtents++pre.flatMap Prod.snd,xs,e,ys,
      .inr ⟨by rw [hfirst],pre,?_,rfl,?_⟩,hys,fun hempty => ?_,hr▸h.length.2 _ hmem,?_⟩
    · rw [hfirst,←hr]
      exact hrecords
    · rw [hfirst]
      exact hbefore
    · rw [hr,hzero hempty,nil_append,blocks_cons,hempty,blocks_of_empty hys] at hpos
      cases hpos
    · have hall : blocks (extentList v fcb)=k+blocks r := by
        rw [htotal,hrecords,flatMap_append,blocks_append,hk]
        simp [add_assoc]
      simp only [SearchExtentRecord,ExtentKey.startBlock,overflowKey,ofLex_toLex]
      rw [hindex',hend',RecordSearch.err,hfound',hall,←hr,zero_add,hlast]
      rfl

end Search

end Darwin.Hfs.Extents
