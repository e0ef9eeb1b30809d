import Darwin.Hfs.TruncateFork

/-! `MapFileBlockC`: the sector of a byte of a fork, and how many bytes follow each other from
there. -/
open Option List Nat
namespace Darwin.Hfs
open Lib Catalog
namespace Extents

def kSectorSize : ℕ := 512

def daddr (x : ℤ) : ℤ := x.bmod (2^32)

/-- The loop of `MapFileBlockFromFCB`: the first file block of the extent, its first volume
block, and the file block behind it. Block counts have the width of the volume format. -/
def mapLoop (fabnLimit : ℕ) : ExtentRecord → ℕ → ℕ → Option (ℕ × ℕ × ℕ)
  | [],_,_ => none
  | e::es,offsetBlocks,currentFABN =>
    let blockCount := e.blockCount%fabnLimit
    if blockCount=0 then none
    else if offsetBlocks<blockCount then
      some (currentFABN,e.startBlock,(currentFABN+blockCount)%fabnLimit)
    else mapLoop fabnLimit es (offsetBlocks-blockCount) ((currentFABN+blockCount)%fabnLimit)

def MapFileBlockFromFCB (v : Volume) (fcb : FCB) (offset : ℕ) : Option (ℕ × ℕ × ℕ) :=
  mapLoop v.vcbSigWord.fabnLimit fcb.fcbExtents (offset/v.blockSize%2^32) 0

def findExtent (v : Volume) (fcb : FCB) (offset : ℕ) : Except OSErr (ℕ × ℕ × ℕ) :=
  match MapFileBlockFromFCB v fcb offset with
  | some found => .ok found
  | none =>
    let s := SearchExtentFile v fcb offset
    match s.err with
    | some err => .error err
    | none =>
      let e := s.foundExtentData.getD s.foundExtentIndex ⟨0,0⟩
      .ok ((2^32+s.endingFABNPlusOne-e.blockCount)%2^32,e.startBlock,s.endingFABNPlusOne)

def Volume.firstSector (v : Volume) : ℕ :=
  match v.vcbSigWord with
  | .kHFSPlusSigWord => v.hfsPlusIOPosOffset/512
  | .kHFSSigWord => v.vcbAlBlSt

def MapFileBlockC (v : Volume) (fcb : FCB) (numberOfBytes offset : ℕ) : Except OSErr (ℤ × ℕ) :=
  match findExtent v fcb offset with
  | .error err => .error err
  | .ok (firstFABN,startBlock,nextFABN) =>
    let dataEnd := nextFABN*v.blockSize
    let dataEnd := if fcb.fcbPLen<dataEnd then fcb.fcbPLen else dataEnd
    let sectorsPerBlock := v.blockSize/kSectorSize
    let temp := daddr (((offset : ℤ)-(firstFABN*v.blockSize : ℕ)).tdiv kSectorSize)
    let temp := daddr (temp+(startBlock*sectorsPerBlock%2^32 : ℕ))
    let temp := daddr (temp+v.firstSector)
    let tmpOff : ℤ := dataEnd-offset
    .ok (temp,if (numberOfBytes : ℤ)<tmpOff then numberOfBytes else (tmpOff%2^32).toNat)

def byteAddress (v : Volume) (fcb : FCB) (offset : ℕ) : Option ℕ :=
  (physicalBlock (extentList v fcb) (offset/v.blockSize)).map fun block =>
    v.firstSector*kSectorSize+block*v.blockSize+offset%v.blockSize

/-- What the mapping owes its caller. -/
structure MapsFile (v : Volume) (fcb : FCB) (numberOfBytes offset : ℕ)
    (r : Except OSErr (ℤ × ℕ)) : Prop where
  inside : offset<fcb.fcbPLen → ∃ address availableBytes,
    r=.ok ((address/kSectorSize : ℕ),availableBytes) ∧
      1≤availableBytes ∧ availableBytes≤numberOfBytes ∧
      ∀ i<availableBytes,byteAddress v fcb (offset+i)=some (address+i)
  outside : fcb.fcbPLen≤offset → ∃ err,r=.error err

section
variable {v : Volume} {fcb : FCB} {r : ExtentRecord}

lemma mapLoop_found (limit : ℕ) (hp : Packed r) (offset current : ℕ) (hsmall : current+blocks r<limit)
    (hlt : offset<blocks r) : ∃ before e behind,r=before++e::behind ∧ blocks before≤offset ∧
      offset<blocks before+e.blockCount ∧ mapLoop limit r offset current =
        some (current+blocks before,e.startBlock,current+blocks before+e.blockCount) := by
  induction r generalizing offset current with
  | nil => exact absurd hlt (not_lt_zero offset)
  | cons e es ih =>
    obtain ⟨hempty,hp⟩ := pairwise_cons.mp hp
    rw [blocks_cons] at hsmall hlt
    rw [mapLoop,mod_eq_of_lt (show e.blockCount<limit by omega),
      mod_eq_of_lt (show current+e.blockCount<limit by omega)]
    by_cases hzero : e.blockCount=0
    · rw [blocks_of_empty fun d hd => hempty d hd hzero] at hlt
      omega
    rw [if_neg hzero]
    by_cases hhere : offset<e.blockCount
    · exact ⟨[],e,es,rfl,zero_le _,by rwa [blocks_nil,zero_add],if_pos hhere⟩
    · obtain ⟨before,d,behind,rfl,hle,hlt',hres⟩ := ih hp (offset-e.blockCount)
        (current+e.blockCount) (by omega) (by omega)
      refine ⟨e::before,d,behind,rfl,?_,?_,?_⟩
      · rw [blocks_cons]
        omega
      · rw [blocks_cons]
        omega
      · rw [if_neg hhere,hres,blocks_cons,add_assoc current]

lemma mapLoop_not_found (limit : ℕ) (hp : Packed r) (offset current : ℕ)
    (hsmall : current+blocks r<limit)
    (hge : blocks r≤offset) : mapLoop limit r offset current=none := by
  induction r generalizing offset current with
  | nil => rfl
  | cons e es ih =>
    obtain ⟨hempty,hp⟩ := pairwise_cons.mp hp
    rw [blocks_cons] at hsmall hge
    rw [mapLoop,mod_eq_of_lt (show e.blockCount<limit by omega),
      mod_eq_of_lt (show current+e.blockCount<limit by omega)]
    by_cases hzero : e.blockCount=0
    · rw [if_pos hzero]
    · rw [if_neg hzero,if_neg (by omega)]
      exact ih hp _ _ (by omega) (by omega)

lemma findExtent_found (h : WellFormed v fcb) {offset b : ℕ}
    (hb : offset/v.blockSize%2^32=b) (hlt : b<blocks (extentList v fcb)) :
    ∃ before e behind,extentList v fcb=before++e::behind ∧ blocks before≤b ∧
      b<blocks before+e.blockCount ∧ findExtent v fcb offset =
        .ok (blocks before,e.startBlock,blocks before+e.blockCount) := by
  have hlimit := h.small
  have hsmall := h.small.trans_le (fabnLimit_le v.vcbSigWord)
  have htotal : blocks (extentList v fcb)=_ := blocks_extentList
  rw [findExtent,MapFileBlockFromFCB,hb]
  rcases lt_or_ge b (blocks fcb.fcbExtents) with hfcb | hover
  · obtain ⟨before,e,behind,heq,hle,hlt',hres⟩ := mapLoop_found
      v.vcbSigWord.fabnLimit h.packed b 0 (by omega) hfcb
    rw [hres]
    refine ⟨before,e,behind++(overflowRecords v fcb).flatMap Prod.snd,?_,hle,hlt',?_⟩
    · rw [extentList,heq,append_assoc]
      rfl
    · rw [zero_add]
  · rw [mapLoop_not_found v.vcbSigWord.fabnLimit h.packed b 0 (by omega) hover]
    obtain ⟨before,e,behind,heq,hle,hlt',herr,hdata,hend⟩ := searchExtentFile_found h hb hlt
    refine ⟨before,e,behind,heq,hle,hlt',?_⟩
    have hcount : blocks before+e.blockCount≤blocks (extentList v fcb) := by
      rw [heq,blocks_append,blocks_cons]
      omega
    dsimp only
    rw [herr,getD_eq_getElem?_getD,hdata,hend]
    dsimp only [getD_some]
    congr 2
    omega

lemma findExtent_not_found (h : WellFormed v fcb) {offset : ℕ}
    (hge : blocks (extentList v fcb)≤offset/v.blockSize%2^32) :
    findExtent v fcb offset=.error .fxRangeErr := by
  have hlimit := h.small
  have htotal : blocks (extentList v fcb)=_ := blocks_extentList
  rw [findExtent,MapFileBlockFromFCB,mapLoop_not_found _ h.packed _ 0 (by omega) (by omega)]
  dsimp only
  rw [searchExtentFile_not_found h hge]

lemma byteAddress_extent {before behind : List ExtentDescriptor} {e : ExtentDescriptor}
    (heq : extentList v fcb=before++e::behind) {offset : ℕ} (hpos : 0<v.blockSize)
    (h1 : blocks before*v.blockSize≤offset)
    (h2 : offset<(blocks before+e.blockCount)*v.blockSize) :
    byteAddress v fcb offset=some (v.firstSector*kSectorSize+e.startBlock*v.blockSize +
      (offset-blocks before*v.blockSize)) := by
  have hle : blocks before≤offset/v.blockSize := (le_div_iff_mul_le hpos).mpr h1
  have hlt : offset/v.blockSize<blocks before+e.blockCount :=
    (div_lt_iff_lt_mul hpos).mpr h2
  rw [byteAddress,heq,physicalBlock_extent hle hlt,map_some]
  have hsplit : (e.startBlock+(offset/v.blockSize-blocks before))*v.blockSize =
      e.startBlock*v.blockSize + (offset/v.blockSize*v.blockSize-blocks before*v.blockSize) := by
    rw [Nat.add_mul,Nat.sub_mul]
  have hdiv := Nat.div_add_mod' offset v.blockSize
  have hmul : blocks before*v.blockSize≤offset/v.blockSize*v.blockSize :=
    mul_le_mul_right _ hle
  rw [hsplit]
  congr 1
  omega

lemma daddr_add_add (x : ℤ) (y z : ℕ) : daddr (daddr (daddr x+(y%2^32 : ℕ))+z)=daddr (x+y+z) := by
  rw [daddr,daddr,daddr,daddr,show ((y%2^32 : ℕ) : ℤ)=(y : ℤ)%((2^32 : ℕ) : ℤ) from rfl,
    Int.add_emod_bmod,Int.bmod_add_bmod,add_assoc,Int.bmod_add_bmod,add_assoc]

lemma daddr_eq_iff (n : ℕ) : daddr n=n ↔ n<2^31 := by
  constructor
  · intro h
    have hlt := Int.bmod_lt (x := n) (m := 2^32) (by decide)
    rw [←daddr,h] at hlt
    omega
  · intro h
    exact Int.bmod_eq_of_le (by omega) (by omega)

lemma mapFileBlockC_of_found {numberOfBytes offset firstFABN startBlock nextFABN : ℕ}
    (h : findExtent v fcb offset=.ok (firstFABN,startBlock,nextFABN))
    (hsector : 512 ∣ v.blockSize) (hle : firstFABN*v.blockSize≤offset) :
    MapFileBlockC v fcb numberOfBytes offset =
      .ok (daddr ((v.firstSector*kSectorSize+startBlock*v.blockSize +
          (offset-firstFABN*v.blockSize))/kSectorSize : ℕ),
        if (numberOfBytes : ℤ)<((min (nextFABN*v.blockSize) fcb.fcbPLen : ℕ) : ℤ)-offset then
          numberOfBytes
        else ((((min (nextFABN*v.blockSize) fcb.fcbPLen : ℕ) : ℤ)-offset)%2^32).toNat) := by
  have hend : (if fcb.fcbPLen<nextFABN*v.blockSize then fcb.fcbPLen
      else nextFABN*v.blockSize)=min (nextFABN*v.blockSize) fcb.fcbPLen := by
    split_ifs <;> omega
  obtain ⟨s,hs⟩ := hsector
  have hdiv : (((offset : ℤ)-(firstFABN*v.blockSize : ℕ)).tdiv kSectorSize) =
      ((offset-firstFABN*v.blockSize)/kSectorSize : ℕ) := by
    rw [←cast_sub hle]
    rfl
  have hsum : (v.firstSector*kSectorSize+startBlock*v.blockSize +
      (offset-firstFABN*v.blockSize))/kSectorSize =
      (offset-firstFABN*v.blockSize)/kSectorSize+startBlock*(v.blockSize/kSectorSize) +
        v.firstSector := by
    have hmul : startBlock*v.blockSize=startBlock*(v.blockSize/kSectorSize)*512 := by
      rw [hs,kSectorSize,Nat.mul_div_cancel_left s (by decide)]
      ring
    rw [hmul,kSectorSize]
    omega
  rw [MapFileBlockC,h]
  dsimp only
  rw [hend,hdiv,hsum,daddr_add_add,cast_add,cast_add]

/-- The mapping is right for an offset of the fork exactly if bytes are asked for and the sector
fits a `daddr_t`, and a later offset gives an error exactly if its block number, of 32 bits,
is not one of the fork. -/
theorem mapFileBlockC_maps_iff (h : WellFormed v fcb) {numberOfBytes : ℕ}
    (hbytes : numberOfBytes<2^32) (offset : ℕ) :
    MapsFile v fcb numberOfBytes offset (MapFileBlockC v fcb numberOfBytes offset) ↔
      (offset<fcb.fcbPLen → 1≤numberOfBytes ∧
        ∀ address,byteAddress v fcb offset=some address → address/kSectorSize<2^31) ∧
      (fcb.fcbPLen≤offset →
        blocks (extentList v fcb)≤offset/v.blockSize%2^32) := by
  have hsmall := h.small.trans_le (fabnLimit_le v.vcbSigWord)
  obtain ⟨hpos,hsector⟩ := h.sector
  rcases lt_or_ge offset fcb.fcbPLen with hin | hout
  · -- the block number of an offset of the fork is not cut off
    have hblock : offset/v.blockSize<blocks (extentList v fcb) :=
      (div_lt_iff_lt_mul hpos).mpr (hin.trans_le h.pLen)
    obtain ⟨before,e,behind,heq,hle,hlt,hfound⟩ := findExtent_found h
      (mod_eq_of_lt (hblock.trans hsmall)) hblock
    have hle' : blocks before*v.blockSize≤offset := (le_div_iff_mul_le hpos).mp hle
    have hlt' : offset<(blocks before+e.blockCount)*v.blockSize :=
      (div_lt_iff_lt_mul hpos).mp hlt
    have haddress := byteAddress_extent heq hpos hle' hlt'
    rw [mapFileBlockC_of_found hfound hsector hle',haddress]
    obtain ⟨address,hA⟩ : ∃ address,address=v.firstSector*kSectorSize +
      e.startBlock*v.blockSize+(offset-blocks before*v.blockSize) := ⟨_,rfl⟩
    obtain ⟨dataEnd,hD⟩ : ∃ dataEnd,dataEnd =
      min ((blocks before+e.blockCount)*v.blockSize) fcb.fcbPLen := ⟨_,rfl⟩
    rw [←hA] at haddress ⊢
    rw [←hD]
    constructor
    · intro hmaps
      refine ⟨fun _ => ?_,fun hge => by omega⟩
      obtain ⟨address',available,hok,hone,hbound,hbyte⟩ := hmaps.inside hin
      have hfirst := hbyte 0 hone
      rw [add_zero,haddress] at hfirst
      obtain ⟨hsec,-⟩ := Prod.mk.inj (Except.ok.inj hok)
      refine ⟨hone.trans hbound,fun a ha => ?_⟩
      rw [←some.inj ha]
      rw [←show address=address' from some.inj hfirst,daddr_eq_iff] at hsec
      exact hsec
    · rintro ⟨hcond,-⟩
      obtain ⟨hone,hfits⟩ := hcond hin
      have havailable : (if (numberOfBytes : ℤ)<(dataEnd : ℤ)-offset then numberOfBytes
          else (((dataEnd : ℤ)-offset)%2^32).toNat)=min numberOfBytes (dataEnd-offset) := by
        split_ifs <;> omega
      refine ⟨fun _ => ⟨address,min numberOfBytes (dataEnd-offset),?_,by omega,by omega,?_⟩,
        fun hge => by omega⟩
      · rw [(daddr_eq_iff _).mpr (hfits address rfl),havailable]
      · intro i hi
        rw [byteAddress_extent heq hpos (by omega) (by omega),hA,some.injEq]
        omega
  · constructor
    · intro hmaps
      refine ⟨fun hlt => by omega,fun _ => ?_⟩
      by_contra hlt
      obtain ⟨before,e,behind,-,-,-,hfound⟩ := findExtent_found h rfl (Nat.lt_of_not_le hlt)
      obtain ⟨err,herr⟩ := hmaps.outside hout
      rw [MapFileBlockC,hfound] at herr
      cases herr
    · rintro ⟨-,hcond⟩
      refine ⟨fun hlt => by omega,fun _ => ⟨.fxRangeErr,?_⟩⟩
      rw [MapFileBlockC,findExtent_not_found h (hcond hout)]

end

def smallVolume : Volume :=
  { blockSize := 512
    totalBlocks := 100
    freeBlocks := 99
    nextAllocation := 0
    bitmap := fun _ => 0
    vcbSigWord := .kHFSPlusSigWord
    hfsPlusIOPosOffset := 0
    vcbAlBlSt := 0
    extents := SortedMap.empty}

def oneBlockFile : FCB := ⟨20,0,⟨7,1⟩::replicate 7 ⟨0,0⟩,512⟩

lemma oneBlockFile_wellFormed : WellFormed smallVolume oneBlockFile where
  sector := by decide
  length := by decide
  packed := by
    rw [Packed]
    decide
  full := fun h => absurd rfl h
  chain := trivial
  small := by decide
  pLen := by decide
  fits := by decide

theorem mapFileBlockC_maps_iff_oneBlockFile :
    MapsFile smallVolume oneBlockFile 512 100 (MapFileBlockC smallVolume oneBlockFile 512 100) ↔
      (100<oneBlockFile.fcbPLen → 1≤512 ∧
        ∀ address,byteAddress smallVolume oneBlockFile 100=some address →
          address/kSectorSize<2^31) ∧
      (oneBlockFile.fcbPLen≤100 → blocks (extentList smallVolume oneBlockFile) ≤
        100/smallVolume.blockSize%2^32) :=
  mapFileBlockC_maps_iff oneBlockFile_wellFormed (by decide) 100

/-- Two terabytes behind the end of the file the block number is 0 again. -/
theorem oneBlockFile_maps_far : MapFileBlockC smallVolume oneBlockFile 512 (2^41)=.ok (7,512) ∧
      ¬MapsFile smallVolume oneBlockFile 512 (2^41)
        (MapFileBlockC smallVolume oneBlockFile 512 (2^41)) := by
  have hok : MapFileBlockC smallVolume oneBlockFile 512 (2^41)=.ok (7,512) := by decide
  refine ⟨hok,fun h => ?_⟩
  obtain ⟨err,herr⟩ := h.outside (by decide)
  rw [hok] at herr
  cases herr

end Extents
end Darwin.Hfs
