import Darwin.Hfs.ExtendRun
import Darwin.Hfs.TruncateResult

/-! What a call of `ExtendFileC` does to a fork. -/
open Nat
namespace Darwin.Hfs.Extents
open Lib Catalog

/-- A call has kept the blocks of a fork where they were; without an error it has extended it to the
length `peof`, and in no case to more than `limit` blocks. -/
structure ExtendsTo (v : Volume) (fcb : FCB) (peof limit : ℕ) (r : ExtendResult) : Prop where
  kept : ∀ b<blocks (extentList v fcb),
    physicalBlock (extentList r.vcb r.fcb) b=physicalBlock (extentList v fcb) b
  actual : (r.fcb.fcbPLen : ℤ)=fcb.fcbPLen+r.actualBytesAdded
  pLen : r.fcb.fcbPLen≤blocks (extentList r.vcb r.fcb)*v.blockSize
  limit : r.fcb.fcbPLen≤limit*v.blockSize
  reached : r.err=none → peof≤r.fcb.fcbPLen

def requestBlocks (v : Volume) (bytesToAdd : ℕ) : ℕ :=
  ExtendedVCB.fileBytesToBlocks bytesToAdd v.blockSize

def maximumBlocks (v : Volume) (fcbClmpSize bytesToAdd : ℕ) : ℕ :=
  let bytes := requestBlocks v bytesToAdd*v.blockSize
  ExtendedVCB.fileBytesToBlocks
    ((if v.blockSize<fcbClmpSize then
      ExtendedVCB.fileBytesToBlocks bytes fcbClmpSize*fcbClmpSize else bytes : ℕ) : ℤ) v.blockSize

/-- The request reaches 2 GB on an HFS volume when it is rounded up to blocks. -/
def ReachesLimit (v : Volume) (fcb : FCB) (bytesToAdd : ℕ) : Prop :=
  v.vcbSigWord=.kHFSSigWord ∧ 2^31≤fcb.fcbPLen+requestBlocks v bytesToAdd*v.blockSize

/-- The blocks up to the new end have numbers of the volume format, and 32 bits are enough for the
fork with the request and a clump. -/
structure Addressable (v : Volume) (fcb : FCB) (fcbClmpSize bytesToAdd : ℕ) : Prop where
  peof : (fcb.fcbPLen+bytesToAdd)/v.blockSize+1<v.vcbSigWord.fabnLimit
  clump : blocks (extentList v fcb)+(bytesToAdd+fcbClmpSize)/v.blockSize+2<2^32
  block : v.vcbSigWord=.kHFSSigWord → v.blockSize<2^31

/-- The extents of a fork are inside its volume. -/
structure InVolume (v : Volume) (fcb : FCB) : Prop where
  size : v.totalBlocks+32≤2^32
  next : v.nextAllocation≤v.totalBlocks
  extents : ∀ d∈extentList v fcb,d.startBlock+d.blockCount≤v.totalBlocks

/-- What a call does. The fork gets at least what is asked for, less one block where this would
reach 2 GB and the caller takes less; a request that has to be granted as a whole and is too large
changes nothing. -/
structure Extends (v : Volume) (fcb : FCB) (fcbClmpSize bytesToAdd : ℕ) (allOrNothing : Bool)
    (r : ExtendResult) : Prop where
  kept : ∀ b<blocks (extentList v fcb),
    physicalBlock (extentList r.vcb r.fcb) b=physicalBlock (extentList v fcb) b
  actual : (r.fcb.fcbPLen : ℤ)=fcb.fcbPLen+r.actualBytesAdded
  allocated : r.fcb.fcbPLen≤blocks (extentList r.vcb r.fcb)*v.blockSize
  grown : r.err=none → fcb.fcbPLen+bytesToAdd≤r.fcb.fcbPLen ∨
    ReachesLimit v fcb bytesToAdd ∧ allOrNothing=false ∧
      fcb.fcbPLen+bytesToAdd≤r.fcb.fcbPLen+v.blockSize
  refused : allOrNothing=true →
    ReachesLimit v fcb bytesToAdd ∨ v.freeBlocks<requestBlocks v bytesToAdd →
    r.err≠none ∧ r.vcb=v ∧ r.fcb=fcb
  small : v.vcbSigWord=.kHFSSigWord →
    (blocks (extentList v fcb)+maximumBlocks v fcbClmpSize bytesToAdd)*v.blockSize<2^31 →
    r.fcb.fcbPLen<2^31

section Extend
variable {v : Volume} {fcb : FCB} {peof : ℕ}

lemma extendExit_actual (previousPEOF : ℕ) (err : Option ExtendErr) (v : Volume) (fcb : FCB) :
    ((extendExit previousPEOF err v fcb).fcb.fcbPLen : ℤ) =
      previousPEOF+(extendExit previousPEOF err v fcb).actualBytesAdded :=
  (add_sub_cancel _ _).symm

lemma extendExit_unchanged (h : WellFormed v fcb) (err : ExtendErr) (peof : ℕ) {limit : ℕ}
    (hlimit : blocks (extentList v fcb)≤limit) :
    ExtendsTo v fcb peof limit (extendExit fcb.fcbPLen (some err) v fcb) :=
  ⟨fun _ _ => rfl,extendExit_actual _ _ _ _,h.pLen,
    h.pLen.trans (mul_le_mul_right _ hlimit),fun hnone => by cases hnone⟩

lemma extend_spec (h : WellFormed v fcb) (hv : InVolume v fcb) {m n : ℕ} (hmn : m≤n)
    (hpos : 0<fcb.fcbPLen+m)
    (hpeof : (fcb.fcbPLen+m-1)/v.blockSize<v.vcbSigWord.fabnLimit)
    (hn : n/v.blockSize+1<2^32)
    (hlimit : blocks (extentList v fcb)+ExtendedVCB.fileBytesToBlocks n v.blockSize<2^32)
    (io : ExtendAccess) (forceContig : Bool) : ExtendsTo v fcb (fcb.fcbPLen+m)
      (blocks (extentList v fcb)+ExtendedVCB.fileBytesToBlocks n v.blockSize)
      (io.extend v fcb m n forceContig) := by
  have hbs := h.sector.1
  have hlen := h.pLen
  have hend : ((fcb.fcbPLen : ℤ)+(m : ℤ)-1).toNat=fcb.fcbPLen+m-1 := by omega
  have hblock : (fcb.fcbPLen+m-1)/v.blockSize%2^32=(fcb.fcbPLen+m-1)/v.blockSize :=
    mod_eq_of_lt (hpeof.trans_le (fabnLimit_le _))
  rw [ExtendAccess.extend,hend]
  by_cases hread : DiskAccess.needsRecord fcb ((fcb.fcbPLen+m-1)/v.blockSize%2^32)=true ∧
      io.find=false
  · simp only [if_pos hread]
    exact extendExit_unchanged h _ _ (le_add_right _ _)
  simp only [if_neg hread]
  rcases lt_or_ge ((fcb.fcbPLen+m-1)/v.blockSize) (blocks (extentList v fcb)) with
    hlt | hge
  · -- there are enough blocks already
    obtain ⟨-,-,-,-,-,-,hfound,-⟩ := searchExtentFile_found h hblock hlt
    have hle : fcb.fcbPLen+m≤blocks (extentList v fcb)*v.blockSize := by
      have := (div_lt_iff_lt_mul hbs).mp hlt
      omega
    rw [if_pos hfound]
    refine ⟨fun _ _ => rfl,extendExit_actual _ _ _ _,?_,?_,fun _ => ?_⟩
    · change ((fcb.fcbPLen : ℤ)+(m : ℤ)).toNat≤_
      exact le_trans (by omega) hle
    · change ((fcb.fcbPLen : ℤ)+(m : ℤ)).toNat≤_
      exact le_trans (by omega) (hle.trans (mul_le_mul_right _ (le_add_right _ _)))
    · change _≤((fcb.fcbPLen : ℤ)+(m : ℤ)).toNat
      omega
  · obtain ⟨key,first,xs,e,ys,hrecord,hempty,-,hlength,hsearch⟩ :=
      searchExtentFile_end h hblock hge hpeof
    have hmore : blocks (extentList v fcb)*v.blockSize<fcb.fcbPLen+m := by
      have := (le_div_iff_mul_le hbs).mp hge
      omega
    rw [hsearch,if_neg (by simp)]
    dsimp only
    have hgrowing : Growing v fcb (fcb.fcbPLen+m)
        (blocks (extentList v fcb)+ExtendedVCB.fileBytesToBlocks n v.blockSize)
        { vcb := v
          fcb := {fcb with fcbPLen := blocks (extentList v fcb)*v.blockSize}
          foundKey := key
          foundData := xs++e::ys
          foundIndex := xs.length
          nextBlock := blocks (extentList v fcb)
          bytesToAdd :=
            (m : ℤ)-(((blocks (extentList v fcb)*v.blockSize : ℕ) : ℤ)-fcb.fcbPLen)
          maximumBytes := n
          wantContig := true} := by
      have hlist : extentList v fcb=first++(xs++e::ys) := hrecord.extentList
      refine ⟨rfl,rfl,rfl,⟨first,xs,ys,e,⟨rfl,rfl,hrecord,hempty,hlength,?_⟩,fun _ => hv.next⟩,rfl,
        le_rfl,fun _ _ => rfl,rfl,
        fcb.fcbPLen+m-blocks (extentList v fcb)*v.blockSize,n,?_,rfl,by omega,by omega,?_,hn,
        le_rfl⟩
      · exact hv.extents e (by rw [hlist]; simp)
      · dsimp only
        omega
      · dsimp only
        omega
    have hended := hgrowing.extendLoop hv.size hbs hpeof hlimit forceContig
      (((m : ℤ)-(((blocks (extentList v fcb)*v.blockSize : ℕ) : ℤ)-fcb.fcbPLen)).toNat+2)
      io.round ?_
    · refine ⟨hended.kept,extendExit_actual _ _ _ _,hended.pLen.le,?_,hended.reached⟩
      exact hended.pLen.le.trans (mul_le_mul_right _ hended.limit)
    · exact lt_succ_self _

lemma Addressable.sizes (h : WellFormed v fcb) {fcbClmpSize bytesToAdd : ℕ}
    (ha : Addressable v fcb fcbClmpSize bytesToAdd) :
    ∃ n : ℕ,(n : ℤ)=(if v.blockSize<fcbClmpSize then
        (ExtendedVCB.fileBytesToBlocks ((requestBlocks v bytesToAdd : ℤ)*v.blockSize)
          fcbClmpSize*fcbClmpSize : ℤ) else (requestBlocks v bytesToAdd : ℤ)*v.blockSize) ∧
      maximumBlocks v fcbClmpSize bytesToAdd=ExtendedVCB.fileBytesToBlocks n v.blockSize ∧
      bytesToAdd≤requestBlocks v bytesToAdd*v.blockSize ∧ requestBlocks v bytesToAdd*v.blockSize≤n ∧
      requestBlocks v bytesToAdd*v.blockSize≤bytesToAdd+v.blockSize ∧ n/v.blockSize+1<2^32 ∧
      blocks (extentList v fcb)+ExtendedVCB.fileBytesToBlocks n v.blockSize<2^32 := by
  have hbs := h.sector.1
  have hclump := ha.clump
  have hdiv := Nat.div_le_div_right (c := v.blockSize) (Nat.le_add_right bytesToAdd fcbClmpSize)
  have hsmall : bytesToAdd/v.blockSize+1<2^32 := by omega
  have hle := ExtendedVCB.le_fileBytesToBlocks hsmall hbs
  have hge := ExtendedVCB.fileBytesToBlocks_le hsmall
  have hmul := div_mul_le_self bytesToAdd v.blockSize
  rw [←requestBlocks] at hle hge
  rw [maximumBlocks]
  have hbytes := mul_le_mul_right v.blockSize hge
  rw [add_mul,one_mul] at hbytes
  have hquot : requestBlocks v bytesToAdd*v.blockSize/v.blockSize=requestBlocks v bytesToAdd :=
    Nat.mul_div_cancel _ hbs
  generalize requestBlocks v bytesToAdd=q at *
  -- whatever the rounding is, less than a clump is added
  obtain ⟨n,hn,hmn,hnle⟩ : ∃ n,n=(if v.blockSize<fcbClmpSize then
      ExtendedVCB.fileBytesToBlocks ((q*v.blockSize : ℕ) : ℤ) fcbClmpSize*fcbClmpSize
        else q*v.blockSize) ∧ q*v.blockSize≤n ∧ n≤q*v.blockSize+fcbClmpSize := by
    refine ⟨_,rfl,?_⟩
    split_ifs with hclmp
    · have hdiv' := div_le_div_left hclmp.le hbs (a := q*v.blockSize)
      have hsmall' : q*v.blockSize/fcbClmpSize+1<2^32 := by omega
      have hround := mul_le_mul_right fcbClmpSize (ExtendedVCB.fileBytesToBlocks_le hsmall')
      have hmul' := div_mul_le_self (q*v.blockSize) fcbClmpSize
      rw [add_mul,one_mul] at hround
      exact ⟨ExtendedVCB.le_fileBytesToBlocks hsmall' (hbs.trans hclmp),by omega⟩
    · exact ⟨le_rfl,Nat.le_add_right _ _⟩
  have hdivn : n/v.blockSize≤(bytesToAdd+fcbClmpSize)/v.blockSize+1 := by
    rw [←Nat.add_div_right _ hbs]
    exact Nat.div_le_div_right (by omega)
  have hsmalln : n/v.blockSize+1<2^32 := by omega
  have hlen := ExtendedVCB.fileBytesToBlocks_le hsmalln
  refine ⟨n,?_,?_,hle,hmn,by omega,hsmalln,by omega⟩
  · rw [hn]
    split_ifs
    · push_cast
      rfl
    · push_cast
      rfl
  · rw [hn]

lemma ExtendsTo.extends {fcbClmpSize bytesToAdd : ℕ} {allOrNothing : Bool} {r : ExtendResult}
    (h : ExtendsTo v fcb peof (blocks (extentList v fcb)+maximumBlocks v fcbClmpSize bytesToAdd) r)
    (hgrown : fcb.fcbPLen+bytesToAdd≤peof ∨ ReachesLimit v fcb bytesToAdd ∧
      allOrNothing=false ∧ fcb.fcbPLen+bytesToAdd≤peof+v.blockSize)
    (hrefused : allOrNothing=true →
      ReachesLimit v fcb bytesToAdd ∨ v.freeBlocks<requestBlocks v bytesToAdd →
      r.err≠none ∧ r.vcb=v ∧ r.fcb=fcb) : Extends v fcb fcbClmpSize bytesToAdd allOrNothing r := by
  refine ⟨h.kept,h.actual,h.pLen,fun hnone => ?_,hrefused,fun _ hlt => h.limit.trans_lt hlt⟩
  have := h.reached hnone
  rcases hgrown with hle | ⟨hlimit,hall,hle⟩
  · exact .inl (hle.trans this)
  · exact .inr ⟨hlimit,hall,by omega⟩

/-- `ExtendFileC` keeps the blocks that a fork has, reports how much it has grown, and grows it by
what is asked for. -/
theorem extendFileC_extends (h : WellFormed v fcb) (hv : InVolume v fcb)
    {fcbClmpSize bytesToAdd : ℕ} (hpos : 0<bytesToAdd)
    (ha : Addressable v fcb fcbClmpSize bytesToAdd) (io : ExtendAccess)
    (allOrNothing forceContig : Bool) : Extends v fcb fcbClmpSize bytesToAdd allOrNothing
      (io.ExtendFileC v fcb fcbClmpSize bytesToAdd allOrNothing forceContig) := by
  obtain ⟨n,hn,hmax,hge,hmn,hle,hsmall,hlimit⟩ := ha.sizes h
  have hbs := h.sector.1
  have hpeof : ∀ m,m≤requestBlocks v bytesToAdd*v.blockSize →
      (fcb.fcbPLen+m-1)/v.blockSize<v.vcbSigWord.fabnLimit := by
    intro m hm
    refine lt_of_le_of_lt ?_ ha.peof
    rw [←add_div_right _ hbs]
    exact Nat.div_le_div_right (by omega)
  have hfail : ∀ err,Extends v fcb fcbClmpSize bytesToAdd allOrNothing
      (extendExit fcb.fcbPLen (some err) v fcb) := fun err =>
    (extendExit_unchanged h err (fcb.fcbPLen+bytesToAdd) (le_add_right _ _)).extends
      (.inl le_rfl) fun _ _ => ⟨Option.some_ne_none _,rfl,rfl⟩
  rw [ExtendAccess.ExtendFileC]
  by_cases hbound : v.vcbSigWord=.kHFSSigWord ∧
      (kTwoGigabytes≤(bytesToAdd : ℤ) ∨ kTwoGigabytes≤(fcb.fcbPLen : ℤ)+(bytesToAdd : ℤ))
  · rw [if_pos hbound]
    exact hfail _
  rw [if_neg hbound,←requestBlocks]
  dsimp only
  rw [←hn]
  have hreach : (v.vcbSigWord=.kHFSSigWord ∧
      kTwoGigabytes≤(fcb.fcbPLen : ℤ)+(requestBlocks v bytesToAdd : ℤ)*v.blockSize) ↔
      ReachesLimit v fcb bytesToAdd := by
    rw [ReachesLimit,kTwoGigabytes]
    refine and_congr_right fun _ => ?_
    rw [←cast_mul]
    omega
  by_cases hover : ReachesLimit v fcb bytesToAdd
  · rw [if_pos (hreach.mpr hover)]
    by_cases hall : allOrNothing=true
    · rw [if_pos hall]
      exact hfail _
    · -- one block less
      have hblock := ha.block hover.1
      have hlarge := hover.2
      have hone : v.blockSize≤requestBlocks v bytesToAdd*v.blockSize := by
        refine Nat.le_mul_of_pos_left _ (Nat.pos_of_ne_zero fun hzero => ?_)
        rw [hzero] at hge
        omega
      rw [if_neg hall,show (requestBlocks v bytesToAdd : ℤ)*v.blockSize-v.blockSize =
        ((requestBlocks v bytesToAdd*v.blockSize-v.blockSize : ℕ) : ℤ) by
          rw [cast_sub hone,cast_mul]]
      have hto := extend_spec h hv (m := requestBlocks v bytesToAdd*v.blockSize-v.blockSize)
        ((sub_le _ _).trans hmn) (by omega) (hpeof _ (sub_le _ _)) hsmall hlimit io
        forceContig
      rw [←hmax] at hto
      exact hto.extends (.inr ⟨hover,by simpa using hall,by omega⟩) fun hall' => absurd hall' hall
  · rw [if_neg (mt hreach.mp hover)]
    by_cases hfull : allOrNothing=true ∧ v.freeBlocks<requestBlocks v bytesToAdd
    · rw [if_pos hfull]
      exact hfail _
    · rw [if_neg hfull,←cast_mul]
      have hto := extend_spec h hv hmn (by omega) (hpeof _ le_rfl) hsmall hlimit io forceContig
      rw [←hmax] at hto
      exact hto.extends (.inl (by omega)) fun hall hor => absurd ⟨hall,hor.resolve_left hover⟩ hfull

end Extend

/-- An HFS volume with one free block, which is the one behind a file of almost 2 GB. -/
def nearlyFullHFS : Volume :=
  { blockSize := 65536
    totalBlocks := 40000
    freeBlocks := 1
    nextAllocation := 0
    bitmap := fun j => if j=1023 then 0xFFFFFFFD else 0xFFFFFFFF
    vcbSigWord := .kHFSSigWord
    hfsPlusIOPosOffset := 0
    vcbAlBlSt := 0
    extents := SortedMap.empty}

def largeFile : FCB := ⟨20,0,[⟨0,32766⟩,⟨0,0⟩,⟨0,0⟩],32766*65536⟩

lemma largeFile_wellFormed : WellFormed nearlyFullHFS largeFile where
  sector := by decide
  length := by decide
  packed := by
    rw [Packed]
    decide
  full := fun h => absurd rfl h
  chain := trivial
  small := by decide
  pLen := by decide
  fits := by decide

lemma largeFile_inVolume : InVolume nearlyFullHFS largeFile where
  size := by decide
  next := by decide
  extents := by decide

def readyAccess : ExtendAccess where
  find := true
  round _ :=
    { toDiskAccess := DiskAccess.all true
      reads := ⟨fun _ => true,fun _ => true,fun _ => true⟩
      create := none
      grown := id}

theorem largeFile_extends : Extends nearlyFullHFS largeFile 0 65537 false
    (readyAccess.ExtendFileC nearlyFullHFS largeFile 0 65537 false false) :=
  extendFileC_extends largeFile_wellFormed largeFile_inVolume (by decide)
    ⟨by decide,by decide,fun _ => by decide⟩ readyAccess false false

/-- The file gets one block where two are asked for, and there is no error. -/
theorem largeFile_grows_less :
    (readyAccess.ExtendFileC nearlyFullHFS largeFile 0 65537 false false).err=none ∧
      (readyAccess.ExtendFileC nearlyFullHFS largeFile 0 65537 false false).actualBytesAdded =
        65536 := by
  decide

lemma add_fileBytesToBlocks {n d k : ℕ} (hd : 0<d) (hfits : ceilBlocks n d<2^32)
    (hsmall : ¬(2^32≤n ∧ d ∣ n)) (hk : k*d≤n) :
    k+ExtendedVCB.fileBytesToBlocks ((n-k*d : ℕ) : ℤ) d=ceilBlocks n d := by
  obtain ⟨m,rfl⟩ : ∃ m,n=m+k*d := ⟨n-k*d,(Nat.sub_add_cancel hk).symm⟩
  have hceil : ceilBlocks (m+k*d) d=ceilBlocks m d+k := by
    rw [ceilBlocks,ceilBlocks,←add_mul_div_right _ _ hd]
    congr 1
    omega
  have hdvd : d ∣ m+k*d ↔ d ∣ m := (Nat.dvd_add_iff_left (Nat.dvd_mul_left d k)).symm
  rw [hceil] at hfits ⊢
  rw [hdvd] at hsmall
  rw [Nat.add_sub_cancel,(fileBytesToBlocks_eq_iff hd (by omega)).mpr fun h => hsmall ⟨by omega,h.2⟩,
    Nat.add_comm]

/-- The number of blocks of a length is rounded up, and a fork that is extended to the length by
what is missing from any number of whole blocks ends where one that is truncated to it does. -/
def SameBoundary (n d : ℕ) : Prop :=
  ExtendedVCB.fileBytesToBlocks n d=ceilBlocks n d ∧
    ∀ k,k*d≤n → k+ExtendedVCB.fileBytesToBlocks ((n-k*d : ℕ) : ℤ) d =
      ExtendedVCB.fileBytesToBlocks n d

/-- The rounding is right for every length and block size whose quotient fits, except for whole
numbers of blocks from 4 GB on. -/
theorem fileBytesToBlocks_sameBoundary_iff {n d : ℕ} (hd : 0<d) (hfits : ceilBlocks n d<2^32) :
    SameBoundary n d ↔ ¬(2^32≤n ∧ d ∣ n) := by
  rw [SameBoundary,←fileBytesToBlocks_eq_iff hd hfits]
  refine ⟨And.left,fun hceil => ⟨hceil,fun k hk => ?_⟩⟩
  have hnot := (fileBytesToBlocks_eq_iff hd hfits).mp hceil
  rw [hceil]
  exact add_fileBytesToBlocks hd hfits hnot hk

theorem fileBytesToBlocks_sameBoundary_iff_small :
    SameBoundary (2^33+1) 4096 ↔ ¬(2^32≤2^33+1 ∧ 4096 ∣ 2^33+1) :=
  fileBytesToBlocks_sameBoundary_iff (by decide) (by decide)

/-- 4 GB are 2^20 blocks of 4096 bytes, and one more is counted. -/
theorem fourGigabytes_one_block_more :
    ExtendedVCB.fileBytesToBlocks 4294967296 4096=1048577 ∧ ceilBlocks 4294967296 4096=1048576 ∧
      ¬SameBoundary 4294967296 4096 := by
  refine ⟨by decide,by decide,fun h => ?_⟩
  exact absurd h.1 (by decide)

end Darwin.Hfs.Extents
