import Darwin.Hfs.ForkExtents
import Darwin.Hfs.VolumeRun

/-! `TruncateFileC` and what it calls, where any read of the bitmap and any access to the extents
file may fail. -/
open List Function
namespace Darwin.Hfs.Extents
open Lib Lib.BitWords Catalog

/-- Which accesses succeed: to the extents file, by the file block that the record is looked up
or deleted under; to the bitmap, by the first volume block of a run and the reads so far. -/
structure DiskAccess where
  find : ℕ → Bool
  update : Bool
  delete : ℕ → Bool
  bitmap : ℕ → ℕ → Bool

namespace DiskAccess

def BlockDeallocate (io : DiskAccess) (v : Volume) (firstBlock numBlocks : ℕ) :
    Option OSErr × Volume :=
  let r := v.blockDeallocate (io.bitmap firstBlock) firstBlock numBlocks
  (r.1.map fun _ => .ioErr,{v with toExtendedVCB := r.2})

/-- `ReleaseExtents`: the error, the number of released blocks, and whether there was an empty
extent. -/
def ReleaseExtents (io : DiskAccess) : Volume → ExtentRecord → ℕ → Option OSErr × ℕ × Bool × Volume
  | v,[],released => (none,released,false,v)
  | v,e::es,released =>
    if e.blockCount=0 then (none,released,true,v)
    else
      match io.BlockDeallocate v e.startBlock e.blockCount with
      | (some err,v) => (some err,released,false,v)
      | (none,v) => ReleaseExtents io v es ((released+e.blockCount)%2^32)

def truncateLoop (io : DiskAccess) (forkType fileID : ℕ) : ℕ → Volume → ℕ → Option OSErr × Volume
  | 0,v,_ => (none,v)
  | n+1,v,startBlock =>
    if io.find startBlock=false then (some .ioErr,v)
    else
      match FindExtentRecord v forkType fileID startBlock false with
      | none => (none,v)
      | some (key,extents) =>
        match io.ReleaseExtents v extents 0 with
        | (some err,_,_,v) => (some err,v)
        | (none,released,_,v) =>
          if io.delete startBlock=false then (some .ioErr,v)
          else
            truncateLoop io forkType fileID n {v with extents := v.extents.erase key}
              ((startBlock+released)%2^32)

def TruncateExtents (io : DiskAccess) (v : Volume) (forkType fileID startBlock : ℕ) :
    Option OSErr × Volume :=
  io.truncateLoop forkType fileID (v.extents.entries.length+1) v startBlock

def DeallocateFork (io : DiskAccess) (v : Volume) (fcb : FCB) : Option OSErr × Volume :=
  match io.ReleaseExtents v fcb.fcbExtents 0 with
  | (some err,_,_,v) => (some err,v)
  | (none,released,releasedLastExtent,v) =>
    if releasedLastExtent then (none,v)
    else io.TruncateExtents v fcb.forkType fcb.fileID released

def UpdateExtentRecord (io : DiskAccess) (v : Volume) (fcb : FCB) (key : Option ExtentKey)
    (extentData : ExtentRecord) : Option OSErr × Volume × FCB :=
  match key with
  | none => (none,v,{fcb with fcbExtents := extentData})
  | some key =>
    if io.update=false then (some .ioErr,v,fcb)
    else (none,{v with extents := v.extents.put key extentData},fcb)

/-- The loop of `TruncateFileC` over the extents behind the one that is cut, with the next file
block: these extents are set to zero. -/
def releaseFollowing (io : DiskAccess) :
    Volume → List ExtentDescriptor → ℕ → Option OSErr × List ExtentDescriptor × ℕ × Volume
  | v,[],nextBlock => (none,[],nextBlock,v)
  | v,e::es,nextBlock =>
    if e.blockCount=0 then (none,e::es,nextBlock,v)
    else
      match io.BlockDeallocate v e.startBlock e.blockCount with
      | (some err,v) => (some err,e::es,nextBlock,v)
      | (none,v) =>
        let r := releaseFollowing io v es ((nextBlock+e.blockCount)%2^32)
        (r.1,⟨0,0⟩::r.2.1,r.2.2)

/-- The part of `TruncateFileC` that shortens the extent with the last block to keep. -/
def shorten (io : DiskAccess) (v : Volume) (e : ExtentDescriptor) (numBlocks : ℕ) :
    Option OSErr × ExtentDescriptor × Volume :=
  if numBlocks=0 then (none,e,v)
  else
    match io.BlockDeallocate v (e.startBlock+e.blockCount-numBlocks) numBlocks with
    | (some err,v) => (some err,e,v)
    | (none,v) =>
      let blockCount := e.blockCount-numBlocks
      (none,⟨if blockCount=0 then 0 else e.startBlock,blockCount⟩,v)

def needsRecord (fcb : FCB) (block : ℕ) : Bool :=
  let r := SearchExtentRecord block fcb.fcbExtents 0
  !r.found && !r.noMoreExtents

/-- The part of `TruncateFileC` from where the last extent to keep has been found. -/
def cutRecord (io : DiskAccess) (v : Volume) (fcb : FCB) (s : FileSearch)
    (nextBlock physNumBlocks : ℕ) (truncateToExtent : Bool) : Option OSErr × Volume × FCB :=
  let e := s.foundExtentData.getD s.foundExtentIndex ⟨0,0⟩
  let numBlocks := if truncateToExtent then 0 else (2^32+s.endingFABNPlusOne-nextBlock)%2^32
  match io.shorten v e numBlocks with
  | (some err,_,v) => (some err,v,fcb)
  | (none,e,v) =>
    match io.releaseFollowing v (s.foundExtentData.drop (s.foundExtentIndex+1))
      s.endingFABNPlusOne with
    | (some err,_,_,v) => (some err,v,fcb)
    | (none,following,nextBlock,v) =>
      let extentRecord := s.foundExtentData.take s.foundExtentIndex++e::following
      let extentChanged := decide (numBlocks≠0 ∨ nextBlock≠s.endingFABNPlusOne)
      match if extentChanged then io.UpdateExtentRecord v fcb s.foundExtentKey extentRecord
        else (none,v,fcb) with
      | (some err,v,fcb) => (some err,v,fcb)
      | (none,v,fcb) =>
        if nextBlock<physNumBlocks then
          let r := io.TruncateExtents v fcb.forkType fcb.fileID nextBlock
          (r.1,r.2,fcb)
        else (none,v,fcb)

def TruncateFileC (io : DiskAccess) (v : Volume) (fcb : FCB) (peof : ℕ)
    (truncateToExtent : Bool) : Option OSErr × Volume × FCB :=
  let physNumBlocks := fcb.fcbPLen/v.blockSize%2^32
  let nextBlock := ExtendedVCB.fileBytesToBlocks peof v.blockSize
  let peof := nextBlock*v.blockSize
  if v.vcbSigWord=.kHFSSigWord ∧ 2^31≤peof then (some .fileBoundsErr,v,fcb)
  else
    let fcb : FCB := {fcb with fcbPLen := peof}
    if peof=0 then
      match io.DeallocateFork v fcb with
      | (some err,v) => (some err,v,fcb)
      | (none,v) => (none,v,{fcb with fcbExtents := fcb.fcbExtents.map fun _ => ⟨0,0⟩})
    else
      let block := (peof-1)/v.blockSize%2^32
      if needsRecord fcb block ∧ io.find block=false then (some .ioErr,v,fcb)
      else
        let s := SearchExtentFile v fcb (peof-1)
        match s.err with
        | some err => (some err,v,fcb)
        | none => io.cutRecord v fcb s nextBlock physNumBlocks truncateToExtent

end DiskAccess

def runsFrom : ℕ → List ExtentDescriptor → List ExtentDescriptor
  | _,[] => []
  | n,e::es =>
    ⟨e.startBlock+min n e.blockCount,e.blockCount-n⟩::runsFrom (n-e.blockCount) es

def blockSet (es : List ExtentDescriptor) : Set ℕ :=
  {i | ∃ e∈es,e.startBlock ≤ i ∧ i<e.startBlock+e.blockCount}

/-- Exactly these blocks have been freed, and counted. -/
structure Frees (v v' : Volume) (es : List ExtentDescriptor) : Prop where
  same : v'.toExtendedVCB =
    {v.toExtendedVCB with bitmap := v'.bitmap,freeBlocks := v.freeBlocks+blocks es}
  bits : ∀ i,v'.bit i=true ↔ v.bit i=true ∧ i∉blockSet es

/-- The blocks of these extents can be freed: the bitmap can be read where they are. -/
def Freeable (io : DiskAccess) (v : Volume) (es : List ExtentDescriptor) : Prop :=
  ∀ e∈es,(v.blockDeallocate (io.bitmap e.startBlock) e.startBlock e.blockCount).1=none

section Runs
variable {xs ys es : List ExtentDescriptor} {n b i : ℕ}

@[simp] lemma blockSet_nil : blockSet []=∅ := by
  ext i
  simp [blockSet]

lemma mem_blockSet_cons {e : ExtentDescriptor} : i∈blockSet (e::es) ↔
    (e.startBlock ≤ i ∧ i<e.startBlock+e.blockCount) ∨ i∈blockSet es := by
  simp [blockSet]

lemma mem_blockSet_append : i∈blockSet (xs++ys) ↔ i∈blockSet xs ∨ i∈blockSet ys := by
  simp [blockSet,or_and_right,exists_or]

lemma runsFrom_append (n : ℕ) (xs ys : List ExtentDescriptor) :
    runsFrom n (xs++ys)=runsFrom n xs++runsFrom (n-blocks xs) ys := by
  induction xs generalizing n with
  | nil => rfl
  | cons e xs ih =>
    rw [cons_append,runsFrom,runsFrom,ih,blocks_cons,cons_append,Nat.sub_sub]

lemma runsFrom_zero (es : List ExtentDescriptor) : runsFrom 0 es=es := by
  induction es with
  | nil => rfl
  | cons e es ih => rw [runsFrom,Nat.zero_sub,ih,Nat.zero_min,Nat.add_zero,Nat.sub_zero]

lemma blockCount_runsFrom (h : blocks es≤n) : ∀ d∈runsFrom n es,d.blockCount=0 := by
  induction es generalizing n with
  | nil => exact fun d hd => by cases hd
  | cons e es ih =>
    rw [blocks_cons] at h
    intro d hd
    rcases mem_cons.mp hd with rfl | hd
    · exact Nat.sub_eq_zero_of_le (by omega)
    · exact ih (by omega) d hd

lemma blockSet_of_empty (h : ∀ d∈es,d.blockCount=0) : blockSet es=∅ := by
  ext i
  refine iff_of_false ?_ (Set.notMem_empty i)
  rintro ⟨d,hd,h1,h2⟩
  rw [h d hd] at h2
  omega

lemma mem_blockSet_iff : i∈blockSet es ↔ ∃ b,physicalBlock es b=some i := by
  induction es with
  | nil => exact iff_of_false (by simp) (by rintro ⟨b,hb⟩; cases hb)
  | cons e es ih =>
    rw [mem_blockSet_cons,ih]
    constructor
    · rintro (⟨h1,h2⟩ | ⟨b,hb⟩)
      · refine ⟨i-e.startBlock,?_⟩
        rw [physicalBlock,if_pos (by omega),Nat.add_sub_cancel' h1]
      · refine ⟨b+e.blockCount,?_⟩
        rw [physicalBlock,if_neg (by omega),Nat.add_sub_cancel,hb]
    · rintro ⟨b,hb⟩
      rw [physicalBlock] at hb
      split_ifs at hb with hlt
      · have := Option.some.inj hb
        exact .inl ⟨by omega,by omega⟩
      · exact .inr ⟨_,hb⟩

lemma physicalBlock_runsFrom (n : ℕ) (es : List ExtentDescriptor) (b : ℕ) :
    physicalBlock (runsFrom n es) b=physicalBlock es (n+b) := by
  induction es generalizing n b with
  | nil => rfl
  | cons e es ih =>
    rw [runsFrom,physicalBlock,physicalBlock]
    dsimp only
    by_cases hlt : n+b<e.blockCount
    · rw [if_pos (by omega),if_pos hlt,Nat.min_eq_left (by omega),Nat.add_assoc]
    · rw [if_neg (by omega),if_neg hlt,ih]
      congr 1
      omega

lemma mem_blockSet_runsFrom : i∈blockSet (runsFrom n es) ↔ ∃ b,n≤b ∧ physicalBlock es b=some i := by
  rw [mem_blockSet_iff]
  constructor
  · rintro ⟨b,hb⟩
    rw [physicalBlock_runsFrom] at hb
    exact ⟨n+b,Nat.le_add_right n b,hb⟩
  · rintro ⟨b,hle,hb⟩
    refine ⟨b-n,?_⟩
    rw [physicalBlock_runsFrom,Nat.add_sub_cancel' hle,hb]

end Runs

section Bitmap
variable {allocate : Bool} {read : ℕ → Bool}

lemma markWords_err (n : ℕ) (v v2 : ExtendedVCB) (s : ExtendedVCB.MarkState) (numBlocks : ℕ) :
    (ExtendedVCB.markWords allocate read n v s numBlocks).1 =
      (ExtendedVCB.markWords allocate read n v2 s numBlocks).1 := by
  induction n generalizing v v2 s numBlocks with
  | zero =>
    rw [ExtendedVCB.markWords,ExtendedVCB.markWords]
    by_cases hnone : numBlocks=0
    · rw [if_neg (not_not.mpr hnone),if_neg (not_not.mpr hnone)]
    · rw [if_pos hnone,if_pos hnone]
      cases s.refill read with
      | none => rfl
      | some s => rfl
  | succ n ih =>
    rw [ExtendedVCB.markWords,ExtendedVCB.markWords]
    cases s.refill read with
    | none => rfl
    | some s => exact ih _ _ _ _

lemma refill_true {s s' : ExtendedVCB.MarkState} (h : s.refill read=some s') :
    s.refill (fun _ => true)=some s' := by
  rw [ExtendedVCB.MarkState.refill] at h ⊢
  by_cases hleft : s.wordsLeft=0
  · rw [if_pos hleft] at h ⊢
    dsimp only at h ⊢
    split_ifs at h with hread
    rw [if_neg (by simp)]
    exact h
  · rw [if_neg hleft] at h ⊢
    exact h

lemma markWords_true (n : ℕ) (v : ExtendedVCB) (s : ExtendedVCB.MarkState) (numBlocks : ℕ)
    (h : (ExtendedVCB.markWords allocate read n v s numBlocks).1=none) :
    ExtendedVCB.markWords allocate (fun _ => true) n v s numBlocks =
      ExtendedVCB.markWords allocate read n v s numBlocks := by
  induction n generalizing v s numBlocks with
  | zero =>
    rw [ExtendedVCB.markWords] at h
    rw [ExtendedVCB.markWords,ExtendedVCB.markWords]
    by_cases hnone : numBlocks=0
    · rw [if_neg (not_not.mpr hnone),if_neg (not_not.mpr hnone)]
    · rw [if_pos hnone] at h ⊢
      rw [if_pos hnone]
      cases hs : s.refill read with
      | none =>
        rw [hs] at h
        cases h
      | some s' => rw [refill_true hs]
  | succ n ih =>
    rw [ExtendedVCB.markWords] at h
    rw [ExtendedVCB.markWords,ExtendedVCB.markWords]
    cases hs : s.refill read with
    | none =>
      rw [hs] at h
      cases h
    | some s' =>
      rw [hs] at h
      rw [refill_true hs]
      exact ih _ _ _ h

lemma blockMark_err (v v2 : ExtendedVCB) (startingBlock numBlocks : ℕ) :
    (v.blockMark allocate read startingBlock numBlocks).1 =
      (v2.blockMark allocate read startingBlock numBlocks).1 := by
  rw [ExtendedVCB.blockMark,ExtendedVCB.blockMark]
  by_cases h0 : read 0=false
  · rw [if_pos h0,if_pos h0]
  rw [if_neg h0,if_neg h0]
  dsimp only
  by_cases hfirst : startingBlock%kBitsPerWord=0
  · rw [if_neg (not_not.mpr hfirst),if_neg (not_not.mpr hfirst)]
    exact markWords_err _ _ _ _ _
  · rw [if_pos hfirst,if_pos hfirst]
    exact markWords_err _ _ _ _ _

lemma blockMark_true (v : ExtendedVCB) (startingBlock numBlocks : ℕ)
    (h : (v.blockMark allocate read startingBlock numBlocks).1=none) :
    v.blockMark allocate (fun _ => true) startingBlock numBlocks =
      v.blockMark allocate read startingBlock numBlocks := by
  rw [ExtendedVCB.blockMark] at h
  rw [ExtendedVCB.blockMark,ExtendedVCB.blockMark]
  by_cases h0 : read 0=false
  · rw [if_pos h0] at h
    cases h
  rw [if_neg h0] at h ⊢
  rw [if_neg (by simp)]
  dsimp only at h ⊢
  by_cases hfirst : startingBlock%kBitsPerWord=0
  · rw [if_neg (not_not.mpr hfirst)] at h ⊢
    rw [if_neg (not_not.mpr hfirst)]
    exact markWords_true _ _ _ _ h
  · rw [if_pos hfirst] at h ⊢
    rw [if_pos hfirst]
    exact markWords_true _ _ _ _ h

end Bitmap

section Frees
variable {v v' v2 : Volume} {es es' : List ExtentDescriptor} {io : DiskAccess}

lemma Frees.refl (v : Volume) (h : ∀ d∈es,d.blockCount=0) : Frees v v es where
  same := by rw [blocks_of_empty h,Nat.add_zero]
  bits i := by
    rw [blockSet_of_empty h]
    simp

lemma Frees.trans (h : Frees v v' es) (h' : Frees v' v2 es') : Frees v v2 (es++es') where
  same := by
    have hfree : v'.freeBlocks=v.freeBlocks+blocks es := by rw [h.same]
    rw [h'.same,hfree,blocks_append,←Nat.add_assoc]
    rw [h.same]
  bits i := by rw [h'.bits,h.bits,mem_blockSet_append,not_or,and_assoc]

def SameExtents (v v' : Volume) : Prop := ∃ w,v'={v with toExtendedVCB := w}

lemma SameExtents.trans (h : SameExtents v v') (h' : SameExtents v' v2) : SameExtents v v2 := by
  obtain ⟨w,rfl⟩ := h
  obtain ⟨w',rfl⟩ := h'
  exact ⟨w',rfl⟩

/-- An allocation extent is inside the blocks that the bitmap routines can number. -/
def Inside (e : ExtentDescriptor) : Prop := e.startBlock+e.blockCount+32≤2^32

lemma blockDeallocate_frees {firstBlock numBlocks : ℕ} (hin : firstBlock+numBlocks+32≤2^32)
    (v0 : Volume)
    (h : (v0.blockDeallocate (io.bitmap firstBlock) firstBlock numBlocks).1=none) :
    ∃ v',io.BlockDeallocate v firstBlock numBlocks=(none,v') ∧ SameExtents v v' ∧
      Frees v v' [⟨firstBlock,numBlocks⟩] := by
  rw [ExtendedVCB.blockDeallocate] at h
  rw [DiskAccess.BlockDeallocate,ExtendedVCB.blockDeallocate]
  by_cases hnone : numBlocks=0
  · rw [if_pos hnone]
    refine ⟨v,rfl,⟨_,rfl⟩,Frees.refl v fun d hd => ?_⟩
    rw [mem_singleton.mp hd,hnone]
  rw [if_neg hnone] at h ⊢
  rw [ExtendedVCB.blockMarkFree] at h ⊢
  have herr : (v.blockMark false (io.bitmap firstBlock) firstBlock numBlocks).1=none := by
    rw [blockMark_err v.toExtendedVCB v0.toExtendedVCB]
    cases hr : v0.blockMark false (io.bitmap firstBlock) firstBlock numBlocks with
    | mk err w =>
      rw [hr] at h
      cases err with
      | none => rfl
      | some e => cases h
  have htrue := blockMark_true v.toExtendedVCB firstBlock numBlocks herr
  obtain ⟨hfalse,-⟩ | ⟨w,hw,hm⟩ :=
    ExtendedVCB.blockMark_spec false v.toExtendedVCB (fun _ _ => rfl) hin
  · cases hfalse
  · rw [←htrue,hw]
    refine ⟨_,rfl,⟨_,rfl⟩,⟨?_,fun i => ?_⟩⟩
    · dsimp only
      have hsame := hm.same
      rw [hsame]
      rfl
    · have hbit := hm.bits i
      rw [ExtendedVCB.withRun] at hbit
      rw [mem_blockSet_cons,blockSet_nil]
      change w.bit i=true ↔ _
      rw [hbit]
      split_ifs with hi
      · exact iff_of_false (by simp) fun hcon => hcon.2 (.inl hi)
      · simp [hi]

lemma blockDeallocate_fails {firstBlock numBlocks : ℕ} (v0 : Volume)
    (h : (v0.blockDeallocate (io.bitmap firstBlock) firstBlock numBlocks).1≠none) :
    ∃ w,io.BlockDeallocate v firstBlock numBlocks =
      (some .ioErr,{v with toExtendedVCB := w}) := by
  rw [ExtendedVCB.blockDeallocate] at h
  rw [DiskAccess.BlockDeallocate,ExtendedVCB.blockDeallocate]
  by_cases hnone : numBlocks=0
  · rw [if_pos hnone] at h
    exact absurd rfl h
  rw [if_neg hnone] at h ⊢
  rw [ExtendedVCB.blockMarkFree] at h ⊢
  have herr : (v.blockMark false (io.bitmap firstBlock) firstBlock numBlocks).1 =
      (v0.blockMark false (io.bitmap firstBlock) firstBlock numBlocks).1 := blockMark_err _ _ _ _
  cases hr : v0.blockMark false (io.bitmap firstBlock) firstBlock numBlocks with
  | mk err w0 =>
    cases hr' : v.blockMark false (io.bitmap firstBlock) firstBlock numBlocks with
    | mk err' w =>
      rw [hr] at h herr
      rw [hr'] at herr
      dsimp only at herr
      subst herr
      cases err' with
      | none => exact absurd rfl h
      | some e => exact ⟨w,rfl⟩

end Frees

section Release
variable {v v' : Volume} {es : List ExtentDescriptor} {io : DiskAccess}

variable {e : ExtentDescriptor}

lemma Packed.tail (h : Packed (e::es)) : Packed es :=
  (pairwise_cons.mp h).2

lemma Packed.empty (h : Packed (e::es)) (hzero : e.blockCount=0) : ∀ d∈e::es,d.blockCount=0 := by
  intro d hd
  rcases mem_cons.mp hd with rfl | hd
  · exact hzero
  · exact (pairwise_cons.mp h).1 d hd hzero

lemma freeable_cons : Freeable io v (e::es) ↔
    (v.blockDeallocate (io.bitmap e.startBlock) e.startBlock e.blockCount).1=none ∧
      Freeable io v es := by
  rw [Freeable,forall_mem_cons]
  rfl

lemma freeable_of_empty (h : ∀ d∈es,d.blockCount=0) : Freeable io v es := by
  intro d hd
  rw [h d hd,ExtendedVCB.blockDeallocate,if_pos rfl]

variable (io) in
lemma releaseExtents_spec (v0 : Volume) (hp : Packed es) (hin : ∀ e∈es,Inside e) (v : Volume)
    (released : ℕ) (hsmall : released+blocks es<2^32) :
    (Freeable io v0 es → ∃ b v',io.ReleaseExtents v es released =
      (none,released+blocks es,b,v') ∧ (b=false ↔ Full es) ∧ SameExtents v v' ∧ Frees v v' es) ∧
    (¬Freeable io v0 es → ∃ n b v',io.ReleaseExtents v es released=(some .ioErr,n,b,v') ∧
      SameExtents v v') := by
  induction es generalizing v released with
  | nil =>
    refine ⟨fun _ => ⟨false,v,rfl,iff_of_true rfl (forall_mem_nil _),⟨_,rfl⟩,
      Frees.refl v (forall_mem_nil _)⟩,fun hnot => ?_⟩
    exact absurd (forall_mem_nil _) hnot
  | cons e es ih =>
    rw [blocks_cons] at hsmall
    rw [DiskAccess.ReleaseExtents]
    by_cases hzero : e.blockCount=0
    · have hempty := hp.empty hzero
      rw [if_pos hzero]
      refine ⟨fun _ => ⟨true,v,?_,iff_of_false (by simp) fun hfull =>
        hfull e mem_cons_self hzero,⟨_,rfl⟩,Frees.refl v hempty⟩,fun hnot => ?_⟩
      · rw [blocks_of_empty hempty]
        rfl
      · exact absurd (freeable_of_empty hempty) hnot
    rw [if_neg hzero,freeable_cons]
    have hinside : Inside e := hin e mem_cons_self
    by_cases hfirst : (v0.blockDeallocate (io.bitmap e.startBlock) e.startBlock e.blockCount).1=none
    · obtain ⟨v1,hv1,hsame1,hfrees1⟩ := blockDeallocate_frees (v := v) hinside v0 hfirst
      obtain ⟨hgood,hbad⟩ := ih hp.tail (fun d hd => hin d (mem_cons_of_mem e hd)) v1
        (released+e.blockCount) (by omega)
      rw [hv1]
      dsimp only
      rw [Nat.mod_eq_of_lt (by omega)]
      refine ⟨fun hfree => ?_,fun hnot => ?_⟩
      · obtain ⟨b,v2,hv2,hb,hsame2,hfrees2⟩ := hgood hfree.2
        refine ⟨b,v2,?_,hb.trans ?_,hsame1.trans hsame2,hfrees1.trans hfrees2⟩
        · rw [hv2,blocks_cons,Nat.add_assoc]
        · rw [Full,Full,forall_mem_cons]
          exact ⟨fun hfull => ⟨hzero,hfull⟩,fun hfull => hfull.2⟩
      · obtain ⟨n,b,v2,hv2,hsame⟩ := hbad fun hfree => hnot ⟨hfirst,hfree⟩
        exact ⟨n,b,v2,hv2,hsame1.trans hsame⟩
    · obtain ⟨w,hw⟩ := blockDeallocate_fails (v := v) v0 hfirst
      rw [hw]
      exact ⟨fun hfree => absurd hfree.1 hfirst,fun _ => ⟨_,_,_,rfl,w,rfl⟩⟩

variable (io) in
lemma releaseFollowing_eq (hp : Packed es) (v : Volume) (n : ℕ) :
    ∃ es',io.releaseFollowing v es n=((io.ReleaseExtents v es n).1,es',
        (io.ReleaseExtents v es n).2.1,(io.ReleaseExtents v es n).2.2.2) ∧ es'.length=es.length ∧
      ((io.ReleaseExtents v es n).1=none → ∀ d∈es',d.blockCount=0) := by
  induction es generalizing v n with
  | nil => exact ⟨[],rfl,rfl,fun _ => forall_mem_nil _⟩
  | cons e es ih =>
    rw [DiskAccess.releaseFollowing,DiskAccess.ReleaseExtents]
    by_cases hzero : e.blockCount=0
    · rw [if_pos hzero,if_pos hzero]
      exact ⟨_,rfl,rfl,fun _ => hp.empty hzero⟩
    rw [if_neg hzero,if_neg hzero]
    rcases io.BlockDeallocate v e.startBlock e.blockCount with ⟨_ | err,v1⟩
    · obtain ⟨es',heq,hlength,hempty⟩ := ih hp.tail v1 ((n+e.blockCount)%2^32)
      dsimp only
      rw [heq]
      exact ⟨⟨0,0⟩::es',rfl,by rw [length_cons,hlength,length_cons],
        fun hnone => forall_mem_cons.mpr ⟨rfl,hempty hnone⟩⟩
    · exact ⟨_,rfl,rfl,fun hnone => nomatch hnone⟩

variable (io) in
lemma releaseFollowing_spec (v0 : Volume) (hp : Packed es) (hin : ∀ e∈es,Inside e) (v : Volume)
    (nextBlock : ℕ) (hsmall : nextBlock+blocks es<2^32) :
    (Freeable io v0 es → ∃ es' v',io.releaseFollowing v es nextBlock =
      (none,es',nextBlock+blocks es,v') ∧ es'.length=es.length ∧
      (∀ d∈es',d.blockCount=0) ∧ SameExtents v v' ∧ Frees v v' es) ∧
    (¬Freeable io v0 es → ∃ es' n v',io.releaseFollowing v es nextBlock =
      (some .ioErr,es',n,v') ∧ SameExtents v v') := by
  obtain ⟨es',heq,hlength,hempty⟩ := releaseFollowing_eq io hp v nextBlock
  obtain ⟨hgood,hbad⟩ := releaseExtents_spec io v0 hp hin v nextBlock hsmall
  rw [heq]
  refine ⟨fun hfree => ?_,fun hnot => ?_⟩
  · obtain ⟨b,v',hrel,-,hsame,hfrees⟩ := hgood hfree
    rw [hrel] at hempty ⊢
    exact ⟨es',v',rfl,hlength,hempty rfl,hsame,hfrees⟩
  · obtain ⟨n,b,v',hrel,hsame⟩ := hbad hnot
    rw [hrel]
    exact ⟨es',n,v',rfl,hsame⟩

end Release

section Overflow
variable {v v' : Volume} {fcb : FCB} {n k : ℕ} {r data : ExtentRecord}
variable {pre post rs : List (ℕ × ExtentRecord)}

def overflowKey (fcb : FCB) (k : ℕ) : ExtentKey := toLex (fcb.fileID,toLex (fcb.forkType,k))

lemma overflowKey_eq_iff {key : ExtentKey} : key=overflowKey fcb k ↔
    key.fileID=fcb.fileID ∧ key.forkType=fcb.forkType ∧ key.startBlock=k := by
  constructor
  · rintro rfl
    exact ⟨rfl,rfl,rfl⟩
  · rintro ⟨h1,h2,h3⟩
    rw [overflowKey,←h1,←h2,←h3]
    rfl

lemma mem_overflowRecords : (k,r)∈overflowRecords v fcb ↔
    (overflowKey fcb k,r)∈v.extents.entries := by
  constructor
  · intro h
    obtain ⟨⟨key,data⟩,hkey,heq⟩ := mem_map.mp h
    obtain ⟨hkey,hfork⟩ := mem_filter.mp hkey
    obtain ⟨rfl,rfl⟩ := Prod.mk.inj heq
    obtain ⟨h1,h2⟩ := of_decide_eq_true hfork
    rwa [←overflowKey_eq_iff.mpr ⟨h1,h2,rfl⟩]
  · intro h
    exact mem_map.mpr ⟨_,mem_filter.mpr ⟨h,decide_eq_true ⟨rfl,rfl⟩⟩,rfl⟩

lemma SameExtents.overflowRecords (h : SameExtents v v') :
    overflowRecords v' fcb=Extents.overflowRecords v fcb := by
  obtain ⟨w,rfl⟩ := h
  rfl

lemma overflowRecords_erase :
    overflowRecords {v with extents := v.extents.erase (overflowKey fcb k)} fcb =
      (overflowRecords v fcb).filter fun x => x.1≠k := by
  rw [overflowRecords,overflowRecords,SortedMap.erase,filter_map,filter_filter,filter_filter]
  congr 1
  refine filter_congr fun e _ => ?_
  rw [Bool.and_comm]
  by_cases hfork : e.1.fileID=fcb.fileID ∧ e.1.forkType=fcb.forkType
  · rw [decide_eq_true hfork,Bool.and_true,Bool.and_true,comp]
    refine decide_eq_decide.mpr (not_congr ?_)
    rw [overflowKey_eq_iff]
    exact ⟨fun h => h.2.2,fun h => ⟨hfork.1,hfork.2,h⟩⟩
  · rw [decide_eq_false hfork,Bool.and_false,Bool.and_false]

lemma overflowRecords_put (hmem : (k,r)∈overflowRecords v fcb) :
    overflowRecords {v with extents := v.extents.put (overflowKey fcb k) data} fcb =
      (overflowRecords v fcb).map fun x => if x.1=k then (k,data) else x := by
  have hput : (v.extents.put (overflowKey fcb k) data).entries =
      v.extents.entries.map fun e =>
        if e.1=overflowKey fcb k then (overflowKey fcb k,data) else e :=
    SortedMap.putEntry_eq_map v.extents.sorted (mem_overflowRecords.mp hmem)
  rw [overflowRecords,overflowRecords]
  dsimp only
  rw [hput,filter_map,map_map,map_map]
  have hfilter : v.extents.entries.filter ((fun e : ExtentKey × ExtentRecord =>
        decide (e.1.fileID=fcb.fileID ∧ e.1.forkType=fcb.forkType)) ∘
        fun e => if e.1=overflowKey fcb k then (overflowKey fcb k,data) else e) =
      v.extents.entries.filter fun e => e.1.fileID=fcb.fileID ∧ e.1.forkType=fcb.forkType := by
    refine filter_congr fun e _ => ?_
    rw [comp]
    split_ifs with hkey
    · rw [hkey]
    · rfl
  rw [hfilter]
  refine map_congr_left fun e he => ?_
  have hfork := of_decide_eq_true (mem_filter.mp he).2
  rw [comp,comp]
  dsimp only
  by_cases hkey : e.1=overflowKey fcb k
  · rw [if_pos hkey,if_pos (overflowKey_eq_iff.mp hkey).2.2]
    rfl
  · rw [if_neg hkey,if_neg fun hk => hkey (overflowKey_eq_iff.mpr ⟨hfork.1,hfork.2,hk⟩)]

lemma Chain.sides (h : Chain n (pre++(k,r)::post)) :
    k=n+blocks (pre.flatMap Prod.snd) ∧ (∀ x∈pre,x.1<k) ∧ (∀ x∈post,k<x.1) ∧
      Packed r ∧ 0<blocks r ∧ (post≠[] → Full r) ∧ Chain (k+blocks r) post := by
  induction pre generalizing n with
  | nil =>
    obtain ⟨rfl,hpacked,hpos,hfull,hrest⟩ := h
    refine ⟨rfl,forall_mem_nil _,fun x hx => ?_,hpacked,hpos,hfull,hrest⟩
    have := hrest.le_of_mem hx
    omega
  | cons a pre ih =>
    obtain ⟨hk,-,hpos,-,hrest⟩ := h
    obtain ⟨hk',hbefore,hsides⟩ := ih hrest
    refine ⟨?_,forall_mem_cons.mpr ⟨?_,hbefore⟩,hsides⟩
    · rw [hk',flatMap_cons,blocks_append]
      omega
    · omega

section Sides
variable (hbefore : ∀ x∈pre,x.1<k) (hbehind : ∀ x∈post,k<x.1)
include hbefore hbehind

lemma filter_sides : (pre++(k,r)::post).filter (fun x => x.1≠k)=pre++post := by
  rw [filter_append,filter_cons,if_neg (by simp),
    filter_eq_self.mpr fun x hx => decide_eq_true (Nat.ne_of_lt (hbefore x hx)),
    filter_eq_self.mpr fun x hx => decide_eq_true (Nat.ne_of_gt (hbehind x hx))]

lemma map_sides : (pre++(k,r)::post).map (fun x => if x.1=k then (k,data) else x) =
    pre++(k,data)::post := by
  have hsame : ∀ xs : List (ℕ × ExtentRecord),(∀ x∈xs,x.1≠k) →
      xs.map (fun x => if x.1=k then (k,data) else x)=xs := by
    intro xs hxs
    conv_rhs => rw [←map_id xs]
    exact map_congr_left fun x hx => if_neg (hxs x hx)
  rw [map_append,map_cons,if_pos rfl,hsame pre fun x hx => Nat.ne_of_lt (hbefore x hx),
    hsame post fun x hx => Nat.ne_of_gt (hbehind x hx)]

end Sides

lemma findExtentRecord_eq (hmem : (k,r)∈overflowRecords v fcb) (hk : k<v.vcbSigWord.fabnLimit) :
    FindExtentRecord v fcb.forkType fcb.fileID k false=some (overflowKey fcb k,r) := by
  rw [FindExtentRecord,Nat.mod_eq_of_lt hk]
  have hget : v.extents.get (overflowKey fcb k)=some r :=
    SortedMap.get_eq_some_iff.mpr (mem_overflowRecords.mp hmem)
  rw [overflowKey] at hget ⊢
  simp only [hget]

lemma findExtentRecord_eq_none (hnot : ∀ x∈overflowRecords v fcb,x.1≠k)
    (hk : k<v.vcbSigWord.fabnLimit) : FindExtentRecord v fcb.forkType fcb.fileID k false=none := by
  rw [FindExtentRecord,Nat.mod_eq_of_lt hk]
  cases hget : v.extents.get (toLex (fcb.fileID,toLex (fcb.forkType,k))) with
  | none =>
    dsimp only
    rw [if_neg Bool.false_ne_true]
  | some r =>
    exact absurd rfl (hnot _ (mem_overflowRecords.mpr (SortedMap.get_eq_some_iff.mp hget)))

end Overflow

section Records
variable {v : Volume} {fcb : FCB} {io : DiskAccess}

def Removable (io : DiskAccess) (v : Volume) (rs : List (ℕ × ExtentRecord)) : Prop :=
  ∀ x∈rs,io.find x.1=true ∧ io.delete x.1=true ∧ Freeable io v x.2

variable (io) in
lemma truncateLoop_spec (v0 : Volume) (pre rs : List (ℕ × ExtentRecord)) (fuel : ℕ) (v : Volume)
    (s : ℕ) (hrecords : overflowRecords v fcb=pre++rs) (hbefore : ∀ x∈pre,x.1<s)
    (hchain : Chain s rs) (hsmall : s+blocks (rs.flatMap Prod.snd)<v.vcbSigWord.fabnLimit)
    (hin : ∀ x∈rs,∀ e∈x.2,Inside e) (hfuel : rs.length<fuel) :
    (Removable io v0 rs → ∃ err v',io.truncateLoop fcb.forkType fcb.fileID fuel v s=(err,v') ∧
      (err=none ↔ io.find (s+blocks (rs.flatMap Prod.snd))=true) ∧
      overflowRecords v' fcb=pre ∧ Frees v v' (rs.flatMap Prod.snd)) ∧
    (¬Removable io v0 rs → ∃ v' rs',
      io.truncateLoop fcb.forkType fcb.fileID fuel v s=(some .ioErr,v') ∧
      overflowRecords v' fcb=pre++rs' ∧ 0<blocks (rs'.flatMap Prod.snd)) := by
  induction rs generalizing fuel v s with
  | nil =>
    refine ⟨fun _ => ?_,fun hnot => absurd (forall_mem_nil _) hnot⟩
    obtain ⟨fuel,rfl⟩ := Nat.exists_eq_succ_of_ne_zero (Nat.ne_of_gt hfuel)
    rw [append_nil] at hrecords
    rw [flatMap_nil,blocks_nil,Nat.add_zero] at hsmall ⊢
    rw [Nat.succ_eq_add_one,DiskAccess.truncateLoop]
    by_cases hfind : io.find s=false
    · rw [if_pos hfind]
      exact ⟨_,v,rfl,iff_of_false (by simp) (by simp [hfind]),hrecords,
        Frees.refl v (forall_mem_nil _)⟩
    · have hnone : FindExtentRecord v fcb.forkType fcb.fileID s false=none :=
        findExtentRecord_eq_none (fun x hx => Nat.ne_of_lt (hbefore x (hrecords▸hx))) hsmall
      rw [if_neg hfind,hnone]
      exact ⟨_,v,rfl,iff_of_true rfl (by simpa using hfind),hrecords,
        Frees.refl v (forall_mem_nil _)⟩
  | cons a rs ih =>
    obtain ⟨k,r⟩ := a
    obtain ⟨rfl,hpacked,hpos,-,hrest⟩ := hchain
    obtain ⟨fuel,rfl⟩ := Nat.exists_eq_succ_of_ne_zero (Nat.ne_of_gt (Nat.zero_lt_of_lt hfuel))
    rw [length_cons] at hfuel
    rw [flatMap_cons,blocks_append] at hsmall ⊢
    dsimp only at hsmall ⊢
    have hlimit := fabnLimit_le v.vcbSigWord
    have hmem : (k,r)∈overflowRecords v fcb := by
      rw [hrecords]
      exact mem_append_right _ mem_cons_self
    have hbehind : ∀ x∈rs,k<x.1 := by
      intro x hx
      have := hrest.le_of_mem hx
      omega
    have hremovable : Removable io v0 ((k,r)::rs) ↔
        (io.find k=true ∧ io.delete k=true ∧ Freeable io v0 r) ∧ Removable io v0 rs := by
      rw [Removable,forall_mem_cons]
      rfl
    have hstay : 0<blocks (((k,r)::rs).flatMap Prod.snd) := by
      rw [flatMap_cons,blocks_append]
      dsimp only
      omega
    obtain ⟨hgood,hbad⟩ := releaseExtents_spec io v0 hpacked
      (hin (k,r) mem_cons_self) v 0 (by omega)
    rw [Nat.succ_eq_add_one,DiskAccess.truncateLoop,hremovable]
    by_cases hfind : io.find k=false
    · rw [if_pos hfind]
      refine ⟨fun h => ?_,fun _ => ⟨v,(k,r)::rs,rfl,hrecords,hstay⟩⟩
      rw [hfind] at h
      cases h.1.1
    rw [if_neg hfind,findExtentRecord_eq hmem (by omega)]
    dsimp only
    by_cases hfree : Freeable io v0 r
    · obtain ⟨b,v1,hv1,-,hsame1,hfrees1⟩ := hgood hfree
      rw [hv1,Nat.zero_add]
      dsimp only
      by_cases hdelete : io.delete k=false
      · rw [if_pos hdelete]
        refine ⟨fun h => ?_,fun _ => ⟨v1,(k,r)::rs,rfl,?_,hstay⟩⟩
        · rw [hdelete] at h
          cases h.1.2.1
        · rw [hsame1.overflowRecords,hrecords]
      rw [if_neg hdelete,Nat.mod_eq_of_lt (by omega)]
      have hrecords1 : overflowRecords {v1 with extents := v1.extents.erase (overflowKey fcb k)}
          fcb=pre++rs := by
        rw [overflowRecords_erase,hsame1.overflowRecords,hrecords,filter_sides hbefore hbehind]
      have hsig : v1.vcbSigWord=v.vcbSigWord := by
        obtain ⟨w,rfl⟩ := hsame1
        rfl
      obtain ⟨hgood',hbad'⟩ := ih fuel {v1 with extents := v1.extents.erase (overflowKey fcb k)}
        (k+blocks r) hrecords1 (fun x hx => (hbefore x hx).trans_le (Nat.le_add_right _ _)) hrest
        (by dsimp only; rw [hsig]; omega) (fun x hx => hin x (mem_cons_of_mem _ hx)) (by omega)
      refine ⟨fun h => ?_,fun hnot => ?_⟩
      · obtain ⟨err,v2,hv2,herr,hrecords2,hfrees2⟩ := hgood' h.2
        refine ⟨err,v2,hv2,?_,hrecords2,hfrees1.trans ⟨hfrees2.same,hfrees2.bits⟩⟩
        rw [herr,Nat.add_assoc]
      · refine hbad' fun h => hnot ⟨⟨by simpa using hfind,by simpa using hdelete,hfree⟩,h⟩
    · obtain ⟨m,b,v1,hv1,hsame1⟩ := hbad hfree
      rw [hv1]
      refine ⟨fun h => absurd h.1.2.2 hfree,fun _ => ⟨v1,(k,r)::rs,rfl,?_,hstay⟩⟩
      rw [hsame1.overflowRecords,hrecords]

end Records

end Darwin.Hfs.Extents
