import Darwin.Hfs.VolumeFit

/-! Runs of `BlockAllocate` and `BlockDeallocate`. The free count and the bitmap agree as
long as no bitmap read fails once a call has begun to change bits; after such a failure
the changed bits stay as they are. -/
open Nat Finset
namespace Darwin.Hfs
open Lib.BitWords

inductive VolumeCall
  | blockAllocate (reads : ExtendedVCB.BitmapReads) (startingBlock : ℕ)
      (bytesRequested bytesMaximum : ℤ) (forceContiguous : Bool)
  | blockDeallocate (read : ℕ → Bool) (firstBlock numBlocks : ℕ)
  | blockMarkAllocated (read : ℕ → Bool) (startingBlock numBlocks : ℕ)
  | blockMarkFree (read : ℕ → Bool) (startingBlock numBlocks : ℕ)

namespace ExtendedVCB

/-- Block numbers have room in 32 bits for one more word. -/
structure VolumeOK (v : ExtendedVCB) : Prop where
  size : v.totalBlocks+32≤2^32
  next : v.nextAllocation≤v.totalBlocks
  count : v.freeBlocks=clearBelow v.bit v.totalBlocks

def afterCall (v : ExtendedVCB) : VolumeCall → ExtendedVCB
  | .blockAllocate reads startingBlock bytesRequested bytesMaximum forceContiguous =>
    (v.blockAllocate reads startingBlock bytesRequested bytesMaximum forceContiguous).2
  | .blockDeallocate read firstBlock numBlocks => (v.blockDeallocate read firstBlock numBlocks).2
  | .blockMarkAllocated read startingBlock numBlocks =>
    (v.blockMarkAllocated read startingBlock numBlocks).2
  | .blockMarkFree read startingBlock numBlocks => (v.blockMarkFree read startingBlock numBlocks).2

/-- A request is for at least one block near a block of the volume; only blocks in use are
freed and only free blocks are marked. -/
def ValidCall (v : ExtendedVCB) : VolumeCall → Prop
  | .blockAllocate _ startingBlock bytesRequested bytesMaximum forceContiguous =>
    startingBlock≤v.totalBlocks ∧
      0<fileBytesToBlocks (if forceContiguous then bytesRequested else bytesMaximum) v.blockSize
  | .blockDeallocate _ firstBlock numBlocks | .blockMarkFree _ firstBlock numBlocks =>
    firstBlock+numBlocks≤v.totalBlocks ∧ ∀ i,firstBlock ≤ i → i<firstBlock+numBlocks → v.bit i=true
  | .blockMarkAllocated _ startingBlock numBlocks =>
    startingBlock+numBlocks≤v.totalBlocks ∧
      ∀ i,startingBlock ≤ i → i<startingBlock+numBlocks → v.bit i=false

/-- The reads while bits are changed. The first bitmap block is read before any change. -/
def changeReads : VolumeCall → ℕ → Bool
  | .blockAllocate reads _ _ _ _ => reads.change
  | .blockDeallocate read _ _ => read
  | .blockMarkAllocated read _ _ => read
  | .blockMarkFree read _ _ => read

def SteadyCall (c : VolumeCall) : Prop := ∀ k,1≤k → changeReads c k=true

def MarksRun (v : ExtendedVCB) (allocate : Bool) (p n : ℕ) : Option OSErr × ExtendedVCB → Prop
  | (some _,v') => v'=v
  | (none,v') => ∀ i,v'.bit i=withRun allocate v.bit p n i

def CorrectCall (v : ExtendedVCB) : VolumeCall → Prop
  | .blockAllocate reads startingBlock bytesRequested bytesMaximum forceContiguous =>
    match v.blockAllocate reads startingBlock bytesRequested bytesMaximum forceContiguous with
    | (.error _,v') => v'=v
    | (.ok (start,num),v') => start+num≤v.totalBlocks ∧ 0<num ∧
        (∀ i,start ≤ i → i<start+num → v.bit i=false) ∧
        ∀ i,v'.bit i=(v.bit i || decide (start ≤ i ∧ i<start+num))
  | .blockDeallocate read firstBlock numBlocks =>
    MarksRun v false firstBlock numBlocks (v.blockDeallocate read firstBlock numBlocks)
  | .blockMarkAllocated read startingBlock numBlocks =>
    MarksRun v true startingBlock numBlocks (v.blockMarkAllocated read startingBlock numBlocks)
  | .blockMarkFree read startingBlock numBlocks =>
    MarksRun v false startingBlock numBlocks (v.blockMarkFree read startingBlock numBlocks)

lemma withRun_true (f : ℕ → Bool) (p n i : ℕ) :
    withRun true f p n i=(f i || decide (p ≤ i ∧ i<p+n)) := by
  rw [withRun]
  split_ifs with h
  · rw [decide_eq_true h,Bool.or_true]
  · rw [decide_eq_false h,Bool.or_false]

lemma clearBelow_withRun {f : ℕ → Bool} {p n total : ℕ} (hfit : p+n≤total)
    (hclear : ∀ i,p ≤ i → i<p+n → f i=false) :
    clearBelow (withRun true f p n) total+n=clearBelow f total := by
  have := clearBelow_add_card (f := f) (g := withRun true f p n) (s := Finset.Ico p (p+n))
    (n := total) (fun i hi => by rw [mem_Ico] at hi; omega)
    (fun i hi => by rw [mem_Ico] at hi; exact hclear i hi.1 hi.2)
    (fun i hi => by rw [mem_Ico] at hi; rw [withRun,if_pos hi])
    (fun i _ hi => by rw [mem_Ico] at hi; rw [withRun,if_neg hi])
  rwa [Nat.card_Ico,Nat.add_sub_cancel_left] at this

variable {v : ExtendedVCB} {reads : BitmapReads}

lemma AllocatesRun.mono {limit limit' : ℕ} (hle : limit≤limit')
    {r : Except OSErr (ℕ × ℕ) × ExtendedVCB} (h : AllocatesRun v limit r) :
    AllocatesRun v limit' r := by
  rcases r with ⟨e | ⟨start,num⟩,v'⟩
  · exact h
  · exact ⟨h.1.trans hle,h.2⟩

lemma findContiguous_spec
    {startingBlock minBlocks maxBlocks : ℕ} (hsize : v.totalBlocks+32≤2^32)
    (hle : startingBlock≤v.totalBlocks) (hmin : 0 < minBlocks) {start num : ℕ}
    (h : v.findContiguous reads startingBlock minBlocks maxBlocks=.ok (start,num)) :
    minBlocks≤num ∧ start+num≤v.totalBlocks ∧ ∀ i,start ≤ i → i<start+num → v.bit i=false := by
  have hend : v.totalBlocks<2^32 := by omega
  unfold findContiguous at h
  rcases hfirst : v.blockFindContiguous reads.first startingBlock v.totalBlocks minBlocks maxBlocks
    with e | found
  · rw [hfirst] at h
    dsimp only at h
    by_cases he : e=.dskFulErr
    · rw [if_pos he] at h
      exact blockFindContiguous_spec hmin (zero_le _) hend h
    · rw [if_neg he] at h
      cases h
  · rw [hfirst] at h
    exact blockFindContiguous_spec hmin hle hend (hfirst.trans h)

lemma blockAllocateContig_spec (v : ExtendedVCB)
    (hchange : ∀ k,1≤k → reads.change k=true) {startingBlock minBlocks maxBlocks : ℕ}
    (hsize : v.totalBlocks+32≤2^32) (hle : startingBlock≤v.totalBlocks) (hmin : 0 < minBlocks) :
    AllocatesRun v v.totalBlocks
      (v.blockAllocateContig reads startingBlock minBlocks maxBlocks) := by
  rw [blockAllocateContig]
  rcases hfound : v.findContiguous reads startingBlock minBlocks maxBlocks with e | ⟨start,num⟩
  · exact rfl
  · obtain ⟨hnum,hfit,hclear⟩ := findContiguous_spec hsize hle hmin hfound
    simp only [blockMarkAllocated]
    obtain ⟨_,hfail⟩ | ⟨v',hok,hm⟩ :=
      blockMark_spec true v hchange (show start+num+32≤2^32 by omega)
    · rw [hfail]
      exact rfl
    · rw [hok]
      exact ⟨hfit,by omega,hclear,hm.same,fun i => (hm.bits i).trans (withRun_true _ _ _ _)⟩

lemma allocateAny_spec (v : ExtendedVCB)
    (hchange : ∀ k,1≤k → reads.change k=true) {startingBlock maxBlocks : ℕ}
    (hsize : v.totalBlocks+32≤2^32) (hle : startingBlock≤v.totalBlocks) (hmax : 0 < maxBlocks) :
    AllocatesRun v v.totalBlocks (v.allocateAny reads startingBlock maxBlocks) := by
  have hfirst := blockAllocateAny_spec v reads.first hchange hle (show v.totalBlocks<2^32 by omega) hmax
  rw [allocateAny]
  rcases hres : v.blockAllocateAny reads.first reads.change startingBlock v.totalBlocks maxBlocks
    with ⟨e | found,v'⟩
  · rw [hres] at hfirst
    have hsame : v'=v := hfirst
    simp only [hsame]
    split_ifs
    · exact (blockAllocateAny_spec v _ hchange (zero_le _) (by omega) hmax).mono hle
    · exact rfl
  · rw [hres] at hfirst
    exact hfirst

lemma VolumeOK.blockAllocate_spec (h : v.VolumeOK) (reads : BitmapReads)
    (hchange : ∀ k,1≤k → reads.change k=true) {startingBlock : ℕ}
    {bytesRequested bytesMaximum : ℤ} {forceContiguous : Bool}
    (hle : startingBlock≤v.totalBlocks)
    (hpos : 0<fileBytesToBlocks (if forceContiguous then bytesRequested else bytesMaximum)
      v.blockSize) :
    match v.blockAllocate reads startingBlock bytesRequested bytesMaximum forceContiguous with
    | (.error _,v') => v'=v
    | (.ok (start,num),v') => v'.VolumeOK ∧ start+num≤v.totalBlocks ∧ 0<num ∧
        (∀ i,start ≤ i → i<start+num → v.bit i=false) ∧
        ∀ i,v'.bit i=(v.bit i || decide (start ≤ i ∧ i<start+num)) := by
  rw [blockAllocate]
  by_cases hnone : v.freeBlocks=0
  · rw [if_pos hnone]
  rw [if_neg hnone]
  by_cases hfew : forceContiguous=true ∧ v.freeBlocks<fileBytesToBlocks bytesRequested v.blockSize
  · rw [if_pos hfew]
  rw [if_neg hfew]
  obtain ⟨s,hs,hsle⟩ : ∃ s,s=(if startingBlock=0 then v.nextAllocation else startingBlock) ∧
      s≤v.totalBlocks := by
    refine ⟨_,rfl,?_⟩
    split_ifs
    · exact h.next
    · exact hle
  rw [←hs]
  obtain ⟨r,hr,hrun⟩ : ∃ r,r=(if forceContiguous=true then
        v.blockAllocateContig reads s (fileBytesToBlocks bytesRequested v.blockSize)
          (fileBytesToBlocks bytesMaximum v.blockSize)
      else v.allocateAny reads s (fileBytesToBlocks bytesMaximum v.blockSize)) ∧
      AllocatesRun v v.totalBlocks r := by
    refine ⟨_,rfl,?_⟩
    cases forceContiguous with
    | true => exact blockAllocateContig_spec v hchange h.size hsle hpos
    | false => exact allocateAny_spec v hchange h.size hsle hpos
  simp only [←hr]
  rcases r with ⟨e | ⟨start,num⟩,v'⟩
  · exact hrun
  · obtain ⟨hfit,hnum,hclear,hm⟩ := hrun
    have hcount := clearBelow_withRun hfit hclear
    have hbits : v'.bit=withRun true v.bit start num := by
      funext i
      rw [hm.bits,withRun_true]
    have htotal : v'.totalBlocks=v.totalBlocks := by rw [hm.same]
    have hfree : v'.freeBlocks=v.freeBlocks := by rw [hm.same]
    have hnext : v'.nextAllocation=v.nextAllocation := by rw [hm.same]
    refine ⟨⟨?_,?_,?_⟩,hfit,hnum,hclear,hm.bits⟩
    · exact htotal▸h.size
    · simp only [htotal,hnext]
      split_ifs
      · omega
      · exact h.next
    · change v'.freeBlocks-num=clearBelow v'.bit v'.totalBlocks
      rw [hfree,hbits,htotal,h.count]
      omega

lemma VolumeOK.blockDeallocate_spec (h : v.VolumeOK) (read : ℕ → Bool)
    (hread : ∀ k,1≤k → read k=true) {firstBlock numBlocks : ℕ}
    (hfit : firstBlock+numBlocks≤v.totalBlocks)
    (hset : ∀ i,firstBlock ≤ i → i<firstBlock+numBlocks → v.bit i=true) :
    match v.blockDeallocate read firstBlock numBlocks with
    | (some _,v') => v'=v
    | (none,v') => v'.VolumeOK ∧ ∀ i,v'.bit i=withRun false v.bit firstBlock numBlocks i := by
  rw [blockDeallocate]
  by_cases hnone : numBlocks=0
  · rw [if_pos hnone,hnone,withRun_zero]
    exact ⟨h,fun _ => rfl⟩
  rw [if_neg hnone,blockMarkFree]
  have hsize := h.size
  obtain ⟨_,hfail⟩ | ⟨v',hok,hm⟩ :=
    blockMark_spec false v hread (show firstBlock+numBlocks+32≤2^32 by omega)
  · rw [hfail]
  · rw [hok]
    have hback : withRun true v'.bit firstBlock numBlocks=v.bit := by
      funext i
      rw [withRun]
      split_ifs with hi
      · exact (hset i hi.1 hi.2).symm
      · rw [hm.bits,withRun,if_neg hi]
    have hcount := clearBelow_withRun hfit
      (fun i h1 h2 => show v'.bit i=false by rw [hm.bits,withRun,if_pos ⟨h1,h2⟩])
    rw [hback] at hcount
    have htotal : v'.totalBlocks=v.totalBlocks := by rw [hm.same]
    have hfree : v'.freeBlocks=v.freeBlocks := by rw [hm.same]
    have hnext : v'.nextAllocation=v.nextAllocation := by rw [hm.same]
    refine ⟨⟨htotal▸hsize,?_,?_⟩,hm.bits⟩
    · simp only [htotal,hnext]
      exact h.next
    · change v'.freeBlocks+numBlocks=clearBelow v'.bit v'.totalBlocks
      rw [hfree,htotal,h.count,hcount]

lemma blockMark_correct (hsize : v.totalBlocks+32≤2^32) (allocate : Bool)
    {read : ℕ → Bool} (hread : ∀ k,1≤k → read k=true) {startingBlock numBlocks : ℕ}
    (hfit : startingBlock+numBlocks≤v.totalBlocks) : MarksRun v allocate startingBlock numBlocks
      (v.blockMark allocate read startingBlock numBlocks) := by
  obtain ⟨_,hfail⟩ | ⟨v',hok,hm⟩ := blockMark_spec allocate v hread
    (show startingBlock+numBlocks+32≤2^32 by omega)
  · rw [hfail]
    exact rfl
  · rw [hok]
    exact hm.bits

lemma VolumeOK.correctCall (h : v.VolumeOK) {c : VolumeCall}
    (hv : v.ValidCall c) (hs : SteadyCall c) : v.CorrectCall c := by
  cases c with
  | blockAllocate reads startingBlock bytesRequested bytesMaximum forceContiguous =>
    have hspec := h.blockAllocate_spec reads hs hv.1 hv.2
    rw [CorrectCall]
    revert hspec
    rcases v.blockAllocate reads startingBlock bytesRequested bytesMaximum forceContiguous with
      ⟨e | ⟨start,num⟩,v'⟩ <;> intro hspec
    · exact hspec
    · exact hspec.2
  | blockDeallocate read firstBlock numBlocks =>
    have hspec := h.blockDeallocate_spec read hs hv.1 hv.2
    rw [CorrectCall]
    revert hspec
    rcases v.blockDeallocate read firstBlock numBlocks with ⟨e | e,v'⟩ <;> intro hspec
    · exact hspec.2
    · exact hspec
  | blockMarkAllocated read startingBlock numBlocks => exact blockMark_correct h.size true hs hv.1
  | blockMarkFree read startingBlock numBlocks => exact blockMark_correct h.size false hs hv.1

/-- A step of a run: `BlockAllocate` or `BlockDeallocate`, which call the marking functions
and count what these mark, where no read fails once bits have changed. -/
def VolumeStep (v v' : ExtendedVCB) : Prop :=
  ∃ c,v.ValidCall c ∧ SteadyCall c ∧ v'=v.afterCall c ∧
    match c with
    | .blockAllocate .. | .blockDeallocate .. => True
    | _ => False

lemma VolumeOK.step {v v' : ExtendedVCB} (h : v.VolumeOK) (hstep : VolumeStep v v') :
    v'.VolumeOK := by
  obtain ⟨c,hv,hs,rfl,hpublic⟩ := hstep
  cases c with
  | blockAllocate reads startingBlock bytesRequested bytesMaximum forceContiguous =>
    have hspec := h.blockAllocate_spec reads hs hv.1 hv.2
    rw [afterCall]
    revert hspec
    rcases v.blockAllocate reads startingBlock bytesRequested bytesMaximum forceContiguous with
      ⟨e | ⟨start,num⟩,v'⟩ <;> intro hspec
    · exact hspec▸h
    · exact hspec.1
  | blockDeallocate read firstBlock numBlocks =>
    have hspec := h.blockDeallocate_spec read hs hv.1 hv.2
    rw [afterCall]
    revert hspec
    rcases v.blockDeallocate read firstBlock numBlocks with ⟨e | e,v'⟩ <;> intro hspec
    · exact hspec.1
    · exact hspec▸h
  | blockMarkAllocated => exact hpublic.elim
  | blockMarkFree => exact hpublic.elim

/-- In every state of such a run the free count counts the clear bits, and every further
call, on its own or inside another, changes exactly the run it is to change, or nothing. -/
theorem volume_run_correct {v s : ExtendedVCB} (h : v.VolumeOK)
    (hrun : Relation.ReflTransGen VolumeStep v s) : s.freeBlocks=clearBelow s.bit s.totalBlocks ∧
      ∀ c,s.ValidCall c → SteadyCall c → s.CorrectCall c := by
  have hs : s.VolumeOK := by
    induction hrun with
    | refl => exact h
    | tail _ hstep ih => exact ih.step hstep
  exact ⟨hs.count,fun _ hv hsteady => hs.correctCall hv hsteady⟩

def emptyVolume : ExtendedVCB := ⟨512,8192,8192,0,fun _ => 0⟩

lemma emptyVolume_bit (i : ℕ) : emptyVolume.bit i=false := BitVec.getMsbD_zero

lemma emptyVolume_ok : emptyVolume.VolumeOK where
  size := by decide
  next := by decide
  count := by
    rw [clearBelow_of_clear (zero_le _) fun i _ _ => emptyVolume_bit i]
    rfl

/-- The reads of a call, with the `k`-th one of the changes failing if `k = 1`. -/
def readsFailing (fails : Bool) : BitmapReads where
  first _ := true
  second _ := true
  change k := !(fails && k == 1)

/-- The empty volume after the allocation of the two blocks around a bitmap block's end. -/
def allocatedVolume : ExtendedVCB :=
  emptyVolume.afterCall (.blockAllocate (readsFailing false) 4095 1024 1024 false)

theorem volume_run_correct_emptyVolume :
    allocatedVolume.freeBlocks=clearBelow allocatedVolume.bit allocatedVolume.totalBlocks ∧
      ∀ c,allocatedVolume.ValidCall c → SteadyCall c → allocatedVolume.CorrectCall c :=
  volume_run_correct emptyVolume_ok (Relation.ReflTransGen.single
    ⟨.blockAllocate (readsFailing false) 4095 1024 1024 false,
      ⟨by decide,by decide⟩,fun _ _ => rfl,rfl,trivial⟩)

/-- The second bitmap block cannot be read: the call fails, its first bit stays set. -/
theorem emptyVolume_allocation_leaks :
    (emptyVolume.blockAllocate (readsFailing true) 4095 1024 1024 false).1=.error .ioErr ∧
      (emptyVolume.blockAllocate (readsFailing true) 4095 1024 1024 false).2.bit 4095=true ∧
      (emptyVolume.blockAllocate (readsFailing true) 4095 1024 1024 false).2.freeBlocks =
        emptyVolume.freeBlocks ∧
      ¬emptyVolume.CorrectCall (.blockAllocate (readsFailing true) 4095 1024 1024 false) := by
  have hfails : (emptyVolume.blockAllocate (readsFailing true) 4095 1024 1024 false).1 =
      .error .ioErr := by decide
  have hset : (emptyVolume.blockAllocate (readsFailing true) 4095 1024 1024 false).2.bit 4095 =
      true := by decide
  refine ⟨hfails,hset,by decide,fun h => ?_⟩
  rw [CorrectCall] at h
  revert h hset
  rcases hres : emptyVolume.blockAllocate (readsFailing true) 4095 1024 1024 false with ⟨e | r,v'⟩
  · rintro hset rfl
    rw [emptyVolume_bit] at hset
    cases hset
  · rw [hres] at hfails
    cases hfails

end ExtendedVCB
end Darwin.Hfs
