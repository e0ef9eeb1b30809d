import Darwin.Hfs.ExtendFile

/-! What one round of the loop of `ExtendFileC` keeps, and what a run of it does. -/
open List Option Nat
namespace Darwin.Hfs.Extents
open Lib Catalog

/-- The loop is at the last extent `e` of the fork, with `xs` before and `ys` behind it in its
record, and `first` in the records before. -/
structure LastExtent (s : ExtendState) (first xs ys : List ExtentDescriptor)
    (e : ExtentDescriptor) : Prop where
  data : s.foundData=xs++e::ys
  index : s.foundIndex=xs.length
  record : LastRecord s.vcb s.fcb s.foundKey first (xs++e::ys)
  empty : ∀ d∈ys,d.blockCount=0
  length : (xs++e::ys).length=s.vcb.vcbSigWord.numExtentsPerRecord
  inside : e.startBlock+e.blockCount ≤ s.vcb.totalBlocks

/-- The same state but for the fork, its extents and the volume's bitmap. -/
structure SameRequest (s s' : ExtendState) : Prop where
  sig : s'.vcb.vcbSigWord=s.vcb.vcbSigWord
  blockSize : s'.vcb.blockSize=s.vcb.blockSize
  totalBlocks : s'.vcb.totalBlocks=s.vcb.totalBlocks
  pLen : s'.fcb.fcbPLen=s.fcb.fcbPLen
  nextBlock : s'.nextBlock=s.nextBlock
  bytesToAdd : s'.bytesToAdd=s.bytesToAdd
  maximumBytes : s'.maximumBytes=s.maximumBytes
  wantContig : s'.wantContig=s.wantContig

def Unchanged (s : ExtendState) (r : Option ExtendErr × ExtendState) : Prop :=
  r.1≠none ∧ extentList r.2.vcb r.2.fcb=extentList s.vcb s.fcb ∧ r.2.fcb.fcbPLen=s.fcb.fcbPLen

/-- `num` blocks have been added behind the extents of the fork. -/
structure Added (s s' : ExtendState) (num : ℕ) : Prop where
  last : ∃ first xs ys e,LastExtent s' first xs ys e ∧ 0<e.startBlock+e.blockCount
  blocks : blocks (extentList s'.vcb s'.fcb)=blocks (extentList s.vcb s.fcb)+num
  kept : ∀ b<Extents.blocks (extentList s.vcb s.fcb),
    physicalBlock (extentList s'.vcb s'.fcb) b=physicalBlock (extentList s.vcb s.fcb) b

section Add
variable {s : ExtendState} {first xs ys : List ExtentDescriptor} {e : ExtentDescriptor}

lemma physicalBlock_prefix {zs zs' : List ExtentDescriptor} {b : ℕ} (h : b<blocks xs) :
    physicalBlock (xs++zs) b=physicalBlock (xs++zs') b := by
  rw [physicalBlock_append_left h,physicalBlock_append_left h]

lemma LastExtent.extents (h : LastExtent s first xs ys e) :
    extentList s.vcb s.fcb=first++(xs++e::ys) := h.record.extentList

lemma LastExtent.updateRecord (h : LastExtent s first xs ys e) (io : ExtendRound)
    (xs' ys' : List ExtentDescriptor) (e' : ExtentDescriptor) (hempty : ∀ d∈ys',d.blockCount=0)
    (hlength : (xs'++e'::ys').length=(xs++e::ys).length)
    (hinside : e'.startBlock+e'.blockCount ≤ s.vcb.totalBlocks) :
    Unchanged s (io.updateRecord s (xs'++e'::ys') xs'.length) ∨
    ∃ s',io.updateRecord s (xs'++e'::ys') xs'.length=(none,s') ∧ SameRequest s s' ∧
      LastExtent s' first xs' ys' e' := by
  rw [ExtendRound.updateRecord]
  obtain hfail | ⟨v',fcb',hok,hrecord,hvcb,hsig,es,rfl⟩ :=
    h.record.update io.toDiskAccess (xs'++e'::ys')
  · simp only [hfail]
    exact .inl ⟨some_ne_none _,rfl,rfl⟩
  · simp only [hok]
    have htotal : v'.totalBlocks=s.vcb.totalBlocks := congrArg ExtendedVCB.totalBlocks hvcb
    exact .inr ⟨_,rfl,⟨hsig,congrArg ExtendedVCB.blockSize hvcb,htotal,rfl,rfl,rfl,rfl,rfl⟩,
      rfl,rfl,hrecord,hempty,by rw [hlength,h.length]; exact congrArg _ hsig.symm,htotal▸hinside⟩

lemma LastExtent.createRecord (h : LastExtent s first xs ys e) (io : ExtendRound) {start num : ℕ}
    (hpos : 0<blocks (xs++e::ys)) (hnext : s.nextBlock=blocks (first++(xs++e::ys)))
    (hlimit : s.nextBlock<s.vcb.vcbSigWord.fabnLimit) (hfit : start+num ≤ s.vcb.totalBlocks) :
    Unchanged s (io.createRecord s start num) ∨
    ∃ s',io.createRecord s start num=(none,s') ∧ SameRequest s s' ∧
      LastExtent s' (first++(xs++e::ys)) []
        (replicate (s.vcb.vcbSigWord.numExtentsPerRecord-1) ⟨0,0⟩) ⟨start,num⟩ := by
  obtain ⟨hnew,hrecord⟩ := h.record.create hpos
    (⟨start,num⟩::replicate (s.vcb.vcbSigWord.numExtentsPerRecord-1) ⟨0,0⟩)
  rw [ExtendRound.createRecord,mod_eq_of_lt hlimit,hnext,←overflowKey]
  simp only [ExtendRound.CreateExtentRecord,hnew]
  rw [if_neg (by simp)]
  cases hcreate : io.create with
  | some err =>
    dsimp only
    by_cases hover : err=.fxOvFlErr
    · rw [if_pos hover]
      exact .inl ⟨some_ne_none _,rfl,rfl⟩
    · rw [if_neg hover]
      exact .inl ⟨some_ne_none _,rfl,rfl⟩
  | none =>
    refine .inr ⟨_,rfl,⟨rfl,rfl,rfl,rfl,hnext.symm,rfl,rfl,rfl⟩,rfl,rfl,hrecord,fun d hd => ?_,?_,
      hfit⟩
    · rw [eq_of_mem_replicate hd]
    · rw [nil_append,length_cons,length_replicate]
      exact Nat.sub_add_cancel (by cases s.vcb.vcbSigWord <;> decide)

lemma LastExtent.addExtent (h : LastExtent s first xs ys e) (io : ExtendRound) (start num : ℕ)
    (hsize : s.vcb.totalBlocks<2^32) (hnum : 0<num) (hfit : start+num ≤ s.vcb.totalBlocks)
    (hnext : s.nextBlock=blocks (extentList s.vcb s.fcb))
    (hlimit : s.nextBlock<s.vcb.vcbSigWord.fabnLimit) :
    Unchanged s (io.addExtent s ((e.startBlock+e.blockCount)%2^32) start num) ∨
    ∃ s',io.addExtent s ((e.startBlock+e.blockCount)%2^32) start num=(none,s') ∧
      SameRequest s s' ∧ Added s s' num := by
  have hin := h.inside
  have hlist := h.extents
  have hempty := blocks_of_empty h.empty
  have hlength := h.length
  rw [ExtendRound.addExtent,h.data,h.index,mod_eq_of_lt (by omega)]
  have hget : (xs++e::ys).getD xs.length ⟨0,0⟩=e := by simp
  simp only [hget]
  by_cases hgrow : start=e.startBlock+e.blockCount
  · rw [if_pos hgrow,Nat.mod_eq_of_lt (by omega),set_append_right _ _ le_rfl,Nat.sub_self,
      set_cons_zero]
    obtain hfail | ⟨s',hs',hsame,hlast⟩ := h.updateRecord io xs ys
      ⟨e.startBlock,e.blockCount+num⟩ h.empty (by simp) (by dsimp only; omega)
    · exact .inl hfail
    · refine .inr ⟨s',hs',hsame,⟨_,_,_,_,hlast,by dsimp only; omega⟩,?_,fun b hb => ?_⟩
      · rw [hlast.extents,hlist]
        simp only [blocks_append,blocks_cons]
        omega
      · rw [hlist,blocks_append,blocks_append,blocks_cons] at hb
        rw [hlast.extents,hlist]
        exact (physicalBlock_cut (e := ⟨e.startBlock,e.blockCount+num⟩) (m := e.blockCount)
          (le_add_right _ _) (by rw [blocks_append]; omega)).symm
  rw [if_neg hgrow]
  by_cases hzero : e.blockCount=0
  · -- the extent is free to use
    rw [length_append,length_cons] at hlength
    rw [if_neg (not_not.mpr hzero),if_neg (by omega),set_append_right _ _ le_rfl,Nat.sub_self,
      set_cons_zero]
    obtain hfail | ⟨s',hs',hsame,hlast⟩ := h.updateRecord io xs ys ⟨start,num⟩
      h.empty (by simp) hfit
    · exact .inl hfail
    · refine .inr ⟨s',hs',hsame,⟨_,_,_,_,hlast,by dsimp only; omega⟩,?_,fun b hb => ?_⟩
      · rw [hlast.extents,hlist]
        simp only [blocks_append,blocks_cons]
        omega
      · rw [hlist,←append_assoc,blocks_append,blocks_cons,hempty,hzero] at hb
        rw [hlast.extents,hlist,←append_assoc,←append_assoc]
        exact physicalBlock_prefix hb
  rw [if_pos hzero]
  cases ys with
  | nil =>
    have hfull : xs.length+1=s.vcb.vcbSigWord.numExtentsPerRecord := by
      rw [←hlength,length_append]
      rfl
    rw [if_pos hfull]
    by_cases hfile : s.fcb.fileID=kHFSExtentsFileID
    · rw [if_pos hfile]
      exact .inl ⟨some_ne_none _,rfl,rfl⟩
    rw [if_neg hfile]
    obtain hfail | ⟨s',hs',hsame,hlast⟩ := h.createRecord io
      (by rw [blocks_append,blocks_cons]; omega) (by rw [hnext,hlist]) hlimit hfit
    · exact .inl hfail
    · refine .inr ⟨s',hs',hsame,⟨_,_,_,_,hlast,by dsimp only; omega⟩,?_,fun b hb => ?_⟩
      · rw [hlast.extents,hlist,blocks_append,nil_append,blocks_cons,blocks_of_empty hlast.empty]
        rfl
      · rw [hlist] at hb
        rw [hlast.extents,hlist,physicalBlock_append_left hb]
  | cons d ys =>
    rw [length_append,length_cons,length_cons] at hlength
    have hset : (xs++e::d::ys).set (xs.length+1) ⟨start,num⟩=(xs++[e])++⟨start,num⟩::ys := by
      rw [set_append_right _ _ (Nat.le_add_right _ 1),Nat.add_sub_cancel_left]
      simp
    rw [if_neg (by omega),hset,show xs.length+1=(xs++[e]).length by simp]
    obtain hfail | ⟨s',hs',hsame,hlast⟩ := h.updateRecord io (xs++[e]) ys
      ⟨start,num⟩ (fun x hx => h.empty x (mem_cons_of_mem d hx)) (by simp) hfit
    · exact .inl hfail
    · rw [blocks_cons] at hempty
      refine .inr ⟨s',hs',hsame,⟨_,_,_,_,hlast,by dsimp only; omega⟩,?_,fun b hb => ?_⟩
      · rw [hlast.extents,hlist]
        simp only [blocks_append,blocks_cons,blocks_nil]
        omega
      · rw [hlist] at hb
        simp only [blocks_append,blocks_cons] at hb
        have hprefix : b<blocks (first++(xs++[e])) := by
          simp only [blocks_append,blocks_cons,blocks_nil]
          omega
        rw [hlast.extents,hlist,show first++(xs++e::d::ys) =
          (first++(xs++[e]))++d::ys by simp,←append_assoc]
        exact physicalBlock_prefix hprefix

end Add

/-- The fork `fcb` is being extended to the length `peof`, and to at most `limit` blocks. -/
structure Growing (v : Volume) (fcb : FCB) (peof limit : ℕ) (s : ExtendState) : Prop where
  sig : s.vcb.vcbSigWord=v.vcbSigWord
  blockSize : s.vcb.blockSize=v.blockSize
  totalBlocks : s.vcb.totalBlocks=v.totalBlocks
  last : ∃ first xs ys e,LastExtent s first xs ys e ∧
    (e.startBlock+e.blockCount=0 → s.vcb.nextAllocation≤v.totalBlocks)
  nextBlock : s.nextBlock=blocks (extentList s.vcb s.fcb)
  le : blocks (extentList v fcb) ≤ s.nextBlock
  kept : ∀ b<blocks (extentList v fcb),
    physicalBlock (extentList s.vcb s.fcb) b=physicalBlock (extentList v fcb) b
  pLen : s.fcb.fcbPLen=s.nextBlock*v.blockSize
  bytes : ∃ m n : ℕ,s.bytesToAdd=m ∧ s.maximumBytes=n ∧ 0 < m ∧ m≤n ∧
    s.fcb.fcbPLen+m=peof ∧ n/v.blockSize+1<2^32 ∧
    s.nextBlock+ExtendedVCB.fileBytesToBlocks n v.blockSize≤limit

/-- The loop has ended: the blocks that the fork had are where they were, and without an error it
has the length `peof`. -/
structure Ended (v : Volume) (fcb : FCB) (peof limit : ℕ)
    (r : Option ExtendErr × ExtendState) : Prop where
  kept : ∀ b<blocks (extentList v fcb),
    physicalBlock (extentList r.2.vcb r.2.fcb) b=physicalBlock (extentList v fcb) b
  pLen : r.2.fcb.fcbPLen=blocks (extentList r.2.vcb r.2.fcb)*v.blockSize
  le : blocks (extentList v fcb)≤blocks (extentList r.2.vcb r.2.fcb)
  limit : blocks (extentList r.2.vcb r.2.fcb)≤limit
  reached : r.1=none → peof≤r.2.fcb.fcbPLen

def ExtendState.rank (s : ExtendState) : ℕ := s.bytesToAdd.toNat+if s.wantContig then 1 else 0

section Round
variable {v : Volume} {fcb : FCB} {peof limit : ℕ} {s : ExtendState}

lemma Growing.unchanged (h : Growing v fcb peof limit s) {r : Option ExtendErr × ExtendState}
    (hr : Unchanged s r) : Ended v fcb peof limit r := by
  obtain ⟨herr,hlist,hlen⟩ := hr
  obtain ⟨m,n,-,-,-,-,-,-,hle⟩ := h.bytes
  refine ⟨?_,?_,?_,?_,fun hnone => absurd hnone herr⟩
  · rw [hlist]
    exact h.kept
  · rw [hlen,hlist,h.pLen,h.nextBlock]
  · rw [hlist,←h.nextBlock]
    exact h.le
  · rw [hlist,←h.nextBlock]
    omega

lemma Growing.nextBlock_lt (h : Growing v fcb peof limit s) (hbs : 0<v.blockSize) {b : ℕ}
    (hb : (peof-1)/v.blockSize<b) : s.nextBlock<b := by
  obtain ⟨m,-,-,-,hm,-,hpeof,-⟩ := h.bytes
  refine lt_of_le_of_lt ((le_div_iff_mul_le hbs).mpr ?_) hb
  rw [←h.pLen]
  omega

lemma Growing.count (h : Growing v fcb peof limit s) (hbs : 0<v.blockSize) (hlimit : limit<2^32)
    {s' : ExtendState} (hsame : SameRequest s s') {num : ℕ} (hadded : Added s s' num)
    (hnum : 0<num) (hmax : num≤ExtendedVCB.fileBytesToBlocks s.maximumBytes v.blockSize) :
    (∀ err,(err=none → (ExtendRound.countExtent s' v.blockSize num).bytesToAdd=0) →
      Ended v fcb peof limit (err,ExtendRound.countExtent s' v.blockSize num)) ∧
    ((ExtendRound.countExtent s' v.blockSize num).bytesToAdd≠0 →
      Growing v fcb peof limit (ExtendRound.countExtent s' v.blockSize num) ∧
      (ExtendRound.countExtent s' v.blockSize num).rank<s.rank) := by
  obtain ⟨m,n,hm,hn,hpos,hmn,hpeof,hsmall,hle⟩ := h.bytes
  rw [hn] at hmax
  have hnext := h.nextBlock
  have hblocks := hadded.blocks
  rw [←hnext] at hblocks
  have hkept : ∀ b<blocks (extentList v fcb),
      physicalBlock (extentList s'.vcb s'.fcb) b=physicalBlock (extentList v fcb) b :=
    fun b hb => (hadded.kept b (hnext▸hb.trans_le h.le)).trans (h.kept b hb)
  have hlen : s'.fcb.fcbPLen+num*v.blockSize=blocks (extentList s'.vcb s'.fcb)*v.blockSize := by
    rw [hsame.pLen,h.pLen,hblocks,add_mul]
  have hbytes : 0<num*v.blockSize := mul_pos hnum hbs
  have hcount : (ExtendRound.countExtent s' v.blockSize num).bytesToAdd =
      if (m : ℤ)<(num*v.blockSize : ℕ) then (0 : ℤ) else (m : ℤ)-(num*v.blockSize : ℕ) := by
    rw [ExtendRound.countExtent,hsame.bytesToAdd,hm]
  refine ⟨fun err herr => ⟨hkept,hlen,?_,?_,fun hnone => ?_⟩,fun hne => ?_⟩
  · exact (h.le.trans (le_add_right _ num)).trans hblocks.ge
  · exact hblocks.le.trans (by omega)
  · have hzero := herr hnone
    rw [hcount] at hzero
    change peof ≤ s'.fcb.fcbPLen+num*v.blockSize
    rw [hsame.pLen]
    split_ifs at hzero <;> omega
  · rw [hcount] at hne
    have hless : ¬(m : ℤ)<(num*v.blockSize : ℕ) := fun hlt => hne (if_pos hlt)
    rw [if_neg hless] at hne hcount
    obtain ⟨first,xs,ys,e,hlast,hstart⟩ := hadded.last
    have hmod : (s'.nextBlock+num)%2^32=s.nextBlock+num := by
      rw [hsame.nextBlock]
      exact mod_eq_of_lt (by omega)
    have hsub := ExtendedVCB.fileBytesToBlocks_sub hsmall hbs (k := num) (by omega)
    have hdiv := Nat.div_le_div_right (c := v.blockSize) (Nat.sub_le n (num*v.blockSize))
    refine ⟨⟨hsame.sig.trans h.sig,hsame.blockSize.trans h.blockSize,
      hsame.totalBlocks.trans h.totalBlocks,⟨first,xs,ys,e,
        ⟨hlast.data,hlast.index,hlast.record,hlast.empty,hlast.length,hlast.inside⟩,
        fun hzero => by omega⟩,hmod.trans hblocks.symm,?_,hkept,?_,
      m-num*v.blockSize,n-num*v.blockSize,?_,?_,by omega,by omega,?_,by omega,?_⟩,?_⟩
    · exact (h.le.trans (le_add_right _ num)).trans hmod.ge
    · change s'.fcb.fcbPLen+num*v.blockSize=(s'.nextBlock+num)%2^32*v.blockSize
      rw [hlen,hblocks,hmod]
    · rw [hcount]
      omega
    · rw [ExtendRound.countExtent]
      dsimp only
      rw [hsame.bytesToAdd,hm,if_neg hless,hsame.maximumBytes,hn]
      omega
    · change s'.fcb.fcbPLen+num*v.blockSize+(m-num*v.blockSize)=peof
      rw [hsame.pLen]
      omega
    · change (s'.nextBlock+num)%2^32+_≤limit
      rw [hmod]
      omega
    · rw [ExtendState.rank,ExtendState.rank,hcount,hm]
      change _+(if s'.wantContig=true then 1 else 0)<_
      rw [hsame.wantContig]
      omega

lemma Growing.round (h : Growing v fcb peof limit s) (hsize : v.totalBlocks+32≤2^32)
    (hbs : 0<v.blockSize) (hpeof : (peof-1)/v.blockSize<v.vcbSigWord.fabnLimit)
    (hlimit : limit<2^32) (io : ExtendRound) (forceContig : Bool) :
    (∃ r,io.round v.blockSize forceContig s=.done r.1 r.2 ∧ Ended v fcb peof limit r) ∨
    ∃ s',io.round v.blockSize forceContig s=.again s' ∧ Growing v fcb peof limit s' ∧
      s'.rank<s.rank := by
  obtain ⟨first,xs,ys,e,hlast,hstart⟩ := h.last
  obtain ⟨m,n,hm,hn,hpos,hmn,hend,hsmall,hle⟩ := h.bytes
  have hin := hlast.inside
  have hdiv := Nat.div_le_div_right (c := v.blockSize) hmn
  rw [h.totalBlocks] at hin
  have hget : s.foundData.getD s.foundIndex ⟨0,0⟩=e := by
    rw [hlast.data,hlast.index]
    simp
  have hmod : (e.startBlock+e.blockCount)%2^32=e.startBlock+e.blockCount :=
    mod_eq_of_lt (by omega)
  rw [ExtendRound.round]
  simp only [hget,hmod]
  rcases hgiven : s.vcb.blockAllocate io.reads (e.startBlock+e.blockCount) s.bytesToAdd
    s.maximumBytes s.wantContig with ⟨err | ⟨start,num⟩,w⟩
  · dsimp only
    have hfail : ∀ err',Ended v fcb peof limit
        (some err',{s with vcb := {s.vcb with toExtendedVCB := w}}) :=
      fun err' => h.unchanged ⟨some_ne_none _,rfl,rfl⟩
    cases err with
    | ioErr =>
      rw [if_pos rfl]
      exact .inl ⟨_,rfl,hfail _⟩
    | dskFulErr =>
      rw [if_neg (by decide)]
      by_cases hforce : forceContig=true ∨ s.wantContig=false
      · rw [if_pos hforce]
        exact .inl ⟨_,rfl,hfail _⟩
      · -- the whole amount does not fit in one place
        rw [if_neg hforce,if_neg (by rw [hm]; omega)]
        have hwant : s.wantContig=true := by
          by_contra hnot
          exact hforce (.inr (by simpa using hnot))
        rw [hwant] at hgiven
        obtain rfl := ExtendedVCB.blockAllocate_unchanged hgiven
        refine .inr ⟨_,rfl,⟨h.sig,h.blockSize,h.totalBlocks,⟨first,xs,ys,e,
          ⟨hlast.data,hlast.index,hlast.record,hlast.empty,hlast.length,hlast.inside⟩,hstart⟩,
          h.nextBlock,h.le,h.kept,h.pLen,h.bytes⟩,?_⟩
        rw [ExtendState.rank,ExtendState.rank,hwant]
        exact lt_succ_self _
  · have hamount := ExtendedVCB.blockAllocate_amount (by rw [h.totalBlocks]; exact hsize)
      (fun hzero => by rw [h.totalBlocks]; exact hstart hzero) (by rw [h.totalBlocks]; exact hin)
      (by rw [hm,h.blockSize]; exact ExtendedVCB.fileBytesToBlocks_pos (by omega) hbs hpos)
      (by rw [hm,hn,h.blockSize]; exact ExtendedVCB.fileBytesToBlocks_mono hsmall hmn) hgiven
    obtain ⟨hfit,hnum,-,hmax,hbsize,htotal⟩ := hamount
    rw [h.blockSize] at hmax
    dsimp only
    have hlast' : LastExtent {s with vcb := {s.vcb with toExtendedVCB := w}} first xs ys e :=
      ⟨hlast.data,hlast.index,hlast.record,hlast.empty,hlast.length,htotal▸hlast.inside⟩
    have hadd := hlast'.addExtent io start num ?_ hnum (htotal▸hfit)
      h.nextBlock ?_
    · rw [hmod] at hadd
      obtain hfail | ⟨s',hs',hsame,hadded⟩ := hadd
      · rcases hr : io.addExtent {s with vcb := {s.vcb with toExtendedVCB := w}}
          (e.startBlock+e.blockCount) start num with ⟨- | err,s'⟩
        · rw [hr] at hfail
          exact absurd rfl hfail.1
        · rw [hr] at hfail
          exact .inl ⟨_,rfl,h.unchanged hfail⟩
      · rw [hs']
        dsimp only
        have hsame' : SameRequest s s' := ⟨hsame.sig,hsame.blockSize.trans hbsize,
          hsame.totalBlocks.trans htotal,hsame.pLen,hsame.nextBlock,hsame.bytesToAdd,
          hsame.maximumBytes,hsame.wantContig⟩
        obtain ⟨hdone,hagain⟩ := h.count hbs hlimit hsame'
          ⟨hadded.last,hadded.blocks,hadded.kept⟩ hnum hmax
        by_cases hforce : forceContig=true
        · have herr : (if (ExtendRound.countExtent s' v.blockSize num).bytesToAdd≠0 then
              some ExtendErr.dskFulErr else none)=none →
              (ExtendRound.countExtent s' v.blockSize num).bytesToAdd=0 := by
            split_ifs with hne
            · exact fun hnone => by cases hnone
            · exact fun _ => not_not.mp hne
          rw [if_pos hforce]
          exact .inl ⟨_,rfl,hdone _ herr⟩
        rw [if_neg hforce]
        by_cases hzero : (ExtendRound.countExtent s' v.blockSize num).bytesToAdd=0
        · rw [if_pos hzero]
          exact .inl ⟨_,rfl,hdone _ fun _ => hzero⟩
        · rw [if_neg hzero]
          exact .inr ⟨_,rfl,hagain hzero⟩
    · change w.totalBlocks<2^32
      rw [htotal,h.totalBlocks]
      omega
    · change s.nextBlock<s.vcb.vcbSigWord.fabnLimit
      rw [h.sig]
      exact h.nextBlock_lt hbs hpeof

lemma Growing.extendLoop (hsize : v.totalBlocks+32≤2^32) (hbs : 0<v.blockSize)
    (hpeof : (peof-1)/v.blockSize<v.vcbSigWord.fabnLimit) (hlimit : limit<2^32)
    (forceContig : Bool) (n : ℕ) (io : ℕ → ExtendRound) (h : Growing v fcb peof limit s)
    (hn : s.rank<n) : Ended v fcb peof limit (extendLoop v.blockSize forceContig n io s) := by
  induction n generalizing io s with
  | zero => exact absurd hn (not_lt_zero _)
  | succ n ih =>
    rw [Extents.extendLoop]
    obtain ⟨r,hr,hended⟩ | ⟨s',hs',hgrowing,hrank⟩ :=
      h.round hsize hbs hpeof hlimit (io 0) forceContig
    · rw [hr]
      exact hended
    · rw [hs']
      exact ih _ hgrowing (by omega)

end Round

end Darwin.Hfs.Extents
