import Darwin.Hfs.ExtentsMove
import Darwin.Hfs.VolumeAllocation

/-! The extents of an open fork, from `Misc/FileExtentMapping.c`: the first ones are in the FCB,
the others in records of the extents file, each under the number of the file block that it
begins with. -/
open List Nat
namespace Darwin.Hfs
open Lib Catalog

def Catalog.ExtentKey.forkType (key : ExtentKey) : ℕ := (ofLex (ofLex key).2).1

def Catalog.ExtentKey.startBlock (key : ExtentKey) : ℕ := (ofLex (ofLex key).2).2

namespace Extents

inductive OSErr
  | fxRangeErr
  | ioErr
  | fileBoundsErr
  deriving DecidableEq

inductive SigWord
  | kHFSSigWord
  | kHFSPlusSigWord
  deriving DecidableEq

/-- A mounted volume with its extents file. -/
structure Volume extends ExtendedVCB where
  vcbSigWord : SigWord
  hfsPlusIOPosOffset : ℕ
  vcbAlBlSt : ℕ
  extents : SortedMap ExtentKey ExtentRecord

/-- An open fork. The extent record has as many descriptors as the volume format uses. -/
structure FCB where
  fileID : ℕ
  forkType : ℕ
  fcbExtents : ExtentRecord
  fcbPLen : ℕ

def SigWord.numExtentsPerRecord : SigWord → ℕ
  | .kHFSSigWord => 3
  | .kHFSPlusSigWord => 8

def SigWord.fabnLimit : SigWord → ℕ
  | .kHFSSigWord => 2^16
  | .kHFSPlusSigWord => 2^32

/-- The results of `SearchExtentRecord`; `found` is false for `fxRangeErr`. -/
structure RecordSearch where
  found : Bool
  foundExtentIndex : ℕ
  endingFABNPlusOne : ℕ
  noMoreExtents : Bool

def searchLoop (searchFABN : ℕ) : ExtentRecord → ℕ → ℕ → RecordSearch
  | [],extentIndex,endingFABNPlusOne => ⟨false,extentIndex-1,endingFABNPlusOne,false⟩
  | e::es,extentIndex,endingFABNPlusOne =>
    if e.blockCount=0 then ⟨false,extentIndex-1,endingFABNPlusOne,true⟩
    else
      let endingFABNPlusOne := (endingFABNPlusOne+e.blockCount)%2^32
      if searchFABN<endingFABNPlusOne then ⟨true,extentIndex,endingFABNPlusOne,false⟩
      else searchLoop searchFABN es (extentIndex+1) endingFABNPlusOne

def SearchExtentRecord (searchFABN : ℕ) (extentData : ExtentRecord) (extentDataStartFABN : ℕ) :
    RecordSearch :=
  searchLoop searchFABN extentData 0 extentDataStartFABN

/-- `FindExtentRecord`, with `none` for `btNotFound`. A key has a block number of the
volume format. -/
def FindExtentRecord (v : Volume) (forkType fileID startBlock : ℕ) (allowPrevious : Bool) :
    Option (ExtentKey × ExtentRecord) :=
  let key : ExtentKey := toLex (fileID,toLex (forkType,startBlock%v.vcbSigWord.fabnLimit))
  match v.extents.get key with
  | some data => some (key,data)
  | none =>
    if allowPrevious then
      match v.extents.prev key with
      | none => none
      | some (found,data) =>
        if found.fileID≠fileID ∨ found.forkType≠forkType then none else some (found,data)
    else none

/-- The results of `SearchExtentFile`; the key is `none` where its length is 0, which stands
for the record in the FCB. -/
structure FileSearch where
  err : Option OSErr
  foundExtentKey : Option ExtentKey
  foundExtentData : ExtentRecord
  foundExtentIndex : ℕ
  endingFABNPlusOne : ℕ

def RecordSearch.err (r : RecordSearch) : Option OSErr :=
  if r.found then none else some .fxRangeErr

def SearchExtentFile (v : Volume) (fcb : FCB) (filePosition : ℕ) : FileSearch :=
  let filePositionBlock := filePosition/v.blockSize%2^32
  let r := SearchExtentRecord filePositionBlock fcb.fcbExtents 0
  if r.found ∨ r.noMoreExtents then
    ⟨r.err,none,fcb.fcbExtents,r.foundExtentIndex,r.endingFABNPlusOne⟩
  else
    match FindExtentRecord v fcb.forkType fcb.fileID filePositionBlock true with
    | none => ⟨some .fxRangeErr,none,fcb.fcbExtents,r.foundExtentIndex,r.endingFABNPlusOne⟩
    | some (key,data) =>
      let r := SearchExtentRecord filePositionBlock data key.startBlock
      ⟨r.err,some key,data,r.foundExtentIndex,r.endingFABNPlusOne⟩

def blocks (es : List ExtentDescriptor) : ℕ := (es.map ExtentDescriptor.blockCount).sum

def physicalBlock : List ExtentDescriptor → ℕ → Option ℕ
  | [],_ => none
  | e::es,n =>
    if n<e.blockCount then some (e.startBlock+n) else physicalBlock es (n-e.blockCount)

def Packed (r : ExtentRecord) : Prop :=
  r.Pairwise fun e d => e.blockCount=0 → d.blockCount=0

def Full (r : ExtentRecord) : Prop := ∀ e∈r,e.blockCount≠0

def overflowRecords (v : Volume) (fcb : FCB) : List (ℕ × ExtentRecord) :=
  (v.extents.entries.filter fun e => e.1.fileID=fcb.fileID ∧ e.1.forkType=fcb.forkType).map
    fun e => (e.1.startBlock,e.2)

/-- Records that follow each other, from a file block on: every one but the last is full. -/
def Chain : ℕ → List (ℕ × ExtentRecord) → Prop
  | _,[] => True
  | n,(k,r)::rs => k=n ∧ Packed r ∧ 0<blocks r ∧ (rs≠[] → Full r) ∧ Chain (n+blocks r) rs

def extentList (v : Volume) (fcb : FCB) : List ExtentDescriptor :=
  fcb.fcbExtents++(overflowRecords v fcb).flatMap Prod.snd

/-- The extents of a fork are well-formed, and its physical length lies within them. -/
structure WellFormed (v : Volume) (fcb : FCB) : Prop where
  sector : 0<v.blockSize ∧ 512 ∣ v.blockSize
  length : fcb.fcbExtents.length=v.vcbSigWord.numExtentsPerRecord ∧
    ∀ r∈overflowRecords v fcb,r.2.length=v.vcbSigWord.numExtentsPerRecord
  packed : Packed fcb.fcbExtents
  full : overflowRecords v fcb≠[] → Full fcb.fcbExtents
  chain : Chain (blocks fcb.fcbExtents) (overflowRecords v fcb)
  small : blocks (extentList v fcb)<v.vcbSigWord.fabnLimit
  pLen : fcb.fcbPLen≤blocks (extentList v fcb)*v.blockSize
  fits : blocks (extentList v fcb)*v.blockSize<2^63

section Lists
variable {xs ys es : List ExtentDescriptor} {e : ExtentDescriptor}

@[simp] lemma blocks_nil : blocks []=0 := rfl

@[simp] lemma blocks_cons : blocks (e::es)=e.blockCount+blocks es := rfl

@[simp] lemma blocks_append : blocks (xs++ys)=blocks xs+blocks ys := by
  rw [blocks,map_append,List.sum_append]
  rfl

lemma physicalBlock_append_right {n : ℕ} (h : blocks xs≤n) :
    physicalBlock (xs++ys) n=physicalBlock ys (n-blocks xs) := by
  induction xs generalizing n with
  | nil => rfl
  | cons e xs ih =>
    rw [blocks_cons] at h ⊢
    rw [cons_append,physicalBlock,if_neg (by omega),ih (by omega)]
    congr 1
    omega

lemma physicalBlock_append_left {n : ℕ} (h : n<blocks xs) :
    physicalBlock (xs++ys) n=physicalBlock xs n := by
  induction xs generalizing n with
  | nil => exact absurd h (not_lt_zero n)
  | cons e xs ih =>
    rw [blocks_cons] at h
    rw [cons_append,physicalBlock,physicalBlock]
    split_ifs with hlt
    · rfl
    · exact ih (by omega)

lemma physicalBlock_extent {before after : List ExtentDescriptor} {n : ℕ} (h1 : blocks before≤n)
    (h2 : n<blocks before+e.blockCount) :
    physicalBlock (before++e::after) n=some (e.startBlock+(n-blocks before)) := by
  rw [physicalBlock_append_right h1,physicalBlock,if_pos (by omega)]

lemma blocks_of_empty (h : ∀ d∈es,d.blockCount=0) : blocks es=0 :=
  sum_eq_zero fun n hn => by
    obtain ⟨d,hd,rfl⟩ := mem_map.mp hn
    exact h d hd

end Lists

section Records
variable {n b : ℕ} {rs : List (ℕ × ExtentRecord)}

variable {x : ℕ × ExtentRecord}

lemma Chain.le_of_mem (h : Chain n rs) (hx : x∈rs) : n≤x.1 := by
  induction rs generalizing n with
  | nil => cases hx
  | cons a rs ih =>
    obtain ⟨hk,-,-,-,hrest⟩ := h
    rcases mem_cons.mp hx with rfl | hx
    · exact hk.ge
    · exact (le_add_right n _).trans (ih hrest hx)

lemma Chain.packed (h : Chain n rs) (hx : x∈rs) : Packed x.2 := by
  induction rs generalizing n with
  | nil => cases hx
  | cons a rs ih =>
    obtain ⟨-,hpacked,-,-,hrest⟩ := h
    rcases mem_cons.mp hx with rfl | hx
    · exact hpacked
    · exact ih hrest hx

lemma Chain.apart (h : Chain n rs) {x y : ℕ × ExtentRecord} (hx : x∈rs) (hy : y∈rs)
    (hle : x.1≤y.1) : x=y ∨ x.1+blocks x.2≤y.1 := by
  induction rs generalizing n with
  | nil => cases hx
  | cons a rs ih =>
    obtain ⟨hk,-,hpos,-,hrest⟩ := h
    rcases mem_cons.mp hx with rfl | hxs
    · rcases mem_cons.mp hy with rfl | hys
      · exact .inl rfl
      · rw [hk]
        exact .inr (hrest.le_of_mem hys)
    · have hge := hrest.le_of_mem hxs
      rcases mem_cons.mp hy with rfl | hys
      · omega
      · exact ih hrest hxs hys

lemma Chain.find (h : Chain n rs) (h1 : n≤b) (h2 : b<n+blocks (rs.flatMap Prod.snd)) :
    ∃ before k r behind,rs=before++(k,r)::behind ∧
      k=n+blocks (before.flatMap Prod.snd) ∧ k≤b ∧ b<k+blocks r := by
  induction rs generalizing n with
  | nil => exact absurd h2 (by simpa using h1)
  | cons a rs ih =>
    obtain ⟨k,r⟩ := a
    obtain ⟨hk,-,-,-,hrest⟩ := h
    rw [flatMap_cons,blocks_append] at h2
    dsimp only at h2
    rcases lt_or_ge b (n+blocks r) with hlt | hge
    · exact ⟨[],k,r,rs,rfl,hk,hk.le.trans h1,by omega⟩
    · obtain ⟨before,k',r',behind,rfl,hk',hle,hlt⟩ := ih hrest hge (by omega)
      refine ⟨(k,r)::before,k',r',behind,rfl,?_,hle,hlt⟩
      rw [flatMap_cons,blocks_append,hk']
      dsimp only
      omega

lemma Chain.end_le (h : Chain n rs) (hx : x∈rs) :
    x.1+blocks x.2≤n+blocks (rs.flatMap Prod.snd) := by
  induction rs generalizing n with
  | nil => cases hx
  | cons a rs ih =>
    obtain ⟨hk,-,-,-,hrest⟩ := h
    rw [flatMap_cons,blocks_append]
    rcases mem_cons.mp hx with rfl | hx
    · omega
    · have := ih hrest hx
      omega

lemma key_between {fileID forkType first last : ℕ} {key : ExtentKey}
    (h1 : toLex (fileID,toLex (forkType,first))≤key)
    (h2 : key<toLex (fileID,toLex (forkType,last))) :
    key.fileID=fileID ∧ key.forkType=forkType ∧ first≤key.startBlock ∧ key.startBlock<last := by
  rw [Prod.Lex.le_iff] at h1
  rw [Prod.Lex.lt_iff,Prod.Lex.lt_iff] at h2
  rw [ExtentKey.fileID,ExtentKey.forkType,ExtentKey.startBlock]
  simp only [ofLex_toLex] at h1 h2
  rcases h1 with h1 | ⟨hf,h1⟩
  · rcases h2 with h2 | ⟨h2,-⟩ <;> omega
  rw [Prod.Lex.le_iff] at h1
  simp only [ofLex_toLex] at h1
  omega

lemma find_mem {v : Volume} {fcb : FCB} {key : ExtentKey} {data : ExtentRecord}
    (h : FindExtentRecord v fcb.forkType fcb.fileID b true=some (key,data)) :
    (key.startBlock,data)∈overflowRecords v fcb := by
  have hrecord : (key,data)∈v.extents.entries ∧ key.fileID=fcb.fileID ∧
      key.forkType=fcb.forkType := by
    rw [FindExtentRecord] at h
    split at h
    · rename_i found hget
      obtain ⟨rfl,rfl⟩ := Prod.mk.inj (Option.some.inj h)
      exact ⟨SortedMap.get_eq_some_iff.mp hget,rfl,rfl⟩
    · rw [if_pos rfl] at h
      split at h
      · cases h
      · rename_i found hprev
        split_ifs at h with hother
        obtain ⟨rfl,rfl⟩ := Prod.mk.inj (Option.some.inj h)
        rw [not_or,not_not,not_not] at hother
        exact ⟨(SortedMap.prev_eq_some hprev).1,hother⟩
  exact mem_map.mpr ⟨(key,data),mem_filter.mpr ⟨hrecord.1,decide_eq_true hrecord.2⟩,rfl⟩

lemma find_of_unique {v : Volume} {fcb : FCB} {k : ℕ} {r : ExtentRecord}
    (hmem : (k,r)∈overflowRecords v fcb) (h1 : k≤b) (hb : b<v.vcbSigWord.fabnLimit)
    (honly : ∀ x∈overflowRecords v fcb,k≤x.1 → x.1≤b → x=(k,r)) :
    FindExtentRecord v fcb.forkType fcb.fileID b true =
      some (toLex (fcb.fileID,toLex (fcb.forkType,k)),r) := by
  have hentry : (toLex (fcb.fileID,toLex (fcb.forkType,k)),r)∈v.extents.entries := by
    obtain ⟨⟨key,data⟩,hkey,heq⟩ := mem_map.mp hmem
    obtain ⟨hkey,hfork⟩ := mem_filter.mp hkey
    obtain ⟨rfl,rfl⟩ := Prod.mk.inj heq
    obtain ⟨hfile,hfork⟩ := of_decide_eq_true hfork
    dsimp only at hfile hfork
    rw [←hfile,←hfork]
    exact hkey
  have huniq : ∀ key data,(key,data)∈v.extents.entries → key.fileID=fcb.fileID →
      key.forkType=fcb.forkType → k≤key.startBlock → key.startBlock≤b →
      key.startBlock=k ∧ data=r := by
    intro key data hkey hfile hfork hle hlt
    have hmem' : (key.startBlock,data)∈overflowRecords v fcb :=
      mem_map.mpr ⟨(key,data),mem_filter.mpr ⟨hkey,decide_eq_true ⟨hfile,hfork⟩⟩,rfl⟩
    exact Prod.mk.inj (honly _ hmem' hle hlt)
  rw [FindExtentRecord,mod_eq_of_lt hb]
  cases hget : v.extents.get (toLex (fcb.fileID,toLex (fcb.forkType,b))) with
  | some data =>
    obtain ⟨hk,hr⟩ := huniq _ data (SortedMap.get_eq_some_iff.mp hget) rfl rfl h1 (le_refl b)
    change b=k at hk
    rw [hk,hr]
  | none =>
    dsimp only
    have hlt : k<b := by
      refine lt_of_le_of_ne h1 ?_
      rintro rfl
      rw [SortedMap.get_eq_some_iff.mpr hentry] at hget
      cases hget
    have hbelow : (toLex (fcb.fileID,toLex (fcb.forkType,k)) : ExtentKey) <
        toLex (fcb.fileID,toLex (fcb.forkType,b)) :=
      Prod.Lex.lt_iff.mpr (.inr ⟨rfl,Prod.Lex.lt_iff.mpr (.inr ⟨rfl,hlt⟩)⟩)
    rw [if_pos rfl]
    cases hprev : v.extents.prev (toLex (fcb.fileID,toLex (fcb.forkType,b))) with
    | none => exact absurd hbelow (SortedMap.prev_eq_none hprev _ hentry)
    | some found =>
      obtain ⟨key,data⟩ := found
      obtain ⟨hmem',hlt',hmax⟩ := SortedMap.prev_eq_some hprev
      obtain ⟨hfile,hfork,hge,hlt'⟩ := key_between (hmax _ hentry hbelow) hlt'
      obtain ⟨hk,rfl⟩ := huniq key data hmem' hfile hfork hge hlt'.le
      change key.fileID=fcb.fileID at hfile
      change key.forkType=fcb.forkType at hfork
      dsimp only
      rw [if_neg (by rw [not_or,not_not,not_not]; exact ⟨hfile,hfork⟩),←hk,←hfile,←hfork]
      rfl

lemma find_eq {v : Volume} {fcb : FCB} (h : Chain n (overflowRecords v fcb))
    {k : ℕ} {r : ExtentRecord} (hmem : (k,r)∈overflowRecords v fcb) (h1 : k≤b)
    (h2 : b<k+blocks r) (hb : b<v.vcbSigWord.fabnLimit) :
    FindExtentRecord v fcb.forkType fcb.fileID b true =
      some (toLex (fcb.fileID,toLex (fcb.forkType,k)),r) := by
  refine find_of_unique hmem h1 hb fun x hx hk hxb => ?_
  -- a record between the one that holds the block and the block is that one
  rcases h.apart hmem hx hk with heq | hapart
  · exact heq.symm
  · dsimp only at hapart
    omega

end Records

section Search
variable {b : ℕ} {r : ExtentRecord}

lemma searchLoop_found (hp : Packed r) (index ending : ℕ) (hsmall : ending+blocks r<2^32)
    (h1 : ending≤b) (h2 : b<ending+blocks r) :
    ∃ before e behind,r=before++e::behind ∧ ending+blocks before≤b ∧
      b<ending+blocks before+e.blockCount ∧ searchLoop b r index ending =
        ⟨true,index+before.length,ending+blocks before+e.blockCount,false⟩ := by
  induction r generalizing index ending with
  | nil => exact absurd h2 (by simpa using h1)
  | cons e es ih =>
    obtain ⟨hempty,hp⟩ := pairwise_cons.mp hp
    rw [blocks_cons] at hsmall h2
    rw [searchLoop]
    by_cases hzero : e.blockCount=0
    · rw [blocks_of_empty fun d hd => hempty d hd hzero] at h2
      omega
    rw [if_neg hzero,mod_eq_of_lt (by omega)]
    by_cases hlt : b<ending+e.blockCount
    · exact ⟨[],e,es,rfl,h1,hlt,if_pos hlt⟩
    · obtain ⟨before,d,behind,rfl,hle,hlt',hres⟩ := ih hp (index+1) (ending+e.blockCount)
        (by omega) (by omega) (by omega)
      refine ⟨e::before,d,behind,rfl,?_,?_,?_⟩
      · rw [blocks_cons]
        omega
      · rw [blocks_cons]
        omega
      · simp only [if_neg hlt]
        rw [hres,blocks_cons,length_cons]
        congr 1
        · omega
        · omega

lemma searchLoop_not_found (hp : Packed r) (index ending : ℕ) (hsmall : ending+blocks r<2^32)
    (h : ending+blocks r≤b) : (searchLoop b r index ending).found=false ∧
      (searchLoop b r index ending).endingFABNPlusOne=ending+blocks r ∧
      ((searchLoop b r index ending).noMoreExtents=false ↔ Full r) := by
  induction r generalizing index ending with
  | nil => exact ⟨rfl,rfl,iff_of_true rfl fun e he => by cases he⟩
  | cons e es ih =>
    obtain ⟨hempty,hp⟩ := pairwise_cons.mp hp
    rw [blocks_cons] at hsmall h ⊢
    rw [searchLoop]
    by_cases hzero : e.blockCount=0
    · rw [if_pos hzero,blocks_of_empty fun d hd => hempty d hd hzero,hzero]
      exact ⟨rfl,rfl,iff_of_false (by simp) fun hfull => hfull e mem_cons_self hzero⟩
    rw [if_neg hzero,mod_eq_of_lt (by omega)]
    simp only [if_neg (show ¬b<ending+e.blockCount by omega)]
    obtain ⟨hfound,hend,hmore⟩ := ih hp (index+1) (ending+e.blockCount) (by omega) (by omega)
    refine ⟨hfound,by rw [hend]; omega,hmore.trans ⟨fun hfull d hd => ?_,fun hfull d hd => ?_⟩⟩
    · rcases mem_cons.mp hd with rfl | hd
      · exact hzero
      · exact hfull d hd
    · exact hfull d (mem_cons_of_mem e hd)

variable {v : Volume} {fcb : FCB}

lemma fabnLimit_le (sig : SigWord) : sig.fabnLimit≤2^32 := by
  cases sig <;> decide

lemma blocks_extentList : blocks (extentList v fcb) =
    blocks fcb.fcbExtents+blocks ((overflowRecords v fcb).flatMap Prod.snd) := by
  rw [extentList,blocks_append]

lemma WellFormed.blocks_of_not_full (h : WellFormed v fcb) (hfull : ¬Full fcb.fcbExtents) :
    blocks (extentList v fcb)=blocks fcb.fcbExtents := by
  have hnil : overflowRecords v fcb=[] := by
    by_contra hne
    exact hfull (h.full hne)
  rw [blocks_extentList,hnil,flatMap_nil,blocks_nil]
  rfl

lemma searchExtentFile_not_found (h : WellFormed v fcb) {filePosition : ℕ}
    (hge : blocks (extentList v fcb)≤filePosition/v.blockSize%2^32) :
    (SearchExtentFile v fcb filePosition).err=some .fxRangeErr := by
  have hsmall := h.small.trans_le (fabnLimit_le v.vcbSigWord)
  have htotal : blocks (extentList v fcb)=_ := blocks_extentList
  rw [SearchExtentFile,SearchExtentRecord]
  dsimp only
  obtain ⟨hfound,-,-⟩ := searchLoop_not_found h.packed 0 0 (b := filePosition/v.blockSize%2^32)
    (by omega) (by omega)
  rw [hfound]
  cases hmore : (searchLoop (filePosition/v.blockSize%2^32) fcb.fcbExtents 0 0).noMoreExtents with
  | true =>
    rw [if_pos (Or.inr rfl),RecordSearch.err,hfound]
    rfl
  | false =>
    rw [if_neg (by simp)]
    cases hfind : FindExtentRecord v fcb.forkType fcb.fileID (filePosition/v.blockSize%2^32) true with
    | none => rfl
    | some found =>
      obtain ⟨key,data⟩ := found
      have hmem := find_mem hfind
      have hend := h.chain.end_le hmem
      dsimp only at hend
      obtain ⟨hnot,-,-⟩ := searchLoop_not_found (h.chain.packed hmem) 0 key.startBlock
        (b := filePosition/v.blockSize%2^32) (by dsimp only; omega) (by dsimp only; omega)
      dsimp only at hnot ⊢
      rw [RecordSearch.err,SearchExtentRecord,hnot]
      rfl

end Search

end Extents
end Darwin.Hfs
