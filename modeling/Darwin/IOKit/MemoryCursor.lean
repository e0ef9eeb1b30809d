import Mathlib.Algebra.BigOperators.Group.List.Basic
import Mathlib.Data.Nat.Notation
import Mathlib.Tactic.ByContra

/-! The scatter/gather lists of `iokit/Kernel/IOMemoryCursor.cpp`. A descriptor is a state of type
`D` with its `getPhysicalSegment`, and `V` is what the segment function writes to. -/
open List
namespace Darwin.IOKit.MemoryCursor

structure PhysicalSegment where
  location : ℕ
  length : ℕ
  deriving DecidableEq

structure IOMemoryCursor (V : Type) where
  outSeg : PhysicalSegment → V → ℕ → V
  maxSegmentSize : ℕ
  maxTransferSize : ℕ
  alignMask : ℕ

variable {D V : Type}

/-- The number of segments, the size of the transfer where it is reported, and what is left in the
output and the descriptor. -/
structure Generated (D V : Type) where
  count : ℕ
  outTransferSize : Option ℕ
  segments : V
  descriptor : Option D
  deriving DecidableEq

variable (getPhysicalSegment : D → ℕ → (ℕ × ℕ) × D) (C : IOMemoryCursor V)

/-- The loop, with the number of segments that it may still write. -/
def genLoop (fromPosition inMaxTransferSize : ℕ) : ℕ → D → V → ℕ → ℕ → Generated D V
  | 0,d,v,curSegIndex,curTransferSize => ⟨curSegIndex,some curTransferSize,v,some d⟩
  | n+1,d,v,curSegIndex,curTransferSize =>
    if curTransferSize < inMaxTransferSize then
      let r := getPhysicalSegment d ((fromPosition+curTransferSize)%2^32)
      if r.1.1=0 then ⟨curSegIndex,some curTransferSize,v,some r.2⟩
      else
        let length := min (inMaxTransferSize-curTransferSize) (min r.1.2 C.maxSegmentSize)
        genLoop fromPosition inMaxTransferSize n r.2 (C.outSeg ⟨r.1.1,length⟩ v curSegIndex)
          (curSegIndex+1) (curTransferSize+length)
    else ⟨curSegIndex,some curTransferSize,v,some d⟩

def genPhysicalSegments (inDescriptor : Option D) (fromPosition : ℕ) (inSegments : V)
    (inMaxSegments inMaxTransferSize : ℕ) : Generated D V :=
  match inDescriptor with
  | none => ⟨0,none,inSegments,none⟩
  | some d =>
    if inMaxSegments=0 then ⟨0,none,inSegments,some d⟩
    else genLoop getPhysicalSegment C fromPosition
      (if inMaxTransferSize=0 then C.maxTransferSize else inMaxTransferSize)
      inMaxSegments d inSegments 0 0

/-- `getPhysicalSegment` gives, below the end, the address of a byte and for how long the bytes
follow each other. -/
structure Translates (inv : D → Prop) (length : ℕ) (byteAt : ℕ → ℕ) : Prop where
  lt : length<2^32
  kept : ∀ d offset,inv d → inv (getPhysicalSegment d offset).2
  below : ∀ d offset,inv d → offset<length → (getPhysicalSegment d offset).1.1≠0 ∧
    0<(getPhysicalSegment d offset).1.2 ∧ offset+(getPhysicalSegment d offset).1.2≤length ∧
    ∀ i<(getPhysicalSegment d offset).1.2,
      byteAt (offset+i)=((getPhysicalSegment d offset).1.1+i)%2^32
  behind : ∀ d offset,inv d → length≤offset → (getPhysicalSegment d offset).1.1=0

def PhysicalSegment.addresses (s : PhysicalSegment) : List ℕ :=
  (range s.length).map fun i => (s.location+i)%2^32

/-- The segment function called for each segment, from an index on. -/
def output (C : IOMemoryCursor V) : ℕ → V → List PhysicalSegment → V
  | _,v,[] => v
  | k,v,s::segs => output C (k+1) (C.outSeg s v k) segs

/-- What is generated from a position: the segments `segs`, up to one of the limits. -/
structure Generates (fromPosition limit n length : ℕ) (byteAt : ℕ → ℕ) (segs : List PhysicalSegment)
    (total : ℕ) : Prop where
  bytes : segs.flatMap PhysicalSegment.addresses =
    (range total).map fun i => byteAt (fromPosition+i)
  size : ∀ s∈segs,0<s.length ∧ s.length≤C.maxSegmentSize
  count : segs.length≤n
  le_limit : total≤limit
  stops : segs.length=n ∨ total=limit ∨ length≤fromPosition+total

variable {getPhysicalSegment C} {inv : D → Prop} {length limit : ℕ} {byteAt : ℕ → ℕ}

lemma Generates.cons {p n a l : ℕ} {segs : List PhysicalSegment} {total : ℕ}
    (h : Generates C (p+l) (limit-l) n length byteAt segs total) (hl : 0<l)
    (hmax : l≤C.maxSegmentSize) (hlimit : l≤limit)
    (hbytes : ∀ i<l,byteAt (p+i)=(a+i)%2^32) :
    Generates C p limit (n+1) length byteAt (⟨a,l⟩::segs) (l+total) := by
  have hcount := h.count
  have htotal := h.le_limit
  refine ⟨?_,?_,by simpa using hcount,by omega,?_⟩
  · have hhead : PhysicalSegment.addresses ⟨a,l⟩=(range l).map fun i => byteAt (p+i) := by
      refine map_congr_left fun i hi => ?_
      rw [hbytes i (mem_range.mp hi)]
    rw [flatMap_cons,h.bytes,hhead,range_add,map_append,map_map]
    simp [Function.comp_def,Nat.add_assoc]
  · intro s hs
    rcases mem_cons.mp hs with rfl | hs
    · exact ⟨hl,hmax⟩
    · exact h.size s hs
  · rcases h.stops with hn | ht | hend
    · exact .inl (by simpa using hn)
    · exact .inr (.inl (by omega))
    · exact .inr (.inr (by omega))

lemma genLoop_spec (ht : Translates getPhysicalSegment inv length byteAt)
    (hmax : 0<C.maxSegmentSize) {fromPosition : ℕ} (hfrom : fromPosition<2^32) (n : ℕ) :
    ∀ (d : D) (v : V) (k cur : ℕ),inv d → cur≤limit →
      (cur=0 ∨ fromPosition+cur≤length) → ∃ segs total d',inv d' ∧
        genLoop getPhysicalSegment C fromPosition limit n d v k cur =
          ⟨k+segs.length,some (cur+total),output C k v segs,some d'⟩ ∧
        Generates C (fromPosition+cur) (limit-cur) n length byteAt segs total := by
  have hlt := ht.lt
  induction n with
  | zero => exact fun d v k cur hd _ _ => ⟨[],0,d,hd,rfl,by simp,by simp,by simp,by simp,by simp⟩
  | succ n ih =>
    intro d v k cur hd hcur hpos
    rw [genLoop]
    by_cases hroom : cur<limit
    swap
    · exact ⟨[],0,d,hd,by rw [if_neg hroom]; rfl,by simp,by simp,by simp,by simp,.inr (.inl (by omega))⟩
    have hmod : (fromPosition+cur)%2^32=fromPosition+cur := Nat.mod_eq_of_lt (by omega)
    rw [if_pos hroom,hmod]
    have hinv := ht.kept d (fromPosition+cur) hd
    by_cases hend : length≤fromPosition+cur
    · rw [if_pos (ht.behind d _ hd hend)]
      exact ⟨[],0,_,hinv,rfl,by simp,by simp,by simp,by simp,.inr (.inr hend)⟩
    obtain ⟨hne,hpos',hfits,hbytes⟩ := ht.below d _ hd (Nat.lt_of_not_le hend)
    rw [if_neg hne]
    obtain ⟨l,hl⟩ : ∃ l,l=min (limit-cur)
      (min (getPhysicalSegment d (fromPosition+cur)).1.2 C.maxSegmentSize) := ⟨_,rfl⟩
    simp only [←hl]
    obtain ⟨segs,total,d',hd',hloop,hgen⟩ := ih _ (C.outSeg ⟨_,l⟩ v k) (k+1) (cur+l) hinv
      (by omega) (.inr (by omega))
    refine ⟨⟨(getPhysicalSegment d (fromPosition+cur)).1.1,l⟩::segs,l+total,d',hd',?_,?_⟩
    · rw [hloop,length_cons,Nat.add_assoc,Nat.add_comm 1,Nat.add_assoc]
      rfl
    · rw [←Nat.add_assoc,Nat.sub_add_eq] at hgen
      exact hgen.cons (by omega) (by omega) (by omega) fun i hi => hbytes i (by omega)

theorem genPhysicalSegments_translates (ht : Translates getPhysicalSegment inv length byteAt)
    (hmax : 0<C.maxSegmentSize) {fromPosition : ℕ} (hfrom : fromPosition<2^32) {d : D}
    (hd : inv d) (v : V) (inMaxSegments inMaxTransferSize : ℕ) :
    (inMaxSegments=0 → genPhysicalSegments getPhysicalSegment C (some d) fromPosition v
      inMaxSegments inMaxTransferSize=⟨0,none,v,some d⟩) ∧
    (0 < inMaxSegments → ∃ segs total d',inv d' ∧
      genPhysicalSegments getPhysicalSegment C (some d) fromPosition v inMaxSegments
        inMaxTransferSize=⟨segs.length,some total,output C 0 v segs,some d'⟩ ∧
      Generates C fromPosition
        (if inMaxTransferSize=0 then C.maxTransferSize else inMaxTransferSize) inMaxSegments
        length byteAt segs total) := by
  refine ⟨fun h => if_pos h,fun h => ?_⟩
  obtain ⟨segs,total,d',hd',hloop,hgen⟩ := genLoop_spec ht hmax hfrom inMaxSegments d v 0 0 hd
    (Nat.zero_le (if inMaxTransferSize=0 then C.maxTransferSize else inMaxTransferSize)) (.inl rfl)
  refine ⟨segs,total,d',hd',?_,hgen⟩
  rw [genPhysicalSegments,if_neg (by omega),hloop,Nat.zero_add,Nat.zero_add]

/-- Contiguous memory at 4096, in segments that end at each multiple of 4096. -/
def paged (length : ℕ) (d : Unit) (offset : ℕ) : (ℕ × ℕ) × Unit :=
  if offset<length then ((4096+offset,min (length-offset) (4096-offset%4096)),d) else ((0,0),d)

/-- A cursor that collects segments of up to 3000 bytes, for transfers of up to 4096. -/
def collecting : IOMemoryCursor (List PhysicalSegment) := ⟨fun s v _ => v++[s],3000,4096,0⟩

lemma paged_translates : Translates (paged 8192) (fun _ => True) 8192 fun i => (4096+i)%2^32 := by
  refine ⟨by decide,fun _ _ _ => trivial,?_,?_⟩
  · intro d offset _ h
    simp only [paged,if_pos h]
    exact ⟨by omega,by omega,by omega,fun i _ => by rw [Nat.add_assoc]⟩
  · intro d offset _ h
    rw [paged,if_neg (by omega)]

theorem genPhysicalSegments_translates_paged : ∃ segs total d',True ∧
    genPhysicalSegments (paged 8192) collecting (some ()) 100 [] 5 0 =
      ⟨segs.length,some total,output collecting 0 [] segs,some d'⟩ ∧
    Generates collecting 100 4096 5 8192 (fun i => (4096+i)%2^32) segs total :=
  (genPhysicalSegments_translates paged_translates (by decide) (by decide) trivial [] 5 0).2
    (by decide)

/-- The limit that the caller gives is taken instead of the smaller one of the cursor. -/
theorem genPhysicalSegments_beyond_cursor :
    (genPhysicalSegments (paged 8192) collecting (some ()) 0 [] 5 8192).outTransferSize =
        some 8192 ∧
      ¬8192 ≤ min 8192 collecting.maxTransferSize := by decide

end Darwin.IOKit.MemoryCursor
