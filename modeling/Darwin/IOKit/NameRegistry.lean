import Mathlib.Data.UInt
import Mathlib.Data.List.TakeWhile
import Mathlib.Tactic

/-! Properties in the name registry of NVRAM: `searchNVRAMProperty`, `readNVRAMPropertyType0` and
`writeNVRAMPropertyType0` of `iokit/Kernel/IONVRAM.cpp`. -/
open List Option Nat UInt8
namespace Darwin.IOKit.NameRegistry

def kMaxNVNameLength : ℕ := 4
def kMaxNVDataLength : ℕ := 8
def kIODTNVRAMNameRegistrySize : ℕ := 0x0400

/-- The 48 bits that tell where an entry is. -/
@[ext] structure Descriptor where
  bits : List UInt8
  length_bits : bits.length=6
  deriving DecidableEq

/-- A symbol's characters, which have no zero among them. -/
structure Symbol where
  chars : List UInt8
  zero_notMem : 0∉chars

def nameLengthOffset : ℕ := 6
def nameOffset : ℕ := 7
def dataLengthOffset : ℕ := nameOffset+kMaxNVNameLength
def dataOffset : ℕ := dataLengthOffset+1
def sizeofProperty : ℕ := dataOffset+kMaxNVDataLength

/-- The bytes from an address of the partition on, of which `_nrImage` is the first. -/
abbrev Image : Type := ℕ → UInt8

structure Nvram where
  nrImage : Option Image
  newWorld : Bool
  nvramImageDirty : Bool

inductive IOReturn
  | success | unsupported | noSpace | noMemory | noResources
  deriving DecidableEq,Repr

def bytesAt (image : Image) (offset length : ℕ) : List UInt8 :=
  (range length).map fun i => image (offset+i)

def put (image : Image) (offset : ℕ) (bytes : List UInt8) : Image := fun address =>
  if offset≤address then bytes.getD (address-offset) (image address) else image address

/-- The offset that the end is counted from: the partition's start, or on an old machine the
partition's place in the image. -/
def base (newWorld : Bool) : ℕ := if newWorld then 0x100 else 0x1400

/-- The end of the records; what is no offset of the partition is taken as none. -/
def nvEnd (newWorld : Bool) (image : Image) : ℕ :=
  let stored : ℤ := ((image 0).toNat*256+(image 1).toNat : ℕ)-base newWorld
  if stored<0 ∨ stored ≥ kIODTNVRAMNameRegistrySize then 2 else stored.toNat

def searchLoop (image : Image) (hdr : Descriptor) (last offset : ℕ) : Option ℕ :=
  if offset+sizeofProperty≤last then
    if bytesAt image offset hdr.bits.length=hdr.bits then some offset
    else searchLoop image hdr last (offset+sizeofProperty)
  else none
termination_by last-offset
decreasing_by
  have : 0<sizeofProperty := by decide
  omega

def searchNVRAMProperty (newWorld : Bool) (image : Image) (hdr : Descriptor) : Bool × ℕ :=
  let last := nvEnd newWorld image
  match searchLoop image hdr last 2 with
  | some offset => (true,offset)
  | none => (false,if last+sizeofProperty≤kIODTNVRAMNameRegistrySize then last else 0)

variable {Entry : Type} (makeNVDescriptor : Entry → Descriptor)

def readNVRAMPropertyType0 (allocated : Bool) (nvram : Nvram) (entry : Entry) :
    IOReturn × Option (List UInt8 × List UInt8) :=
  match nvram.nrImage with
  | none => (.unsupported,none)
  | some image =>
    let found := searchNVRAMProperty nvram.newWorld image (makeNVDescriptor entry)
    if found.1 then
      let offset := found.2
      let nameLength := min (image (offset+nameLengthOffset)).toNat kMaxNVNameLength
      let name := (bytesAt image (offset+nameOffset) nameLength).takeWhile (·≠0)
      let dataLength := min (image (offset+dataLengthOffset)).toNat kMaxNVDataLength
      let value := bytesAt image (offset+dataOffset) dataLength
      if allocated then (.success,some (name,value)) else (.noMemory,none)
    else (.noResources,none)

def putProperty (image : Image) (offset : ℕ) (name value : List UInt8) : Image :=
  let image := put image (offset+nameLengthOffset) [ofNat name.length]
  let image := put image (offset+nameOffset) name
  let image := put image (offset+dataLengthOffset) [ofNat value.length]
  put image (offset+dataOffset) value

def putEnd (newWorld : Bool) (image : Image) (last : ℕ) : Image :=
  let nvLength := last+base newWorld
  put image 0 [ofNat (nvLength/256),ofNat nvLength]

def writeNVRAMPropertyType0 (nvram : Nvram) (entry : Entry) (name : Symbol)
    (value : List UInt8) : Nvram × IOReturn :=
  match nvram.nrImage with
  | none => (nvram,.unsupported)
  | some image =>
    if name.chars.length > kMaxNVNameLength then (nvram,.noSpace)
    else if value.length > kMaxNVDataLength then (nvram,.noSpace)
    else
      let hdr := makeNVDescriptor entry
      let found := searchNVRAMProperty nvram.newWorld image hdr
      let offset := found.2
      if offset=0 then (nvram,.noMemory)
      else
        let image := if found.1 then image else put image offset hdr.bits
        let image := putProperty image offset name.chars value
        let image := if found.1 then image
          else putEnd nvram.newWorld image (offset+sizeofProperty)
        ({nvram with nrImage := some image,nvramImageDirty := true},.success)

/-! ### Bytes -/

@[simp] lemma length_bytesAt (image : Image) (offset length : ℕ) :
    (bytesAt image offset length).length=length := by simp [bytesAt]

lemma put_of_lt {image : Image} {offset address : ℕ} (bytes : List UInt8)
    (h : address<offset ∨ offset+bytes.length≤address) :
    put image offset bytes address=image address := by
  unfold put
  split
  · rw [getD_eq_getElem?_getD,getElem?_eq_none (by omega)]
    rfl
  · rfl

lemma put_of_mem (image : Image) (offset : ℕ) (bytes : List UInt8) {i : ℕ}
    (h : i<bytes.length) : put image offset bytes (offset+i)=bytes[i] := by
  unfold put
  rw [if_pos (Nat.le_add_right ..),Nat.add_sub_cancel_left,getD_eq_getElem?_getD,
    List.getElem?_eq_getElem h]
  rfl

variable {image image' : Image}

lemma bytesAt_congr {offset length : ℕ}
    (h : ∀ i<length,image' (offset+i)=image (offset+i)) :
    bytesAt image' offset length=bytesAt image offset length :=
  map_congr_left fun i hi => h i (mem_range.mp hi)

lemma bytesAt_put (image : Image) (offset : ℕ) (bytes : List UInt8) :
    bytesAt (put image offset bytes) offset bytes.length=bytes := by
  refine ext_getElem (length_bytesAt ..) fun i hi hi' => ?_
  simp only [bytesAt,getElem_map,getElem_range]
  exact put_of_mem image offset bytes hi'

/-! ### Records -/

lemma nvEnd_lt (newWorld : Bool) (image : Image) :
    nvEnd newWorld image<kIODTNVRAMNameRegistrySize := by
  have hsize : kIODTNVRAMNameRegistrySize=0x400 := rfl
  unfold nvEnd
  dsimp only
  split_ifs with h
  · decide
  · rw [not_or] at h
    omega

def offsetOf (i : ℕ) : ℕ := 2+i*sizeofProperty

def Parses (nvram : Nvram) : Prop :=
  ∃ image count,nvram.nrImage=some image ∧ nvEnd nvram.newWorld image=offsetOf count

def header (image : Image) (i : ℕ) : List UInt8 := bytesAt image (offsetOf i) 6

def content (image : Image) (i : ℕ) : List UInt8 × List UInt8 :=
  ((bytesAt image (offsetOf i+nameOffset)
      (min (image (offsetOf i+nameLengthOffset)).toNat kMaxNVNameLength)).takeWhile (·≠0),
    bytesAt image (offsetOf i+dataOffset)
      (min (image (offsetOf i+dataLengthOffset)).toNat kMaxNVDataLength))

def find (image : Image) (count : ℕ) (hdr : Descriptor) : Option ℕ :=
  (range count).find? fun i => header image i=hdr.bits

lemma searchLoop_eq (image : Image) (hdr : Descriptor) (n i : ℕ) :
    searchLoop image hdr (offsetOf (i+n)) (offsetOf i) =
      ((range' i n).find? fun i => header image i=hdr.bits).map offsetOf := by
  have hsize : sizeofProperty=20 := rfl
  induction n generalizing i with
  | zero =>
    rw [searchLoop,if_neg (by simp [hsize])]
    rfl
  | succ n ih =>
    have hnext : offsetOf i+sizeofProperty=offsetOf (i+1) := by
      simp only [offsetOf]
      ring
    rw [searchLoop,if_pos (by simp only [offsetOf,hsize]; omega),hnext,range'_succ,
      find?_cons,hdr.length_bits,←succ_add_eq_add_succ i n,ih (i+1)]
    change (if header image i=hdr.bits then _ else _)=_
    by_cases h : header image i=hdr.bits
    · rw [if_pos h]
      simp [h]
    · rw [if_neg h]
      simp [h]

lemma searchNVRAMProperty_eq {newWorld : Bool} {image : Image} {count : ℕ}
    (hcount : nvEnd newWorld image=offsetOf count) (hdr : Descriptor) :
    searchNVRAMProperty newWorld image hdr =
      match find image count hdr with
      | some i => (true,offsetOf i)
      | none => (false,if offsetOf (count+1)≤kIODTNVRAMNameRegistrySize then offsetOf count
          else 0) := by
  have hnext : offsetOf count+sizeofProperty=offsetOf (count+1) := by
    simp only [offsetOf]
    ring
  have hsearch := searchLoop_eq image hdr count 0
  rw [zero_add,←range_eq_range'] at hsearch
  change searchLoop image hdr (offsetOf count) 2=(find image count hdr).map offsetOf at hsearch
  simp only [searchNVRAMProperty,hcount,hsearch,hnext]
  cases find image count hdr <;> rfl

lemma readNVRAMPropertyType0_eq {nvram : Nvram} {image : Image} {count : ℕ}
    (himage : nvram.nrImage=some image) (hcount : nvEnd nvram.newWorld image=offsetOf count)
    (entry : Entry) : readNVRAMPropertyType0 makeNVDescriptor true nvram entry =
      match find image count (makeNVDescriptor entry) with
      | some i => (.success,some (content image i))
      | none => (.noResources,none) := by
  simp only [readNVRAMPropertyType0,himage,searchNVRAMProperty_eq hcount]
  cases find image count (makeNVDescriptor entry) <;> rfl

/-! ### One write -/

/-- What a write does to the bytes of the partition. -/
structure Written (image image' : Image) (offset : ℕ) (name value : List UInt8) : Prop where
  nameLength : (image' (offset+nameLengthOffset)).toNat=name.length
  name_eq : bytesAt image' (offset+nameOffset) name.length=name
  dataLength : (image' (offset+dataLengthOffset)).toNat=value.length
  value_eq : bytesAt image' (offset+dataOffset) value.length=value
  header_eq : ∀ address,address<offset+nameLengthOffset → image' address=image address
  behind : ∀ address,offset+sizeofProperty≤address → image' address=image address

lemma offsets_eq : nameLengthOffset=6 ∧ nameOffset=7 ∧ dataLengthOffset=11 ∧ dataOffset=12 ∧
    sizeofProperty=20 := ⟨rfl,rfl,rfl,rfl,rfl⟩

lemma putProperty_written (image : Image) (offset : ℕ) {name value : List UInt8}
    (hname : name.length≤kMaxNVNameLength) (hvalue : value.length≤kMaxNVDataLength) :
    Written image (putProperty image offset name value) offset name value := by
  simp only [kMaxNVNameLength,kMaxNVDataLength] at hname hvalue
  obtain ⟨hnameLength,hnameAt,hdataLength,hdataAt,hsizeof⟩ := offsets_eq
  unfold putProperty
  rw [hnameLength,hnameAt,hdataLength,hdataAt]
  refine ⟨?_,?_,?_,?_,fun address h => ?_,fun address h => ?_⟩
  · rw [hnameLength,put_of_lt _ (.inl (by omega)),put_of_lt _ (.inl (by omega)),
      put_of_lt _ (.inl (by omega))]
    have := put_of_mem image (offset+6) [ofNat name.length]
      (by decide : 0<1)
    rw [add_zero] at this
    rw [this]
    simp only [getElem_cons_zero,toNat_ofNat']
    omega
  · rw [hnameAt]
    conv_rhs => rw [←bytesAt_put (put image (offset+6) [ofNat name.length]) (offset+7) name]
    refine bytesAt_congr fun i hi => ?_
    rw [put_of_lt _ (.inl (by omega)),put_of_lt _ (.inl (by omega))]
  · rw [hdataLength,put_of_lt _ (.inl (by omega))]
    have := put_of_mem (put (put image (offset+6) [ofNat name.length])
      (offset+7) name) (offset+11) [ofNat value.length] (by decide : 0<1)
    rw [add_zero] at this
    rw [this]
    simp only [getElem_cons_zero,toNat_ofNat']
    omega
  · rw [hdataAt]
    exact bytesAt_put _ _ _
  · rw [hnameLength] at h
    rw [put_of_lt _ (.inl (by omega)),put_of_lt _ (.inl (by omega)),
      put_of_lt _ (.inl (by omega)),put_of_lt _ (.inl (by omega))]
  · rw [hsizeof] at h
    rw [put_of_lt _ (.inr (by omega)),put_of_lt _ (.inr (by rw [length_singleton]; omega)),
      put_of_lt _ (.inr (by omega)),put_of_lt _ (.inr (by rw [length_singleton]; omega))]

lemma Written.content_eq {i : ℕ} {name : Symbol} {value : List UInt8}
    (h : Written image image' (offsetOf i) name.chars value)
    (hname : name.chars.length≤kMaxNVNameLength) (hvalue : value.length≤kMaxNVDataLength) :
    content image' i=(name.chars,value) := by
  rw [content,h.nameLength,h.dataLength,min_eq_left hname,min_eq_left hvalue,h.name_eq,
    h.value_eq,takeWhile_eq_self_iff.mpr]
  intro c hc
  simp only [ne_eq,decide_not,Bool.not_eq_eq_eq_not,Bool.not_true,decide_eq_false_iff_not]
  rintro rfl
  exact name.zero_notMem hc

lemma nvEnd_putEnd (newWorld : Bool) (image : Image) {last : ℕ}
    (hlast : last<kIODTNVRAMNameRegistrySize) :
    nvEnd newWorld (putEnd newWorld image last)=last := by
  have hfirst := put_of_mem image 0
    [ofNat ((last+base newWorld)/256),ofNat (last+base newWorld)]
    (by decide : 0<2)
  have hsecond := put_of_mem image 0
    [ofNat ((last+base newWorld)/256),ofNat (last+base newWorld)]
    (by decide : 1<2)
  simp only [zero_add,getElem_cons_zero,getElem_cons_succ] at hfirst hsecond
  have hbase : base newWorld≤0x1400 := by
    cases newWorld <;> decide
  have hsize : kIODTNVRAMNameRegistrySize=0x400 := rfl
  simp only [nvEnd,putEnd,hfirst,hsecond,toNat_ofNat']
  have hsum : (last+base newWorld)/256%2^8*256+(last+base newWorld)%2^8 =
      last+base newWorld := by omega
  rw [hsum,if_neg (by omega)]
  omega

lemma header_congr {i : ℕ}
    (h : ∀ address,offsetOf i≤address → address<offsetOf i+nameLengthOffset →
      image' address=image address) : header image' i=header image i :=
  bytesAt_congr fun _ hj => h _ (Nat.le_add_right ..) (Nat.add_lt_add_left hj _)

lemma content_congr {i : ℕ}
    (h : ∀ address,offsetOf i≤address → address<offsetOf i+sizeofProperty →
      image' address=image address) : content image' i=content image i := by
  obtain ⟨hnameLength,hnameAt,hdataLength,hdataAt,hsizeof⟩ := offsets_eq
  have hmaxName : kMaxNVNameLength=4 := rfl
  have hmaxData : kMaxNVDataLength=8 := rfl
  have hname := h (offsetOf i+nameLengthOffset) (by omega) (by omega)
  have hdata := h (offsetOf i+dataLengthOffset) (by omega) (by omega)
  have hnames : ∀ length≤kMaxNVNameLength,bytesAt image' (offsetOf i+nameOffset) length =
      bytesAt image (offsetOf i+nameOffset) length := fun length hlength =>
    bytesAt_congr fun j hj => h _ (by omega) (by omega)
  have hvalues : ∀ length≤kMaxNVDataLength,bytesAt image' (offsetOf i+dataOffset) length =
      bytesAt image (offsetOf i+dataOffset) length := fun length hlength =>
    bytesAt_congr fun j hj => h _ (by omega) (by omega)
  rw [content,content,hname,hdata,hnames _ (min_le_right ..),hvalues _ (min_le_right ..)]

lemma find_congr {count : ℕ} (hdr : Descriptor)
    (h : ∀ i,i<count → header image' i=header image i) :
    find image' count hdr=find image count hdr := by
  induction count with
  | zero => rfl
  | succ count ih =>
    have := ih fun i hi => h i (lt_succ_of_lt hi)
    unfold find at this ⊢
    rw [range_succ,find?_append,find?_append,this,find?_singleton,
      find?_singleton,h count (lt_succ_self count)]

lemma find_lt {image : Image} {count i : ℕ} {hdr : Descriptor}
    (h : find image count hdr=some i) : i<count ∧ header image i=hdr.bits := by
  refine ⟨mem_range.mp (mem_of_find?_eq_some h),?_⟩
  simpa using find?_some h

lemma find_succ (image : Image) (count : ℕ) (hdr : Descriptor) : find image (count+1) hdr =
      (find image count hdr).or (if header image count=hdr.bits then some count else none) := by
  unfold find
  rw [range_succ,find?_append,find?_singleton]
  simp

/-- The records after a write that fits. -/
structure Stored (newWorld : Bool) (image image' : Image) (count count' : ℕ) (hdr : Descriptor)
    (name : Symbol) (value : List UInt8) : Prop where
  count_eq : nvEnd newWorld image'=offsetOf count'
  own : (find image' count' hdr).map (content image')=some (name.chars,value)
  others : ∀ hdr',hdr'≠hdr →
    (find image' count' hdr').map (content image')=(find image count hdr').map (content image)
  outside : ∀ address,kIODTNVRAMNameRegistrySize≤address → image' address=image address

section
variable {newWorld : Bool} {image : Image} {count : ℕ} {hdr : Descriptor} {name : Symbol}
  {value : List UInt8}

lemma offsetOf_le {i j : ℕ} (h : i<j) : offsetOf i+sizeofProperty≤offsetOf j := by
  have hsizeof : sizeofProperty=20 := rfl
  simp only [offsetOf,hsizeof]
  omega

lemma stored_found (hcount : nvEnd newWorld image=offsetOf count) {i : ℕ}
    (hfind : find image count hdr=some i) (hname : name.chars.length≤kMaxNVNameLength)
    (hvalue : value.length≤kMaxNVDataLength) :
    Stored newWorld image (putProperty image (offsetOf i) name.chars value) count count hdr name
      value := by
  have hwritten := putProperty_written image (offsetOf i) hname hvalue
  obtain ⟨hnameLength,-,-,-,hsizeof⟩ := offsets_eq
  obtain ⟨hi,-⟩ := find_lt hfind
  have hlast := nvEnd_lt newWorld image
  have hle := offsetOf_le hi
  have hheader : ∀ j,header (putProperty image (offsetOf i) name.chars value) j =
      header image j := by
    intro j
    refine header_congr fun address hlower hupper => ?_
    rcases lt_trichotomy i j with hij | rfl | hij
    · exact hwritten.behind address ((offsetOf_le hij).trans hlower)
    · exact hwritten.header_eq address hupper
    · have := offsetOf_le hij
      exact hwritten.header_eq address (by omega)
  have hfinds : ∀ hdr',find (putProperty image (offsetOf i) name.chars value) count hdr' =
      find image count hdr' := fun hdr' => find_congr hdr' fun _ _ => hheader _
  refine ⟨?_,?_,fun hdr' hne => ?_,fun address h => hwritten.behind address (by omega)⟩
  · rw [←hcount]
    simp only [nvEnd,hwritten.header_eq 0 (by omega),hwritten.header_eq 1 (by omega)]
  · rw [hfinds,hfind,map_some,hwritten.content_eq hname hvalue]
  · rw [hfinds]
    cases hfind' : find image count hdr' with
    | none => rfl
    | some j =>
      have hij : i≠j := by
        rintro rfl
        exact hne (Descriptor.ext ((find_lt hfind').2.symm.trans (find_lt hfind).2))
      rw [map_some,map_some,content_congr fun address hlower hupper => ?_]
      rcases lt_or_gt_of_ne hij with hij | hij
      · exact hwritten.behind address ((offsetOf_le hij).trans hlower)
      · have := offsetOf_le hij
        exact hwritten.header_eq address (by omega)

lemma stored_appended (hfind : find image count hdr=none)
    (hroom : offsetOf (count+1)≤kIODTNVRAMNameRegistrySize)
    (hname : name.chars.length≤kMaxNVNameLength) (hvalue : value.length≤kMaxNVDataLength) :
    Stored newWorld image (putEnd newWorld (putProperty (put image (offsetOf count) hdr.bits)
      (offsetOf count) name.chars value) (offsetOf (count+1))) count (count+1) hdr name
      value := by
  have hwritten := putProperty_written (put image (offsetOf count) hdr.bits) (offsetOf count)
    hname hvalue
  generalize putProperty (put image (offsetOf count) hdr.bits) (offsetOf count) name.chars value =
    image2 at hwritten
  obtain ⟨hnameLength,-,-,-,hsizeof⟩ := offsets_eq
  have hsize : kIODTNVRAMNameRegistrySize=0x400 := rfl
  have hnext : offsetOf (count+1)=offsetOf count+sizeofProperty := by
    simp only [offsetOf]
    ring
  have htwo : ∀ i,2≤offsetOf i := fun i => Nat.le_add_right ..
  have hlast : offsetOf (count+1)<kIODTNVRAMNameRegistrySize := by
    simp only [offsetOf,hsizeof,hsize] at hroom ⊢
    omega
  have hend : ∀ address,2≤address →
      putEnd newWorld image2 (offsetOf (count+1)) address=image2 address :=
    fun address h => put_of_lt _ (.inr (by simpa using h))
  have hput : ∀ address,address<offsetOf count →
      put image (offsetOf count) hdr.bits address=image address :=
    fun address h => put_of_lt _ (.inl h)
  -- the records before are as they were
  have hbefore : ∀ i<count,∀ address,offsetOf i≤address → address<offsetOf i+sizeofProperty →
      putEnd newWorld image2 (offsetOf (count+1)) address=image address := by
    intro i hi address hlower hupper
    have hle := offsetOf_le hi
    have := htwo i
    rw [hend address (by omega),hwritten.header_eq address (by omega),hput address (by omega)]
  have hheaders : ∀ i<count,header (putEnd newWorld image2 (offsetOf (count+1))) i =
      header image i :=
    fun i hi => header_congr fun address hlower hupper => hbefore i hi address hlower (by omega)
  have hheader : header (putEnd newWorld image2 (offsetOf (count+1))) count=hdr.bits := by
    rw [←bytesAt_put image (offsetOf count) hdr.bits,header,hdr.length_bits]
    refine bytesAt_congr fun i hi => ?_
    have := htwo count
    rw [hend _ (by omega),hwritten.header_eq _ (by omega)]
  refine ⟨nvEnd_putEnd newWorld image2 hlast,?_,fun hdr' hne => ?_,fun address h => ?_⟩
  · have hcontent : content (putEnd newWorld image2 (offsetOf (count+1))) count =
        content image2 count :=
      content_congr fun address hlower _ => hend address ((htwo count).trans hlower)
    rw [find_succ,find_congr hdr hheaders,hfind,if_pos hheader,none_or,map_some,
      hcontent,hwritten.content_eq hname hvalue]
  · rw [find_succ,find_congr hdr' hheaders,hheader,if_neg fun h => hne (Descriptor.ext h.symm),
      or_none]
    cases hfind' : find image count hdr' with
    | none => rfl
    | some i =>
      rw [map_some,map_some,content_congr (hbefore i (find_lt hfind').1)]
  · have := htwo count
    rw [hend address (by omega),hwritten.behind address (by omega),
      put_of_lt _ (.inr (by rw [hdr.length_bits]; omega))]

end

/-! ### Runs -/

structure Write (Entry : Type) where
  entry : Entry
  name : Symbol
  value : List UInt8

abbrev writeProperty (nvram : Nvram) (w : Write Entry) : Nvram × IOReturn :=
  writeNVRAMPropertyType0 makeNVDescriptor nvram w.entry w.name w.value

abbrev reading (nvram : Nvram) (entry : Entry) : IOReturn × Option (List UInt8 × List UInt8) :=
  readNVRAMPropertyType0 makeNVDescriptor true nvram entry

/-- Name and value are not too long, and the entry has a record or there is room for another. -/
def HasRoom (nvram : Nvram) (w : Write Entry) : Prop :=
  ∃ image,nvram.nrImage=some image ∧ w.name.chars.length≤kMaxNVNameLength ∧
    w.value.length≤kMaxNVDataLength ∧
    ((searchNVRAMProperty nvram.newWorld image (makeNVDescriptor w.entry)).1=true ∨
      nvEnd nvram.newWorld image+sizeofProperty≤kIODTNVRAMNameRegistrySize)

/-- What is promised of a write: with room, the entry's property reads as it was written, and those
of entries with other descriptors as before; without, it fails and the partition stays. -/
structure Keeps (nvram : Nvram) (w : Write Entry) : Prop where
  stored : HasRoom makeNVDescriptor nvram w → (writeProperty makeNVDescriptor nvram w).2=.success ∧
    reading makeNVDescriptor (writeProperty makeNVDescriptor nvram w).1 w.entry =
      (.success,some (w.name.chars,w.value)) ∧
    ∀ entry,makeNVDescriptor entry≠makeNVDescriptor w.entry →
      reading makeNVDescriptor (writeProperty makeNVDescriptor nvram w).1 entry =
        reading makeNVDescriptor nvram entry
  refused : ¬HasRoom makeNVDescriptor nvram w →
    (writeProperty makeNVDescriptor nvram w).2≠.success ∧
      (writeProperty makeNVDescriptor nvram w).1=nvram

variable {nvram : Nvram}

lemma reading_of_own {image : Image} {count : ℕ} {entry : Entry}
    {property : List UInt8 × List UInt8} (himage : nvram.nrImage=some image)
    (hcount : nvEnd nvram.newWorld image=offsetOf count)
    (h : (find image count (makeNVDescriptor entry)).map (content image)=some property) :
    reading makeNVDescriptor nvram entry=(.success,some property) := by
  rw [reading,readNVRAMPropertyType0_eq makeNVDescriptor himage hcount]
  obtain ⟨i,hfind,rfl⟩ := map_eq_some_iff.mp h
  rw [hfind]

lemma reading_of_map {nvram nvram' : Nvram} {image image' : Image} {count count' : ℕ}
    {entry : Entry} (himage : nvram.nrImage=some image)
    (hcount : nvEnd nvram.newWorld image=offsetOf count)
    (himage' : nvram'.nrImage=some image')
    (hcount' : nvEnd nvram'.newWorld image'=offsetOf count')
    (h : (find image' count' (makeNVDescriptor entry)).map (content image') =
      (find image count (makeNVDescriptor entry)).map (content image)) :
    reading makeNVDescriptor nvram' entry=reading makeNVDescriptor nvram entry := by
  rw [reading,reading,readNVRAMPropertyType0_eq makeNVDescriptor himage hcount,
    readNVRAMPropertyType0_eq makeNVDescriptor himage' hcount']
  cases hfind : find image count (makeNVDescriptor entry) <;>
    cases hfind' : find image' count' (makeNVDescriptor entry) <;> simp_all

lemma writeProperty_stored {w : Write Entry} {image : Image} {count : ℕ}
    (himage : nvram.nrImage=some image) (hcount : nvEnd nvram.newWorld image=offsetOf count)
    (hroom : HasRoom makeNVDescriptor nvram w) :
    ∃ image' count',writeProperty makeNVDescriptor nvram w =
        ({nvram with nrImage := some image',nvramImageDirty := true},.success) ∧
      Stored nvram.newWorld image image' count count' (makeNVDescriptor w.entry) w.name
        w.value := by
  obtain ⟨_,himage',hname,hvalue,hroom⟩ := hroom
  obtain rfl : image=_ := some.inj (himage.symm.trans himage')
  have hnext : offsetOf (count+1)=offsetOf count+sizeofProperty := by
    simp only [offsetOf]
    ring
  have hpositive : ∀ i,offsetOf i≠0 := fun i => ne_of_gt (lt_of_lt_of_le two_pos
    (Nat.le_add_right ..))
  rw [searchNVRAMProperty_eq hcount,hcount,←hnext] at hroom
  simp only [writeProperty,writeNVRAMPropertyType0,himage,if_neg (not_lt.mpr hname),
    if_neg (not_lt.mpr hvalue),searchNVRAMProperty_eq hcount]
  cases hfind : find image count (makeNVDescriptor w.entry) with
  | some i =>
    refine ⟨_,count,?_,stored_found hcount hfind hname hvalue⟩
    simp [hpositive]
  | none =>
    rw [hfind] at hroom
    have hle : offsetOf (count+1)≤kIODTNVRAMNameRegistrySize := hroom.resolve_left (by simp)
    refine ⟨_,count+1,?_,stored_appended hfind hle hname hvalue⟩
    simp only [if_pos hle]
    simp [hpositive,hnext]

lemma writeProperty_refused {w : Write Entry} (hparses : Parses nvram)
    (hroom : ¬HasRoom makeNVDescriptor nvram w) :
    (writeProperty makeNVDescriptor nvram w).2≠.success ∧
      (writeProperty makeNVDescriptor nvram w).1=nvram := by
  obtain ⟨image,count,himage,hcount⟩ := hparses
  simp only [writeProperty,writeNVRAMPropertyType0,himage]
  by_cases hname : w.name.chars.length > kMaxNVNameLength
  · simp [hname]
  · by_cases hvalue : w.value.length > kMaxNVDataLength
    · simp [hname,hvalue]
    · have hnext : offsetOf (count+1)=offsetOf count+sizeofProperty := by
        simp only [offsetOf]
        ring
      have hnot : ¬((searchNVRAMProperty nvram.newWorld image (makeNVDescriptor w.entry)).1=true ∨
          nvEnd nvram.newWorld image+sizeofProperty≤kIODTNVRAMNameRegistrySize) :=
        fun h => hroom ⟨image,himage,not_lt.mp hname,not_lt.mp hvalue,h⟩
      rw [searchNVRAMProperty_eq hcount,hcount,←hnext,not_or] at hnot
      rw [if_neg hname,if_neg hvalue,searchNVRAMProperty_eq hcount]
      cases hfind : find image count (makeNVDescriptor w.entry) with
      | some i => simp [hfind] at hnot
      | none => simp [hnot.2]

lemma keeps_of_parses (hparses : Parses nvram) (w : Write Entry) :
    Keeps makeNVDescriptor nvram w ∧ Parses (writeProperty makeNVDescriptor nvram w).1 := by
  obtain ⟨image,count,himage,hcount⟩ := id hparses
  by_cases hroom : HasRoom makeNVDescriptor nvram w
  · obtain ⟨image',count',hwrite,hstored⟩ :=
      writeProperty_stored makeNVDescriptor himage hcount hroom
    refine ⟨⟨fun _ => ?_,fun h => absurd hroom h⟩,?_⟩
    · rw [hwrite]
      refine ⟨rfl,?_,fun entry hne => ?_⟩
      · exact reading_of_own makeNVDescriptor rfl hstored.count_eq hstored.own
      · exact reading_of_map makeNVDescriptor himage hcount rfl hstored.count_eq
          (hstored.others _ hne)
    · rw [hwrite]
      exact ⟨image',count',rfl,hstored.count_eq⟩
  · have hrefused := writeProperty_refused makeNVDescriptor hparses hroom
    refine ⟨⟨fun h => absurd h hroom,fun _ => hrefused⟩,?_⟩
    rw [hrefused.2]
    exact hparses

def run : Nvram → List (Write Entry) → Nvram
  | nvram,[] => nvram
  | nvram,w::writes => run (writeProperty makeNVDescriptor nvram w).1 writes

def AllKeep : Nvram → List (Write Entry) → Prop
  | _,[] => True
  | nvram,w::writes => Keeps makeNVDescriptor nvram w ∧
    AllKeep (writeProperty makeNVDescriptor nvram w).1 writes

/-- What the last write that succeeded for an entry with this descriptor has written; before the
first, what was read at the beginning. -/
def lastWritten (hdr : Descriptor) (before : IOReturn × Option (List UInt8 × List UInt8)) :
    Nvram → List (Write Entry) → IOReturn × Option (List UInt8 × List UInt8)
  | _,[] => before
  | nvram,w::writes =>
    lastWritten hdr
      (if (writeProperty makeNVDescriptor nvram w).2=.success ∧ makeNVDescriptor w.entry=hdr
        then (.success,some (w.name.chars,w.value)) else before)
      (writeProperty makeNVDescriptor nvram w).1 writes

lemma reading_congr (nvram : Nvram) {entry entry' : Entry}
    (h : makeNVDescriptor entry=makeNVDescriptor entry') :
    reading makeNVDescriptor nvram entry=reading makeNVDescriptor nvram entry' := by
  simp only [reading,readNVRAMPropertyType0,h]

/-- Over every run of writes, the last one for an entry is read back. -/
theorem run_writeNVRAMPropertyType0 (nvram : Nvram) (hparses : Parses nvram)
    (writes : List (Write Entry)) :
    AllKeep makeNVDescriptor nvram writes ∧ Parses (run makeNVDescriptor nvram writes) ∧
      ∀ entry,reading makeNVDescriptor (run makeNVDescriptor nvram writes) entry =
        lastWritten makeNVDescriptor (makeNVDescriptor entry)
          (reading makeNVDescriptor nvram entry) nvram writes := by
  induction writes generalizing nvram with
  | nil => exact ⟨trivial,hparses,fun _ => rfl⟩
  | cons w writes ih =>
    obtain ⟨hkeeps,hparses'⟩ := keeps_of_parses makeNVDescriptor hparses w
    obtain ⟨hall,hrun,hread⟩ := ih _ hparses'
    refine ⟨⟨hkeeps,hall⟩,hrun,fun entry => ?_⟩
    rw [run,lastWritten,hread entry]
    congr 1
    by_cases hroom : HasRoom makeNVDescriptor nvram w
    · obtain ⟨hsuccess,hown,hothers⟩ := hkeeps.stored hroom
      by_cases hentry : makeNVDescriptor w.entry=makeNVDescriptor entry
      · rw [if_pos ⟨hsuccess,hentry⟩,←reading_congr makeNVDescriptor _ hentry,hown]
      · rw [if_neg fun h => hentry h.2,hothers entry fun h => hentry h.symm]
    · obtain ⟨hfailure,hsame⟩ := hkeeps.refused hroom
      rw [if_neg fun h => hfailure h.1,hsame]

def emptyNvram : Nvram := ⟨some fun _ => 0,true,false⟩

def slot (device : Fin 4) : Descriptor := ⟨[0x10,0,0,0,0,ofNat device.val],rfl⟩

theorem run_writeNVRAMPropertyType0_empty : Parses emptyNvram ∧
    reading slot (run slot emptyNvram [⟨1,⟨[97],by decide⟩,[5]⟩,⟨2,⟨[97],by decide⟩,[6]⟩]) 1 =
      lastWritten slot (slot 1) (reading slot emptyNvram 1) emptyNvram
        [⟨1,⟨[97],by decide⟩,[5]⟩,⟨2,⟨[97],by decide⟩,[6]⟩] := by
  have hparses : Parses emptyNvram := ⟨fun _ => 0,0,rfl,by decide⟩
  exact ⟨hparses,(run_writeNVRAMPropertyType0 slot emptyNvram hparses _).2.2 1⟩

/-- A property of another name for the same entry takes the first one's place. -/
theorem other_name_overwrites :
    let first : Write (Fin 4) := ⟨1,⟨[97],by decide⟩,[5]⟩
    let second : Write (Fin 4) := ⟨1,⟨[98],by decide⟩,[6]⟩
    Parses emptyNvram ∧ (writeProperty slot emptyNvram first).2=.success ∧
    (writeProperty slot (writeProperty slot emptyNvram first).1 second).2=.success ∧
    first.name.chars≠second.name.chars ∧
    reading slot (run slot emptyNvram [first]) 1=(.success,some ([97],[5])) ∧
    reading slot (run slot emptyNvram [first,second]) 1=(.success,some ([98],[6])) :=
  ⟨⟨fun _ => 0,0,rfl,by decide +kernel⟩,by decide +kernel,by decide +kernel,by decide +kernel,
    by decide +kernel,by decide +kernel⟩

end Darwin.IOKit.NameRegistry
