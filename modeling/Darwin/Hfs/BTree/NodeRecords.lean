import Darwin.Hfs.BTree.NodeEdit

/-! A node's buffer as the list of its records: what an insertion and a deletion make of it. -/
open List Nat
namespace Darwin.Hfs.NodeImage

/-! ### The list -/

def bytesAt (m : Memory) (a : ℤ) (n : ℕ) : List UInt8 := (range n).map fun k : ℕ => m (a+k)

def rawRecord (b : ControlBlock) (m : Memory) (index : ℕ) : List UInt8 :=
  bytesAt m (getRecordOffset b m index) (getRecordOffset b m (index+1)-getRecordOffset b m index)

def rawRecords (b : ControlBlock) (m : Memory) : List (List UInt8) :=
  (range (numRecords m)).map (rawRecord b m)

/-- The size of the key that a record begins with, its length field and pad byte included. -/
def recordKeySize (b : ControlBlock) (record : List UInt8) : ℕ :=
  let keySize :=
    if b.bigKeys then 256*(record.getD 0 0).toNat+(record.getD 1 0).toNat+2
    else (record.getD 0 0).toNat+1
  keySize+keySize%2

def splitRecord (b : ControlBlock) (record : List UInt8) : List UInt8 × List UInt8 :=
  (record.take (recordKeySize b record),record.drop (recordKeySize b record))

def records (b : ControlBlock) (m : Memory) : List (List UInt8 × List UInt8) :=
  (rawRecords b m).map (splitRecord b)

/-- The offsets are even, they do not descend, and the records lie between the node descriptor and
the table of offsets. -/
structure Ordered (b : ControlBlock) (m : Memory) : Prop where
  first : sizeofBTNodeDescriptor≤getRecordOffset b m 0
  even : ∀ i≤numRecords m,getRecordOffset b m i%2=0
  mono : ∀ i<numRecords m,getRecordOffset b m i≤getRecordOffset b m (i+1)
  free : getRecordOffset b m (numRecords m)+2*(numRecords m+1)≤b.nodeSize

/-- No record is empty, and each has room for its key. -/
structure WellFormed (b : ControlBlock) (m : Memory) : Prop extends Ordered b m where
  ascending : ∀ i<numRecords m,getRecordOffset b m i<getRecordOffset b m (i+1)
  keys : ∀ record∈rawRecords b m,recordKeySize b record≤record.length

section Bytes
variable {m m' : Memory} {a a' : ℤ} {n k : ℕ}

@[simp] lemma length_bytesAt (m : Memory) (a : ℤ) (n : ℕ) : (bytesAt m a n).length=n := by
  simp [bytesAt]

@[simp] lemma getElem_bytesAt {h : k<(bytesAt m a n).length} : (bytesAt m a n)[k]=m (a+k) := by
  simp [bytesAt]

lemma bytesAt_congr (h : ∀ k<n,m' (a'+k)=m (a+k)) : bytesAt m' a' n=bytesAt m a n := by
  refine map_congr_left fun k hk => h k (mem_range.mp hk)

lemma bytesAt_add (m : Memory) (a : ℤ) (n k : ℕ) :
    bytesAt m a (n+k)=bytesAt m a n++bytesAt m (a+n) k := by
  rw [bytesAt,range_add,map_append,map_map]
  refine congrArg (bytesAt m a n ++ ·) (map_congr_left fun i _ => ?_)
  simp only [Function.comp_apply,cast_add,add_assoc]

@[simp] lemma length_rawRecords (b : ControlBlock) (m : Memory) :
    (rawRecords b m).length=numRecords m := by
  simp [rawRecords]

@[simp] lemma getElem_rawRecords {b : ControlBlock} {h : k<(rawRecords b m).length} :
    (rawRecords b m)[k]=rawRecord b m k := by
  simp [rawRecords]

lemma splitRecord_injective (b : ControlBlock) : Function.Injective (splitRecord b) := by
  intro r r' h
  rw [splitRecord,splitRecord,Prod.mk.injEq] at h
  rw [←take_append_drop (recordKeySize b r) r,h.1,h.2,take_append_drop]

end Bytes

section Ordered
variable {b : ControlBlock} {m : Memory}

lemma nodeSize_bounds (b : ControlBlock) : 512≤b.nodeSize ∧ b.nodeSize≤2^15 := by
  rcases allowedNodeSize_cases b.allowed with hs | hs | hs | hs | hs | hs | hs <;> omega

lemma nodeSize_even (b : ControlBlock) : b.nodeSize%2=0 := by
  rcases allowedNodeSize_cases b.allowed with hs | hs | hs | hs | hs | hs | hs <;> omega

lemma Ordered.offset_mono (h : Ordered b m) {i j : ℕ} (hij : i≤j) (hj : j≤numRecords m) :
    getRecordOffset b m i≤getRecordOffset b m j := by
  induction j,hij using le_induction with
  | base => exact le_refl _
  | succ j hij ih => exact (ih (by omega)).trans (h.mono j (by omega))

lemma Ordered.first_le (h : Ordered b m) {i : ℕ} (hi : i≤numRecords m) :
    sizeofBTNodeDescriptor≤getRecordOffset b m i :=
  h.first.trans (h.offset_mono (zero_le i) hi)

lemma WellFormed.ascends (h : WellFormed b m) {i : ℕ} (hi : i≤numRecords m) :
    sizeofBTNodeDescriptor+2*i≤getRecordOffset b m i := by
  induction i with
  | zero => exact h.first
  | succ i ih =>
    have hlt := h.ascending i hi
    have heven := h.even i (by omega)
    have heven' := h.even (i+1) hi
    have := ih (by omega)
    omega

lemma Ordered.getNodeFreeSize_eq (h : Ordered b m) : getNodeFreeSize b m +
    getRecordOffset b m (numRecords m)+2*(numRecords m+1)=b.nodeSize := by
  have hfree := h.free
  have hsize := nodeSize_bounds b
  rw [getNodeFreeSize,kOffsetSize]
  omega

end Ordered

/-! ### A hole for a new record -/

/-- Behind `index` all records have moved by `size` bytes, and there is one offset more. -/
structure Opened (b : ControlBlock) (m m' : Memory) (index size : ℕ) : Prop where
  count : numRecords m'=numRecords m+1
  before : ∀ i ≤ index,getRecordOffset b m' i=getRecordOffset b m i
  behind : ∀ i,index ≤ i → i≤numRecords m → getRecordOffset b m' (i+1)=getRecordOffset b m i+size
  front : ∀ a : ℤ,sizeofBTNodeDescriptor≤a → a<getRecordOffset b m index → m' a=m a
  moved : ∀ a : ℤ,getRecordOffset b m index≤a → a<getRecordOffset b m (numRecords m) →
    m' (a+size)=m a

section Hole
variable {b : ControlBlock} {m m' m'' : Memory} {index size : ℕ}

lemma makeHole_opened (h : Ordered b m) (hindex : index≤numRecords m)
    (hfit : getRecordOffset b m (numRecords m)+size+2*(numRecords m+2)≤b.nodeSize) :
    Opened b m (makeHole b index size m) index size := by
  have hbounds := nodeSize_bounds b
  have hle := h.offset_mono hindex (le_refl _)
  have hfirst := h.first_le hindex
  rw [sizeofBTNodeDescriptor] at hfirst
  have hbytes : (2^16+getRecordOffset b m (numRecords m)-getRecordOffset b m index)%2^16 =
      getRecordOffset b m (numRecords m)-getRecordOffset b m index := by
    omega
  -- the records behind the hole are moved, and nothing else changes
  obtain ⟨moved,hdef,hother,hmoved⟩ : ∃ moved : Memory,
      makeHole b index size m=insertOffset b index size moved ∧
      (∀ a : ℤ,a<getRecordOffset b m index ∨
        getRecordOffset b m (numRecords m)+size≤a → moved a=m a) ∧
      ∀ a : ℤ,getRecordOffset b m index≤a → a<getRecordOffset b m (numRecords m) →
        moved (a+size)=m a := by
    refine ⟨if getRecordOffset b m (numRecords m)-getRecordOffset b m index≠0 then
      moveBytes m (getRecordOffset b m index) (getRecordOffset b m index+size)
        (getRecordOffset b m (numRecords m)-getRecordOffset b m index) m else m,?_,?_,?_⟩
    · rw [makeHole,mod_eq_of_lt (show size<2^16 by omega),hbytes]
    · intro a ha
      split_ifs
      · exact moveBytes_other (by omega)
      · rfl
    · intro a ha ha'
      rw [if_pos (by omega),moveBytes_moved (by omega) (by omega)]
      exact congrArg m (by ring)
  have hcount : numRecords moved=numRecords m :=
    readUInt16_congr (hother _ (by omega)) (hother _ (by omega))
  have hoffset : ∀ i≤numRecords m,getRecordOffset b moved i=getRecordOffset b m i := by
    intro i hi
    rw [getRecordOffset_eq,getRecordOffset_eq]
    refine readUInt16_congr (hother _ ?_) (hother _ ?_) <;> rw [getOffsetAddress] <;> omega
  have hloop : (2^16+numRecords m-index)%2^16=numRecords m-index := by omega
  have hhole : makeHole b index size m =
      insertOffsetLoop size (numRecords m-index+1) (getOffsetAddress b (numRecords m))
        (writeUInt16 numRecordsAddress (numRecords m+1) moved) := by
    rw [hdef,insertOffset,hcount,hloop]
  have hsame : ∀ a : ℤ,sizeofBTNodeDescriptor≤a →
      a<getRecordOffset b m (numRecords m)+size → makeHole b index size m a=moved a := by
    intro a ha ha'
    rw [sizeofBTNodeDescriptor] at ha
    rw [hhole,insertOffsetLoop_other (by rw [getOffsetAddress]; omega),
      writeUInt16_other (by rw [numRecordsAddress]; omega)]
  have hold : ∀ i≤numRecords m,readUInt16 (writeUInt16 numRecordsAddress (numRecords m+1) moved)
      (getOffsetAddress b i)=getRecordOffset b m i := by
    intro i hi
    rw [←hoffset i hi,getRecordOffset_eq]
    refine readUInt16_congr (writeUInt16_other ?_) (writeUInt16_other ?_) <;>
      rw [getOffsetAddress,numRecordsAddress] <;> omega
  refine ⟨?_,fun i hi => ?_,fun i hi hi' => ?_,fun a ha ha' => ?_,fun a ha ha' => ?_⟩
  · rw [hhole,numRecords,readUInt16_congr (insertOffsetLoop_other (by rw [getOffsetAddress]; omega))
      (insertOffsetLoop_other (by rw [getOffsetAddress]; omega))]
    have hwritten := readUInt16_writeUInt16 numRecordsAddress (numRecords m+1) moved
    rw [numRecordsAddress] at hwritten
    rw [numRecordsAddress,hwritten]
    omega
  · rw [←hold i (by omega),hhole,getRecordOffset_eq]
    refine readUInt16_congr (insertOffsetLoop_other ?_) (insertOffsetLoop_other ?_) <;>
      rw [getOffsetAddress,getOffsetAddress] <;> push_cast [hindex] <;> omega
  · have hslot := @insertOffsetLoop_slot (writeUInt16 numRecordsAddress (numRecords m+1) moved)
      size (numRecords m-index+1) (getOffsetAddress b (numRecords m)) (numRecords m-i)
      (by omega)
    have hdst : getOffsetAddress b (numRecords m)-2+2*((numRecords m-i : ℕ) : ℤ) =
        getOffsetAddress b (i+1) := by
      rw [getOffsetAddress,getOffsetAddress]
      push_cast [hi']
      ring
    have hsrc : getOffsetAddress b (numRecords m)+2*((numRecords m-i : ℕ) : ℤ) =
        getOffsetAddress b i := by
      rw [getOffsetAddress,getOffsetAddress]
      push_cast [hi']
      ring
    rw [hdst,hsrc,hold i hi',←hhole] at hslot
    rw [getRecordOffset_eq,hslot]
    have := h.offset_mono hi' (le_refl _)
    omega
  · rw [hsame a ha (by omega),hother a (.inl ha')]
  · rw [hsame (a+size) (by rw [sizeofBTNodeDescriptor]; omega) (by omega),hmoved a ha ha']

lemma Opened.agree (h : Opened b m m' index size)
    (hcount : m'' 10=m' 10 ∧ m'' 11=m' 11)
    (hfront : ∀ a : ℤ,sizeofBTNodeDescriptor≤a → a<getRecordOffset b m index → m'' a=m' a)
    (hbehind : ∀ a : ℤ,getRecordOffset b m index+size≤a →
      a<getRecordOffset b m (numRecords m)+size → m'' a=m' a)
    (htable : ∀ a : ℤ,(b.nodeSize : ℤ)-2*(numRecords m+2)≤a → m'' a=m' a)
    (hindex : index≤numRecords m) : Opened b m m'' index size := by
  have hoffset : ∀ i≤numRecords m+1,getRecordOffset b m'' i=getRecordOffset b m' i := by
    intro i hi
    rw [getRecordOffset_eq,getRecordOffset_eq]
    refine readUInt16_congr (htable _ ?_) (htable _ ?_) <;> rw [getOffsetAddress] <;> omega
  refine ⟨?_,fun i hi => ?_,fun i hi hi' => ?_,fun a ha ha' => ?_,fun a ha ha' => ?_⟩
  · rw [←h.count]
    exact readUInt16_congr hcount.1 hcount.2
  · rw [hoffset i (by omega),h.before i hi]
  · rw [hoffset (i+1) (by omega),h.behind i hi hi']
  · rw [hfront a ha ha',h.front a ha ha']
  · rw [hbehind (a+size) (by omega) (by omega),h.moved a ha ha']

lemma Opened.rawRecord_before (h : Opened b m m' index size) (hord : Ordered b m)
    (hindex : index≤numRecords m) {i : ℕ} (hi : i < index) : rawRecord b m' i=rawRecord b m i := by
  rw [rawRecord,rawRecord,h.before i (by omega),h.before (i+1) hi]
  refine bytesAt_congr fun k hk => h.front _ ?_ ?_
  · have := hord.first_le (show i≤numRecords m by omega)
    omega
  · have := hord.offset_mono (show i+1 ≤ index from hi) hindex
    omega

lemma Opened.rawRecord_behind (h : Opened b m m' index size) (hord : Ordered b m) {i : ℕ}
    (hi : index ≤ i) (hi' : i<numRecords m) : rawRecord b m' (i+1)=rawRecord b m i := by
  rw [rawRecord,rawRecord,h.behind i hi hi'.le,h.behind (i+1) (by omega) hi',Nat.add_sub_add_right]
  refine bytesAt_congr fun k hk => ?_
  have hlow := hord.offset_mono hi hi'.le
  have hhigh := hord.offset_mono (show i+1≤numRecords m from hi') (le_refl _)
  rw [←h.moved _ (by omega) (by omega)]
  exact congrArg m' (by push_cast; ring)

lemma Opened.rawRecords_eq (h : Opened b m m' index size) (hord : Ordered b m)
    (hindex : index≤numRecords m) : rawRecords b m' =
      (rawRecords b m).insertIdx index (bytesAt m' (getRecordOffset b m index) size) := by
  refine ext_getElem ?_ fun i hi hi' => ?_
  · rw [length_rawRecords,h.count,length_insertIdx_of_le_length (by simpa using hindex),
      length_rawRecords]
  · rw [length_rawRecords,h.count] at hi
    rw [getElem_rawRecords]
    rcases lt_trichotomy i index with hlt | rfl | hgt
    · rw [getElem_insertIdx_of_lt hlt,getElem_rawRecords,h.rawRecord_before hord hindex hlt]
    · rw [getElem_insertIdx_self,rawRecord,h.before i (le_refl i),
        h.behind i (Nat.le_refl i) hindex,Nat.add_sub_cancel_left]
    · obtain ⟨j,rfl⟩ : ∃ j,i=j+1 := ⟨i-1,by omega⟩
      rw [getElem_insertIdx_of_gt hgt,h.rawRecord_behind hord (by omega) (by omega)]
      simp

lemma Opened.ordered (h : Opened b m m' index size) (hord : Ordered b m)
    (hindex : index≤numRecords m) (heven : size%2=0)
    (hfit : getRecordOffset b m (numRecords m)+size+2*(numRecords m+2)≤b.nodeSize) :
    Ordered b m' := by
  refine ⟨?_,fun i hi => ?_,fun i hi => ?_,?_⟩
  · rw [h.before 0 (zero_le index)]
    exact hord.first
  · rw [h.count] at hi
    by_cases hle : i ≤ index
    · rw [h.before i hle]
      exact hord.even i (by omega)
    · obtain ⟨j,rfl⟩ : ∃ j,i=j+1 := ⟨i-1,by omega⟩
      rw [h.behind j (by omega) (by omega)]
      have := hord.even j (by omega)
      omega
  · rw [h.count] at hi
    rcases lt_trichotomy i index with hlt | rfl | hgt
    · rw [h.before i hlt.le,h.before (i+1) hlt]
      exact hord.mono i (by omega)
    · rw [h.before i (le_refl i),h.behind i (le_refl i) hindex]
      exact le_add_right _ _
    · obtain ⟨j,rfl⟩ : ∃ j,i=j+1 := ⟨i-1,by omega⟩
      rw [h.behind j (by omega) (by omega),h.behind (j+1) (by omega) (by omega)]
      exact Nat.add_le_add_right (hord.mono j (by omega)) size
  · rw [h.count,h.behind _ hindex (Nat.le_refl _)]
    omega

end Hole

/-! ### A record is taken out -/

/-- Behind `index` all records have moved to the front by the size of the record `index`, and there
is one offset less. -/
structure Closed (b : ControlBlock) (m m' : Memory) (index : ℕ) : Prop where
  count : numRecords m'+1=numRecords m
  before : ∀ i ≤ index,getRecordOffset b m' i=getRecordOffset b m i
  behind : ∀ i,index ≤ i → i<numRecords m → getRecordOffset b m' i +
    getRecordOffset b m (index+1)=getRecordOffset b m (i+1)+getRecordOffset b m index
  front : ∀ a : ℤ,sizeofBTNodeDescriptor≤a → a<getRecordOffset b m index → m' a=m a
  moved : ∀ a : ℤ,getRecordOffset b m (index+1)≤a → a<getRecordOffset b m (numRecords m) →
    m' (a-getRecordOffset b m (index+1)+getRecordOffset b m index)=m a

section Closed
variable {b : ControlBlock} {m m' : Memory} {index : ℕ}

lemma shortSize_natCast {n : ℕ} (h : n<2^15) : shortSize (n : ℤ)=n := by
  rw [shortSize,Int.bmod_def]
  split_ifs <;> omega

lemma Ordered.offset_le (h : Ordered b m) {i : ℕ} (hi : i≤numRecords m) :
    getRecordOffset b m i+2*(numRecords m+1)≤b.nodeSize := by
  have := h.offset_mono hi (le_refl _)
  have := h.free
  omega

lemma getRecordAddress_eq (h : getRecordOffset b m index<2^15) :
    getRecordAddress b m index=getRecordOffset b m index := by
  rw [getRecordAddress,Int16.toInt_ofNat_of_lt h]

lemma deleteOffset_closed (h : Ordered b m) (hindex : index<numRecords m) {moved : Memory}
    (hother : ∀ a : ℤ,a<getRecordOffset b m index ∨ getRecordOffset b m (numRecords m)≤a →
      moved a=m a)
    (hmoved : ∀ a : ℤ,getRecordOffset b m (index+1)≤a → a<getRecordOffset b m (numRecords m) →
      moved (a-getRecordOffset b m (index+1)+getRecordOffset b m index)=m a) :
    Closed b m (deleteOffset b index moved) index := by
  have hbounds := nodeSize_bounds b
  have hfree := h.free
  have hstep := h.mono index hindex
  have hnext := h.offset_mono (show index+1≤numRecords m from hindex) (le_refl _)
  have hfirst := h.first_le hindex.le
  rw [sizeofBTNodeDescriptor] at hfirst
  have hcount : numRecords moved=numRecords m :=
    readUInt16_congr (hother _ (by omega)) (hother _ (by omega))
  have hoffset : ∀ i≤numRecords m,
      readUInt16 moved (getOffsetAddress b i)=getRecordOffset b m i := by
    intro i hi
    rw [getRecordOffset_eq]
    refine readUInt16_congr (hother _ ?_) (hother _ ?_) <;> rw [getOffsetAddress] <;> omega
  have hsrc : getOffsetAddress b index-2=getOffsetAddress b (index+1) := by
    rw [getOffsetAddress,getOffsetAddress]
    push_cast
    ring
  have hdelta : (2^16+readUInt16 moved (getOffsetAddress b index-2) -
      readUInt16 moved (getOffsetAddress b index))%2^16 =
      getRecordOffset b m (index+1)-getRecordOffset b m index := by
    rw [hsrc,hoffset (index+1) hindex,hoffset index hindex.le]
    omega
  obtain ⟨counted,hcounted⟩ : ∃ counted,
      counted=writeUInt16 numRecordsAddress (2^16+numRecords m-1) moved := ⟨_,rfl⟩
  have hless : numRecords counted=numRecords m-1 := by
    rw [hcounted]
    have hwritten := readUInt16_writeUInt16 numRecordsAddress (2^16+numRecords m-1) moved
    rw [numRecordsAddress] at hwritten
    rw [numRecords,numRecordsAddress,hwritten]
    omega
  have hdeleted : deleteOffset b index moved =
      deleteOffsetLoop (getRecordOffset b m (index+1)-getRecordOffset b m index)
        (numRecords m-1-index) (getOffsetAddress b index) counted := by
    rw [deleteOffset,hdelta,hcount,←hcounted,hless,
      show (2^16+(numRecords m-1)-index)%2^16=numRecords m-1-index by omega]
  have hold : ∀ i≤numRecords m,
      readUInt16 counted (getOffsetAddress b i)=getRecordOffset b m i := by
    intro i hi
    rw [←hoffset i hi,hcounted]
    refine readUInt16_congr (writeUInt16_other ?_) (writeUInt16_other ?_) <;>
      rw [getOffsetAddress,numRecordsAddress] <;> omega
  have hsame : ∀ a : ℤ,sizeofBTNodeDescriptor≤a → a<getRecordOffset b m (numRecords m) →
      deleteOffset b index moved a=moved a := by
    intro a ha ha'
    rw [sizeofBTNodeDescriptor] at ha
    rw [hdeleted,deleteOffsetLoop_other (by rw [getOffsetAddress]; omega),hcounted,
      writeUInt16_other (by rw [numRecordsAddress]; omega)]
  have hbefore : ∀ i ≤ index,getRecordOffset b (deleteOffset b index moved) i =
      getRecordOffset b m i := by
    intro i hi
    rw [←hold i (by omega),hdeleted,getRecordOffset_eq]
    refine readUInt16_congr (deleteOffsetLoop_other ?_) (deleteOffsetLoop_other ?_) <;>
      rw [getOffsetAddress,getOffsetAddress] <;> omega
  refine ⟨?_,hbefore,fun i hi hi' => ?_,fun a ha ha' => ?_,fun a ha ha' => ?_⟩
  · have hread : numRecords (deleteOffset b index moved)=numRecords counted := by
      rw [hdeleted]
      refine readUInt16_congr (deleteOffsetLoop_other ?_) (deleteOffsetLoop_other ?_) <;>
        rw [getOffsetAddress] <;> omega
    rw [hread,hless]
    omega
  · rcases eq_or_lt_of_le hi with rfl | hlt
    · rw [hbefore index (le_refl index)]
      exact add_comm _ _
    · have hslot := @deleteOffsetLoop_slot counted
        (getRecordOffset b m (index+1)-getRecordOffset b m index) (numRecords m-1-index)
        (getOffsetAddress b index) (i-index-1) (by omega)
      have hdst : getOffsetAddress b index-2*((i-index-1+1 : ℕ) : ℤ)=getOffsetAddress b i := by
        rw [getOffsetAddress,getOffsetAddress]
        omega
      have hnextSlot : getOffsetAddress b index-2*((i-index-1+2 : ℕ) : ℤ) =
          getOffsetAddress b (i+1) := by
        rw [getOffsetAddress,getOffsetAddress]
        omega
      rw [hdst,hnextSlot,hold (i+1) hi',←hdeleted] at hslot
      rw [getRecordOffset_eq b (deleteOffset b index moved),hslot]
      have hlast : i+1≤numRecords m := hi'
      have hlow := h.offset_mono (show index+1 ≤ i+1 by omega) hlast
      have hhigh := h.offset_le hlast
      omega
  · rw [hsame a ha (by omega),hother a (.inl ha')]
  · rw [hsame _ (by rw [sizeofBTNodeDescriptor]; omega) (by omega),hmoved a ha ha']

lemma deleteRecord_closed (h : Ordered b m) (hindex : index<numRecords m) :
    Closed b m (deleteRecord b index m) index := by
  have hbounds := nodeSize_bounds b
  have hfree := h.free
  have hstep := h.mono index hindex
  have hnext := h.offset_mono (show index+1≤numRecords m from hindex) (le_refl _)
  have hfirst := h.first_le hindex.le
  rw [sizeofBTNodeDescriptor] at hfirst
  have hbytes : shortSize ((getRecordOffset b m (numRecords m) : ℤ) -
      getRecordOffset b m (index+1)) =
      getRecordOffset b m (numRecords m)-getRecordOffset b m (index+1) := by
    rw [←cast_sub hnext]
    exact shortSize_natCast (by omega)
  have hsize : shortSize ((getRecordOffset b m (index+1) : ℤ)-getRecordOffset b m index) =
      getRecordOffset b m (index+1)-getRecordOffset b m index := by
    rw [←cast_sub hstep]
    exact shortSize_natCast (by omega)
  obtain ⟨moved,hmovedDef⟩ : ∃ moved : Memory,moved =
      if getRecordOffset b m (numRecords m)-getRecordOffset b m (index+1)≠0 then
        moveBytes m (getRecordOffset b m (index+1)) (getRecordOffset b m index)
          (getRecordOffset b m (numRecords m)-getRecordOffset b m (index+1)) m
      else m := ⟨_,rfl⟩
  have hclosed : Closed b m (deleteOffset b index moved) index := by
    refine deleteOffset_closed h hindex (fun a ha => ?_) fun a ha ha' => ?_
    · rw [hmovedDef]
      split_ifs
      · exact moveBytes_other (by omega)
      · rfl
    · rw [hmovedDef,if_pos (by omega),moveBytes_moved (by omega) (by omega)]
      exact congrArg m (by ring)
  have hlast := hclosed.behind (numRecords m-1) (by omega) (by omega)
  rw [Nat.sub_add_cancel (by omega)] at hlast
  have hcount := hclosed.count
  have hdeleted : deleteRecord b index m =
      clearMemory (getRecordOffset b (deleteOffset b index moved) (numRecords m-1))
        (getRecordOffset b m (index+1)-getRecordOffset b m index)
        (deleteOffset b index moved) := by
    have haddress : ∀ i≤numRecords m,getRecordAddress b m i=getRecordOffset b m i := by
      intro i hi
      have := h.offset_le hi
      exact getRecordAddress_eq (by omega)
    rw [deleteRecord,haddress index hindex.le,haddress (index+1) hindex,
      haddress _ (le_refl _),hbytes,hsize,←hmovedDef]
    rw [show numRecords (deleteOffset b index moved)=numRecords m-1 by omega,
      getRecordAddress_eq (by omega)]
  -- the cleared bytes lie between the records that are left and the old end of the records
  have hsame : ∀ a : ℤ,a<getRecordOffset b (deleteOffset b index moved) (numRecords m-1) ∨
      getRecordOffset b m (numRecords m)≤a →
      deleteRecord b index m a=deleteOffset b index moved a := by
    intro a ha
    rw [hdeleted]
    exact clearMemory_other (by omega)
  have hoffset : ∀ i≤numRecords m,getRecordOffset b (deleteRecord b index m) i =
      getRecordOffset b (deleteOffset b index moved) i := by
    intro i hi
    rw [getRecordOffset_eq,getRecordOffset_eq]
    refine readUInt16_congr (hsame _ ?_) (hsame _ ?_) <;> rw [getOffsetAddress] <;> omega
  refine ⟨?_,fun i hi => ?_,fun i hi hi' => ?_,fun a ha ha' => ?_,fun a ha ha' => ?_⟩
  · rw [←hcount]
    exact congrArg (· + 1) (readUInt16_congr (hsame _ (by omega)) (hsame _ (by omega)))
  · rw [hoffset i (by omega),hclosed.before i hi]
  · rw [hoffset i hi'.le,hclosed.behind i hi hi']
  · rw [hsame a (by omega),hclosed.front a ha ha']
  · rw [hsame _ (by omega),hclosed.moved a ha ha']

lemma Closed.rawRecords_eq (h : Closed b m m' index) (hord : Ordered b m)
    (hindex : index<numRecords m) : rawRecords b m'=(rawRecords b m).eraseIdx index := by
  have hcount := h.count
  refine ext_getElem ?_ fun i hi hi' => ?_
  · rw [length_rawRecords,length_eraseIdx_of_lt (by simpa using hindex),length_rawRecords]
    omega
  · rw [length_rawRecords] at hi
    rw [getElem_rawRecords]
    by_cases hlt : i < index
    · rw [getElem_eraseIdx_of_lt hi' hlt,getElem_rawRecords,rawRecord,rawRecord,
        h.before i hlt.le,h.before (i+1) hlt]
      refine bytesAt_congr fun k hk => h.front _ ?_ ?_
      · have := hord.first_le (show i≤numRecords m by omega)
        omega
      · have := hord.offset_mono (show i+1 ≤ index from hlt) hindex.le
        omega
    · have hthis := h.behind i (by omega) (by omega)
      have hnext := h.behind (i+1) (by omega) (by omega)
      have hlow := hord.offset_mono (show index+1 ≤ i+1 by omega) (by omega)
      have hhigh := hord.offset_mono (show i+1+1≤numRecords m by omega) (le_refl _)
      have hstep := hord.mono (i+1) (by omega)
      rw [getElem_eraseIdx_of_ge hi' (by omega),getElem_rawRecords,rawRecord,rawRecord,
        show getRecordOffset b m' (i+1)-getRecordOffset b m' i =
          getRecordOffset b m (i+1+1)-getRecordOffset b m (i+1) by omega]
      refine bytesAt_congr fun k hk => ?_
      rw [←h.moved _ (by omega) (by omega)]
      exact congrArg m' (by omega)

lemma Closed.ordered (h : Closed b m m' index) (hord : Ordered b m)
    (hindex : index<numRecords m) : Ordered b m' := by
  have hcount := h.count
  have hindexEven := hord.even index hindex.le
  have hnextEven := hord.even (index+1) hindex
  refine ⟨?_,fun i hi => ?_,fun i hi => ?_,?_⟩
  · rw [h.before 0 (zero_le index)]
    exact hord.first
  · by_cases hle : i ≤ index
    · rw [h.before i hle]
      exact hord.even i (by omega)
    · have hthis := h.behind i (by omega) (by omega)
      have := hord.even (i+1) (by omega)
      omega
  · rcases lt_or_ge i index with hlt | hge
    · rw [h.before i hlt.le,h.before (i+1) hlt]
      exact hord.mono i (by omega)
    · have hthis := h.behind i hge (by omega)
      have hnext := h.behind (i+1) (by omega) (by omega)
      have := hord.mono (i+1) (by omega)
      omega
  · have hlast := h.behind (numRecords m') (by omega) (by omega)
    have hfree := hord.free
    have := hord.mono index hindex
    rw [hcount] at hlast
    omega

end Closed
end Darwin.Hfs.NodeImage
