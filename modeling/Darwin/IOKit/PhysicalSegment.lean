import Mathlib.Algebra.BigOperators.Group.List.Basic
import Mathlib.Algebra.Ring.Nat

/-! The physical segments of an `IOGeneralMemoryDescriptor`. Addresses and lengths are
32-bit words and a page has 4096 bytes. -/
open List Nat Option
namespace Darwin.IOKit.MemoryDescriptor

structure IOVirtualRange where
  address : ℕ
  length : ℕ
  address_lt : address<2^32
  length_lt : length<2^32

/-- The frames of a task's pages: `entered` in its pmap, 0 for a page that is not
entered there, and `resident` in its map. -/
structure Task where
  entered : ℕ → ℕ
  resident : ℕ → ℕ
  entered_lt : ∀ p,entered p<2^20
  resident_lt : ∀ p,resident p<2^20

def truncPage (a : ℕ) : ℕ := a-a%4096

def Task.pmapExtract (T : Task) (a : ℕ) : ℕ :=
  if T.entered (a/4096)=0 then 0 else T.entered (a/4096)*4096+a%4096

def Task.vmMapGetPhysPage (T : Task) (a : ℕ) : ℕ := T.resident (a/4096)*4096

structure Descriptor where
  ranges : List IOVirtualRange
  task : Option Task

structure State where
  position : ℕ
  positionAtIndex : ℕ
  positionAtOffset : ℕ
  cachedVirtualAddress : ℕ
  cachedPhysicalAddress : ℕ
  deriving DecidableEq

namespace Descriptor

/-- What `initWithRanges` leaves in the fields. -/
def start : State := ⟨0,0,0,0,0⟩

def total (ranges : List IOVirtualRange) : ℕ := (ranges.map (·.length)).sum

/-- The field `_length`, a 32-bit sum. -/
def length (D : Descriptor) : ℕ := total D.ranges%2^32

def extract (D : Descriptor) (a : ℕ) : ℕ := D.task.elim a (·.pmapExtract a)

/-- The loop of `setPosition`, from range `index` on. -/
def seek : List IOVirtualRange → ℕ → ℕ → ℕ × ℕ
  | [],index,offset => (index,offset)
  | r::rs,index,offset =>
    if r.length≤offset then seek rs (index+1) (offset-r.length) else (index,offset)

def setPosition (D : Descriptor) (σ : State) (position : ℕ) : State :=
  if D.length≤position then
    {σ with position := D.length,positionAtIndex := D.ranges.length,positionAtOffset := 0}
  else
    let from_ := if position<σ.position then (0,position)
      else (σ.positionAtIndex,σ.positionAtOffset+(position-σ.position))
    let found := seek (D.ranges.drop from_.1) from_.1 from_.2
    {σ with position,positionAtIndex := found.1,positionAtOffset := found.2}

/-- The loop that grows the segment page by page. The length is a 32-bit word, so that
it comes around after `2^20` pages; a loop that still runs then never ends. -/
def grow (D : Descriptor) (virtualLength : ℕ) : ℕ → ℕ → ℕ → ℕ → State → Option (State × ℕ)
  | 0,_,_,_,_ => none
  | n+1,physicalPage,virtualPage,physicalLength,σ =>
    if physicalLength<virtualLength then
      let physicalPage := (physicalPage+4096)%2^32
      let virtualPage := (virtualPage+4096)%2^32
      let extracted := D.extract virtualPage
      let cached := if extracted=0 then D.task.elim 0 (·.vmMapGetPhysPage virtualPage)
        else extracted
      let σ' := {σ with cachedVirtualAddress := virtualPage,cachedPhysicalAddress := cached}
      if cached≠physicalPage then some (σ',physicalLength)
      else D.grow virtualLength n physicalPage virtualPage ((physicalLength+4096)%2^32) σ'
    else some (σ,physicalLength)

/-- `getPhysicalSegment` from the position on, which lies in range `r`. -/
def segment (D : Descriptor) (σ : State) (r : IOVirtualRange) : Option (State × ℕ × ℕ) :=
  let virtualAddress := (r.address+σ.positionAtOffset)%2^32
  let virtualLength := (r.length+2^32-σ.positionAtOffset)%2^32
  let virtualPage := truncPage virtualAddress
  let extracted := if virtualAddress=σ.cachedVirtualAddress then σ.cachedPhysicalAddress
    else D.extract virtualAddress
  -- the length is computed before the fallback is tried
  let physicalLength := truncPage extracted+4096-extracted
  let physicalAddress := if extracted=0 then
      D.task.elim 0 fun T => T.vmMapGetPhysPage virtualPage+(virtualAddress-virtualPage)
    else extracted
  if physicalAddress=0 then some (σ,0,0)
  else
    (D.grow virtualLength (2^20) (truncPage physicalAddress) virtualPage physicalLength σ).map
      fun out => (out.1,physicalAddress,min out.2 virtualLength)

/-- The new state, the address and the length. `none` where the call does not return. -/
def getPhysicalSegment (D : Descriptor) (σ : State) (offset : ℕ) : Option (State × ℕ × ℕ) :=
  match D.task,D.ranges with
  | none,[r] =>
    if D.length≤offset then some (σ,0,0)
    else some (σ,(offset+r.address)%2^32,D.length-offset)
  | _,_ =>
    let σ := if offset≠σ.position then D.setPosition σ offset else σ
    if D.length≤σ.position then some (σ,0,0)
    else D.ranges[σ.positionAtIndex]?.elim none (D.segment σ)

/-- The answers to the offsets asked one after the other. -/
def answers (D : Descriptor) : State → List ℕ → Option (List (ℕ × ℕ))
  | _,[] => some []
  | σ,offset::offsets => do
    let (σ',answer) ← D.getPhysicalSegment σ offset
    return answer::(← D.answers σ' offsets)

/-- The frame of a page. Without a task the ranges are physical. -/
def frame (D : Descriptor) (p : ℕ) : ℕ :=
  D.task.elim p fun T => if T.entered p=0 then T.resident p else T.entered p

def translate (D : Descriptor) (a : ℕ) : ℕ := D.frame (a/4096)*4096+a%4096

/-- The address of byte `i` of the buffer. -/
def byteAt : List IOVirtualRange → ℕ → ℕ
  | [],_ => 0
  | r::rs,i => if i<r.length then (r.address+i)%2^32 else byteAt rs (i-r.length)

/-- How many bytes of its range there are from byte `i` on. -/
def restAt : List IOVirtualRange → ℕ → ℕ
  | [],_ => 0
  | r::rs,i => if i<r.length then r.length-i else restAt rs (i-r.length)

def Segment (D : Descriptor) (offset : ℕ) (answer : ℕ × ℕ) : Prop :=
  answer.1=D.translate (byteAt D.ranges offset) ∧ 0<answer.2 ∧
    ∀ i<answer.2,offset+i<total D.ranges ∧
      (answer.1+i)%2^32=D.translate (byteAt D.ranges (offset+i))

/-- The rest of the range is contiguous in physical memory. -/
def Contiguous (D : Descriptor) (offset : ℕ) : Prop :=
  ∀ i<restAt D.ranges offset,(D.translate (byteAt D.ranges offset)+i)%2^32 =
    D.translate ((byteAt D.ranges offset+i)%2^32)

/-- What the call needs unless the buffer is one physical range. -/
structure Served (D : Descriptor) (σ : State) (offset : ℕ) : Prop where
  inLength : offset<D.length
  nonempty : offset=σ.position →
    D.ranges[σ.positionAtIndex]?.elim False (σ.positionAtOffset < ·.length)
  address : D.translate (byteAt D.ranges offset)≠0
  cached : byteAt D.ranges offset=σ.cachedVirtualAddress → σ.cachedPhysicalAddress=0 →
    ∀ T,D.task=some T →
      T.resident (byteAt D.ranges offset/4096)=D.frame (byteAt D.ranges offset/4096)
  entered : ∀ T,D.task=some T → T.entered (byteAt D.ranges offset/4096)=0 →
    byteAt D.ranges offset%4096≠0 → D.Contiguous offset
  ends : D.Contiguous offset → restAt D.ranges offset≤2^32-4096 ∨
    byteAt D.ranges offset%4096≠0 ∧ restAt D.ranges offset≤2^32-byteAt D.ranges offset%4096 ∧
      ∀ T,D.task=some T → T.entered (byteAt D.ranges offset/4096)≠0

def OnePhysical (D : Descriptor) : Prop := D.task=none ∧ D.ranges.length=1

/-- Every call of the run finds what it needs. -/
def AllServed (D : Descriptor) : State → List ℕ → Prop
  | _,[] => True
  | σ,offset::offsets => (D.OnePhysical ∨ D.Served σ offset) ∧
    ∀ out,D.getPhysicalSegment σ offset=some out → D.AllServed out.1 offsets

variable {D : Descriptor} {σ : State} {r : IOVirtualRange} {rs : List IOVirtualRange}

lemma frame_lt {p : ℕ} (hp : p<2^20) : D.frame p<2^20 := by
  rcases htask : D.task with _ | T
  · simpa [frame,htask] using hp
  · have he := T.entered_lt p
    have hr := T.resident_lt p
    simp only [frame,htask,Option.elim]
    split_ifs <;> assumption

/-- Page `j` behind the page of `a` lies `j` frames behind. -/
def Behind (D : Descriptor) (a j : ℕ) : Prop :=
  D.frame ((a/4096+j)%2^20)=(D.frame (a/4096)+j)%2^20

lemma translate_add {a i : ℕ} (ha : a<2^32) : (D.translate a+i)%2^32=D.translate ((a+i)%2^32) ↔
      D.Behind a ((a%4096+i)/4096) := by
  have hpage : (a+i)%2^32/4096=(a/4096+(a%4096+i)/4096)%2^20 := by omega
  have hlt : D.frame (a/4096)<2^20 := frame_lt (by omega)
  have hlt' : D.frame ((a/4096+(a%4096+i)/4096)%2^20)<2^20 :=
    frame_lt (mod_lt _ (by omega))
  rw [translate,translate,hpage,Behind]
  omega

lemma cached_page {p : ℕ} :
    (if D.extract (4096*p)=0 then D.task.elim 0 (·.vmMapGetPhysPage (4096*p))
      else D.extract (4096*p))=D.frame p*4096 := by
  have hp : 4096*p/4096=p := by omega
  have hoff : 4096*p%4096=0 := by omega
  rcases htask : D.task with _ | T
  · simp only [extract,frame,htask,Option.elim]
    split_ifs <;> omega
  · simp only [extract,frame,htask,Option.elim,Task.pmapExtract,Task.vmMapGetPhysPage,hp]
    by_cases he : T.entered p=0
    · rw [if_pos he,if_pos he,if_pos rfl]
    · have hne : T.entered p*4096≠0 := Nat.mul_ne_zero he (by decide)
      rw [if_neg he,if_neg he,hoff,add_zero,if_neg hne]

/-- The cached translation, before and after the first call. -/
def Cached (D : Descriptor) (σ : State) : Prop :=
  σ.cachedVirtualAddress%4096=0 ∧ (σ.cachedPhysicalAddress=D.translate σ.cachedVirtualAddress ∨
      σ.cachedVirtualAddress=0 ∧ σ.cachedPhysicalAddress=0)

lemma grow_eq_some {a virtualLength first : ℕ}
    (hword : ∀ j,(∀ k≤j+1,D.Behind a k) → first+4096*j<virtualLength →
      first+4096*(j+1)<2^32) {n j : ℕ} (hn : 2^20≤n+j)
    (hlt : first+4096*j<2^32) (hpos : 0<first) (hcached : D.Cached σ)
    (hbehind : ∀ k≤j,D.Behind a k) :
    ∃ (v q j' : ℕ),D.grow virtualLength n (4096*((D.frame (a/4096)+j)%2^20))
        (4096*((a/4096+j)%2^20)) (first+4096*j) σ =
      some ({σ with cachedVirtualAddress := v,cachedPhysicalAddress := q},first+4096*j') ∧
      D.Cached {σ with cachedVirtualAddress := v,cachedPhysicalAddress := q} ∧
      ∀ k≤j',D.Behind a k := by
  induction n generalizing j σ with
  | zero => omega
  | succ n ih =>
    rw [grow]
    by_cases hlen : first+4096*j<virtualLength
    · have hp : (4096*((D.frame (a/4096)+j)%2^20)+4096)%2^32 =
          4096*((D.frame (a/4096)+(j+1))%2^20) := by omega
      have hv : (4096*((a/4096+j)%2^20)+4096)%2^32 =
          4096*((a/4096+(j+1))%2^20) := by omega
      simp only [if_pos hlen,hp,hv,cached_page]
      have hc : ∀ τ : State,D.Cached { τ with
          cachedVirtualAddress := 4096*((a/4096+(j+1))%2^20)
          cachedPhysicalAddress := D.frame ((a/4096+(j+1))%2^20)*4096} := by
        intro τ
        refine ⟨by simp,.inl ?_⟩
        simp [translate]
      by_cases hb : D.Behind a (j+1)
      · have hall : ∀ k≤j+1,D.Behind a k := by
          intro k hk
          rcases Nat.eq_or_lt_of_le hk with rfl | hk
          · exact hb
          · exact hbehind k (by omega)
        have hnext := hword j hall hlen
        have heq : D.frame ((a/4096+(j+1))%2^20)*4096=4096*((D.frame (a/4096)+(j+1))%2^20) := by
          rw [hb,mul_comm]
        have hl : (first+4096*j+4096)%2^32=first+4096*(j+1) := by omega
        obtain ⟨v,q,j',hgrow,hc',hall'⟩ := ih (by omega) hnext (hc σ) hall
        rw [if_neg (by simpa using heq),hl]
        exact ⟨v,q,j',hgrow,hc',hall'⟩
      · have hne : D.frame ((a/4096+(j+1))%2^20)*4096≠4096*((D.frame (a/4096)+(j+1))%2^20) := by
          intro h
          exact hb (by rw [Behind]; omega)
        rw [if_pos hne]
        exact ⟨_,_,j,rfl,hc σ,hbehind⟩
    · rw [if_neg hlen]
      exact ⟨_,_,j,rfl,hcached,hbehind⟩

variable (rs) in
lemma byteAt_take (n i : ℕ) : byteAt rs (total (rs.take n)+i)=byteAt (rs.drop n) i ∧
    restAt rs (total (rs.take n)+i)=restAt (rs.drop n) i := by
  induction rs generalizing n with
  | nil => simp [byteAt,restAt]
  | cons r rs ih =>
    cases n with
    | zero => simp [total]
    | succ n =>
      have hsum : total (r::rs.take n)+i=r.length+(total (rs.take n)+i) := by simp [total,add_assoc]
      have hnot : ¬r.length+(total (rs.take n)+i)<r.length := by omega
      simpa [hsum,byteAt,restAt,hnot] using ih n

variable (rs) in
lemma total_take_add_drop (n : ℕ) : total (rs.take n)+total (rs.drop n)=total rs := by
  simp [total,←List.sum_append]

/-- The position `offset` lies in range `r`. -/
structure At (D : Descriptor) (σ : State) (offset : ℕ) (r : IOVirtualRange) : Prop where
  position : σ.position=offset
  range : D.ranges[σ.positionAtIndex]?=some r
  within : σ.positionAtOffset<r.length
  before : total (D.ranges.take σ.positionAtIndex)+σ.positionAtOffset=offset

variable {offset : ℕ}

lemma At.bytes (h : D.At σ offset r) {i : ℕ} (hi : σ.positionAtOffset+i<r.length) :
    byteAt D.ranges (offset+i)=(r.address+σ.positionAtOffset+i)%2^32 ∧
      restAt D.ranges (offset+i)=r.length-(σ.positionAtOffset+i) ∧ offset+i<total D.ranges := by
  obtain ⟨hlt,hget⟩ := List.getElem?_eq_some_iff.mp h.range
  have hdrop : D.ranges.drop σ.positionAtIndex =
      r::D.ranges.drop (σ.positionAtIndex+1) := by rw [drop_eq_getElem_cons hlt,hget]
  have hbyte := byteAt_take D.ranges σ.positionAtIndex (σ.positionAtOffset+i)
  have htotal := total_take_add_drop D.ranges σ.positionAtIndex
  rw [hdrop] at hbyte htotal
  rw [←h.before,add_assoc,hbyte.1,hbyte.2]
  refine ⟨?_,?_,?_⟩
  · simp [byteAt,hi,add_assoc]
  · simp [restAt,hi]
  · simp only [total,map_cons,sum_cons] at htotal ⊢
    omega

lemma seek_eq (i : ℕ) (h : offset<total rs) : ∃ n offset' r,
    seek rs i offset=(i+n,offset') ∧ rs[n]?=some r ∧ offset'<r.length ∧
      total (rs.take n)+offset'=offset := by
  induction rs generalizing i offset with
  | nil => simp [total] at h
  | cons r rs ih =>
    rw [seek]
    by_cases hr : r.length≤offset
    · have hrest : offset-r.length<total rs := by
        simp only [total,map_cons,sum_cons] at h ⊢
        omega
      obtain ⟨n,offset',r',hseek,hget,hlt,hsum⟩ := ih (i+1) hrest
      refine ⟨n+1,offset',r',?_,by simpa using hget,hlt,?_⟩
      · rw [if_pos hr,hseek,add_assoc,add_comm 1 n]
      · simp only [total,take_succ_cons,map_cons,sum_cons] at hsum ⊢
        omega
    · rw [if_neg hr]
      exact ⟨0,offset,r,rfl,rfl,by omega,by simp [total]⟩

/-- Where the position is, unless it is behind the end. -/
def Placed (D : Descriptor) (σ : State) : Prop :=
  σ.position<D.length → total (D.ranges.take σ.positionAtIndex)+σ.positionAtOffset=σ.position

lemma setPosition_at (h : D.Placed σ) (hoffset : offset<D.length) :
    ∃ r,D.At (D.setPosition σ offset) offset r := by
  have htotal : offset<total D.ranges := Nat.lt_of_lt_of_le hoffset (mod_le _ _)
  rw [setPosition,if_neg (by omega)]
  by_cases hback : offset<σ.position
  · obtain ⟨n,offset',r,hseek,hget,hlt,hsum⟩ := seek_eq 0 htotal
    refine ⟨r,?_,?_,?_,?_⟩ <;> simp [hback,hseek,hget,hlt,hsum]
  · have hbefore := h (by omega)
    have hsplit := total_take_add_drop D.ranges σ.positionAtIndex
    have hrest : σ.positionAtOffset+(offset-σ.position) <
        total (D.ranges.drop σ.positionAtIndex) := by omega
    obtain ⟨n,offset',r,hseek,hget,hlt,hsum⟩ := seek_eq σ.positionAtIndex hrest
    rw [getElem?_drop] at hget
    have htake : total (D.ranges.take (σ.positionAtIndex+n)) =
        total (D.ranges.take σ.positionAtIndex) +
          total ((D.ranges.drop σ.positionAtIndex).take n) := by
      rw [take_add]
      simp [total]
    refine ⟨r,?_,?_,?_,?_⟩ <;> simp only [hback,if_false,hseek]
    · exact hget
    · exact hlt
    · omega

lemma extracted_cases {a : ℕ} (hcached : D.Cached σ) (haddress : D.translate a≠0)
    (hresident : a=σ.cachedVirtualAddress → σ.cachedPhysicalAddress=0 →
      ∀ T,D.task=some T → T.resident (a/4096)=D.frame (a/4096)) {e : ℕ}
    (he : e=if a=σ.cachedVirtualAddress then σ.cachedPhysicalAddress else D.extract a) :
    e=D.translate a ∨ e=0 ∧ ∃ T,D.task=some T ∧
      T.resident (a/4096)=D.frame (a/4096) ∧ (a%4096=0 ∨ T.entered (a/4096)=0) := by
  obtain ⟨haligned,hvalue⟩ := hcached
  split_ifs at he with ha
  · rcases hvalue with hvalue | ⟨hv,hp⟩
    · exact .inl (by rw [he,hvalue,ha])
    · right
      rcases htask : D.task with _ | T
      · have : D.translate a=0 := by simp [translate,frame,htask,ha,hv]
        exact absurd this haddress
      · exact ⟨by rw [he,hp],T,rfl,hresident ha hp T htask,.inl (by rw [ha,haligned])⟩
  · rcases htask : D.task with _ | T
    · left
      simp only [he,extract,translate,frame,htask,Option.elim]
      omega
    · by_cases hentered : T.entered (a/4096)=0
      · right
        refine ⟨by simp [he,extract,htask,Task.pmapExtract,hentered],T,rfl,?_,.inr hentered⟩
        simp [frame,htask,hentered]
      · left
        simp [he,extract,translate,frame,htask,Task.pmapExtract,hentered]

lemma translate_run {a first j i : ℕ} (ha : a<2^32) (hfirst : first=4096-a%4096)
    (hi : i<first+4096*j) (hbehind : ∀ k≤j,D.Behind a k) :
    (D.translate a+i)%2^32=D.translate ((a+i)%2^32) :=
  (translate_add ha).mpr (hbehind _ (by omega))

lemma segment_right {ρ : State} (hat : D.At σ offset r) (hcached : D.Cached σ)
    (hserved : D.Served ρ offset)
    (hcaches : σ.cachedVirtualAddress=ρ.cachedVirtualAddress ∧
      σ.cachedPhysicalAddress=ρ.cachedPhysicalAddress) :
    ∃ (v q : ℕ) (answer : ℕ × ℕ),D.segment σ r =
        some ({σ with cachedVirtualAddress := v,cachedPhysicalAddress := q},answer) ∧
      D.Cached {σ with cachedVirtualAddress := v,cachedPhysicalAddress := q} ∧
      D.Segment offset answer := by
  obtain ⟨-,-,haddress,hresident,hentered,hends⟩ := hserved
  rw [←hcaches.1,←hcaches.2] at hresident
  have hwithin := hat.within
  have hlength := r.length_lt
  obtain ⟨ha,hrest,-⟩ := hat.bytes (i := 0) (by omega)
  simp only [add_zero] at ha hrest
  have hbytes : ∀ i<r.length-σ.positionAtOffset,offset+i<total D.ranges ∧
      byteAt D.ranges (offset+i)=(byteAt D.ranges offset+i)%2^32 := by
    intro i hi
    obtain ⟨hbyte,-,hlt⟩ := hat.bytes (i := i) (by omega)
    exact ⟨hlt,by rw [hbyte,ha]; omega⟩
  have hvirtual : (r.length+2^32-σ.positionAtOffset)%2^32 =
      r.length-σ.positionAtOffset := by omega
  simp only [Contiguous,hrest] at hentered hends
  rw [segment,←ha,hvirtual]
  have halt : byteAt D.ranges offset<2^32 := by omega
  have hpos : 0<r.length-σ.positionAtOffset := by omega
  have hword : r.length-σ.positionAtOffset<2^32 := by omega
  have hsegment : ∀ len,0<len → (∀ i < min len (r.length-σ.positionAtOffset),
      (D.translate (byteAt D.ranges offset)+i)%2^32 =
        D.translate ((byteAt D.ranges offset+i)%2^32)) →
      D.Segment offset (D.translate (byteAt D.ranges offset),
        min len (r.length-σ.positionAtOffset)) := by
    intro len hlen hrun
    refine ⟨rfl,by simp only; omega,fun i hi => ?_⟩
    obtain ⟨hlt,hbyte⟩ := hbytes i (by simp only at hi; omega)
    exact ⟨hlt,by rw [hbyte]; exact hrun i hi⟩
  clear hbytes ha hrest hvirtual
  generalize byteAt D.ranges offset=a at *
  generalize r.length-σ.positionAtOffset=rest at *
  generalize he : (if a=σ.cachedVirtualAddress then σ.cachedPhysicalAddress
    else D.extract a)=e
  have hcases := extracted_cases hcached haddress hresident he.symm
  have hpage : truncPage a/4096=a/4096 := by simp only [truncPage]; omega
  have hphysical : (if e=0 then
      D.task.elim 0 fun T => T.vmMapGetPhysPage (truncPage a)+(a-truncPage a) else e) =
      D.translate a := by
    rcases hcases with rfl | ⟨rfl,T,htask,hframe,-⟩
    · rw [if_neg haddress]
    · simp only [if_true,htask,Option.elim,Task.vmMapGetPhysPage,hpage,hframe,translate]
      simp only [truncPage]
      omega
  -- the run of pages is measured from the byte, unless the rest is contiguous
  obtain ⟨first,hfirst,hfpos,hfle,hmeasured⟩ : ∃ first,truncPage e+4096-e=first ∧
      0<first ∧ first≤4096 ∧ (first=4096-a%4096 ∨ (∃ T,D.task=some T ∧ T.entered (a/4096)=0) ∧
        ∀ i<rest,(D.translate a+i)%2^32=D.translate ((a+i)%2^32)) := by
    refine ⟨_,rfl,by simp only [truncPage]; omega,by simp only [truncPage]; omega,?_⟩
    rcases hcases with rfl | ⟨rfl,T,htask,-,haligned⟩
    · left
      simp only [truncPage,translate]
      omega
    · by_cases haligned' : a%4096=0
      · left
        simp only [truncPage]
        omega
      · have hnone := haligned.resolve_left haligned'
        exact .inr ⟨⟨T,htask,hnone⟩,hentered T htask hnone haligned'⟩
  have hahead : ∀ j,(∀ k≤j+1,D.Behind a k) → first+4096*j<rest → first+4096*(j+1)<2^32 := by
    intro j hbehind hlt
    by_cases hall : ∀ i<rest,(D.translate a+i)%2^32=D.translate ((a+i)%2^32)
    · rcases hends hall with hle | ⟨hoff,hle,hthere⟩
      · omega
      · rcases hmeasured with hmeasured | ⟨⟨T,htask,hnone⟩,-⟩
        · omega
        · exact absurd hnone (hthere T htask)
    · have hmeasured := hmeasured.resolve_right fun h => hall h.2
      push Not at hall
      obtain ⟨i,hi,hne⟩ := hall
      by_contra hge
      exact hne (translate_run (j := j+1) halt hmeasured (by omega) hbehind)
  have hstart : ∀ k≤0,D.Behind a k := by
    intro k hk
    obtain rfl : k=0 := by omega
    have hlt : D.frame (a/4096)<2^20 := frame_lt (by omega)
    rw [Behind,add_zero,add_zero,mod_eq_of_lt hlt,mod_eq_of_lt (by omega)]
  obtain ⟨v,q,j,hgrow,hcached',hbehind⟩ := grow_eq_some (n := 2^20) (j := 0)
    hahead (by omega) (by omega) hfpos hcached hstart
  simp only [Nat.mul_zero,add_zero] at hgrow
  have hlt : D.frame (a/4096)<2^20 := frame_lt (by omega)
  have hp : truncPage (D.translate a)=4096*(D.frame (a/4096)%2^20) := by
    simp only [truncPage,translate]
    omega
  have hv : truncPage a=4096*(a/4096%2^20) := by
    simp only [truncPage]
    omega
  refine ⟨v,q,_,?_,hcached',hsegment (first+4096*j) (by omega) fun i hi => ?_⟩
  · simp only [hphysical,hfirst,if_neg haddress]
    rw [hp,hv,hgrow,map_some]
  · rcases hmeasured with hmeasured | ⟨-,hall⟩
    · exact translate_run halt hmeasured (by omega) hbehind
    · exact hall i (by omega)

/-- What is kept from call to call. -/
structure Kept (D : Descriptor) (σ : State) : Prop where
  placed : D.Placed σ
  cached : D.Cached σ

lemma kept_start : D.Kept start := ⟨fun _ => by simp [start,total],by simp [Cached,start]⟩

lemma segment_onePhysical (h : D.OnePhysical) (hoffset : offset<total D.ranges) :
    ∃ answer,D.getPhysicalSegment σ offset=some (σ,answer) ∧ D.Segment offset answer := by
  obtain ⟨ranges,task⟩ := D
  obtain ⟨rfl,hone⟩ := h
  obtain ⟨r,rfl⟩ := List.length_eq_one_iff.mp hone
  have hlt := r.length_lt
  have htotal : total [r]=r.length := by simp [total]
  have hlength : length ⟨[r],none⟩=r.length := by rw [length,htotal]; omega
  rw [htotal] at hoffset
  have htranslate : ∀ a,translate ⟨[r],none⟩ a=a := by
    intro a
    simp only [translate,frame,Option.elim]
    omega
  refine ⟨((offset+r.address)%2^32,r.length-offset),?_,?_,by simp only; omega,?_⟩
  · simp only [getPhysicalSegment,hlength,if_neg (show ¬r.length≤offset by omega)]
  · simp only [htranslate,byteAt,if_pos hoffset,add_comm]
  · intro i hi
    simp only at hi
    simp only [htotal,htranslate,byteAt,if_pos (show offset+i<r.length by omega)]
    omega

lemma getPhysicalSegment_right (h : D.Kept σ) (hoffset : offset<total D.ranges)
    (hserved : D.OnePhysical ∨ D.Served σ offset) : ∃ σ' answer,
      D.getPhysicalSegment σ offset=some (σ',answer) ∧ D.Segment offset answer ∧ D.Kept σ' := by
  by_cases hone : D.OnePhysical
  · obtain ⟨answer,hcall,hsegment⟩ := segment_onePhysical (σ := σ) hone hoffset
    exact ⟨σ,answer,hcall,hsegment,h⟩
  have hs := hserved.resolve_left hone
  let τ := if offset≠σ.position then D.setPosition σ offset else σ
  have hat : ∃ r,D.At τ offset r := by
    by_cases hmoved : offset=σ.position
    · have hnonempty := hs.nonempty hmoved
      rcases hget : D.ranges[σ.positionAtIndex]? with _ | r
      · simp [hget] at hnonempty
      · have hτ : τ=σ := by simp [τ,hmoved]
        rw [hτ]
        have hbefore := h.placed (hmoved▸hs.inLength)
        exact ⟨r,hmoved.symm,hget,by simpa [hget] using hnonempty,by rw [hbefore,hmoved]⟩
    · have hτ : τ=D.setPosition σ offset := by simp [τ,hmoved]
      rw [hτ]
      exact setPosition_at h.placed hs.inLength
  have hcaches : τ.cachedVirtualAddress=σ.cachedVirtualAddress ∧
      τ.cachedPhysicalAddress=σ.cachedPhysicalAddress := by
    simp only [τ,setPosition]
    split_ifs <;> exact ⟨rfl,rfl⟩
  obtain ⟨r,hat⟩ := hat
  have hcached : D.Cached τ := by
    rw [Cached,hcaches.1,hcaches.2]
    exact h.cached
  obtain ⟨v,q,answer,hsegment,hcached',hright⟩ := segment_right hat hcached hs hcaches
  refine ⟨{τ with cachedVirtualAddress := v,cachedPhysicalAddress := q},answer,?_,hright,
    ⟨fun _ => hat.before.trans hat.position.symm,hcached'⟩⟩
  have hcall : D.getPhysicalSegment σ offset =
      if D.length≤τ.position then some (τ,0,0)
      else D.ranges[τ.positionAtIndex]?.elim none (D.segment τ) := by
    rw [getPhysicalSegment]
    split
    next r htask hranges => exact absurd ⟨htask,by simp [hranges]⟩ hone
    next => rfl
  rw [hcall,if_neg (by rw [hat.position]; have := hs.inLength; omega),hat.range]
  exact hsegment

/-- Every run whose calls are served answers every offset right. -/
theorem answers_right {offsets : List ℕ} (hoffsets : ∀ offset∈offsets,offset<total D.ranges)
    (hserved : D.AllServed start offsets) :
    ∃ out,D.answers start offsets=some out ∧ Forall₂ D.Segment offsets out := by
  have hrun : ∀ σ,D.Kept σ → D.AllServed σ offsets →
      ∃ out,D.answers σ offsets=some out ∧ Forall₂ D.Segment offsets out := by
    clear hserved
    induction offsets with
    | nil => exact fun _ _ _ => ⟨[],rfl,.nil⟩
    | cons offset offsets ih =>
      intro σ h hserved
      obtain ⟨σ',answer,hcall,hsegment,h'⟩ :=
        getPhysicalSegment_right h (hoffsets offset (by simp)) hserved.1
      obtain ⟨out,hout,hall⟩ := ih (fun o ho => hoffsets o (by simp [ho])) σ' h'
        (hserved.2 _ hcall)
      exact ⟨answer::out,by simp [answers,hcall,hout],.cons hsegment hall⟩
  exact hrun start kept_start hserved

/-- A page in frame 5 that is entered, and one in frame 9 that is not. -/
def twoRanges : Descriptor where
  ranges := [⟨0x1000,16,by decide,by decide⟩,⟨0x2000,32,by decide,by decide⟩]
  task := some ⟨fun p => if p=1 then 5 else 0,fun _ => 9,
    fun p => by split_ifs <;> decide,fun _ => by decide⟩

theorem answers_right_twoRanges : ∃ out,twoRanges.answers start [20,0]=some out ∧
    Forall₂ twoRanges.Segment [20,0] out := by
  have hcall : twoRanges.getPhysicalSegment start 20=some (⟨20,1,4,0,0⟩,0x9004,28) := by decide
  refine answers_right (by decide) ⟨.inr ⟨by decide,nofun,by decide,by decide,
    fun _ _ _ _ => ?_,fun _ => .inl (by decide)⟩,fun out hout => ?_⟩
  · rw [Contiguous]
    decide
  · obtain rfl := some.inj (hcall.symm.trans hout)
    refine ⟨.inr ⟨by decide,nofun,by decide,by decide,?_,fun _ => .inl (by decide)⟩,fun _ _ => trivial⟩
    rintro T ⟨⟩ ⟨⟩

/-- Two pages that are not entered, in the frames 5 and 9, from the middle of the first on. -/
def unaligned : Descriptor where
  ranges := [⟨0x1800,0x1000,by decide,by decide⟩]
  task := some ⟨fun _ => 0,fun p => if p=1 then 5 else 9,fun _ => by decide,
    fun p => by split_ifs <;> decide⟩

theorem unaligned_wrong : ¬∀ (D : Descriptor) (offsets : List ℕ),
    (∀ offset∈offsets,offset<total D.ranges) →
    ∃ out,D.answers start offsets=some out ∧ Forall₂ D.Segment offsets out := by
  intro h
  obtain ⟨out,hout,hall⟩ := h unaligned [0] (by decide)
  have hanswers : unaligned.answers start [0]=some [(0x5800,0x1000)] := by decide
  obtain rfl := some.inj (hanswers.symm.trans hout)
  obtain - | ⟨hsegment,-⟩ := hall
  -- the last byte of the segment lies in frame 9
  have hlast := (hsegment.2.2 4095 (by decide)).2
  exact absurd hlast (by decide)

end Descriptor
end Darwin.IOKit.MemoryDescriptor
