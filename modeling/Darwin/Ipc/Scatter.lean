import Mathlib.Data.BitVec
import Mathlib.Data.List.ReduceOption
import Mathlib.Tactic

/-! The scatter list of a receive, in `ipc_kmsg_copyin_scatter` and `ipc_kmsg_copyout_body` of
`ipc/ipc_kmsg.c`. A descriptor takes 12 bytes, the header of a message 24 and a descriptor count 4;
an access beyond the list that the receiver supplied gives `none`. -/
open List
namespace Darwin.Ipc.Scatter

/-- A descriptor, however it is read: `address` is the name of a port, too, and `size` the count of
the ports. -/
structure MachMsgDescriptor where
  address : BitVec 32
  size : BitVec 32
  copy : UInt8
  disposition : UInt8
  type : UInt8

def machMsgPortDescriptor : UInt8 := 0
def machMsgOolDescriptor : UInt8 := 1
def machMsgOolPortsDescriptor : UInt8 := 2
def machMsgOolVolatileDescriptor : UInt8 := 3
def machMsgAllocate : UInt8 := 2
def machMsgOverwrite : UInt8 := 3
def machMsgSuccess : BitVec 32 := 0
def machMsgVmSpace : BitVec 32 := 0x1000
def machMsgVmKernel : BitVec 32 := 0x400

def MachMsgDescriptor.isPort (d : MachMsgDescriptor) : Bool := d.type=machMsgPortDescriptor

def MachMsgDescriptor.isOol (d : MachMsgDescriptor) : Bool :=
  d.type=machMsgOolDescriptor ∨ d.type=machMsgOolVolatileDescriptor

/-- A scatter list in the kernel: the bytes it takes, and the descriptors that any bytes behind its
count make up. -/
structure MachMsgBody where
  size : BitVec 32
  msghDescriptorCount : BitVec 32
  descriptor : ℕ → MachMsgDescriptor

namespace MachMsgBody

def send (slist : MachMsgBody) : ℕ := (4+slist.msghDescriptorCount*12).toNat

def reach (slist : MachMsgBody) : ℕ := (slist.send-4+11)/12

def read (slist : MachMsgBody) (n : ℕ) : Option MachMsgDescriptor :=
  if 4+12*(n+1) ≤ slist.size.toNat then some (slist.descriptor n) else none

def descriptors (slist : MachMsgBody) : List (Option MachMsgDescriptor) :=
  (range slist.reach).map slist.read

end MachMsgBody

/-- Past the port descriptors: the descriptor at `sstart` and those behind it, unless `sstart` has
come to `send`. -/
def skipPorts : List (Option MachMsgDescriptor) →
    Option (Option (MachMsgDescriptor × List (Option MachMsgDescriptor)))
  | [] => some none
  | none::_ => none
  | some d::rest => if d.isPort then skipPorts rest else some (some (d,rest))

/-- The list as the receiver supplies it behind its message header, whose size counts in
`slistSize`. -/
structure Supplied where
  slistSize : BitVec 32
  msghDescriptorCount : BitVec 32
  descriptor : ℕ → MachMsgDescriptor

def loadScatter (supplied : Supplied) (kalloc copyin : Bool) : Option MachMsgBody :=
  if supplied.slistSize<28 then none
  else
    let slist : MachMsgBody :=
      ⟨supplied.slistSize-24,supplied.msghDescriptorCount,supplied.descriptor⟩
    if kalloc=false then none
    else if copyin=false then none
    else if slist.size<slist.msghDescriptorCount*12+4 then none
    else some slist

def agrees (g s : MachMsgDescriptor) : Bool :=
  if g.isOol then
    s.isOol && !(s.copy=machMsgOverwrite && s.size<g.size)
  else
    s.type=machMsgOolPortsDescriptor && !(s.copy=machMsgOverwrite && s.size<g.size)

/-- The loop over the descriptors of the message: whether the list is accepted. -/
def copyinLoop (slist : MachMsgBody) :
    List MachMsgDescriptor → List (Option MachMsgDescriptor) → Option Bool
  | [],_ => some true
  | g::gs,sstart =>
    if g.isPort then copyinLoop slist gs sstart
    else if slist.msghDescriptorCount=0 then some false
    else
      match skipPorts sstart with
      | none => none
      | some none => some true
      | some (some (s,rest)) => if agrees g s then copyinLoop slist gs rest else some false

def ipcKmsgCopyinScatter (supplied : Supplied) (kalloc copyin : Bool)
    (body : List MachMsgDescriptor) : Option (Option MachMsgBody) :=
  match loadScatter supplied kalloc copyin with
  | none => some none
  | some slist =>
    (copyinLoop slist body slist.descriptors).map fun accepted =>
      if accepted then some slist else none

inductive KernReturn
  | success | resourceShortage | failure
  deriving DecidableEq

/-- What the kernel calls for a descriptor of the message give. -/
structure Results where
  /-- The name of its port. -/
  name : ℕ → BitVec 32
  /-- What copying out its rights returns. -/
  rights : ℕ → BitVec 32
  /-- What the one call on the receiver's map returns. -/
  vm : ℕ → KernReturn
  /-- Where memory is allocated for it. -/
  region : ℕ → BitVec 32

/-- A descriptor of the message overwrites memory of the receiver. How much it writes is not known
once its copy object has been discarded. -/
structure Overwrite where
  descriptor : ℕ
  address : BitVec 32
  bytes : Option ℕ

/-- The state of the loop over the descriptors; `sstart` may be a null pointer. -/
structure Copyout where
  sstart : Option (List (Option MachMsgDescriptor))
  /-- The message has been cleaned: its copy objects are discarded. -/
  cleaned : Bool
  mr : BitVec 32
  overwrites : List Overwrite

def skipPortDescriptors (sstart : Option (List (Option MachMsgDescriptor))) :
    Option (Option (MachMsgDescriptor × List (Option MachMsgDescriptor))) :=
  match sstart with
  | none => some none
  | some sstart => skipPorts sstart

def overwriteAddress (scatter : Option (MachMsgDescriptor × List (Option MachMsgDescriptor))) :
    Option (BitVec 32) :=
  match scatter with
  | none => none
  | some (s,_) => if s.copy=machMsgOverwrite then some s.address else none

def vmError (kr : KernReturn) : BitVec 32 :=
  if kr=.resourceShortage then machMsgVmKernel else machMsgVmSpace

section Copyout

-- the size of the data in a copy object
variable (copySize : BitVec 32 → ℕ) (results : Results)

def copyoutOol (i : ℕ) (dsc : MachMsgDescriptor) (st : Copyout) :
    Option (MachMsgDescriptor × Copyout) :=
  match skipPortDescriptors st.sstart with
  | none => none
  | some scatter =>
    let st := {st with sstart := scatter.map Prod.snd}
    if dsc.address=0 then some (dsc,st)
    else
      let rcvAddr := (overwriteAddress scatter).getD (results.region i)
      let copy := if (overwriteAddress scatter).isSome then machMsgOverwrite else machMsgAllocate
      let bytes := if st.cleaned then none else some (copySize dsc.address)
      let st :=
        match overwriteAddress scatter with
        | none => st
        | some address => {st with overwrites := st.overwrites++[⟨i,address,bytes⟩]}
      if results.vm i=.success then some ({dsc with copy := copy,address := rcvAddr},st)
      else
        some ({dsc with copy := copy,address := 0},
          {st with mr := st.mr|||vmError (results.vm i)})

def copyoutOolPorts (i : ℕ) (dsc : MachMsgDescriptor) (st : Copyout) :
    Option (MachMsgDescriptor × Copyout) :=
  match skipPortDescriptors st.sstart with
  | none => none
  | some scatter =>
    let st := {st with sstart := scatter.map Prod.snd}
    let length := dsc.size*4
    if length=0 then some (dsc,st)
    else
      match overwriteAddress scatter with
      | some addr =>
        some ({dsc with copy := machMsgOverwrite,address := addr},
          { st with
            mr := st.mr|||results.rights i
            overwrites := st.overwrites++[⟨i,addr,some length.toNat⟩]})
      | none =>
        if results.vm i=.success then
          some ({dsc with copy := machMsgAllocate,address := results.region i},
            {st with mr := st.mr|||results.rights i})
        else
          -- ipc_kmsg_clean_body, and the loop goes on
          some ({dsc with copy := machMsgAllocate,address := 0},
            {st with cleaned := true,mr := st.mr|||vmError (results.vm i)})

def copyoutDescriptor (i : ℕ) (dsc : MachMsgDescriptor) (st : Copyout) :
    Option (MachMsgDescriptor × Copyout) :=
  if dsc.isPort then
    some ({dsc with address := results.name i},{st with mr := st.mr|||results.rights i})
  else if dsc.isOol then copyoutOol copySize results i dsc st
  else if dsc.type=machMsgOolPortsDescriptor then copyoutOolPorts results i dsc st
  else none

def copyoutLoop : ℕ → List MachMsgDescriptor → Copyout → Option (List MachMsgDescriptor × Copyout)
  | _,[],st => some ([],st)
  | i,dsc::rest,st => do
    let (dsc,st) ← copyoutDescriptor copySize results i dsc st
    let (rest,st) ← copyoutLoop (i+1) rest st
    some (dsc::rest,st)

def ipcKmsgCopyoutBody (slist : Option MachMsgBody) (body : List MachMsgDescriptor) :
    Option (List MachMsgDescriptor × Copyout) :=
  copyoutLoop copySize results 0 body
    ⟨slist.map MachMsgBody.descriptors,false,machMsgSuccess,[]⟩

end Copyout

end Darwin.Ipc.Scatter

/-! Which descriptor of the scatter list is paired with which of the message, and when no list and
no message make the kernel read or write beyond what the receiver supplied. -/
namespace Darwin.Ipc.Scatter

/-! ### Pairing -/

def unskipped (ds : List MachMsgDescriptor) : List MachMsgDescriptor := ds.filter fun d => !d.isPort

/-- The scatter descriptors that lie in the supplied list as a whole and take part. -/
def MachMsgBody.scatter (slist : MachMsgBody) : List MachMsgDescriptor :=
  unskipped slist.descriptors.reduceOption

/-- The descriptors of a message in their order, each with the scatter descriptor that is its
partner: port descriptors have none, nor do those that are left over. -/
def pairUp : List MachMsgDescriptor → List MachMsgDescriptor → List (Option MachMsgDescriptor)
  | [],_ => []
  | g::gs,scatter =>
    if g.isPort then none::pairUp gs scatter else scatter.head? :: pairUp gs scatter.tail

/-- What is left of a scatter list: its descriptors that take part, and whether behind them one
begins before `send` that the supplied list does not hold as a whole. -/
def Remains (sstart : List (Option MachMsgDescriptor)) (scatter : List MachMsgDescriptor)
    (cut : Bool) : Prop :=
  ∃ ds,sstart=ds.map some++(if cut then [none] else []) ∧ unskipped ds=scatter

variable {sstart : List (Option MachMsgDescriptor)} {scatter body : List MachMsgDescriptor}
  {s : MachMsgDescriptor} {cut : Bool}

lemma unskipped_cons_port {d : MachMsgDescriptor} {ds : List MachMsgDescriptor}
    (h : d.isPort=true) : unskipped (d::ds)=unskipped ds :=
  filter_cons_of_neg (by simp only [h,Bool.not_true,Bool.false_eq_true,not_false_eq_true])

lemma unskipped_cons {d : MachMsgDescriptor} {ds : List MachMsgDescriptor}
    (h : d.isPort=false) : unskipped (d::ds)=d::unskipped ds :=
  filter_cons_of_pos (by simp only [h,Bool.not_false])

lemma Remains.cons (h : Remains sstart (s::scatter) cut) :
    ∃ rest,skipPorts sstart=some (some (s,rest)) ∧ Remains rest scatter cut := by
  obtain ⟨ds,rfl,hds⟩ := h
  induction ds with
  | nil => cases hds
  | cons d ds ih =>
    rw [map_cons,cons_append,skipPorts]
    cases hd : d.isPort with
    | true =>
      rw [unskipped_cons_port hd] at hds
      exact ih hds
    | false =>
      rw [unskipped_cons hd,List.cons.injEq] at hds
      obtain ⟨rfl,hds⟩ := hds
      exact ⟨_,rfl,ds,rfl,hds⟩

lemma Remains.nil (h : Remains sstart [] cut) :
    skipPorts sstart=if cut then none else some none := by
  obtain ⟨ds,rfl,hds⟩ := h
  induction ds with
  | nil => cases cut <;> rfl
  | cons d ds ih =>
    cases hd : d.isPort with
    | true =>
      rw [unskipped_cons_port hd] at hds
      rw [map_cons,cons_append,skipPorts,if_pos hd]
      exact ih hds
    | false =>
      rw [unskipped_cons hd] at hds
      cases hds

lemma copyinLoop_spec (slist : MachMsgBody) (hcount : slist.msghDescriptorCount≠0)
    (body : List MachMsgDescriptor) : ∀ {sstart scatter},Remains sstart scatter cut →
    copyinLoop slist body sstart =
      if ∀ p∈(unskipped body).zip scatter,agrees p.1 p.2=true then
        if cut=true ∧ scatter.length<(unskipped body).length then none else some true
      else some false := by
  induction body with
  | nil =>
    intro sstart scatter _
    simp [copyinLoop,unskipped]
  | cons g gs ih =>
    intro sstart scatter h
    rw [copyinLoop]
    cases hg : g.isPort with
    | true =>
      rw [if_pos rfl,unskipped_cons_port hg]
      exact ih h
    | false =>
      rw [if_neg Bool.false_ne_true,if_neg hcount,unskipped_cons hg]
      cases scatter with
      | nil =>
        rw [h.nil]
        cases cut <;> simp
      | cons s scatter =>
        obtain ⟨rest,hskip,hrest⟩ := h.cons
        rw [hskip]
        simp only [zip_cons_cons,forall_mem_cons,length_cons]
        cases hs : agrees g s with
        | true =>
          simp only [if_true,true_and,Nat.add_lt_add_iff_right]
          exact ih hrest
        | false => simp

lemma copyinLoop_empty (slist : MachMsgBody) (hcount : slist.msghDescriptorCount=0)
    (body : List MachMsgDescriptor) (sstart : List (Option MachMsgDescriptor)) :
    copyinLoop slist body sstart=some (decide (unskipped body=[])) := by
  induction body with
  | nil => simp [copyinLoop,unskipped]
  | cons g gs ih =>
    rw [copyinLoop]
    cases hg : g.isPort with
    | true =>
      rw [if_pos rfl,unskipped_cons_port hg]
      exact ih
    | false =>
      rw [if_neg Bool.false_ne_true,if_pos hcount,unskipped_cons hg]
      simp

/-! ### The size of the list -/

namespace MachMsgBody

variable {slist : MachMsgBody}

lemma reduceOption_map_some (ds : List MachMsgDescriptor) (cut : Bool) :
    (ds.map some++if cut then [none] else []).reduceOption=ds := by
  rw [reduceOption_append]
  cases cut <;> simp [reduceOption]

lemma remains (hsend : slist.send ≤ slist.size.toNat) (hsize : 4 ≤ slist.size.toNat) :
    Remains slist.descriptors slist.scatter
      (decide (slist.size.toNat<4+12*slist.reach)) := by
  have hread : ∀ m,4+12*m ≤ slist.size.toNat →
      (range m).map slist.read=((range m).map slist.descriptor).map some := by
    intro m hm
    rw [map_map]
    refine map_congr_left fun n hn => ?_
    rw [mem_range] at hn
    rw [read,if_pos (by omega)]
    rfl
  have hlist : ∃ ds : List MachMsgDescriptor,slist.descriptors =
      ds.map some++if decide (slist.size.toNat<4+12*slist.reach) then [none] else [] := by
    by_cases hcut : slist.size.toNat<4+12*slist.reach
    · obtain ⟨m,hm⟩ : ∃ m,slist.reach=m+1 := Nat.exists_eq_add_one.mpr (by omega)
      have hlast : 4+12*m<slist.send := by
        rw [reach] at hm
        omega
      refine ⟨(range m).map slist.descriptor,?_⟩
      rw [decide_eq_true hcut,if_pos rfl,descriptors,hm,range_succ,map_append,
        hread m (by omega),map_singleton,read,if_neg (by omega)]
    · refine ⟨(range slist.reach).map slist.descriptor,?_⟩
      rw [decide_eq_false hcut,if_neg Bool.false_ne_true,append_nil,descriptors,
        hread _ (by omega)]
  obtain ⟨ds,hds⟩ := hlist
  refine ⟨ds,hds,?_⟩
  rw [scatter,hds,reduceOption_map_some]

end MachMsgBody

lemma loadScatter_some {supplied : Supplied} {kalloc copyin : Bool} {slist : MachMsgBody}
    (h : loadScatter supplied kalloc copyin=some slist) :
    slist.send ≤ slist.size.toNat ∧ 4 ≤ slist.size.toNat := by
  simp only [loadScatter] at h
  split_ifs at h with hbase hkalloc hcopyin hsize
  cases h
  rw [MachMsgBody.send]
  simp only [BitVec.not_lt,BitVec.le_def] at hsize
  rw [BitVec.add_comm] at hsize
  refine ⟨hsize,?_⟩
  change 4≤(supplied.slistSize-24).toNat
  bv_omega

/-- The test of the size has been passed, and the pairing comes to a descriptor that begins before
`send` and ends behind the list. -/
def Overruns (slist : MachMsgBody) (body : List MachMsgDescriptor) : Prop :=
  slist.size.toNat<4+12*slist.reach ∧ slist.scatter.length<(unskipped body).length ∧
    ∀ p∈(unskipped body).zip slist.scatter,agrees p.1 p.2=true

def Accepts (slist : MachMsgBody) (body : List MachMsgDescriptor) : Prop :=
  (slist.msghDescriptorCount=0 → unskipped body=[]) ∧
    ∀ p∈(unskipped body).zip slist.scatter,agrees p.1 p.2=true

section Copyin

variable {supplied : Supplied} {kalloc copyin : Bool} {slist : MachMsgBody}

lemma reach_of_count (hcount : slist.msghDescriptorCount=0) : slist.reach=0 := by
  rw [MachMsgBody.reach,MachMsgBody.send,hcount]
  rfl

lemma copyinScatter_spec (body : List MachMsgDescriptor)
    (hload : loadScatter supplied kalloc copyin=some slist) :
    (Overruns slist body → ipcKmsgCopyinScatter supplied kalloc copyin body=none) ∧
    (¬Overruns slist body → Accepts slist body →
      ipcKmsgCopyinScatter supplied kalloc copyin body=some (some slist)) ∧
    (¬Overruns slist body → ¬Accepts slist body →
      ipcKmsgCopyinScatter supplied kalloc copyin body=some none) := by
  obtain ⟨hsend,hsize⟩ := loadScatter_some hload
  unfold ipcKmsgCopyinScatter
  rw [hload]
  by_cases hcount : slist.msghDescriptorCount=0
  · have hno : ¬Overruns slist body := fun hover => by
      have := hover.1
      rw [reach_of_count hcount] at this
      omega
    have hscatter : slist.scatter=[] := by
      rw [MachMsgBody.scatter,MachMsgBody.descriptors,reach_of_count hcount]
      rfl
    simp only [copyinLoop_empty slist hcount,Option.map_some]
    refine ⟨fun h => absurd h hno,fun _ h => by simp [h.1 hcount],fun _ h => ?_⟩
    rw [Accepts,hscatter,zip_nil_right] at h
    have hbody : unskipped body≠[] := fun hbody =>
      h ⟨fun _ => hbody,fun p hp => absurd hp not_mem_nil⟩
    simp only [decide_eq_false hbody,Bool.false_eq_true,if_false]
  · simp only [copyinLoop_spec slist hcount body (MachMsgBody.remains hsend hsize)]
    by_cases hagree : ∀ p∈(unskipped body).zip slist.scatter,agrees p.1 p.2=true
    · have haccepts : Accepts slist body := ⟨fun h => absurd h hcount,hagree⟩
      rw [if_pos hagree]
      refine ⟨fun h => ?_,fun h _ => ?_,fun _ h => absurd haccepts h⟩
      · rw [if_pos ⟨decide_eq_true h.1,h.2.1⟩]
        rfl
      · rw [if_neg fun hcut => h ⟨of_decide_eq_true hcut.1,hcut.2,hagree⟩]
        rfl
    · rw [if_neg hagree]
      exact ⟨fun h => absurd h.2.2 hagree,fun _ h => absurd h.2 hagree,fun _ _ => rfl⟩

end Copyin

/-! ### What is overwritten -/

lemma pairUp_getElem (body : List MachMsgDescriptor) : ∀ (scatter : List MachMsgDescriptor)
    (k : ℕ) (d : MachMsgDescriptor),body[k]?=some d → (pairUp body scatter)[k]? =
      some (if d.isPort then none else
        (scatter.drop (unskipped (body.take k)).length).head?) := by
  induction body with
  | nil => exact fun _ k d h => by simp at h
  | cons g gs ih =>
    intro scatter k d h
    cases k with
    | zero =>
      rw [getElem?_cons_zero,Option.some.injEq] at h
      rw [h,pairUp]
      cases hd : d.isPort <;> simp [unskipped]
    | succ k =>
      rw [getElem?_cons_succ] at h
      rw [pairUp,take_succ_cons,unskipped]
      cases hg : g.isPort with
      | true =>
        rw [if_pos rfl,getElem?_cons_succ,filter_cons_of_neg (by simp [hg])]
        exact ih scatter k d h
      | false =>
        rw [if_neg Bool.false_ne_true,getElem?_cons_succ,
          filter_cons_of_pos (by simp [hg]),length_cons,ih scatter.tail k d h,
          ← drop_one,drop_drop,Nat.add_comm]
        rfl

def RemainsAt : Option (List (Option MachMsgDescriptor)) → List MachMsgDescriptor → Bool → Prop
  | none,scatter,_ => scatter=[]
  | some sstart,scatter,cut => Remains sstart scatter cut

lemma skipPortDescriptors_spec {sstart : Option (List (Option MachMsgDescriptor))}
    (h : RemainsAt sstart scatter cut) (hcut : cut=true → scatter≠[]) :
    ∃ found,skipPortDescriptors sstart=some found ∧ found.map Prod.fst=scatter.head? ∧
      RemainsAt (found.map Prod.snd) scatter.tail cut := by
  cases sstart with
  | none =>
    rw [show scatter=[] from h]
    exact ⟨none,rfl,rfl,rfl⟩
  | some sstart =>
    cases scatter with
    | nil =>
      refine ⟨none,?_,rfl,rfl⟩
      rw [skipPortDescriptors,Remains.nil h,if_neg fun hc => hcut hc rfl]
    | cons s scatter =>
      obtain ⟨rest,hskip,hrest⟩ := Remains.cons h
      exact ⟨some (s,rest),hskip,rfl,hrest⟩

def target (partner : Option MachMsgDescriptor) : Option (BitVec 32) :=
  partner.bind fun s => if s.copy=machMsgOverwrite then some s.address else none

lemma overwriteAddress_eq (found : Option (MachMsgDescriptor × List (Option MachMsgDescriptor))) :
    overwriteAddress found=target (found.map Prod.fst) := by
  cases found <;> rfl

variable (copySize : BitVec 32 → ℕ) (results : Results)

/-- The allocation for the rights of a descriptor fails, and the message is cleaned. -/
def cleans (k : ℕ) (d : MachMsgDescriptor) (partner : Option MachMsgDescriptor) : Bool :=
  d.type=machMsgOolPortsDescriptor ∧ d.size*4≠0 ∧ target partner=none ∧ results.vm k≠.success

def overwriteOf (cleaned : Bool) (k : ℕ) (d : MachMsgDescriptor)
    (partner : Option MachMsgDescriptor) : Option Overwrite :=
  (target partner).bind fun address =>
    if d.isOol then
      if d.address=0 then none
      else some ⟨k,address,if cleaned then none else some (copySize d.address)⟩
    else if d.type=machMsgOolPortsDescriptor ∧ d.size*4≠0 then
      some ⟨k,address,some (d.size*4).toNat⟩
    else none

/-- A message that has been copied in: its descriptors have the types there are, and a copy object
holds as much as its descriptor says. -/
def Copied (body : List MachMsgDescriptor) : Prop :=
  ∀ d∈body,(d.isPort=true ∨ d.isOol=true ∨ d.type=machMsgOolPortsDescriptor) ∧
    (d.isOol=true → d.address≠0 → copySize d.address=d.size.toNat)

lemma copyoutDescriptor_spec {d : MachMsgDescriptor} (k : ℕ) (st : Copyout)
    (htype : d.isPort=true ∨ d.isOol=true ∨ d.type=machMsgOolPortsDescriptor)
    (h : RemainsAt st.sstart scatter cut)
    (hcut : cut=true → d.isPort=false → scatter≠[]) :
    ∃ d' st',copyoutDescriptor copySize results k d st=some (d',st') ∧
      RemainsAt st'.sstart (if d.isPort then scatter else scatter.tail) cut ∧
      (st'.cleaned=(st.cleaned ||
        cleans results k d (if d.isPort then none else scatter.head?))) ∧
      st'.overwrites=st.overwrites ++ (overwriteOf copySize st.cleaned k d
          (if d.isPort then none else scatter.head?)).toList := by
  cases hport : d.isPort with
  | true =>
    refine ⟨_,_,if_pos hport,h,?_,?_⟩
    · simp [cleans,MachMsgDescriptor.isPort] at hport ⊢
      simp [hport,machMsgPortDescriptor,machMsgOolPortsDescriptor]
    · simp [overwriteOf,target]
  | false =>
    obtain ⟨found,hskip,hhead,hrest⟩ := skipPortDescriptors_spec h fun hc => hcut hc hport
    rw [copyoutDescriptor,if_neg (by simp [hport])]
    simp only [Bool.false_eq_true,if_false]
    cases hool : d.isOol with
    | true =>
      have hclean : cleans results k d scatter.head?=false := by
        rw [MachMsgDescriptor.isOol,decide_eq_true_iff] at hool
        rw [cleans,decide_eq_false_iff_not]
        rintro ⟨htype,-⟩
        rw [htype] at hool
        exact absurd hool (by decide)
      rw [if_pos rfl,copyoutOol,hskip]
      simp only [overwriteAddress_eq,hhead,hclean,Bool.or_false,overwriteOf,hool,if_true]
      by_cases haddress : d.address=0
      · rw [if_pos haddress]
        refine ⟨_,_,rfl,hrest,rfl,?_⟩
        cases target scatter.head? <;> simp [haddress]
      · rw [if_neg haddress]
        cases target scatter.head? with
        | none => split_ifs <;> exact ⟨_,_,rfl,hrest,rfl,by simp⟩
        | some address =>
          split_ifs <;> exact ⟨_,_,rfl,hrest,rfl,by simp⟩
    | false =>
      have hports : d.type=machMsgOolPortsDescriptor := by simpa [hport,hool] using htype
      rw [if_neg Bool.false_ne_true,if_pos hports,copyoutOolPorts,hskip]
      simp only [overwriteAddress_eq,hhead,overwriteOf,cleans,hool,hports]
      generalize d.size*4=length
      by_cases hlength : length=0
      · rw [if_pos hlength]
        exact ⟨_,_,rfl,hrest,by simp [hlength],by simp [hlength]⟩
      · rw [if_neg hlength]
        have hlength' : ¬length=0#32 := hlength
        cases target scatter.head? with
        | none =>
          by_cases hvm : results.vm k=.success
          · simp only [hvm,if_true]
            exact ⟨_,_,rfl,hrest,by simp,by simp⟩
          · simp only [hvm,if_false]
            exact ⟨_,_,rfl,hrest,by simp [hlength',hvm],by simp⟩
        | some address => exact ⟨_,_,rfl,hrest,by simp,by simp [hlength']⟩

/-! ### The loop over the message -/

section Loop

variable {copySize results} {scatter : List MachMsgDescriptor}

def PairAt (body scatter : List MachMsgDescriptor) (k : ℕ) (d : MachMsgDescriptor)
    (partner : Option MachMsgDescriptor) : Prop :=
  body[k]?=some d ∧ (pairUp body scatter)[k]?=some partner

lemma PairAt.unique {k : ℕ} {d d' : MachMsgDescriptor} {p p' : Option MachMsgDescriptor}
    (h : PairAt body scatter k d p) (h' : PairAt body scatter k d' p') : d=d' ∧ p=p' :=
  ⟨Option.some.inj (h.1.symm.trans h'.1),Option.some.inj (h.2.symm.trans h'.2)⟩

def CleanedBefore (results : Results) (body scatter : List MachMsgDescriptor) (k : ℕ) : Prop :=
  ∃ j<k,∃ d partner,PairAt body scatter j d partner ∧ cleans results j d partner=true

/-- Before a descriptor of the message. -/
structure Before (copySize : BitVec 32 → ℕ) (results : Results)
    (body scatter : List MachMsgDescriptor) (cut : Bool) (k : ℕ) (st : Copyout) : Prop where
  left : RemainsAt st.sstart (scatter.drop (unskipped (body.take k)).length) cut
  cleaned : st.cleaned=true ↔ CleanedBefore results body scatter k
  overwrites : ∀ w,w∈st.overwrites ↔ ∃ j<k,∃ d partner cleaned,
    PairAt body scatter j d partner ∧ (cleaned=true ↔ CleanedBefore results body scatter j) ∧
      overwriteOf copySize cleaned j d partner=some w

lemma Before.step {k : ℕ} {d : MachMsgDescriptor} {st : Copyout}
    (h : Before copySize results body scatter cut k st) (hbody : Copied copySize body)
    (hcut : ¬(cut=true ∧ scatter.length<(unskipped body).length)) (hd : body[k]?=some d) :
    ∃ d' st',copyoutDescriptor copySize results k d st=some (d',st') ∧
      Before copySize results body scatter cut (k+1) st' := by
  have htake : unskipped (body.take (k+1))=unskipped (body.take k)++unskipped [d] := by
    rw [take_add_one,hd]
    exact filter_append _ _
  have hcut' : cut=true → d.isPort=false →
      scatter.drop (unskipped (body.take k)).length≠[] := fun hc hport hnil => by
    have hle := (((take_sublist (k+1) body).filter fun d => !d.isPort)).length_le
    have hone : (unskipped [d]).length=1 := by simp [unskipped,hport]
    change (unskipped (body.take (k+1))).length≤(unskipped body).length at hle
    rw [htake,length_append,hone] at hle
    rw [drop_eq_nil_iff] at hnil
    exact hcut ⟨hc,by omega⟩
  obtain ⟨d',st',hcall,hleft,hcleaned,hover⟩ := copyoutDescriptor_spec copySize results k st
    (hbody d (mem_of_getElem? hd)).1 h.left hcut'
  have hpair : PairAt body scatter k d (if d.isPort then none else
      (scatter.drop (unskipped (body.take k)).length).head?) :=
    ⟨hd,pairUp_getElem body scatter k d hd⟩
  generalize (if d.isPort then none else
    (scatter.drop (unskipped (body.take k)).length).head?)=partner at hpair hcleaned hover
  refine ⟨d',st',hcall,⟨?_,?_,fun w => ?_⟩⟩
  · rw [htake,length_append]
    cases hport : d.isPort with
    | true =>
      rw [show unskipped [d]=[] by simp [unskipped,hport]]
      rwa [hport,if_pos rfl] at hleft
    | false =>
      rw [show unskipped [d]=[d] by simp [unskipped,hport],length_singleton,←tail_drop]
      rwa [hport,if_neg Bool.false_ne_true] at hleft
  · rw [hcleaned,Bool.or_eq_true,h.cleaned,CleanedBefore,CleanedBefore,Nat.exists_lt_succ_right]
    refine or_congr_right ⟨fun hc => ⟨d,partner,hpair,hc⟩,?_⟩
    rintro ⟨e,p,hpair',hc⟩
    obtain ⟨rfl,rfl⟩ := hpair.unique hpair'
    exact hc
  · rw [hover,mem_append,h.overwrites,Nat.exists_lt_succ_right,Option.mem_toList]
    refine or_congr_right ⟨fun hw => ⟨d,partner,st.cleaned,hpair,h.cleaned,hw⟩,?_⟩
    rintro ⟨e,p,cleaned,hpair',hc,hw⟩
    obtain ⟨rfl,rfl⟩ := hpair.unique hpair'
    rwa [Bool.eq_iff_iff.mpr (h.cleaned.trans hc.symm)]

lemma Before.loop (hbody : Copied copySize body)
    (hcut : ¬(cut=true ∧ scatter.length<(unskipped body).length))
    (rest : List MachMsgDescriptor) : ∀ {k : ℕ} {st : Copyout},body.drop k=rest →
    Before copySize results body scatter cut k st →
    ∃ ds st',copyoutLoop copySize results k rest st=some (ds,st') ∧
      ∃ n,body.length≤n ∧ Before copySize results body scatter cut n st' := by
  induction rest with
  | nil =>
    intro k st hrest h
    exact ⟨[],st,rfl,k,drop_eq_nil_iff.mp hrest,h⟩
  | cons d rest ih =>
    intro k st hrest h
    have hd : body[k]?=some d := by
      rw [←head?_drop,hrest]
      rfl
    obtain ⟨d',st',hcall,hstep⟩ := h.step hbody hcut hd
    have hdrop : body.drop (k+1)=rest := by
      rw [←tail_drop,hrest]
      rfl
    obtain ⟨ds,st'',hloop,hend⟩ := ih hdrop hstep
    refine ⟨d'::ds,st'',?_,hend⟩
    rw [copyoutLoop,hcall]
    simp only [Option.bind_eq_bind,Option.bind_some,hloop]

lemma copyoutLoop_spec (results : Results) (hbody : Copied copySize body)
    {sstart : Option (List (Option MachMsgDescriptor))} (h : RemainsAt sstart scatter cut)
    (hcut : ¬(cut=true ∧ scatter.length<(unskipped body).length)) :
    ∃ ds st,copyoutLoop copySize results 0 body ⟨sstart,false,machMsgSuccess,[]⟩=some (ds,st) ∧
      ∀ w,w∈st.overwrites ↔ ∃ j d partner cleaned,PairAt body scatter j d partner ∧
        (cleaned=true ↔ CleanedBefore results body scatter j) ∧
        overwriteOf copySize cleaned j d partner=some w := by
  have hstart : Before copySize results body scatter cut 0 ⟨sstart,false,machMsgSuccess,[]⟩ := by
    refine ⟨h,⟨fun hc => absurd hc Bool.false_ne_true,?_⟩,fun w => ⟨fun hw =>
      absurd hw not_mem_nil,?_⟩⟩
    · rintro ⟨j,hj,-⟩
      exact absurd hj (Nat.not_lt_zero _)
    · rintro ⟨j,hj,-⟩
      exact absurd hj (Nat.not_lt_zero _)
  obtain ⟨ds,st,hloop,n,hn,hend⟩ := Before.loop hbody hcut body drop_zero hstart
  refine ⟨ds,st,hloop,fun w => (hend.overwrites w).trans ⟨?_,?_⟩⟩
  · rintro ⟨j,-,hw⟩
    exact ⟨j,hw⟩
  · rintro ⟨j,d,partner,cleaned,hpair,hw⟩
    exact ⟨j,lt_of_lt_of_le (List.getElem?_eq_some_iff.mp hpair.1).1 hn,d,partner,cleaned,hpair,hw⟩

end Loop

lemma PairAt.mem_zip {d s : MachMsgDescriptor} : ∀ {body scatter : List MachMsgDescriptor} {k : ℕ},
    PairAt body scatter k d (some s) → (d,s)∈(unskipped body).zip scatter := by
  intro body
  induction body with
  | nil => exact fun h => absurd h.1 (by simp)
  | cons g gs ih =>
    intro scatter k h
    obtain ⟨hd,hp⟩ := h
    rw [pairUp] at hp
    cases hg : g.isPort with
    | true =>
      rw [unskipped_cons_port hg]
      rw [hg,if_pos rfl] at hp
      cases k with
      | zero => simp at hp
      | succ k => exact ih ⟨hd,hp⟩
    | false =>
      rw [unskipped_cons hg]
      rw [hg,if_neg Bool.false_ne_true] at hp
      cases scatter with
      | nil =>
        cases k with
        | zero => simp at hp
        | succ k =>
          have hnone : (d,s)∈(unskipped gs).zip [] := ih ⟨hd,hp⟩
          simp at hnone
      | cons s' scatter =>
        rw [zip_cons_cons]
        cases k with
        | zero =>
          simp only [getElem?_cons_zero,head?_cons,Option.some.injEq] at hd hp
          subst hd hp
          exact mem_cons_self
        | succ k => exact mem_cons_of_mem _ (ih ⟨hd,hp⟩)

/-! ### Safety -/

def stated (d s : MachMsgDescriptor) : ℕ := if d.isOol then s.size.toNat else 4*s.size.toNat

/-- The list is not read beyond its end, and what is overwritten is what the partners in an accepted
list allow. -/
def ScatterSafe (copySize : BitVec 32 → ℕ) (results : Results) (supplied : Supplied)
    (kalloc copyin : Bool) (body : List MachMsgDescriptor) : Prop :=
  ∃ accepted,ipcKmsgCopyinScatter supplied kalloc copyin body=some accepted ∧
    ∃ ds st,ipcKmsgCopyoutBody copySize results accepted body=some (ds,st) ∧
      ∀ w∈st.overwrites,∃ slist d s,accepted=some slist ∧
        PairAt body slist.scatter w.descriptor d (some s) ∧ s.copy=machMsgOverwrite ∧
        w.address=s.address ∧ ∃ n,w.bytes=some n ∧ n ≤ stated d s

def CleanedFirst (results : Results) (slist : MachMsgBody) (body : List MachMsgDescriptor) : Prop :=
  ∃ k d s,PairAt body slist.scatter k d (some s) ∧ d.isOol=true ∧ d.address≠0 ∧
    s.copy=machMsgOverwrite ∧ CleanedBefore results body slist.scatter k

section Safety

variable {copySize results}

lemma overwriteOf_eq_some {cleaned : Bool} {k : ℕ} {d : MachMsgDescriptor}
    {partner : Option MachMsgDescriptor} {w : Overwrite}
    (h : overwriteOf copySize cleaned k d partner=some w) :
    ∃ s,partner=some s ∧ s.copy=machMsgOverwrite ∧ w.descriptor=k ∧ w.address=s.address ∧
      (d.isOol=true ∧ d.address≠0 ∧
          w.bytes=(if cleaned then none else some (copySize d.address)) ∨
        d.isOol=false ∧ w.bytes=some (d.size*4).toNat) := by
  rw [overwriteOf,Option.bind_eq_some_iff] at h
  obtain ⟨address,htarget,h⟩ := h
  rw [target,Option.bind_eq_some_iff] at htarget
  obtain ⟨s,rfl,hs⟩ := htarget
  split_ifs at hs with hcopy
  cases hs
  refine ⟨s,rfl,hcopy,?_⟩
  cases hool : d.isOol with
  | true =>
    rw [hool,if_pos rfl] at h
    by_cases haddress : d.address=0
    · rw [if_pos haddress] at h
      cases h
    · rw [if_neg haddress] at h
      cases h
      exact ⟨rfl,rfl,Or.inl ⟨rfl,haddress,rfl⟩⟩
  | false =>
    rw [hool,if_neg Bool.false_ne_true] at h
    split_ifs at h
    cases h
    exact ⟨rfl,rfl,Or.inr ⟨rfl,rfl⟩⟩

lemma size_le_of_agrees {d s : MachMsgDescriptor} (hagree : agrees d s=true)
    (hcopy : s.copy=machMsgOverwrite) : d.size.toNat ≤ s.size.toNat := by
  have hsize : ¬s.size<d.size := by
    rw [agrees] at hagree
    split_ifs at hagree <;> simpa [hcopy] using (Bool.and_eq_true_iff.mp hagree).2
  rwa [BitVec.not_lt,BitVec.le_def] at hsize

lemma stated_le {d s : MachMsgDescriptor} (hsize : d.size.toNat ≤ s.size.toNat) :
    (d.size*4).toNat≤4*s.size.toNat := by
  rw [BitVec.toNat_mul]
  refine (Nat.mod_le _ _).trans ?_
  change d.size.toNat*4≤_
  omega

variable {supplied : Supplied} {kalloc copyin : Bool} {slist : MachMsgBody}

lemma scatterSafe_none (hbody : Copied copySize body)
    (h : ipcKmsgCopyinScatter supplied kalloc copyin body=some none) :
    ScatterSafe copySize results supplied kalloc copyin body := by
  have hnone : RemainsAt none [] false := rfl
  obtain ⟨ds,st,hcall,hover⟩ :=
    copyoutLoop_spec results hbody hnone fun hcut => Bool.false_ne_true hcut.1
  refine ⟨none,h,ds,st,hcall,fun w hw => ?_⟩
  obtain ⟨k,d,partner,cleaned,hpair,-,hw⟩ := (hover w).mp hw
  obtain ⟨s,rfl,-⟩ := overwriteOf_eq_some hw
  have hmem := hpair.mem_zip
  rw [zip_nil_right] at hmem
  exact absurd hmem not_mem_nil

lemma scatterSafe_accepted (hbody : Copied copySize body)
    (hload : loadScatter supplied kalloc copyin=some slist) (hover : ¬Overruns slist body)
    (haccepts : Accepts slist body) : ScatterSafe copySize results supplied kalloc copyin body ↔
      ¬CleanedFirst results slist body := by
  have haccepted := (copyinScatter_spec body hload).2.1 hover haccepts
  obtain ⟨hsend,hsize⟩ := loadScatter_some hload
  have hstart : RemainsAt (some slist.descriptors) slist.scatter
      (decide (slist.size.toNat<4+12*slist.reach)) := MachMsgBody.remains hsend hsize
  obtain ⟨ds,st,hcall,hwrites⟩ := copyoutLoop_spec results hbody hstart
    fun hcut => hover ⟨of_decide_eq_true hcut.1,hcut.2,haccepts.2⟩
  constructor
  · rintro ⟨accepted,haccepted',ds',st',hcall',hsafe⟩ ⟨k,d,s,hpair,hool,haddress,hcopy,hclean⟩
    rw [haccepted] at haccepted'
    cases haccepted'
    have hsame := hcall.symm.trans hcall'
    cases hsame
    have hw : (⟨k,s.address,none⟩ : Overwrite)∈st.overwrites :=
      (hwrites _).mpr ⟨k,d,some s,true,hpair,⟨fun _ => hclean,fun _ => rfl⟩,by
        simpa [overwriteOf,target,hcopy,hool] using haddress⟩
    obtain ⟨-,-,-,-,-,-,-,n,hn,-⟩ := hsafe _ hw
    cases hn
  · intro hno
    refine ⟨some slist,haccepted,ds,st,hcall,fun w hw => ?_⟩
    obtain ⟨k,d,partner,cleaned,hpair,hclean,hw⟩ := (hwrites w).mp hw
    obtain ⟨s,rfl,hcopy,hk,haddress,hbytes⟩ := overwriteOf_eq_some hw
    have hle := size_le_of_agrees (haccepts.2 (d,s) hpair.mem_zip) hcopy
    refine ⟨slist,d,s,rfl,hk▸hpair,hcopy,haddress,?_⟩
    rcases hbytes with ⟨hool,hne,hbytes⟩ | ⟨hool,hbytes⟩
    · have hlive : cleaned=false := by
        by_contra hc
        exact hno ⟨k,d,s,hpair,hool,hne,hcopy,hclean.mp (Bool.eq_true_of_not_eq_false hc)⟩
      rw [hlive,if_neg Bool.false_ne_true] at hbytes
      refine ⟨_,hbytes,?_⟩
      rw [stated,hool,if_pos rfl,(hbody d (mem_of_getElem? hpair.1)).2 hool hne]
      exact hle
    · refine ⟨_,hbytes,?_⟩
      rw [stated,hool,if_neg Bool.false_ne_true]
      exact stated_le hle

/-- The kernel stays within what the receiver supplied exactly if the product in the test of the
list's size does not wrap so that the pairing comes to a descriptor behind the end of the list, and
no failed allocation has the message cleaned before data of it is to overwrite memory. -/
theorem scatterSafe_iff (hbody : Copied copySize body) :
    ScatterSafe copySize results supplied kalloc copyin body ↔
      ∀ slist,loadScatter supplied kalloc copyin=some slist →
        ¬Overruns slist body ∧ (Accepts slist body → ¬CleanedFirst results slist body) := by
  constructor
  · intro h slist hload
    obtain ⟨hspec,-,-⟩ := copyinScatter_spec body hload
    have hover : ¬Overruns slist body := fun hover => by
      obtain ⟨accepted,haccepted,-⟩ := h
      rw [hspec hover] at haccepted
      cases haccepted
    exact ⟨hover,fun haccepts => (scatterSafe_accepted hbody hload hover haccepts).mp h⟩
  · intro h
    rcases hload : loadScatter supplied kalloc copyin with _ | slist
    · refine scatterSafe_none hbody ?_
      rw [ipcKmsgCopyinScatter,hload]
    · obtain ⟨hover,hclean⟩ := h slist hload
      by_cases haccepts : Accepts slist body
      · exact (scatterSafe_accepted hbody hload hover haccepts).mpr (hclean haccepts)
      · exact scatterSafe_none hbody ((copyinScatter_spec body hload).2.2 hover haccepts)

def eightBytes : MachMsgDescriptor := ⟨0x1000,8,1,0,machMsgOolDescriptor⟩

def eightOverwritten : MachMsgDescriptor := ⟨0x2000,8,machMsgOverwrite,0,machMsgOolDescriptor⟩

def allSucceed : Results := ⟨fun _ => 0,fun _ => 0,fun _ => .success,fun _ => 0⟩

lemma copied_eightBytes : Copied (fun _ => 8) [eightBytes] := by
  intro d hd
  rw [mem_singleton] at hd
  subst hd
  exact ⟨Or.inr (Or.inl (by decide)),fun _ _ => rfl⟩

theorem scatterSafe_iff_eight :
    ScatterSafe (fun _ => 8) allSucceed ⟨40,1,fun _ => eightOverwritten⟩ true true
      [eightBytes] := by
  refine (scatterSafe_iff copied_eightBytes).mpr fun slist hload => ?_
  have hlist : loadScatter ⟨40,1,fun _ => eightOverwritten⟩ true true =
      some ⟨16,1,fun _ => eightOverwritten⟩ := rfl
  obtain rfl := Option.some.inj (hlist.symm.trans hload)
  refine ⟨fun hover => absurd hover.1 (by decide),fun _ hfirst => ?_⟩
  obtain ⟨k,d,s,hpair,-,-,-,j,hj,-⟩ := hfirst
  have hk := (List.getElem?_eq_some_iff.mp hpair.1).1
  rw [length_singleton] at hk
  omega

/-- The size of a list of 12 bytes passes although its count stands for 2^32 + 8 bytes, and its one
descriptor is read although the list ends four bytes before it does. -/
theorem scatter_count_wraps :
    ¬ScatterSafe (fun _ => 8) allSucceed ⟨36,0x15555556,fun _ => eightOverwritten⟩ true true
      [eightBytes] := by
  rintro ⟨accepted,haccepted,-⟩
  have hnone : ipcKmsgCopyinScatter ⟨36,0x15555556,fun _ => eightOverwritten⟩ true true
      [eightBytes]=none := by
    decide
  rw [hnone] at haccepted
  cases haccepted

end Safety

end Darwin.Ipc.Scatter
