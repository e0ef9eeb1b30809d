import Mathlib.Data.BitVec
import Mathlib.Data.List.GetD
import Mathlib.Tactic

/-! The rights and the memory of a message in `ipc_kmsg_copyout_body` and `ipc_kmsg_clean_body` of
`ipc/ipc_kmsg.c`, whichever of the steps fail. -/
open List
namespace Darwin.Ipc.CopyoutBody

/-- A right of the message, by the place where it came in. -/
structure Right where
  descriptor : ℕ
  index : ℕ
  deriving DecidableEq

/-- A field that holds an object, and its name when it has been copied out. -/
inductive Port
  | null | dead
  | object (right : Right)
  | name (name : BitVec 32)
  deriving DecidableEq

/-- The address of out-of-line data, which are a copy object in the kernel. -/
inductive OolAddress
  | null | copy
  | user (address : BitVec 32)
  deriving DecidableEq

/-- The address of an array of rights, or of their names in memory of the receiver. -/
inductive PortsAddress
  | null
  | array (objects : List Port)
  | user (address : BitVec 32) (names : List Port)
  deriving DecidableEq

inductive Descriptor
  | port (name : Port)
  | ool (address : OolAddress) (size : BitVec 32) (copy : UInt8)
  | oolPorts (address : PortsAddress) (count : BitVec 32) (copy : UInt8)
  deriving DecidableEq

def machMsgAllocate : UInt8 := 2
def machMsgOverwrite : UInt8 := 3
def machMsgIpcSpace : BitVec 32 := 0x2000
def machMsgVmSpace : BitVec 32 := 0x1000
def machMsgIpcKernel : BitVec 32 := 0x800
def machMsgVmKernel : BitVec 32 := 0x400

/-- A right, or the memory that a descriptor has in the kernel. -/
inductive Item
  | right (right : Right)
  | region (descriptor : ℕ)
  deriving DecidableEq

/-- What becomes of an item. What is taken for an object or for memory of the kernel and is none
gives `stray`. -/
inductive Event
  | given (item : Item)
  | destroyed (item : Item)
  | stray
  deriving DecidableEq

def Event.item : Event → Option Item
  | given item => some item
  | destroyed item => some item
  | stray => none

inductive KernReturn
  | success | resourceShortage | invalidCapability | failure
  deriving DecidableEq

/-- What the calls of the kernel return. -/
structure Results where
  /-- The copy-out of an object, with its name. -/
  object : Right → KernReturn
  name : Right → BitVec 32
  /-- The call on the receiver's map for a descriptor, with the address. -/
  vm : ℕ → KernReturn
  region : ℕ → BitVec 32
  /-- Where the scatter list has the data of a descriptor written to. -/
  overwrite : ℕ → Option (BitVec 32)

/-! ### `ipc_kmsg_clean_body` -/

def destroyPort : Port → List Event
  | .null => []
  | .dead => []
  | .object right => [.destroyed (.right right)]
  | .name _ => [.stray]

def vmMapCopyDiscard (i : ℕ) : OolAddress → List Event
  | .null => []
  | .copy => [.destroyed (.region i)]
  | .user address => if address=0 then [] else [.stray]

def cleanDescriptor (i : ℕ) : Descriptor → List Event
  | .port name => destroyPort name
  | .ool address size _ => if size=0 then [] else vmMapCopyDiscard i address
  | .oolPorts (.array objects) count _ =>
    if count=0 then [] else objects.flatMap destroyPort++[.destroyed (.region i)]
  | .oolPorts _ count _ => if count=0 then [] else [.stray]

def ipcKmsgCleanBody (body : List Descriptor) : List Event :=
  (body.mapIdx cleanDescriptor).flatten

/-! ### `ipc_kmsg_copyout_body` -/

/-- A field, the error bits and what becomes of items. -/
structure Outcome (α : Type) where
  field : α
  mr : BitVec 32
  events : List Event

section Copyout

variable (results : Results)

def ipcKmsgCopyoutObject : Port → Outcome Port
  | .null => ⟨.null,0,[]⟩
  | .dead => ⟨.dead,0,[]⟩
  | .name name => ⟨.name name,0,[.stray]⟩
  | .object right =>
    match results.object right with
    | .success => ⟨.name (results.name right),0,[.given (.right right)]⟩
    | .invalidCapability => ⟨.dead,0,[.destroyed (.right right)]⟩
    | .resourceShortage => ⟨.null,machMsgIpcKernel,[.destroyed (.right right)]⟩
    | .failure => ⟨.null,machMsgIpcSpace,[.destroyed (.right right)]⟩

def vmError (kr : KernReturn) : BitVec 32 :=
  if kr=.resourceShortage then machMsgVmKernel else machMsgVmSpace

def copyoutOol (k : ℕ) (address : OolAddress) (size : BitVec 32) (copy : UInt8) :
    Outcome Descriptor :=
  match address with
  | .null => ⟨.ool .null size copy,0,[]⟩
  | .user address => ⟨.ool (.user address) size copy,0,[.stray]⟩
  | .copy =>
    let copy := if (results.overwrite k).isSome then machMsgOverwrite else machMsgAllocate
    if results.vm k=.success then
      ⟨.ool (.user ((results.overwrite k).getD (results.region k))) size copy,0,
        [.given (.region k)]⟩
    else ⟨.ool .null size copy,vmError (results.vm k),[.destroyed (.region k)]⟩

/-- The rights of an array, and the array, which is freed when the names have been copied to the
receiver's memory. -/
def copyoutArray (k : ℕ) (address : PortsAddress) (count : BitVec 32) (copy : UInt8)
    (addr : BitVec 32) : Outcome Descriptor :=
  match address with
  | .array objects =>
    let outcomes := objects.map (ipcKmsgCopyoutObject results)
    ⟨.oolPorts (.user addr (outcomes.map Outcome.field)) count copy,
      outcomes.foldl (fun mr outcome => mr|||outcome.mr) 0,
      outcomes.flatMap Outcome.events++[.destroyed (.region k)]⟩
  | address => ⟨.oolPorts address count copy,0,[.stray]⟩

/-- `clean` is what `ipc_kmsg_clean_body` does with the message as it is then. -/
def copyoutOolPorts (k : ℕ) (clean : List Event) (address : PortsAddress) (count : BitVec 32)
    (copy : UInt8) : Outcome Descriptor :=
  if count*4=0 then ⟨.oolPorts address count copy,0,[]⟩
  else
    match results.overwrite k with
    | some addr => copyoutArray results k address count machMsgOverwrite addr
    | none =>
      if results.vm k=.success then
        copyoutArray results k address count machMsgAllocate (results.region k)
      else ⟨.oolPorts .null count machMsgAllocate,vmError (results.vm k),clean⟩

def copyoutDescriptor (k : ℕ) (clean : List Event) : Descriptor → Outcome Descriptor
  | .port name =>
    let outcome := ipcKmsgCopyoutObject results name
    ⟨.port outcome.field,outcome.mr,outcome.events⟩
  | .ool address size copy => copyoutOol results k address size copy
  | .oolPorts address count copy => copyoutOolPorts results k clean address count copy

def copyoutStep (st : Outcome (List Descriptor)) (k : ℕ) : Outcome (List Descriptor) :=
  match st.field[k]? with
  | none => st
  | some dsc =>
    let outcome := copyoutDescriptor results k (ipcKmsgCleanBody st.field) dsc
    ⟨st.field.set k outcome.field,st.mr|||outcome.mr,st.events++outcome.events⟩

def ipcKmsgCopyoutBody (body : List Descriptor) : Outcome (List Descriptor) :=
  (range body.length).foldl (copyoutStep results) ⟨body,0,[]⟩

end Copyout

end Darwin.Ipc.CopyoutBody

/-! When each right and each region of a message is given to the receiver or destroyed, once. -/
namespace Darwin.Ipc.CopyoutBody

/-! ### The items of a message -/

def portItems : Port → List Item
  | .object right => [.right right]
  | _ => []

def items (i : ℕ) : Descriptor → List Item
  | .port name => portItems name
  | .ool .copy _ _ => [.region i]
  | .oolPorts (.array objects) count _ =>
    if count=0 then [] else objects.flatMap portItems++[.region i]
  | _ => []

def bodyItems (body : List Descriptor) : List Item := (body.mapIdx items).flatten

def ReceivedPort (i j : ℕ) (port : Port) : Prop :=
  port=.null ∨ port=.dead ∨ port=.object ⟨i,j⟩

/-- A descriptor as it is after the copy-in of a message. Where the size of an array wraps to zero,
there is no array. -/
def ReceivedAt (i : ℕ) : Descriptor → Prop
  | .port name => ReceivedPort i 0 name
  | .ool address size _ => address=.null ∧ size=0 ∨ address=.copy ∧ size≠0
  | .oolPorts address count _ => address=.null ∧ count*4=0 ∨
    count*4≠0 ∧ ∃ objects,address=.array objects ∧ objects.length=count.toNat ∧
      ∀ j port,objects[j]?=some port → ReceivedPort i j port

def Received (body : List Descriptor) : Prop :=
  ∀ i dsc,body[i]?=some dsc → ReceivedAt i dsc

/-! ### What is promised -/

def Owned (events : List Event) (right : Right) : Port → Prop
  | .null => True
  | .dead => True
  | .object _ => False
  | .name _ => .given (.right right)∈events

/-- A descriptor reports names and an address only of what the receiver owns: memory for names was
its own or has been allocated. -/
def ReportsOwned (results : Results) (events : List Event) (i : ℕ) : Descriptor → Prop
  | .port name => Owned events ⟨i,0⟩ name
  | .ool .null _ _ => True
  | .ool .copy _ _ => False
  | .ool (.user _) _ _ => .given (.region i)∈events
  | .oolPorts (.user address names) _ _ =>
    (results.overwrite i=some address ∨ results.vm i=.success ∧ results.region i=address) ∧
      ∀ j name,names[j]?=some name → Owned events ⟨i,j⟩ name
  | .oolPorts .null _ _ => True
  | .oolPorts (.array _) _ _ => False

/-- Each item is given or destroyed once, and nothing else is. -/
structure ConsumedOnce (results : Results) (body : List Descriptor)
    (outcome : Outcome (List Descriptor)) : Prop where
  once : ∀ item∈bodyItems body,(outcome.events.map Event.item).count (some item)=1
  nothingElse : ∀ event∈outcome.events,∃ item∈bodyItems body,event.item=some item
  reports : ∀ i dsc,outcome.field[i]?=some dsc → ReportsOwned results outcome.events i dsc

variable (results : Results)

def Fails (k : ℕ) : Descriptor → Prop
  | .oolPorts _ count _ =>
    count*4≠0 ∧ results.overwrite k=none ∧ results.vm k≠.success
  | _ => False

def Carries : Descriptor → Prop
  | .port name => name≠.null ∧ name≠.dead
  | .ool _ size _ => size≠0
  | .oolPorts _ count _ => count≠0

/-- After its copy-out a descriptor holds something that cleaning the message takes for an object or
for memory of the kernel. -/
def Leaves (j : ℕ) : Descriptor → Prop
  | .port (.object right) => results.object right=.success
  | .ool .copy _ _ =>
    results.vm j=.success ∧ (results.overwrite j).getD (results.region j)≠0
  | .oolPorts _ count _ => count≠0
  | _ => False

/-- Where an allocation fails, the descriptors before it leave nothing and those behind it carry
nothing. -/
def Harmless (body : List Descriptor) : Prop :=
  ∀ k dsc,body[k]?=some dsc → Fails results k dsc → ∀ j dsc',body[j]?=some dsc' →
    (j<k → ¬Leaves results j dsc') ∧ (k<j → ¬Carries dsc')

/-! ### One descriptor -/

variable {results} {k : ℕ} {dsc : Descriptor} {body : List Descriptor} {clean : List Event}

lemma count_ne_zero {count : BitVec 32} (h : count*4≠0) : count≠0 := by
  rintro rfl
  exact h rfl

variable {port : Port}

lemma item_destroyPort {i j : ℕ} (h : ReceivedPort i j port) :
    (destroyPort port).map Event.item=(portItems port).map some := by
  rcases h with rfl | rfl | rfl <;> rfl

lemma item_copyoutObject {i j : ℕ} (h : ReceivedPort i j port) :
    (ipcKmsgCopyoutObject results port).events.map Event.item=(portItems port).map some := by
  rcases h with rfl | rfl | rfl
  · rfl
  · rfl
  · rw [ipcKmsgCopyoutObject]
    cases results.object ⟨i,j⟩ <;> rfl

lemma item_flatMap {i : ℕ} {objects : List Port} {f : Port → List Event}
    (hobjects : ∀ j port,objects[j]?=some port → ReceivedPort i j port)
    (hf : ∀ j port,ReceivedPort i j port → (f port).map Event.item=(portItems port).map some) :
    (objects.flatMap f).map Event.item=(objects.flatMap portItems).map some := by
  rw [map_flatMap,map_flatMap]
  refine flatMap_congr fun port hport => ?_
  obtain ⟨j,hj⟩ := mem_iff_getElem?.mp hport
  exact hf j port (hobjects j port hj)

lemma item_cleanDescriptor (h : ReceivedAt k dsc) : .stray∈cleanDescriptor k dsc ∨
      (cleanDescriptor k dsc).map Event.item=(items k dsc).map some := by
  cases dsc with
  | port name => exact Or.inr (item_destroyPort h)
  | ool address size copy =>
    rcases h with ⟨rfl,rfl⟩ | ⟨rfl,hsize⟩
    · exact Or.inr rfl
    · rw [cleanDescriptor,if_neg hsize]
      exact Or.inr rfl
  | oolPorts address count copy =>
    rcases h with ⟨rfl,-⟩ | ⟨hcount,objects,rfl,hlength,hobjects⟩
    · simp only [cleanDescriptor]
      split_ifs
      · exact Or.inr rfl
      · exact Or.inl (mem_singleton_self _)
    · right
      rw [cleanDescriptor,items,if_neg (count_ne_zero hcount),if_neg (count_ne_zero hcount),
        map_append,map_append,item_flatMap hobjects fun j port => item_destroyPort]
      rfl

lemma item_cleanDescriptor_of_fails (h : ReceivedAt k dsc) (hfails : Fails results k dsc) :
    (cleanDescriptor k dsc).map Event.item=(items k dsc).map some := by
  refine (item_cleanDescriptor h).resolve_left fun hstray => ?_
  cases dsc with
  | port name => exact hfails
  | ool address size copy => exact hfails
  | oolPorts address count copy =>
    rcases h with ⟨-,hzero⟩ | ⟨hcount,objects,rfl,hlength,hobjects⟩
    · exact hfails.1 hzero
    · rw [cleanDescriptor,if_neg (count_ne_zero hcount)] at hstray
      have hitem := mem_map_of_mem (f := Event.item) hstray
      rw [map_append,item_flatMap hobjects fun j port => item_destroyPort] at hitem
      simp [Event.item] at hitem

lemma cleanDescriptor_of_not_carries (h : ReceivedAt k dsc) (hno : ¬Carries dsc) :
    cleanDescriptor k dsc=[] := by
  cases dsc with
  | port name =>
    rcases h with rfl | rfl | rfl
    · rfl
    · rfl
    · exact absurd ⟨Port.noConfusion,Port.noConfusion⟩ hno
  | ool address size copy => exact if_pos (not_not.mp hno)
  | oolPorts address count copy =>
    cases address with
    | null => exact if_pos (not_not.mp hno)
    | array objects => exact if_pos (not_not.mp hno)
    | user address names => exact if_pos (not_not.mp hno)

lemma cleanDescriptor_of_carries (h : ReceivedAt k dsc) (hcarries : Carries dsc) :
    cleanDescriptor k dsc≠[] := by
  cases dsc with
  | port name =>
    rcases h with rfl | rfl | rfl
    · exact absurd rfl hcarries.1
    · exact absurd rfl hcarries.2
    · exact cons_ne_nil _ _
  | ool address size copy =>
    rcases h with ⟨-,hzero⟩ | ⟨rfl,hsize⟩
    · exact absurd hzero hcarries
    · rw [cleanDescriptor,if_neg hsize]
      exact cons_ne_nil _ _
  | oolPorts address count copy =>
    have hne : count≠0 := hcarries
    cases address with
    | null =>
      simp only [cleanDescriptor,if_neg hne]
      exact cons_ne_nil _ _
    | array objects =>
      simp only [cleanDescriptor,if_neg hne]
      exact append_ne_nil_of_right_ne_nil _ (cons_ne_nil _ _)
    | user address names =>
      simp only [cleanDescriptor,if_neg hne]
      exact cons_ne_nil _ _

lemma copyoutDescriptor_events (results : Results) (clean : List Event) (h : ReceivedAt k dsc) :
    (¬Fails results k dsc →
      (copyoutDescriptor results k clean dsc).events.map Event.item=(items k dsc).map some) ∧
    (Fails results k dsc → (copyoutDescriptor results k clean dsc).events=clean) := by
  cases dsc with
  | port name => exact ⟨fun _ => item_copyoutObject h,False.elim⟩
  | ool address size copy =>
    refine ⟨fun _ => ?_,False.elim⟩
    rcases h with ⟨rfl,rfl⟩ | ⟨rfl,hsize⟩
    · rfl
    · simp only [copyoutDescriptor,copyoutOol]
      split_ifs <;> rfl
  | oolPorts address count copy =>
    rw [copyoutDescriptor,copyoutOolPorts]
    rcases h with ⟨rfl,hzero⟩ | ⟨hcount,objects,rfl,hlength,hobjects⟩
    · rw [if_pos hzero]
      exact ⟨fun _ => rfl,fun hfails => absurd hzero hfails.1⟩
    · rw [if_neg hcount]
      have harray : ∀ copy addr,
          (copyoutArray results k (.array objects) count copy addr).events.map Event.item =
            (items k (.oolPorts (.array objects) count copy)).map some := by
        intro copy addr
        rw [copyoutArray,items,if_neg (count_ne_zero hcount),map_append,map_append,
          flatMap_map,item_flatMap hobjects fun j port => item_copyoutObject]
        rfl
      cases hoverwrite : results.overwrite k with
      | some addr =>
        refine ⟨fun _ => harray _ _,fun hfails => ?_⟩
        rw [Fails,hoverwrite] at hfails
        cases hfails.2.1
      | none =>
        by_cases hvm : results.vm k=.success
        · simp only [if_pos hvm]
          exact ⟨fun _ => harray _ _,fun hfails => absurd hvm hfails.2.2⟩
        · simp only [if_neg hvm]
          exact ⟨fun hworks => absurd ⟨hcount,hoverwrite,hvm⟩ hworks,fun _ => trivial⟩

def afterwards (results : Results) (k : ℕ) (dsc : Descriptor) : Descriptor :=
  (copyoutDescriptor results k [] dsc).field

lemma copyoutDescriptor_field (clean : List Event) :
    (copyoutDescriptor results k clean dsc).field=afterwards results k dsc := by
  rw [afterwards]
  cases dsc with
  | port name => rfl
  | ool address size copy => rfl
  | oolPorts address count copy =>
    simp only [copyoutDescriptor,copyoutOolPorts]
    by_cases hzero : count*4=0
    · simp only [if_pos hzero]
    · simp only [if_neg hzero]
      cases results.overwrite k with
      | some addr => rfl
      | none =>
        simp only
        split_ifs <;> rfl

lemma cleanDescriptor_afterwards (h : ReceivedAt k dsc) :
    (¬Leaves results k dsc → cleanDescriptor k (afterwards results k dsc)=[]) ∧
    (Leaves results k dsc → .stray∈cleanDescriptor k (afterwards results k dsc)) := by
  cases dsc with
  | port name =>
    rcases h with rfl | rfl | rfl
    · exact ⟨fun _ => rfl,False.elim⟩
    · exact ⟨fun _ => rfl,False.elim⟩
    · simp only [Leaves,afterwards,copyoutDescriptor,ipcKmsgCopyoutObject]
      cases results.object ⟨k,0⟩ with
      | success => exact ⟨fun hno => absurd rfl hno,fun _ => mem_singleton_self _⟩
      | resourceShortage => exact ⟨fun _ => rfl,fun hyes => by cases hyes⟩
      | invalidCapability => exact ⟨fun _ => rfl,fun hyes => by cases hyes⟩
      | failure => exact ⟨fun _ => rfl,fun hyes => by cases hyes⟩
  | ool address size copy =>
    rcases h with ⟨rfl,rfl⟩ | ⟨rfl,hsize⟩
    · exact ⟨fun _ => rfl,False.elim⟩
    · simp only [Leaves,afterwards,copyoutDescriptor,copyoutOol]
      by_cases hvm : results.vm k=.success
      · simp only [if_pos hvm,cleanDescriptor,if_neg hsize,vmMapCopyDiscard]
        refine ⟨fun hno => if_pos (not_not.mp fun hne => hno ⟨hvm,hne⟩),fun hyes => ?_⟩
        rw [if_neg hyes.2]
        exact mem_singleton_self _
      · simp only [if_neg hvm,cleanDescriptor,if_neg hsize,vmMapCopyDiscard]
        exact ⟨fun _ => trivial,fun hyes => absurd hyes.1 hvm⟩
  | oolPorts address count copy =>
    by_cases hzero : count=0
    · subst hzero
      refine ⟨fun _ => ?_,fun hyes => absurd rfl hyes⟩
      cases address <;> rfl
    · refine ⟨fun hno => absurd hzero hno,fun _ => ?_⟩
      have hstray : Event.stray ∈ [Event.stray] := mem_singleton_self _
      rcases h with ⟨rfl,hwrapped⟩ | ⟨hcount,objects,rfl,-⟩
      · simpa only [afterwards,copyoutDescriptor,copyoutOolPorts,if_pos hwrapped,
          cleanDescriptor,if_neg hzero] using hstray
      · simp only [afterwards,copyoutDescriptor,copyoutOolPorts,copyoutArray,if_neg hcount]
        cases results.overwrite k with
        | some addr => simpa only [cleanDescriptor,if_neg hzero] using hstray
        | none =>
          simp only
          split_ifs
          · simpa only [cleanDescriptor,if_neg hzero] using hstray
          · simpa only [cleanDescriptor,if_neg hzero] using hstray

lemma owned_copyoutObject {i j : ℕ} (h : ReceivedPort i j port) :
    Owned (ipcKmsgCopyoutObject results port).events ⟨i,j⟩
      (ipcKmsgCopyoutObject results port).field := by
  rcases h with rfl | rfl | rfl
  · trivial
  · trivial
  · rw [ipcKmsgCopyoutObject]
    cases results.object ⟨i,j⟩ with
    | success => exact mem_singleton_self _
    | resourceShortage => trivial
    | invalidCapability => trivial
    | failure => trivial

lemma Owned.mono {events events' : List Event} {right : Right}
    (h : Owned events right port) (hsub : events⊆events') : Owned events' right port := by
  cases port with
  | null => trivial
  | dead => trivial
  | object right => exact h
  | name name => exact hsub h

lemma ReportsOwned.mono {events events' : List Event} 
    (h : ReportsOwned results events k dsc) (hsub : events⊆events') :
    ReportsOwned results events' k dsc := by
  cases dsc with
  | port name => exact Owned.mono h hsub
  | ool address size copy =>
    cases address with
    | null => trivial
    | copy => exact h
    | user address => exact hsub h
  | oolPorts address count copy =>
    cases address with
    | null => trivial
    | array objects => exact h
    | user address names => exact ⟨h.1,fun j name hname => (h.2 j name hname).mono hsub⟩

lemma reports_copyoutDescriptor (h : ReceivedAt k dsc) :
    ReportsOwned results (copyoutDescriptor results k clean dsc).events k
      (copyoutDescriptor results k clean dsc).field := by
  cases dsc with
  | port name => exact owned_copyoutObject h
  | ool address size copy =>
    rcases h with ⟨rfl,rfl⟩ | ⟨rfl,hsize⟩
    · trivial
    · simp only [copyoutDescriptor,copyoutOol]
      by_cases hvm : results.vm k=.success
      · rw [if_pos hvm]
        exact mem_singleton_self _
      · rw [if_neg hvm]
        trivial
  | oolPorts address count copy =>
    rw [copyoutDescriptor,copyoutOolPorts]
    rcases h with ⟨rfl,hzero⟩ | ⟨hcount,objects,rfl,hlength,hobjects⟩
    · rw [if_pos hzero]
      trivial
    · rw [if_neg hcount]
      have harray : ∀ copy addr,results.overwrite k=some addr ∨
          results.vm k=.success ∧ results.region k=addr →
          ReportsOwned results (copyoutArray results k (.array objects) count copy addr).events k
            (copyoutArray results k (.array objects) count copy addr).field := by
        refine fun copy addr howned => ⟨howned,fun j name hname => ?_⟩
        rw [map_map,getElem?_map,Option.map_eq_some_iff] at hname
        obtain ⟨port,hport,rfl⟩ := hname
        refine (owned_copyoutObject (hobjects j port hport)).mono fun event hevent => ?_
        refine mem_append_left _ (mem_flatMap.mpr ⟨_,?_,hevent⟩)
        exact mem_map_of_mem (mem_of_getElem? hport)
      cases hoverwrite : results.overwrite k with
      | some addr => exact harray _ _ (Or.inl hoverwrite)
      | none =>
        by_cases hvm : results.vm k=.success
        · simp only [if_pos hvm]
          exact harray _ _ (Or.inr ⟨hvm,rfl⟩)
        · simp only [if_neg hvm]
          trivial

/-! ### The loop -/

def bodyAt (results : Results) (body : List Descriptor) (n : ℕ) : List Descriptor :=
  body.mapIdx fun j dsc => if j<n then afterwards results j dsc else dsc

def eventsAt (results : Results) (body : List Descriptor) (k : ℕ) : List Event :=
  (body[k]?).elim [] fun dsc =>
    (copyoutDescriptor results k (ipcKmsgCleanBody (bodyAt results body k)) dsc).events

lemma getElem?_bodyAt (results : Results) (body : List Descriptor) (n j : ℕ) :
    (bodyAt results body n)[j]? =
      (body[j]?).map fun dsc => if j<n then afterwards results j dsc else dsc :=
  getElem?_mapIdx

lemma bodyAt_succ (hk : body[k]?=some dsc) :
    (bodyAt results body k).set k (afterwards results k dsc)=bodyAt results body (k+1) := by
  apply ext_getElem?
  intro j
  rw [getElem?_set,getElem?_bodyAt results body (k+1)]
  by_cases hj : k=j
  · subst hj
    have hlt : k<(bodyAt results body k).length := by
      rw [bodyAt,length_mapIdx]
      exact (List.getElem?_eq_some_iff.mp hk).1
    rw [if_pos rfl,if_pos hlt,hk,Option.map_some,if_pos (Nat.lt_succ_self k)]
  · rw [if_neg hj,getElem?_bodyAt]
    have hiff : j<k+1 ↔ j<k := by omega
    simp only [hiff]

lemma copyoutSteps_spec (results : Results) (body : List Descriptor) (n : ℕ)
    (hn : n≤body.length) :
    ((range n).foldl (copyoutStep results) ⟨body,0,[]⟩).field=bodyAt results body n ∧
    ((range n).foldl (copyoutStep results) ⟨body,0,[]⟩).events =
      (range n).flatMap (eventsAt results body) := by
  induction n with
  | zero =>
    refine ⟨?_,rfl⟩
    apply ext_getElem?
    intro j
    rw [getElem?_bodyAt]
    cases hj : body[j]? with
    | none => exact hj
    | some dsc =>
      rw [Option.map_some,if_neg (Nat.not_lt_zero j)]
      exact hj
  | succ n ih =>
    obtain ⟨hfield,hevents⟩ := ih (Nat.le_of_succ_le hn)
    obtain ⟨dsc,hdsc⟩ : ∃ dsc,body[n]?=some dsc :=
      ⟨body[n],getElem?_eq_getElem (Nat.lt_of_succ_le hn)⟩
    have hbefore : (bodyAt results body n)[n]?=some dsc := by
      rw [getElem?_bodyAt,hdsc,Option.map_some,if_neg (Nat.lt_irrefl n)]
    rw [range_succ,foldl_append,foldl_cons,foldl_nil,flatMap_append,
      flatMap_singleton,copyoutStep,hfield,hbefore]
    refine ⟨?_,?_⟩
    · simp only [copyoutDescriptor_field]
      exact bodyAt_succ hdsc
    · simp only [hevents,eventsAt,hdsc,Option.elim_some]

lemma copyoutBody_spec (results : Results) (body : List Descriptor) :
    (ipcKmsgCopyoutBody results body).field=bodyAt results body body.length ∧
    (ipcKmsgCopyoutBody results body).events =
      (range body.length).flatMap (eventsAt results body) :=
  copyoutSteps_spec results body body.length le_rfl

lemma mem_events {event : Event} (hk : body[k]?=some dsc)
    (h : event∈(copyoutDescriptor results k (ipcKmsgCleanBody (bodyAt results body k))
      dsc).events) : event∈(ipcKmsgCopyoutBody results body).events := by
  rw [(copyoutBody_spec results body).2,mem_flatMap]
  refine ⟨k,mem_range.mpr (List.getElem?_eq_some_iff.mp hk).1,?_⟩
  rw [eventsAt,hk]
  exact h

lemma copyoutBody_reports (hbody : Received body) {i : ℕ} {dsc' : Descriptor}
    (h : (ipcKmsgCopyoutBody results body).field[i]?=some dsc') :
    ReportsOwned results (ipcKmsgCopyoutBody results body).events i dsc' := by
  rw [(copyoutBody_spec results body).1,getElem?_bodyAt,Option.map_eq_some_iff] at h
  obtain ⟨dsc,hdsc,rfl⟩ := h
  rw [if_pos (List.getElem?_eq_some_iff.mp hdsc).1,
    ← copyoutDescriptor_field (ipcKmsgCleanBody (bodyAt results body i))]
  exact (reports_copyoutDescriptor (hbody i dsc hdsc)).mono fun event => mem_events hdsc

/-! ### Cleaning the message -/

lemma mem_cleanBody {event : Event} {j : ℕ} (hj : body[j]?=some dsc)
    (h : event∈cleanDescriptor j dsc) : event∈ipcKmsgCleanBody body := by
  rw [ipcKmsgCleanBody,mem_flatten]
  refine ⟨cleanDescriptor j dsc,?_,h⟩
  rw [mem_mapIdx]
  obtain ⟨hlt,rfl⟩ := List.getElem?_eq_some_iff.mp hj
  exact ⟨j,hlt,rfl⟩

lemma flatten_mapIdx_single {α β : Type} {f : ℕ → α → List β} {l : List α} {k : ℕ} {a : α}
    (hk : l[k]?=some a) (h : ∀ j b,l[j]?=some b → j≠k → f j b=[]) : (l.mapIdx f).flatten=f k a := by
  induction l generalizing f k with
  | nil => cases hk
  | cons b l ih =>
    rw [mapIdx_cons,flatten_cons]
    cases k with
    | zero =>
      cases hk
      have hrest : (l.mapIdx fun i => f (i+1)).flatten=[] := by
        rw [flatten_eq_nil_iff]
        intro events hevents
        obtain ⟨j,hj,rfl⟩ := mem_mapIdx.mp hevents
        exact h (j+1) _ (getElem?_eq_getElem hj) (Nat.succ_ne_zero j)
      rw [hrest,append_nil]
    | succ k =>
      rw [h 0 b rfl (Nat.succ_ne_zero k).symm,nil_append]
      exact ih hk fun j b hj hne => h (j+1) b hj fun heq => hne (Nat.succ.inj heq)

lemma cleanBody_single (hbody : Received body) (hk : body[k]?=some dsc)
    (h : ∀ j dsc',body[j]?=some dsc' → (j<k → ¬Leaves results j dsc') ∧ (k<j → ¬Carries dsc')) :
    ipcKmsgCleanBody (bodyAt results body k)=cleanDescriptor k dsc := by
  have hself : (bodyAt results body k)[k]?=some dsc := by
    rw [getElem?_bodyAt,hk,Option.map_some,if_neg (Nat.lt_irrefl k)]
  refine flatten_mapIdx_single hself fun j dsc' hj hne => ?_
  rw [getElem?_bodyAt,Option.map_eq_some_iff] at hj
  obtain ⟨before,hbefore,rfl⟩ := hj
  split_ifs with hlt
  · exact (cleanDescriptor_afterwards (hbody j before hbefore)).1 ((h j before hbefore).1 hlt)
  · exact cleanDescriptor_of_not_carries (hbody j before hbefore)
      ((h j before hbefore).2 (by omega))

/-! ### Each item once -/

lemma mapIdx_eq_map_range {α β : Type} (f : ℕ → α → List β) (l : List α) :
    l.mapIdx f=(range l.length).map fun k => (l[k]?).elim [] (f k) := by
  apply ext_getElem
  · rw [length_mapIdx,length_map,length_range]
  · intro k hk _
    rw [length_mapIdx] at hk
    rw [getElem_mapIdx,getElem_map,getElem_range,getElem?_eq_getElem hk,Option.elim_some]

lemma item_eventsAt (hbody : Received body) (hharmless : Harmless results body)
    (hk : body[k]?=some dsc) : (eventsAt results body k).map Event.item=(items k dsc).map some := by
  obtain ⟨hworks,hfails⟩ := copyoutDescriptor_events results
    (ipcKmsgCleanBody (bodyAt results body k)) (hbody k dsc hk)
  rw [eventsAt,hk,Option.elim_some]
  by_cases hfail : Fails results k dsc
  · rw [hfails hfail,cleanBody_single hbody hk (hharmless k dsc hk hfail)]
    exact item_cleanDescriptor_of_fails (hbody k dsc hk) hfail
  · exact hworks hfail

lemma item_events (hbody : Received body) (hharmless : Harmless results body) :
    (ipcKmsgCopyoutBody results body).events.map Event.item=(bodyItems body).map some := by
  rw [(copyoutBody_spec results body).2,bodyItems,mapIdx_eq_map_range,←flatMap_def,
    map_flatMap,map_flatMap]
  refine flatMap_congr fun k hk => ?_
  rw [mem_range] at hk
  have hdsc := getElem?_eq_getElem hk
  rw [item_eventsAt hbody hharmless hdsc,hdsc,Option.elim_some]

def Item.descriptor : Item → ℕ
  | .right r => r.descriptor
  | .region i => i

lemma portItems_received {i j : ℕ} (h : ReceivedPort i j port) {item : Item}
    (hitem : item∈portItems port) : item=.right ⟨i,j⟩ := by
  rcases h with rfl | rfl | rfl
  · cases hitem
  · cases hitem
  · exact mem_singleton.mp hitem

lemma items_received (h : ReceivedAt k dsc) :
    (items k dsc).Nodup ∧ ∀ item∈items k dsc,item.descriptor=k := by
  cases dsc with
  | port name =>
    refine ⟨?_,fun item hitem => ?_⟩
    · rcases h with rfl | rfl | rfl
      · exact nodup_nil
      · exact nodup_nil
      · exact nodup_singleton _
    · rw [portItems_received h hitem]
      rfl
  | ool address size copy =>
    rcases h with ⟨rfl,-⟩ | ⟨rfl,-⟩
    · exact ⟨nodup_nil,fun item hitem => by cases hitem⟩
    · refine ⟨nodup_singleton _,fun item hitem => ?_⟩
      rw [mem_singleton.mp hitem]
      rfl
  | oolPorts address count copy =>
    rcases h with ⟨rfl,-⟩ | ⟨hcount,objects,rfl,-,hobjects⟩
    · exact ⟨nodup_nil,fun item hitem => by cases hitem⟩
    · have hright : ∀ item∈objects.flatMap portItems,∃ j,item=.right ⟨k,j⟩ := by
        intro item hitem
        obtain ⟨port,hport,hitem⟩ := mem_flatMap.mp hitem
        obtain ⟨j,hj⟩ := mem_iff_getElem?.mp hport
        exact ⟨j,portItems_received (hobjects j port hj) hitem⟩
      rw [items,if_neg (count_ne_zero hcount)]
      refine ⟨nodup_append.mpr ⟨?_,nodup_singleton _,?_⟩,fun item hitem => ?_⟩
      · rw [nodup_flatMap]
        refine ⟨fun port hport => ?_,pairwise_iff_getElem.mpr fun a b ha hb hab => ?_⟩
        · cases port with
          | object right => exact nodup_singleton _
          | null => exact nodup_nil
          | dead => exact nodup_nil
          | name name => exact nodup_nil
        · intro item hitem hitem'
          have hleft := portItems_received (hobjects a _ (getElem?_eq_getElem ha)) hitem
          rw [hleft] at hitem'
          have hright := portItems_received (hobjects b _ (getElem?_eq_getElem hb)) hitem'
          cases hright
          exact absurd hab (Nat.lt_irrefl _)
      · intro item hitem other hother
        obtain ⟨j,rfl⟩ := hright item hitem
        rw [mem_singleton.mp hother]
        exact Item.noConfusion
      · rcases mem_append.mp hitem with hitem | hitem
        · obtain ⟨j,rfl⟩ := hright item hitem
          rfl
        · rw [mem_singleton.mp hitem]
          rfl

lemma nodup_bodyItems (hbody : Received body) : (bodyItems body).Nodup := by
  have hat : ∀ (i : ℕ) (hi : i<body.length),ReceivedAt i body[i] := fun i hi =>
    hbody i _ (getElem?_eq_getElem hi)
  rw [bodyItems,nodup_flatten]
  refine ⟨fun l hl => ?_,pairwise_iff_getElem.mpr fun a b ha hb hab => ?_⟩
  · obtain ⟨i,hi,rfl⟩ := mem_mapIdx.mp hl
    exact (items_received (hat i hi)).1
  · rw [length_mapIdx] at ha hb
    rw [getElem_mapIdx,getElem_mapIdx]
    intro item hitem hitem'
    have hleft := (items_received (hat a ha)).2 item hitem
    have hright := (items_received (hat b hb)).2 item hitem'
    omega

lemma consumedOnce_of_harmless (hbody : Received body) (hharmless : Harmless results body) :
    ConsumedOnce results body (ipcKmsgCopyoutBody results body) := by
  have hitems := item_events hbody hharmless
  refine ⟨fun item hitem => ?_,fun event hevent => ?_,fun i dsc => copyoutBody_reports hbody⟩
  · rw [hitems,count_map_of_injective _ _ (Option.some_injective Item)]
    exact count_eq_one_of_mem (nodup_bodyItems hbody) hitem
  · have hmem := mem_map_of_mem (f := Event.item) hevent
    rw [hitems] at hmem
    obtain ⟨item,hitem,heq⟩ := mem_map.mp hmem
    exact ⟨item,hitem,heq.symm⟩

/-! ### An item twice -/

lemma two_le_count {α : Type} [BEq α] [LawfulBEq α] {f : ℕ → List α} {a : α} {k j n : ℕ}
    (hkj : k<j) (hjn : j<n) (hk : a∈f k) (hj : a∈f j) : 2≤((range n).flatMap f).count a := by
  induction n with
  | zero => exact absurd hjn (Nat.not_lt_zero j)
  | succ n ih =>
    rw [range_succ,flatMap_append,flatMap_singleton,count_append]
    by_cases hlast : j=n
    · have hfirst : 0<((range n).flatMap f).count a :=
        count_pos_iff.mpr (mem_flatMap.mpr ⟨k,mem_range.mpr (hlast▸hkj),hk⟩)
      have hnext : 0<(f n).count a := count_pos_iff.mpr (hlast▸hj)
      omega
    · have hloop := ih (by omega)
      omega

lemma eventsAt_of_fails (hbody : Received body) (hk : body[k]?=some dsc)
    (hfail : Fails results k dsc) :
    eventsAt results body k=ipcKmsgCleanBody (bodyAt results body k) := by
  rw [eventsAt,hk,Option.elim_some]
  exact (copyoutDescriptor_events results _ (hbody k dsc hk)).2 hfail

lemma not_stray (h : ConsumedOnce results body (ipcKmsgCopyoutBody results body))
    (hk : k<body.length) : .stray∉eventsAt results body k := by
  intro hstray
  have hmem : Event.stray∈(ipcKmsgCopyoutBody results body).events := by
    rw [(copyoutBody_spec results body).2]
    exact mem_flatMap.mpr ⟨k,mem_range.mpr hk,hstray⟩
  obtain ⟨item,-,heq⟩ := h.nothingElse _ hmem
  cases heq

lemma item_mem_eventsAt (results : Results) (hbody : Received body) (hk : body[k]?=some dsc)
    {item : Item} (hitem : item∈items k dsc) :
    some item∈(eventsAt results body k).map Event.item := by
  by_cases hfail : Fails results k dsc
  · have hself : (bodyAt results body k)[k]?=some dsc := by
      rw [getElem?_bodyAt,hk,Option.map_some,if_neg (Nat.lt_irrefl k)]
    have hmem : some item∈(cleanDescriptor k dsc).map Event.item := by
      rw [item_cleanDescriptor_of_fails (hbody k dsc hk) hfail]
      exact mem_map_of_mem hitem
    rw [eventsAt_of_fails hbody hk hfail]
    obtain ⟨event,hevent,heq⟩ := mem_map.mp hmem
    exact heq▸mem_map_of_mem (mem_cleanBody hself hevent)
  · rw [eventsAt,hk,Option.elim_some,(copyoutDescriptor_events results _ (hbody k dsc hk)).1 hfail]
    exact mem_map_of_mem hitem

lemma harmless_of_consumedOnce (hbody : Received body)
    (h : ConsumedOnce results body (ipcKmsgCopyoutBody results body)) : Harmless results body := by
  intro k dsc hk hfail j dsc' hj
  have hlength := (List.getElem?_eq_some_iff.mp hk).1
  have hclean := eventsAt_of_fails hbody hk hfail
  have hnow : (bodyAt results body k)[j]? =
      some (if j<k then afterwards results j dsc' else dsc') := by
    rw [getElem?_bodyAt,hj,Option.map_some]
  refine ⟨fun hlt hleaves => ?_,fun hlt hcarries => ?_⟩
  · rw [if_pos hlt] at hnow
    refine not_stray h hlength ?_
    rw [hclean]
    exact mem_cleanBody hnow ((cleanDescriptor_afterwards (hbody j dsc' hj)).2 hleaves)
  · rw [if_neg (Nat.lt_asymm hlt)] at hnow
    rcases item_cleanDescriptor (hbody j dsc' hj) with hstray | hitems
    · refine not_stray h hlength ?_
      rw [hclean]
      exact mem_cleanBody hnow hstray
    · -- the clean-up takes the item before its own step does
      obtain ⟨event,hevent⟩ := exists_mem_of_ne_nil _
        (cleanDescriptor_of_carries (hbody j dsc' hj) hcarries)
      have hsome := mem_map_of_mem (f := Event.item) hevent
      rw [hitems] at hsome
      obtain ⟨item,hitem,heq⟩ := mem_map.mp hsome
      have hfirst : some item∈(eventsAt results body k).map Event.item := by
        rw [hclean,heq]
        exact mem_map_of_mem (mem_cleanBody hnow hevent)
      have hsecond := item_mem_eventsAt results hbody hj hitem
      have htwice := two_le_count (f := fun i => (eventsAt results body i).map Event.item) hlt
        (List.getElem?_eq_some_iff.mp hj).1 hfirst hsecond
      have hmem : item∈bodyItems body := by
        obtain ⟨hj',rfl⟩ := List.getElem?_eq_some_iff.mp hj
        exact mem_flatten.mpr ⟨_,mem_mapIdx.mpr ⟨j,hj',rfl⟩,hitem⟩
      have hone := h.once item hmem
      rw [(copyoutBody_spec results body).2,map_flatMap] at hone
      omega

def oneArray (i : ℕ) : Descriptor := .oolPorts (.array [.object ⟨i,0⟩]) 1 0

def fullMap : Results :=
  ⟨fun _ => .success,fun _ => 0x103,fun _ => .failure,fun _ => 0,fun _ => none⟩

lemma received_oneArray (i : ℕ) : ReceivedAt i (oneArray i) := by
  refine Or.inr ⟨by decide,_,rfl,rfl,fun j port hport => ?_⟩
  cases j with
  | zero =>
    cases hport
    exact Or.inr (Or.inr rfl)
  | succ j => cases hport

end Darwin.Ipc.CopyoutBody
