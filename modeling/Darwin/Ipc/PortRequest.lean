import Mathlib.Data.UInt
import Mathlib.Tactic

/-! Dead-name requests of a port: `ipc_port_dnrequest`, `ipc_port_dngrow`, `ipc_port_dncancel` and
`ipc_port_dnnotify` of `osfmk/ipc/ipc_port.c`. -/
open List Function Option Nat
namespace Darwin.Ipc.DnRequests

/-- The sizes of tables: `ipc_table_dnrequests` without the zero that ends it. -/
structure SizeTable where
  sizes : List ℕ
  increasing : sizes.Pairwise (· < ·)
  two_le : ∀ size∈sizes,2 ≤ size

def SizeTable.itsSize (st : SizeTable) (its : ℕ) : ℕ := st.sizes.getD its 0

/-- The first field is a send-once right or an index, the second a name or a size. -/
structure PortRequest where
  notify : ℕ
  name : ℕ
  deriving DecidableEq,Repr

def machPortNull : ℕ := 0

/-- A table at its address. -/
structure Table where
  address : ℕ
  slots : ℕ → PortRequest

def Table.iprNext (table : Table) : ℕ := (table.slots 0).notify

def Table.iprSize (table : Table) : ℕ := (table.slots 0).name

/-- A request that has been registered. -/
structure Request where
  name : ℕ
  soright : ℕ
  deriving DecidableEq,Repr

inductive KernReturn
  | success | noSpace | resourceShortage
  deriving DecidableEq,Repr

def itsSizeNone : UInt32 := 0xffffffff

/-- A call of `ipc_port_dngrow` that has allocated its new table and does not have the lock. -/
structure Grow where
  otable : Option ℕ
  its : ℕ
  targetSize : UInt32

/-- The port, with the calls of `ipc_port_dngrow` that are under way. `registered` is not in the
source: the requests that have been registered and not cancelled. -/
structure Port where
  active : Bool
  dnrequests : Option Table
  growing : List Grow
  registered : ℕ → Option Request

def setSlot (slots : ℕ → PortRequest) (index : ℕ) (ipr : PortRequest) : ℕ → PortRequest :=
  update slots index ipr

def dnrequest (dnrequests : Option Table) (name soright : ℕ) : Option Table × Option ℕ :=
  match dnrequests with
  | none => (none,none)
  | some table =>
    let index := table.iprNext
    if index=0 then (some table,none)
    else
      let slots := setSlot table.slots 0 ⟨(table.slots index).notify,table.iprSize⟩
      (some {table with slots := setSlot slots index ⟨soright,name⟩},some index)

def searchSize (st : SizeTable) (its : ℕ) (targetSize : UInt32) : ℕ :=
  if its<st.sizes.length ∧ st.itsSize its<targetSize.toNat then
    searchSize st (its+1) targetSize
  else its
termination_by st.sizes.length-its

def chosenIts (st : SizeTable) (dnrequests : Option Table) (targetSize : UInt32) : ℕ :=
  let its := dnrequests.elim 0 fun otable => otable.iprSize+1
  if targetSize≠itsSizeNone then searchSize st its targetSize else its

/-- `ipc_port_dngrow` up to where it locks the port again: either it returns, or it is under
way. -/
def dngrowStart (st : SizeTable) (dnrequests : Option Table) (targetSize : UInt32)
    (allocated : Bool) : KernReturn ⊕ Grow :=
  let its := chosenIts st dnrequests targetSize
  if targetSize≠itsSizeNone ∧
      dnrequests.any (fun otable => targetSize.toNat ≤ st.itsSize otable.iprSize)=true then
    .inl .success
  else if targetSize≠itsSizeNone ∧ st.itsSize its=0 then .inl .noSpace
  else if st.itsSize its=0 ∨ allocated=false then .inl .resourceShortage
  else .inr ⟨dnrequests.map Table.address,its,targetSize⟩

/-- The loop that puts the elements from `i` on, `left` of them, on the free list. -/
def freeLoop : ℕ → ℕ → (ℕ → PortRequest) → ℕ → (ℕ → PortRequest) × ℕ
  | 0,_,slots,free => (slots,free)
  | left+1,i,slots,free => freeLoop left (i+1) (setSlot slots i ⟨free,machPortNull⟩) i

def newTable (st : SizeTable) (dnrequests : Option Table) (its : ℕ) (ntable : Table) : Table :=
  let osize := match dnrequests with
    | none => 1
    | some otable => st.itsSize otable.iprSize
  let free := match dnrequests with
    | none => 0
    | some otable => otable.iprNext
  let copied := match dnrequests with
    | none => ntable.slots
    | some otable => fun i => if 1 ≤ i ∧ i<osize then otable.slots i else ntable.slots i
  let loop := freeLoop (st.itsSize its-osize) osize copied free
  {ntable with slots := setSlot loop.1 0 ⟨loop.2,its⟩}

def Port.unchanged (port : Port) (g : Grow) : Prop :=
  port.active=true ∧ port.dnrequests.map Table.address=g.otable ∧
    ∀ otable∈port.dnrequests,otable.iprSize+1=g.its

instance (port : Port) (g : Grow) : Decidable (port.unchanged g) := by
  unfold Port.unchanged
  cases port.dnrequests with
  | none => exact decidable_of_iff (port.active=true ∧ none=g.otable) (by simp)
  | some otable =>
    exact decidable_of_iff (port.active=true ∧ some otable.address=g.otable ∧
      otable.iprSize+1=g.its) (by simp)

def dngrowFinish (st : SizeTable) (port : Port) (g : Grow) (ntable : Table) : Option Table :=
  if port.unchanged g then some (newTable st port.dnrequests g.its ntable) else port.dnrequests

def dncancel (dnrequests : Option Table) (index : ℕ) : Option Table × ℕ :=
  match dnrequests with
  | none => (none,0)
  | some table =>
    let dnrequest := (table.slots index).notify
    let slots := setSlot table.slots index ⟨table.iprNext,machPortNull⟩
    (some {table with slots := setSlot slots 0 ⟨index,table.iprSize⟩},dnrequest)

def notifyLoop (slots : ℕ → PortRequest) : ℕ → ℕ → List Request
  | 0,_ => []
  | left+1,index =>
    if (slots index).name=machPortNull then notifyLoop slots left (index+1)
    else ⟨(slots index).name,(slots index).notify⟩::notifyLoop slots left (index+1)

def dnnotify (st : SizeTable) (dnrequests : Option Table) : List Request :=
  match dnrequests with
  | none => []
  | some table => notifyLoop table.slots (st.itsSize table.iprSize-1) 1

/-! ### The free list -/

def Threaded (slots : ℕ → PortRequest) : ℕ → List ℕ → Prop
  | head,[] => head=0
  | head,index::free => head=index ∧ index≠0 ∧ Threaded slots (slots index).notify free

/-- The free list is the unused slots below `size`, each once. -/
structure FreeList (slots : ℕ → PortRequest) (size head : ℕ) (free : List ℕ) : Prop where
  threaded : Threaded slots head free
  nodup : free.Nodup
  mem_iff : ∀ i,i∈free ↔ (1 ≤ i ∧ i<size) ∧ (slots i).name=machPortNull

def requests (slots : ℕ → PortRequest) (size i : ℕ) : Option Request :=
  if (1 ≤ i ∧ i<size) ∧ (slots i).name≠machPortNull then
    some ⟨(slots i).name,(slots i).notify⟩
  else none

variable {slots slots' : ℕ → PortRequest} {size head index : ℕ} {free : List ℕ}

lemma Threaded.congr (h : Threaded slots head free) (hsame : ∀ i∈free,slots' i=slots i) :
    Threaded slots' head free := by
  induction free generalizing head with
  | nil => exact h
  | cons index free ih =>
    obtain ⟨rfl,hne,hrest⟩ := h
    refine ⟨rfl,hne,?_⟩
    rw [hsame head (by simp)]
    exact ih hrest fun i hi => hsame i (by simp [hi])

lemma FreeList.push (h : FreeList slots size head free) (size' : ℕ) (hindex : index∉free)
    (hpos : 1 ≤ index) (hlt : index<size') (hsize : size ≤ size')
    (hnew : ∀ i,size ≤ i → i<size' → i=index) :
    FreeList (setSlot slots index ⟨head,machPortNull⟩) size' index (index::free) := by
  refine ⟨⟨rfl,ne_of_gt hpos,?_⟩,nodup_cons.mpr ⟨hindex,h.nodup⟩,fun i => ?_⟩
  · rw [setSlot,update_self]
    refine h.threaded.congr fun i hi => update_of_ne ?_ _ _
    rintro rfl
    exact hindex hi
  · rw [mem_cons,h.mem_iff]
    by_cases hi : i=index
    · subst hi
      simp [setSlot,hpos,hlt]
    · rw [setSlot,update_of_ne hi]
      refine ⟨fun hmem => ?_,fun hmem => .inr ⟨⟨hmem.1.1,?_⟩,hmem.2⟩⟩
      · obtain ⟨hrange,hname⟩ := hmem.resolve_left hi
        exact ⟨⟨hrange.1,hrange.2.trans_le hsize⟩,hname⟩
      · by_contra hge
        exact hi (hnew i (not_lt.mp hge) hmem.1.2)

lemma FreeList.pop (h : FreeList slots size head (index::free)) (ipr : PortRequest)
    (hname : ipr.name≠machPortNull) :
    FreeList (setSlot slots index ipr) size (slots index).notify free := by
  obtain ⟨rfl,hne,hrest⟩ := h.threaded
  obtain ⟨hindex,hnodup⟩ := nodup_cons.mp h.nodup
  refine ⟨hrest.congr fun i hi => update_of_ne ?_ _ _,hnodup,fun i => ?_⟩
  · rintro rfl
    exact hindex hi
  · by_cases hi : i=head
    · subst hi
      simp [setSlot,hindex,hname]
    · rw [setSlot,update_of_ne hi,←h.mem_iff,mem_cons]
      simp [hi]

lemma FreeList.setHeader (h : FreeList slots size head free) (ipr : PortRequest) :
    FreeList (setSlot slots 0 ipr) size head free := by
  have hzero : ∀ i∈free,i≠0 := fun i hi => ne_of_gt ((h.mem_iff i).mp hi).1.1
  refine ⟨h.threaded.congr fun i hi => update_of_ne (hzero i hi) _ _,h.nodup,
    fun i => ?_⟩
  rw [h.mem_iff]
  refine and_congr_right fun hi => ?_
  rw [setSlot,update_of_ne (ne_of_gt hi.1)]

lemma requests_setHeader (slots : ℕ → PortRequest) (size : ℕ) (ipr : PortRequest) :
    requests (setSlot slots 0 ipr) size=requests slots size := by
  funext i
  unfold requests setSlot
  by_cases hi : i=0
  · subst hi
    simp
  · rw [update_of_ne hi]

lemma freeLoop_spec (left i : ℕ) (slots : ℕ → PortRequest) (head : ℕ) {free : List ℕ}
    (hpos : 1 ≤ i) (hfree : FreeList slots i head free) :
    (∃ free',FreeList (freeLoop left i slots head).1 (i+left) (freeLoop left i slots head).2
      free') ∧ requests (freeLoop left i slots head).1 (i+left)=requests slots i := by
  induction left generalizing i slots head free with
  | zero => exact ⟨⟨free,hfree⟩,rfl⟩
  | succ left ih =>
    have hindex : i∉free := fun h => absurd ((hfree.mem_iff i).mp h).1.2 (lt_irrefl i)
    have hpush := hfree.push (i+1) hindex hpos (lt_succ_self i) (le_succ i)
      fun j hle hlt => by omega
    obtain ⟨hlist,hrequests⟩ := ih (i+1) _ i (le_succ_of_le hpos) hpush
    rw [freeLoop,show i+(left+1)=i+1+left by ring]
    refine ⟨hlist,hrequests.trans ?_⟩
    funext j
    unfold requests setSlot
    by_cases hj : j=i
    · subst hj
      simp
    · rw [update_of_ne hj]
      congr 1
      refine propext (and_congr_left fun _ => and_congr_right fun _ => ?_)
      omega

end Darwin.Ipc.DnRequests

/-! Runs of the calls on a port's dead-name requests, those of `ipc_port_dngrow` in two parts, and
the port's death. -/
namespace Darwin.Ipc.DnRequests

inductive Call
  | dnrequest (name soright : ℕ)
  | dngrowStart (targetSize : UInt32) (allocated : Bool)
  | dngrowFinish (place : ℕ) (ntable : Table)
  | dncancel (name index : ℕ)
  | destroy

inductive Answer
  | index (indexp : Option ℕ)
  | grown (kr : KernReturn) (targetSize : UInt32)
  | unlocked
  | soright (dnrequest : ℕ)
  | notified (notifications : List Request)
  deriving DecidableEq

def step (st : SizeTable) (port : Port) : Call → Port × Answer
  | .dnrequest name soright =>
    let r := dnrequest port.dnrequests name soright
    ({ port with
      dnrequests := r.1
      registered := match r.2 with
        | none => port.registered
        | some index => update port.registered index (some ⟨name,soright⟩)},.index r.2)
  | .dngrowStart targetSize allocated =>
    match dngrowStart st port.dnrequests targetSize allocated with
    | .inl kr => (port,.grown kr targetSize)
    | .inr g => ({port with growing := port.growing++[g]},.unlocked)
  | .dngrowFinish place ntable =>
    match port.growing[place]? with
    | none => (port,.unlocked)
    | some g => ({ port with
        dnrequests := dngrowFinish st port g ntable
        growing := port.growing.eraseIdx place},.grown .success g.targetSize)
  | .dncancel _ index =>
    let r := dncancel port.dnrequests index
    ({ port with
      dnrequests := r.1
      registered := update port.registered index none},.soright r.2)
  | .destroy => ({port with active := false,dnrequests := none,registered := fun _ => none},
      .notified (dnnotify st port.dnrequests))

def Allowed (port : Port) : Call → Prop
  | .dnrequest name _ => port.active=true ∧ name≠machPortNull
  | .dngrowStart _ _ => port.active=true
  | .dngrowFinish place _ => place<port.growing.length
  | .dncancel name index => port.active=true ∧ ∃ soright,port.registered index=some ⟨name,soright⟩
  | .destroy => port.active=true

def tableRequests (st : SizeTable) (dnrequests : Option Table) : ℕ → Option Request :=
  dnrequests.elim (fun _ => none) fun table => requests table.slots (st.itsSize table.iprSize)

/-- The table has the registered requests and no others, and its free list is the other slots. -/
structure Good (st : SizeTable) (port : Port) : Prop where
  free : ∀ table∈port.dnrequests,
    ∃ free,FreeList table.slots (st.itsSize table.iprSize) table.iprNext free
  kept : port.registered=tableRequests st port.dnrequests

/-- What is promised of a call. -/
structure Safe (st : SizeTable) (port : Port) (call : Call) : Prop where
  good : Good st (step st port call).1
  registers : ∀ index,(step st port call).2=.index (some index) → port.registered index=none
  cancels : ∀ name index,call=.dncancel name index → ∃ soright,
    port.registered index=some ⟨name,soright⟩ ∧ (step st port call).2=.soright soright
  notifies : ∀ notifications,(step st port call).2=.notified notifications →
    ∃ indices : List ℕ,indices.Nodup ∧ (∀ i,i∈indices ↔ port.registered i≠none) ∧
      notifications=indices.filterMap port.registered
  grows : ∀ targetSize,(step st port call).2=.grown .success targetSize →
    targetSize≠itsSizeNone → ∃ table∈(step st port call).1.dnrequests,
      targetSize.toNat ≤ st.itsSize table.iprSize

/-- The table that is seen again is the one from before the port was unlocked, and the next size
is enough; or there is a table of that size by then. -/
def Proper (st : SizeTable) (port : Port) : Call → Prop
  | .dngrowFinish place _ => ∀ g∈port.growing[place]?,g.targetSize≠itsSizeNone →
    (port.active=true ∧ port.dnrequests.map Table.address=g.otable ∧
      ∀ table∈port.dnrequests,g.targetSize.toNat ≤ st.itsSize (table.iprSize+1)) ∨
    ∃ table∈port.dnrequests,g.targetSize.toNat ≤ st.itsSize table.iprSize
  | _ => True

def Always (st : SizeTable) (P : Port → Call → Prop) : Port → List Call → Prop
  | _,[] => True
  | port,call::calls => P port call ∧ Always st P (step st port call).1 calls

/-- A call that is under way has a size that is enough, and the sizes before it are not or are no
larger than the table. -/
structure Grow.Ok (st : SizeTable) (port : Port) (g : Grow) : Prop where
  lt : g.its<st.sizes.length
  enough : g.targetSize≠itsSizeNone → g.targetSize.toNat ≤ st.itsSize g.its
  least : g.targetSize≠itsSizeNone → port.active=true → ∀ j<g.its,
    st.itsSize j<g.targetSize.toNat ∨ ∃ table∈port.dnrequests,j≤table.iprSize

structure Inv (st : SizeTable) (port : Port) : Prop where
  good : Good st port
  dead : port.active=false → port.dnrequests=none
  sized : ∀ table∈port.dnrequests,table.iprSize<st.sizes.length
  growing : ∀ g∈port.growing,g.Ok st port

/-! ### Sizes -/

variable {st : SizeTable} {port : Port}

lemma SizeTable.itsSize_eq {its : ℕ} (h : its<st.sizes.length) : st.itsSize its=st.sizes[its] := by
  simp [SizeTable.itsSize,getD_eq_getElem?_getD,h]

lemma SizeTable.two_le_itsSize {its : ℕ} (h : its<st.sizes.length) : 2 ≤ st.itsSize its := by
  rw [SizeTable.itsSize_eq h]
  exact st.two_le _ (getElem_mem h)

lemma SizeTable.itsSize_eq_zero {its : ℕ} : st.itsSize its=0 ↔ st.sizes.length ≤ its := by
  constructor
  · intro h
    by_contra hlt
    have := st.two_le_itsSize (not_le.mp hlt)
    omega
  · intro h
    simp [SizeTable.itsSize,getD_eq_getElem?_getD,h]

lemma SizeTable.itsSize_lt {i j : ℕ} (hij : i<j) (hj : j<st.sizes.length) :
    st.itsSize i<st.itsSize j := by
  rw [SizeTable.itsSize_eq (hij.trans hj),SizeTable.itsSize_eq hj]
  exact pairwise_iff_getElem.mp st.increasing i j _ hj hij

lemma SizeTable.itsSize_le {i j : ℕ} (hij : i≤j) (hj : j<st.sizes.length) :
    st.itsSize i ≤ st.itsSize j := by
  rcases hij.lt_or_eq with h | rfl
  · exact (st.itsSize_lt h hj).le
  · exact le_rfl

lemma searchSize_spec (its : ℕ) (targetSize : UInt32) :
    (∀ j,its≤j → j<searchSize st its targetSize → st.itsSize j<targetSize.toNat) ∧
    (searchSize st its targetSize<st.sizes.length →
      targetSize.toNat ≤ st.itsSize (searchSize st its targetSize)) := by
  induction its using searchSize.induct st targetSize with
  | case1 its h ih =>
    rw [searchSize,if_pos h]
    refine ⟨fun j hle hlt => ?_,ih.2⟩
    rcases hle.lt_or_eq with hj | rfl
    · exact ih.1 j hj hlt
    · exact h.2
  | case2 its h =>
    rw [searchSize,if_neg h]
    refine ⟨fun j hle hlt => absurd hlt (not_lt.mpr hle),fun hlt => ?_⟩
    by_contra hsmall
    exact h ⟨hlt,not_le.mp hsmall⟩

/-! ### Tables -/

lemma requests_setSlot (slots : ℕ → PortRequest) {size index : ℕ} (ipr : PortRequest)
    (hpos : 1 ≤ index) (hlt : index<size) :
    requests (setSlot slots index ipr) size=update (requests slots size) index
      (if ipr.name=machPortNull then none else some ⟨ipr.name,ipr.notify⟩) := by
  funext i
  by_cases hi : i=index
  · subst hi
    simp [requests,setSlot,hpos,hlt]
  · simp only [requests,setSlot,update_of_ne hi]

lemma requests_eq_some {slots : ℕ → PortRequest} {size i : ℕ} {request : Request}
    (h : requests slots size i=some request) : (1 ≤ i ∧ i<size) ∧
      (slots i).name≠machPortNull ∧ request=⟨(slots i).name,(slots i).notify⟩ := by
  unfold requests at h
  split at h
  · next hused => exact ⟨hused.1,hused.2,(some.inj h).symm⟩
  · cases h

variable {dnrequests : Option Table} {table : Table}

lemma dnrequest_none (h : table.iprNext=0) (name soright : ℕ) :
    dnrequest (some table) name soright=(some table,none) := by
  simp [dnrequest,h]

lemma dnrequest_some {name : ℕ} (soright : ℕ) {size : ℕ} {free : List ℕ}
    (hfree : FreeList table.slots size table.iprNext free) (hnext : table.iprNext≠0)
    (hname : name≠machPortNull) :
    ∃ table' free',dnrequest (some table) name soright=(some table',some table.iprNext) ∧
      table'.address=table.address ∧ table'.iprSize=table.iprSize ∧
      FreeList table'.slots size table'.iprNext free' ∧
      requests table.slots size table.iprNext=none ∧
      requests table'.slots size=update (requests table.slots size) table.iprNext
        (some ⟨name,soright⟩) := by
  obtain _ | ⟨index,free⟩ := free
  · exact absurd hfree.threaded hnext
  · obtain ⟨hindex,-,-⟩ := hfree.threaded
    obtain ⟨hrange,hunused⟩ := (hfree.mem_iff index).mp (by simp)
    rw [←hindex] at hrange hunused
    have hzero : (0 : ℕ)≠table.iprNext := hnext.symm
    refine ⟨⟨table.address,setSlot (setSlot table.slots 0
      ⟨(table.slots table.iprNext).notify,table.iprSize⟩) table.iprNext ⟨soright,name⟩⟩,free,?_,
      rfl,?_,?_,?_,?_⟩
    · simp [dnrequest,hnext]
    · simp only [Table.iprSize,setSlot,update_of_ne hzero,update_self]
    · have hpop := (hfree.setHeader ⟨(table.slots table.iprNext).notify,table.iprSize⟩)
      rw [←hindex] at hpop
      have hpopped := hpop.pop ⟨soright,name⟩ hname
      have hhead : Table.iprNext ⟨table.address,setSlot (setSlot table.slots 0
          ⟨(table.slots table.iprNext).notify,table.iprSize⟩) table.iprNext ⟨soright,name⟩⟩ =
          (setSlot table.slots 0 ⟨(table.slots table.iprNext).notify,table.iprSize⟩
            table.iprNext).notify := by
        rw [Table.iprNext]
        simp only [setSlot,update_of_ne hzero,update_self,update_of_ne hnext]
      rwa [hhead]
    · simp [requests,hunused]
    · simp only
      rw [requests_setSlot _ _ hrange.1 hrange.2,requests_setHeader,if_neg hname]

lemma dncancel_some {index size : ℕ} {free : List ℕ} {request : Request}
    (hfree : FreeList table.slots size table.iprNext free)
    (hrequest : requests table.slots size index=some request) :
    ∃ table' free',dncancel (some table) index=(some table',request.soright) ∧
      table'.address=table.address ∧ table'.iprSize=table.iprSize ∧
      FreeList table'.slots size table'.iprNext free' ∧
      requests table'.slots size=update (requests table.slots size) index none := by
  obtain ⟨hrange,hused,rfl⟩ := requests_eq_some hrequest
  have hindex : index∉free := fun h => hused ((hfree.mem_iff index).mp h).2
  have hpush := (hfree.push size hindex hrange.1 hrange.2 le_rfl
    fun i hle hlt => absurd hlt (not_lt.mpr hle)).setHeader ⟨index,table.iprSize⟩
  refine ⟨⟨table.address,setSlot (setSlot table.slots index ⟨table.iprNext,machPortNull⟩) 0
    ⟨index,table.iprSize⟩⟩,index::free,rfl,rfl,?_,?_,?_⟩
  · simp only [Table.iprSize,setSlot,update_self]
  · have hhead : Table.iprNext ⟨table.address,setSlot (setSlot table.slots index
        ⟨table.iprNext,machPortNull⟩) 0 ⟨index,table.iprSize⟩⟩=index := by
      simp only [Table.iprNext,setSlot,update_self]
    rwa [hhead]
  · simp only
    rw [requests_setHeader,requests_setSlot _ _ hrange.1 hrange.2,if_pos rfl]

lemma newTable_spec {its : ℕ} (ntable : Table)
    (hits : its<st.sizes.length)
    (hnext : ∀ table∈dnrequests,table.iprSize+1=its)
    (hfree : ∀ table∈dnrequests,
      ∃ free,FreeList table.slots (st.itsSize table.iprSize) table.iprNext free) :
    (newTable st dnrequests its ntable).iprSize=its ∧
    (∃ free,FreeList (newTable st dnrequests its ntable).slots (st.itsSize its)
      (newTable st dnrequests its ntable).iprNext free) ∧
    requests (newTable st dnrequests its ntable).slots (st.itsSize its) =
      tableRequests st dnrequests := by
  refine ⟨by simp only [newTable,Table.iprSize,setSlot,update_self],?_⟩
  have hhead : ∀ (slots : ℕ → PortRequest) (free : ℕ),
      Table.iprNext ⟨ntable.address,setSlot slots 0 ⟨free,its⟩⟩=free := by
    intro slots free
    simp only [Table.iprNext,setSlot,update_self]
  cases dnrequests with
  | none =>
    have htwo := st.two_le_itsSize hits
    have hempty : FreeList ntable.slots 1 0 [] :=
      ⟨rfl,nodup_nil,fun i => by simp; omega⟩
    obtain ⟨⟨free,hlist⟩,hrequests⟩ :=
      freeLoop_spec (st.itsSize its-1) 1 ntable.slots 0 le_rfl hempty
    rw [Nat.add_sub_cancel' (by omega)] at hlist hrequests
    refine ⟨⟨free,?_⟩,?_⟩
    · simp only [newTable,hhead]
      exact hlist.setHeader _
    · simp only [newTable]
      rw [requests_setHeader,hrequests]
      funext i
      exact if_neg fun h => absurd h.1.2 (not_lt.mpr h.1.1)
  | some table =>
    have hsize := hnext table rfl
    obtain ⟨free,hold⟩ := hfree table rfl
    have hlt : st.itsSize table.iprSize<st.itsSize its :=
      st.itsSize_lt (by omega) hits
    have htwo : 2 ≤ st.itsSize table.iprSize := st.two_le_itsSize (by omega)
    have hcopied : ∀ i,1 ≤ i → i<st.itsSize table.iprSize →
        (if 1 ≤ i ∧ i<st.itsSize table.iprSize then table.slots i else ntable.slots i) =
          table.slots i := fun i hpos hlt => if_pos ⟨hpos,hlt⟩
    have hcopy : FreeList (fun i => if 1 ≤ i ∧ i<st.itsSize table.iprSize then table.slots i
        else ntable.slots i) (st.itsSize table.iprSize) table.iprNext free := by
      refine ⟨hold.threaded.congr fun i hi => ?_,hold.nodup,fun i => ?_⟩
      · obtain ⟨hrange,-⟩ := (hold.mem_iff i).mp hi
        exact hcopied i hrange.1 hrange.2
      · rw [hold.mem_iff]
        refine and_congr_right fun hrange => ?_
        rw [hcopied i hrange.1 hrange.2]
    obtain ⟨⟨free',hlist⟩,hrequests⟩ := freeLoop_spec (st.itsSize its-st.itsSize table.iprSize)
      (st.itsSize table.iprSize) _ table.iprNext (by omega) hcopy
    rw [Nat.add_sub_cancel' hlt.le] at hlist hrequests
    refine ⟨⟨free',?_⟩,?_⟩
    · simp only [newTable,hhead]
      exact hlist.setHeader _
    · simp only [newTable]
      rw [requests_setHeader,hrequests]
      change _=requests table.slots (st.itsSize table.iprSize)
      funext i
      by_cases hrange : 1 ≤ i ∧ i<st.itsSize table.iprSize
      · simp only [requests,if_pos hrange]
      · simp only [requests]
        rw [if_neg fun h => hrange h.1,if_neg fun h => hrange h.1]

lemma notifyLoop_eq (slots : ℕ → PortRequest) (size left index : ℕ) (hpos : 1 ≤ index)
    (hsize : index+left=size) :
    notifyLoop slots left index=(range' index left).filterMap (requests slots size) := by
  induction left generalizing index with
  | zero => rfl
  | succ left ih =>
    rw [notifyLoop,range'_succ,filterMap_cons,ih (index+1) (by omega) (by omega)]
    have hrange : 1 ≤ index ∧ index<size := ⟨hpos,by omega⟩
    by_cases hname : (slots index).name=machPortNull
    · rw [if_pos hname]
      simp [requests,hname]
    · rw [if_neg hname]
      simp [requests,hname,hrange]

lemma dnnotify_some (table : Table) (hpos : 1 ≤ st.itsSize table.iprSize) :
    ∃ indices : List ℕ,indices.Nodup ∧
      (∀ i,i∈indices ↔ requests table.slots (st.itsSize table.iprSize) i≠none) ∧
      dnnotify st (some table) =
        indices.filterMap (requests table.slots (st.itsSize table.iprSize)) := by
  refine ⟨(range' 1 (st.itsSize table.iprSize-1)).filter fun i =>
    (requests table.slots (st.itsSize table.iprSize) i).isSome,
    (nodup_range').filter _,fun i => ?_,?_⟩
  · rw [mem_filter,mem_range'_1,isSome_iff_ne_none]
    refine ⟨fun h => h.2,fun h => ⟨?_,h⟩⟩
    obtain ⟨request,hrequest⟩ := ne_none_iff_exists'.mp h
    obtain ⟨hrange,-⟩ := requests_eq_some hrequest
    omega
  · rw [dnnotify,notifyLoop_eq _ (st.itsSize table.iprSize) _ 1 le_rfl (by omega),filterMap_filter]
    refine filterMap_congr fun i _ => ?_
    cases requests table.slots (st.itsSize table.iprSize) i <;> rfl

/-! ### One call -/

lemma Grow.Ok.mono {port' : Port} {g : Grow} (h : g.Ok st port)
    (hactive : port'.active=true → port.active=true)
    (htable : port'.active=true → ∀ table∈port.dnrequests,
      ∃ table'∈port'.dnrequests,table.iprSize≤table'.iprSize) : g.Ok st port' := by
  refine ⟨h.lt,h.enough,fun htarget halive j hj => ?_⟩
  rcases h.least htarget (hactive halive) j hj with hsmall | ⟨table,hmem,hle⟩
  · exact .inl hsmall
  · obtain ⟨table',hmem',hle'⟩ := htable halive table hmem
    exact .inr ⟨table',hmem',hle.trans hle'⟩

lemma Inv.replace (h : Inv st port) {table table' : Table} {registered : ℕ → Option Request}
    {free : List ℕ} (hactive : port.active=true) (htable : port.dnrequests=some table)
    (hsize : table'.iprSize=table.iprSize)
    (hfree : FreeList table'.slots (st.itsSize table.iprSize) table'.iprNext free)
    (hkept : registered=requests table'.slots (st.itsSize table.iprSize)) :
    Inv st {port with dnrequests := some table',registered := registered} := by
  refine ⟨⟨fun t ht => ?_,?_⟩,fun hdead => ?_,fun t ht => ?_,fun g hg => ?_⟩
  · obtain rfl := some.inj ht
    rw [hsize]
    exact ⟨free,hfree⟩
  · simp only [tableRequests,elim_some,hsize,hkept]
  · exact absurd hactive (by rw [hdead]; decide)
  · obtain rfl := some.inj ht
    rw [hsize]
    exact h.sized table htable
  · refine (h.growing g hg).mono id fun _ t ht => ⟨table',rfl,?_⟩
    obtain rfl : table=t := some.inj (htable.symm.trans ht)
    exact hsize.ge

lemma Inv.kept_some (h : Inv st port) (htable : port.dnrequests=some table) :
    port.registered=requests table.slots (st.itsSize table.iprSize) := by
  have := h.good.kept
  rwa [htable] at this

lemma dngrowStart_inr {targetSize : UInt32} {allocated : Bool}
    {g : Grow} (h : dngrowStart st dnrequests targetSize allocated=.inr g) :
    g.targetSize=targetSize ∧ g.its<st.sizes.length ∧
    (targetSize≠itsSizeNone → targetSize.toNat ≤ st.itsSize g.its ∧
      ∀ j<g.its,st.itsSize j<targetSize.toNat ∨ ∃ table∈dnrequests,j≤table.iprSize) := by
  unfold dngrowStart at h
  simp only at h
  split_ifs at h with _ _ hroom
  rw [not_or,SizeTable.itsSize_eq_zero,not_le] at hroom
  obtain rfl := Sum.inr.inj h
  refine ⟨rfl,hroom.1,fun htarget => ?_⟩
  simp only [chosenIts,if_pos htarget] at hroom ⊢
  obtain ⟨hsmall,henough⟩ := searchSize_spec
    (dnrequests.elim 0 fun otable => otable.iprSize+1) targetSize
  refine ⟨henough hroom.1,fun j hj => ?_⟩
  by_cases hle : (dnrequests.elim 0 fun otable => otable.iprSize+1)≤j
  · exact .inl (hsmall j hle hj)
  · cases dnrequests with
    | none => exact absurd (zero_le j) hle
    | some table => exact .inr ⟨table,rfl,Nat.lt_succ_iff.mp (Nat.not_le.mp hle)⟩

lemma dngrowStart_inl {targetSize : UInt32} {allocated : Bool}
    (h : dngrowStart st dnrequests targetSize allocated=.inl .success) :
    ∃ table∈dnrequests,targetSize.toNat ≤ st.itsSize table.iprSize := by
  unfold dngrowStart at h
  simp only at h
  split_ifs at h with henough
  · obtain ⟨table,hmem,hle⟩ := (Option.any_eq_true ..).mp henough.2
    exact ⟨table,hmem,of_decide_eq_true hle⟩
  · cases Sum.inl.inj h
  · cases Sum.inl.inj h

lemma Inv.step (h : Inv st port) (call : Call) (hallowed : Allowed port call) :
    Inv st (step st port call).1 := by
  cases call with
  | dnrequest name soright =>
    obtain ⟨hactive,hname⟩ := hallowed
    cases htable : port.dnrequests with
    | none =>
      have hstep : (DnRequests.step st port (.dnrequest name soright)).1=port := by
        simp only [DnRequests.step,htable,dnrequest]
        rw [←htable]
      rwa [hstep]
    | some table =>
      by_cases hnext : table.iprNext=0
      · have hstep : (DnRequests.step st port (.dnrequest name soright)).1=port := by
          simp only [DnRequests.step,htable,dnrequest_none hnext]
          rw [←htable]
        rwa [hstep]
      · obtain ⟨free,hfree⟩ := h.good.free table htable
        obtain ⟨table',free',hcall,-,hsize,hfree',-,hrequests⟩ :=
          dnrequest_some soright hfree hnext hname
        have hstep : (DnRequests.step st port (.dnrequest name soright)).1 =
            { port with
              dnrequests := some table'
              registered := update port.registered table.iprNext
                (some ⟨name,soright⟩)} := by
          simp only [DnRequests.step,htable,hcall]
        rw [hstep]
        exact h.replace hactive htable hsize hfree' (by rw [hrequests,h.kept_some htable])
  | dngrowStart targetSize allocated =>
    rw [DnRequests.step]
    cases hstart : dngrowStart st port.dnrequests targetSize allocated with
    | inl kr => exact h
    | inr g =>
      obtain ⟨rfl,hlt,htarget⟩ := dngrowStart_inr hstart
      refine ⟨⟨h.good.free,h.good.kept⟩,h.dead,h.sized,fun g' hg' => ?_⟩
      rcases mem_append.mp hg' with hg' | hg'
      · exact ⟨(h.growing g' hg').lt,(h.growing g' hg').enough,(h.growing g' hg').least⟩
      · obtain rfl := mem_singleton.mp hg'
        exact ⟨hlt,fun hne => (htarget hne).1,fun hne _ => (htarget hne).2⟩
  | dngrowFinish place ntable =>
    rw [DnRequests.step]
    cases hg : port.growing[place]? with
    | none => exact h
    | some g =>
      have hmem : ∀ g'∈port.growing.eraseIdx place,g'∈port.growing :=
        fun g' hg' => mem_of_mem_eraseIdx hg'
      by_cases hunchanged : port.unchanged g
      · simp only [dngrowFinish,if_pos hunchanged]
        obtain ⟨hactive,-,hnext⟩ := hunchanged
        have hlt := (h.growing g (mem_of_getElem? hg)).lt
        obtain ⟨hsize,hfree,hrequests⟩ := newTable_spec ntable hlt hnext h.good.free
        refine ⟨⟨fun t ht => ?_,?_⟩,fun hdead => ?_,fun t ht => ?_,fun g' hg' => ?_⟩
        · obtain rfl := some.inj ht
          rw [hsize]
          exact hfree
        · rw [h.good.kept,←hrequests,←hsize]
          simp only [tableRequests,elim_some,hsize]
        · exact absurd hactive (by rw [hdead]; decide)
        · obtain rfl := some.inj ht
          rw [hsize]
          exact hlt
        · refine (h.growing g' (hmem g' hg')).mono id fun _ t ht => ⟨_,rfl,?_⟩
          have := hnext t ht
          rw [hsize]
          omega
      · simp only [dngrowFinish,if_neg hunchanged]
        exact ⟨⟨h.good.free,h.good.kept⟩,h.dead,h.sized,fun g' hg' =>
          (h.growing g' (hmem g' hg')).mono id fun _ t ht => ⟨t,ht,le_rfl⟩⟩
  | dncancel name index =>
    obtain ⟨hactive,soright,hregistered⟩ := hallowed
    cases htable : port.dnrequests with
    | none =>
      have := h.good.kept
      rw [htable] at this
      rw [this] at hregistered
      cases hregistered
    | some table =>
      obtain ⟨free,hfree⟩ := h.good.free table htable
      have hkept := h.kept_some htable
      rw [hkept] at hregistered
      obtain ⟨table',free',hcall,-,hsize,hfree',hrequests⟩ := dncancel_some hfree hregistered
      have hstep : (DnRequests.step st port (.dncancel name index)).1 =
          { port with
            dnrequests := some table'
            registered := update port.registered index none} := by
        simp only [DnRequests.step,htable,hcall]
      rw [hstep]
      exact h.replace hactive htable hsize hfree' (by rw [hrequests,hkept])
  | destroy =>
    refine ⟨⟨fun t ht => (by cases ht),rfl⟩,fun _ => rfl,fun t ht => (by cases ht),fun g hg => ?_⟩
    exact (h.growing g hg).mono (fun halive => (by cases halive)) fun halive => (by cases halive)

/-! ### What is promised -/

lemma Inv.unchanged_iff (h : Inv st port) {g : Grow} (hg : g.Ok st port)
    (htarget : g.targetSize≠itsSizeNone)
    (hsmall : ¬∃ table∈port.dnrequests,g.targetSize.toNat ≤ st.itsSize table.iprSize) :
    port.unchanged g ↔ port.active=true ∧ port.dnrequests.map Table.address=g.otable ∧
      ∀ table∈port.dnrequests,g.targetSize.toNat ≤ st.itsSize (table.iprSize+1) := by
  refine and_congr_right fun hactive => and_congr_right fun _ => forall_congr' fun table =>
    forall_congr' fun htable => ?_
  have henough := hg.enough htarget
  constructor
  · intro hits
    rwa [hits]
  · intro hle
    rcases lt_trichotomy g.its (table.iprSize+1) with hlt | heq | hgt
    · refine absurd ⟨table,htable,henough.trans ?_⟩ hsmall
      exact st.itsSize_le (Nat.lt_succ_iff.mp hlt) (h.sized table htable)
    · exact heq.symm
    · rcases hg.least htarget hactive _ hgt with hbelow | ⟨table',hmem,hle'⟩
      · exact absurd hle (not_le.mpr hbelow)
      · obtain rfl : table=table' := some.inj (htable.symm.trans hmem)
        exact absurd hle' (not_le.mpr (lt_succ_self _))

/-- A call of `ipc_port_dngrow` that comes to its end leaves a table of the target size exactly when
its new table is put in or there is one already. -/
lemma Inv.grows_iff (h : Inv st port) {g : Grow} (hg : g.Ok st port)
    (hnone : g.targetSize≠itsSizeNone) (ntable : Table) :
    (∃ table∈dngrowFinish st port g ntable,g.targetSize.toNat ≤ st.itsSize table.iprSize) ↔
      (port.active=true ∧ port.dnrequests.map Table.address=g.otable ∧
        ∀ table∈port.dnrequests,g.targetSize.toNat ≤ st.itsSize (table.iprSize+1)) ∨
      ∃ table∈port.dnrequests,g.targetSize.toNat ≤ st.itsSize table.iprSize := by
  by_cases hsmall : ∃ table∈port.dnrequests,g.targetSize.toNat ≤ st.itsSize table.iprSize
  · refine ⟨fun _ => .inr hsmall,fun _ => ?_⟩
    by_cases hunchanged : port.unchanged g
    · rw [dngrowFinish,if_pos hunchanged]
      refine ⟨_,rfl,?_⟩
      rw [(newTable_spec ntable hg.lt hunchanged.2.2 h.good.free).1]
      exact hg.enough hnone
    · rwa [dngrowFinish,if_neg hunchanged]
  · rw [or_iff_left hsmall,←h.unchanged_iff hg hnone hsmall,dngrowFinish]
    by_cases hunchanged : port.unchanged g
    · rw [if_pos hunchanged]
      refine ⟨fun _ => hunchanged,fun _ => ⟨_,rfl,?_⟩⟩
      rw [(newTable_spec ntable hg.lt hunchanged.2.2 h.good.free).1]
      exact hg.enough hnone
    · rw [if_neg hunchanged]
      exact ⟨fun h' => absurd h' hsmall,fun h' => absurd h' hunchanged⟩

lemma Inv.registers (h : Inv st port) {call : Call} (hallowed : Allowed port call) {index : ℕ}
    (hanswer : (DnRequests.step st port call).2=.index (some index)) :
    port.registered index=none := by
  cases call with
  | dnrequest name soright =>
    cases htable : port.dnrequests with
    | none => simp [DnRequests.step,htable,dnrequest] at hanswer
    | some table =>
      by_cases hnext : table.iprNext=0
      · simp [DnRequests.step,htable,dnrequest_none hnext] at hanswer
      · obtain ⟨free,hfree⟩ := h.good.free table htable
        obtain ⟨table',free',hcall,-,-,-,hnone,-⟩ :=
          dnrequest_some soright hfree hnext hallowed.2
        simp only [DnRequests.step,htable,hcall,Answer.index.injEq,some.injEq] at hanswer
        rw [h.kept_some htable,←hanswer,hnone]
  | dngrowStart targetSize allocated =>
    rw [DnRequests.step] at hanswer
    split at hanswer <;> cases hanswer
  | dngrowFinish place ntable =>
    rw [DnRequests.step] at hanswer
    split at hanswer <;> cases hanswer
  | dncancel name index => cases hanswer
  | destroy => cases hanswer

lemma Inv.cancels (h : Inv st port) {name index : ℕ}
    (hallowed : Allowed port (.dncancel name index)) :
    ∃ soright,port.registered index=some ⟨name,soright⟩ ∧
      (DnRequests.step st port (.dncancel name index)).2=.soright soright := by
  obtain ⟨hactive,soright,hregistered⟩ := hallowed
  refine ⟨soright,hregistered,?_⟩
  cases htable : port.dnrequests with
  | none =>
    rw [h.good.kept,htable] at hregistered
    cases hregistered
  | some table =>
    obtain ⟨free,hfree⟩ := h.good.free table htable
    rw [h.kept_some htable] at hregistered
    obtain ⟨table',free',hcall,-⟩ := dncancel_some hfree hregistered
    simp only [DnRequests.step,htable,hcall]

lemma Inv.notifies (h : Inv st port) : ∃ indices : List ℕ,indices.Nodup ∧
    (∀ i,i∈indices ↔ port.registered i≠none) ∧
      dnnotify st port.dnrequests=indices.filterMap port.registered := by
  rw [h.good.kept]
  cases htable : port.dnrequests with
  | none => exact ⟨[],nodup_nil,fun i => by simp [tableRequests],rfl⟩
  | some table =>
    have := st.two_le_itsSize (h.sized table htable)
    exact dnnotify_some table (by omega)

lemma call_safe_iff (h : Inv st port) {call : Call} (hallowed : Allowed port call) :
    Safe st port call ↔ Proper st port call := by
  have hgood := (h.step call hallowed).good
  have hregisters : ∀ index,(DnRequests.step st port call).2=.index (some index) →
      port.registered index=none := fun index => h.registers hallowed
  cases call with
  | dnrequest name soright =>
    exact ⟨fun _ => trivial,fun _ => ⟨hgood,hregisters,fun _ _ hcall => (by cases hcall),
      fun _ hcall => (by cases hcall),fun _ hcall => (by cases hcall)⟩⟩
  | dngrowStart targetSize allocated =>
    refine ⟨fun _ => trivial,fun _ => ⟨hgood,hregisters,fun _ _ hcall => (by cases hcall),
      fun _ hcall => ?_,fun target hanswer _ => ?_⟩⟩
    · rw [DnRequests.step] at hcall
      split at hcall <;> cases hcall
    · rw [DnRequests.step] at hanswer ⊢
      cases hstart : dngrowStart st port.dnrequests targetSize allocated with
      | inl kr =>
        rw [hstart] at hanswer
        cases hanswer
        exact dngrowStart_inl hstart
      | inr g =>
        rw [hstart] at hanswer
        cases hanswer
  | dngrowFinish place ntable =>
    cases hg : port.growing[place]? with
    | none => exact absurd hallowed (not_lt.mpr (getElem?_eq_none_iff.mp hg))
    | some g =>
      have hstep : DnRequests.step st port (.dngrowFinish place ntable) =
          ({ port with
            dnrequests := dngrowFinish st port g ntable
            growing := port.growing.eraseIdx place},.grown .success g.targetSize) := by
        simp only [DnRequests.step,hg]
      have hok := h.growing g (mem_of_getElem? hg)
      constructor
      · rintro hsafe g' hg' hnone
        obtain rfl : g=g' := some.inj (hg.symm.trans hg')
        have := hsafe.grows g.targetSize (by rw [hstep]) hnone
        rw [hstep] at this
        exact (h.grows_iff hok hnone ntable).mp this
      · intro hproper
        refine ⟨hgood,hregisters,fun _ _ hcall => (by cases hcall),fun _ hcall => ?_,
          fun target hanswer hnone => ?_⟩
        · rw [hstep] at hcall
          cases hcall
        · rw [hstep] at hanswer ⊢
          cases hanswer
          exact (h.grows_iff hok hnone ntable).mpr (hproper g hg hnone)
  | dncancel name index =>
    refine ⟨fun _ => trivial,fun _ => ⟨hgood,hregisters,fun _ _ hcall => ?_,
      fun _ hcall => (by cases hcall),fun _ hcall => (by cases hcall)⟩⟩
    cases hcall
    exact h.cancels hallowed
  | destroy =>
    refine ⟨fun _ => trivial,fun _ => ⟨hgood,hregisters,fun _ _ hcall => (by cases hcall),
      fun _ hcall => ?_,fun _ hcall => (by cases hcall)⟩⟩
    cases hcall
    exact h.notifies

/-! ### Runs -/

def newPort : Port := ⟨true,none,[],fun _ => none⟩

lemma newPort_inv (st : SizeTable) : Inv st newPort :=
  ⟨⟨fun t ht => (by cases ht),rfl⟩,fun h => (by cases h),fun t ht => (by cases ht),
    fun g hg => (by cases hg)⟩

lemma always_safe_iff (calls : List Call) (h : Inv st port)
    (hallowed : Always st Allowed port calls) :
    Always st (Safe st) port calls ↔ Always st (Proper st) port calls := by
  induction calls generalizing port with
  | nil => rfl
  | cons call calls ih =>
    obtain ⟨hcall,hcalls⟩ := hallowed
    rw [Always,Always,call_safe_iff h hcall]
    exact and_congr_right fun _ => ih (h.step call hcall) hcalls

def runCalls (st : SizeTable) (port : Port) (calls : List Call) : Port :=
  calls.foldl (fun port call => (step st port call).1) port

/-- The test whether somebody else has grown the table is on the next size, also where the search
has gone beyond it. -/
theorem always_safe_newPort_iff (st : SizeTable) (calls : List Call)
    (hallowed : Always st Allowed newPort calls) :
    Always st (Safe st) newPort calls ↔ Always st (Proper st) newPort calls :=
  always_safe_iff calls (newPort_inv st) hallowed

def threeSizes : SizeTable := ⟨[2,4,8],by decide,by decide⟩

/-- A table of two slots is to have six: no size but 8 is enough, and it stays. -/
def twoSteps : List Call :=
  [.dngrowStart itsSizeNone true,.dngrowFinish 0 ⟨1,fun _ => ⟨0,0⟩⟩,.dngrowStart 6 true,
    .dngrowFinish 0 ⟨2,fun _ => ⟨0,0⟩⟩]

theorem always_safe_newPort_iff_dnrequest :
    Always threeSizes Allowed newPort [.dngrowStart itsSizeNone true,
      .dngrowFinish 0 ⟨1,fun _ => ⟨0,0⟩⟩,.dnrequest 5 7,.dncancel 5 1,.destroy] ∧
    (Always threeSizes (Safe threeSizes) newPort [.dngrowStart itsSizeNone true,
      .dngrowFinish 0 ⟨1,fun _ => ⟨0,0⟩⟩,.dnrequest 5 7,.dncancel 5 1,.destroy] ↔
    Always threeSizes (Proper threeSizes) newPort [.dngrowStart itsSizeNone true,
      .dngrowFinish 0 ⟨1,fun _ => ⟨0,0⟩⟩,.dnrequest 5 7,.dncancel 5 1,.destroy]) := by
  have hallowed : Always threeSizes Allowed newPort [.dngrowStart itsSizeNone true,
      .dngrowFinish 0 ⟨1,fun _ => ⟨0,0⟩⟩,.dnrequest 5 7,.dncancel 5 1,.destroy] :=
    ⟨rfl,zero_lt_one,⟨rfl,by decide⟩,⟨rfl,7,by decide⟩,rfl,trivial⟩
  exact ⟨hallowed,always_safe_newPort_iff threeSizes _ hallowed⟩

theorem success_without_growing : Always threeSizes Allowed newPort twoSteps ∧
    ¬Always threeSizes (Safe threeSizes) newPort twoSteps := by
  refine ⟨⟨rfl,zero_lt_one,rfl,?_,trivial⟩,?_⟩
  · change 0<List.length _
    decide +kernel
  rintro ⟨-,-,-,hsafe,-⟩
  obtain ⟨table,htable,hsize⟩ := hsafe.grows 6 (by decide +kernel) (by decide)
  have hstays : ((runCalls threeSizes newPort twoSteps).dnrequests.map Table.iprSize)=some 0 := by
    decide +kernel
  have hits := mem_map_of_mem Table.iprSize htable
  obtain hzero : 0=table.iprSize := some.inj (hstays.symm.trans hits)
  rw [←hzero] at hsize
  exact absurd hsize (by decide)

end Darwin.Ipc.DnRequests
