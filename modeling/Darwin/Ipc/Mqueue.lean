import Mathlib.Algebra.Ring.Nat
import Mathlib.Data.List.Basic

/-! Message queues of ports and port sets, from `ipc/ipc_mqueue.c` and the wait queues of
`kern/wait_queue.c` under them: what threads do with them, lock by lock. -/
open Function
namespace Darwin.Ipc

variable {Port PortSet Thread : Type}

/-- A message in the kernel. `id` tells messages of the same form apart. -/
structure IpcKmsg where
  id : ℕ
  msghSize : ℕ
  sendOnce : Bool
  deriving DecidableEq

def rcvLarge (option : ℕ) : Bool := option.testBit 2
def sendTimeout (option : ℕ) : Bool := option.testBit 4
def rcvTimeout (option : ℕ) : Bool := option.testBit 8
def sendAlways (option : ℕ) : Bool := option.testBit 16

/-- `REQUESTED_TRAILER_SIZE`: the table has three entries, what lies behind it is taken as 0. -/
def requestedTrailerSize (option : ℕ) : ℕ := [8,12,20].getD ((option>>>24)%16) 0

def tooLarge (kmsg : IpcKmsg) (option msize : ℕ) : Bool :=
  msize<(kmsg.msghSize+requestedTrailerSize option)%2^32

inductive MachMsgReturn
  | success | sendTimedOut | sendInterrupted
  | rcvInProgress | rcvTooLarge | rcvTimedOut | rcvInterrupted | rcvPortChanged
  deriving DecidableEq

/-- The fields `ith_*` of a thread, in which it finds what it receives. -/
structure Ith where
  ithMsize : ℕ
  ithOption : ℕ
  ithState : MachMsgReturn
  ithKmsg : Option IpcKmsg
  ithSeqno : ℕ

def Ith.accepts (th : Ith) (kmsg : IpcKmsg) : Bool :=
  !tooLarge kmsg th.ithOption th.ithMsize || !rcvLarge th.ithOption

def Ith.offer (th : Ith) (kmsg : IpcKmsg) (seqno : ℕ) : Ith :=
  let told := if tooLarge kmsg th.ithOption th.ithMsize
    then {th with ithMsize := kmsg.msghSize,ithState := .rcvTooLarge}
    else {th with ithState := .success}
  if th.accepts kmsg then {told with ithKmsg := some kmsg,ithSeqno := seqno}
  else {told with ithKmsg := none,ithSeqno := 0}

/-- `IPC_MQUEUE_FULL` and `IPC_MQUEUE_RECEIVE`. -/
inductive WaitEvent
  | full | receive
  deriving DecidableEq

inductive WaitResult
  | awakened | timedOut | interrupted | restart
  deriving DecidableEq

/-- An element of a port's wait queue: a thread, or the link to the queue of a port set. -/
inductive Waiter (PortSet Thread : Type)
  | thread (t : Thread) (event : WaitEvent)
  | sub (s : PortSet)
  deriving DecidableEq

/-- The message queue of a port. `active` is the port's own bit, `lock` the thread that holds the
lock of the queue. -/
structure Mqueue (PortSet Thread : Type) where
  waitQueue : List (Waiter PortSet Thread)
  messages : List IpcKmsg
  msgcount : ℕ
  qlimit : ℕ
  seqno : ℕ
  fullwaiters : Bool
  active : Bool
  lock : Option Thread

def remqueue {α : Type} [DecidableEq α] (queue : List α) (x : α) : List α :=
  queue.filter fun y => y≠x

def Mqueue.full (mq : Mqueue PortSet Thread) : Bool := decide (mq.qlimit ≤ mq.msgcount)

/-- The first thread that waits for space. Nobody waits for space on a port set. -/
def Mqueue.firstFull (mq : Mqueue PortSet Thread) : Option Thread :=
  mq.waitQueue.findSome? fun
    | .thread t .full => some t
    | _ => none

/-- The message queue of a port set; only receivers wait there. -/
structure SetQueue (Port Thread : Type) where
  waitQueue : List Thread
  setlinks : List Port
  lock : Option Thread

def Mqueue.init : Mqueue PortSet Thread := ⟨[],[],0,5,0,false,true,none⟩
def SetQueue.init : SetQueue Port Thread := ⟨[],[],none⟩

/-- A queue to receive from. -/
inductive Source (Port PortSet : Type)
  | port (p : Port)
  | set (s : PortSet)
  deriving DecidableEq

/-- Where a thread is. At `posting`, `handingOff` and `selecting` it has the lock of the port's
queue, at `searching` that of the set's; `walk` and `rest` are what is still to be looked at. -/
inductive Spot (Port PortSet Thread : Type)
  | outside
  | send (p : Port) (kmsg : IpcKmsg) (option timeout : ℕ)
  | blockedSend (p : Port) (kmsg : IpcKmsg)
  | post (p : Port) (kmsg : IpcKmsg)
  | posting (p : Port) (kmsg : IpcKmsg) (walk : List (Waiter PortSet Thread))
  | sent (result : MachMsgReturn)
  | searching (s : PortSet) (rest : List Port) (option maxSize timeout : ℕ)
  | searchAgain (s : PortSet) (option maxSize timeout : ℕ)
  | selecting (p : Port) (option maxSize : ℕ)
  | blockedReceive (source : Source Port PortSet)
  | receiveWoken (result : WaitResult)
  | received
  | handOff (p : Port)
  | handingOff (p : Port) (walk : List (Waiter PortSet Thread))
  | destroying (p : Port)
  | draining (p : Port)
  | returned

/-- The place of a thread after `thread_block`. A sender that is awakened goes on to post. -/
def Spot.wake : Spot Port PortSet Thread → WaitResult → Spot Port PortSet Thread
  | .blockedSend p kmsg,.awakened => .post p kmsg
  | .blockedSend _ _,.timedOut => .sent .sendTimedOut
  | .blockedSend _ _,_ => .sent .sendInterrupted
  | .blockedReceive _,result => .receiveWoken result
  | place,_ => place

/-- What happens to messages, for the record. -/
inductive QueueEvent (Port Thread : Type)
  | posted (p : Port) (kmsg : IpcKmsg)
  | given (p : Port) (kmsg : IpcKmsg) (seqno : ℕ) (t : Thread)
  | refused (t : Thread)
  | destroyed (p : Port) (kmsg : IpcKmsg)
  | drained (p : Port)
  | seqnoSet (p : Port) (seqno : ℕ)
  deriving DecidableEq

structure Queues (Port PortSet Thread : Type) where
  ports : Port → Mqueue PortSet Thread
  sets : PortSet → SetQueue Port Thread
  place : Thread → Spot Port PortSet Thread
  ith : Thread → Ith
  vmPrivilege : Thread → Bool

def Queues.start (ith : Thread → Ith) (vmPrivilege : Thread → Bool) : Queues Port PortSet Thread :=
  ⟨fun _ => .init,fun _ => .init,fun _ => .outside,ith,vmPrivilege⟩

inductive QueueAction (Port PortSet Thread : Type)
  | kmsgSend (p : Port) (kmsg : IpcKmsg) (option timeout : ℕ)
  | receive (source : Source Port PortSet) (option maxSize timeout : ℕ)
  | proceed (tryLock : Bool)
  | clearWait (t : Thread) (result : WaitResult)
  | psetAdd (p : Port) (s : PortSet) (kalloc : Bool)
  | psetRemove (p : Port) (s : PortSet)
  | setQlimit (p : Port) (qlimit : ℕ)
  | setSeqno (p : Port) (seqno : ℕ)
  | destroy (p : Port)
  | resume

namespace Queues

variable [DecidableEq Port] [DecidableEq PortSet] [DecidableEq Thread]

def setPort (σ : Queues Port PortSet Thread) (p : Port) (mq : Mqueue PortSet Thread) :
    Queues Port PortSet Thread :=
  {σ with ports := update σ.ports p mq}

def setSet (σ : Queues Port PortSet Thread) (s : PortSet) (sq : SetQueue Port Thread) :
    Queues Port PortSet Thread :=
  {σ with sets := update σ.sets s sq}

def setPlace (σ : Queues Port PortSet Thread) (t : Thread) (place : Spot Port PortSet Thread) :
    Queues Port PortSet Thread :=
  {σ with place := update σ.place t place}

def setIth (σ : Queues Port PortSet Thread) (t : Thread) (ith : Ith) : Queues Port PortSet Thread :=
  {σ with ith := update σ.ith t ith}

def unlockPort (σ : Queues Port PortSet Thread) (p : Port) : Queues Port PortSet Thread :=
  σ.setPort p {σ.ports p with lock := none}

def unlockSet (σ : Queues Port PortSet Thread) (s : PortSet) : Queues Port PortSet Thread :=
  σ.setSet s {σ.sets s with lock := none}

def wake (σ : Queues Port PortSet Thread) (t : Thread) (result : WaitResult) :
    Queues Port PortSet Thread :=
  σ.setPlace t ((σ.place t).wake result)

def assertWait {α : Type} (σ : Queues Port PortSet Thread) (t : Thread) (x : α) (queue : List α) :
    List α :=
  if σ.vmPrivilege t then x::queue else queue++[x]

def wakeSender (σ : Queues Port PortSet Thread) (p : Port) (t : Thread) :
    Queues Port PortSet Thread :=
  (σ.setPort p { σ.ports p with
    waitQueue := remqueue (σ.ports p).waitQueue (.thread t .full)}).wake t .awakened

def wakeSenders (σ : Queues Port PortSet Thread) (p : Port) : ℕ → Queues Port PortSet Thread
  | 0 => σ
  | n+1 =>
    match (σ.ports p).firstFull with
    | none => σ.setPort p {σ.ports p with fullwaiters := false}
    | some t => wakeSenders (σ.wakeSender p t) p n

def releaseMsgcount (σ : Queues Port PortSet Thread) (p : Port) : Queues Port PortSet Thread :=
  let mq := {σ.ports p with msgcount := ((σ.ports p).msgcount+(2^32-1))%2^32}
  let σ := σ.setPort p mq
  if !mq.full && mq.fullwaiters then
    match mq.firstFull with
    | none => σ.setPort p {mq with fullwaiters := false}
    | some t =>
      let σ := σ.wakeSender p t
      -- gave it away
      σ.setPort p {σ.ports p with msgcount := ((σ.ports p).msgcount+1)%2^32}
  else σ

inductive Pick (PortSet Thread : Type)
  | nobody
  | skip (walk : List (Waiter PortSet Thread))
  | receiver (s : Option PortSet) (t : Thread)

/-- One step of `_wait_queue_select_one` for a receiver; it waits for the lock of a set. -/
def pick (σ : Queues Port PortSet Thread) :
    List (Waiter PortSet Thread) → Option (Pick PortSet Thread)
  | [] => some .nobody
  | .thread t .receive::_ => some (.receiver none t)
  | .thread _ .full::walk => some (.skip walk)
  | .sub s::walk =>
    if (σ.sets s).lock.isSome then none
    else
      match (σ.sets s).waitQueue with
      | [] => some (.skip walk)
      | t::_ => some (.receiver (some s) t)

/-- Takes a receiver off the queue it waits on, offers it the message and lets it run. -/
def offer (σ : Queues Port PortSet Thread) (p : Port) (s : Option PortSet) (t : Thread)
    (kmsg : IpcKmsg) : Queues Port PortSet Thread :=
  let seqno := (σ.ports p).seqno
  let σ := match s with
    | none => σ.setPort p { σ.ports p with
        waitQueue := remqueue (σ.ports p).waitQueue (.thread t .receive)}
    | some s => σ.setSet s {σ.sets s with waitQueue := remqueue (σ.sets s).waitQueue t}
  (σ.setIth t ((σ.ith t).offer kmsg seqno)).wake t .awakened

def nextSeqno (σ : Queues Port PortSet Thread) (p : Port) : Queues Port PortSet Thread :=
  σ.setPort p {σ.ports p with seqno := ((σ.ports p).seqno+1)%2^32}

def select (σ : Queues Port PortSet Thread) (t : Thread) (p : Port) (option maxSize : ℕ)
    (kmsg : IpcKmsg) (rest : List IpcKmsg) :
    Queues Port PortSet Thread × List (QueueEvent Port Thread) :=
  let mr := if tooLarge kmsg option maxSize then MachMsgReturn.rcvTooLarge else .success
  if mr=.rcvTooLarge && rcvLarge option then
    (σ.setIth t { σ.ith t with
      ithKmsg := none,ithMsize := kmsg.msghSize,ithSeqno := 0,ithState := mr},[.refused t])
  else
    let seqno := (σ.ports p).seqno
    let σ := ((σ.setPort p {σ.ports p with messages := rest}).releaseMsgcount p).nextSeqno p
    (σ.setIth t {σ.ith t with ithSeqno := seqno,ithKmsg := some kmsg,ithState := mr},
      [.given p kmsg seqno t])

/-- The end of `ipc_mqueue_receive` for a thread that has found no message: the fields are set and
the thread is ready to wait. -/
def awaitMessage (σ : Queues Port PortSet Thread) (t : Thread) (source : Source Port PortSet)
    (option maxSize : ℕ) : Queues Port PortSet Thread :=
  (σ.setIth t { σ.ith t with
    ithState := .rcvInProgress,ithOption := option,ithMsize := maxSize}).setPlace t
      (.blockedReceive source)

def receiveTimedOut (σ : Queues Port PortSet Thread) (t : Thread) : Queues Port PortSet Thread :=
  (σ.setIth t {σ.ith t with ithState := .rcvTimedOut}).setPlace t .received

def receivePort (σ : Queues Port PortSet Thread) (t : Thread) (p : Port)
    (option maxSize timeout : ℕ) : Queues Port PortSet Thread × List (QueueEvent Port Thread) :=
  match (σ.ports p).messages with
  | kmsg::rest =>
    let r := σ.select t p option maxSize kmsg rest
    (r.1.setPlace t .received,r.2)
  | [] =>
    if rcvTimeout option && timeout == 0 then (σ.receiveTimedOut t,[])
    else
      ((σ.setPort p { σ.ports p with
        waitQueue := σ.assertWait t (.thread t .receive) (σ.ports p).waitQueue}).awaitMessage t
          (.port p) option maxSize,[])

def mqueueSend (σ : Queues Port PortSet Thread) (t : Thread) (p : Port) (kmsg : IpcKmsg)
    (option timeout : ℕ) : Queues Port PortSet Thread :=
  let mq := σ.ports p
  if !mq.full || sendAlways option || kmsg.sendOnce then
    (σ.setPort p {mq with msgcount := (mq.msgcount+1)%2^32}).setPlace t (.post p kmsg)
  else if sendTimeout option && timeout == 0 then σ.setPlace t (.sent .sendTimedOut)
  else
    (σ.setPort p { mq with
      fullwaiters := true
      waitQueue := σ.assertWait t (.thread t .full) mq.waitQueue}).setPlace t
        (.blockedSend p kmsg)

def posting (σ : Queues Port PortSet Thread) (t : Thread) (p : Port) (kmsg : IpcKmsg)
    (walk : List (Waiter PortSet Thread)) :
    Option (Queues Port PortSet Thread × List (QueueEvent Port Thread)) :=
  match σ.pick walk with
  | none => none
  | some (.skip walk) => some (σ.setPlace t (.posting p kmsg walk),[])
  | some .nobody =>
    some (((σ.setPort p { σ.ports p with
      messages := (σ.ports p).messages++[kmsg]}).unlockPort p).setPlace t (.sent .success),
        [.posted p kmsg])
  | some (.receiver s r) =>
    if (σ.ith r).accepts kmsg then
      some (((((σ.offer p s r kmsg).nextSeqno p).releaseMsgcount p).unlockPort p).setPlace t
        (.sent .success),[.posted p kmsg,.given p kmsg (σ.ports p).seqno r])
    else
      let σ := σ.offer p s r kmsg
      some (σ.setPlace t (.posting p kmsg (σ.ports p).waitQueue),[.refused r])

def handingOff (σ : Queues Port PortSet Thread) (t : Thread) (p : Port)
    (walk : List (Waiter PortSet Thread)) :
    Option (Queues Port PortSet Thread × List (QueueEvent Port Thread)) :=
  match (σ.ports p).messages with
  | [] => some ((σ.unlockPort p).setPlace t .returned,[])
  | kmsg::rest =>
    match σ.pick walk with
    | none => none
    | some (.skip walk) => some (σ.setPlace t (.handingOff p walk),[])
    | some .nobody => some ((σ.unlockPort p).setPlace t .returned,[])
    | some (.receiver s r) =>
      let seqno := (σ.ports p).seqno
      let accepts := (σ.ith r).accepts kmsg
      let σ := σ.offer p s r kmsg
      if accepts then
        let σ := σ.releaseMsgcount p
        let σ := (σ.setPort p {σ.ports p with messages := rest}).nextSeqno p
        some (σ.setPlace t (.handingOff p (σ.ports p).waitQueue),[.given p kmsg seqno r])
      else some (σ.setPlace t (.handingOff p (σ.ports p).waitQueue),[.refused r])

/-- One turn of the loop of `ipc_mqueue_destroy`, which gives up the lock for every message. -/
def drain (σ : Queues Port PortSet Thread) (t : Thread) (p : Port) :
    Queues Port PortSet Thread × List (QueueEvent Port Thread) :=
  match (σ.ports p).messages with
  | [] => (σ.setPlace t .returned,[.drained p])
  | kmsg::rest =>
    ((σ.setPort p {σ.ports p with messages := rest}).setPlace t (.draining p),[.destroyed p kmsg])

def receiveResults (σ : Queues Port PortSet Thread) (t : Thread) (result : WaitResult) :
    Queues Port PortSet Thread :=
  let σ := match result with
    | .awakened => σ
    | .timedOut => σ.setIth t {σ.ith t with ithState := .rcvTimedOut}
    | .interrupted => σ.setIth t {σ.ith t with ithState := .rcvInterrupted}
    | .restart => σ.setIth t {σ.ith t with ithState := .rcvPortChanged}
  σ.setPlace t .received

/-- The search of `ipc_mqueue_receive` through the ports of a set; the lock of a port is only
tried. -/
def searching (σ : Queues Port PortSet Thread) (t : Thread) (s : PortSet) (rest : List Port)
    (option maxSize timeout : ℕ) (tryLock : Bool) : Queues Port PortSet Thread :=
  match rest with
  | [] =>
    if rcvTimeout option && timeout == 0 then (σ.unlockSet s).receiveTimedOut t
    else
      (σ.setSet s { σ.sets s with
        waitQueue := σ.assertWait t t (σ.sets s).waitQueue,lock := none}).awaitMessage t (.set s)
          option maxSize
  | p::rest =>
    if tryLock && (σ.ports p).lock.isNone then
      if (σ.ports p).messages=[] then
        σ.setPlace t (.searching s rest option maxSize timeout)
      else
        ((σ.setSet s { σ.sets s with
          setlinks := remqueue (σ.sets s).setlinks p++[p],lock := none}).setPort p
            {σ.ports p with lock := some t}).setPlace t (.selecting p option maxSize)
    else (σ.unlockSet s).setPlace t (.searchAgain s option maxSize timeout)

/-- The next step of a thread that is inside a routine; there is none while the lock it asks for is
taken. -/
def proceed (σ : Queues Port PortSet Thread) (t : Thread) (tryLock : Bool) :
    Option (Queues Port PortSet Thread × List (QueueEvent Port Thread)) :=
  match σ.place t with
  | .send p kmsg option timeout =>
    if (σ.ports p).lock.isSome then none else some (σ.mqueueSend t p kmsg option timeout,[])
  | .post p kmsg =>
    if (σ.ports p).lock.isSome then none
    else some ((σ.setPort p {σ.ports p with lock := some t}).setPlace t
      (.posting p kmsg (σ.ports p).waitQueue),[])
  | .posting p kmsg walk => σ.posting t p kmsg walk
  | .searching s rest option maxSize timeout =>
    some (σ.searching t s rest option maxSize timeout tryLock,[])
  | .searchAgain s option maxSize timeout =>
    if (σ.sets s).lock.isSome then none
    else some ((σ.setSet s {σ.sets s with lock := some t}).setPlace t
      (.searching s (σ.sets s).setlinks option maxSize timeout),[])
  | .selecting p option maxSize =>
    match (σ.ports p).messages with
    | [] => none
    | kmsg::rest =>
      let r := σ.select t p option maxSize kmsg rest
      some ((r.1.unlockPort p).setPlace t .received,r.2)
  | .receiveWoken result => some (σ.receiveResults t result,[])
  | .handOff p =>
    if (σ.ports p).lock.isSome then none
    else some ((σ.setPort p {σ.ports p with lock := some t}).setPlace t
      (.handingOff p (σ.ports p).waitQueue),[])
  | .handingOff p walk => σ.handingOff t p walk
  | .destroying p =>
    if (σ.ports p).lock.isSome then none
    else
      let σ := σ.setPort p {σ.ports p with fullwaiters := false}
      some ((σ.wakeSenders p (σ.ports p).waitQueue.length).drain t p)
  | .draining p => if (σ.ports p).lock.isSome then none else some (σ.drain t p)
  | _ => none

/-- `wait_queue_remove`, for the timer, an abort or `ipc_mqueue_changed`; only a receiver can be
told to start again. -/
def clearWait (σ : Queues Port PortSet Thread) (t : Thread) (result : WaitResult) :
    Option (Queues Port PortSet Thread) :=
  if result=.awakened then none
  else
    match σ.place t with
    | .blockedSend p _ =>
      if result=.restart || (σ.ports p).lock.isSome then none
      else some ((σ.setPort p { σ.ports p with
        waitQueue := remqueue (σ.ports p).waitQueue (.thread t .full)}).wake t result)
    | .blockedReceive (.port p) =>
      if (σ.ports p).lock.isSome then none
      else some ((σ.setPort p { σ.ports p with
        waitQueue := remqueue (σ.ports p).waitQueue (.thread t .receive)}).wake t result)
    | .blockedReceive (.set s) =>
      if (σ.sets s).lock.isSome then none
      else some ((σ.setSet s { σ.sets s with
        waitQueue := remqueue (σ.sets s).waitQueue t}).wake t result)
    | _ => none

def call (σ : Queues Port PortSet Thread) (t : Thread) : QueueAction Port PortSet Thread →
    Option (Queues Port PortSet Thread × List (QueueEvent Port Thread))
  | .kmsgSend p kmsg option timeout =>
    -- can't deliver to a dead port
    if (σ.ports p).active then some (σ.setPlace t (.send p kmsg option timeout),[])
    else some (σ.setPlace t (.sent .success),[])
  | .receive (.port p) option maxSize timeout =>
    if (σ.ports p).lock.isSome then none else some (σ.receivePort t p option maxSize timeout)
  | .receive (.set s) option maxSize timeout =>
    some (σ.setPlace t (.searchAgain s option maxSize timeout),[])
  | .psetAdd p s kalloc =>
    if (σ.ports p).lock.isSome || (σ.sets s).lock.isSome then none
    else if .sub s∈(σ.ports p).waitQueue || !kalloc then some (σ.setPlace t .returned,[])
    else
      -- `wait_queue_link` gives up both locks before the loop takes that of the port again
      some (((σ.setPort p { σ.ports p with
        waitQueue := (σ.ports p).waitQueue++[.sub s]}).setSet s { σ.sets s with
          setlinks := (σ.sets s).setlinks++[p]}).setPlace t (.handOff p),[])
  | .psetRemove p s =>
    if (σ.ports p).lock.isSome || (σ.sets s).lock.isSome then none
    else
      some (((σ.setPort p { σ.ports p with
        waitQueue := remqueue (σ.ports p).waitQueue (.sub s)}).setSet s { σ.sets s with
          setlinks := remqueue (σ.sets s).setlinks p}).setPlace t .returned,[])
  | .setQlimit p qlimit =>
    if (σ.ports p).lock.isSome then none
    else
      let σ := if (σ.ports p).qlimit<qlimit
        then σ.wakeSenders p (qlimit-(σ.ports p).qlimit) else σ
      some ((σ.setPort p {σ.ports p with qlimit := qlimit}).setPlace t .returned,[])
  | .setSeqno p seqno =>
    if (σ.ports p).lock.isSome then none
    else some ((σ.setPort p {σ.ports p with seqno := seqno}).setPlace t .returned,
      [.seqnoSet p seqno])
  | .destroy p =>
    if (σ.ports p).active then
      some ((σ.setPort p {σ.ports p with active := false}).setPlace t (.destroying p),[])
    else none
  | _ => none

def step (σ : Queues Port PortSet Thread) (t : Thread) (a : QueueAction Port PortSet Thread) :
    Option (Queues Port PortSet Thread × List (QueueEvent Port Thread)) :=
  match a with
  | .proceed tryLock => σ.proceed t tryLock
  | .clearWait u result => (σ.clearWait u result).map fun σ => (σ,[])
  | .resume =>
    match σ.place t with
    | .sent _ | .received | .returned => some (σ.setPlace t .outside,[])
    | _ => none
  | a =>
    match σ.place t with
    | .outside => σ.call t a
    | _ => none

def run (σ : Queues Port PortSet Thread) : List (Thread × QueueAction Port PortSet Thread) →
    Option (Queues Port PortSet Thread × List (QueueEvent Port Thread))
  | [] => some (σ,[])
  | (t,a)::as =>
    match σ.step t a with
    | none => none
    | some (σ,es) => (run σ as).map fun r => (r.1,es++r.2)

end Queues

end Darwin.Ipc
