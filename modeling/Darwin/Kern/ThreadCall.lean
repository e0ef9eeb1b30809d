import Mathlib.Data.UInt

/-! Callouts, from `osfmk/kern/thread_call.c`: call entries on the pending and the delayed queue.
Each routine runs under the thread-call lock, so it is one step. A queue is the list of its entries
from head to tail, and a panic gives nothing. -/
open Function
namespace Darwin.Kern

def internal_call_num : ℕ := 768

/-- A call entry: one of the internal pool, or one that a client owns. -/
inductive ThreadCall (E : Type)
  | internal (i : Fin internal_call_num)
  | client (e : E)
  deriving DecidableEq

inductive CallState
  | idle
  | pending
  | delayed
  deriving DecidableEq

abbrev AbsoluteTime := UInt64

/-- `struct call_entry` -/
structure CallEntry (F P : Type) where
  func : F
  param0 : P
  param1 : P
  deadline : AbsoluteTime
  state : CallState

/-- The length of a queue and its highest value so far. -/
structure Count where
  num : ℤ
  hiwat : ℤ

def Count.up (c : Count) : Count :=
  if c.hiwat<c.num+1 then ⟨c.num+1,c.num+1⟩ else ⟨c.num+1,c.hiwat⟩

def Count.down (c : Count) : Count := ⟨c.num-1,c.hiwat⟩

@[simp] lemma Count.up_num (c : Count) : c.up.num=c.num+1 := by
  rw [Count.up]
  split <;> rfl

/-- The entries, the queues and their counts. -/
structure ThreadCalls (E F P : Type) where
  entry : ThreadCall E → CallEntry F P
  internal_call_free_queue : List (ThreadCall E)
  pending_call_queue : List (ThreadCall E)
  delayed_call_queue : List (ThreadCall E)
  pending : Count
  delayed : Count

def insertDeadline {α : Type} (deadline : α → AbsoluteTime) (call : α) : List α → List α
  | [] => [call]
  | current::calls =>
    if deadline call<deadline current then call::current::calls
    else current::insertDeadline deadline call calls

namespace ThreadCalls

variable {E F P : Type} [DecidableEq E]

/-- The state after `thread_call_initialize`, with the clients' entries set up. -/
def threadCallInitialize (entry : ThreadCall E → CallEntry F P) : ThreadCalls E F P where
  entry call := {entry call with state := .idle}
  internal_call_free_queue := (List.finRange internal_call_num).map .internal
  pending_call_queue := []
  delayed_call_queue := []
  pending := ⟨0,0⟩
  delayed := ⟨0,0⟩

def setEntry (s : ThreadCalls E F P) (call : ThreadCall E)
    (f : CallEntry F P → CallEntry F P) : ThreadCalls E F P :=
  {s with entry := update s.entry call (f (s.entry call))}

section Queues

def remque (s : ThreadCalls E F P) (call : ThreadCall E) : ThreadCalls E F P :=
  { s with
    internal_call_free_queue := s.internal_call_free_queue.erase call
    pending_call_queue := s.pending_call_queue.erase call
    delayed_call_queue := s.delayed_call_queue.erase call}

def internalCallAllocate (s : ThreadCalls E F P) : Option (ThreadCall E × ThreadCalls E F P) :=
  match s.internal_call_free_queue with
  | [] => none
  | call::calls => some (call,{s with internal_call_free_queue := calls})

def internalCallRelease (s : ThreadCalls E F P) (call : ThreadCall E) : ThreadCalls E F P :=
  match call with
  | .internal _ => {s with internal_call_free_queue := s.internal_call_free_queue++[call]}
  | .client _ => s

def pendingCallEnqueue (s : ThreadCalls E F P) (call : ThreadCall E) : ThreadCalls E F P :=
  let s := { s with
    pending_call_queue := s.pending_call_queue++[call]
    pending := s.pending.up}
  s.setEntry call fun e => {e with state := .pending}

def pendingCallDequeue (s : ThreadCalls E F P) (call : ThreadCall E) : ThreadCalls E F P :=
  let s := s.remque call
  let s := {s with pending := s.pending.down}
  s.setEntry call fun e => {e with state := .idle}

def delayedCallEnqueue (s : ThreadCalls E F P) (call : ThreadCall E) : ThreadCalls E F P :=
  let s := { s with
    delayed_call_queue :=
      insertDeadline (fun c => (s.entry c).deadline) call s.delayed_call_queue
    delayed := s.delayed.up}
  s.setEntry call fun e => {e with state := .delayed}

def delayedCallDequeue (s : ThreadCalls E F P) (call : ThreadCall E) : ThreadCalls E F P :=
  let s := s.remque call
  let s := {s with delayed := s.delayed.down}
  s.setEntry call fun e => {e with state := .idle}

@[simp] lemma setEntry_entry (s : ThreadCalls E F P) (call : ThreadCall E)
    (f : CallEntry F P → CallEntry F P) :
    (s.setEntry call f).entry=update s.entry call (f (s.entry call)) := rfl

@[simp] lemma pendingCallEnqueue_entry (s : ThreadCalls E F P) (call : ThreadCall E) :
    (s.pendingCallEnqueue call).entry =
      update s.entry call {s.entry call with state := .pending} := rfl

@[simp] lemma delayedCallEnqueue_entry (s : ThreadCalls E F P) (call : ThreadCall E) :
    (s.delayedCallEnqueue call).entry =
      update s.entry call {s.entry call with state := .delayed} := rfl

@[simp] lemma delayedCallDequeue_entry (s : ThreadCalls E F P) (call : ThreadCall E) :
    (s.delayedCallDequeue call).entry =
      update s.entry call {s.entry call with state := .idle} := rfl

omit [DecidableEq E] in
@[simp] lemma internalCallRelease_entry (s : ThreadCalls E F P) (call : ThreadCall E) :
    (s.internalCallRelease call).entry=s.entry := by cases call <;> rfl

variable [DecidableEq F] [DecidableEq P]

def matches_ (s : ThreadCalls E F P) (func : F) (param0 : P) (call : ThreadCall E) : Bool :=
  (s.entry call).func=func ∧ (s.entry call).param0=param0

/-- The loop over a queue that removes its first entry (or all) for a function and argument. -/
def removeLoop (dequeue : ThreadCalls E F P → ThreadCall E → ThreadCalls E F P) (func : F)
    (param0 : P) (remove_all : Bool) :
    List (ThreadCall E) → ThreadCalls E F P → ThreadCalls E F P × Bool
  | [],s => (s,false)
  | call::calls,s =>
    if s.matches_ func param0 call then
      let s := (dequeue s call).internalCallRelease call
      if remove_all then ((removeLoop dequeue func param0 remove_all calls s).1,true)
      else (s,true)
    else removeLoop dequeue func param0 remove_all calls s

def removeFromPendingQueue (s : ThreadCalls E F P) (func : F) (param0 : P)
    (remove_all : Bool) : ThreadCalls E F P × Bool :=
  removeLoop pendingCallDequeue func param0 remove_all s.pending_call_queue s

def removeFromDelayedQueue (s : ThreadCalls E F P) (func : F) (param0 : P)
    (remove_all : Bool) : ThreadCalls E F P × Bool :=
  removeLoop delayedCallDequeue func param0 remove_all s.delayed_call_queue s

end Queues

section Routines

variable [DecidableEq F] [DecidableEq P] (nil : P)

def thread_call_func (s : ThreadCalls E F P) (func : F) (param : P) (unique_call : Bool) :
    Option (ThreadCalls E F P) :=
  if unique_call ∧ s.pending_call_queue.any (s.matches_ func param) then some s
  else s.internalCallAllocate.map fun r =>
    let s := r.2.setEntry r.1 fun e => {e with func := func,param0 := param,param1 := nil}
    s.pendingCallEnqueue r.1

def thread_call_func_delayed (s : ThreadCalls E F P) (func : F) (param : P)
    (deadline : AbsoluteTime) : Option (ThreadCalls E F P) :=
  s.internalCallAllocate.map fun r =>
    let s := r.2.setEntry r.1 fun e =>
      {e with func := func,param0 := param,param1 := nil,deadline := deadline}
    s.delayedCallEnqueue r.1

def thread_call_func_cancel (s : ThreadCalls E F P) (func : F) (param : P)
    (cancel_all : Bool) : ThreadCalls E F P × Bool :=
  let pending := s.removeFromPendingQueue func param cancel_all
  if cancel_all then
    let delayed := pending.1.removeFromDelayedQueue func param cancel_all
    (delayed.1,pending.2 || delayed.2)
  else if pending.2 then pending
  else pending.1.removeFromDelayedQueue func param cancel_all

def thread_call_enter1 (s : ThreadCalls E F P) (call : ThreadCall E) (param1 : P) :
    ThreadCalls E F P × Bool :=
  let r : ThreadCalls E F P × Bool :=
    match (s.entry call).state with
    | .pending => (s,true)
    | .delayed => ((s.delayedCallDequeue call).pendingCallEnqueue call,true)
    | .idle => (s.pendingCallEnqueue call,false)
  (r.1.setEntry call fun e => {e with param1 := param1},r.2)

def thread_call_enter (s : ThreadCalls E F P) (call : ThreadCall E) :
    ThreadCalls E F P × Bool := s.thread_call_enter1 call nil

def dequeueCall (s : ThreadCalls E F P) (call : ThreadCall E) : ThreadCalls E F P × Bool :=
  match (s.entry call).state with
  | .pending => (s.pendingCallDequeue call,true)
  | .delayed => (s.delayedCallDequeue call,true)
  | .idle => (s,false)

def thread_call_enter1_delayed (s : ThreadCalls E F P) (call : ThreadCall E) (param1 : P)
    (deadline : AbsoluteTime) : ThreadCalls E F P × Bool :=
  let r := s.dequeueCall call
  let s := r.1.setEntry call fun e => {e with param1 := param1,deadline := deadline}
  (s.delayedCallEnqueue call,r.2)

def thread_call_enter_delayed (s : ThreadCalls E F P) (call : ThreadCall E)
    (deadline : AbsoluteTime) : ThreadCalls E F P × Bool :=
  s.thread_call_enter1_delayed call nil deadline

def thread_call_cancel (s : ThreadCalls E F P) (call : ThreadCall E) :
    ThreadCalls E F P × Bool := s.dequeueCall call

/-- What a callout thread is to call. -/
structure Dispatch (E F P : Type) where
  call : ThreadCall E
  func : F
  param0 : P
  param1 : P

/-- One turn of the loop in `_call_thread_continue`, up to the call of the function; nothing when
there is nothing on the pending queue after all. -/
def callThread (s : ThreadCalls E F P) : Option (ThreadCalls E F P × Option (Dispatch E F P)) :=
  if 0<s.pending.num then
    match s.pending_call_queue with
    | [] => none
    | call::calls =>
      let s := {s with pending_call_queue := calls,pending := s.pending.down}
      let e := s.entry call
      let s := s.setEntry call fun e => {e with state := .idle}
      some (s.internalCallRelease call,some ⟨call,e.func,e.param0,e.param1⟩)
  else some (s,none)

/-- The loop of `_delayed_call_timer` over the entries from the head of the delayed queue. -/
def timerLoop (timestamp : AbsoluteTime) :
    List (ThreadCall E) → ThreadCalls E F P → ThreadCalls E F P
  | [],s => s
  | call::calls,s =>
    if (s.entry call).deadline≤timestamp then
      timerLoop timestamp calls ((s.delayedCallDequeue call).pendingCallEnqueue call)
    else s

def delayedCallTimer (s : ThreadCalls E F P) (timestamp : AbsoluteTime) : ThreadCalls E F P :=
  timerLoop timestamp s.delayed_call_queue s

end Routines

section Steps

/-- A routine that is run. A client passes its own entries. -/
inductive Event (E F P : Type)
  | func (func : F) (param : P) (unique_call : Bool)
  | funcDelayed (func : F) (param : P) (deadline : AbsoluteTime)
  | funcCancel (func : F) (param : P) (cancel_all : Bool)
  | enter (e : E)
  | enter1 (e : E) (param1 : P)
  | enterDelayed (e : E) (deadline : AbsoluteTime)
  | enter1Delayed (e : E) (param1 : P) (deadline : AbsoluteTime)
  | cancel (e : E)
  | timer (timestamp : AbsoluteTime)
  | thread

/-- What a routine returns or calls. -/
inductive Output (E F P : Type)
  | quiet
  | result (b : Bool)
  | dispatched (d : Dispatch E F P)

variable [DecidableEq F] [DecidableEq P] (nil : P)

def step (s : ThreadCalls E F P) : Event E F P → Option (ThreadCalls E F P × Output E F P)
  | .func func param unique_call =>
    (s.thread_call_func nil func param unique_call).map fun s => (s,.quiet)
  | .funcDelayed func param deadline =>
    (s.thread_call_func_delayed nil func param deadline).map fun s => (s,.quiet)
  | .funcCancel func param cancel_all =>
    let r := s.thread_call_func_cancel func param cancel_all
    some (r.1,.result r.2)
  | .enter e =>
    let r := s.thread_call_enter nil (.client e)
    some (r.1,.result r.2)
  | .enter1 e param1 =>
    let r := s.thread_call_enter1 (.client e) param1
    some (r.1,.result r.2)
  | .enterDelayed e deadline =>
    let r := s.thread_call_enter_delayed nil (.client e) deadline
    some (r.1,.result r.2)
  | .enter1Delayed e param1 deadline =>
    let r := s.thread_call_enter1_delayed (.client e) param1 deadline
    some (r.1,.result r.2)
  | .cancel e =>
    let r := s.thread_call_cancel (.client e)
    some (r.1,.result r.2)
  | .timer timestamp => some (s.delayedCallTimer timestamp,.quiet)
  | .thread => s.callThread.map fun r =>
      match r.2 with
      | none => (r.1,.quiet)
      | some d => (r.1,.dispatched d)

end Steps

end ThreadCalls

end Darwin.Kern
