import Darwin.Kern.ThreadCallSteps

/-! The threads and timers behind callouts, from `osfmk/kern/thread_call.c` and
`osfmk/kern/timer_call.c`. A step is what one processor or thread does under the thread-call lock,
or under the timer-call lock; between steps both locks are free. -/
open Function Option
namespace Darwin.Kern

/-- Where a callout thread is: not there, on its way to `_call_thread_continue`, calling a function,
or waiting on the idle queue. -/
inductive Place
  | gone
  | ready
  | calling
  | idle
  deriving DecidableEq

/-- Where the activate thread is: on its way to `_activate_thread_continue`, creating a thread, or
asleep. -/
inductive ActivatePlace
  | ready
  | creating
  | asleep
  deriving DecidableEq

/-- A timer call: the thread-call timer of a processor, or any other. -/
inductive TimerCall (C O : Type)
  | delayedCalls (cpu : C)
  | other (o : O)
  deriving DecidableEq

/-- The timer calls: their deadlines and the queues of the processors. -/
structure TimerCalls (C O : Type) where
  deadline : TimerCall C O → AbsoluteTime
  delayed_call_queues : C → List (TimerCall C O)

/-- All of the callouts: the entries, the threads, and the timers. `expired` are the processors
whose thread-call timer is off its queue and whose `_delayed_call_timer` is still to run. -/
structure Callouts (C T O E F P : Type) where
  calls : ThreadCalls E F P
  idle_thread_queue : List T
  place : T → Place
  activate_thread_awake : Bool
  activate : ActivatePlace
  active : Count
  idle_thread_num : ℤ
  thread : Count
  timers : TimerCalls C O
  expired : C → Bool

def thread_call_thread_min : ℤ := 4

namespace TimerCalls

variable {C O : Type} [DecidableEq C] [DecidableEq O]

def timer_call_enter (s : TimerCalls C O) (cpu : C) (call : TimerCall C O)
    (deadline : AbsoluteTime) : TimerCalls C O :=
  let deadlines := update s.deadline call deadline
  let queues c := (s.delayed_call_queues c).erase call
  ⟨deadlines,update queues cpu (insertDeadline deadlines call (queues cpu))⟩

def timer_call_cancel (s : TimerCalls C O) (call : TimerCall C O) : TimerCalls C O :=
  {s with delayed_call_queues := fun c => (s.delayed_call_queues c).erase call}

/-- A turn of the loop in `timer_call_interrupt`, up to the call of the function: the first timer
call of the processor, if it is due. -/
def timer_call_interrupt (s : TimerCalls C O) (cpu : C) (timestamp : AbsoluteTime) :
    TimerCalls C O × Option (TimerCall C O) :=
  match s.delayed_call_queues cpu with
  | [] => (s,none)
  | call::calls =>
    if s.deadline call≤timestamp then
      ({s with delayed_call_queues := update s.delayed_call_queues cpu calls},some call)
    else (s,none)

def Armed (s : TimerCalls C O) (cpu : C) (deadline : AbsoluteTime) : Prop :=
  TimerCall.delayedCalls cpu∈s.delayed_call_queues cpu ∧ s.deadline (.delayedCalls cpu)=deadline

end TimerCalls

namespace Callouts

variable {C T O E F P : Type} [DecidableEq C] [DecidableEq T] [DecidableEq O] [DecidableEq E]
  [DecidableEq F] [DecidableEq P] (nil : P)

/-- The start: the activate thread is awake and there are no callout threads yet. -/
def start (entry : ThreadCall E → CallEntry F P) : Callouts C T O E F P where
  calls := ThreadCalls.threadCallInitialize entry
  idle_thread_queue := []
  place _ := .gone
  activate_thread_awake := true
  activate := .ready
  active := ⟨0,0⟩
  idle_thread_num := 0
  thread := ⟨0,0⟩
  timers := ⟨fun _ => 0,fun _ => []⟩
  expired _ := false

def callThreadWake (s : Callouts C T O E F P) : Callouts C T O E F P :=
  let r : Callouts C T O E F P × Bool :=
    match s.idle_thread_queue with
    | [] => (s,false)
    | thread_to_wake::threads =>
      ({ s with
        idle_thread_queue := threads
        place := update s.place thread_to_wake .ready
        idle_thread_num := s.idle_thread_num-1},true)
  let s := r.1
  if ¬s.activate_thread_awake ∧
      (¬r.2 ∨ s.thread.num<s.active.num+s.calls.pending.num) then
    {s with activate := .ready,activate_thread_awake := true}
  else s

/-- `_call_thread_continue` under the lock: the loop takes the next call, or the thread goes to the
idle queue or ends. -/
def callThreadContinue (s : Callouts C T O E F P) (self : T) :
    Option (Callouts C T O E F P × Option (ThreadCalls.Dispatch E F P)) :=
  s.calls.callThread.map fun r =>
    let s := {s with calls := r.1}
    match r.2 with
    | some d =>
      let s := { s with
        place := update s.place self .calling
        active := s.active.up}
      (if 0<s.calls.pending.num then s.callThreadWake else s,some d)
    | none =>
      if s.thread.num-s.active.num≤thread_call_thread_min then
        ({ s with
          idle_thread_queue := s.idle_thread_queue++[self]
          idle_thread_num := s.idle_thread_num+1
          place := update s.place self .idle},none)
      else
        ({ s with
          thread := s.thread.down
          place := update s.place self .gone},none)

/-- The function has returned: the end of the loop of `_call_thread_continue` and its next turn. -/
def callThreadReturn (s : Callouts C T O E F P) (self : T) :
    Option (Callouts C T O E F P × Option (ThreadCalls.Dispatch E F P)) :=
  callThreadContinue {s with active := s.active.down} self

def activateThreadContinue (s : Callouts C T O E F P) : Callouts C T O E F P :=
  if s.thread.num<s.active.num+s.calls.pending.num then
    {s with thread := s.thread.up,activate := .creating}
  else if 0<s.calls.pending.num then s.callThreadWake
  else {s with activate := .asleep,activate_thread_awake := false}

/-- The activate thread has created a callout thread, or `kernel_thread_with_priority` has failed. -/
def threadCreated (s : Callouts C T O E F P) (thread : Option T) : Callouts C T O E F P :=
  match thread with
  | none => {s with activate := .ready}
  | some t => {s with activate := .ready,place := update s.place t .ready}

def setDelayedCallTimer (s : Callouts C T O E F P) (cpu : C) (call : ThreadCall E) :
    Callouts C T O E F P :=
  { s with
    timers := s.timers.timer_call_enter cpu (.delayedCalls cpu) (s.calls.entry call).deadline}

def delayedCallTimer (s : Callouts C T O E F P) (cpu : C) (timestamp : AbsoluteTime) :
    Callouts C T O E F P :=
  let new_pending := s.calls.delayed_call_queue.head?.any fun call =>
    (s.calls.entry call).deadline≤timestamp
  let s := { s with
    calls := s.calls.delayedCallTimer timestamp
    expired := update s.expired cpu false}
  let s := match s.calls.delayed_call_queue with
    | [] => s
    | call::_ => s.setDelayedCallTimer cpu call
  if new_pending then s.callThreadWake else s

/-- A turn of the loop in `timer_call_interrupt` on a processor. The handler of a thread-call timer
that is due is still to run. -/
def timerCallInterrupt (s : Callouts C T O E F P) (cpu : C) (timestamp : AbsoluteTime) :
    Callouts C T O E F P :=
  let r := s.timers.timer_call_interrupt cpu timestamp
  match r.2 with
  | some (.delayedCalls _) =>
    {s with timers := r.1,expired := update s.expired cpu true}
  | _ => {s with timers := r.1}

def entersPending (s : ThreadCalls E F P) : ThreadCalls.Event E F P → Bool
  | .func func param unique_call =>
    ¬(unique_call ∧ s.pending_call_queue.any (s.matches_ func param))
  | .enter e | .enter1 e _ => (s.entry (.client e)).state≠.pending
  | _ => false

/-- A routine that a client calls on a processor: it wakes a thread for an entry that becomes
pending, and sets the timer for one that is the first on the delayed queue. -/
def clientRoutine (s : Callouts C T O E F P) (cpu : C) (e : ThreadCalls.Event E F P) :
    Option (Callouts C T O E F P) :=
  (s.calls.step nil e).map fun r =>
    let t := {s with calls := r.1}
    if entersPending s.calls e then t.callThreadWake
    else
      match s.calls.entersDelayed e with
      | none => t
      | some call =>
        if t.calls.delayed_call_queue.head?=some call then t.setDelayedCallTimer cpu call
        else t

/-- What a processor or a thread does next. -/
inductive Event (C T O E F P : Type)
  | client (cpu : C) (e : ThreadCalls.Event E F P)
  | threadContinue (t : T)
  | threadReturn (t : T)
  | activate
  | created (t : Option T)
  | interrupt (cpu : C) (timestamp : AbsoluteTime)
  | delayedTimer (cpu : C) (timestamp : AbsoluteTime)
  | otherEnter (cpu : C) (o : O) (deadline : AbsoluteTime)
  | otherCancel (o : O)

def ofClient : ThreadCalls.Event E F P → Bool
  | .timer _ | .thread => false
  | _ => true

def step (s : Callouts C T O E F P) : Event C T O E F P → Option (Callouts C T O E F P)
  | .client cpu e => if ofClient e then s.clientRoutine nil cpu e else none
  | .threadContinue t =>
    if s.place t=.ready then (s.callThreadContinue t).map Prod.fst else none
  | .threadReturn t =>
    if s.place t=.calling then (s.callThreadReturn t).map Prod.fst else none
  | .activate => if s.activate=.ready then some s.activateThreadContinue else none
  | .created t =>
    if s.activate=.creating ∧ ∀ u∈t,s.place u=.gone then some (s.threadCreated t)
    else none
  | .interrupt cpu timestamp => some (s.timerCallInterrupt cpu timestamp)
  | .delayedTimer cpu timestamp =>
    if s.expired cpu then some (s.delayedCallTimer cpu timestamp) else none
  | .otherEnter cpu o deadline =>
    some {s with timers := s.timers.timer_call_enter cpu (.other o) deadline}
  | .otherCancel o => some {s with timers := s.timers.timer_call_cancel (.other o)}

def after (s : Callouts C T O E F P) : List (Event C T O E F P) → Option (Callouts C T O E F P)
  | [] => some s
  | e::es => (s.step nil e).bind fun t => t.after es

end Callouts

end Darwin.Kern

/-! What the clients' routines do to the queues of callouts: an entry becomes pending only where the
routine wakes a thread for it, and delayed only where the routine looks at the timer. -/
namespace Darwin.Kern.Callouts

variable {E F P : Type} [DecidableEq F] [DecidableEq P] {nil : P}
  {s s' : ThreadCalls E F P} {c : ThreadCall E} {e : ThreadCalls.Event E F P}
  {out : ThreadCalls.Output E F P}

/-- An entry that is pending was so before, or the routine has entered it; a delayed one had its
deadline before, or the routine has entered it. -/
structure ClientEffect (s : ThreadCalls E F P) (e : ThreadCalls.Event E F P)
    (s' : ThreadCalls E F P) (c : ThreadCall E) : Prop where
  pending : (s'.entry c).state=.pending → (s.entry c).state=.pending ∨ entersPending s e=true
  delayed : (s'.entry c).state=.delayed → s.entersDelayed e=some c ∨
    ((s.entry c).state=.delayed ∧ (s'.entry c).deadline=(s.entry c).deadline)

lemma ClientEffect.of_same (h : s'.entry c=s.entry c) : ClientEffect s e s' c := by
  constructor
  · rw [h]
    exact .inl
  · rw [h]
    exact fun hc => .inr ⟨hc,rfl⟩

lemma ClientEffect.of_idle (h : (s'.entry c).state=.idle) : ClientEffect s e s' c := by
  constructor <;> rw [h] <;> intro hc <;> cases hc

lemma ClientEffect.of_pending (h : (s'.entry c).state=.pending)
    (he : (s.entry c).state=.pending ∨ entersPending s e=true) : ClientEffect s e s' c := by
  refine ⟨fun _ => he,fun hc => ?_⟩
  rw [h] at hc
  cases hc

lemma ClientEffect.of_delayed (h : (s'.entry c).state=.delayed)
    (he : s.entersDelayed e=some c) : ClientEffect s e s' c := by
  refine ⟨fun hc => ?_,fun _ => .inl he⟩
  rw [h] at hc
  cases hc

lemma entersDelayed_of_entersPending (h : entersPending s e=true) : s.entersDelayed e=none := by
  cases e <;> first | rfl | cases h

variable [DecidableEq E]

lemma removeLoop_entry {st : CallState}
    {dequeue : ThreadCalls E F P → ThreadCall E → ThreadCalls E F P}
    (hd : ThreadCalls.Dequeues st dequeue) (func : F) (param0 : P) (remove_all : Bool)
    (l : List (ThreadCall E)) (s : ThreadCalls E F P) (c : ThreadCall E) :
    (ThreadCalls.removeLoop dequeue func param0 remove_all l s).1.entry c=s.entry c ∨
      ((ThreadCalls.removeLoop dequeue func param0 remove_all l s).1.entry c).state=.idle := by
  induction l generalizing s with
  | nil => exact .inl rfl
  | cons d l ih =>
    have hone : ((dequeue s d).internalCallRelease d).entry c=s.entry c ∨
        (((dequeue s d).internalCallRelease d).entry c).state=.idle := by
      by_cases hcd : c=d
      · subst hcd
        rw [ThreadCalls.internalCallRelease_entry,hd.entry,update_self]
        exact .inr rfl
      · exact .inl (hd.entry_other s hcd)
    rw [ThreadCalls.removeLoop]
    split_ifs
    · rcases ih ((dequeue s d).internalCallRelease d) with h | h
      · rw [h]
        exact hone
      · exact .inr h
    · exact hone
    · exact ih s

lemma funcCancel_entry (s : ThreadCalls E F P) (func : F) (param : P) (cancel_all : Bool)
    (c : ThreadCall E) : (s.thread_call_func_cancel func param cancel_all).1.entry c=s.entry c ∨
      ((s.thread_call_func_cancel func param cancel_all).1.entry c).state=.idle := by
  have hp := removeLoop_entry ThreadCalls.dequeues_pending func param cancel_all
    s.pending_call_queue s c
  have hd := removeLoop_entry ThreadCalls.dequeues_delayed func param cancel_all
    (s.removeFromPendingQueue func param cancel_all).1.delayed_call_queue
    (s.removeFromPendingQueue func param cancel_all).1 c
  have hboth : ((s.removeFromPendingQueue func param cancel_all).1.removeFromDelayedQueue
        func param cancel_all).1.entry c=s.entry c ∨
      (((s.removeFromPendingQueue func param cancel_all).1.removeFromDelayedQueue
        func param cancel_all).1.entry c).state=.idle := by
    rcases hd with hd | hd
    · rw [ThreadCalls.removeFromDelayedQueue,hd]
      exact hp
    · exact .inr hd
  rw [ThreadCalls.thread_call_func_cancel]
  split_ifs
  · exact hboth
  · exact hp
  · exact hboth

lemma ClientEffect.of_update {d : ThreadCall E} {x : CallEntry F P}
    (h : s'.entry=update s.entry d x)
    (hd : ClientEffect s e s' d) (c : ThreadCall E) : ClientEffect s e s' c := by
  by_cases hcd : c=d
  · exact hcd▸hd
  · exact of_same (by rw [h,update_of_ne hcd])

lemma enter1_effect (s : ThreadCalls E F P) (f : E) (param1 : P) (c : ThreadCall E)
    (he : entersPending s e=decide ((s.entry (.client f)).state≠.pending)) :
    ClientEffect s e (s.thread_call_enter1 (.client f) param1).1 c := by
  have hentry := ThreadCalls.thread_call_enter1_entry s f param1
  refine ClientEffect.of_update hentry (ClientEffect.of_pending ?_ ?_) c
  · rw [hentry,update_self]
  · rw [he,decide_eq_true_eq]
    exact em _

lemma enter1Delayed_effect (s : ThreadCalls E F P) (f : E) (param1 : P) (deadline : AbsoluteTime)
    (c : ThreadCall E) (he : s.entersDelayed e=some (.client f)) :
    ClientEffect s e (s.thread_call_enter1_delayed (.client f) param1 deadline).1 c := by
  have hentry := ThreadCalls.thread_call_enter1_delayed_entry s f param1 deadline
  refine ClientEffect.of_update hentry (ClientEffect.of_delayed ?_ he) c
  rw [hentry,update_self]

lemma client_effect (he : ofClient e=true) (hs : s.step nil e=some (s',out))
    (c : ThreadCall E) : ClientEffect s e s' c := by
  cases e with
  | func func param unique_call =>
    obtain ⟨t,ht,heq⟩ := map_eq_some_iff.mp hs
    cases heq
    rw [ThreadCalls.thread_call_func] at ht
    split_ifs at ht with hu
    · cases ht
      exact .of_same rfl
    · obtain ⟨r,hr,rfl⟩ := map_eq_some_iff.mp ht
      obtain ⟨-,hentry⟩ := ThreadCalls.internalCallAllocate_head hr
      by_cases hc : c=r.1
      · subst hc
        refine .of_pending ?_ (.inr (decide_eq_true hu))
        rw [ThreadCalls.pendingCallEnqueue_entry,update_self]
      · refine .of_same ?_
        simp only [ThreadCalls.pendingCallEnqueue_entry,ThreadCalls.setEntry_entry,
          update_of_ne hc,hentry]
  | funcDelayed func param deadline =>
    obtain ⟨t,ht,heq⟩ := map_eq_some_iff.mp hs
    cases heq
    obtain ⟨r,hr,rfl⟩ := map_eq_some_iff.mp ht
    obtain ⟨hhead,hentry⟩ := ThreadCalls.internalCallAllocate_head hr
    by_cases hc : c=r.1
    · subst hc
      refine .of_delayed ?_ hhead
      rw [ThreadCalls.delayedCallEnqueue_entry,update_self]
    · refine .of_same ?_
      simp only [ThreadCalls.delayedCallEnqueue_entry,ThreadCalls.setEntry_entry,
        update_of_ne hc,hentry]
  | funcCancel func param cancel_all =>
    cases hs
    rcases funcCancel_entry s func param cancel_all c with h | h
    · exact .of_same h
    · exact .of_idle h
  | enter f =>
    cases hs
    exact enter1_effect s f nil c rfl
  | enter1 f param1 =>
    cases hs
    exact enter1_effect s f param1 c rfl
  | enterDelayed f deadline =>
    cases hs
    exact enter1Delayed_effect s f nil deadline c rfl
  | enter1Delayed f param1 deadline =>
    cases hs
    exact enter1Delayed_effect s f param1 deadline c rfl
  | cancel f =>
    cases hs
    have hentry : (s.thread_call_cancel (.client f)).1.entry=_ :=
      ThreadCalls.dequeueCall_entry s (.client f)
    refine ClientEffect.of_update hentry (.of_idle ?_) c
    rw [hentry,update_self]
  | timer timestamp => cases he
  | thread => cases he

end Darwin.Kern.Callouts
