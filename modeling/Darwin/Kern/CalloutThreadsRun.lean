import Darwin.Kern.CalloutThreads

/-! No wake-up is lost: where a callout is pending, a thread is on its way to it; where one is
delayed, a timer expires in time, or has expired and its handler is on its way. -/
open List Function Option
namespace Darwin.Kern

namespace TimerCalls

variable {C O : Type} [DecidableEq C] [DecidableEq O] {s : TimerCalls C O} {cpu cpu' : C}
  {d d' timestamp : AbsoluteTime}

lemma armed_timer_call_enter (s : TimerCalls C O) (cpu : C) (d : AbsoluteTime) :
    (s.timer_call_enter cpu (.delayedCalls cpu) d).Armed cpu d := by
  refine ⟨?_,update_self _ _ _⟩
  simp only [timer_call_enter,update_self]
  exact (perm_insertDeadline _ _ _).mem_iff.mpr mem_cons_self

lemma Armed.enter_other (h : s.Armed cpu d) (cpu' : C) (o : O) (d' : AbsoluteTime) :
    (s.timer_call_enter cpu' (.other o) d').Armed cpu d := by
  have hne : TimerCall.delayedCalls cpu≠TimerCall.other (C := C) o := by
    intro heq
    cases heq
  have hmem : TimerCall.delayedCalls cpu∈(s.delayed_call_queues cpu).erase (.other o) :=
    (mem_erase_of_ne hne).mpr h.1
  refine ⟨?_,(update_of_ne hne d' s.deadline).trans h.2⟩
  by_cases hc : cpu=cpu'
  · subst hc
    simp only [timer_call_enter,update_self]
    exact (perm_insertDeadline _ _ _).mem_iff.mpr (mem_cons_of_mem _ hmem)
  · simp only [timer_call_enter,update_of_ne hc]
    exact hmem

lemma Armed.cancel_other (h : s.Armed cpu d) (o : O) :
    (s.timer_call_cancel (.other o)).Armed cpu d := by
  refine ⟨(mem_erase_of_ne ?_).mpr h.1,h.2⟩
  intro heq
  cases heq

lemma Armed.interrupt (h : s.Armed cpu d) (cpu' : C) (timestamp : AbsoluteTime) :
    (s.timer_call_interrupt cpu' timestamp).1.Armed cpu d ∨
      (s.timer_call_interrupt cpu' timestamp).2=some (.delayedCalls cpu) := by
  rw [timer_call_interrupt]
  cases hq : s.delayed_call_queues cpu' with
  | nil => exact .inl h
  | cons call calls =>
    dsimp only
    split_ifs
    · by_cases hc : call=.delayedCalls cpu
      · subst hc
        exact .inr rfl
      · refine .inl ⟨?_,h.2⟩
        by_cases hcpu : cpu=cpu'
        · subst hcpu
          have hmem := h.1
          rw [hq,mem_cons] at hmem
          simp only [update_self]
          exact hmem.resolve_left fun heq => hc heq.symm
        · simp only [update_of_ne hcpu]
          exact h.1
    · exact .inl h

end TimerCalls

namespace Callouts

variable {C T O E F P : Type} [DecidableEq C] [DecidableEq T] [DecidableEq O] [DecidableEq E]
  [DecidableEq F] [DecidableEq P] {nil : P} {s s' : Callouts C T O E F P} {cpu : C} {t : T}

/-- A callout thread is on its way to the pending queue, or the activate thread is awake. -/
def Woken (s : Callouts C T O E F P) : Prop :=
  (∃ t,s.place t=.ready) ∨ s.activate≠.asleep

/-- A timer for the delayed calls expires by then, or has expired and its handler is on its way. -/
def Timed (s : Callouts C T O E F P) (deadline : AbsoluteTime) : Prop :=
  (∃ cpu d,s.timers.Armed cpu d ∧ d≤deadline) ∨ ∃ cpu,s.expired cpu=true

/-- The queues are sound, the flag is right about the activate thread, and nothing is forgotten. -/
structure Served (s : Callouts C T O E F P) : Prop where
  sound : ∃ entered time,ThreadCalls.Sound none entered time s.calls
  awake : s.activate_thread_awake=true ↔ s.activate≠.asleep
  pending : s.calls.pending_call_queue≠[] → s.Woken
  delayed : ∀ call,s.calls.delayed_call_queue.head?=some call →
    s.Timed (s.calls.entry call).deadline

section Wake

omit [DecidableEq C] [DecidableEq O] [DecidableEq E] [DecidableEq F] [DecidableEq P]

lemma callThreadWake_frame (s : Callouts C T O E F P) :
    s.callThreadWake.calls=s.calls ∧ s.callThreadWake.timers=s.timers ∧
      s.callThreadWake.expired=s.expired := by
  rw [callThreadWake]
  cases s.idle_thread_queue <;> dsimp only <;> split_ifs <;> exact ⟨rfl,rfl,rfl⟩

omit [DecidableEq T] in
lemma awake_of_ready (h : s.activate=.ready) (hf : s.activate_thread_awake=true) :
    s.activate_thread_awake=true ↔ s.activate≠.asleep := by
  rw [h,hf]
  decide

omit [DecidableEq T] in
lemma woken_of_ready (h : s.activate=.ready) : s.Woken := by
  refine .inr ?_
  rw [h]
  decide

lemma callThreadWake_woken (s : Callouts C T O E F P)
    (h : s.activate_thread_awake=true ↔ s.activate≠.asleep) : s.callThreadWake.Woken ∧
      (s.callThreadWake.activate_thread_awake=true ↔ s.callThreadWake.activate≠.asleep) := by
  rw [callThreadWake]
  cases s.idle_thread_queue with
  | nil =>
    dsimp only
    split
    · exact ⟨woken_of_ready rfl,awake_of_ready rfl rfl⟩
    · rename_i hw
      refine ⟨.inr (h.mp ?_),h⟩
      by_contra hna
      exact hw ⟨hna,.inl Bool.false_ne_true⟩
  | cons u us =>
    have hu : update s.place u .ready u=.ready := update_self _ _ _
    dsimp only
    split
    · exact ⟨.inl ⟨u,hu⟩,awake_of_ready rfl rfl⟩
    · exact ⟨.inl ⟨u,hu⟩,h⟩

lemma Timed.wake {deadline : AbsoluteTime} (h : s.Timed deadline) :
    s.callThreadWake.Timed deadline := by
  obtain ⟨-,ht,he⟩ := callThreadWake_frame s
  rwa [Timed,ht,he]

lemma Served.of_wake (hs : ∃ entered time,ThreadCalls.Sound none entered time s.calls)
    (ha : s.activate_thread_awake=true ↔ s.activate≠.asleep)
    (hd : ∀ call,s.calls.delayed_call_queue.head?=some call →
      s.Timed (s.calls.entry call).deadline) : s.callThreadWake.Served := by
  obtain ⟨hw,haw⟩ := callThreadWake_woken s ha
  obtain ⟨hc,-,-⟩ := callThreadWake_frame s
  refine ⟨hc▸hs,haw,fun _ => hw,fun call hcall => ?_⟩
  rw [hc] at hcall ⊢
  exact (hd call hcall).wake

end Wake

section Queues

variable {entered : ThreadCall E → ℕ} {time : ℕ} {calls calls' : ThreadCalls E F P}
  {call : ThreadCall E} {e : ThreadCalls.Event E F P} {out : ThreadCalls.Output E F P}

omit [DecidableEq E] [DecidableEq F] [DecidableEq P] in
lemma head_deadline_le (h : ThreadCalls.Sound none entered time calls)
    (hc : (calls.entry call).state=.delayed) : ∃ first,calls.delayed_call_queue.head?=some first ∧
      (calls.entry first).deadline≤(calls.entry call).deadline := by
  have hmem := (h.delayed call).mpr hc
  have horder := h.order
  cases hq : calls.delayed_call_queue with
  | nil =>
    rw [hq] at hmem
    exact absurd hmem not_mem_nil
  | cons first rest =>
    rw [hq] at hmem horder
    refine ⟨first,rfl,?_⟩
    rcases mem_cons.mp hmem with rfl | hm
    · exact UInt64.le_refl _
    · rcases rel_of_pairwise_cons horder hm with hlt | ⟨heq,-⟩
      · exact UInt64.le_of_lt hlt
      · exact heq▸UInt64.le_refl _

lemma client_pending (h : ThreadCalls.Sound none entered time calls)
    (he : ofClient e=true) (hs : calls.step nil e=some (calls',out))
    (hp : ¬entersPending calls e=true) (hne : calls'.pending_call_queue≠[]) :
    calls.pending_call_queue≠[] := by
  obtain ⟨c,hc⟩ := exists_mem_of_ne_nil _ hne
  have hsound := (ThreadCalls.step_ok h hs).sound
  have hst := (client_effect he hs c).pending ((hsound.pending c).mp hc)
  exact ne_nil_of_mem ((h.pending c).mpr (hst.resolve_right hp))

lemma client_delayed (h : ThreadCalls.Sound none entered time calls)
    (he : ofClient e=true) (hs : calls.step nil e=some (calls',out))
    (hc : calls'.delayed_call_queue.head?=some call) : calls.entersDelayed e=some call ∨
      ∃ first,calls.delayed_call_queue.head?=some first ∧
        (calls.entry first).deadline≤(calls'.entry call).deadline := by
  have hsound := (ThreadCalls.step_ok h hs).sound
  have hst := (hsound.delayed call).mp (mem_of_mem_head? hc)
  rcases (client_effect he hs call).delayed hst with henter | ⟨hbefore,hdeadline⟩
  · exact .inl henter
  · rw [hdeadline]
    exact .inr (head_deadline_le h hbefore)

omit [DecidableEq F] [DecidableEq P] in
lemma delayedCallTimer_not_due (timestamp : AbsoluteTime)
    (h : ¬calls.delayed_call_queue.head?.any
      (fun call => (calls.entry call).deadline≤timestamp)=true) :
    calls.delayedCallTimer timestamp=calls := by
  rw [ThreadCalls.delayedCallTimer]
  cases hq : calls.delayed_call_queue with
  | nil => rfl
  | cons first rest =>
    rw [hq] at h
    refine if_neg fun hle => h ?_
    rw [head?_cons,any_some,decide_eq_true_eq]
    exact hle

end Queues

section Steps

omit [DecidableEq C] [DecidableEq T] [DecidableEq O] [DecidableEq E] [DecidableEq F]
  [DecidableEq P] in
lemma Timed.mono {d d' : AbsoluteTime} (h : s.Timed d) (hd : d≤d') : s.Timed d' := by
  rcases h with ⟨cpu,a,ha,hle⟩ | he
  · exact .inl ⟨cpu,a,ha,UInt64.le_trans hle hd⟩
  · exact .inr he

omit [DecidableEq T] [DecidableEq E] [DecidableEq F] [DecidableEq P] in
lemma timed_setDelayedCallTimer (s : Callouts C T O E F P) (cpu : C) (call : ThreadCall E) :
    (s.setDelayedCallTimer cpu call).Timed (s.calls.entry call).deadline :=
  .inl ⟨cpu,_,TimerCalls.armed_timer_call_enter _ _ _,UInt64.le_refl _⟩

lemma Served.client (h : s.Served) {e : ThreadCalls.Event E F P} (he : ofClient e=true)
    (hs : s.clientRoutine nil cpu e=some s') : s'.Served := by
  obtain ⟨entered,time,hsound⟩ := h.sound
  obtain ⟨⟨calls,out⟩,hr,rfl⟩ := map_eq_some_iff.mp hs
  have hnew := (ThreadCalls.step_ok hsound hr).sound
  have hdelayed : ∀ call,calls.delayed_call_queue.head?=some call →
      s.calls.entersDelayed e=some call ∨ s.Timed (calls.entry call).deadline := by
    intro call hcall
    rcases client_delayed hsound he hr hcall with henter | ⟨first,hfirst,hle⟩
    · exact .inl henter
    · exact .inr ((h.delayed first hfirst).mono hle)
  dsimp only
  split_ifs with hp
  · refine Served.of_wake ⟨_,_,hnew⟩ h.awake fun call hcall => ?_
    have hnone := entersDelayed_of_entersPending hp
    rcases hdelayed call hcall with henter | htimed
    · rw [hnone] at henter
      cases henter
    · exact htimed
  · have hpending : calls.pending_call_queue≠[] → s.Woken :=
      fun hne => h.pending (client_pending hsound he hr hp hne)
    cases hd : s.calls.entersDelayed e with
    | none =>
      refine ⟨⟨_,_,hnew⟩,h.awake,hpending,fun call hcall => ?_⟩
      refine (hdelayed call hcall).resolve_left fun henter => ?_
      rw [hd] at henter
      cases henter
    | some entered =>
      dsimp only
      split_ifs with hhead
      · refine ⟨⟨_,_,hnew⟩,h.awake,hpending,fun call hcall => ?_⟩
        cases hhead.symm.trans hcall
        exact timed_setDelayedCallTimer _ cpu entered
      · refine ⟨⟨_,_,hnew⟩,h.awake,hpending,fun call hcall => ?_⟩
        refine (hdelayed call hcall).resolve_left fun henter => hhead ?_
        rw [hcall,←henter,hd]

omit [DecidableEq C] [DecidableEq O] [DecidableEq F] [DecidableEq P] in
lemma Served.thread (h : s.Served) {d : Option (ThreadCalls.Dispatch E F P)}
    (hs : s.callThreadContinue t=some (s',d)) : s'.Served := by
  obtain ⟨entered,time,hsound⟩ := h.sound
  obtain ⟨⟨calls,out⟩,hr,heq⟩ := map_eq_some_iff.mp hs
  obtain ⟨hnew,hnone,hsome⟩ := ThreadCalls.step_thread hsound hr
  cases out with
  | none =>
    obtain ⟨hcalls,hnil⟩ := hnone rfl
    cases hcalls
    dsimp only at heq
    split_ifs at heq <;> cases heq <;>
      exact ⟨⟨_,_,hsound⟩,h.awake,fun hne => absurd hnil hne,h.delayed⟩
  | some d =>
    obtain ⟨hq,-,hentry⟩ := hsome d rfl
    have hdelayed : ∀ call,calls.delayed_call_queue.head?=some call →
        s.Timed (calls.entry call).deadline := by
      intro call hcall
      have hst := (hnew.delayed call).mp (mem_of_mem_head? hcall)
      have hne : call≠d.call := by
        rintro rfl
        rw [hentry,update_self] at hst
        cases hst
      rw [hentry,update_of_ne hne] at hst ⊢
      obtain ⟨first,hfirst,hle⟩ := head_deadline_le hsound hst
      exact (h.delayed first hfirst).mono hle
    dsimp only at heq
    split_ifs at heq with hp
    · cases heq
      exact Served.of_wake ⟨_,_,hnew⟩ h.awake hdelayed
    · cases heq
      refine ⟨⟨_,_,hnew⟩,h.awake,fun hne => absurd ?_ hp,hdelayed⟩
      rw [hnew.pending_num]
      exact_mod_cast length_pos_iff.mpr hne

omit [DecidableEq C] [DecidableEq O] [DecidableEq E] [DecidableEq F] [DecidableEq P] in
lemma Served.activate (h : s.Served) (hready : s.activate=.ready) :
    s.activateThreadContinue.Served := by
  obtain ⟨entered,time,hsound⟩ := h.sound
  have hflag : s.activate_thread_awake=true := h.awake.mpr (by rw [hready]; decide)
  rw [activateThreadContinue]
  split_ifs with hnum hp
  · refine ⟨h.sound,?_,fun _ => .inr ?_,h.delayed⟩
    · exact ⟨fun _ hc => (by cases hc),fun _ => hflag⟩
    · exact fun hc => (by cases hc)
  · exact Served.of_wake h.sound h.awake h.delayed
  · refine ⟨h.sound,?_,fun hne => absurd ?_ hp,h.delayed⟩
    · exact ⟨fun hf => (by cases hf),fun hne => absurd rfl hne⟩
    rw [hsound.pending_num]
    exact_mod_cast length_pos_iff.mpr hne

omit [DecidableEq F] [DecidableEq P] in
lemma Served.delayedTimer (h : s.Served) (cpu : C) (timestamp : AbsoluteTime) :
    (s.delayedCallTimer cpu timestamp).Served := by
  obtain ⟨entered,time,hsound⟩ := h.sound
  have hnew : ThreadCalls.Sound none entered time (s.calls.delayedCallTimer timestamp) :=
    (ThreadCalls.timerLoop_ok timestamp s.calls.delayed_call_queue hsound.delayed_nodup hsound
      fun c hc => (hsound.delayed c).mp hc).1
  have hflag : s.activate_thread_awake=true ↔ s.activate≠.asleep := h.awake
  rw [delayedCallTimer]
  -- where the first entry is not due, nothing becomes pending
  have hpending : ¬s.calls.delayed_call_queue.head?.any
      (fun call => (s.calls.entry call).deadline≤timestamp)=true →
      (s.calls.delayedCallTimer timestamp).pending_call_queue≠[] → s.Woken := by
    intro hdue
    rw [delayedCallTimer_not_due timestamp hdue]
    exact h.pending
  cases hq : (s.calls.delayedCallTimer timestamp).delayed_call_queue with
  | nil =>
    dsimp only
    have hnone : ∀ call,(s.calls.delayedCallTimer timestamp).delayed_call_queue.head? =
        some call → False := by
      intro call hcall
      rw [hq] at hcall
      cases hcall
    split_ifs with hdue
    · exact Served.of_wake ⟨_,_,hnew⟩ hflag fun call hcall => (hnone call hcall).elim
    · exact ⟨⟨_,_,hnew⟩,hflag,hpending hdue,fun call hcall => (hnone call hcall).elim⟩
  | cons first rest =>
    dsimp only
    set t : Callouts C T O E F P := { s with
      calls := s.calls.delayedCallTimer timestamp
      expired := update s.expired cpu false} with ht
    have htimed : ∀ call,t.calls.delayed_call_queue.head?=some call →
        (t.setDelayedCallTimer cpu first).Timed (t.calls.entry call).deadline := by
      intro call hcall
      rw [ht,hq] at hcall
      cases hcall
      exact timed_setDelayedCallTimer t cpu first
    split_ifs with hdue
    · exact Served.of_wake ⟨_,_,hnew⟩ hflag htimed
    · exact ⟨⟨_,_,hnew⟩,hflag,hpending hdue,htimed⟩

omit [DecidableEq T] [DecidableEq E] [DecidableEq F] [DecidableEq P] in
lemma Served.interrupt (h : s.Served) (cpu : C) (timestamp : AbsoluteTime) :
    (s.timerCallInterrupt cpu timestamp).Served := by
  have htimed : ∀ call,s.calls.delayed_call_queue.head?=some call →
      Timed {s with timers := (s.timers.timer_call_interrupt cpu timestamp).1}
          (s.calls.entry call).deadline ∨
        ∃ c,(s.timers.timer_call_interrupt cpu timestamp).2=some (.delayedCalls c) := by
    intro call hcall
    rcases h.delayed call hcall with ⟨c,d,ha,hle⟩ | he
    · rcases ha.interrupt cpu timestamp with ha | hpop
      · exact .inl (.inl ⟨c,d,ha,hle⟩)
      · exact .inr ⟨c,hpop⟩
    · exact .inl (.inr he)
  simp only [timerCallInterrupt]
  split
  · have hself : update s.expired cpu true cpu=true := update_self _ _ _
    exact ⟨h.sound,h.awake,h.pending,fun _ _ => .inr ⟨cpu,hself⟩⟩
  · rename_i hother
    refine ⟨h.sound,h.awake,h.pending,fun call hcall => (htimed call hcall).resolve_right ?_⟩
    rintro ⟨c,hc⟩
    exact hother c hc

lemma Served.step (h : s.Served) {e : Event C T O E F P} (hs : s.step nil e=some s') :
    s'.Served := by
  cases e with
  | client cpu e =>
    rw [Callouts.step] at hs
    split_ifs at hs with he
    exact h.client he hs
  | threadContinue t =>
    rw [Callouts.step] at hs
    split_ifs at hs
    obtain ⟨⟨r,d⟩,hr,rfl⟩ := map_eq_some_iff.mp hs
    exact h.thread hr
  | threadReturn t =>
    rw [Callouts.step] at hs
    split_ifs at hs
    obtain ⟨⟨r,d⟩,hr,rfl⟩ := map_eq_some_iff.mp hs
    have hdown : Served {s with active := s.active.down} :=
      ⟨h.sound,h.awake,h.pending,h.delayed⟩
    exact hdown.thread hr
  | activate =>
    rw [Callouts.step] at hs
    split_ifs at hs with hready
    cases hs
    exact h.activate hready
  | created t =>
    rw [Callouts.step] at hs
    split_ifs at hs with hcreate
    cases hs
    have hflag : s.activate_thread_awake=true := h.awake.mpr (by rw [hcreate.1]; decide)
    cases t with
    | none =>
      exact ⟨h.sound,awake_of_ready rfl hflag,fun _ => woken_of_ready rfl,h.delayed⟩
    | some t =>
      exact ⟨h.sound,awake_of_ready rfl hflag,fun _ => woken_of_ready rfl,h.delayed⟩
  | interrupt cpu timestamp =>
    cases hs
    exact h.interrupt cpu timestamp
  | delayedTimer cpu timestamp =>
    rw [Callouts.step] at hs
    split_ifs at hs
    cases hs
    exact h.delayedTimer cpu timestamp
  | otherEnter cpu o deadline =>
    cases hs
    refine ⟨h.sound,h.awake,h.pending,fun call hcall => ?_⟩
    rcases h.delayed call hcall with ⟨c,d,ha,hle⟩ | he
    · exact .inl ⟨c,d,ha.enter_other cpu o deadline,hle⟩
    · exact .inr he
  | otherCancel o =>
    cases hs
    refine ⟨h.sound,h.awake,h.pending,fun call hcall => ?_⟩
    rcases h.delayed call hcall with ⟨c,d,ha,hle⟩ | he
    · exact .inl ⟨c,d,ha.cancel_other o,hle⟩
    · exact .inr he

end Steps

section Runs

variable {entry : ThreadCall E → CallEntry F P} {es : List (Event C T O E F P)}

omit [DecidableEq C] [DecidableEq T] [DecidableEq O] [DecidableEq E] [DecidableEq F]
  [DecidableEq P] in
lemma served_start (entry : ThreadCall E → CallEntry F P) :
    (start entry : Callouts C T O E F P).Served := by
  refine ⟨⟨_,_,ThreadCalls.sound_initialize entry⟩,awake_of_ready rfl rfl,
    fun hne => absurd rfl hne,fun call hcall => ?_⟩
  cases hcall

lemma Served.after (h : s.Served) (hs : s.after nil es=some s') : s'.Served := by
  induction es generalizing s with
  | nil =>
    cases hs
    exact h
  | cons e es ih =>
    obtain ⟨t,ht,hs⟩ := bind_eq_some_iff.mp hs
    exact ih (h.step ht) hs

/-- Whatever the processors and the threads do from the start on, no callout is forgotten. -/
theorem wakeups_kept (hs : (start entry).after nil es=some s) :
    (s.calls.pending_call_queue≠[] → s.Woken) ∧
      ∀ call,s.calls.delayed_call_queue.head?=some call → s.Timed (s.calls.entry call).deadline :=
  ⟨((served_start entry).after hs).pending,((served_start entry).after hs).delayed⟩

def delayedRun : List (Event Unit Unit Unit Unit Unit Unit) :=
  [.client () (.enterDelayed () 5)]

theorem wakeups_kept_delayed : ∃ s : Callouts Unit Unit Unit Unit Unit Unit,
    (start fun _ => ⟨(),(),(),0,.idle⟩).after () delayedRun=some s ∧ s.Timed 5 :=
  ⟨_,rfl,(wakeups_kept (show (start _).after () delayedRun=some _ from rfl)).2 (.client ()) rfl⟩

/-- The timer has expired and its handler has not taken the lock yet. -/
theorem expiredTimer_not_armed : ∃ s : Callouts Unit Unit Unit Unit Unit Unit,
    (start fun _ => ⟨(),(),(),0,.idle⟩).after () (delayedRun++[.interrupt () 5])=some s ∧
      s.calls.delayed_call_queue=[.client ()] ∧ ∀ cpu d,¬s.timers.Armed cpu d :=
  ⟨_,rfl,rfl,fun _ _ h => absurd h.1 not_mem_nil⟩

end Runs

end Callouts

end Darwin.Kern
