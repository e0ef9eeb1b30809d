import Darwin.Kern.ThreadCallQueues

/-! What a routine does to the entries: it schedules one, cancels some, hands one to a callout
thread, or lets delayed ones become pending. All others keep their parameters and their turn. -/
open List Function
namespace Darwin.Kern.ThreadCalls

variable {E F P : Type} [DecidableEq E] [DecidableEq F] [DecidableEq P] {nil : P}

def Holds (s : ThreadCalls E F P) (d : Dispatch E F P) : Prop :=
  (s.entry d.call).state≠.idle ∧ (s.entry d.call).func=d.func ∧
    (s.entry d.call).param0=d.param0 ∧ (s.entry d.call).param1=d.param1

def dispatch (s : ThreadCalls E F P) (c : ThreadCall E) : Dispatch E F P :=
  ⟨c,(s.entry c).func,(s.entry c).param0,(s.entry c).param1⟩

def entersDelayed (s : ThreadCalls E F P) : Event E F P → Option (ThreadCall E)
  | .funcDelayed _ _ _ => s.internal_call_free_queue.head?
  | .enterDelayed e _ | .enter1Delayed e _ _ => some (.client e)
  | _ => none

/-- The entry that a routine schedules, and the parameters it is to be called with. A function that
is pending already is not scheduled a second time when the call is to be unique. -/
def schedules (nil : P) (s : ThreadCalls E F P) : Event E F P → Option (Dispatch E F P)
  | .func func param unique_call =>
    if unique_call ∧ s.pending_call_queue.any (s.matches_ func param) then none
    else s.internal_call_free_queue.head?.map fun c => ⟨c,func,param,nil⟩
  | .funcDelayed func param _ =>
    s.internal_call_free_queue.head?.map fun c => ⟨c,func,param,nil⟩
  | .enter e | .enterDelayed e _ => some {s.dispatch (.client e) with param1 := nil}
  | .enter1 e param1 | .enter1Delayed e param1 _ =>
    some {s.dispatch (.client e) with param1 := param1}
  | _ => none

def queued (s : ThreadCalls E F P) : List (ThreadCall E) :=
  s.pending_call_queue++s.delayed_call_queue

def Cancels (s : ThreadCalls E F P) (c : ThreadCall E) : Event E F P → Prop
  | .cancel e => c=.client e
  | .funcCancel func param cancel_all =>
    if cancel_all then c∈s.queued ∧ s.matches_ func param c
    else s.queued.find? (s.matches_ func param)=some c
  | _ => False

def Touches (nil : P) (s : ThreadCalls E F P) (c : ThreadCall E) (e : Event E F P) : Prop :=
  (∃ d,s.schedules nil e=some d ∧ d.call=c) ∨ s.Cancels c e

def scheduledBefore (s : ThreadCalls E F P) : Event E F P → Option Bool
  | .enter e | .enter1 e _ | .enterDelayed e _ | .enter1Delayed e _ _ | .cancel e =>
    some ((s.entry (.client e)).state≠.idle)
  | .funcCancel func param _ => some (s.queued.any (s.matches_ func param))
  | _ => none

def Keeps (s s' : ThreadCalls E F P) (c : ThreadCall E) : Prop :=
  s'.entry c=s.entry c ∨
    ((s.entry c).state=.delayed ∧ s'.entry c={s.entry c with state := .pending})

def stamp (s : ThreadCalls E F P) (e : Event E F P) (entered : ThreadCall E → ℕ) (time : ℕ) :
    ThreadCall E → ℕ :=
  match s.entersDelayed e with
  | none => entered
  | some c => update entered c time

/-- What holds of a routine that has run. -/
structure StepOk (nil : P) (entered : ThreadCall E → ℕ) (time : ℕ) (s : ThreadCalls E F P)
    (e : Event E F P) (s' : ThreadCalls E F P) (out : Output E F P) : Prop where
  sound : Sound none (s.stamp e entered time) (time+1) s'
  scheduled : ∀ d,s.schedules nil e=some d → s'.Holds d
  result : ∀ b,out=.result b ↔ s.scheduledBefore e=some b
  untouched : ∀ c,¬s.Touches nil c e → (∀ d,out=.dispatched d → d.call≠c) → s.Keeps s' c
  dispatched : ∀ d,out=.dispatched d → s.Holds d ∧ (s'.entry d.call).state=.idle

section Loops

variable {entered : ThreadCall E → ℕ} {time : ℕ} {s : ThreadCalls E F P} {c : ThreadCall E}

omit [DecidableEq E] [DecidableEq F] [DecidableEq P] in
lemma Sound.later {held : Option (ThreadCall E)} (h : Sound held entered time s) {time' : ℕ}
    (ht : time≤time') : Sound held entered time' s :=
  {h with entered_lt := fun c => (h.entered_lt c).trans_le ht}

/-- Taking entries in such a state off their queue. -/
structure Dequeues (st : CallState)
    (dequeue : ThreadCalls E F P → ThreadCall E → ThreadCalls E F P) : Prop where
  sound : ∀ {s c} {entered : ThreadCall E → ℕ} {time : ℕ},Sound none entered time s →
    (s.entry c).state=st → Sound (some c) entered time (dequeue s c)
  entry : ∀ s c,(dequeue s c).entry=update s.entry c {s.entry c with state := .idle}

omit [DecidableEq F] [DecidableEq P] in
lemma dequeues_pending : Dequeues (.pending) (pendingCallDequeue : ThreadCalls E F P → _ → _) :=
  ⟨fun h hc => h.pendingCallDequeue hc,fun _ _ => rfl⟩

omit [DecidableEq F] [DecidableEq P] in
lemma dequeues_delayed : Dequeues (.delayed) (delayedCallDequeue : ThreadCalls E F P → _ → _) :=
  ⟨fun h hc => h.delayedCallDequeue hc,fun _ _ => rfl⟩

variable {dequeue : ThreadCalls E F P → ThreadCall E → ThreadCalls E F P} {st : CallState}

omit [DecidableEq F] [DecidableEq P] in
lemma Dequeues.entry_other (hd : Dequeues st dequeue) (s : ThreadCalls E F P)
    {c d : ThreadCall E} (hne : d≠c) : ((dequeue s c).internalCallRelease c).entry d=s.entry d := by
  rw [internalCallRelease_entry,hd.entry,update_of_ne hne]

lemma Dequeues.matches_eq (hd : Dequeues st dequeue) (s : ThreadCalls E F P) (c : ThreadCall E)
    (func : F) (param0 : P) :
    ((dequeue s c).internalCallRelease c).matches_ func param0=s.matches_ func param0 := by
  funext d
  rw [matches_,matches_]
  by_cases hne : d=c
  · subst hne
    rw [internalCallRelease_entry,hd.entry,update_self]
  · rw [hd.entry_other s hne]

omit [DecidableEq E] in
lemma removeLoop_first (func : F) (param0 : P) (l : List (ThreadCall E))
    (s : ThreadCalls E F P) : removeLoop dequeue func param0 false l s =
      ((l.find? (s.matches_ func param0)).elim s
        (fun c => (dequeue s c).internalCallRelease c),
        l.any (s.matches_ func param0)) := by
  induction l with
  | nil => rfl
  | cons c l ih =>
    rw [removeLoop]
    by_cases hm : s.matches_ func param0 c=true
    · rw [if_pos hm,if_neg Bool.false_ne_true,find?_cons_of_pos hm,any_cons,hm]
      rfl
    · rw [if_neg hm,ih,find?_cons_of_neg hm,any_cons,Bool.eq_false_iff.mpr hm,Bool.false_or]

lemma removeLoop_all (hd : Dequeues st dequeue) (func : F) (param0 : P)
    (l : List (ThreadCall E)) (s : ThreadCalls E F P) : removeLoop dequeue func param0 true l s =
      ((l.filter (s.matches_ func param0)).foldl
        (fun s c => (dequeue s c).internalCallRelease c) s,
        l.any (s.matches_ func param0)) := by
  induction l generalizing s with
  | nil => rfl
  | cons c l ih =>
    rw [removeLoop]
    by_cases hm : s.matches_ func param0 c=true
    · rw [if_pos hm,if_pos rfl,ih,hd.matches_eq,filter_cons_of_pos hm,foldl_cons,any_cons,hm]
      rfl
    · rw [if_neg hm,ih,filter_cons_of_neg hm,any_cons,Bool.eq_false_iff.mpr hm,Bool.false_or]

omit [DecidableEq F] [DecidableEq P] in
lemma Dequeues.foldl_ok (hd : Dequeues st dequeue) (l : List (ThreadCall E)) (hl : l.Nodup)
    (h : Sound none entered time s) (hst : ∀ c∈l,(s.entry c).state=st) :
    Sound none entered time (l.foldl (fun s c => (dequeue s c).internalCallRelease c) s) ∧
      (∀ d∉l,(l.foldl (fun s c => (dequeue s c).internalCallRelease c) s).entry d=s.entry d) ∧
      ∀ d∈l,(l.foldl (fun s c => (dequeue s c).internalCallRelease c) s).entry d =
        {s.entry d with state := .idle} := by
  induction l generalizing s with
  | nil => exact ⟨h,fun _ _ => rfl,fun d hd => absurd hd not_mem_nil⟩
  | cons c l ih =>
    obtain ⟨hc,hl⟩ := nodup_cons.mp hl
    have h1 := (hd.sound h (hst c mem_cons_self)).internalCallRelease
    have hst1 : ∀ d∈l,(((dequeue s c).internalCallRelease c).entry d).state=st := by
      intro d hdl
      rw [hd.entry_other s (ne_of_mem_of_not_mem hdl hc)]
      exact hst d (mem_cons_of_mem c hdl)
    obtain ⟨hs,he,hi⟩ := ih hl h1 hst1
    refine ⟨hs,fun d hdl => ?_,fun d hdl => ?_⟩
    · rw [mem_cons,not_or] at hdl
      exact (he d hdl.2).trans (hd.entry_other s hdl.1)
    · rcases mem_cons.mp hdl with rfl | hdl
      · rw [foldl_cons,he d hc,internalCallRelease_entry,hd.entry,update_self]
      · rw [foldl_cons,hi d hdl,hd.entry_other s (ne_of_mem_of_not_mem hdl hc)]

omit [DecidableEq F] [DecidableEq P] in
lemma timerLoop_ok (timestamp : AbsoluteTime) (l : List (ThreadCall E)) (hl : l.Nodup)
    (h : Sound none entered time s) (hst : ∀ c∈l,(s.entry c).state=.delayed) :
    Sound none entered time (timerLoop timestamp l s) ∧
      ∀ c,s.Keeps (timerLoop timestamp l s) c := by
  induction l generalizing s with
  | nil => exact ⟨h,fun _ => .inl rfl⟩
  | cons c l ih =>
    obtain ⟨hc,hl⟩ := nodup_cons.mp hl
    have hcs := hst c mem_cons_self
    rw [timerLoop]
    split_ifs
    · have h1 := (h.delayedCallDequeue hcs).pendingCallEnqueue
      have hself : ((s.delayedCallDequeue c).pendingCallEnqueue c).entry c =
          {s.entry c with state := .pending} := by
        rw [pendingCallEnqueue_entry,update_self,delayedCallDequeue_entry,update_self]
      have hother (d : ThreadCall E) (hdc : d≠c) :
          ((s.delayedCallDequeue c).pendingCallEnqueue c).entry d=s.entry d := by
        rw [pendingCallEnqueue_entry,update_of_ne hdc,delayedCallDequeue_entry,update_of_ne hdc]
      obtain ⟨hs,he⟩ := ih hl h1 fun d hdl => by
        rw [hother d (ne_of_mem_of_not_mem hdl hc)]
        exact hst d (mem_cons_of_mem c hdl)
      refine ⟨hs,fun d => ?_⟩
      by_cases hdc : d=c
      · subst hdc
        rcases he d with hk | ⟨hk,-⟩
        · exact .inr ⟨hcs,hk.trans hself⟩
        · rw [hself] at hk
          cases hk
      · have hd := he d
        rw [Keeps,hother d hdc] at hd
        exact hd
    · exact ⟨h,fun _ => .inl rfl⟩

end Loops

section Clients

variable {entered : ThreadCall E → ℕ} {time : ℕ} {s s' : ThreadCalls E F P}
  {e : Event E F P} {out : Output E F P} {c : ThreadCall E}

lemma StepOk.of_single (hs : Sound none (s.stamp e entered time) (time+1) s')
    (hscheduled : ∀ d,s.schedules nil e=some d → s'.Holds d)
    (hresult : ∀ b,out=.result b ↔ s.scheduledBefore e=some b)
    (hother : ∀ d≠c,s'.entry d=s.entry d) (htouch : s.Touches nil c e)
    (hout : ∀ d,out≠.dispatched d) : StepOk nil entered time s e s' out where
  sound := hs
  scheduled := hscheduled
  result := hresult
  untouched d hd _ := .inl (hother d fun hdc => hd (hdc▸htouch))
  dispatched d hd := absurd hd (hout d)

omit [DecidableEq F] [DecidableEq P] in
lemma Sound.dequeueCall (h : Sound none entered time s) (e : E) :
    Sound (some (.client e)) entered time (s.dequeueCall (.client e)).1 := by
  rw [ThreadCalls.dequeueCall]
  cases hst : (s.entry (.client e)).state with
  | idle => exact h.hold hst
  | pending => exact h.pendingCallDequeue hst
  | delayed => exact h.delayedCallDequeue hst

omit [DecidableEq F] [DecidableEq P] in
lemma dequeueCall_entry (s : ThreadCalls E F P) (c : ThreadCall E) :
    (s.dequeueCall c).1.entry=update s.entry c {s.entry c with state := .idle} := by
  rw [dequeueCall]
  cases hst : (s.entry c).state with
  | idle =>
    have hself : {s.entry c with state := .idle}=s.entry c := by rw [←hst]
    rw [hself,update_eq_self]
  | pending => rfl
  | delayed => rfl

omit [DecidableEq F] [DecidableEq P] in
lemma dequeueCall_result (s : ThreadCalls E F P) (c : ThreadCall E) :
    (s.dequeueCall c).2=decide ((s.entry c).state≠.idle) := by
  rw [dequeueCall]
  cases hst : (s.entry c).state <;> rfl

lemma step_cancel (h : Sound none entered time s) (e : E) :
    StepOk nil entered time s (.cancel e) (s.thread_call_cancel (.client e)).1
      (.result (s.thread_call_cancel (.client e)).2) := by
  refine StepOk.of_single (c := .client e) ?_ (fun d hd => by cases hd) (fun b => ?_)
    (fun d hd => ?_) (.inr rfl) (fun d hd => by cases hd)
  · exact (h.dequeueCall e).internalCallRelease.later (Nat.le_succ time)
  · rw [thread_call_cancel,dequeueCall_result,Output.result.injEq,scheduledBefore,Option.some.injEq]
  · rw [thread_call_cancel,dequeueCall_entry,update_of_ne hd]

omit [DecidableEq F] [DecidableEq P] in
lemma thread_call_enter1_delayed_entry (s : ThreadCalls E F P) (e : E) (param1 : P)
    (deadline : AbsoluteTime) : (s.thread_call_enter1_delayed (.client e) param1 deadline).1.entry =
      update s.entry (.client e) { s.entry (.client e) with
        param1 := param1,deadline := deadline,state := .delayed} := by
  rw [thread_call_enter1_delayed]
  simp only [delayedCallEnqueue_entry,setEntry_entry,dequeueCall_entry,update_self,update_idem]

lemma step_enter1Delayed (h : Sound none entered time s) (e : E) (param1 : P)
    (deadline : AbsoluteTime) : StepOk nil entered time s (.enter1Delayed e param1 deadline)
      (s.thread_call_enter1_delayed (.client e) param1 deadline).1
      (.result (s.thread_call_enter1_delayed (.client e) param1 deadline).2) := by
  have hentry := thread_call_enter1_delayed_entry s e param1 deadline
  refine StepOk.of_single (c := .client e) ?_ (fun d hd => ?_) (fun b => ?_)
    (fun d hd => ?_) (.inl ⟨_,rfl,rfl⟩) (fun d hd => by cases hd)
  · exact ((h.dequeueCall e).setEntry rfl (.inr rfl)).delayedCallEnqueue
  · cases hd
    rw [Holds,hentry]
    simp [dispatch]
  · rw [thread_call_enter1_delayed,dequeueCall_result,Output.result.injEq,scheduledBefore,
      Option.some.injEq]
  · rw [hentry,update_of_ne hd]

omit [DecidableEq F] [DecidableEq P] in
lemma thread_call_enter1_entry (s : ThreadCalls E F P) (e : E) (param1 : P) :
    (s.thread_call_enter1 (.client e) param1).1.entry =
      update s.entry (.client e) { s.entry (.client e) with
        param1 := param1,state := .pending} := by
  rw [thread_call_enter1]
  cases hst : (s.entry (.client e)).state with
  | idle =>
    simp only [setEntry_entry,pendingCallEnqueue_entry,update_self,update_idem]
  | pending =>
    simp only [setEntry_entry]
    rw [←hst]
  | delayed =>
    simp only [setEntry_entry,pendingCallEnqueue_entry,delayedCallDequeue_entry,
      update_self,update_idem]

lemma step_enter1 (h : Sound none entered time s) (e : E) (param1 : P) :
    StepOk nil entered time s (.enter1 e param1) (s.thread_call_enter1 (.client e) param1).1
      (.result (s.thread_call_enter1 (.client e) param1).2) := by
  have hentry := thread_call_enter1_entry s e param1
  have hsound : Sound none entered time (s.thread_call_enter1 (.client e) param1).1 := by
    have hset {t : ThreadCalls E F P} (ht : Sound none entered time t) :
        Sound none entered time (t.setEntry (.client e) fun e => {e with param1 := param1}) :=
      ht.setEntry rfl (.inl rfl)
    rw [thread_call_enter1]
    cases hst : (s.entry (.client e)).state with
    | idle => exact hset (h.hold hst).pendingCallEnqueue
    | pending => exact hset h
    | delayed => exact hset (h.delayedCallDequeue hst).pendingCallEnqueue
  have hresult : (s.thread_call_enter1 (.client e) param1).2 =
      decide ((s.entry (.client e)).state≠.idle) := by
    rw [thread_call_enter1]
    cases hst : (s.entry (.client e)).state <;> rfl
  refine StepOk.of_single (c := .client e) (hsound.later (Nat.le_succ time)) (fun d hd => ?_)
    (fun b => ?_) (fun d hd => ?_) (.inl ⟨_,rfl,rfl⟩) (fun d hd => by cases hd)
  · cases hd
    rw [Holds,hentry]
    simp [dispatch]
  · rw [hresult,Output.result.injEq,scheduledBefore,Option.some.injEq]
  · rw [hentry,update_of_ne hd]

end Clients

section Functions

variable {entered : ThreadCall E → ℕ} {time : ℕ} {s s' : ThreadCalls E F P}

omit [DecidableEq E] [DecidableEq F] [DecidableEq P] in
lemma internalCallAllocate_head {r : ThreadCall E × ThreadCalls E F P}
    (hr : s.internalCallAllocate=some r) :
    s.internal_call_free_queue.head?=some r.1 ∧ r.2.entry=s.entry := by
  rw [internalCallAllocate] at hr
  cases hq : s.internal_call_free_queue with
  | nil =>
    rw [hq] at hr
    cases hr
  | cons c calls =>
    rw [hq] at hr
    cases hr
    exact ⟨rfl,rfl⟩

lemma step_func (h : Sound none entered time s) {func : F} {param : P} {unique_call : Bool}
    (hs : s.thread_call_func nil func param unique_call=some s') :
    StepOk nil entered time s (.func func param unique_call) s' .quiet := by
  rw [thread_call_func] at hs
  split_ifs at hs with hu
  · cases hs
    have hnone : s.schedules nil (.func func param unique_call)=none := if_pos hu
    refine ⟨h.later (Nat.le_succ time),fun d hd => ?_,fun b => ?_,fun c _ _ => .inl rfl,
      fun d hd => by cases hd⟩
    · rw [hnone] at hd
      cases hd
    · exact ⟨fun hb => (by cases hb),fun hb => (by cases hb)⟩
  · obtain ⟨r,hr,rfl⟩ := Option.map_eq_some_iff.mp hs
    obtain ⟨hhead,hentry⟩ := internalCallAllocate_head hr
    have hsome : s.schedules nil (.func func param unique_call)=some ⟨r.1,func,param,nil⟩ := by
      rw [schedules,if_neg hu,hhead,Option.map_some]
    refine StepOk.of_single (c := r.1) ?_ (fun d hd => ?_) (fun b => ?_) (fun d hd => ?_)
      (.inl ⟨_,hsome,rfl⟩) (fun d hd => by cases hd)
    · exact (((h.internalCallAllocate hr).setEntry rfl (.inr rfl)).pendingCallEnqueue).later
        (Nat.le_succ time)
    · rw [hsome] at hd
      cases hd
      simp [Holds]
    · exact ⟨fun hb => (by cases hb),fun hb => (by cases hb)⟩
    · simp only [pendingCallEnqueue_entry,setEntry_entry,update_of_ne hd,hentry]

lemma step_funcDelayed (h : Sound none entered time s) {func : F} {param : P}
    {deadline : AbsoluteTime} (hs : s.thread_call_func_delayed nil func param deadline=some s') :
    StepOk nil entered time s (.funcDelayed func param deadline) s' .quiet := by
  rw [thread_call_func_delayed] at hs
  obtain ⟨r,hr,rfl⟩ := Option.map_eq_some_iff.mp hs
  obtain ⟨hhead,hentry⟩ := internalCallAllocate_head hr
  have hsome : s.schedules nil (.funcDelayed func param deadline)=some ⟨r.1,func,param,nil⟩ := by
    rw [schedules,hhead,Option.map_some]
  have hstamp : s.stamp (.funcDelayed func param deadline) entered time =
      update entered r.1 time := by
    rw [stamp,entersDelayed,hhead]
  refine StepOk.of_single (c := r.1) ?_ (fun d hd => ?_) (fun b => ?_) (fun d hd => ?_)
    (.inl ⟨_,hsome,rfl⟩) (fun d hd => by cases hd)
  · rw [hstamp]
    exact ((h.internalCallAllocate hr).setEntry rfl (.inr rfl)).delayedCallEnqueue
  · rw [hsome] at hd
    cases hd
    simp [Holds]
  · exact ⟨fun hb => (by cases hb),fun hb => (by cases hb)⟩
  · simp only [delayedCallEnqueue_entry,setEntry_entry,update_of_ne hd,hentry]

variable {dequeue : ThreadCalls E F P → ThreadCall E → ThreadCalls E F P} {l : List (ThreadCall E)}

lemma removeLoop_first_ok {st : CallState}
    (hd : Dequeues st dequeue)
    (h : Sound none entered time s) (func : F) (param : P)
    (hl : ∀ c∈l,(s.entry c).state=st) :
    Sound none entered time (removeLoop dequeue func param false l s).1 ∧
      ∀ c,l.find? (s.matches_ func param)≠some c →
        (removeLoop dequeue func param false l s).1.entry c=s.entry c := by
  rw [removeLoop_first]
  cases hf : l.find? (s.matches_ func param) with
  | none => exact ⟨h,fun _ _ => rfl⟩
  | some d =>
    refine ⟨(hd.sound h (hl d (mem_of_find?_eq_some hf))).internalCallRelease,
      fun c hc => ?_⟩
    exact hd.entry_other s fun hcd => hc (hcd▸rfl)

lemma removeLoop_all_ok {st : CallState}
    (hd : Dequeues st dequeue)
    (h : Sound none entered time s) (func : F) (param : P)
    (hl : ∀ c∈l,(s.entry c).state=st) (hnodup : l.Nodup) :
    Sound none entered time (removeLoop dequeue func param true l s).1 ∧
      (∀ c,¬(c∈l ∧ s.matches_ func param c=true) →
        (removeLoop dequeue func param true l s).1.entry c=s.entry c) ∧
      ∀ c,c∈l ∧ s.matches_ func param c=true → (removeLoop dequeue func param true l s).1.entry c =
          {s.entry c with state := .idle} := by
  rw [removeLoop_all hd]
  obtain ⟨hs,he,hi⟩ := hd.foldl_ok (l.filter (s.matches_ func param)) (hnodup.filter _) h
    fun c hc => hl c (mem_of_mem_filter hc)
  exact ⟨hs,fun c hc => he c fun hm => hc (mem_filter.mp hm),
    fun c hc => hi c (mem_filter.mpr hc)⟩

omit [DecidableEq E] in
lemma any_queued (s : ThreadCalls E F P) (func : F) (param : P) :
    s.queued.any (s.matches_ func param)=(s.pending_call_queue.any (s.matches_ func param) ||
        s.delayed_call_queue.any (s.matches_ func param)) := any_append

omit [DecidableEq E] [DecidableEq F] [DecidableEq P] in
lemma find?_eq_none_of_any {p : ThreadCall E → Bool}
    (h : ¬l.any p=true) : l.find? p=none := by
  rw [find?_eq_none]
  intro c hc hm
  exact h (any_eq_true.mpr ⟨c,hc,hm⟩)

lemma funcCancel_first (s : ThreadCalls E F P) (func : F) (param : P) :
    s.thread_call_func_cancel func param false =
      if s.pending_call_queue.any (s.matches_ func param) then
        s.removeFromPendingQueue func param false
      else s.removeFromDelayedQueue func param false := by
  rw [thread_call_func_cancel,if_neg Bool.false_ne_true,removeFromPendingQueue,removeLoop_first]
  split_ifs with hany
  · rfl
  · rw [find?_eq_none_of_any hany]
    rfl

lemma step_funcCancel_first (h : Sound none entered time s) (func : F) (param : P) :
    StepOk nil entered time s (.funcCancel func param false)
      (s.thread_call_func_cancel func param false).1
      (.result (s.thread_call_func_cancel func param false).2) := by
  have hfind : s.queued.find? (s.matches_ func param) =
      (s.pending_call_queue.find? (s.matches_ func param)).or
        (s.delayed_call_queue.find? (s.matches_ func param)) := find?_append
  have hp := removeLoop_first_ok dequeues_pending h func param fun c hc => (h.pending c).mp hc
  have hd := removeLoop_first_ok dequeues_delayed h func param fun c hc => (h.delayed c).mp hc
  have hcase := funcCancel_first s func param
  have hresult : (s.thread_call_func_cancel func param false).2 =
      s.queued.any (s.matches_ func param) := by
    rw [hcase,any_queued]
    split_ifs with hany
    · rw [removeFromPendingQueue,removeLoop_first,hany]
      rfl
    · rw [removeFromDelayedQueue,removeLoop_first,Bool.eq_false_iff.mpr hany]
      rfl
  refine ⟨?_,fun d hd => (by cases hd),fun b => ?_,fun c hc _ => .inl ?_,
    fun d hd => (by cases hd)⟩
  · rw [hcase]
    split_ifs
    · exact hp.1.later (Nat.le_succ time)
    · exact hd.1.later (Nat.le_succ time)
  · rw [hresult,Output.result.injEq,scheduledBefore,Option.some.injEq]
  · have hnot : s.queued.find? (s.matches_ func param)≠some c := fun hq => hc (.inr hq)
    rw [hcase]
    split_ifs with hany
    · refine hp.2 c fun hq => hnot ?_
      rw [hfind,hq]
      rfl
    · refine hd.2 c fun hq => hnot ?_
      rw [hfind,find?_eq_none_of_any hany,hq]
      rfl

lemma step_funcCancel_all (h : Sound none entered time s) (func : F) (param : P) :
    StepOk nil entered time s (.funcCancel func param true)
      (s.thread_call_func_cancel func param true).1
      (.result (s.thread_call_func_cancel func param true).2) := by
  obtain ⟨hp,hpe,hpi⟩ := removeLoop_all_ok dequeues_pending h func param
    (fun c hc => (h.pending c).mp hc) h.pending_nodup
  set t := (removeLoop pendingCallDequeue func param true s.pending_call_queue s).1 with ht
  obtain ⟨hd,hde,-⟩ := removeLoop_all_ok dequeues_delayed hp func param
    (fun c hc => (hp.delayed c).mp hc) hp.delayed_nodup
  have hmatches : t.matches_ func param=s.matches_ func param := by
    funext c
    by_cases hc : c∈s.pending_call_queue ∧ s.matches_ func param c=true
    · rw [matches_,hpi c hc]
      rfl
    · rw [matches_,hpe c hc]
      rfl
  -- the first loop leaves the delayed queue as it was
  have hdelayed (c : ThreadCall E) : c∈t.delayed_call_queue ↔ c∈s.delayed_call_queue := by
    rw [hp.delayed,h.delayed]
    by_cases hc : c∈s.pending_call_queue ∧ s.matches_ func param c=true
    · rw [hpi c hc,(h.pending c).mp hc.1]
      exact ⟨fun hm => (by cases hm),fun hm => (by cases hm)⟩
    · rw [hpe c hc]
  have hstate : (s.thread_call_func_cancel func param true).1 =
      (removeLoop delayedCallDequeue func param true t.delayed_call_queue t).1 := rfl
  have hresult : (s.thread_call_func_cancel func param true).2 =
      s.queued.any (s.matches_ func param) := by
    have hany : t.delayed_call_queue.any (s.matches_ func param) =
        s.delayed_call_queue.any (s.matches_ func param) := by
      rw [Bool.eq_iff_iff,any_eq_true,any_eq_true]
      exact exists_congr fun c => and_congr_left fun _ => hdelayed c
    rw [any_queued,←hany,thread_call_func_cancel,if_pos rfl,removeFromPendingQueue,
      removeFromDelayedQueue,←ht,removeLoop_all dequeues_delayed,hmatches,
      removeLoop_all dequeues_pending]
  refine ⟨?_,fun d hd => (by cases hd),fun b => ?_,fun c hc _ => .inl ?_,
    fun d hd => (by cases hd)⟩
  · rw [hstate]
    exact hd.later (Nat.le_succ time)
  · rw [hresult,Output.result.injEq,scheduledBefore,Option.some.injEq]
  · have hnot : ¬(c∈s.queued ∧ s.matches_ func param c=true) := fun hq => hc (.inr hq)
    have hpc : ¬(c∈s.pending_call_queue ∧ s.matches_ func param c=true) :=
      fun hq => hnot ⟨mem_append_left _ hq.1,hq.2⟩
    have hdc : ¬(c∈t.delayed_call_queue ∧ t.matches_ func param c=true) := by
      rw [hdelayed,hmatches]
      exact fun hq => hnot ⟨mem_append_right _ hq.1,hq.2⟩
    rw [hstate,hde c hdc,hpe c hpc]

end Functions

section Service

variable {entered : ThreadCall E → ℕ} {time : ℕ} {s s' : ThreadCalls E F P}

lemma step_timer (h : Sound none entered time s) (timestamp : AbsoluteTime) :
    StepOk nil entered time s (.timer timestamp) (s.delayedCallTimer timestamp) .quiet := by
  obtain ⟨hs,hk⟩ := timerLoop_ok timestamp s.delayed_call_queue h.delayed_nodup h
    fun c hc => (h.delayed c).mp hc
  exact ⟨hs.later (Nat.le_succ time),fun d hd => (by cases hd),
    fun b => ⟨fun hb => (by cases hb),fun hb => (by cases hb)⟩,fun c _ _ => hk c,
    fun d hd => (by cases hd)⟩

omit [DecidableEq F] [DecidableEq P] in
lemma step_thread (h : Sound none entered time s)
    {r : ThreadCalls E F P × Option (Dispatch E F P)} (hr : s.callThread=some r) :
    Sound none entered time r.1 ∧ (r.2=none → r.1=s ∧ s.pending_call_queue=[]) ∧
      ∀ d,r.2=some d → s.pending_call_queue=d.call::r.1.pending_call_queue ∧
        d=s.dispatch d.call ∧ r.1.entry=update s.entry d.call
          {s.entry d.call with state := .idle} := by
  rw [callThread] at hr
  split_ifs at hr with hnum
  · cases hq : s.pending_call_queue with
    | nil =>
      rw [hq] at hr
      cases hr
    | cons c calls =>
      rw [hq] at hr
      cases hr
      have hc : (s.entry c).state=.pending := (h.pending c).mp (hq▸mem_cons_self)
      have hne : (s.entry c).state≠.idle := by rw [hc]; decide
      have hnot : c∉s.delayed_call_queue := fun hm => by
        rw [h.delayed,hc] at hm
        cases hm
      have hsound : Sound (some c) entered time (({ s with
          pending_call_queue := calls,pending := s.pending.down} : ThreadCalls E F P).setEntry c
            fun e => {e with state := .idle}) := by
        refine h.dequeue hne rfl rfl ?_ ?_ ?_ h.delayed_num
        · rw [hq,erase_cons_head]
          rfl
        · exact (erase_of_not_mem hnot).symm
        · change s.pending.num-1=(calls.length : ℤ)
          rw [h.pending_num,hq,length_cons]
          omega
      refine ⟨hsound.internalCallRelease,fun hn => (by cases hn),fun d hd => ?_⟩
      cases hd
      refine ⟨?_,rfl,?_⟩
      · cases c <;> rfl
      · rw [internalCallRelease_entry]
        rfl
  · cases hr
    refine ⟨h,fun _ => ⟨rfl,?_⟩,fun d hd => (by cases hd)⟩
    rw [h.pending_num] at hnum
    exact eq_nil_of_length_eq_zero (by omega)

lemma step_ok (h : Sound none entered time s) {e : Event E F P} {out : Output E F P}
    (hs : s.step nil e=some (s',out)) : StepOk nil entered time s e s' out := by
  cases e with
  | func func param unique_call =>
    obtain ⟨t,ht,heq⟩ := Option.map_eq_some_iff.mp hs
    cases heq
    exact step_func h ht
  | funcDelayed func param deadline =>
    obtain ⟨t,ht,heq⟩ := Option.map_eq_some_iff.mp hs
    cases heq
    exact step_funcDelayed h ht
  | funcCancel func param cancel_all =>
    cases hs
    cases cancel_all with
    | false => exact step_funcCancel_first h func param
    | true => exact step_funcCancel_all h func param
  | enter e =>
    cases hs
    have hstep : StepOk nil entered time s (.enter1 e nil) _ _ := step_enter1 h e nil
    exact ⟨hstep.sound,hstep.scheduled,hstep.result,hstep.untouched,hstep.dispatched⟩
  | enter1 e param1 =>
    cases hs
    exact step_enter1 h e param1
  | enterDelayed e deadline =>
    cases hs
    have hstep : StepOk nil entered time s (.enter1Delayed e nil deadline) _ _ :=
      step_enter1Delayed h e nil deadline
    exact ⟨hstep.sound,hstep.scheduled,hstep.result,hstep.untouched,hstep.dispatched⟩
  | enter1Delayed e param1 deadline =>
    cases hs
    exact step_enter1Delayed h e param1 deadline
  | cancel e =>
    cases hs
    exact step_cancel h e
  | timer timestamp =>
    cases hs
    exact step_timer h timestamp
  | thread =>
    obtain ⟨r,hr,heq⟩ := Option.map_eq_some_iff.mp hs
    obtain ⟨hsound,hnone,hsome⟩ := step_thread h hr
    cases hd : r.2 with
    | none =>
      rw [hd] at heq
      cases heq
      obtain ⟨hrs,-⟩ := hnone hd
      exact ⟨hsound.later (Nat.le_succ time),fun d hd => (by cases hd),
        fun b => ⟨fun hb => (by cases hb),fun hb => (by cases hb)⟩,
        fun c _ _ => .inl (by rw [hrs]),fun d hd => (by cases hd)⟩
    | some d =>
      rw [hd] at heq
      cases heq
      obtain ⟨hq,hdisp,hentry⟩ := hsome d hd
      have hc : (s.entry d.call).state=.pending :=
        (h.pending _).mp (hq▸mem_cons_self)
      refine ⟨hsound.later (Nat.le_succ time),fun d hd => (by cases hd),
        fun b => ⟨fun hb => (by cases hb),fun hb => (by cases hb)⟩,fun c _ hout => .inl ?_,
        fun d' hd' => ?_⟩
      · rw [hentry,update_of_ne (hout d rfl).symm]
      · cases hd'
        refine ⟨?_,?_⟩
        · rw [Holds,hc,hdisp]
          exact ⟨by decide,rfl,rfl,rfl⟩
        · rw [hentry,update_self]

end Service

end Darwin.Kern.ThreadCalls
