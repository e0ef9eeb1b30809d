import Darwin.Kern.ThreadCallSteps

/-! Runs of the callout routines in any order. A scheduled entry is dispatched once, with its last
parameters, unless it is cancelled or scheduled anew first. -/
open List Option Function Nat Prod
namespace Darwin.Kern.ThreadCalls

variable {E F P : Type} [DecidableEq E] [DecidableEq F] [DecidableEq P]

section Runs

/-- The state of a run, with the times at which entries have entered the delayed queue. -/
structure Run (E F P : Type) where
  calls : ThreadCalls E F P
  time : ℕ
  entered : ThreadCall E → ℕ

def Run.start (entry : ThreadCall E → CallEntry F P) : Run E F P :=
  ⟨threadCallInitialize entry,1,fun _ => 0⟩

def Run.step (nil : P) (r : Run E F P) (e : Event E F P) : Option (Run E F P × Output E F P) :=
  (r.calls.step nil e).map fun q => (⟨q.1,r.time+1,r.calls.stamp e r.entered r.time⟩,q.2)

def Run.after (nil : P) (r : Run E F P) :
    List (Event E F P) → Option (Run E F P × List (Output E F P))
  | [] => some (r,[])
  | e::es => (r.step nil e).bind fun p => (Run.after nil p.1 es).map fun q => (q.1,p.2::q.2)

def Run.Ok (r : Run E F P) : Prop := Sound none r.entered r.time r.calls

def Output.dispatchOf (c : ThreadCall E) : Output E F P → Option (Dispatch E F P)
  | .dispatched d => if d.call=c then some d else none
  | _ => none

def dispatchesOf (c : ThreadCall E) (outs : List (Output E F P)) : List (Dispatch E F P) :=
  outs.filterMap (Output.dispatchOf c)

def Run.Untouched (nil : P) (c : ThreadCall E) : Run E F P → List (Event E F P) → Prop
  | _,[] => True
  | r,e::es => ¬r.calls.Touches nil c e ∧
      ∀ r' out,r.step nil e=some (r',out) → Run.Untouched nil c r' es

variable {nil : P} {r r' : Run E F P} {e : Event E F P} {out : Output E F P}

omit [DecidableEq E] [DecidableEq F] [DecidableEq P] in
lemma Run.ok_start (entry : ThreadCall E → CallEntry F P) : (Run.start entry).Ok :=
  sound_initialize entry

lemma Run.step_eq (hs : r.step nil e=some (r',out)) :
    r.calls.step nil e=some (r'.calls,out) ∧ r'.time=r.time+1 ∧
      r'.entered=r.calls.stamp e r.entered r.time := by
  obtain ⟨q,hq,heq⟩ := map_eq_some_iff.mp hs
  cases heq
  exact ⟨hq,rfl,rfl⟩

lemma Run.Ok.stepOk (h : r.Ok) (hs : r.step nil e=some (r',out)) :
    StepOk nil r.entered r.time r.calls e r'.calls out := step_ok h (Run.step_eq hs).1

lemma Run.Ok.step (h : r.Ok) (hs : r.step nil e=some (r',out)) : r'.Ok := by
  obtain ⟨-,htime,hentered⟩ := Run.step_eq hs
  rw [Run.Ok,htime,hentered]
  exact (h.stepOk hs).sound

lemma Run.after_cons {es : List (Event E F P)} {q : Run E F P} {outs : List (Output E F P)}
    (h : r.after nil (e::es)=some (q,outs)) :
    ∃ r' out outs',r.step nil e=some (r',out) ∧ r'.after nil es=some (q,outs') ∧
      outs=out::outs' := by
  obtain ⟨p,hp,hq⟩ := bind_eq_some_iff.mp h
  obtain ⟨q',hq',heq⟩ := map_eq_some_iff.mp hq
  cases heq
  exact ⟨p.1,p.2,q'.2,hp,hq',rfl⟩

lemma Run.Ok.after (h : r.Ok) {es : List (Event E F P)} {q : Run E F P}
    {outs : List (Output E F P)} (hq : r.after nil es=some (q,outs)) : q.Ok := by
  induction es generalizing r outs with
  | nil =>
    cases hq
    exact h
  | cons e es ih =>
    obtain ⟨r',out,outs',hs,hq',-⟩ := Run.after_cons hq
    exact ih (h.step hs) hq'

end Runs

section Once

variable {nil : P} {r r' : Run E F P} {e : Event E F P} {out : Output E F P}
  {s s' : ThreadCalls E F P} {c : ThreadCall E} {d : Dispatch E F P}

omit [DecidableEq E] [DecidableEq F] [DecidableEq P] in
lemma Holds.keeps (h : s.Holds d) (hk : s.Keeps s' d.call) : s'.Holds d := by
  rcases hk with hk | ⟨-,hk⟩
  · rwa [Holds,hk]
  · rw [Holds,hk]
    exact ⟨fun hi => (by cases hi),h.2⟩

omit [DecidableEq E] [DecidableEq F] [DecidableEq P] in
lemma Holds.eq {d' : Dispatch E F P} (h : s.Holds d) (h' : s.Holds d')
    (hc : d'.call=d.call) : d'=d := by
  obtain ⟨-,hf,h0,h1⟩ := h
  obtain ⟨-,hf',h0',h1'⟩ := h'
  rw [hc] at hf' h0' h1'
  cases d
  cases d'
  cases hc
  cases hf.symm.trans hf'
  cases h0.symm.trans h0'
  cases h1.symm.trans h1'
  rfl

omit [DecidableEq F] [DecidableEq P] in
lemma dispatchOf_eq_none (h : ∀ d,out=.dispatched d → d.call≠c) : out.dispatchOf c=none := by
  cases out with
  | quiet => rfl
  | result b => rfl
  | dispatched d => exact if_neg (h d rfl)

lemma Run.Ok.scheduled_step (h : r.Ok) (hs : r.step nil e=some (r',out))
    (hd : r.calls.Holds d) (hun : ¬r.calls.Touches nil d.call e) :
    (r'.calls.Holds d ∧ out.dispatchOf d.call=none) ∨
      ((r'.calls.entry d.call).state=.idle ∧ out=.dispatched d) := by
  have hok := h.stepOk hs
  by_cases hout : ∃ d',out=.dispatched d' ∧ d'.call=d.call
  · obtain ⟨d',rfl,hc⟩ := hout
    obtain ⟨hholds,hidle⟩ := hok.dispatched d' rfl
    have hdd := hd.eq hholds hc
    rw [hdd] at hidle ⊢
    exact .inr ⟨hidle,rfl⟩
  · have hne : ∀ d',out=.dispatched d' → d'.call≠d.call :=
      fun d' hd' hc => hout ⟨d',hd',hc⟩
    exact .inl ⟨hd.keeps (hok.untouched _ hun hne),dispatchOf_eq_none hne⟩

lemma Run.Ok.idle_step (h : r.Ok) (hs : r.step nil e=some (r',out))
    (hc : (r.calls.entry c).state=.idle) (hun : ¬r.calls.Touches nil c e) :
    (r'.calls.entry c).state=.idle ∧ out.dispatchOf c=none := by
  have hok := h.stepOk hs
  have hne : ∀ d',out=.dispatched d' → d'.call≠c := by
    intro d' hd' hcall
    obtain ⟨hholds,-⟩ := hok.dispatched d' hd'
    exact hholds.1 (hcall▸hc)
  refine ⟨?_,dispatchOf_eq_none hne⟩
  rcases hok.untouched c hun hne with hk | ⟨hk,-⟩
  · rw [hk,hc]
  · rw [hc] at hk
    cases hk

lemma Run.Ok.idle_after (h : r.Ok) {es : List (Event E F P)} {q : Run E F P}
    {outs : List (Output E F P)} (hq : r.after nil es=some (q,outs))
    (hc : (r.calls.entry c).state=.idle) (hun : Run.Untouched nil c r es) :
    (q.calls.entry c).state=.idle ∧ dispatchesOf c outs=[] := by
  induction es generalizing r outs with
  | nil =>
    cases hq
    exact ⟨hc,rfl⟩
  | cons e es ih =>
    obtain ⟨r',out,outs',hs,hq',rfl⟩ := Run.after_cons hq
    obtain ⟨hidle,hout⟩ := h.idle_step hs hc hun.1
    obtain ⟨hend,houts⟩ := ih (h.step hs) hq' hidle (hun.2 r' out hs)
    exact ⟨hend,(filterMap_cons_none hout).trans houts⟩

lemma Run.Ok.scheduled_after (h : r.Ok) {es : List (Event E F P)} {q : Run E F P}
    {outs : List (Output E F P)} (hq : r.after nil es=some (q,outs)) (hd : r.calls.Holds d)
    (hun : Run.Untouched nil d.call r es) : (q.calls.Holds d ∧ dispatchesOf d.call outs=[]) ∨
      ((q.calls.entry d.call).state=.idle ∧ dispatchesOf d.call outs=[d]) := by
  induction es generalizing r outs with
  | nil =>
    cases hq
    exact .inl ⟨hd,rfl⟩
  | cons e es ih =>
    obtain ⟨r',out,outs',hs,hq',rfl⟩ := Run.after_cons hq
    have hun' := hun.2 r' out hs
    rcases h.scheduled_step hs hd hun.1 with ⟨hd',hout⟩ | ⟨hidle,hout⟩
    · have houts : dispatchesOf d.call (out::outs')=dispatchesOf d.call outs' :=
        filterMap_cons_none hout
      rw [houts]
      exact ih (h.step hs) hq' hd' hun'
    · obtain ⟨hend,houts⟩ := (h.step hs).idle_after hq' hidle hun'
      have hone : out.dispatchOf d.call=some d := by
        rw [hout]
        exact if_pos rfl
      exact .inr ⟨hend,(filterMap_cons_some hone).trans (congrArg (d::·) houts)⟩

end Once

end Darwin.Kern.ThreadCalls

/-! A scheduled entry is dispatched in the end, if callout threads and the timer keep running. -/
namespace Darwin.Kern.ThreadCalls

variable {E F P : Type} [DecidableEq E]

section Position

variable {c d : ThreadCall E} {l l' l'' : List (ThreadCall E)}

def Nearer (c : ThreadCall E) (l l' : List (ThreadCall E)) : Prop :=
  c∈l → c∈l' ∧ l'.idxOf c≤l.idxOf c

lemma Nearer.refl (c : ThreadCall E) (l : List (ThreadCall E)) : Nearer c l l :=
  fun h => ⟨h,le_refl _⟩

lemma Nearer.trans (h : Nearer c l l') (g : Nearer c l' l'') : Nearer c l l'' := by
  intro hc
  obtain ⟨hc',hle⟩ := h hc
  obtain ⟨hc'',hle'⟩ := g hc'
  exact ⟨hc'',hle'.trans hle⟩

lemma nearer_append (c : ThreadCall E) (l m : List (ThreadCall E)) : Nearer c l (l++m) :=
  fun h => ⟨mem_append_left m h,(idxOf_append_of_mem h).le⟩

lemma nearer_erase (hd : d≠c) (l : List (ThreadCall E)) : Nearer c l (l.erase d) := by
  intro hc
  refine ⟨(mem_erase_of_ne hd.symm).mpr hc,?_⟩
  induction l with
  | nil => exact absurd hc not_mem_nil
  | cons b l ih =>
    by_cases hbc : b=c
    · subst hbc
      rw [erase_cons_tail (by simpa using hd.symm),idxOf_cons_self]
      exact zero_le _
    · have hcl := (mem_cons.mp hc).resolve_left (Ne.symm hbc)
      rw [idxOf_cons_ne l hbc]
      by_cases hbd : b=d
      · subst hbd
        rw [erase_cons_head]
        exact le_succ _
      · rw [erase_cons_tail (by simpa using hbd),idxOf_cons_ne _ hbc]
        exact succ_le_succ (ih hcl)

end Position

section Pending

variable {c d : ThreadCall E} {s : ThreadCalls E F P}

lemma nearer_pendingCallDequeue (hd : d≠c) (s : ThreadCalls E F P) :
    Nearer c s.pending_call_queue (s.pendingCallDequeue d).pending_call_queue :=
  nearer_erase hd _

lemma nearer_delayedCallDequeue (hd : d≠c) (s : ThreadCalls E F P) :
    Nearer c s.pending_call_queue (s.delayedCallDequeue d).pending_call_queue :=
  nearer_erase hd _

lemma nearer_pendingCallEnqueue (c d : ThreadCall E) (s : ThreadCalls E F P) :
    Nearer c s.pending_call_queue (s.pendingCallEnqueue d).pending_call_queue :=
  nearer_append c _ _

omit [DecidableEq E] in
@[simp] lemma internalCallRelease_pending (s : ThreadCalls E F P) (d : ThreadCall E) :
    (s.internalCallRelease d).pending_call_queue=s.pending_call_queue := by cases d <;> rfl

lemma nearer_dequeueCall (hd : d≠c) (s : ThreadCalls E F P) :
    Nearer c s.pending_call_queue (s.dequeueCall d).1.pending_call_queue := by
  rw [dequeueCall]
  cases (s.entry d).state with
  | idle => exact .refl c _
  | pending => exact nearer_pendingCallDequeue hd s
  | delayed => exact nearer_delayedCallDequeue hd s

lemma nearer_enter1 (hd : d≠c) (s : ThreadCalls E F P) (param1 : P) :
    Nearer c s.pending_call_queue (s.thread_call_enter1 d param1).1.pending_call_queue := by
  rw [thread_call_enter1]
  cases (s.entry d).state with
  | idle => exact nearer_pendingCallEnqueue c d s
  | pending => exact .refl c _
  | delayed => exact (nearer_delayedCallDequeue hd s).trans (nearer_pendingCallEnqueue c d _)

lemma nearer_timerLoop (timestamp : AbsoluteTime) (l : List (ThreadCall E)) (hc : c∉l)
    (s : ThreadCalls E F P) :
    Nearer c s.pending_call_queue (timerLoop timestamp l s).pending_call_queue := by
  induction l generalizing s with
  | nil => exact .refl c _
  | cons d l ih =>
    rw [mem_cons,not_or] at hc
    rw [timerLoop]
    split_ifs
    · exact ((nearer_delayedCallDequeue (Ne.symm hc.1) s).trans
        (nearer_pendingCallEnqueue c d _)).trans (ih hc.2 _)
    · exact .refl c _

variable [DecidableEq F] [DecidableEq P] {nil : P} {s' : ThreadCalls E F P} {e : Event E F P}
  {out : Output E F P} {entered : ThreadCall E → ℕ} {time : ℕ}

lemma nearer_removeLoop {dequeue : ThreadCalls E F P → ThreadCall E → ThreadCalls E F P}
    {st : CallState} (hd : Dequeues st dequeue)
    (hdequeue : ∀ d≠c,∀ s : ThreadCalls E F P,
      Nearer c s.pending_call_queue (dequeue s d).pending_call_queue) (func : F) (param : P)
    (remove_all : Bool) (l : List (ThreadCall E)) (s : ThreadCalls E F P)
    (hc : ¬(if remove_all then c∈l ∧ s.matches_ func param c=true
      else l.find? (s.matches_ func param)=some c)) : Nearer c s.pending_call_queue
      (removeLoop dequeue func param remove_all l s).1.pending_call_queue := by
  cases remove_all with
  | false =>
    rw [removeLoop_first]
    cases hf : l.find? (s.matches_ func param) with
    | none => exact .refl c _
    | some d =>
      have hne : d≠c := fun h => hc (by rw [hf,h]; rfl)
      change Nearer c _ ((dequeue s d).internalCallRelease d).pending_call_queue
      rw [internalCallRelease_pending]
      exact hdequeue d hne s
  | true =>
    rw [removeLoop_all hd]
    have hnot : c∉l.filter (s.matches_ func param) := fun hm => hc (mem_filter.mp hm)
    generalize l.filter (s.matches_ func param)=m at hnot
    clear hc
    induction m generalizing s with
    | nil => exact .refl c _
    | cons d m ih =>
      rw [mem_cons,not_or] at hnot
      have h1 : Nearer c s.pending_call_queue
          ((dequeue s d).internalCallRelease d).pending_call_queue := by
        rw [internalCallRelease_pending]
        exact hdequeue d (Ne.symm hnot.1) s
      exact h1.trans (ih _ hnot.2)

lemma nearer_funcCancel (h : Sound none entered time s) (func : F) (param : P)
    (cancel_all : Bool) (hc : (s.entry c).state=.pending)
    (hun : ¬s.Cancels c (.funcCancel func param cancel_all)) : Nearer c s.pending_call_queue
      (s.thread_call_func_cancel func param cancel_all).1.pending_call_queue := by
  have hcq : c∈s.pending_call_queue := (h.pending c).mpr hc
  have hpending : ¬(if cancel_all then c∈s.pending_call_queue ∧ s.matches_ func param c=true
      else s.pending_call_queue.find? (s.matches_ func param)=some c) := by
    intro hm
    refine hun ?_
    rw [Cancels]
    cases cancel_all with
    | true => exact ⟨mem_append_left _ hm.1,hm.2⟩
    | false =>
      have hfind : s.pending_call_queue.find? (s.matches_ func param)=some c := hm
      rw [if_neg Bool.false_ne_true,queued,find?_append,hfind]
      rfl
  have h1 := nearer_removeLoop dequeues_pending (fun d hd s => nearer_pendingCallDequeue hd s)
    func param cancel_all s.pending_call_queue s hpending
  -- the second loop works on what the first leaves
  have h2 (t : ThreadCalls E F P) (ht : c∉t.delayed_call_queue) : Nearer c t.pending_call_queue
        (t.removeFromDelayedQueue func param cancel_all).1.pending_call_queue := by
    refine nearer_removeLoop dequeues_delayed (fun d hd s => nearer_delayedCallDequeue hd s)
      func param cancel_all t.delayed_call_queue t fun hm => ht ?_
    cases cancel_all with
    | true => exact hm.1
    | false => exact mem_of_find?_eq_some hm
  cases cancel_all with
  | false =>
    have hcd : c∉s.delayed_call_queue := fun hm => by
      rw [h.delayed,hc] at hm
      cases hm
    rw [funcCancel_first]
    split_ifs
    · exact h1
    · exact h2 s hcd
  | true =>
    obtain ⟨ht,hkeep,-⟩ := removeLoop_all_ok dequeues_pending h func param
      (fun c hc => (h.pending c).mp hc) h.pending_nodup
    refine h1.trans (h2 _ fun hm => ?_)
    have hstate := (ht.delayed c).mp hm
    rw [hkeep c hpending,hc] at hstate
    cases hstate

lemma nearer_step (h : Sound none entered time s) (hs : s.step nil e=some (s',out))
    (hc : (s.entry c).state=.pending) (hun : ¬s.Touches nil c e)
    (hout : ∀ d,out≠.dispatched d) : Nearer c s.pending_call_queue s'.pending_call_queue := by
  have hcd : c∉s.delayed_call_queue := fun hm => by
    rw [h.delayed,hc] at hm
    cases hm
  have hclient {e' : E} (hsched : ∃ d,s.schedules nil e=some d ∧ d.call=.client e') :
      ThreadCall.client e'≠c := by
    rintro rfl
    exact hun (.inl hsched)
  cases e with
  | func func param unique_call =>
    obtain ⟨t,ht,heq⟩ := map_eq_some_iff.mp hs
    cases heq
    rw [thread_call_func] at ht
    split_ifs at ht
    · cases ht
      exact .refl c _
    · obtain ⟨r,hr,rfl⟩ := map_eq_some_iff.mp ht
      have hq : r.2.pending_call_queue=s.pending_call_queue := by
        rw [internalCallAllocate] at hr
        cases hf : s.internal_call_free_queue with
        | nil =>
          rw [hf] at hr
          cases hr
        | cons b calls =>
          rw [hf] at hr
          cases hr
          rfl
      rw [←hq]
      exact nearer_pendingCallEnqueue c _ _
  | funcDelayed func param deadline =>
    obtain ⟨t,ht,heq⟩ := map_eq_some_iff.mp hs
    cases heq
    obtain ⟨r,hr,rfl⟩ := map_eq_some_iff.mp ht
    rw [internalCallAllocate] at hr
    cases hf : s.internal_call_free_queue with
    | nil =>
      rw [hf] at hr
      cases hr
    | cons b calls =>
      rw [hf] at hr
      cases hr
      exact .refl c _
  | funcCancel func param cancel_all =>
    cases hs
    exact nearer_funcCancel h func param cancel_all hc fun hcan => hun (.inr hcan)
  | enter e' =>
    cases hs
    exact nearer_enter1 (hclient ⟨_,rfl,rfl⟩) s nil
  | enter1 e' param1 =>
    cases hs
    exact nearer_enter1 (hclient ⟨_,rfl,rfl⟩) s param1
  | enterDelayed e' deadline =>
    cases hs
    exact nearer_dequeueCall (hclient ⟨_,rfl,rfl⟩) s
  | enter1Delayed e' param1 deadline =>
    cases hs
    exact nearer_dequeueCall (hclient ⟨_,rfl,rfl⟩) s
  | cancel e' =>
    cases hs
    refine nearer_dequeueCall ?_ s
    rintro rfl
    exact hun (.inr rfl)
  | timer timestamp =>
    cases hs
    exact nearer_timerLoop timestamp s.delayed_call_queue hcd s
  | thread =>
    obtain ⟨r,hr,heq⟩ := map_eq_some_iff.mp hs
    obtain ⟨-,hnone,-⟩ := step_thread h hr
    cases hd : r.2 with
    | none =>
      rw [hd] at heq
      cases heq
      rw [(hnone hd).1]
      exact .refl c _
    | some d =>
      rw [hd] at heq
      cases heq
      exact absurd rfl (hout d)

omit [DecidableEq F] [DecidableEq P] in
lemma moved_other (hdc : d≠c) :
    ((s.delayedCallDequeue c).pendingCallEnqueue c).entry d=s.entry d := by
  rw [pendingCallEnqueue_entry,update_of_ne hdc,delayedCallDequeue_entry,update_of_ne hdc]

omit [DecidableEq F] [DecidableEq P] in
lemma timerLoop_other (timestamp : AbsoluteTime) (l : List (ThreadCall E)) (hc : c∉l)
    (s : ThreadCalls E F P) : (timerLoop timestamp l s).entry c=s.entry c := by
  induction l generalizing s with
  | nil => rfl
  | cons b l ih =>
    rw [mem_cons,not_or] at hc
    rw [timerLoop]
    split_ifs
    · rw [ih hc.2,moved_other hc.1]
    · rfl

omit [DecidableEq F] [DecidableEq P] in
lemma timerLoop_due (timestamp : AbsoluteTime) (l : List (ThreadCall E)) (hl : l.Nodup)
    (hst : ∀ b∈l,(s.entry b).state=.delayed) (horder : l.Pairwise (Before entered s))
    (hc : c∈l) (hdue : (s.entry c).deadline≤timestamp) :
    ((timerLoop timestamp l s).entry c).state=.pending := by
  induction l generalizing s with
  | nil => exact absurd hc not_mem_nil
  | cons b l ih =>
    obtain ⟨hb,hl⟩ := nodup_cons.mp hl
    obtain ⟨hfirst,horder⟩ := pairwise_cons.mp horder
    have hbdue : (s.entry b).deadline≤timestamp := by
      rcases mem_cons.mp hc with rfl | hcl
      · exact hdue
      · rcases hfirst c hcl with hlt | ⟨heq,-⟩
        · exact UInt64.le_trans (UInt64.le_of_lt hlt) hdue
        · exact heq▸hdue
    rw [timerLoop,if_pos hbdue]
    by_cases hcb : c=b
    · subst hcb
      rw [timerLoop_other timestamp l hb,pendingCallEnqueue_entry,update_self]
    · refine ih hl (fun d hd => ?_) ?_ ((mem_cons.mp hc).resolve_left hcb) ?_
      · rw [moved_other (ne_of_mem_of_not_mem hd hb)]
        exact hst d (mem_cons_of_mem b hd)
      · refine horder.imp_of_mem fun {d f} hd hf h => h.congr ?_ ?_
        · rw [moved_other (ne_of_mem_of_not_mem hd hb)]
        · rw [moved_other (ne_of_mem_of_not_mem hf hb)]
      · rwa [moved_other hcb]

end Pending

section Fairness

variable [DecidableEq F] [DecidableEq P] {nil : P}

/-- Callout threads and the timer run again and again, the timer at any time in the end. -/
structure Fair (ev : ℕ → Event E F P) : Prop where
  threads : ∀ n,∃ m,n ≤ m ∧ ev m=.thread
  timers : ∀ n timestamp,∃ m,n ≤ m ∧ ∃ t,ev m=.timer t ∧ timestamp≤t

def Endless (nil : P) (ev : ℕ → Event E F P) (st : ℕ → Run E F P) : Prop :=
  ∀ n,∃ out,(st n).step nil (ev n)=some (st (n+1),out)

variable {ev : ℕ → Event E F P} {st : ℕ → Run E F P} {d : Dispatch E F P}

/-- The entry is scheduled anew, cancelled or dispatched at this point of the run. -/
def Settled (nil : P) (ev : ℕ → Event E F P) (st : ℕ → Run E F P) (d : Dispatch E F P)
    (n : ℕ) : Prop :=
  (st n).calls.Touches nil d.call (ev n) ∨ (st n).step nil (ev n)=some (st (n+1),.dispatched d)

lemma holds_of_not_settled (hrun : Endless nil ev st) (h0 : (st 0).Ok)
    (hd : (st 0).calls.Holds d) (hun : ∀ n,¬Settled nil ev st d n) (n : ℕ) :
    (st n).Ok ∧ (st n).calls.Holds d := by
  induction n with
  | zero => exact ⟨h0,hd⟩
  | succ n ih =>
    obtain ⟨out,hs⟩ := hrun n
    refine ⟨ih.1.step hs,?_⟩
    rcases ih.1.scheduled_step hs ih.2 fun ht => hun n (.inl ht) with ⟨h,-⟩ | ⟨-,rfl⟩
    · exact h
    · exact absurd (.inr hs) (hun n)

lemma keeps_of_not_settled (hrun : Endless nil ev st) (h0 : (st 0).Ok)
    (hd : (st 0).calls.Holds d) (hun : ∀ n,¬Settled nil ev st d n) (n : ℕ) :
    (st n).calls.Keeps (st (n+1)).calls d.call := by
  obtain ⟨hok,hholds⟩ := holds_of_not_settled hrun h0 hd hun n
  obtain ⟨out,hs⟩ := hrun n
  refine (hok.stepOk hs).untouched _ (fun ht => hun n (.inl ht)) fun d' hd' hc => ?_
  obtain ⟨hd'holds,-⟩ := (hok.stepOk hs).dispatched d' hd'
  rw [hd',hholds.eq hd'holds hc] at hs
  exact hun n (.inr hs)

lemma exists_pending (hfair : Fair ev) (hrun : Endless nil ev st) (h0 : (st 0).Ok)
    (hd : (st 0).calls.Holds d) (hun : ∀ n,¬Settled nil ev st d n) :
    ∃ n,((st n).calls.entry d.call).state=.pending := by
  by_contra hno
  have hnot : ∀ n,((st n).calls.entry d.call).state≠.pending := fun n hn => hno ⟨n,hn⟩
  have hsame (n : ℕ) : (st n).calls.entry d.call=(st 0).calls.entry d.call := by
    induction n with
    | zero => rfl
    | succ n ih =>
      rcases keeps_of_not_settled hrun h0 hd hun n with hk | ⟨-,hk⟩
      · rw [hk,ih]
      · exact absurd (by rw [hk]) (hnot (n+1))
  obtain ⟨m,-,t,hev,hdue⟩ := hfair.timers 0 ((st 0).calls.entry d.call).deadline
  obtain ⟨hok,hholds⟩ := holds_of_not_settled hrun h0 hd hun m
  have hdelayed : ((st m).calls.entry d.call).state=.delayed := by
    cases hst : ((st m).calls.entry d.call).state with
    | idle => exact absurd hst hholds.1
    | pending => exact absurd hst (hnot m)
    | delayed => rfl
  obtain ⟨out,hs⟩ := hrun m
  obtain ⟨hstep,-⟩ := Run.step_eq hs
  rw [hev] at hstep
  have hnext : (st (m+1)).calls=(st m).calls.delayedCallTimer t :=
    (congrArg fst (some.inj hstep)).symm
  refine hnot (m+1) ?_
  rw [hnext]
  refine timerLoop_due t _ hok.delayed_nodup (fun b hb => (hok.delayed b).mp hb) hok.order
    ((hok.delayed _).mpr hdelayed) ?_
  rwa [hsame m]

lemma idxOf_step {r r' : Run E F P} {e : Event E F P} {out : Output E F P} (h : r.Ok)
    (hs : r.step nil e=some (r',out)) (hc : (r.calls.entry d.call).state=.pending)
    (hholds : r.calls.Holds d) (hun : ¬r.calls.Touches nil d.call e)
    (hout : out≠.dispatched d) :
    r'.calls.pending_call_queue.idxOf d.call≤r.calls.pending_call_queue.idxOf d.call ∧
      (e=.thread → r'.calls.pending_call_queue.idxOf d.call <
        r.calls.pending_call_queue.idxOf d.call) := by
  obtain ⟨hstep,-⟩ := Run.step_eq hs
  have hmem : d.call∈r.calls.pending_call_queue := (h.pending _).mpr hc
  by_cases he : e=.thread
  · subst he
    obtain ⟨p,hp,heq⟩ := map_eq_some_iff.mp hstep
    obtain ⟨-,hnone,hsome⟩ := step_thread h hp
    cases hd : p.2 with
    | none =>
      rw [(hnone hd).2] at hmem
      exact absurd hmem not_mem_nil
    | some d' =>
      rw [hd] at heq
      obtain ⟨hq,hdisp,-⟩ := hsome d' hd
      have hp1 : p.1=r'.calls := congrArg fst heq
      have hd' : out=.dispatched d' := (congrArg snd heq).symm
      have hne : d'.call≠d.call := by
        intro hcall
        obtain ⟨hd'holds,-⟩ := (h.stepOk hs).dispatched d' hd'
        exact hout (hd'.trans (congrArg _ (hholds.eq hd'holds hcall)))
      rw [hp1] at hq
      rw [hq,idxOf_cons_ne _ hne]
      exact ⟨le_succ _,fun _ => lt_succ_self _⟩
  · refine ⟨(nearer_step h hstep hc hun (fun d' hd' => ?_) hmem).2,fun h => absurd h he⟩
    subst hd'
    cases e with
    | thread => exact he rfl
    | func func param unique_call =>
      obtain ⟨t,-,heq⟩ := map_eq_some_iff.mp hstep
      cases heq
    | funcDelayed func param deadline =>
      obtain ⟨t,-,heq⟩ := map_eq_some_iff.mp hstep
      cases heq
    | timer timestamp =>
      have hout' : Output.quiet=Output.dispatched d' :=
        congrArg snd (some.inj hstep)
      cases hout'
    | funcCancel | enter | enter1 | enterDelayed | enter1Delayed | cancel =>
      have hout' : Output.result _=Output.dispatched d' :=
        congrArg snd (some.inj hstep)
      cases hout'

/-- A scheduled entry is dispatched in the end, unless it is scheduled anew or cancelled first. -/
theorem exists_settled (hfair : Fair ev) (hrun : Endless nil ev st) (h0 : (st 0).Ok)
    (hd : (st 0).calls.Holds d) : ∃ n,Settled nil ev st d n := by
  by_contra hno
  have hun : ∀ n,¬Settled nil ev st d n := fun n hn => hno ⟨n,hn⟩
  obtain ⟨n₀,hn₀⟩ := exists_pending hfair hrun h0 hd hun
  have hpending (n : ℕ) (hn : n₀≤n) : ((st n).calls.entry d.call).state=.pending := by
    induction n,hn using le_induction with
    | base => exact hn₀
    | succ n _ ih =>
      rcases keeps_of_not_settled hrun h0 hd hun n with hk | ⟨hk,-⟩
      · rw [hk,ih]
      · rw [ih] at hk
        cases hk
  -- its distance from the head never grows, and every turn of a callout thread lowers it
  have hstep (n : ℕ) (hn : n₀≤n) : (st (n+1)).calls.pending_call_queue.idxOf d.call ≤
          (st n).calls.pending_call_queue.idxOf d.call ∧
        (ev n=.thread → (st (n+1)).calls.pending_call_queue.idxOf d.call <
          (st n).calls.pending_call_queue.idxOf d.call) := by
    obtain ⟨hok,hholds⟩ := holds_of_not_settled hrun h0 hd hun n
    obtain ⟨out,hs⟩ := hrun n
    exact idxOf_step hok hs (hpending n hn) hholds (fun ht => hun n (.inl ht))
      fun hout => hun n (.inr (hout▸hs))
  have hle (n m : ℕ) (hn : n₀≤n) (hm : n ≤ m) : (st m).calls.pending_call_queue.idxOf d.call ≤
        (st n).calls.pending_call_queue.idxOf d.call := by
    induction m,hm using le_induction with
    | base => exact le_refl _
    | succ m hnm ih => exact (hstep m (hn.trans hnm)).1.trans ih
  have hnever (k n : ℕ) (hn : n₀≤n)
      (hk : (st n).calls.pending_call_queue.idxOf d.call≤k) : False := by
    induction k generalizing n with
    | zero =>
      obtain ⟨m,hnm,hev⟩ := hfair.threads n
      have h1 := (hstep m (hn.trans hnm)).2 hev
      have h2 := hle n m hn hnm
      omega
    | succ k ih =>
      obtain ⟨m,hnm,hev⟩ := hfair.threads n
      have h1 := (hstep m (hn.trans hnm)).2 hev
      have h2 := hle n m hn hnm
      exact ih (m+1) (hn.trans (hnm.trans (le_succ m))) (by omega)
  exact hnever _ n₀ (le_refl _) (le_refl _)

end Fairness

section Callouts

variable [DecidableEq F] [DecidableEq P]

/-- What the callout routines promise in a state: the queues are sound, a routine says whether
there was something scheduled, and what it schedules is dispatched once with its parameters, in the
end and not before it is scheduled, unless it is cancelled or scheduled anew. -/
structure Promises (nil : P) (r : Run E F P) : Prop where
  sound : r.Ok
  result : ∀ e r' out,r.step nil e=some (r',out) →
    ∀ b,out=.result b ↔ r.calls.scheduledBefore e=some b
  once : ∀ e r' out d,r.step nil e=some (r',out) → r.calls.schedules nil e=some d →
    ∀ es q outs,r'.after nil es=some (q,outs) → Run.Untouched nil d.call r' es →
      (q.calls.Holds d ∧ dispatchesOf d.call outs=[]) ∨
        ((q.calls.entry d.call).state=.idle ∧ dispatchesOf d.call outs=[d])
  finally_ : ∀ e r' out d,r.step nil e=some (r',out) → r.calls.schedules nil e=some d →
    ∀ ev st,st 0=r' → Endless nil ev st → Fair ev → ∃ n,Settled nil ev st d n
  unasked : ∀ c es q outs,(r.calls.entry c).state=.idle → r.after nil es=some (q,outs) →
    Run.Untouched nil c r es → dispatchesOf c outs=[]

end Callouts

end Darwin.Kern.ThreadCalls
