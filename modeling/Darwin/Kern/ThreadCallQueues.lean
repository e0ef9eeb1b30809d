import Darwin.Kern.ThreadCall
import Mathlib.Tactic

/-! Every call entry is on the queue its state names, or off all queues, and the delayed queue is in
order. What each operation on a queue does to that. -/
open List Function
namespace Darwin.Kern

lemma perm_insertDeadline {α : Type} (deadline : α → AbsoluteTime) (c : α) (l : List α) :
    (insertDeadline deadline c l).Perm (c::l) := by
  induction l with
  | nil => exact List.Perm.refl _
  | cons d l ih =>
    rw [insertDeadline]
    split_ifs
    · exact List.Perm.refl _
    · exact (ih.cons d).trans (List.Perm.swap c d l)

namespace ThreadCalls

variable {E F P : Type}

/-- `c` is before `d` on the delayed queue: by the deadlines, or else by the times of entering. -/
def Before (entered : ThreadCall E → ℕ) (s : ThreadCalls E F P) (c d : ThreadCall E) : Prop :=
  (s.entry c).deadline<(s.entry d).deadline ∨
    ((s.entry c).deadline=(s.entry d).deadline ∧ entered c<entered d)

/-- The queues agree with the states of the entries and the counts with the queues. The entry that
an operation holds is on no queue. `entered` are the times of the last entering, below `time`. -/
structure Sound (held : Option (ThreadCall E)) (entered : ThreadCall E → ℕ) (time : ℕ)
    (s : ThreadCalls E F P) : Prop where
  free : ∀ c,c∈s.internal_call_free_queue ↔
    (∃ i,c=.internal i) ∧ (s.entry c).state=.idle ∧ held≠some c
  pending : ∀ c,c∈s.pending_call_queue ↔ (s.entry c).state=.pending
  delayed : ∀ c,c∈s.delayed_call_queue ↔ (s.entry c).state=.delayed
  held_idle : ∀ c,held=some c → (s.entry c).state=.idle
  free_nodup : s.internal_call_free_queue.Nodup
  pending_nodup : s.pending_call_queue.Nodup
  delayed_nodup : s.delayed_call_queue.Nodup
  pending_num : s.pending.num=s.pending_call_queue.length
  delayed_num : s.delayed.num=s.delayed_call_queue.length
  order : s.delayed_call_queue.Pairwise (Before entered s)
  entered_lt : ∀ c,entered c<time

lemma Before.congr {entered : ThreadCall E → ℕ} {s s' : ThreadCalls E F P} {c d : ThreadCall E}
    (hc : (s'.entry c).deadline=(s.entry c).deadline)
    (hd : (s'.entry d).deadline=(s.entry d).deadline) (h : Before entered s c d) :
    Before entered s' c d := by
  rwa [Before,hc,hd]

variable {held : Option (ThreadCall E)} {entered : ThreadCall E → ℕ} {time : ℕ}
  {s : ThreadCalls E F P} {c : ThreadCall E}

lemma initialize_free (entry : ThreadCall E → CallEntry F P) :
    (threadCallInitialize entry).internal_call_free_queue =
      (finRange internal_call_num).map .internal := by
  rw [threadCallInitialize]

lemma initialize_state (entry : ThreadCall E → CallEntry F P) (c : ThreadCall E) :
    ((threadCallInitialize entry).entry c).state=.idle := by
  rw [threadCallInitialize]

lemma sound_initialize (entry : ThreadCall E → CallEntry F P) :
    Sound none (fun _ => 0) 1 (threadCallInitialize entry) := by
  constructor
  · intro c
    rw [initialize_free,initialize_state,mem_map]
    constructor
    · rintro ⟨i,-,rfl⟩
      exact ⟨⟨i,rfl⟩,rfl,Option.some_ne_none _ ∘ Eq.symm⟩
    · rintro ⟨⟨i,rfl⟩,-⟩
      exact ⟨i,mem_finRange i,rfl⟩
  · intro c
    rw [initialize_state]
    exact ⟨fun h => absurd h not_mem_nil,fun h => by cases h⟩
  · intro c
    rw [initialize_state]
    exact ⟨fun h => absurd h not_mem_nil,fun h => by cases h⟩
  · intro c h
    cases h
  · rw [initialize_free]
    exact (nodup_finRange _).map fun i j h => ThreadCall.internal.inj h
  · exact nodup_nil
  · exact nodup_nil
  · rfl
  · rfl
  · exact List.Pairwise.nil
  · exact fun c => Nat.one_pos

lemma Sound.hold (h : Sound none entered time s) {e : E}
    (hidle : (s.entry (.client e)).state=.idle) : Sound (some (.client e)) entered time s :=
  { h with
    free := fun c => by
      rw [h.free]
      refine and_congr_right ?_
      rintro ⟨i,rfl⟩
      simp
    held_idle := fun c hc => Option.some.inj hc▸hidle}

variable [DecidableEq E]

@[simp] lemma setEntry_same (s : ThreadCalls E F P) (c : ThreadCall E)
    (f : CallEntry F P → CallEntry F P) : (s.setEntry c f).entry c=f (s.entry c) :=
  update_self _ _ _

lemma setEntry_other (s : ThreadCalls E F P) {c d : ThreadCall E} (h : d≠c)
    (f : CallEntry F P → CallEntry F P) : (s.setEntry c f).entry d=s.entry d :=
  update_of_ne h _ _

lemma Sound.setEntry (h : Sound held entered time s) {f : CallEntry F P → CallEntry F P}
    (hstate : (f (s.entry c)).state=(s.entry c).state)
    (hdeadline : (f (s.entry c)).deadline=(s.entry c).deadline ∨ held=some c) :
    Sound held entered time (s.setEntry c f) := by
  have hst (d : ThreadCall E) : ((s.setEntry c f).entry d).state=(s.entry d).state := by
    by_cases hd : d=c
    · subst hd
      rw [setEntry_same,hstate]
    · rw [setEntry_other s hd]
  have hdl (d : ThreadCall E) (hd : d∈s.delayed_call_queue) :
      ((s.setEntry c f).entry d).deadline=(s.entry d).deadline := by
    by_cases hdc : d=c
    · subst hdc
      rw [setEntry_same]
      refine hdeadline.elim id fun hheld => ?_
      have h1 := (h.delayed d).mp hd
      rw [h.held_idle d hheld] at h1
      cases h1
    · rw [setEntry_other s hdc]
  exact {
    free := fun d => by rw [hst d]; exact h.free d
    pending := fun d => by rw [hst d]; exact h.pending d
    delayed := fun d => by rw [hst d]; exact h.delayed d
    held_idle := fun d hd => by rw [hst d]; exact h.held_idle d hd
    free_nodup := h.free_nodup
    pending_nodup := h.pending_nodup
    delayed_nodup := h.delayed_nodup
    pending_num := h.pending_num
    delayed_num := h.delayed_num
    order := h.order.imp_of_mem fun hc hd hb => hb.congr (hdl _ hc) (hdl _ hd)
    entered_lt := h.entered_lt}

section Dequeue

lemma Sound.dequeue (h : Sound none entered time s) {s' : ThreadCalls E F P}
    (hc : (s.entry c).state≠.idle)
    (hentry : s'.entry=update s.entry c {s.entry c with state := .idle})
    (hfree : s'.internal_call_free_queue=s.internal_call_free_queue)
    (hpending : s'.pending_call_queue=s.pending_call_queue.erase c)
    (hdelayed : s'.delayed_call_queue=s.delayed_call_queue.erase c)
    (hpn : s'.pending.num=s'.pending_call_queue.length)
    (hdn : s'.delayed.num=s'.delayed_call_queue.length) : Sound (some c) entered time s' := by
  have hself : (s'.entry c).state=.idle := by rw [hentry,update_self]
  have hother (d : ThreadCall E) (hd : d≠c) : s'.entry d=s.entry d := by rw [hentry,update_of_ne hd]
  constructor
  · intro d
    rw [hfree,h.free]
    by_cases hd : d=c
    · subst hd
      exact ⟨fun hm => absurd hm.2.1 hc,fun hm => absurd rfl hm.2.2⟩
    · rw [hother d hd]
      refine and_congr_right fun _ => and_congr_right fun _ => ?_
      exact ⟨fun _ hcd => hd (Option.some.inj hcd).symm,fun _ => Option.some_ne_none d ∘ Eq.symm⟩
  · intro d
    rw [hpending,h.pending_nodup.mem_erase_iff]
    by_cases hd : d=c
    · subst hd
      rw [hself]
      exact ⟨fun hm => absurd rfl hm.1,fun hm => by cases hm⟩
    · rw [hother d hd,←h.pending]
      exact and_iff_right hd
  · intro d
    rw [hdelayed,h.delayed_nodup.mem_erase_iff]
    by_cases hd : d=c
    · subst hd
      rw [hself]
      exact ⟨fun hm => absurd rfl hm.1,fun hm => by cases hm⟩
    · rw [hother d hd,←h.delayed]
      exact and_iff_right hd
  · intro d hd
    rw [←Option.some.inj hd,hself]
  · rw [hfree]
    exact h.free_nodup
  · rw [hpending]
    exact h.pending_nodup.erase c
  · rw [hdelayed]
    exact h.delayed_nodup.erase c
  · exact hpn
  · exact hdn
  · rw [hdelayed]
    refine (h.order.sublist erase_sublist).imp_of_mem fun {d e} hd he hb => ?_
    have hdc := (h.delayed_nodup.mem_erase_iff.mp hd).1
    have hec := (h.delayed_nodup.mem_erase_iff.mp he).1
    exact hb.congr (by rw [hother d hdc]) (by rw [hother e hec])
  · exact h.entered_lt

lemma Sound.free_erase (h : Sound none entered time s) (hc : (s.entry c).state≠.idle) :
    s.internal_call_free_queue.erase c=s.internal_call_free_queue :=
  erase_of_not_mem fun hm => hc ((h.free c).mp hm).2.1

lemma Sound.pendingCallDequeue (h : Sound none entered time s)
    (hc : (s.entry c).state=.pending) : Sound (some c) entered time (s.pendingCallDequeue c) := by
  have hne : (s.entry c).state≠.idle := by rw [hc]; decide
  have hnot : c∉s.delayed_call_queue := fun hm => by
    rw [h.delayed,hc] at hm
    cases hm
  refine h.dequeue hne rfl (h.free_erase hne) rfl rfl ?_ ?_
  · have hlen := length_erase_of_mem ((h.pending c).mpr hc)
    have hpos := length_pos_of_mem ((h.pending c).mpr hc)
    change s.pending.num-1=((s.pending_call_queue.erase c).length : ℤ)
    rw [h.pending_num,hlen]
    omega
  · change s.delayed.num=((s.delayed_call_queue.erase c).length : ℤ)
    rw [erase_of_not_mem hnot,h.delayed_num]

lemma Sound.delayedCallDequeue (h : Sound none entered time s)
    (hc : (s.entry c).state=.delayed) : Sound (some c) entered time (s.delayedCallDequeue c) := by
  have hne : (s.entry c).state≠.idle := by rw [hc]; decide
  have hnot : c∉s.pending_call_queue := fun hm => by
    rw [h.pending,hc] at hm
    cases hm
  refine h.dequeue hne rfl (h.free_erase hne) rfl rfl ?_ ?_
  · change s.pending.num=((s.pending_call_queue.erase c).length : ℤ)
    rw [erase_of_not_mem hnot,h.pending_num]
  · have hlen := length_erase_of_mem ((h.delayed c).mpr hc)
    have hpos := length_pos_of_mem ((h.delayed c).mpr hc)
    change s.delayed.num-1=((s.delayed_call_queue.erase c).length : ℤ)
    rw [h.delayed_num,hlen]
    omega

lemma Sound.internalCallRelease (h : Sound (some c) entered time s) :
    Sound none entered time (s.internalCallRelease c) := by
  cases c with
  | client e =>
    refine {h with free := fun d => ?_,held_idle := fun d hd => by cases hd}
    refine (h.free d).trans (and_congr_right ?_)
    rintro ⟨i,rfl⟩
    exact and_congr_right fun _ => by simp
  | internal i =>
    have hnot : ThreadCall.internal i∉s.internal_call_free_queue :=
      fun hm => ((h.free _).mp hm).2.2 rfl
    refine { h with
      free := fun d => ?_
      held_idle := fun d hd => by cases hd
      free_nodup := nodup_append.mpr ⟨h.free_nodup,nodup_singleton _,?_⟩}
    · change d∈s.internal_call_free_queue++[ThreadCall.internal i] ↔
        (∃ j,d=.internal j) ∧ (s.entry d).state=.idle ∧ none≠some d
      rw [mem_append,mem_singleton,h.free]
      constructor
      · rintro (⟨hi,hs,-⟩ | rfl)
        · exact ⟨hi,hs,Option.some_ne_none d ∘ Eq.symm⟩
        · exact ⟨⟨i,rfl⟩,h.held_idle _ rfl,Option.some_ne_none _ ∘ Eq.symm⟩
      · rintro ⟨hi,hs,-⟩
        by_cases hd : d=.internal i
        · exact .inr hd
        · exact .inl ⟨hi,hs,fun hid => hd (Option.some.inj hid).symm⟩
    · intro d hd e he hde
      rw [mem_singleton.mp he] at hde
      exact hnot (hde▸hd)

omit [DecidableEq E] in
lemma Sound.internalCallAllocate (h : Sound none entered time s)
    {r : ThreadCall E × ThreadCalls E F P} (hr : s.internalCallAllocate=some r) :
    Sound (some r.1) entered time r.2 := by
  rw [ThreadCalls.internalCallAllocate] at hr
  cases hq : s.internal_call_free_queue with
  | nil =>
    rw [hq] at hr
    cases hr
  | cons c calls =>
    rw [hq] at hr
    cases hr
    have hnodup := h.free_nodup
    rw [hq,nodup_cons] at hnodup
    have hc := (h.free c).mp (hq▸mem_cons_self)
    refine { h with
      free := fun d => ?_
      held_idle := fun d hd => Option.some.inj hd▸hc.2.1
      free_nodup := hnodup.2}
    have hd := h.free d
    rw [hq,mem_cons] at hd
    change d∈calls ↔ (∃ i,d=.internal i) ∧ (s.entry d).state=.idle ∧ some c≠some d
    constructor
    · intro hm
      obtain ⟨hi,hs,-⟩ := hd.mp (.inr hm)
      exact ⟨hi,hs,fun hcd => hnodup.1 (Option.some.inj hcd▸hm)⟩
    · rintro ⟨hi,hs,hne⟩
      refine (hd.mpr ⟨hi,hs,Option.some_ne_none d ∘ Eq.symm⟩).resolve_left ?_
      exact fun hdc => hne (hdc▸rfl)

end Dequeue

lemma Sound.pendingCallEnqueue (h : Sound (some c) entered time s) :
    Sound none entered time (s.pendingCallEnqueue c) := by
  have hself : ((s.pendingCallEnqueue c).entry c).state=.pending := by
    change (update s.entry c _ c).state=_
    rw [update_self]
  have hother (d : ThreadCall E) (hd : d≠c) :
      (s.pendingCallEnqueue c).entry d=s.entry d := update_of_ne hd _ _
  have hidle := h.held_idle c rfl
  constructor
  · intro d
    refine (h.free d).trans (and_congr_right fun _ => ?_)
    by_cases hd : d=c
    · subst hd
      rw [hself]
      exact ⟨fun hm => absurd rfl hm.2,fun hm => by cases hm.1⟩
    · rw [hother d hd]
      refine and_congr_right fun _ => ?_
      exact ⟨fun _ => Option.some_ne_none d ∘ Eq.symm,
        fun _ hcd => hd (Option.some.inj hcd).symm⟩
  · intro d
    change d∈s.pending_call_queue++[c] ↔ _
    rw [mem_append,mem_singleton,h.pending]
    by_cases hd : d=c
    · subst hd
      exact ⟨fun _ => hself,fun _ => .inr rfl⟩
    · rw [hother d hd]
      exact or_iff_left hd
  · intro d
    refine (h.delayed d).trans ?_
    by_cases hd : d=c
    · subst hd
      rw [hself,hidle]
      exact ⟨fun hm => (by cases hm),fun hm => (by cases hm)⟩
    · rw [hother d hd]
  · intro d hd
    cases hd
  · exact h.free_nodup
  · refine nodup_append.mpr ⟨h.pending_nodup,nodup_singleton c,?_⟩
    intro d hd e he hde
    rw [mem_singleton.mp he] at hde
    rw [hde,h.pending,hidle] at hd
    cases hd
  · exact h.delayed_nodup
  · change s.pending.up.num=((s.pending_call_queue++[c]).length : ℤ)
    rw [Count.up_num,h.pending_num,length_append]
    rfl
  · exact h.delayed_num
  · have hne {d : ThreadCall E} (hd : d∈s.delayed_call_queue) : d≠c := by
      rintro rfl
      rw [h.delayed,hidle] at hd
      cases hd
    refine h.order.imp_of_mem fun {d e} hd he hb => ?_
    exact hb.congr (by rw [hother d (hne hd)]) (by rw [hother e (hne he)])
  · exact h.entered_lt

lemma pairwise_insertDeadline (hlt : ∀ d,entered d<time) {l : List (ThreadCall E)}
    (hl : l.Pairwise (Before entered s)) (hc : c∉l) :
    (insertDeadline (fun d => (s.entry d).deadline) c l).Pairwise
      (Before (update entered c time) s) := by
  have hkeep {d e : ThreadCall E} (hd : d≠c) (he : e≠c) (hb : Before entered s d e) :
      Before (update entered c time) s d e := by
    rwa [Before,update_of_ne hd,update_of_ne he]
  induction l with
  | nil => exact pairwise_singleton _ _
  | cons d l ih =>
    have hdc : d≠c := fun h => hc (h▸mem_cons_self)
    have hcl : c∉l := fun h => hc (mem_cons_of_mem d h)
    obtain ⟨hd,hl'⟩ := pairwise_cons.mp hl
    have hlne {e : ThreadCall E} (he : e∈l) : e≠c := fun h => hcl (h▸he)
    rw [insertDeadline]
    split_ifs with hdl
    · refine pairwise_cons.mpr ⟨fun e he => ?_,?_⟩
      · rcases mem_cons.mp he with rfl | he
        · exact .inl hdl
        · rcases hd e he with hb | ⟨hb,-⟩
          · exact .inl (UInt64.lt_trans hdl hb)
          · exact .inl (hb▸hdl)
      · refine hl.imp_of_mem fun {e f} he hf hb => hkeep ?_ ?_ hb
        · exact fun h => hc (h▸he)
        · exact fun h => hc (h▸hf)
    · refine pairwise_cons.mpr ⟨fun e he => ?_,ih hl' hcl⟩
      rcases mem_cons.mp ((perm_insertDeadline _ c l).mem_iff.mp he) with rfl | he
      · rcases UInt64.lt_or_eq_of_le (UInt64.not_lt.mp hdl) with hb | hb
        · exact .inl hb
        · refine .inr ⟨hb,?_⟩
          rw [update_of_ne hdc,update_self]
          exact hlt d
      · exact hkeep hdc (hlne he) (hd e he)

lemma Sound.delayedCallEnqueue (h : Sound (some c) entered time s) :
    Sound none (update entered c time) (time+1) (s.delayedCallEnqueue c) := by
  have hself : (s.delayedCallEnqueue c).entry c={s.entry c with state := .delayed} :=
    update_self _ _ _
  have hother (d : ThreadCall E) (hd : d≠c) :
      (s.delayedCallEnqueue c).entry d=s.entry d := update_of_ne hd _ _
  have hidle := h.held_idle c rfl
  have hnot : c∉s.delayed_call_queue := fun hm => by
    rw [h.delayed,hidle] at hm
    cases hm
  have hperm := perm_insertDeadline (fun d => (s.entry d).deadline) c s.delayed_call_queue
  constructor
  · intro d
    refine (h.free d).trans (and_congr_right fun _ => ?_)
    by_cases hd : d=c
    · subst hd
      rw [hself]
      exact ⟨fun hm => absurd rfl hm.2,fun hm => by cases hm.1⟩
    · rw [hother d hd]
      refine and_congr_right fun _ => ?_
      exact ⟨fun _ => Option.some_ne_none d ∘ Eq.symm,
        fun _ hcd => hd (Option.some.inj hcd).symm⟩
  · intro d
    refine (h.pending d).trans ?_
    by_cases hd : d=c
    · subst hd
      rw [hself,hidle]
      exact ⟨fun hm => (by cases hm),fun hm => (by cases hm)⟩
    · rw [hother d hd]
  · intro d
    refine hperm.mem_iff.trans ?_
    rw [mem_cons,h.delayed]
    by_cases hd : d=c
    · subst hd
      rw [hself]
      exact ⟨fun _ => rfl,fun _ => .inl rfl⟩
    · rw [hother d hd]
      exact or_iff_right hd
  · intro d hd
    cases hd
  · exact h.free_nodup
  · exact h.pending_nodup
  · exact hperm.nodup_iff.mpr (nodup_cons.mpr ⟨hnot,h.delayed_nodup⟩)
  · exact h.pending_num
  · change s.delayed.up.num=((insertDeadline _ c s.delayed_call_queue).length : ℤ)
    rw [Count.up_num,h.delayed_num,hperm.length_eq,length_cons]
    rfl
  · refine (pairwise_insertDeadline h.entered_lt h.order hnot).imp fun {d e} hb => ?_
    have hdl (d : ThreadCall E) :
        ((s.delayedCallEnqueue c).entry d).deadline=(s.entry d).deadline := by
      by_cases hd : d=c
      · rw [hd,hself]
      · rw [hother d hd]
    exact hb.congr (hdl d) (hdl e)
  · intro d
    by_cases hd : d=c
    · rw [hd,update_self]
      exact Nat.lt_succ_self time
    · rw [update_of_ne hd]
      exact (h.entered_lt d).trans (Nat.lt_succ_self time)

end ThreadCalls

end Darwin.Kern
