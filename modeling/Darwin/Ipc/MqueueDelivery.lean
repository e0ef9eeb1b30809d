import Darwin.Ipc.MqueueMatch
import Mathlib.Data.Fintype.Card
import Mathlib.Tactic.Ring
import Mathlib.Tactic.Linarith

/-! Every message is delivered once, in the order of posting and with consecutive numbers. -/
open List Function Option
namespace Darwin.Ipc

variable {Port PortSet Thread : Type}

section Record

set_option linter.unusedSectionVars false

variable [DecidableEq Port] [DecidableEq Thread]

def postedOn (p : Port) : List (QueueEvent Port Thread) → List IpcKmsg
  | [] => []
  | .posted q kmsg::es => if q=p then kmsg::postedOn p es else postedOn p es
  | _::es => postedOn p es

/-- The messages that have left a port's queue, each to one receiver or destroyed. -/
def takenFrom (p : Port) : List (QueueEvent Port Thread) → List IpcKmsg
  | [] => []
  | .given q kmsg _ _::es | .destroyed q kmsg::es =>
    if q=p then kmsg::takenFrom p es else takenFrom p es
  | _::es => takenFrom p es

/-- The messages of a port are received with consecutive numbers, from `n` and up to `m`, unless the
number is set. -/
def Numbered (p : Port) : ℕ → List (QueueEvent Port Thread) → ℕ → Prop
  | n,[],m => n=m
  | n,.given q _ k _::es,m =>
    if q=p then k=n ∧ Numbered p ((n+1)%2^32) es m else Numbered p n es m
  | n,.seqnoSet q k::es,m => if q=p then Numbered p k es m else Numbered p n es m
  | n,_::es,m => Numbered p n es m

/-- What a thread has been handed last: a message, or the news that it is too large. -/
def handAfter (r : Thread) : Option (Option IpcKmsg) → List (QueueEvent Port Thread) →
    Option (Option IpcKmsg)
  | last,[] => last
  | last,.given _ kmsg _ t::es => handAfter r (if t=r then some (some kmsg) else last) es
  | last,.refused t::es => handAfter r (if t=r then some none else last) es
  | last,_::es => handAfter r last es

lemma postedOn_append (p : Port) (es fs : List (QueueEvent Port Thread)) :
    postedOn p (es++fs)=postedOn p es++postedOn p fs := by
  induction es with
  | nil => rfl
  | cons e es ih => cases e <;> simp only [cons_append,postedOn,ih]; split <;> rfl

lemma takenFrom_append (p : Port) (es fs : List (QueueEvent Port Thread)) :
    takenFrom p (es++fs)=takenFrom p es++takenFrom p fs := by
  induction es with
  | nil => rfl
  | cons e es ih => cases e <;> simp only [cons_append,takenFrom,ih] <;> split <;> rfl

lemma Numbered.append {p : Port} {n m k : ℕ} {es fs : List (QueueEvent Port Thread)}
    (h : Numbered p n es m) (g : Numbered p m fs k) : Numbered p n (es++fs) k := by
  induction es generalizing n with
  | nil =>
    cases h
    exact g
  | cons e es ih =>
    cases e with
    | given q kmsg j t =>
      simp only [cons_append,Numbered] at h ⊢
      split
      · rename_i hq
        rw [if_pos hq] at h
        exact ⟨h.1,ih h.2⟩
      · rename_i hq
        rw [if_neg hq] at h
        exact ih h
    | seqnoSet q j =>
      simp only [cons_append,Numbered] at h ⊢
      split
      · rename_i hq
        rw [if_pos hq] at h
        exact ih h
      · rename_i hq
        rw [if_neg hq] at h
        exact ih h
    | _ => exact ih h

lemma handAfter_append (r : Thread) (last : Option (Option IpcKmsg))
    (es fs : List (QueueEvent Port Thread)) :
    handAfter r last (es++fs)=handAfter r (handAfter r last es) fs := by
  induction es generalizing last with
  | nil => rfl
  | cons e es ih => cases e <;> exact ih _

end Record

namespace Queues

set_option linter.unusedSectionVars false

variable [DecidableEq Port] [DecidableEq PortSet] [DecidableEq Thread]
variable {t : Thread} {σ σ' τ : Queues Port PortSet Thread}
variable {es : List (QueueEvent Port Thread)}

section Flow

structure SameMessages (σ σ' : Queues Port PortSet Thread) : Prop where
  messages : ∀ q,(σ'.ports q).messages=(σ.ports q).messages
  seqno : ∀ q,(σ'.ports q).seqno=(σ.ports q).seqno

/-- What is posted and what is taken in a step account for the messages of every queue, and what is
given is numbered. -/
structure Flow (σ σ' : Queues Port PortSet Thread) (es : List (QueueEvent Port Thread)) :
    Prop where
  order : ∀ p,(σ.ports p).messages++postedOn p es=takenFrom p es++(σ'.ports p).messages
  numbered : ∀ p,Numbered p (σ.ports p).seqno es (σ'.ports p).seqno
  drained : ∀ p,.drained p∈es → (σ'.ports p).messages=[]

lemma SameMessages.refl (σ : Queues Port PortSet Thread) : SameMessages σ σ :=
  ⟨fun _ => rfl,fun _ => rfl⟩

variable {walk : List (Waiter PortSet Thread)} {p : Port}

lemma SameMessages.tune (h : SameMessages σ τ) {mq : Mqueue PortSet Thread}
    (hm : mq.messages=(τ.ports p).messages) (hn : mq.seqno=(τ.ports p).seqno) :
    SameMessages σ (τ.setPort p mq) := by
  refine ⟨fun q => ?_,fun q => ?_⟩
  · rw [setPort_ports,update_apply]
    split
    · subst q
      rw [hm,h.messages]
    · exact h.messages q
  · rw [setPort_ports,update_apply]
    split
    · subst q
      rw [hn,h.seqno]
    · exact h.seqno q

lemma SameMessages.wake (h : SameMessages σ τ) (r : Thread) (result : WaitResult) :
    SameMessages σ (τ.wake r result) :=
  ⟨h.messages,h.seqno⟩

lemma SameMessages.setIth (h : SameMessages σ τ) (r : Thread) (i : Ith) :
    SameMessages σ (τ.setIth r i) :=
  ⟨h.messages,h.seqno⟩

lemma SameMessages.setPlace (h : SameMessages σ τ) (r : Thread)
    (place : Spot Port PortSet Thread) : SameMessages σ (τ.setPlace r place) :=
  ⟨h.messages,h.seqno⟩

lemma SameMessages.setSet (h : SameMessages σ τ) (s : PortSet) (sq : SetQueue Port Thread) :
    SameMessages σ (τ.setSet s sq) :=
  ⟨h.messages,h.seqno⟩

lemma SameMessages.releaseMsgcount (h : SameMessages σ τ) (p : Port) :
    SameMessages σ (τ.releaseMsgcount p) := by
  have hr := releaseMsgcount_released τ p
  generalize τ.releaseMsgcount p=τ' at hr
  cases hr with
  | kept fullwaiters => exact h.tune (by rfl) (by rfl)
  | gave r hr hlt => exact SameMessages.wake (h.tune (by rfl) (by rfl)) r _

lemma SameMessages.wakeSenders (h : SameMessages σ τ) (p : Port) (n : ℕ) :
    SameMessages σ (τ.wakeSenders p n) := by
  induction n generalizing τ with
  | zero => exact h
  | succ n ih =>
    unfold Queues.wakeSenders
    split
    · exact h.tune (by rfl) (by rfl)
    · exact ih (SameMessages.wake (h.tune (by rfl) (by rfl)) _ _)

lemma SameMessages.offer (h : SameMessages σ τ) (p : Port) (s : Option PortSet) (r : Thread)
    (kmsg : IpcKmsg) : SameMessages σ (τ.offer p s r kmsg) := by
  cases s with
  | none => exact SameMessages.wake (SameMessages.setIth (h.tune (by rfl) (by rfl)) r _) r _
  | some s => exact SameMessages.wake (SameMessages.setIth (h.setSet s _) r _) r _

lemma SameMessages.flow (h : SameMessages σ σ') : Flow σ σ' [] :=
  ⟨fun p => by simp [postedOn,takenFrom,h.messages],fun p => (h.seqno p).symm,by simp⟩

lemma SameMessages.refused (h : SameMessages σ σ') (r : Thread) : Flow σ σ' [.refused r] :=
  ⟨fun p => by simp [postedOn,takenFrom,h.messages],fun p => (h.seqno p).symm,by simp⟩

lemma Flow.given {kmsg : IpcKmsg} {rest : List IpcKmsg}
    (hm : (σ.ports p).messages=kmsg::rest)
    (hm' : ∀ q,(σ'.ports q).messages=if q=p then rest else (σ.ports q).messages)
    (hn : ∀ q,(σ'.ports q).seqno =
      if q=p then ((σ.ports p).seqno+1)%2^32 else (σ.ports q).seqno) (r : Thread) :
    Flow σ σ' [.given p kmsg (σ.ports p).seqno r] := by
  refine ⟨fun q => ?_,fun q => ?_,by simp⟩
  · rw [hm']
    by_cases hq : q=p
    · subst q
      simp [postedOn,takenFrom,hm]
    · simp [postedOn,takenFrom,hq,Ne.symm hq]
  · rw [hn]
    by_cases hq : q=p
    · subst q
      simp [Numbered]
    · simp [Numbered,hq,Ne.symm hq]

lemma SameMessages.unlockPort (h : SameMessages σ τ) (p : Port) : SameMessages σ (τ.unlockPort p) :=
  h.tune (by rfl) (by rfl)

lemma Flow.select {option maxSize : ℕ} {kmsg : IpcKmsg} {rest : List IpcKmsg}
    (hm : (σ.ports p).messages=kmsg::rest)
    (h : SameMessages (σ.select t p option maxSize kmsg rest).1 σ') :
    Flow σ σ' (σ.select t p option maxSize kmsg rest).2 := by
  revert h
  unfold Queues.select
  extract_lets mr
  split
  · intro h
    exact ⟨fun q => by simp [postedOn,takenFrom,h.messages],fun q => (h.seqno q).symm,by simp⟩
  · intro h
    have hrel := (SameMessages.refl (σ.setPort p {σ.ports p with messages := rest})).releaseMsgcount
      p
    refine Flow.given hm (fun q => ?_) (fun q => ?_) t
    · rw [h.messages]
      by_cases hq : q=p
      · subst q
        simp +zetaDelta [Queues.nextSeqno,hrel.messages]
      · simp +zetaDelta [Queues.nextSeqno,hrel.messages,hq]
    · rw [h.seqno]
      by_cases hq : q=p
      · subst q
        simp +zetaDelta [Queues.nextSeqno,hrel.seqno]
      · simp +zetaDelta [Queues.nextSeqno,hrel.seqno,hq]

lemma Matched.messages_of_found (h : Matched σ)
    (hwalk : ∀ x∈walk,x∈(σ.ports p).waitQueue) {s : Option PortSet} {r : Thread}
    (hfound : Found σ walk s r) : (σ.ports p).messages=[] := by
  by_contra hne
  cases s with
  | none => exact h.idle p hne _ (hwalk _ hfound)
  | some s =>
    obtain ⟨hsub,-,hr⟩ := hfound
    have hempty : (σ.sets s).waitQueue=[] := h.idle p hne _ (hwalk _ hsub)
    rw [hempty] at hr
    exact not_mem_nil hr

lemma posting_flow (h : Matched σ) (hok : QueuesOk σ) {kmsg : IpcKmsg}
    (hplace : σ.place t=.posting p kmsg walk)
    (hs : σ.posting t p kmsg walk=some (σ',es)) : Flow σ σ' es := by
  have hrefl := SameMessages.refl σ
  have hmy := hok.places t
  rw [hplace] at hmy
  unfold posting at hs
  split at hs
  · cases hs
  · cases hs
    exact (hrefl.setPlace t _).flow
  · cases hs
    refine ⟨fun q => ?_,fun q => ?_,by simp⟩
    · by_cases hq : q=p
      · subst q
        simp [postedOn,takenFrom,unlockPort]
      · simp [postedOn,takenFrom,unlockPort,hq,Ne.symm hq]
    · by_cases hq : q=p
      · subst q
        simp [Numbered,unlockPort]
      · simp [Numbered,unlockPort,hq]
  · rename_i s r hpick
    have hempty := h.messages_of_found (hmy.walk p walk rfl) (pick_found hpick)
    have hoffer := hrefl.offer p s r kmsg
    split at hs
    · cases hs
      have hrel := (SameMessages.refl ((σ.offer p s r kmsg).nextSeqno p)).releaseMsgcount p
      have hrest := (hrel.unlockPort p).setPlace t (.sent .success)
      refine ⟨fun q => ?_,fun q => ?_,by simp⟩
      · rw [hrest.messages]
        by_cases hq : q=p
        · subst q
          simp [postedOn,takenFrom,nextSeqno,hoffer.messages,hempty]
        · simp [postedOn,takenFrom,nextSeqno,hoffer.messages,hq,Ne.symm hq]
      · rw [hrest.seqno]
        by_cases hq : q=p
        · subst q
          simp [Numbered,nextSeqno,hoffer.seqno]
        · simp [Numbered,nextSeqno,hoffer.seqno,hq,Ne.symm hq]
    · cases hs
      exact (hoffer.setPlace t _).refused r

lemma handingOff_flow
    (hs : σ.handingOff t p walk=some (σ',es)) : Flow σ σ' es := by
  have hrefl := SameMessages.refl σ
  unfold handingOff at hs
  split at hs
  · cases hs
    exact ((hrefl.unlockPort p).setPlace t _).flow
  · rename_i kmsg rest hmessages
    split at hs
    · cases hs
    · cases hs
      exact (hrefl.setPlace t _).flow
    · cases hs
      exact ((hrefl.unlockPort p).setPlace t _).flow
    · rename_i s r hpick
      have hoffer := hrefl.offer p s r kmsg
      dsimp only at hs
      split at hs
      · cases hs
        have hrel := hoffer.releaseMsgcount p
        refine Flow.given hmessages (fun q => ?_) (fun q => ?_) r
        · by_cases hq : q=p
          · subst q
            simp [nextSeqno]
          · simp [nextSeqno,hrel.messages,hq]
        · by_cases hq : q=p
          · subst q
            simp [nextSeqno,hrel.seqno]
          · simp [nextSeqno,hrel.seqno,hq]
      · cases hs
        exact (hoffer.setPlace t _).refused r

lemma drain_flow (h : SameMessages σ τ) (p : Port) : Flow σ (τ.drain t p).1 (τ.drain t p).2 := by
  unfold drain
  split
  · rename_i hempty
    refine ⟨fun q => by simp [postedOn,takenFrom,h.messages],fun q => (h.seqno q).symm,
      fun q hq => ?_⟩
    obtain rfl : q=p := by simpa using hq
    exact hempty
  · rename_i kmsg rest hmessages
    rw [h.messages] at hmessages
    refine ⟨fun q => ?_,fun q => ?_,by simp⟩
    · by_cases hq : q=p
      · subst q
        simp [postedOn,takenFrom,hmessages]
      · simp [postedOn,takenFrom,h.messages,hq,Ne.symm hq]
    · by_cases hq : q=p
      · subst q
        simp [Numbered,h.seqno]
      · simp [Numbered,h.seqno,hq]

lemma searching_flow (s : PortSet) (rest : List Port) (option maxSize timeout : ℕ)
    (tryLock : Bool) : SameMessages σ (σ.searching t s rest option maxSize timeout tryLock) := by
  have hrefl := SameMessages.refl σ
  unfold searching
  split
  · split
    · exact ((hrefl.setSet s _).setIth t _).setPlace t _
    · exact ((hrefl.setSet s _).setIth t _).setPlace t _
  · split
    · split
      · exact hrefl.setPlace t _
      · exact SameMessages.setPlace (SameMessages.tune (hrefl.setSet s _) (by rfl) (by rfl)) t _
    · exact (hrefl.setSet s _).setPlace t _

lemma mqueueSend_same (p : Port) (kmsg : IpcKmsg) (option timeout : ℕ) :
    SameMessages σ (σ.mqueueSend t p kmsg option timeout) := by
  have hrefl := SameMessages.refl σ
  simp only [mqueueSend]
  split
  · exact SameMessages.setPlace (hrefl.tune (by rfl) (by rfl)) t _
  · split
    · exact hrefl.setPlace t _
    · exact SameMessages.setPlace (hrefl.tune (by rfl) (by rfl)) t _

lemma receivePort_flow (p : Port) (option maxSize timeout : ℕ) :
    Flow σ (σ.receivePort t p option maxSize timeout).1
      (σ.receivePort t p option maxSize timeout).2 := by
  have hrefl := SameMessages.refl σ
  unfold receivePort
  split
  · rename_i kmsg rest hmessages
    exact Flow.select hmessages ((SameMessages.refl _).setPlace t _)
  · split
    · exact ((hrefl.setIth t _).setPlace t _).flow
    · exact (SameMessages.setPlace (SameMessages.setIth (hrefl.tune (by rfl) (by rfl)) t _) t
        _).flow

lemma proceed_flow (h : Matched σ) (hok : QueuesOk σ) {tryLock : Bool}
    (hs : σ.proceed t tryLock=some (σ',es)) : Flow σ σ' es := by
  have hrefl := SameMessages.refl σ
  unfold proceed at hs
  split at hs
  case h_1 p kmsg option timeout hplace =>
    split at hs
    · cases hs
    · cases hs
      exact (mqueueSend_same p kmsg option timeout).flow
  case h_2 p kmsg hplace | h_8 p hplace =>
    split at hs
    · cases hs
    · cases hs
      exact (SameMessages.setPlace (hrefl.tune (by rfl) (by rfl)) t _).flow
  case h_3 p kmsg walk hplace => exact posting_flow h hok hplace hs
  case h_4 s rest option maxSize timeout hplace =>
    cases hs
    exact (searching_flow s rest option maxSize timeout tryLock).flow
  case h_5 s option maxSize timeout hplace =>
    split at hs
    · cases hs
    · cases hs
      exact ((hrefl.setSet s _).setPlace t _).flow
  case h_6 p option maxSize hplace =>
    split at hs
    · cases hs
    · rename_i kmsg rest hmessages
      cases hs
      exact Flow.select hmessages (((SameMessages.refl _).unlockPort p).setPlace t _)
  case h_7 result hplace =>
    cases hs
    unfold receiveResults
    cases result with
    | awakened => exact (hrefl.setPlace t _).flow
    | timedOut | interrupted | restart => exact ((hrefl.setIth t _).setPlace t _).flow
  case h_9 p walk hplace => exact handingOff_flow hs
  case h_10 p hplace =>
    split at hs
    · cases hs
    · obtain ⟨rfl,rfl⟩ := Prod.mk.inj (some.inj hs)
      exact drain_flow (SameMessages.wakeSenders (hrefl.tune (by rfl) (by rfl)) p _) p
  case h_11 p hplace =>
    split at hs
    · cases hs
    · obtain ⟨rfl,rfl⟩ := Prod.mk.inj (some.inj hs)
      exact drain_flow hrefl p
  case h_12 => cases hs

lemma call_flow {a : QueueAction Port PortSet Thread} (hs : σ.call t a=some (σ',es)) :
    Flow σ σ' es := by
  have hrefl := SameMessages.refl σ
  unfold call at hs
  split at hs
  case h_1 =>
    split at hs
    · cases hs
      exact (hrefl.setPlace t _).flow
    · cases hs
      exact (hrefl.setPlace t _).flow
  case h_2 p option maxSize timeout =>
    split at hs
    · cases hs
    · obtain ⟨rfl,rfl⟩ := Prod.mk.inj (some.inj hs)
      exact receivePort_flow p option maxSize timeout
  case h_3 =>
    cases hs
    exact (hrefl.setPlace t _).flow
  case h_4 p s kalloc =>
    split at hs
    · cases hs
    · split at hs
      · cases hs
        exact (hrefl.setPlace t _).flow
      · cases hs
        exact (SameMessages.setPlace (SameMessages.setSet (hrefl.tune (by rfl) (by rfl)) s _) t
          _).flow
  case h_5 p s =>
    split at hs
    · cases hs
    · cases hs
      exact (SameMessages.setPlace (SameMessages.setSet (hrefl.tune (by rfl) (by rfl)) s _) t
        _).flow
  case h_6 p qlimit =>
    split at hs
    · cases hs
    · cases hs
      refine (SameMessages.setPlace (SameMessages.tune ?_ (by rfl) (by rfl)) t _).flow
      split
      · exact hrefl.wakeSenders p _
      · exact hrefl
  case h_7 p seqno =>
    split at hs
    · cases hs
    · cases hs
      refine ⟨fun q => ?_,fun q => ?_,by simp⟩
      · by_cases hq : q=p
        · subst q
          simp [postedOn,takenFrom]
        · simp [postedOn,takenFrom,hq]
      · by_cases hq : q=p
        · subst q
          simp [Numbered]
        · simp [Numbered,hq,Ne.symm hq]
  case h_8 p =>
    split at hs
    · cases hs
      exact (SameMessages.setPlace (hrefl.tune (by rfl) (by rfl)) t _).flow
    · cases hs
  case h_9 => cases hs

lemma step_flow (h : Matched σ) (hok : QueuesOk σ) {a : QueueAction Port PortSet Thread}
    (hs : σ.step t a=some (σ',es)) : Flow σ σ' es := by
  have hrefl := SameMessages.refl σ
  unfold step at hs
  split at hs
  case h_1 => exact proceed_flow h hok hs
  case h_2 =>
    obtain ⟨υ,hclear,he⟩ := map_eq_some_iff.mp hs
    cases he
    cases (clearWait_cleared hclear).2 with
    | port p e hlock hwait => exact (SameMessages.wake (hrefl.tune (by rfl) (by rfl)) _ _).flow
    | set s hlock hwait => exact ((hrefl.setSet s _).wake _ _).flow
  case h_3 =>
    split at hs
    case h_1 _ hplace | h_2 hplace | h_3 hplace =>
      cases hs
      exact (hrefl.setPlace t _).flow
    case h_4 => cases hs
  case h_4 =>
    split at hs
    · exact call_flow hs
    · cases hs

end Flow

section Hands

def Ready (σ : Queues Port PortSet Thread) (r : Thread) : Prop :=
  σ.place r=.receiveWoken .awakened ∨
    (σ.place r=.received ∧ ((σ.ith r).ithState=.success ∨ (σ.ith r).ithState=.rcvTooLarge))

/-- It finds what it has been handed last; it returns without an error only with a message. -/
def HandOk (σ : Queues Port PortSet Thread) (r : Thread) (last : Option (Option IpcKmsg)) : Prop :=
  Ready σ r → last=some (σ.ith r).ithKmsg ∧ ((σ.ith r).ithState=.success → (σ.ith r).ithKmsg≠none)

def Hands (σ σ' : Queues Port PortSet Thread) (es : List (QueueEvent Port Thread)) : Prop :=
  ∀ r last,HandOk σ r last → HandOk σ' r (handAfter r last es)

def Unhanded (σ σ' : Queues Port PortSet Thread) : Prop :=
  ∀ r,Ready σ' r → Ready σ r ∧ σ'.ith r=σ.ith r

lemma Unhanded.refl (σ : Queues Port PortSet Thread) : Unhanded σ σ := fun _ h => ⟨h,rfl⟩

variable {υ : Queues Port PortSet Thread} {kmsg : IpcKmsg} {place : Spot Port PortSet Thread}
    {p : Port}

lemma Hands.trans {fs : List (QueueEvent Port Thread)}
    (h : Hands σ τ es) (g : Hands τ υ fs) : Hands σ υ (es++fs) := by
  intro r last hr
  rw [handAfter_append]
  exact g r _ (h r last hr)

lemma Unhanded.hands (h : Unhanded σ σ')
    (hes : ∀ r last,handAfter r last es=last) : Hands σ σ' es := by
  intro r last hr hready
  obtain ⟨hold,hith⟩ := h r hready
  rw [hes,hith]
  exact hr hold

lemma Hands.unhanded (h : Hands σ τ es) (g : Unhanded τ υ) : Hands σ υ es := by
  have hnone : Hands τ υ ([] : List (QueueEvent Port Thread)) := g.hands fun _ _ => rfl
  have htrans := h.trans hnone
  rwa [append_nil] at htrans

lemma Unhanded.setPort (h : Unhanded σ τ) (p : Port) (mq : Mqueue PortSet Thread) :
    Unhanded σ (τ.setPort p mq) := h

lemma Unhanded.setSet (h : Unhanded σ τ) (s : PortSet) (sq : SetQueue Port Thread) :
    Unhanded σ (τ.setSet s sq) := h

lemma Unhanded.setPlace (h : Unhanded σ τ) (r : Thread)
    (hw : place≠.receiveWoken .awakened) (hr : place≠.received) :
    Unhanded σ (τ.setPlace r place) := by
  intro u hu
  by_cases hur : u=r
  · subst u
    unfold Ready at hu
    rw [setPlace_place,update_self] at hu
    rcases hu with hu | hu
    · exact absurd hu hw
    · exact absurd hu.1 hr
  · unfold Ready at hu
    rw [setPlace_place,update_of_ne hur] at hu
    exact h u hu

lemma Unhanded.setIthPlace (h : Unhanded σ τ) (r : Thread) (i : Ith)
    (hw : place≠.receiveWoken .awakened)
    (hr : place=.received → i.ithState≠.success ∧ i.ithState≠.rcvTooLarge) :
    Unhanded σ ((τ.setIth r i).setPlace r place) := by
  intro u hu
  unfold Ready at hu
  by_cases hur : u=r
  · subst u
    rw [setPlace_place,update_self,setPlace_ith,setIth_ith,update_self] at hu
    rcases hu with hu | ⟨hu,hs⟩
    · exact absurd hu hw
    · rcases hs with hs | hs
      · exact absurd hs (hr hu).1
      · exact absurd hs (hr hu).2
  · rw [setPlace_place,update_of_ne hur,setPlace_ith,setIth_ith,update_of_ne hur] at hu
    rw [setPlace_ith,setIth_ith,update_of_ne hur]
    exact h u hu

lemma Unhanded.wake (h : Unhanded σ τ) {r : Thread} {result : WaitResult}
    (hr : result≠.awakened ∨ ∃ p kmsg,τ.place r=.blockedSend p kmsg)
    (hw : (τ.place r).waitsOn≠none) : Unhanded σ (τ.wake r result) := by
  refine h.setPlace r ?_ ?_
  · rcases hr with hr | ⟨p,kmsg,hp⟩
    · intro hwake
      cases hp : τ.place r <;> rw [hp] at hw hwake <;> cases result <;>
        first | exact hr rfl | exact hw rfl | cases hwake
    · rw [hp]
      cases result <;> exact fun hwake => nomatch hwake
  · intro hwake
    cases hp : τ.place r <;> rw [hp] at hw hwake <;> cases result <;>
      first | exact hw rfl | cases hwake

lemma Unhanded.releaseMsgcount (h : Unhanded σ τ) (hq : Queued τ) (p : Port) :
    Unhanded σ (τ.releaseMsgcount p) := by
  have hr := releaseMsgcount_released τ p
  generalize τ.releaseMsgcount p=τ' at hr
  cases hr with
  | kept fullwaiters => exact h.setPort p _
  | gave r hr hlt =>
    have hwait := hq.port p r .full hr
    refine Unhanded.wake (h.setPort p _) (.inr ?_)
      (by rw [setPort_place,hwait]; exact some_ne_none _)
    rw [setPort_place]
    cases hp : τ.place r <;> rw [hp] at hwait <;> cases hwait
    exact ⟨_,_,rfl⟩

lemma Unhanded.wakeSenders (h : Unhanded σ τ) (hok : OthersOk t τ) (hp : Mine t τ p)
    (n : ℕ) : Unhanded σ (τ.wakeSenders p n) := by
  induction n generalizing τ with
  | zero => exact h
  | succ n ih =>
    unfold Queues.wakeSenders
    split
    · exact h.setPort p _
    · rename_i r hr
      have hmem := firstFull_mem hr
      have hwait := hok.queued.port p r .full hmem
      refine ih (Unhanded.wake (h.setPort p _) (.inr ?_) ?_) (hok.takePort hp hmem rfl _)
        fun u hu => hp u ?_
      · rw [setPort_place]
        cases hplace : τ.place r <;> rw [hplace] at hwait <;> cases hwait
        exact ⟨_,_,rfl⟩
      · rw [setPort_place,hwait]
        exact some_ne_none _
      · simpa [Queues.wakeSender,Queues.wake] using hu

lemma offer_accepts {th : Ith} (h : th.accepts kmsg=true) (n : ℕ) :
    (th.offer kmsg n).ithKmsg=some kmsg := by
  simp [Ith.offer,h]

lemma offer_refuses {th : Ith} (h : th.accepts kmsg=false) (n : ℕ) :
    (th.offer kmsg n).ithKmsg=none ∧ (th.offer kmsg n).ithState=.rcvTooLarge := by
  have hlarge : tooLarge kmsg th.ithOption th.ithMsize=true := by
    simp only [Ith.accepts,Bool.or_eq_false_iff,Bool.not_eq_false'] at h
    exact h.1
  simp [Ith.offer,h,hlarge]

lemma offer_ith (p : Port) (s : Option PortSet) (r : Thread) (kmsg : IpcKmsg) :
    (σ.offer p s r kmsg).ith=update σ.ith r ((σ.ith r).offer kmsg (σ.ports p).seqno) := by
  cases s <;> rfl

lemma offer_places (p : Port) (s : Option PortSet) (r : Thread) (kmsg : IpcKmsg) :
    (σ.offer p s r kmsg).place=update σ.place r ((σ.place r).wake .awakened) := by
  cases s <;> rfl

lemma hands_one (h : Unhanded σ τ) {r : Thread}
    {i : Ith}
    (hplace : υ.place=update τ.place r place)
    (hith : υ.ith=update τ.ith r i)
    (hes : ∀ last,handAfter r last es=some i.ithKmsg)
    (hothers : ∀ u,u≠r → ∀ last,handAfter u last es=last)
    (hsuccess : i.ithState=.success → i.ithKmsg≠none) : Hands σ υ es := by
  intro u last hu hready
  by_cases hur : u=r
  · subst u
    rw [hes,hith,update_self]
    exact ⟨rfl,hsuccess⟩
  · unfold Ready at hready
    rw [hplace,hith,update_of_ne hur,update_of_ne hur] at hready
    obtain ⟨hold,he⟩ := h u hready
    rw [hothers u hur,hith,update_of_ne hur,he]
    exact hu hold

lemma offer_given {s : Option PortSet} {r : Thread}
    (h : (σ.ith r).accepts kmsg=true) (n : ℕ) :
    Hands σ (σ.offer p s r kmsg) [.given p kmsg n r] := by
  refine hands_one (Unhanded.refl σ) (offer_places p s r kmsg) (offer_ith p s r kmsg)
    (fun last => ?_) (fun u hu last => ?_) fun _ => ?_
  · simp [handAfter,offer_accepts h]
  · simp [handAfter,Ne.symm hu]
  · simp [offer_accepts h]

lemma offer_refused {s : Option PortSet} {r : Thread}
    (h : ¬(σ.ith r).accepts kmsg=true) : Hands σ (σ.offer p s r kmsg) [.refused r] := by
  rw [Bool.not_eq_true] at h
  refine hands_one (Unhanded.refl σ) (offer_places p s r kmsg) (offer_ith p s r kmsg)
    (fun last => ?_) (fun u hu last => ?_) fun hs => ?_
  · simp [handAfter,offer_refuses h]
  · simp [handAfter,Ne.symm hu]
  · rw [(offer_refuses h _).2] at hs
    cases hs

lemma select_hands (hok : OthersOk t σ) (hp : Mine t σ p) {option maxSize : ℕ}
    {rest : List IpcKmsg}
    (hplace : υ.place=(σ.select t p option maxSize kmsg rest).1.place)
    (hith : υ.ith=(σ.select t p option maxSize kmsg rest).1.ith) :
    Hands σ (υ.setPlace t .received) (σ.select t p option maxSize kmsg rest).2 := by
  have hset : OthersOk t (σ.setPort p {σ.ports p with messages := rest}) := hok.tune hp rfl
  have hrel := Unhanded.releaseMsgcount (σ := σ) ((Unhanded.refl σ).setPort p _) hset.queued p
  revert hplace hith
  unfold Queues.select
  extract_lets mr
  split
  · rename_i hlarge
    intro hplace hith
    have hmr : mr=.rcvTooLarge := by
      simp only [Bool.and_eq_true,decide_eq_true_eq] at hlarge
      exact hlarge.1
    refine hands_one (Unhanded.refl σ) (by rw [setPlace_place,hplace]; rfl) hith
      (fun last => ?_) (fun u hu last => ?_) fun hs => ?_
    · simp [handAfter]
    · simp [handAfter,Ne.symm hu]
    · change mr=.success at hs
      rw [hmr] at hs
      cases hs
  · intro hplace hith
    refine hands_one hrel (by rw [setPlace_place,hplace]; rfl) hith (fun last => ?_)
      (fun u hu last => ?_) fun hs => some_ne_none _
    · simp [handAfter]
    · simp [handAfter,Ne.symm hu]

lemma posting_hands (hok : QueuesOk σ)
    {walk : List (Waiter PortSet Thread)} (hplace : σ.place t=.posting p kmsg walk)
    (hs : σ.posting t p kmsg walk=some (σ',es)) : Hands σ σ' es := by
  have hrefl := Unhanded.refl σ
  have hothers := hok.othersOk (t := t) (by rw [hplace]; rfl)
  have hmy := hok.places t
  rw [hplace] at hmy
  have hwalk := hmy.walk p walk rfl
  have hmine := mine_of_lock (hmy.port p rfl)
  unfold posting at hs
  split at hs
  · cases hs
  · cases hs
    exact Unhanded.hands (hrefl.setPlace t nofun nofun) fun _ _ => rfl
  · cases hs
    exact Unhanded.hands (Unhanded.setPlace (Unhanded.setPort (hrefl.setPort p _) p _) t nofun
      nofun) fun _ _ => rfl
  · rename_i s r hpick
    have hok' := hothers.offer hmine hwalk (pick_found hpick) kmsg
    have hmine' := mine_congr hmine (offer_locks σ p p s r kmsg)
    split at hs
    · rename_i haccepts
      cases hs
      have hrest := Unhanded.releaseMsgcount ((Unhanded.refl (σ.offer p s r kmsg)).setPort p _)
        (hok'.nextSeqno hmine').queued p
      exact Hands.unhanded (fun u last hu => offer_given haccepts (σ.ports p).seqno u last hu)
        (Unhanded.setPlace (hrest.setPort p _) t nofun nofun)
    · rename_i haccepts
      cases hs
      exact Hands.unhanded (offer_refused haccepts) ((Unhanded.refl _).setPlace t nofun nofun)

lemma handingOff_hands (hok : QueuesOk σ) {walk : List (Waiter PortSet Thread)}
    (hplace : σ.place t=.handingOff p walk) (hs : σ.handingOff t p walk=some (σ',es)) :
    Hands σ σ' es := by
  have hrefl := Unhanded.refl σ
  have hothers := hok.othersOk (t := t) (by rw [hplace]; rfl)
  have hmy := hok.places t
  rw [hplace] at hmy
  have hwalk := hmy.walk p walk rfl
  have hmine := mine_of_lock (hmy.port p rfl)
  unfold handingOff at hs
  split at hs
  · cases hs
    exact Unhanded.hands (Unhanded.setPlace (hrefl.setPort p _) t nofun nofun) fun _ _ => rfl
  · rename_i kmsg rest hmessages
    split at hs
    · cases hs
    · cases hs
      exact Unhanded.hands (hrefl.setPlace t nofun nofun) fun _ _ => rfl
    · cases hs
      exact Unhanded.hands (Unhanded.setPlace (hrefl.setPort p _) t nofun nofun) fun _ _ => rfl
    · rename_i s r hpick
      have hok' := hothers.offer hmine hwalk (pick_found hpick) kmsg
      dsimp only at hs
      split at hs
      · rename_i haccepts
        cases hs
        have hrest := Unhanded.releaseMsgcount (Unhanded.refl (σ.offer p s r kmsg)) hok'.queued p
        exact Hands.unhanded (offer_given haccepts _)
          (Unhanded.setPlace (Unhanded.setPort (hrest.setPort p _) p _) t nofun nofun)
      · rename_i haccepts
        cases hs
        exact Hands.unhanded (offer_refused haccepts) ((Unhanded.refl _).setPlace t nofun nofun)

lemma drain_hands (h : Unhanded σ τ) (p : Port) : Hands σ (τ.drain t p).1 (τ.drain t p).2 := by
  unfold drain
  split
  · exact Unhanded.hands (h.setPlace t nofun nofun) fun _ _ => rfl
  · exact Unhanded.hands (Unhanded.setPlace (h.setPort p _) t nofun nofun) fun _ _ => rfl

lemma receiveTimedOut_unhanded (h : Unhanded σ τ) : Unhanded σ (τ.receiveTimedOut t) :=
  h.setIthPlace t _ nofun fun _ => ⟨nofun,nofun⟩

lemma awaitMessage_unhanded (h : Unhanded σ τ) (source : Source Port PortSet)
    (option maxSize : ℕ) : Unhanded σ (τ.awaitMessage t source option maxSize) :=
  h.setIthPlace t _ nofun nofun

lemma searching_unhanded (s : PortSet) (rest : List Port) (option maxSize timeout : ℕ)
    (tryLock : Bool) : Unhanded σ (σ.searching t s rest option maxSize timeout tryLock) := by
  have hrefl := Unhanded.refl σ
  unfold searching
  split
  · split
    · exact receiveTimedOut_unhanded (hrefl.setSet s _)
    · exact awaitMessage_unhanded (hrefl.setSet s _) _ _ _
  · split
    · split
      · exact hrefl.setPlace t nofun nofun
      · exact Unhanded.setPlace (Unhanded.setPort (hrefl.setSet s _) _ _) t nofun nofun
    · exact Unhanded.setPlace (hrefl.setSet s _) t nofun nofun

lemma mqueueSend_unhanded (p : Port) (kmsg : IpcKmsg) (option timeout : ℕ) :
    Unhanded σ (σ.mqueueSend t p kmsg option timeout) := by
  have hrefl := Unhanded.refl σ
  simp only [mqueueSend]
  split
  · exact Unhanded.setPlace (hrefl.setPort p _) t (by simp) (by simp)
  · split
    · exact hrefl.setPlace t (by simp) (by simp)
    · exact Unhanded.setPlace (hrefl.setPort p _) t (by simp) (by simp)

lemma receivePort_hands (hok : OthersOk t σ) (hp : Mine t σ p)
    (option maxSize timeout : ℕ) : Hands σ (σ.receivePort t p option maxSize timeout).1
      (σ.receivePort t p option maxSize timeout).2 := by
  have hrefl := Unhanded.refl σ
  unfold receivePort
  split
  · exact select_hands hok hp rfl rfl
  · split
    · exact (receiveTimedOut_unhanded hrefl).hands fun _ _ => rfl
    · exact (awaitMessage_unhanded (hrefl.setPort p _) _ _ _).hands fun _ _ => rfl

lemma receiveResults_unhanded {result : WaitResult} (hplace : σ.place t=.receiveWoken result) :
    Unhanded σ (σ.receiveResults t result) := by
  have hrefl := Unhanded.refl σ
  unfold receiveResults
  cases result with
  | awakened =>
    intro u hu
    by_cases hut : u=t
    · subst u
      exact ⟨.inl hplace,rfl⟩
    · unfold Ready at hu
      dsimp only at hu
      rw [setPlace_place,update_of_ne hut] at hu
      exact ⟨hu,rfl⟩
  | timedOut | interrupted | restart => exact hrefl.setIthPlace t _ nofun fun _ => ⟨nofun,nofun⟩

lemma proceed_hands (hok : QueuesOk σ) {tryLock : Bool}
    (hs : σ.proceed t tryLock=some (σ',es)) : Hands σ σ' es := by
  have hrefl := Unhanded.refl σ
  unfold proceed at hs
  split at hs
  case h_1 p kmsg option timeout hplace =>
    split at hs
    · cases hs
    · cases hs
      exact (mqueueSend_unhanded p kmsg option timeout).hands fun _ _ => rfl
  case h_2 p kmsg hplace | h_8 p hplace =>
    split at hs
    · cases hs
    · cases hs
      exact Unhanded.hands (Unhanded.setPlace (hrefl.setPort p _) t nofun nofun) fun _ _ => rfl
  case h_3 p kmsg walk hplace => exact posting_hands hok hplace hs
  case h_4 s rest option maxSize timeout hplace =>
    cases hs
    exact (searching_unhanded s rest option maxSize timeout tryLock).hands fun _ _ => rfl
  case h_5 s option maxSize timeout hplace =>
    split at hs
    · cases hs
    · cases hs
      exact Unhanded.hands (Unhanded.setPlace (hrefl.setSet s _) t nofun nofun) fun _ _ => rfl
  case h_6 p option maxSize hplace =>
    have hmine := mine_of_lock ((hok.places t).port p (by rw [hplace]; rfl))
    split at hs
    · cases hs
    · cases hs
      exact select_hands (hok.othersOk (by rw [hplace]; rfl)) hmine rfl rfl
  case h_7 result hplace =>
    cases hs
    exact (receiveResults_unhanded hplace).hands fun _ _ => rfl
  case h_9 p walk hplace => exact handingOff_hands hok hplace hs
  case h_10 p hplace =>
    split at hs
    · cases hs
    · rename_i hlock
      obtain ⟨rfl,rfl⟩ := Prod.mk.inj (some.inj hs)
      have hmine : Mine t σ p := mine_of_isSome (Bool.eq_false_iff.mpr hlock)
      have hothers := hok.othersOk (t := t) (by rw [hplace]; rfl)
      have htune : OthersOk t (σ.setPort p {σ.ports p with fullwaiters := false}) :=
        hothers.tune hmine rfl
      refine drain_hands (Unhanded.wakeSenders (hrefl.setPort p _) htune ?_ _) p
      exact mine_congr hmine (setPort_lock (by rfl) p)
  case h_11 p hplace =>
    split at hs
    · cases hs
    · obtain ⟨rfl,rfl⟩ := Prod.mk.inj (some.inj hs)
      exact drain_hands hrefl p
  case h_12 => cases hs

lemma call_hands (hok : QueuesOk σ) (hplace : σ.place t=.outside)
    {a : QueueAction Port PortSet Thread} (hs : σ.call t a=some (σ',es)) : Hands σ σ' es := by
  have hrefl := Unhanded.refl σ
  have hothers := hok.othersOk (t := t) (by rw [hplace]; rfl)
  unfold call at hs
  split at hs
  case h_1 =>
    split at hs
    · cases hs
      exact Unhanded.hands (hrefl.setPlace t nofun nofun) fun _ _ => rfl
    · cases hs
      exact Unhanded.hands (hrefl.setPlace t nofun nofun) fun _ _ => rfl
  case h_2 p option maxSize timeout =>
    split at hs
    · cases hs
    · rename_i hlock
      obtain ⟨rfl,rfl⟩ := Prod.mk.inj (some.inj hs)
      exact receivePort_hands hothers (mine_of_isSome (Bool.eq_false_iff.mpr hlock)) option maxSize timeout
  case h_3 =>
    cases hs
    exact Unhanded.hands (hrefl.setPlace t nofun nofun) fun _ _ => rfl
  case h_4 p s kalloc =>
    split at hs
    · cases hs
    · split at hs
      · cases hs
        exact Unhanded.hands (hrefl.setPlace t nofun nofun) fun _ _ => rfl
      · cases hs
        exact Unhanded.hands (Unhanded.setPlace (Unhanded.setSet (hrefl.setPort p _) s _) t nofun
          nofun) fun _ _ => rfl
  case h_5 p s =>
    split at hs
    · cases hs
    · cases hs
      exact Unhanded.hands (Unhanded.setPlace (Unhanded.setSet (hrefl.setPort p _) s _) t nofun
        nofun) fun _ _ => rfl
  case h_6 p qlimit =>
    split at hs
    · cases hs
    · rename_i hlock
      cases hs
      refine Unhanded.hands (Unhanded.setPlace (Unhanded.setPort ?_ p _) t nofun nofun)
        fun _ _ => rfl
      split
      · exact hrefl.wakeSenders hothers (mine_of_isSome (Bool.eq_false_iff.mpr hlock)) _
      · exact hrefl
  case h_7 p seqno =>
    split at hs
    · cases hs
    · cases hs
      exact Unhanded.hands (Unhanded.setPlace (hrefl.setPort p _) t nofun nofun) fun _ _ => rfl
  case h_8 p =>
    split at hs
    · cases hs
      exact Unhanded.hands (Unhanded.setPlace (hrefl.setPort p _) t nofun nofun) fun _ _ => rfl
    · cases hs
  case h_9 => cases hs

lemma step_hands (hok : QueuesOk σ) {a : QueueAction Port PortSet Thread}
    (hs : σ.step t a=some (σ',es)) : Hands σ σ' es := by
  have hrefl := Unhanded.refl σ
  unfold step at hs
  split at hs
  case h_1 => exact proceed_hands hok hs
  case h_2 u result =>
    obtain ⟨υ,hclear,he⟩ := map_eq_some_iff.mp hs
    cases he
    obtain ⟨hresult,hcleared⟩ := clearWait_cleared hclear
    cases hcleared with
    | port p e hlock hwait =>
      refine Unhanded.hands (Unhanded.wake (hrefl.setPort p _) (.inl hresult) ?_) fun _ _ => rfl
      rw [setPort_place,hwait]
      exact some_ne_none _
    | set s hlock hwait =>
      refine Unhanded.hands (Unhanded.wake (hrefl.setSet s _) (.inl hresult) ?_) fun _ _ => rfl
      rw [setSet_place,hwait]
      exact some_ne_none _
  case h_3 =>
    split at hs
    case h_1 _ hplace | h_2 hplace | h_3 hplace =>
      cases hs
      exact Unhanded.hands (hrefl.setPlace t nofun nofun) fun _ _ => rfl
    case h_4 => cases hs
  case h_4 =>
    split at hs
    · rename_i hplace
      exact call_hands hok hplace hs
    · cases hs

end Hands

lemma step_posting {u : Thread} {p : Port} {kmsg : IpcKmsg} {walk : List (Waiter PortSet Thread)}
    (hplace : σ.place u=.posting p kmsg walk) {a : QueueAction Port PortSet Thread}
    (hs : σ.step t a=some (σ',es)) :
    .posted p kmsg∈es ∨ ∃ walk',σ'.place u=.posting p kmsg walk' := by
  by_cases hut : u=t
  · subst u
    have hstay : (∃ tryLock,a=.proceed tryLock) ∨ (σ'.place t=σ.place t ∧ es=[]) := by
      refine step_inside (by rw [hplace]; rfl) ?_ ?_ ?_ ?_ hs
      all_goals
        rw [hplace]
        exact nofun
    rcases hstay with ⟨tryLock,rfl⟩ | ⟨hstay,-⟩
    · change σ.proceed t tryLock=some (σ',es) at hs
      simp only [proceed,hplace] at hs
      unfold posting at hs
      split at hs
      · cases hs
      · cases hs
        exact .inr ⟨_,update_self ..⟩
      · cases hs
        exact .inl mem_cons_self
      · split at hs
        · cases hs
          exact .inl mem_cons_self
        · cases hs
          exact .inr ⟨_,update_self ..⟩
    · exact .inr ⟨walk,hstay.trans hplace⟩
  · rcases (step_lives hs).others u hut with he | ⟨result,he⟩
    · exact .inr ⟨walk,he.trans hplace⟩
    · rw [hplace] at he
      exact .inr ⟨walk,he⟩

/-- What holds after every run under the condition, with its record. -/
structure DeliveryOk (σ : Queues Port PortSet Thread) (tr : List (QueueEvent Port Thread)) :
    Prop where
  queues : QueuesOk σ
  matched : Matched σ
  ends : EndsOk σ tr
  order : ∀ p,postedOn p tr=takenFrom p tr++(σ.ports p).messages
  numbered : ∀ p,Numbered p 0 tr (σ.ports p).seqno
  hands : ∀ r,HandOk σ r (handAfter r none tr)
  emptied : ∀ p,.drained p∈tr → (σ.ports p).messages=[]

lemma start_deliveryOk (ith : Thread → Ith) (vmPrivilege : Thread → Bool) :
    DeliveryOk (start ith vmPrivilege : Queues Port PortSet Thread) [] where
  queues := start_ok ith vmPrivilege
  matched := start_matched ith vmPrivilege
  ends := start_endsOk ith vmPrivilege
  order := fun _ => rfl
  numbered := fun _ => rfl
  hands := by
    rintro r (hr | ⟨hr,-⟩)
    · cases hr
    · cases hr
  emptied := fun _ hp => absurd hp not_mem_nil

lemma postedOn_eq_nil {p : Port} (h : ∀ kmsg,.posted p kmsg∉es) : postedOn p es=[] := by
  induction es with
  | nil => rfl
  | cons e es ih =>
    have htail := ih fun kmsg hk => h kmsg (mem_cons_of_mem e hk)
    cases e with
    | posted q kmsg =>
      have hq : q≠p := fun hq => h kmsg (hq▸mem_cons_self)
      simp only [postedOn,if_neg hq]
      exact htail
    | _ => exact htail

lemma step_deliveryOk {tr : List (QueueEvent Port Thread)} {a : QueueAction Port PortSet Thread}
    (h : DeliveryOk σ tr) (hsafe : MatchSafe σ t a) (hs : σ.step t a=some (σ',es)) :
    DeliveryOk σ' (tr++es) := by
  have hflow := step_flow h.matched h.queues hs
  have hlives := step_lives hs
  refine ⟨h.queues.step hs,step_matched h.matched h.queues hsafe hs,?_,fun p => ?_,fun p => ?_,
    fun r => ?_,fun p hp => ?_⟩
  · refine hlives.endsOk h.ends fun p hp => ?_
    rcases step_destroying hp hs with ⟨tryLock,rfl⟩ | hstay
    · exact .inl (hsafe p hp)
    · exact .inr hstay
  · rw [postedOn_append,takenFrom_append,h.order,append_assoc,hflow.order,append_assoc]
  · exact (h.numbered p).append (hflow.numbered p)
  · rw [handAfter_append]
    exact step_hands h.queues hs r _ (h.hands r)
  · rcases mem_append.mp hp with hp | hp
    · have hposted : postedOn p es=[] := postedOn_eq_nil fun kmsg hk =>
        (h.ends.drained p hp).unsent t (hlives.posted p kmsg hk)
      have horder := hflow.order p
      rw [h.emptied p hp,hposted,append_nil] at horder
      exact (append_eq_nil_iff.mp horder.symm).2
    · exact hflow.drained p hp

/-- In every run under the condition, the messages of a port leave its queue in the order of
posting, each to one receiver or with the destruction of the queue, and none is left there
afterwards; the receivers get consecutive numbers; a thread returns with what it has been handed,
and without an error only with a message; a message that is too large for the receivers is kept by
its sender until it is posted; and nobody waits where a message is queued. -/
theorem delivery_run {ith : Thread → Ith} {vmPrivilege : Thread → Bool}
    {as : List (Thread × QueueAction Port PortSet Thread)}
    {tr : List (QueueEvent Port Thread)} (hsafe : Meets MatchSafe (start ith vmPrivilege) as)
    (hr : (start ith vmPrivilege).run as=some (σ,tr)) :
    (∀ p,postedOn p tr=takenFrom p tr++(σ.ports p).messages ∧
      (.drained p∈tr → (σ.ports p).messages=[]) ∧ Numbered p 0 tr (σ.ports p).seqno) ∧
    (∀ r,Ready σ r → handAfter r none tr=some (σ.ith r).ithKmsg ∧
      ((σ.ith r).ithState=.success → (σ.ith r).ithKmsg≠none)) ∧
    (∀ u p kmsg walk,σ.place u=.posting p kmsg walk → ∀ t a σ' es,σ.step t a=some (σ',es) →
        .posted p kmsg∈es ∨ ∃ walk',σ'.place u=.posting p kmsg walk') ∧
    ∀ p,(σ.ports p).messages≠[] → (∀ r,.thread r .receive∉(σ.ports p).waitQueue) ∧
      ∀ s,.sub s∈(σ.ports p).waitQueue → (σ.sets s).waitQueue=[] := by
  have hok : DeliveryOk σ ([]++tr) := run_induction
    (fun _ _ _ _ _ _ h hc hs => step_deliveryOk h hc hs) (start_deliveryOk ith vmPrivilege) hsafe
      hr
  refine ⟨fun p => ⟨hok.order p,hok.emptied p,hok.numbered p⟩,hok.hands,?_,fun p hp => ⟨?_,?_⟩⟩
  · intro u p kmsg walk hplace t a σ' es hs
    exact step_posting hplace hs
  · exact fun r hwait => hok.matched.idle p hp _ hwait
  · exact fun s hsub => hok.matched.idle p hp _ hsub

instance [Fintype Port] [Fintype Thread] (σ : Queues Port PortSet Thread) (t : Thread) :
    (a : QueueAction Port PortSet Thread) → Decidable (MatchSafe σ t a)
  | .psetAdd p s _ =>
    inferInstanceAs (Decidable ((σ.ports p).messages=[] ∨ (σ.sets s).waitQueue=[]))
  | .proceed _ => inferInstanceAs (Decidable (∀ p,(σ.place t).life=.destroying p →
      ∀ u,(σ.place u).life≠.sending p))
  | .kmsgSend .. | .receive .. | .clearWait .. | .setQlimit .. | .psetRemove .. | .setSeqno ..
  | .destroy .. | .resume => .isTrue trivial

/-- The threads of the two runs below; there is one port and one set. -/
inductive Actor
  | sender
  | receiver
  | joiner
  deriving DecidableEq

instance : Fintype Actor := ⟨{.sender,.receiver,.joiner},fun x => by cases x <;> decide⟩

/-- The receiver waits on the set that holds the port, and the sender sends to the port. -/
def toSet : List (Actor × QueueAction Unit Unit Actor) :=
  [(.joiner,.psetAdd () () true),(.joiner,.proceed true),(.joiner,.proceed true),
    (.joiner,.resume),(.receiver,.receive (.set ()) 0 1000 0),(.receiver,.proceed true),
    (.receiver,.proceed true),(.receiver,.proceed true),
    (.sender,.kmsgSend () ⟨1,100,false⟩ 0 0),(.sender,.proceed true),(.sender,.proceed true),
    (.sender,.proceed true)]

def unset : Actor → Ith := fun _ => ⟨0,0,.success,none,0⟩

/-- The receiver gets the message. -/
theorem delivery_run_toSet : ∃ σ tr,(start unset fun _ => false).run toSet=some (σ,tr) ∧
    takenFrom () tr=[⟨1,100,false⟩] ∧ (postedOn () tr=takenFrom () tr++(σ.ports ()).messages ∧
      (.drained ()∈tr → (σ.ports ()).messages=[]) ∧ Numbered () 0 tr (σ.ports ()).seqno) := by
  have hrun : ∃ σ tr,(start unset fun _ => false).run toSet=some (σ,tr) ∧
      takenFrom () tr=[⟨1,100,false⟩] := ⟨_,_,rfl,by decide⟩
  obtain ⟨σ,tr,hr,htaken⟩ := hrun
  exact ⟨σ,tr,hr,htaken,(delivery_run (by decide) hr).1 ()⟩

/-- A message is queued, the receiver waits on the set, and the port is added to it. -/
def overtaken : List (Actor × QueueAction Unit Unit Actor) :=
  [(.sender,.kmsgSend () ⟨1,100,false⟩ 0 0),(.sender,.proceed true),(.sender,.proceed true),
    (.sender,.proceed true),(.receiver,.receive (.set ()) 0 1000 0),(.receiver,.proceed true),
    (.receiver,.proceed true),(.joiner,.psetAdd () () true)]

/-- Before the joining thread has the lock again the queue is free, a message is queued, and a
receiver that can take it waits on the set; a second message that is sent now overtakes the
first. -/
theorem joined_overtaken :
    (∃ σ tr,(start unset fun _ => false).run overtaken=some (σ,tr) ∧ (σ.ports ()).lock=none ∧
      (σ.ports ()).messages=[⟨1,100,false⟩] ∧ .sub ()∈(σ.ports ()).waitQueue ∧
      .receiver∈(σ.sets ()).waitQueue ∧ (σ.ith .receiver).accepts ⟨1,100,false⟩=true) ∧
    ∃ σ tr,(start unset fun _ => false).run (overtaken++[(.sender,.resume),
        (.sender,.kmsgSend () ⟨2,100,false⟩ 0 0),(.sender,.proceed true),(.sender,.proceed true),
        (.sender,.proceed true)])=some (σ,tr) ∧
      postedOn () tr=[⟨1,100,false⟩,⟨2,100,false⟩] ∧ takenFrom () tr=[⟨2,100,false⟩] :=
  ⟨⟨_,_,rfl,by decide,by decide,by decide,by decide,by decide⟩,_,_,rfl,by decide,by decide⟩

end Queues

end Darwin.Ipc
