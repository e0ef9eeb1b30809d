import Darwin.Ipc.MqueueWait

/-! From the death of a port to the end of its message queue: who may still be sending to it. -/
open List Function Option
namespace Darwin.Ipc

variable {Port PortSet Thread : Type}

/-- What a thread has to do with the life of a port. -/
inductive Life (Port : Type)
  | other
  | sending (p : Port)
  | destroying (p : Port)
  | draining (p : Port)
  deriving DecidableEq

def Spot.life : Spot Port PortSet Thread → Life Port
  | .send p _ _ _ | .blockedSend p _ | .post p _ | .posting p _ _ => .sending p
  | .destroying p => .destroying p
  | .draining p => .draining p
  | _ => .other

lemma Spot.wake_life (place : Spot Port PortSet Thread) (result : WaitResult) :
    (place.wake result).life=place.life ∨ (place.wake result).life=.other := by
  cases place <;> cases result <;> first | exact .inl rfl | exact .inr rfl

def Spot.Woken (place place' : Spot Port PortSet Thread) : Prop :=
  place'=place ∨ ∃ result,place'=place.wake result

lemma Spot.wake_wake (place : Spot Port PortSet Thread) (result result' : WaitResult) :
    (place.wake result).wake result'=place.wake result := by
  cases place <;> cases result <;> rfl

lemma Spot.Woken.trans {place place' place'' : Spot Port PortSet Thread}
    (h : place.Woken place') (g : place'.Woken place'') : place.Woken place'' := by
  rcases h with rfl | ⟨result,rfl⟩
  · exact g
  · rcases g with rfl | ⟨result',rfl⟩
    · exact .inr ⟨result,rfl⟩
    · exact .inr ⟨result,place.wake_wake result result'⟩

lemma Spot.Woken.life {place place' : Spot Port PortSet Thread} (h : place.Woken place') :
    place'.life=place.life ∨ place'.life=.other := by
  rcases h with rfl | ⟨result,rfl⟩
  · exact .inl rfl
  · exact place.wake_life result

namespace Queues

/-- Other threads stay where they are unless they are woken, and ports stay alive. -/
structure Lives (t : Thread) (σ σ' : Queues Port PortSet Thread) : Prop where
  others : ∀ u,u≠t → (σ.place u).Woken (σ'.place u)
  active : ∀ p,(σ'.ports p).active=(σ.ports p).active

lemma Lives.refl (t : Thread) (σ : Queues Port PortSet Thread) : Lives t σ σ :=
  ⟨fun _ _ => .inl rfl,fun _ => rfl⟩

/-- No message can come any more: the port is dead, and no thread is still sending to it. -/
structure Quiet (σ : Queues Port PortSet Thread) (p : Port) : Prop where
  dead : (σ.ports p).active=false
  unsent : ∀ u,(σ.place u).life≠.sending p

/-- A queue is destroyed only after the death of its port, and drained only when nobody sends. -/
structure LivesOk (σ : Queues Port PortSet Thread) : Prop where
  destroying : ∀ t p,(σ.place t).life=.destroying p → (σ.ports p).active=false
  draining : ∀ t p,(σ.place t).life=.draining p → Quiet σ p

section Operations

set_option linter.unusedSectionVars false

variable [DecidableEq Port] [DecidableEq PortSet] [DecidableEq Thread]
variable {t : Thread} {σ τ : Queues Port PortSet Thread}

lemma Lives.setPort (h : Lives t σ τ) {p : Port} {mq : Mqueue PortSet Thread}
    (ha : mq.active=(τ.ports p).active) : Lives t σ (τ.setPort p mq) := by
  refine ⟨h.others,fun q => ?_⟩
  rw [setPort_ports,update_apply]
  split
  · subst q
    rw [ha,h.active]
  · exact h.active q

lemma Lives.setSet (h : Lives t σ τ) (s : PortSet) (sq : SetQueue Port Thread) :
    Lives t σ (τ.setSet s sq) :=
  ⟨h.others,h.active⟩

lemma Lives.setIth (h : Lives t σ τ) (r : Thread) (i : Ith) : Lives t σ (τ.setIth r i) :=
  ⟨h.others,h.active⟩

lemma Lives.setPlace (h : Lives t σ τ) (place : Spot Port PortSet Thread) :
    Lives t σ (τ.setPlace t place) := by
  refine ⟨fun u hu => ?_,h.active⟩
  rw [setPlace_place,update_of_ne hu]
  exact h.others u hu

lemma Lives.wake (h : Lives t σ τ) (r : Thread) (result : WaitResult) :
    Lives t σ (τ.wake r result) := by
  refine ⟨fun u hu => ?_,h.active⟩
  rw [Queues.wake,setPlace_place,update_apply]
  split
  · subst u
    exact (h.others r hu).trans (.inr ⟨result,rfl⟩)
  · exact h.others u hu

lemma Lives.unlockPort (h : Lives t σ τ) (p : Port) : Lives t σ (τ.unlockPort p) :=
  h.setPort (by rfl)

lemma Lives.nextSeqno (h : Lives t σ τ) (p : Port) : Lives t σ (τ.nextSeqno p) :=
  h.setPort (by rfl)

lemma Lives.releaseMsgcount (h : Lives t σ τ) (p : Port) : Lives t σ (τ.releaseMsgcount p) := by
  have hr := releaseMsgcount_released τ p
  generalize τ.releaseMsgcount p=τ' at hr
  cases hr with
  | kept fullwaiters => exact h.setPort (by rfl)
  | gave r hr hlt => exact Lives.wake (h.setPort (by rfl)) r _

lemma Lives.wakeSenders (h : Lives t σ τ) (p : Port) (n : ℕ) : Lives t σ (τ.wakeSenders p n) := by
  induction n generalizing τ with
  | zero => exact h
  | succ n ih =>
    unfold Queues.wakeSenders
    split
    · exact h.setPort (by rfl)
    · exact ih (Lives.wake (h.setPort (by rfl)) _ _)

lemma Lives.offer (h : Lives t σ τ) (p : Port) (s : Option PortSet) (r : Thread)
    (kmsg : IpcKmsg) : Lives t σ (τ.offer p s r kmsg) := by
  cases s with
  | none => exact Lives.wake (Lives.setIth (h.setPort (by rfl)) _ _) r _
  | some s => exact Lives.wake (Lives.setIth (h.setSet s _) _ _) r _

lemma Lives.select (h : Lives t σ τ) (p : Port) (option maxSize : ℕ) (kmsg : IpcKmsg)
    (rest : List IpcKmsg) : Lives t σ (τ.select t p option maxSize kmsg rest).1 := by
  unfold Queues.select
  extract_lets mr
  split
  · exact h.setIth t _
  · exact Lives.setIth (Lives.nextSeqno (Lives.releaseMsgcount (h.setPort (by rfl)) p) p) t _

end Operations

/-- How a thread's part in the life of a port can change. -/
inductive Turn (σ σ' : Queues Port PortSet Thread) : Life Port → Life Port → Prop
  | same (l : Life Port) : Turn σ σ' l l
  | leave (l : Life Port) : Turn σ σ' l .other
  | send (p : Port) (h : (σ.ports p).active=true) : Turn σ σ' .other (.sending p)
  | destroy (p : Port) (h : (σ'.ports p).active=false) : Turn σ σ' .other (.destroying p)
  | drain (p : Port) : Turn σ σ' (.destroying p) (.draining p)

/-- What a step of thread `t` does to the lives of ports, and when it may post or end. -/
structure StepLives (t : Thread) (σ σ' : Queues Port PortSet Thread)
    (es : List (QueueEvent Port Thread)) : Prop where
  others : ∀ u,u≠t → (σ.place u).Woken (σ'.place u)
  active : ∀ p,(σ'.ports p).active=true → (σ.ports p).active=true
  turn : Turn σ σ' (σ.place t).life (σ'.place t).life
  posted : ∀ p kmsg,.posted p kmsg∈es → (σ.place t).life=.sending p
  drained : ∀ p,.drained p∈es → (σ.place t).life=.destroying p ∨ (σ.place t).life=.draining p

section Steps

set_option linter.unusedSectionVars false

variable [DecidableEq Port] [DecidableEq PortSet] [DecidableEq Thread]
variable {t : Thread} {σ τ : Queues Port PortSet Thread}

variable {es : List (QueueEvent Port Thread)} {σ' : Queues Port PortSet Thread}
    {a : QueueAction Port PortSet Thread} {place : Spot Port PortSet Thread} {p : Port}

lemma Lives.stepLives (h : Lives t σ τ)
    (hturn : Turn σ τ (σ.place t).life place.life)
    (hposted : ∀ p kmsg,.posted p kmsg∈es → (σ.place t).life=.sending p)
    (hdrained : ∀ p,.drained p∈es → (σ.place t).life=.destroying p ∨
      (σ.place t).life=.draining p) : StepLives t σ (τ.setPlace t place) es where
  others := (h.setPlace place).others
  active := fun p hp => (h.active p).symm.trans hp
  turn := by
    rw [setPlace_place,update_self]
    generalize (σ.place t).life=l,place.life=l' at hturn
    cases hturn with
    | same l => exact .same l
    | leave l => exact .leave l
    | send p hp => exact .send p hp
    | destroy p hp => exact .destroy p hp
    | drain p => exact .drain p
  posted := hposted
  drained := hdrained

lemma Lives.stays (h : Lives t σ τ)
    (hl : place.life=(σ.place t).life) : StepLives t σ (τ.setPlace t place) [] :=
  h.stepLives (hl ▸ .same _) (fun _ _ hn => absurd hn not_mem_nil)
    fun _ hn => absurd hn not_mem_nil

lemma Lives.leaves (h : Lives t σ τ)
    (hl : place.life=.other) : StepLives t σ (τ.setPlace t place) [] :=
  h.stepLives (hl ▸ .leave _) (fun _ _ hn => absurd hn not_mem_nil)
    fun _ hn => absurd hn not_mem_nil

lemma mqueueSend_lives (p : Port) (kmsg : IpcKmsg) (option timeout : ℕ)
    (hplace : σ.place t=.send p kmsg option timeout) :
    StepLives t σ (σ.mqueueSend t p kmsg option timeout) [] := by
  simp only [mqueueSend]
  split
  · exact Lives.stays ((Lives.refl t σ).setPort (by rfl)) (by rw [hplace]; rfl)
  · split
    · exact (Lives.refl t σ).leaves rfl
    · exact Lives.stays ((Lives.refl t σ).setPort (by rfl)) (by rw [hplace]; rfl)

lemma posting_lives {kmsg : IpcKmsg} {walk : List (Waiter PortSet Thread)}
    (hplace : σ.place t=.posting p kmsg walk)
    (hs : σ.posting t p kmsg walk=some (σ',es)) : StepLives t σ σ' es := by
  have hrefl := Lives.refl t σ
  unfold posting at hs
  split at hs
  · cases hs
  · cases hs
    exact hrefl.stays (by rw [hplace]; rfl)
  · cases hs
    refine Lives.stepLives (Lives.unlockPort (hrefl.setPort (by rfl)) p) (.leave _)
      (fun q k hk => ?_) (by simp)
    obtain ⟨rfl,-⟩ := by simpa using hk
    rw [hplace]
    rfl
  · split at hs
    · cases hs
      refine Lives.stepLives (((hrefl.offer p _ _ kmsg).nextSeqno p).releaseMsgcount p
        |>.unlockPort p) (.leave _) (fun q k hk => ?_) (by simp)
      obtain ⟨rfl,-⟩ := by simpa using hk
      rw [hplace]
      rfl
    · cases hs
      exact (hrefl.offer p _ _ kmsg).stepLives (by rw [hplace]; exact .same _) (by simp) (by simp)

lemma handingOff_lives {walk : List (Waiter PortSet Thread)}
    (hs : σ.handingOff t p walk=some (σ',es)) : StepLives t σ σ' es := by
  have hrefl := Lives.refl t σ
  unfold handingOff at hs
  split at hs
  · cases hs
    exact (hrefl.unlockPort p).leaves rfl
  · split at hs
    · cases hs
    · cases hs
      exact hrefl.leaves rfl
    · cases hs
      exact (hrefl.unlockPort p).leaves rfl
    · dsimp only at hs
      split at hs
      · cases hs
        exact Lives.stepLives (Lives.nextSeqno (Lives.setPort ((hrefl.offer p _ _ _).releaseMsgcount
          p) (by rfl)) p) (.leave _) (by simp) (by simp)
      · cases hs
        exact (hrefl.offer p _ _ _).stepLives (.leave _) (by simp) (by simp)

lemma drain_lives (h : Lives t σ τ)
    (hlife : (σ.place t).life=.destroying p ∨ (σ.place t).life=.draining p) :
    StepLives t σ (τ.drain t p).1 (τ.drain t p).2 := by
  unfold drain
  split
  · refine h.stepLives (.leave _) (by simp) fun q hq => ?_
    obtain rfl : q=p := by simpa using hq
    exact hlife
  · refine Lives.stepLives (h.setPort (by rfl)) ?_ (by simp) (by simp)
    rcases hlife with hl | hl
    · rw [hl]
      exact .drain p
    · rw [hl]
      exact .same _

lemma searching_lives (s : PortSet) (rest : List Port) (option maxSize timeout : ℕ)
    (tryLock : Bool) : StepLives t σ (σ.searching t s rest option maxSize timeout tryLock) [] := by
  have hrefl := Lives.refl t σ
  unfold searching
  split
  · split
    · exact Lives.leaves (Lives.setIth (hrefl.setSet s _) t _) rfl
    · exact Lives.leaves (Lives.setIth (hrefl.setSet s _) t _) rfl
  · split
    · split
      · exact hrefl.leaves rfl
      · exact Lives.leaves (Lives.setPort (hrefl.setSet s _) (by rfl)) rfl
    · exact Lives.leaves (hrefl.setSet s _) rfl

lemma select_events (p : Port) (option maxSize : ℕ) (kmsg : IpcKmsg) (rest : List IpcKmsg) :
    (∀ q k,.posted q k∉(σ.select t p option maxSize kmsg rest).2) ∧
      ∀ q,.drained q∉(σ.select t p option maxSize kmsg rest).2 := by
  unfold select
  extract_lets mr
  split <;> simp

lemma receivePort_lives (p : Port) (option maxSize timeout : ℕ) :
    StepLives t σ (σ.receivePort t p option maxSize timeout).1
      (σ.receivePort t p option maxSize timeout).2 := by
  have hrefl := Lives.refl t σ
  unfold receivePort
  split
  · rename_i kmsg rest hmessages
    obtain ⟨hposted,hdrained⟩ := select_events (σ := σ) (t := t) p option maxSize kmsg rest
    exact (hrefl.select p option maxSize kmsg rest).stepLives (.leave _)
      (fun q k hk => absurd hk (hposted q k)) fun q hq => absurd hq (hdrained q)
  · split
    · exact (hrefl.setIth t _).leaves rfl
    · exact Lives.leaves (Lives.setIth (hrefl.setPort (by rfl)) t _) rfl

lemma proceed_lives {tryLock : Bool}
    (hs : σ.proceed t tryLock=some (σ',es)) : StepLives t σ σ' es := by
  have hrefl := Lives.refl t σ
  unfold proceed at hs
  split at hs
  case h_1 p kmsg option timeout hplace =>
    split at hs
    · cases hs
    · cases hs
      exact mqueueSend_lives p kmsg option timeout hplace
  case h_2 p kmsg hplace =>
    split at hs
    · cases hs
    · cases hs
      exact Lives.stays (hrefl.setPort (by rfl)) (by rw [hplace]; rfl)
  case h_3 p kmsg walk hplace => exact posting_lives hplace hs
  case h_4 s rest option maxSize timeout hplace =>
    cases hs
    exact searching_lives s rest option maxSize timeout tryLock
  case h_5 s option maxSize timeout hplace =>
    split at hs
    · cases hs
    · cases hs
      exact Lives.leaves (hrefl.setSet s _) rfl
  case h_6 p option maxSize hplace =>
    split at hs
    · cases hs
    · rename_i kmsg rest hmessages
      cases hs
      obtain ⟨hposted,hdrained⟩ := select_events (σ := σ) (t := t) p option maxSize kmsg rest
      exact ((hrefl.select p option maxSize kmsg rest).unlockPort p).stepLives (.leave _)
        (fun q k hk => absurd hk (hposted q k)) fun q hq => absurd hq (hdrained q)
  case h_7 result hplace =>
    cases hs
    unfold receiveResults
    cases result with
    | awakened => exact hrefl.leaves rfl
    | timedOut | interrupted | restart => exact (hrefl.setIth t _).leaves rfl
  case h_8 p hplace =>
    split at hs
    · cases hs
    · cases hs
      exact Lives.leaves (hrefl.setPort (by rfl)) rfl
  case h_9 p walk hplace => exact handingOff_lives hs
  case h_10 p hplace =>
    split at hs
    · cases hs
    · obtain ⟨rfl,rfl⟩ := Prod.mk.inj (some.inj hs)
      exact drain_lives (Lives.wakeSenders (hrefl.setPort (by rfl)) p _)
        (.inl (by rw [hplace]; rfl))
  case h_11 p hplace =>
    split at hs
    · cases hs
    · obtain ⟨rfl,rfl⟩ := Prod.mk.inj (some.inj hs)
      exact drain_lives hrefl (.inr (by rw [hplace]; rfl))
  case h_12 => cases hs

lemma call_lives (hplace : σ.place t=.outside)
        (hs : σ.call t a=some (σ',es)) : StepLives t σ σ' es := by
  have hrefl := Lives.refl t σ
  unfold call at hs
  split at hs
  case h_1 p kmsg option timeout =>
    split at hs
    · rename_i hactive
      cases hs
      exact hrefl.stepLives (by rw [hplace]; exact .send p hactive) (by simp) (by simp)
    · cases hs
      exact hrefl.leaves rfl
  case h_2 p option maxSize timeout =>
    split at hs
    · cases hs
    · obtain ⟨rfl,rfl⟩ := Prod.mk.inj (some.inj hs)
      exact receivePort_lives p option maxSize timeout
  case h_3 =>
    cases hs
    exact hrefl.leaves rfl
  case h_4 p s kalloc =>
    split at hs
    · cases hs
    · split at hs
      · cases hs
        exact hrefl.leaves rfl
      · cases hs
        exact Lives.leaves (Lives.setSet (hrefl.setPort (by rfl)) s _) rfl
  case h_5 p s =>
    split at hs
    · cases hs
    · cases hs
      exact Lives.leaves (Lives.setSet (hrefl.setPort (by rfl)) s _) rfl
  case h_6 p qlimit =>
    split at hs
    · cases hs
    · cases hs
      refine Lives.leaves (Lives.setPort ?_ (by rfl)) rfl
      split
      · exact hrefl.wakeSenders p _
      · exact hrefl
  case h_7 p seqno =>
    split at hs
    · cases hs
    · cases hs
      exact Lives.stepLives (hrefl.setPort (by rfl)) (.leave _) (by simp) (by simp)
  case h_8 p =>
    split at hs
    · cases hs
      refine ⟨(hrefl.setPlace _).others,fun q hq => ?_,?_,by simp,by simp⟩
      · rw [setPlace_ports,setPort_ports,update_apply] at hq
        split at hq
        · cases hq
        · exact hq
      · rw [hplace,setPlace_place,update_self]
        exact .destroy p (by simp)
    · cases hs
  case h_9 => cases hs

lemma clearWait_lives {u : Thread} {result : WaitResult}
    (hs : σ.clearWait u result=some σ') (v : Thread) :
    (σ.place v).Woken (σ'.place v) ∧ ∀ p,(σ'.ports p).active=(σ.ports p).active := by
  have hwake : ∀ τ : Queues Port PortSet Thread,τ.place=σ.place →
      (σ.place v).Woken ((τ.wake u result).place v) := by
    intro τ hτ
    rw [Queues.wake,setPlace_place,update_apply,hτ]
    split
    · subst v
      exact .inr ⟨result,rfl⟩
    · exact .inl rfl
  cases (clearWait_cleared hs).2 with
  | port p e hlock hwait =>
    exact ⟨hwake _ rfl,fun q => ((Lives.refl u σ).setPort (by rfl)).active q⟩
  | set s hlock hwait => exact ⟨hwake _ rfl,fun _ => rfl⟩

lemma destroying_of_life
    (h : place.life=.destroying p) : place=.destroying p := by
  cases place <;> cases h
  rfl

lemma step_inside (hwaits : (σ.place t).waitsOn=none) (hcall : σ.place t≠.outside)
    (hsent : ∀ result,σ.place t≠.sent result) (hreceived : σ.place t≠.received)
    (hreturned : σ.place t≠.returned)
        (hs : σ.step t a=some (σ',es)) :
    (∃ tryLock,a=.proceed tryLock) ∨ (σ'.place t=σ.place t ∧ es=[]) := by
  unfold step at hs
  split at hs
  case h_1 tryLock => exact .inl ⟨tryLock,rfl⟩
  case h_2 v result =>
    obtain ⟨τ,hclear,he⟩ := map_eq_some_iff.mp hs
    cases he
    have htv : (σ.place v).waitsOn≠none → t≠v := by
      rintro hw rfl
      exact hw hwaits
    cases (clearWait_cleared hclear).2 with
    | port q e hlock hwait =>
      have hne := htv (by rw [hwait]; exact some_ne_none _)
      rw [Queues.wake,setPlace_place,update_of_ne hne]
      exact .inr ⟨rfl,rfl⟩
    | set s hlock hwait =>
      have hne := htv (by rw [hwait]; exact some_ne_none _)
      rw [Queues.wake,setPlace_place,update_of_ne hne]
      exact .inr ⟨rfl,rfl⟩
  case h_3 =>
    split at hs
    case h_1 result hplace => exact absurd hplace (hsent result)
    case h_2 hplace => exact absurd hplace hreceived
    case h_3 hplace => exact absurd hplace hreturned
    case h_4 => cases hs
  case h_4 =>
    split at hs
    · rename_i hplace
      exact absurd hplace hcall
    · cases hs

lemma step_destroying (hlife : (σ.place t).life=.destroying p)
        (hs : σ.step t a=some (σ',es)) :
    (∃ tryLock,a=.proceed tryLock) ∨ ((σ'.place t).life=.destroying p ∧ es=[]) := by
  have hplace := destroying_of_life hlife
  refine (step_inside (by rw [hplace]; rfl) ?_ ?_ ?_ ?_ hs).imp_right fun hstay =>
    ⟨by rw [hstay.1,hlife],hstay.2⟩
  all_goals
    rw [hplace]
    exact nofun

lemma step_lives
    (hs : σ.step t a=some (σ',es)) : StepLives t σ σ' es := by
  unfold step at hs
  split at hs
  case h_1 => exact proceed_lives hs
  case h_2 u result =>
    obtain ⟨τ,hclear,he⟩ := map_eq_some_iff.mp hs
    cases he
    have hlives := clearWait_lives hclear
    refine ⟨fun v _ => (hlives v).1,fun p hp => ((hlives t).2 p).symm.trans hp,?_,by simp,by simp⟩
    rcases (hlives t).1.life with hl | hl
    · rw [hl]
      exact .same _
    · rw [hl]
      exact .leave _
  case h_3 =>
    split at hs
    case h_1 _ hplace | h_2 hplace | h_3 hplace =>
      cases hs
      exact (Lives.refl t σ).leaves rfl
    case h_4 => cases hs
  case h_4 =>
    split at hs
    · rename_i hplace
      exact call_lives hplace hs
    · cases hs

end Steps

section Runs

set_option linter.unusedSectionVars false

variable [DecidableEq Port] [DecidableEq PortSet] [DecidableEq Thread]
variable {t : Thread} {σ σ' : Queues Port PortSet Thread}
variable {es tr : List (QueueEvent Port Thread)}

lemma StepLives.dead (h : StepLives t σ σ' es) {p : Port} (hd : (σ.ports p).active=false) :
    (σ'.ports p).active=false := by
  rw [←Bool.not_eq_true]
  intro ha
  rw [h.active p ha] at hd
  cases hd

lemma StepLives.quiet (h : StepLives t σ σ' es) {p : Port} (hq : Quiet σ p) : Quiet σ' p where
  dead := h.dead hq.dead
  unsent := by
    intro u hu
    by_cases hut : u=t
    · subst u
      have hturn := h.turn
      rw [hu] at hturn
      generalize hl : (σ.place t).life=l at hturn
      cases hturn with
      | same => exact hq.unsent t hl
      | send _ ha =>
        rw [hq.dead] at ha
        cases ha
    · rcases (h.others u hut).life with he | he
      · exact hq.unsent u (he▸hu)
      · rw [hu] at he
        cases he

/-- What is known of the lives of ports after a run with the record `tr`. -/
structure EndsOk (σ : Queues Port PortSet Thread) (tr : List (QueueEvent Port Thread)) :
    Prop where
  lives : LivesOk σ
  drained : ∀ p,.drained p∈tr → Quiet σ p

lemma StepLives.endsOk (h : StepLives t σ σ' es) (hok : EndsOk σ tr)
    (hsafe : ∀ p,(σ.place t).life=.destroying p → (∀ u,(σ.place u).life≠.sending p) ∨
      ((σ'.place t).life=.destroying p ∧ es=[])) : EndsOk σ' (tr++es) where
  lives := by
    refine ⟨fun u p hu => ?_,fun u p hu => ?_⟩
    · by_cases hut : u=t
      · subst u
        have hturn := h.turn
        rw [hu] at hturn
        generalize hl : (σ.place t).life=l at hturn
        cases hturn with
        | same => exact h.dead (hok.lives.destroying t p hl)
        | destroy _ ha => exact ha
      · rcases (h.others u hut).life with he | he
        · exact h.dead (hok.lives.destroying u p (he▸hu))
        · rw [hu] at he
          cases he
    · by_cases hut : u=t
      · subst u
        have hturn := h.turn
        rw [hu] at hturn
        generalize hl : (σ.place t).life=l at hturn
        cases hturn with
        | same => exact h.quiet (hok.lives.draining t p hl)
        | drain =>
          rcases hsafe p hl with hun | ⟨he,-⟩
          · exact h.quiet ⟨hok.lives.destroying t p hl,hun⟩
          · rw [hu] at he
            cases he
      · rcases (h.others u hut).life with he | he
        · exact h.quiet (hok.lives.draining u p (he▸hu))
        · rw [hu] at he
          cases he
  drained := by
    intro p hp
    rcases mem_append.mp hp with hp | hp
    · exact h.quiet (hok.drained p hp)
    · rcases h.drained p hp with hl | hl
      · rcases hsafe p hl with hun | ⟨-,rfl⟩
        · exact h.quiet ⟨hok.lives.destroying t p hl,hun⟩
        · exact absurd hp not_mem_nil
      · exact h.quiet (hok.lives.draining t p hl)

lemma start_endsOk (ith : Thread → Ith) (vmPrivilege : Thread → Bool) :
    EndsOk (start ith vmPrivilege : Queues Port PortSet Thread) [] where
  lives := ⟨fun _ _ h => (nomatch h),fun _ _ h => (nomatch h)⟩
  drained := fun _ h => absurd h not_mem_nil

def NoneLate (tr : List (QueueEvent Port Thread)) : Prop :=
  tr.Pairwise fun e e' => ∀ p kmsg,e=.drained p → e'≠.posted p kmsg

lemma StepLives.noneLate (h : StepLives t σ σ' es) (hok : EndsOk σ tr) (hn : NoneLate tr) :
    NoneLate (tr++es) := by
  refine pairwise_append.mpr ⟨hn,?_,?_⟩
  · refine pairwise_of_forall_mem_list fun e he e' he' p kmsg hd hp => ?_
    subst hd hp
    have hsending := h.posted p kmsg he'
    rcases h.drained p he with hl | hl <;> rw [hsending] at hl <;> cases hl
  · intro e he e' he' p kmsg hd hp
    subst hd hp
    exact (hok.drained p he).unsent t (h.posted p kmsg he')

def Meets (C : Queues Port PortSet Thread → Thread → QueueAction Port PortSet Thread → Prop)
    (σ : Queues Port PortSet Thread) : List (Thread × QueueAction Port PortSet Thread) → Prop
  | [] => True
  | (t,a)::as => C σ t a ∧
    match σ.step t a with
    | none => True
    | some (σ,_) => Meets C σ as

instance {C : Queues Port PortSet Thread → Thread → QueueAction Port PortSet Thread → Prop}
    [∀ σ t a,Decidable (C σ t a)] (σ : Queues Port PortSet Thread) :
    (as : List (Thread × QueueAction Port PortSet Thread)) → Decidable (Meets C σ as)
  | [] => .isTrue trivial
  | (t,a)::as =>
    have : Decidable (match σ.step t a with | none => True | some (σ,_) => Meets C σ as) :=
      match σ.step t a with
      | none => .isTrue trivial
      | some (σ,_) => instDecidableMeets σ as
    inferInstanceAs (Decidable (_ ∧ _))

lemma run_induction {I : Queues Port PortSet Thread → List (QueueEvent Port Thread) → Prop}
    {C : Queues Port PortSet Thread → Thread → QueueAction Port PortSet Thread → Prop}
    (hstep : ∀ σ tr t a σ' es,I σ tr → C σ t a → σ.step t a=some (σ',es) → I σ' (tr++es))
    {as : List (Thread × QueueAction Port PortSet Thread)} (h : I σ tr) (hm : Meets C σ as)
    (hr : σ.run as=some (σ',es)) : I σ' (tr++es) := by
  induction as generalizing σ tr es with
  | nil =>
    cases hr
    rwa [append_nil]
  | cons x as ih =>
    obtain ⟨t,a⟩ := x
    unfold run at hr
    split at hr
    · cases hr
    · rename_i τ fs hs
      obtain ⟨⟨υ,gs⟩,hrest,he⟩ := map_eq_some_iff.mp hr
      cases he
      rw [←append_assoc]
      obtain ⟨hc,hm⟩ := hm
      rw [hs] at hm
      exact ih (hstep σ tr t a τ fs h hc hs) hm hrest

end Runs

end Queues

end Darwin.Ipc
