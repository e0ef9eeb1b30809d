import Darwin.Ipc.Mqueue

/-! Threads on the wait queues of message queues: each waits for what it is queued for, and nobody
touches a queue that another has locked. -/
open List Function Option Bool
namespace Darwin.Ipc

variable {Port PortSet Thread : Type}

section Queues

variable {α : Type} [DecidableEq α]

lemma mem_remqueue {queue : List α} {x y : α} : y∈remqueue queue x ↔ y∈queue ∧ y≠x := by
  simp [remqueue]

lemma notMem_remqueue (queue : List α) (x : α) : x∉remqueue queue x := by simp [remqueue]

end Queues

def Spot.waitsOn : Spot Port PortSet Thread → Option (Source Port PortSet × WaitEvent)
  | .blockedSend p _ => some (.port p,.full)
  | .blockedReceive source => some (source,.receive)
  | _ => none

def Spot.holdsPort : Spot Port PortSet Thread → Option Port
  | .posting p _ _ | .handingOff p _ | .selecting p _ _ => some p
  | _ => none

def Spot.holdsSet : Spot Port PortSet Thread → Option PortSet
  | .searching s _ _ _ _ => some s
  | _ => none

def Spot.walk : Spot Port PortSet Thread → Option (Port × List (Waiter PortSet Thread))
  | .posting p _ walk | .handingOff p walk => some (p,walk)
  | _ => none

lemma Spot.wake_waitsOn {place : Spot Port PortSet Thread} {e : WaitResult}
    (h : place.waitsOn≠none) : (place.wake e).waitsOn=none ∧
      (place.wake e).holdsPort=none ∧ (place.wake e).holdsSet=none := by
  cases place <;> cases e <;> first | exact absurd rfl h | exact ⟨rfl,rfl,rfl⟩

lemma Spot.holdsPort_of_walk {place : Spot Port PortSet Thread} {p : Port}
    {walk : List (Waiter PortSet Thread)} (h : place.walk=some (p,walk)) :
    place.holdsPort=some p := by
  cases place <;> cases h <;> rfl

namespace Queues

section Invariant

/-- Every thread on a wait queue is blocked there. -/
structure Queued (σ : Queues Port PortSet Thread) : Prop where
  port : ∀ p r e,.thread r e∈(σ.ports p).waitQueue → (σ.place r).waitsOn=some (.port p,e)
  set : ∀ s r,r∈(σ.sets s).waitQueue → (σ.place r).waitsOn=some (.set s,.receive)

/-- A thread at this place has the locks it counts on, and what it has still to look at is on the
queue. -/
structure PlaceOk (σ : Queues Port PortSet Thread) (t : Thread)
    (place : Spot Port PortSet Thread) : Prop where
  port : ∀ p,place.holdsPort=some p → (σ.ports p).lock=some t
  set : ∀ s,place.holdsSet=some s → (σ.sets s).lock=some t
  walk : ∀ p walk,place.walk=some (p,walk) → ∀ x∈walk,x∈(σ.ports p).waitQueue

structure QueuesOk (σ : Queues Port PortSet Thread) : Prop where
  queued : Queued σ
  places : ∀ t,PlaceOk σ t (σ.place t)

/-- The invariant while thread `t` is at work: its own place may not fit yet. -/
structure OthersOk (t : Thread) (σ : Queues Port PortSet Thread) : Prop where
  queued : Queued σ
  awake : (σ.place t).waitsOn=none
  others : ∀ u,u≠t → PlaceOk σ u (σ.place u)

def Mine (t : Thread) (σ : Queues Port PortSet Thread) (p : Port) : Prop :=
  ∀ u,(σ.ports p).lock=some u → u=t

def MineSet (t : Thread) (σ : Queues Port PortSet Thread) (s : PortSet) : Prop :=
  ∀ u,(σ.sets s).lock=some u → u=t

variable {σ : Queues Port PortSet Thread} {t : Thread}

lemma PlaceOk.free
    {place : Spot Port PortSet Thread} (hp : place.holdsPort=none) (hs : place.holdsSet=none) :
    PlaceOk σ t place where
  port := by simp [hp]
  set := by simp [hs]
  walk := by
    intro p walk hw
    rw [Spot.holdsPort_of_walk hw] at hp
    cases hp

lemma QueuesOk.othersOk (h : QueuesOk σ)
    (ht : (σ.place t).waitsOn=none) : OthersOk t σ :=
  ⟨h.queued,ht,fun u _ => h.places u⟩

lemma start_ok (ith : Thread → Ith) (vmPrivilege : Thread → Bool) :
    QueuesOk (start ith vmPrivilege : Queues Port PortSet Thread) :=
  ⟨⟨fun _ _ _ h => absurd h not_mem_nil,fun _ _ h => absurd h not_mem_nil⟩,
    fun _ => .free rfl rfl⟩

lemma mine_of_isSome {p : Port}
    (h : (σ.ports p).lock.isSome=false) : Mine t σ p := by
  intro u hu
  rw [hu] at h
  cases h

lemma mineSet_of_isSome {s : PortSet}
    (h : (σ.sets s).lock.isSome=false) : MineSet t σ s := by
  intro u hu
  rw [hu] at h
  cases h

lemma mine_of_lock {p : Port}
    (h : (σ.ports p).lock=some t) : Mine t σ p :=
  fun _ hu => some.inj (hu.symm.trans h)

lemma mineSet_of_lock {s : PortSet}
    (h : (σ.sets s).lock=some t) : MineSet t σ s :=
  fun _ hu => some.inj (hu.symm.trans h)

end Invariant

set_option linter.unusedSectionVars false

variable [DecidableEq Port] [DecidableEq PortSet] [DecidableEq Thread]

section Updates

variable (σ : Queues Port PortSet Thread)

@[simp] lemma setPort_ports (p : Port) (mq : Mqueue PortSet Thread) :
    (σ.setPort p mq).ports=update σ.ports p mq := rfl
@[simp] lemma setPort_place (p : Port) (mq : Mqueue PortSet Thread) :
    (σ.setPort p mq).place=σ.place := rfl
@[simp] lemma setSet_ports (s : PortSet) (sq : SetQueue Port Thread) :
    (σ.setSet s sq).ports=σ.ports := rfl
@[simp] lemma setSet_sets (s : PortSet) (sq : SetQueue Port Thread) :
    (σ.setSet s sq).sets=update σ.sets s sq := rfl
@[simp] lemma setSet_place (s : PortSet) (sq : SetQueue Port Thread) :
    (σ.setSet s sq).place=σ.place := rfl
@[simp] lemma setPlace_ports (t : Thread) (place : Spot Port PortSet Thread) :
    (σ.setPlace t place).ports=σ.ports := rfl
@[simp] lemma setPlace_sets (t : Thread) (place : Spot Port PortSet Thread) :
    (σ.setPlace t place).sets=σ.sets := rfl
@[simp] lemma setPlace_place (t : Thread) (place : Spot Port PortSet Thread) :
    (σ.setPlace t place).place=update σ.place t place := rfl
@[simp] lemma setPlace_ith (t : Thread) (place : Spot Port PortSet Thread) :
    (σ.setPlace t place).ith=σ.ith := rfl
@[simp] lemma setIth_ports (t : Thread) (i : Ith) : (σ.setIth t i).ports=σ.ports := rfl
@[simp] lemma setIth_place (t : Thread) (i : Ith) : (σ.setIth t i).place=σ.place := rfl
@[simp] lemma setIth_ith (t : Thread) (i : Ith) : (σ.setIth t i).ith=update σ.ith t i := rfl

lemma setPort_setPort (p : Port) (mq mq' : Mqueue PortSet Thread) :
    (σ.setPort p mq).setPort p mq'=σ.setPort p mq' := by
  simp [setPort]

end Updates

section Kept

variable {σ : Queues Port PortSet Thread} {t : Thread}

variable {place : Spot Port PortSet Thread} {mq : Mqueue PortSet Thread} {s : PortSet}
    {sq : SetQueue Port Thread} {r : Thread} {p : Port} {e : WaitEvent}

lemma PlaceOk.congr {σ' : Queues Port PortSet Thread}
    (h : PlaceOk σ t place) (hp : ∀ p,place.holdsPort=some p → σ'.ports p=σ.ports p)
    (hs : ∀ s,place.holdsSet=some s → (σ'.sets s).lock=(σ.sets s).lock) :
    PlaceOk σ' t place where
  port := fun p hq => (congrArg Mqueue.lock (hp p hq)).trans (h.port p hq)
  set := fun s hq => (hs s hq).trans (h.set s hq)
  walk := by
    intro p walk hw x hx
    rw [hp p (Spot.holdsPort_of_walk hw)]
    exact h.walk p walk hw x hx

lemma Queued.setPort (h : Queued σ) {m : Mqueue PortSet Thread}
    (hw : ∀ r e,.thread r e∈m.waitQueue → .thread r e∈(σ.ports p).waitQueue) :
    Queued (σ.setPort p m) where
  port := by
    intro q r e hr
    rw [setPort_ports,update_apply] at hr
    split at hr
    · subst q
      exact h.port p r e (hw r e hr)
    · exact h.port q r e hr
  set := h.set

lemma Queued.setSet (h : Queued σ) {w : SetQueue Port Thread}
    (hw : ∀ r∈w.waitQueue,r∈(σ.sets s).waitQueue) : Queued (σ.setSet s w) where
  port := h.port
  set := by
    intro q r hr
    rw [setSet_sets,update_apply] at hr
    split at hr
    · subst q
      exact h.set s r (hw r hr)
    · exact h.set q r hr

lemma Queued.wake (h : Queued σ) (result : WaitResult)
    (hport : ∀ p e,.thread r e∉(σ.ports p).waitQueue)
    (hset : ∀ s,r∉(σ.sets s).waitQueue) : Queued (σ.wake r result) where
  port := by
    intro p u e hu
    have hur : u≠r := by
      rintro rfl
      exact hport p e hu
    rw [Queues.wake,setPlace_place,update_of_ne hur]
    exact h.port p u e hu
  set := by
    intro s u hu
    have hur : u≠r := by
      rintro rfl
      exact hset s hu
    rw [Queues.wake,setPlace_place,update_of_ne hur]
    exact h.set s u hu

lemma Queued.takePort (h : Queued σ)
    (hwait : (σ.place r).waitsOn=some (.port p,e))
    (hw : mq.waitQueue=remqueue (σ.ports p).waitQueue (.thread r e)) (result : WaitResult) :
    Queued ((σ.setPort p mq).wake r result) := by
  have hset := h.setPort (p := p) (m := mq) fun u f hu => by
    rw [hw,mem_remqueue] at hu
    exact hu.1
  refine hset.wake result (fun q f hu => ?_) fun s hu => ?_
  · have hu' := hset.port q r f hu
    rw [setPort_place,hwait] at hu'
    cases hu'
    rw [setPort_ports,update_self,hw] at hu
    exact notMem_remqueue _ _ hu
  · have hu' := hset.set s r hu
    rw [setPort_place,hwait] at hu'
    cases hu'

lemma Queued.takeSet (h : Queued σ)
    (hwait : (σ.place r).waitsOn=some (.set s,.receive))
    (hw : sq.waitQueue=remqueue (σ.sets s).waitQueue r) (result : WaitResult) :
    Queued ((σ.setSet s sq).wake r result) := by
  have hset := h.setSet (s := s) (w := sq) fun u hu => by
    rw [hw,mem_remqueue] at hu
    exact hu.1
  refine hset.wake result (fun q f hu => ?_) fun q hu => ?_
  · have hu' := hset.port q r f hu
    rw [setSet_place,hwait] at hu'
    cases hu'
  · have hu' := hset.set q r hu
    rw [setSet_place,hwait] at hu'
    cases hu'
    rw [setSet_sets,update_self,hw] at hu
    exact notMem_remqueue _ _ hu

lemma PlaceOk.setPort {u : Thread} (h : PlaceOk σ u place)
    (hu : (σ.ports p).lock≠some u) (mq : Mqueue PortSet Thread) :
    PlaceOk (σ.setPort p mq) u place := by
  refine h.congr (fun q hq => update_of_ne (fun he => hu ?_) _ _) fun _ _ => rfl
  rw [←he]
  exact h.port q hq

lemma PlaceOk.setSet {u : Thread} (h : PlaceOk σ u place)
    (hu : (σ.sets s).lock≠some u) (sq : SetQueue Port Thread) :
    PlaceOk (σ.setSet s sq) u place := by
  refine h.congr (fun _ _ => rfl) fun q hq => congrArg SetQueue.lock
    (update_of_ne (fun he => hu ?_) _ _)
  rw [←he]
  exact h.set q hq

lemma PlaceOk.wake {u r : Thread} (h : PlaceOk σ u (σ.place u)) (hr : (σ.place r).waitsOn≠none)
    (result : WaitResult) : PlaceOk (σ.wake r result) u ((σ.wake r result).place u) := by
  rw [Queues.wake,setPlace_place]
  by_cases hur : u=r
  · subst u
    obtain ⟨-,hp,hs⟩ := Spot.wake_waitsOn (e := result) hr
    rw [update_self]
    exact .free hp hs
  · rw [update_of_ne hur]
    exact h.congr (fun _ _ => rfl) fun _ _ => rfl

lemma OthersOk.setPort (h : OthersOk t σ) (hp : Mine t σ p)
    (hw : ∀ r e,.thread r e∈mq.waitQueue → .thread r e∈(σ.ports p).waitQueue) :
    OthersOk t (σ.setPort p mq) :=
  ⟨h.queued.setPort hw,h.awake,fun u hu => (h.others u hu).setPort (fun hl => hu (hp u hl)) mq⟩

lemma OthersOk.tune (h : OthersOk t σ) (hp : Mine t σ p) {m : Mqueue PortSet Thread}
    (hw : m.waitQueue=(σ.ports p).waitQueue) : OthersOk t (σ.setPort p m) :=
  h.setPort hp fun _ _ hr => hw▸hr

lemma OthersOk.setSet (h : OthersOk t σ) (hs : MineSet t σ s)
    (hw : ∀ r∈sq.waitQueue,r∈(σ.sets s).waitQueue) : OthersOk t (σ.setSet s sq) :=
  ⟨h.queued.setSet hw,h.awake,fun u hu => (h.others u hu).setSet (fun hl => hu (hs u hl)) sq⟩

lemma OthersOk.setIth (h : OthersOk t σ) (r : Thread) (i : Ith) : OthersOk t (σ.setIth r i) :=
  ⟨⟨h.queued.port,h.queued.set⟩,h.awake,fun u hu =>
    (h.others u hu).congr (fun _ _ => rfl) fun _ _ => rfl⟩

lemma OthersOk.ne_of_mem_port (h : OthersOk t σ)
    (hr : .thread r e∈(σ.ports p).waitQueue) : r≠t := by
  rintro rfl
  exact absurd ((h.queued.port p r e hr).symm.trans h.awake) (some_ne_none _)

lemma OthersOk.ne_of_mem_set (h : OthersOk t σ)
    (hr : r∈(σ.sets s).waitQueue) : r≠t := by
  rintro rfl
  exact absurd ((h.queued.set s r hr).symm.trans h.awake) (some_ne_none _)

lemma OthersOk.takePort (h : OthersOk t σ) (hp : Mine t σ p)
    (hr : .thread r e∈(σ.ports p).waitQueue)
    (hw : mq.waitQueue=remqueue (σ.ports p).waitQueue (.thread r e)) (result : WaitResult) :
    OthersOk t ((σ.setPort p mq).wake r result) where
  queued := h.queued.takePort (h.queued.port p r e hr) hw result
  awake := by
    rw [Queues.wake,setPlace_place,update_of_ne (h.ne_of_mem_port hr).symm]
    exact h.awake
  others := fun u hu => ((h.others u hu).setPort (fun hl => hu (hp u hl)) mq).wake
    (by rw [setPort_place,h.queued.port p r e hr]; exact some_ne_none _) result

lemma OthersOk.takeSet (h : OthersOk t σ) (hs : MineSet t σ s)
    (hr : r∈(σ.sets s).waitQueue)
    (hw : sq.waitQueue=remqueue (σ.sets s).waitQueue r) (result : WaitResult) :
    OthersOk t ((σ.setSet s sq).wake r result) where
  queued := h.queued.takeSet (h.queued.set s r hr) hw result
  awake := by
    rw [Queues.wake,setPlace_place,update_of_ne (h.ne_of_mem_set hr).symm]
    exact h.awake
  others := fun u hu => ((h.others u hu).setSet (fun hl => hu (hs u hl)) sq).wake
    (by rw [setSet_place,h.queued.set s r hr]; exact some_ne_none _) result

lemma OthersOk.setPlace (h : OthersOk t σ)
    (hplace : PlaceOk σ t place) : QueuesOk (σ.setPlace t place) where
  queued := by
    refine ⟨fun p r e hr => ?_,fun s r hr => ?_⟩
    · rw [setPlace_place,update_of_ne (h.ne_of_mem_port hr)]
      exact h.queued.port p r e hr
    · rw [setPlace_place,update_of_ne (h.ne_of_mem_set hr)]
      exact h.queued.set s r hr
  places := by
    intro u
    rw [setPlace_place]
    by_cases hu : u=t
    · subst u
      rw [update_self]
      exact hplace.congr (fun _ _ => rfl) fun _ _ => rfl
    · rw [update_of_ne hu]
      exact (h.others u hu).congr (fun _ _ => rfl) fun _ _ => rfl

lemma OthersOk.blockPort (h : OthersOk t σ) (hp : Mine t σ p)
        (hw : ∀ x∈mq.waitQueue,x=.thread t e ∨ x∈(σ.ports p).waitQueue)
    (hplace : place.waitsOn=some (.port p,e)) :
    QueuesOk ((σ.setPort p mq).setPlace t place) where
  queued := by
    refine ⟨fun q r f hr => ?_,fun s r hr => ?_⟩
    · rw [setPlace_ports,setPort_ports,update_apply] at hr
      rw [setPlace_place]
      by_cases hrt : r=t
      · subst r
        split at hr
        · subst q
          rcases hw _ hr with hr | hr
          · cases hr
            rw [update_self,hplace]
          · exact absurd rfl (h.ne_of_mem_port hr)
        · exact absurd rfl (h.ne_of_mem_port hr)
      · rw [update_of_ne hrt]
        split at hr
        · subst q
          rcases hw _ hr with hr | hr
          · cases hr
            exact absurd rfl hrt
          · exact h.queued.port p r f hr
        · exact h.queued.port q r f hr
    · rw [setPlace_place,update_of_ne (h.ne_of_mem_set hr)]
      exact h.queued.set s r hr
  places := by
    intro u
    rw [setPlace_place]
    by_cases hu : u=t
    · subst u
      rw [update_self]
      cases place <;> first | exact .free rfl rfl | cases hplace
    · rw [update_of_ne hu]
      exact ((h.others u hu).setPort (fun hl => hu (hp u hl)) mq).congr (fun _ _ => rfl)
        fun _ _ => rfl

lemma OthersOk.blockSet (h : OthersOk t σ) (hs : MineSet t σ s)
    (hw : ∀ r∈sq.waitQueue,r=t ∨ r∈(σ.sets s).waitQueue) :
    QueuesOk ((σ.setSet s sq).setPlace t (.blockedReceive (.set s))) where
  queued := by
    refine ⟨fun p r e hr => ?_,fun q r hr => ?_⟩
    · rw [setPlace_place,update_of_ne (h.ne_of_mem_port hr)]
      exact h.queued.port p r e hr
    · rw [setPlace_sets,setSet_sets,update_apply] at hr
      rw [setPlace_place]
      by_cases hrt : r=t
      · subst r
        split at hr
        · subst q
          rw [update_self]
          rfl
        · exact absurd rfl (h.ne_of_mem_set hr)
      · rw [update_of_ne hrt]
        split at hr
        · subst q
          exact h.queued.set s r ((hw r hr).resolve_left hrt)
        · exact h.queued.set q r hr
  places := by
    intro u
    rw [setPlace_place]
    by_cases hu : u=t
    · subst u
      rw [update_self]
      exact .free rfl rfl
    · rw [update_of_ne hu]
      exact ((h.others u hu).setSet (fun hl => hu (hs u hl)) sq).congr (fun _ _ => rfl)
        fun _ _ => rfl

end Kept

section Operations

variable {σ : Queues Port PortSet Thread} {t : Thread}

omit [DecidableEq Port] [DecidableEq PortSet] [DecidableEq Thread] in
lemma firstFull_mem {mq : Mqueue PortSet Thread} {r : Thread} (h : mq.firstFull=some r) :
    .thread r .full∈mq.waitQueue := by
  obtain ⟨x,hx,hr⟩ := exists_of_findSome?_eq_some h
  split at hr
  · cases hr
    exact hx
  · cases hr

/-- What `ipc_mqueue_release_msgcount` does: the count goes down, unless the slot is given to a
blocked sender. -/
inductive Released (σ : Queues Port PortSet Thread) (p : Port) : Queues Port PortSet Thread → Prop
  | kept (fullwaiters : Bool) : Released σ p (σ.setPort p { σ.ports p with
      msgcount := ((σ.ports p).msgcount+(2^32-1))%2^32,fullwaiters := fullwaiters})
  | gave (r : Thread) (hr : .thread r .full∈(σ.ports p).waitQueue)
      (hlt : ((σ.ports p).msgcount+(2^32-1))%2^32<(σ.ports p).qlimit) :
      Released σ p ((σ.setPort p { σ.ports p with
        msgcount := (((σ.ports p).msgcount+(2^32-1))%2^32+1)%2^32
        waitQueue := remqueue (σ.ports p).waitQueue (.thread r .full)}).wake r .awakened)

lemma releaseMsgcount_released (σ : Queues Port PortSet Thread) (p : Port) :
    Released σ p (σ.releaseMsgcount p) := by
  simp only [releaseMsgcount]
  split
  · rename_i hfull
    simp only [and_eq_true,not_eq_true',Mqueue.full,decide_eq_false_iff_not,Nat.not_le] at hfull
    split
    · rw [setPort_setPort]
      exact .kept false
    · rename_i r hr
      have hmem := firstFull_mem hr
      have hgave := Released.gave (σ := σ) (p := p) r hmem hfull.1
      simpa only [wakeSender,wake,setPort_ports,setPlace_ports,update_self,setPort,
        setPlace,update_idem] using hgave
  · exact .kept (σ.ports p).fullwaiters

lemma releaseMsgcount_locks (σ : Queues Port PortSet Thread) (p q : Port) :
    ((σ.releaseMsgcount p).ports q).lock=(σ.ports q).lock := by
  have hr := releaseMsgcount_released σ p
  generalize σ.releaseMsgcount p=σ' at hr
  by_cases hq : q=p
  · subst q
    cases hr <;> simp [wake]
  · cases hr <;> simp [wake,hq]

lemma releaseMsgcount_messages (σ : Queues Port PortSet Thread) (p q : Port) :
    ((σ.releaseMsgcount p).ports q).messages=(σ.ports q).messages := by
  have hr := releaseMsgcount_released σ p
  generalize σ.releaseMsgcount p=σ' at hr
  by_cases hq : q=p
  · subst q
    cases hr <;> simp [wake]
  · cases hr <;> simp [wake,hq]

lemma OthersOk.releaseMsgcount (h : OthersOk t σ) {p : Port} (hp : Mine t σ p) :
    OthersOk t (σ.releaseMsgcount p) := by
  have hr := releaseMsgcount_released σ p
  generalize σ.releaseMsgcount p=σ' at hr
  cases hr with
  | kept fullwaiters => exact h.tune hp (by rfl)
  | gave r hr hlt => exact h.takePort hp hr rfl _

lemma OthersOk.wakeSenders (h : OthersOk t σ) {p : Port} (hp : Mine t σ p) (n : ℕ) :
    OthersOk t (σ.wakeSenders p n) := by
  induction n generalizing σ with
  | zero => exact h
  | succ n ih =>
    unfold Queues.wakeSenders
    split
    · exact h.tune hp (by rfl)
    · rename_i r hr
      refine ih (h.takePort hp (firstFull_mem hr) rfl _) fun u hu => hp u ?_
      simpa [Queues.wakeSender,Queues.wake] using hu

lemma wakeSenders_locks (σ : Queues Port PortSet Thread) (p q : Port) (n : ℕ) :
    ((σ.wakeSenders p n).ports q).lock=(σ.ports q).lock := by
  induction n generalizing σ with
  | zero => rfl
  | succ n ih =>
    unfold Queues.wakeSenders
    split
    · by_cases hq : q=p
      · subst q
        simp
      · simp [hq]
    · rw [ih]
      by_cases hq : q=p
      · subst q
        simp [wakeSender,wake]
      · simp [wakeSender,wake,hq]

lemma releaseMsgcount_place (h : Queued σ) (ht : (σ.place t).waitsOn=none) (p : Port) :
    (σ.releaseMsgcount p).place t=σ.place t := by
  have hr := releaseMsgcount_released σ p
  generalize σ.releaseMsgcount p=τ at hr
  cases hr with
  | kept fullwaiters => rfl
  | gave r hr hlt =>
    refine update_of_ne ?_ _ _
    rintro rfl
    exact absurd ((h.port p _ .full hr).symm.trans ht) (some_ne_none _)

def Found (σ : Queues Port PortSet Thread) (walk : List (Waiter PortSet Thread)) :
    Option PortSet → Thread → Prop
  | none,r => .thread r .receive∈walk
  | some s,r => .sub s∈walk ∧ (σ.sets s).lock=none ∧ r∈(σ.sets s).waitQueue

variable {walk : List (Waiter PortSet Thread)}

lemma pick_found {s : Option PortSet} {r : Thread}
    (h : σ.pick walk=some (.receiver s r)) : Found σ walk s r := by
  unfold pick at h
  split at h
  · cases h
  · cases h
    exact mem_cons_self
  · cases h
  · split at h
    · cases h
    · rename_i hlock
      split at h
      · cases h
      · rename_i r queue hqueue
        cases h
        refine ⟨mem_cons_self,by simpa using hlock,?_⟩
        rw [hqueue]
        exact mem_cons_self

lemma pick_skip {walk walk' : List (Waiter PortSet Thread)}
    (h : σ.pick walk=some (.skip walk')) : ∃ x,walk=x::walk' := by
  unfold pick at h
  split at h
  · cases h
  · cases h
  · cases h
    exact ⟨_,rfl⟩
  · split at h
    · cases h
    · split at h <;> cases h
      exact ⟨_,rfl⟩

lemma offer_locks (σ : Queues Port PortSet Thread) (p q : Port) (s : Option PortSet) (r : Thread)
    (kmsg : IpcKmsg) : ((σ.offer p s r kmsg).ports q).lock=(σ.ports q).lock := by
  cases s with
  | none =>
    by_cases hq : q=p
    · subst q
      simp [offer,wake]
    · simp [offer,wake,hq]
  | some s => rfl

lemma offer_messages (σ : Queues Port PortSet Thread) (p q : Port) (s : Option PortSet)
    (r : Thread) (kmsg : IpcKmsg) :
    ((σ.offer p s r kmsg).ports q).messages=(σ.ports q).messages := by
  cases s with
  | none =>
    by_cases hq : q=p
    · subst q
      simp [offer,wake]
    · simp [offer,wake,hq]
  | some s => rfl

lemma offer_place (h : Queued σ) (ht : (σ.place t).waitsOn=none) {p : Port}
    (hwalk : ∀ x∈walk,x∈(σ.ports p).waitQueue)
    {s : Option PortSet} {r : Thread} (hfound : Found σ walk s r) (kmsg : IpcKmsg) :
    (σ.offer p s r kmsg).place t=σ.place t := by
  have htr : t≠r := by
    rintro rfl
    cases s with
    | none =>
      exact absurd ((h.port p t .receive (hwalk _ hfound)).symm.trans ht) (some_ne_none _)
    | some s =>
      exact absurd ((h.set s t hfound.2.2).symm.trans ht) (some_ne_none _)
  cases s with
  | none => exact update_of_ne htr _ _
  | some s => exact update_of_ne htr _ _

lemma OthersOk.offer (h : OthersOk t σ) {p : Port} (hp : Mine t σ p)
    (hwalk : ∀ x∈walk,x∈(σ.ports p).waitQueue)
    {s : Option PortSet} {r : Thread} (hfound : Found σ walk s r) (kmsg : IpcKmsg) :
    OthersOk t (σ.offer p s r kmsg) := by
  cases s with
  | none => exact (h.takePort hp (hwalk _ hfound) rfl _).setIth r _
  | some s =>
    obtain ⟨-,hlock,hr⟩ := hfound
    exact (h.takeSet (mineSet_of_isSome (by rw [hlock]; rfl)) hr rfl _).setIth r _

end Operations

section Steps

variable {σ : Queues Port PortSet Thread} {t : Thread}

variable {σ' : Queues Port PortSet Thread} {es : List (QueueEvent Port Thread)} {p : Port}
    {place : Spot Port PortSet Thread}

lemma OthersOk.finish (h : OthersOk t σ)
    (hp : place.holdsPort=none) (hs : place.holdsSet=none) : QueuesOk (σ.setPlace t place) :=
  h.setPlace (.free hp hs)

lemma OthersOk.unlockPort (h : OthersOk t σ) (hp : Mine t σ p) : OthersOk t (σ.unlockPort p) :=
  h.tune hp (by rfl)

lemma OthersOk.unlockSet (h : OthersOk t σ) {s : PortSet} (hs : MineSet t σ s) :
    OthersOk t (σ.unlockSet s) :=
  h.setSet hs fun _ hr => hr

lemma OthersOk.nextSeqno (h : OthersOk t σ) (hp : Mine t σ p) : OthersOk t (σ.nextSeqno p) :=
  h.tune hp (by rfl)

lemma nextSeqno_locks (σ : Queues Port PortSet Thread) (p q : Port) :
    ((σ.nextSeqno p).ports q).lock=(σ.ports q).lock := by
  by_cases hq : q=p
  · subst q
    simp [nextSeqno]
  · simp [nextSeqno,hq]

lemma setPort_lock {m : Mqueue PortSet Thread} (h : m.lock=(σ.ports p).lock)
    (q : Port) : ((σ.setPort p m).ports q).lock=(σ.ports q).lock := by
  by_cases hq : q=p
  · subst q
    simpa using h
  · simp [hq]

lemma OthersOk.deactivate (h : OthersOk t σ) (p : Port) :
    OthersOk t (σ.setPort p {σ.ports p with active := false}) := by
  refine ⟨h.queued.setPort fun _ _ hr => hr,h.awake,fun u hu => ?_⟩
  refine ⟨fun q hq => ?_,(h.others u hu).set,fun q walk hw x hx => ?_⟩
  · rw [setPort_lock (by rfl)]
    exact (h.others u hu).port q hq
  · rw [setPort_ports,update_apply]
    split
    · subst q
      exact (h.others u hu).walk p walk hw x hx
    · exact (h.others u hu).walk q walk hw x hx

lemma OthersOk.lockPort (h : OthersOk t σ) (hp : Mine t σ p)
    (hport : place.holdsPort=some p)
    (hset : place.holdsSet=none)
    (hwalk : ∀ q walk,place.walk=some (q,walk) → walk=(σ.ports q).waitQueue) :
    QueuesOk ((σ.setPort p {σ.ports p with lock := some t}).setPlace t place) := by
  refine OthersOk.setPlace (h.tune hp (by rfl))
    ⟨fun q hq => ?_,fun s hs => ?_,?_⟩
  · obtain rfl : p=q := some.inj (hport.symm.trans hq)
    simp
  · rw [hset] at hs
    cases hs
  · intro q walk hw x hx
    obtain rfl : p=q := some.inj (hport.symm.trans (Spot.holdsPort_of_walk hw))
    rw [hwalk p walk hw] at hx
    simpa using hx

lemma OthersOk.lookAgain (h : OthersOk t σ) (hp : (σ.ports p).lock=some t)
    (hport : place.holdsPort=some p)
    (hset : place.holdsSet=none)
    (hwalk : ∀ q walk,place.walk=some (q,walk) → ∀ x∈walk,x∈(σ.ports q).waitQueue) :
    QueuesOk (σ.setPlace t place) := by
  refine h.setPlace ⟨fun q hq => ?_,fun s hs => ?_,hwalk⟩
  · obtain rfl : p=q := some.inj (hport.symm.trans hq)
    exact hp
  · rw [hset] at hs
    cases hs

lemma mine_congr (h : Mine t σ p)
    (hl : (σ'.ports p).lock=(σ.ports p).lock) : Mine t σ' p :=
  fun u hu => h u (hl▸hu)

lemma OthersOk.select (h : OthersOk t σ) (hp : Mine t σ p) (option maxSize : ℕ)
    (kmsg : IpcKmsg) (rest : List IpcKmsg) :
    OthersOk t (σ.select t p option maxSize kmsg rest).1 := by
  unfold Queues.select
  extract_lets mr
  split
  · exact h.setIth t _
  · have hset := h.tune (m := {σ.ports p with messages := rest}) hp rfl
    have hmine := mine_congr hp (setPort_lock (m := {σ.ports p with messages := rest}) rfl p)
    have hrel := hset.releaseMsgcount hmine
    exact (hrel.nextSeqno (mine_congr hmine (releaseMsgcount_locks _ _ _))).setIth t _

lemma select_locks (p : Port) (option maxSize : ℕ) (kmsg : IpcKmsg) (rest : List IpcKmsg)
    (q : Port) : ((σ.select t p option maxSize kmsg rest).1.ports q).lock=(σ.ports q).lock := by
  unfold Queues.select
  extract_lets mr
  split
  · rfl
  · rw [setIth_ports,nextSeqno_locks,releaseMsgcount_locks,setPort_lock]
    rfl

lemma select_place (h : OthersOk t σ) (hp : Mine t σ p) (option maxSize : ℕ)
    (kmsg : IpcKmsg) (rest : List IpcKmsg) :
    (σ.select t p option maxSize kmsg rest).1.place t=σ.place t := by
  unfold Queues.select
  extract_lets mr
  split
  · rfl
  · have hset := h.tune (m := {σ.ports p with messages := rest}) hp rfl
    exact releaseMsgcount_place hset.queued hset.awake p

lemma mem_assertWait {α : Type} {x y : α} {queue : List α} (h : y∈σ.assertWait t x queue) :
    y=x ∨ y∈queue := by
  unfold assertWait at h
  split at h
  · exact mem_cons.mp h
  · rcases mem_append.mp h with h | h
    · exact .inr h
    · exact .inl (mem_singleton.mp h)

lemma OthersOk.receivePort (h : OthersOk t σ) (hp : Mine t σ p)
    (option maxSize timeout : ℕ) : QueuesOk (σ.receivePort t p option maxSize timeout).1 := by
  unfold Queues.receivePort
  split
  · exact (h.select hp option maxSize _ _).finish rfl rfl
  · split
    · exact (h.setIth t _).finish rfl rfl
    · exact (h.setIth t _).blockPort hp (fun x hx => mem_assertWait hx) rfl

lemma OthersOk.mqueueSend (h : OthersOk t σ) (hp : Mine t σ p) (kmsg : IpcKmsg)
    (option timeout : ℕ) : QueuesOk (σ.mqueueSend t p kmsg option timeout) := by
  simp only [Queues.mqueueSend]
  split
  · exact OthersOk.finish (h.tune hp (by rfl)) rfl rfl
  · split
    · exact h.finish rfl rfl
    · exact h.blockPort hp (fun x hx => mem_assertWait hx) rfl

lemma QueuesOk.posting (h : QueuesOk σ) {kmsg : IpcKmsg}
    {walk : List (Waiter PortSet Thread)} (hplace : σ.place t=.posting p kmsg walk)
        (hs : σ.posting t p kmsg walk=some (σ',es)) : QueuesOk σ' := by
  have hothers := h.othersOk (t := t) (by rw [hplace]; rfl)
  have hmy := h.places t
  rw [hplace] at hmy
  have hlock := hmy.port p rfl
  have hwalk := hmy.walk p walk rfl
  have hmine := mine_of_lock hlock
  unfold Queues.posting at hs
  split at hs
  · cases hs
  · rename_i walk' hpick
    cases hs
    obtain ⟨x,rfl⟩ := pick_skip hpick
    refine hothers.lookAgain hlock rfl rfl fun q w hw y hy => ?_
    cases hw
    exact hwalk y (mem_cons_of_mem x hy)
  · cases hs
    refine OthersOk.finish (OthersOk.unlockPort (hothers.tune hmine (by rfl)) ?_) rfl rfl
    exact mine_congr hmine (setPort_lock (by rfl) p)
  · rename_i s r hpick
    have hoffer := hothers.offer hmine hwalk (pick_found hpick) kmsg
    have hmine' := mine_congr hmine (offer_locks σ p p s r kmsg)
    split at hs
    · cases hs
      have hmine'' := mine_congr hmine' (nextSeqno_locks _ p p)
      exact (((hoffer.nextSeqno hmine').releaseMsgcount hmine'').unlockPort
        (mine_congr hmine'' (releaseMsgcount_locks _ p p))).finish rfl rfl
    · cases hs
      refine hoffer.lookAgain ((offer_locks σ p p s r kmsg).trans hlock) rfl rfl
        fun q w hw y hy => ?_
      cases hw
      exact hy

lemma QueuesOk.handingOff (h : QueuesOk σ) {walk : List (Waiter PortSet Thread)}
    (hplace : σ.place t=.handingOff p walk)
    (hs : σ.handingOff t p walk=some (σ',es)) : QueuesOk σ' := by
  have hothers := h.othersOk (t := t) (by rw [hplace]; rfl)
  have hmy := h.places t
  rw [hplace] at hmy
  have hlock := hmy.port p rfl
  have hwalk := hmy.walk p walk rfl
  have hmine := mine_of_lock hlock
  unfold Queues.handingOff at hs
  split at hs
  · cases hs
    exact (hothers.unlockPort hmine).finish rfl rfl
  · rename_i kmsg rest hmessages
    split at hs
    · cases hs
    · rename_i walk' hpick
      cases hs
      obtain ⟨x,rfl⟩ := pick_skip hpick
      refine hothers.lookAgain hlock rfl rfl fun q w hw y hy => ?_
      cases hw
      exact hwalk y (mem_cons_of_mem x hy)
    · cases hs
      exact (hothers.unlockPort hmine).finish rfl rfl
    · rename_i s r hpick
      have hoffer := hothers.offer hmine hwalk (pick_found hpick) kmsg
      have hmine' := mine_congr hmine (offer_locks σ p p s r kmsg)
      dsimp only at hs
      split at hs
      · cases hs
        have hrel := hoffer.releaseMsgcount hmine'
        have hl := (releaseMsgcount_locks _ p p).trans (offer_locks σ p p s r kmsg)
        have hmine'' := mine_congr hmine hl
        have hset := hrel.tune (m :=
          {((σ.offer p s r kmsg).releaseMsgcount p).ports p with messages := rest}) hmine'' rfl
        refine (hset.nextSeqno (mine_congr hmine'' (setPort_lock (by rfl) p))).lookAgain ?_ rfl rfl
          fun q w hw y hy => ?_
        · rw [nextSeqno_locks,setPort_lock (by rfl),hl,hlock]
        · cases hw
          exact hy
      · cases hs
        refine hoffer.lookAgain ((offer_locks σ p p s r kmsg).trans hlock) rfl rfl
          fun q w hw y hy => ?_
        cases hw
        exact hy

lemma OthersOk.drain (h : OthersOk t σ) (hp : Mine t σ p) : QueuesOk (σ.drain t p).1 := by
  unfold Queues.drain
  split
  · exact h.finish rfl rfl
  · exact OthersOk.finish (h.tune hp (by rfl)) rfl rfl

lemma QueuesOk.searching (h : QueuesOk σ) {s : PortSet} {rest : List Port}
    {option maxSize timeout : ℕ}
    (hplace : σ.place t=.searching s rest option maxSize timeout) (tryLock : Bool) :
    QueuesOk (σ.searching t s rest option maxSize timeout tryLock) := by
  have hothers := h.othersOk (t := t) (by rw [hplace]; rfl)
  have hmy := h.places t
  rw [hplace] at hmy
  have hlock := hmy.set s rfl
  have hmine := mineSet_of_lock hlock
  unfold Queues.searching
  split
  · split
    · exact ((hothers.unlockSet hmine).setIth t _).finish rfl rfl
    · exact (hothers.setIth t _).blockSet hmine fun x hx => mem_assertWait hx
  · rename_i p rest
    split
    · rename_i htry
      split
      · exact hothers.setPlace ⟨by simp [Spot.holdsPort],fun q hq => by cases hq; exact hlock,
          by simp [Spot.walk]⟩
      · simp only [and_eq_true,isNone_iff_eq_none] at htry
        have hp : (σ.ports p).lock.isSome=false := by simp [htry.2]
        refine OthersOk.lockPort (p := p) (hothers.setSet hmine (by exact fun _ hr => hr))
          (mine_of_isSome hp) rfl rfl fun q w hw => ?_
        cases hw
    · exact (hothers.unlockSet hmine).finish rfl rfl

lemma QueuesOk.leavePort (h : QueuesOk σ) (hp : (σ.ports p).lock=none) {u : Thread}
    {e : WaitEvent} (hwait : (σ.place u).waitsOn=some (.port p,e)) {mq : Mqueue PortSet Thread}
    (hw : mq.waitQueue=remqueue (σ.ports p).waitQueue (.thread u e)) (result : WaitResult) :
    QueuesOk ((σ.setPort p mq).wake u result) :=
  ⟨h.queued.takePort hwait hw result,fun v => ((h.places v).setPort (by simp [hp]) mq).wake
    (by rw [setPort_place,hwait]; exact some_ne_none _) result⟩

lemma QueuesOk.leaveSet (h : QueuesOk σ) {s : PortSet} (hs : (σ.sets s).lock=none) {u : Thread}
    (hwait : (σ.place u).waitsOn=some (.set s,.receive)) {sq : SetQueue Port Thread}
    (hw : sq.waitQueue=remqueue (σ.sets s).waitQueue u) (result : WaitResult) :
    QueuesOk ((σ.setSet s sq).wake u result) :=
  ⟨h.queued.takeSet hwait hw result,fun v => ((h.places v).setSet (by simp [hs]) sq).wake
    (by rw [setSet_place,hwait]; exact some_ne_none _) result⟩

/-- What `clearWait` does: a blocked thread leaves its queue, with a result that no waker gives. -/
inductive Cleared (σ : Queues Port PortSet Thread) (u : Thread) (result : WaitResult) :
    Queues Port PortSet Thread → Prop
  | port (p : Port) (e : WaitEvent) (hlock : (σ.ports p).lock=none)
      (hwait : (σ.place u).waitsOn=some (.port p,e)) :
      Cleared σ u result ((σ.setPort p { σ.ports p with
        waitQueue := remqueue (σ.ports p).waitQueue (.thread u e)}).wake u result)
  | set (s : PortSet) (hlock : (σ.sets s).lock=none)
      (hwait : (σ.place u).waitsOn=some (.set s,.receive)) :
      Cleared σ u result ((σ.setSet s { σ.sets s with
        waitQueue := remqueue (σ.sets s).waitQueue u}).wake u result)

lemma clearWait_cleared {u : Thread} {result : WaitResult}
    (hs : σ.clearWait u result=some σ') : result≠.awakened ∧ Cleared σ u result σ' := by
  unfold Queues.clearWait at hs
  split at hs
  · cases hs
  · rename_i hresult
    refine ⟨hresult,?_⟩
    split at hs
    case h_1 p kmsg hplace =>
      split at hs
      · cases hs
      · rename_i hlock
        rw [not_eq_true,or_eq_false_iff] at hlock
        cases hs
        exact .port p .full (by simpa using hlock.2) (by rw [hplace]; rfl)
    case h_2 p hplace =>
      split at hs
      · cases hs
      · rename_i hlock
        cases hs
        exact .port p .receive (by simpa using hlock) (by rw [hplace]; rfl)
    case h_3 s hplace =>
      split at hs
      · cases hs
      · rename_i hlock
        cases hs
        exact .set s (by simpa using hlock) (by rw [hplace]; rfl)
    case h_4 => cases hs

lemma QueuesOk.clearWait (h : QueuesOk σ) {u : Thread} {result : WaitResult}
    (hs : σ.clearWait u result=some σ') : QueuesOk σ' := by
  cases (clearWait_cleared hs).2 with
  | port p e hlock hwait => exact h.leavePort hlock hwait rfl result
  | set s hlock hwait => exact h.leaveSet hlock hwait rfl result

lemma QueuesOk.proceed (h : QueuesOk σ) {tryLock : Bool}
    (hs : σ.proceed t tryLock=some (σ',es)) : QueuesOk σ' := by
  have hmy := h.places t
  unfold Queues.proceed at hs
  split at hs
  case h_1 p kmsg option timeout hplace =>
    have hothers := h.othersOk (t := t) (by rw [hplace]; rfl)
    split at hs
    · cases hs
    · rename_i hlock
      cases hs
      exact hothers.mqueueSend (mine_of_isSome (by simpa using hlock)) _ _ _
  case h_2 p kmsg hplace =>
    have hothers := h.othersOk (t := t) (by rw [hplace]; rfl)
    split at hs
    · cases hs
    · rename_i hlock
      cases hs
      refine hothers.lockPort (mine_of_isSome (by simpa using hlock)) rfl rfl fun q w hw => ?_
      cases hw
      rfl
  case h_3 p kmsg walk hplace => exact h.posting hplace hs
  case h_4 s rest option maxSize timeout hplace =>
    cases hs
    exact h.searching hplace tryLock
  case h_5 s option maxSize timeout hplace =>
    have hothers := h.othersOk (t := t) (by rw [hplace]; rfl)
    split at hs
    · cases hs
    · rename_i hlock
      cases hs
      refine OthersOk.setPlace (hothers.setSet (mineSet_of_isSome (by simpa using hlock))
        (by exact fun _ hr => hr)) ⟨by simp [Spot.holdsPort],fun q hq => ?_,by simp [Spot.walk]⟩
      cases hq
      simp
  case h_6 p option maxSize hplace =>
    have hothers := h.othersOk (t := t) (by rw [hplace]; rfl)
    rw [hplace] at hmy
    have hmine := mine_of_lock (hmy.port p rfl)
    split at hs
    · cases hs
    · cases hs
      exact ((hothers.select hmine option maxSize _ _).unlockPort
        (mine_congr hmine (select_locks p option maxSize _ _ p))).finish rfl rfl
  case h_7 result hplace =>
    have hothers := h.othersOk (t := t) (by rw [hplace]; rfl)
    cases hs
    unfold receiveResults
    cases result with
    | awakened => exact hothers.finish rfl rfl
    | timedOut | interrupted | restart => exact (hothers.setIth t _).finish rfl rfl
  case h_8 p hplace =>
    have hothers := h.othersOk (t := t) (by rw [hplace]; rfl)
    split at hs
    · cases hs
    · rename_i hlock
      cases hs
      refine hothers.lockPort (mine_of_isSome (by simpa using hlock)) rfl rfl fun q w hw => ?_
      cases hw
      rfl
  case h_9 p walk hplace => exact h.handingOff hplace hs
  case h_10 p hplace =>
    have hothers := h.othersOk (t := t) (by rw [hplace]; rfl)
    split at hs
    · cases hs
    · rename_i hlock
      obtain rfl := congrArg Prod.fst (some.inj hs)
      have hmine : Mine t σ p := mine_of_isSome (by simpa using hlock)
      have hmine' := mine_congr hmine
        (setPort_lock (m := {σ.ports p with fullwaiters := false}) rfl p)
      exact ((hothers.tune hmine (by rfl)).wakeSenders hmine' _).drain
        (mine_congr hmine' (wakeSenders_locks _ p p _))
  case h_11 p hplace =>
    have hothers := h.othersOk (t := t) (by rw [hplace]; rfl)
    split at hs
    · cases hs
    · rename_i hlock
      obtain rfl := congrArg Prod.fst (some.inj hs)
      exact hothers.drain (mine_of_isSome (by simpa using hlock))
  case h_12 => cases hs

lemma QueuesOk.call (h : QueuesOk σ) (hplace : σ.place t=.outside)
    {a : QueueAction Port PortSet Thread}
    (hs : σ.call t a=some (σ',es)) : QueuesOk σ' := by
  have hothers := h.othersOk (t := t) (by rw [hplace]; rfl)
  unfold Queues.call at hs
  split at hs
  case h_1 =>
    split at hs
    · cases hs
      exact hothers.finish rfl rfl
    · cases hs
      exact hothers.finish rfl rfl
  case h_2 p option maxSize timeout =>
    split at hs
    · cases hs
    · rename_i hlock
      obtain rfl := congrArg Prod.fst (some.inj hs)
      exact hothers.receivePort (mine_of_isSome (by simpa using hlock)) _ _ _
  case h_3 =>
    cases hs
    exact hothers.finish rfl rfl
  case h_4 p s kalloc =>
    split at hs
    · cases hs
    · rename_i hlock
      rw [not_eq_true,or_eq_false_iff] at hlock
      split at hs
      · cases hs
        exact hothers.finish rfl rfl
      · cases hs
        refine OthersOk.finish (OthersOk.setSet (hothers.setPort (mine_of_isSome hlock.1)
          fun r e hr => ?_) (mineSet_of_isSome hlock.2) (by exact fun _ hr => hr)) rfl rfl
        rcases mem_append.mp hr with hr | hr
        · exact hr
        · cases mem_singleton.mp hr
  case h_5 p s =>
    split at hs
    · cases hs
    · rename_i hlock
      rw [not_eq_true,or_eq_false_iff] at hlock
      cases hs
      exact OthersOk.finish (OthersOk.setSet (hothers.setPort (mine_of_isSome hlock.1)
        (by exact fun r e hr => (mem_remqueue.mp hr).1)) (mineSet_of_isSome hlock.2)
          (by exact fun _ hr => hr)) rfl rfl
  case h_6 p qlimit =>
    split at hs
    · cases hs
    · rename_i hlock
      have hmine : Mine t σ p := mine_of_isSome (by simpa using hlock)
      cases hs
      refine OthersOk.finish (OthersOk.tune ?_ ?_ (by rfl)) rfl rfl
      · split
        · exact hothers.wakeSenders hmine _
        · exact hothers
      · split
        · exact mine_congr hmine (wakeSenders_locks _ p p _)
        · exact hmine
  case h_7 p seqno =>
    split at hs
    · cases hs
    · rename_i hlock
      cases hs
      exact OthersOk.finish (hothers.tune (mine_of_isSome (by simpa using hlock)) (by rfl)) rfl rfl
  case h_8 p =>
    split at hs
    · cases hs
      exact OthersOk.finish (hothers.deactivate p) rfl rfl
    · cases hs
  case h_9 => cases hs

lemma QueuesOk.step (h : QueuesOk σ) {a : QueueAction Port PortSet Thread}
        (hs : σ.step t a=some (σ',es)) : QueuesOk σ' := by
  unfold Queues.step at hs
  split at hs
  case h_1 => exact h.proceed hs
  case h_2 =>
    obtain ⟨τ,hclear,he⟩ := map_eq_some_iff.mp hs
    cases he
    exact h.clearWait hclear
  case h_3 =>
    split at hs
    case h_1 _ hplace | h_2 hplace | h_3 hplace =>
      cases hs
      exact (h.othersOk (by rw [hplace]; rfl)).finish rfl rfl
    case h_4 => cases hs
  case h_4 =>
    split at hs
    · rename_i hplace
      exact h.call hplace hs
    · cases hs

end Steps

end Queues

end Darwin.Ipc
