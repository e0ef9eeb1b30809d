import Darwin.Ipc.MqueueLife
import Mathlib.Data.Fintype.Card
import Mathlib.Tactic.Ring
import Mathlib.Tactic.Linarith

/-! The message count of a port's queue: what is queued and what senders have reserved. -/
open List Function Option
namespace Darwin.Ipc

variable {Port PortSet Thread : Type}

/-- The port on whose queue a thread has a slot: it need not wait any more and has not posted. -/
def Spot.slot : Spot Port PortSet Thread → Option Port
  | .post p _ | .posting p _ _ => some p
  | _ => none

namespace Queues

set_option linter.unusedSectionVars false

variable [DecidableEq Port] [DecidableEq PortSet] [DecidableEq Thread]
variable {t : Thread} {σ₀ σ σ' : Queues Port PortSet Thread}

def Owners (σ : Queues Port PortSet Thread) (p : Port) (n : ℕ) : Prop :=
  ∃ owners : List Thread,owners.Nodup ∧ (∀ t,t∈owners ↔ (σ.place t).slot=some p) ∧ owners.length=n

lemma Owners.congr {p : Port} {n : ℕ} (h : Owners σ p n)
    (hp : ∀ t,(σ'.place t).slot=some p ↔ (σ.place t).slot=some p) : Owners σ' p n := by
  obtain ⟨owners,hnodup,hmem,hlen⟩ := h
  exact ⟨owners,hnodup,fun t => (hmem t).trans (hp t).symm,hlen⟩

lemma Owners.gain {p : Port} {n : ℕ} (h : Owners σ p n) {place : Spot Port PortSet Thread}
    (hold : (σ.place t).slot≠some p) (hnew : place.slot=some p) :
    Owners (σ.setPlace t place) p (n+1) := by
  obtain ⟨owners,hnodup,hmem,rfl⟩ := h
  refine ⟨t::owners,nodup_cons.mpr ⟨fun ht => hold ((hmem t).mp ht),hnodup⟩,fun u => ?_,rfl⟩
  rw [setPlace_place,mem_cons,hmem]
  by_cases hu : u=t
  · simp [hu,hnew]
  · simp [hu]

lemma Owners.drop {p : Port} {n : ℕ} (h : Owners σ p n) {x : Spot Port PortSet Thread}
    (hold : (σ.place t).slot=some p) (hnew : x.slot≠some p) :
    ∃ m,n=m+1 ∧ Owners (σ.setPlace t x) p m := by
  obtain ⟨owners,hnodup,hmem,rfl⟩ := h
  have ht := (hmem t).mpr hold
  refine ⟨owners.length-1,(Nat.succ_pred_eq_of_pos (length_pos_of_mem ht)).symm,
    owners.erase t,hnodup.erase t,fun u => ?_,length_erase_of_mem ht⟩
  rw [setPlace_place,hnodup.mem_erase_iff,hmem]
  by_cases hu : u=t
  · simp [hu,hnew]
  · simp [hu]

section Balance

/-- The 32-bit count of the port differs by `d` from what is queued and reserved. -/
def BalanceAt (σ : Queues Port PortSet Thread) (p : Port) (d : ℤ) : Prop :=
  ∃ n : ℕ,Owners σ p n ∧ ((σ.ports p).msgcount : ℤ)=((σ.ports p).messages.length+n+d)%2^32

/-- In the course of a step from `σ₀`, the count of one port is off by `d`. A sender that has been
woken has not brought the count over the limit. -/
structure Counts (σ₀ : Queues Port PortSet Thread) (p : Port) (d : ℤ)
    (σ : Queues Port PortSet Thread) : Prop where
  balance : ∀ q,BalanceAt σ q (if q=p then d else 0)
  woken : ∀ r q kmsg,σ₀.place r=.blockedSend q kmsg → (σ.place r).slot=some q →
    (σ.ports q).msgcount≤(σ.ports q).qlimit

variable {place : Spot Port PortSet Thread} {p : Port}

lemma BalanceAt.congr {d : ℤ} (h : BalanceAt σ p d)
    (hp : ∀ t,(σ'.place t).slot=some p ↔ (σ.place t).slot=some p)
    (hc : (σ'.ports p).msgcount=(σ.ports p).msgcount)
    (hm : (σ'.ports p).messages.length=(σ.ports p).messages.length) : BalanceAt σ' p d := by
  obtain ⟨n,hn,hd⟩ := h
  exact ⟨n,hn.congr hp,by rw [hc,hm,hd]⟩

lemma balance_setPort {d d' : ℤ} (h : ∀ q,BalanceAt σ q (if q=p then d else 0))
    {mq : Mqueue PortSet Thread}
    (hc : ∀ n : ℕ,((σ.ports p).msgcount : ℤ)=((σ.ports p).messages.length+n+d)%2^32 →
      (mq.msgcount : ℤ)=(mq.messages.length+n+d')%2^32) (q : Port) :
    BalanceAt (σ.setPort p mq) q (if q=p then d' else 0) := by
  obtain ⟨n,hn,hd⟩ := h q
  refine ⟨n,hn.congr fun _ => Iff.rfl,?_⟩
  by_cases hq : q=p
  · subst q
    rw [if_pos rfl] at hd ⊢
    rw [setPort_ports,update_self]
    exact hc n hd
  · rw [if_neg hq] at hd ⊢
    rw [setPort_ports,update_of_ne hq]
    exact hd

lemma balance_gain {d : ℤ} (h : ∀ q,BalanceAt σ q (if q=p then d else 0))
    {r : Thread} (hold : (σ.place r).slot=none)
    (hnew : place.slot=some p) (q : Port) :
    BalanceAt (σ.setPlace r place) q (if q=p then d-1 else 0) := by
  obtain ⟨n,hn,hd⟩ := h q
  by_cases hq : q=p
  · subst q
    rw [if_pos rfl] at hd ⊢
    refine ⟨n+1,hn.gain (by simp [hold]) hnew,?_⟩
    rw [setPlace_ports,hd]
    push_cast
    congr 1
    ring
  · rw [if_neg hq] at hd ⊢
    refine ⟨n,hn.congr fun u => ?_,hd⟩
    rw [setPlace_place]
    by_cases hu : u=r
    · subst u
      simp [hold,hnew,Ne.symm hq]
    · simp [hu]

lemma balance_drop {d : ℤ} (h : ∀ q,BalanceAt σ q (if q=p then d else 0))
    {r : Thread} (hold : (σ.place r).slot=some p)
    (hnew : place.slot=none) (q : Port) :
    BalanceAt (σ.setPlace r place) q (if q=p then d+1 else 0) := by
  obtain ⟨n,hn,hd⟩ := h q
  by_cases hq : q=p
  · subst q
    rw [if_pos rfl] at hd ⊢
    obtain ⟨m,rfl,hm⟩ := hn.drop (x := place) hold (by simp [hnew])
    refine ⟨m,hm,?_⟩
    rw [setPlace_ports,hd]
    push_cast
    congr 1
    ring
  · rw [if_neg hq] at hd ⊢
    refine ⟨n,hn.congr fun u => ?_,hd⟩
    rw [setPlace_place]
    by_cases hu : u=r
    · subst u
      simp [hold,hnew,Ne.symm hq]
    · simp [hu]

lemma balance_stay {d : ℤ} (h : ∀ q,BalanceAt σ q (if q=p then d else 0))
    {r : Thread} (hslot : place.slot=(σ.place r).slot)
    (q : Port) : BalanceAt (σ.setPlace r place) q (if q=p then d else 0) := by
  refine (h q).congr (fun u => ?_) rfl rfl
  rw [setPlace_place]
  by_cases hu : u=r
  · subst u
    simp [hslot]
  · simp [hu]

end Balance

section Operations

def Still (σ₀ σ : Queues Port PortSet Thread) : Prop :=
  ∀ r q kmsg,σ₀.place r=.blockedSend q kmsg → σ.place r=.blockedSend q kmsg

lemma Counts.begin (h : ∀ q,BalanceAt σ q 0) (p : Port) : Counts σ p 0 σ where
  balance := by
    intro q
    rw [ite_self]
    exact h q
  woken := by
    intro r q kmsg hb hp
    rw [hb] at hp
    cases hp

variable {p : Port} {d : ℤ} {place : Spot Port PortSet Thread} {x : Spot Port PortSet Thread}
    {source : Source Port PortSet}

lemma Counts.setPort {d e : ℤ} (h : Counts σ₀ p d σ) {m : Mqueue PortSet Thread}
    (hc : m.msgcount=(σ.ports p).msgcount) (hl : m.qlimit=(σ.ports p).qlimit)
    (hm : (m.messages.length : ℤ)+e=(σ.ports p).messages.length+d) :
    Counts σ₀ p e (σ.setPort p m) where
  balance := balance_setPort h.balance fun n hn => by
    rw [hc,hn]
    congr 1
    linarith
  woken := by
    intro r q kmsg hb hp
    have hle := h.woken r q kmsg hb hp
    rw [setPort_ports,update_apply]
    split
    · subst q
      rwa [hc,hl]
    · exact hle

lemma Counts.recount {d e : ℤ} (h : Counts σ₀ p d σ) (hstill : Still σ₀ σ)
    {m : Mqueue PortSet Thread}
    (hc : ∀ n : ℕ,((σ.ports p).msgcount : ℤ)=((σ.ports p).messages.length+n+d)%2^32 →
      (m.msgcount : ℤ)=(m.messages.length+n+e)%2^32) :
    Counts σ₀ p e (σ.setPort p m) where
  balance := balance_setPort h.balance hc
  woken := by
    intro r q kmsg hb hp
    rw [setPort_place,hstill r q kmsg hb] at hp
    cases hp

lemma Counts.setSet (h : Counts σ₀ p d σ) (s : PortSet)
    (sq : SetQueue Port Thread) : Counts σ₀ p d (σ.setSet s sq) :=
  ⟨h.balance,h.woken⟩

lemma Counts.setIth (h : Counts σ₀ p d σ) (r : Thread) (i : Ith) : Counts σ₀ p d (σ.setIth r i) :=
  ⟨h.balance,h.woken⟩

lemma Counts.unlockPort (h : Counts σ₀ p d σ) : Counts σ₀ p d (σ.unlockPort p) :=
  h.setPort (by rfl) (by rfl) (by rfl)

lemma Counts.nextSeqno (h : Counts σ₀ p d σ) : Counts σ₀ p d (σ.nextSeqno p) :=
  h.setPort (by rfl) (by rfl) (by rfl)

lemma Counts.move {d d' : ℤ} (h : Counts σ₀ p d σ)
    (ht : (σ₀.place t).waitsOn=none)
    (hb : ∀ q,BalanceAt (σ.setPlace t place) q (if q=p then d' else 0)) :
    Counts σ₀ p d' (σ.setPlace t place) where
  balance := hb
  woken := by
    intro r q kmsg hr hp
    have hrt : r≠t := by
      rintro rfl
      rw [hr] at ht
      cases ht
    rw [setPlace_place,update_of_ne hrt] at hp
    exact h.woken r q kmsg hr hp

lemma Counts.stay (h : Counts σ₀ p d σ) (ht : (σ₀.place t).waitsOn=none)
    (hslot : x.slot=(σ.place t).slot) : Counts σ₀ p d (σ.setPlace t x) :=
  h.move ht (balance_stay h.balance hslot)

lemma Counts.drop (h : Counts σ₀ p d σ) (ht : (σ₀.place t).waitsOn=none)
    (hold : (σ.place t).slot=some p)
    (hnew : x.slot=none) : Counts σ₀ p (d+1) (σ.setPlace t x) :=
  h.move ht (balance_drop h.balance hold hnew)

lemma Counts.gain (h : Counts σ₀ p d σ) (ht : (σ₀.place t).waitsOn=none)
    (hold : (σ.place t).slot=none)
    (hnew : x.slot=some p) : Counts σ₀ p (d-1) (σ.setPlace t x) :=
  h.move ht (balance_gain h.balance hold hnew)

lemma Counts.wakeReceiver (h : Counts σ₀ p d σ) {r : Thread}
    (hr : σ.place r=.blockedReceive source)
    (result : WaitResult) : Counts σ₀ p d (σ.wake r result) where
  balance := balance_stay h.balance (by rw [hr]; rfl)
  woken := by
    intro u q kmsg hu hp
    rw [wake,setPlace_place,update_apply] at hp
    split at hp
    · rw [hr] at hp
      cases hp
    · exact h.woken u q kmsg hu hp

lemma blockedReceive_of_waitsOn
    (h : place.waitsOn=some (source,.receive)) : place=.blockedReceive source := by
  cases place <;> cases h
  rfl

lemma blockedSend_of_waitsOn
    (h : place.waitsOn=some (source,.full)) :
    ∃ p kmsg,source=.port p ∧ place=.blockedSend p kmsg := by
  cases place <;> cases h
  exact ⟨_,_,rfl,rfl⟩

lemma Counts.releaseMsgcount (h : Counts σ₀ p d σ) (hstill : Still σ₀ σ)
    (hqueued : Queued σ) : Counts σ₀ p (d-1) (σ.releaseMsgcount p) := by
  have hr := releaseMsgcount_released σ p
  generalize σ.releaseMsgcount p=τ at hr
  cases hr with
  | kept fullwaiters =>
    refine h.recount hstill fun n hn => ?_
    push_cast
    omega
  | gave r hmem hlt =>
    obtain ⟨p',kmsg,hp,hplace⟩ := blockedSend_of_waitsOn (hqueued.port p r .full hmem)
    cases hp
    have hset := h.recount (p := p) (e := d) hstill (m := { σ.ports p with
      msgcount := (((σ.ports p).msgcount+(2^32-1))%2^32+1)%2^32
      waitQueue := remqueue (σ.ports p).waitQueue (.thread r .full)}) fun n hn => by
        push_cast
        omega
    refine ⟨balance_gain hset.balance (by rw [setPort_place,hplace]; rfl)
      (by rw [setPort_place,hplace]; rfl),fun u q k hu hpost => ?_⟩
    rw [wake,setPlace_place,update_apply] at hpost
    split at hpost
    · subst u
      rw [setPort_place,hplace] at hpost
      cases hpost
      rw [wake,setPlace_ports,setPort_ports,update_self]
      exact (Nat.mod_le _ _).trans hlt
    · rw [setPort_place,hstill u q k hu] at hpost
      cases hpost

lemma Counts.offer (h : Counts σ₀ p d σ) (hqueued : Queued σ)
    {walk : List (Waiter PortSet Thread)} (hwalk : ∀ x∈walk,x∈(σ.ports p).waitQueue)
    {s : Option PortSet} {r : Thread} (hfound : Found σ walk s r) (kmsg : IpcKmsg) :
    Counts σ₀ p d (σ.offer p s r kmsg) := by
  cases s with
  | none =>
    exact Counts.wakeReceiver (Counts.setIth (h.setPort (by rfl) (by rfl) (by rfl)) r _)
      (blockedReceive_of_waitsOn (hqueued.port p r .receive (hwalk _ hfound))) _
  | some s =>
    exact Counts.wakeReceiver (Counts.setIth (h.setSet s _) r _)
      (blockedReceive_of_waitsOn (hqueued.set s r hfound.2.2)) _

lemma Still.refl (σ : Queues Port PortSet Thread) : Still σ σ := fun _ _ _ h => h

lemma Still.offer (hqueued : Queued σ) {walk : List (Waiter PortSet Thread)}
    (hwalk : ∀ x∈walk,x∈(σ.ports p).waitQueue) {s : Option PortSet} {r : Thread}
    (hfound : Found σ walk s r) (kmsg : IpcKmsg) : Still σ (σ.offer p s r kmsg) := by
  have hwake : ∀ source,σ.place r=.blockedReceive source →
      ∀ τ : Queues Port PortSet Thread,τ.place=σ.place → Still σ (τ.wake r .awakened) := by
    intro source hr τ hτ u q k hu
    have hur : u≠r := by
      rintro rfl
      rw [hr] at hu
      cases hu
    rw [wake,setPlace_place,update_of_ne hur,hτ,hu]
  cases s with
  | none =>
    exact hwake _ (blockedReceive_of_waitsOn (hqueued.port p r .receive (hwalk _ hfound))) _ rfl
  | some s => exact hwake _ (blockedReceive_of_waitsOn (hqueued.set s r hfound.2.2)) _ rfl

end Operations

section Steps

/-- A whole step keeps every count right, and no sender that it wakes exceeds the limit. -/
structure Kept (σ σ' : Queues Port PortSet Thread) : Prop where
  balance : ∀ q,BalanceAt σ' q 0
  woken : ∀ r q kmsg,σ.place r=.blockedSend q kmsg → (σ'.place r).slot=some q →
    (σ'.ports q).msgcount≤(σ'.ports q).qlimit

variable {es : List (QueueEvent Port Thread)} {p : Port} {a : QueueAction Port PortSet Thread}

lemma Counts.kept (h : Counts σ₀ p 0 σ) : Kept σ₀ σ := by
  refine ⟨fun q => ?_,h.woken⟩
  have hq := h.balance q
  rwa [ite_self] at hq

lemma Kept.move (hb : ∀ q,BalanceAt σ q 0) (ht : (σ.place t).waitsOn=none)
    (hports : σ'.ports=σ.ports) (hplaces : σ'.place=σ.place)
    {place : Spot Port PortSet Thread} (hslot : place.slot=(σ.place t).slot) :
    Kept σ (σ'.setPlace t place) where
  balance := by
    intro q
    refine (hb q).congr (fun u => ?_) (by rw [setPlace_ports,hports])
      (by rw [setPlace_ports,hports])
    rw [setPlace_place,hplaces]
    by_cases hu : u=t
    · subst u
      simp [hslot]
    · simp [hu]
  woken := by
    intro r q kmsg hr hp
    have hrt : r≠t := by
      rintro rfl
      rw [hr] at ht
      cases ht
    rw [setPlace_place,update_of_ne hrt,hplaces,hr] at hp
    cases hp

lemma mqueueSend_kept (hb : ∀ q,BalanceAt σ q 0) {kmsg : IpcKmsg}
    {option timeout : ℕ} (hplace : σ.place t=.send p kmsg option timeout) :
    Kept σ (σ.mqueueSend t p kmsg option timeout) := by
  have ht : (σ.place t).waitsOn=none := by rw [hplace]; rfl
  have hcounts := Counts.begin hb p
  simp only [mqueueSend]
  split
  · have hset := hcounts.recount (e := 1) (Still.refl σ)
      (m := {σ.ports p with msgcount := ((σ.ports p).msgcount+1)%2^32}) fun n hn => by
        push_cast
        omega
    exact (hset.gain (x := .post p kmsg) ht (by rw [setPort_place,hplace]; rfl) rfl).kept
  · split
    · exact (hcounts.stay ht (by rw [hplace]; rfl)).kept
    · exact (Counts.stay (hcounts.setPort (by rfl) (by rfl) (by rfl)) ht
        (by rw [setPort_place,hplace]; rfl)).kept

lemma Counts.select (h : Counts σ p 0 σ) (hok : QueuesOk σ)
    (ht : (σ.place t).waitsOn=none) (hmine : Mine t σ p) (option maxSize : ℕ) {kmsg : IpcKmsg}
    {rest : List IpcKmsg} (hm : (σ.ports p).messages=kmsg::rest) :
    Counts σ p 0 (σ.select t p option maxSize kmsg rest).1 := by
  unfold Queues.select
  extract_lets mr
  split
  · exact h.setIth t _
  · have hset := h.setPort (e := 1) (m := {σ.ports p with messages := rest}) rfl rfl
      (by rw [hm]; push_cast [length_cons]; ring)
    have hrel := hset.releaseMsgcount (Still.refl σ)
      ((hok.othersOk ht).tune (m := {σ.ports p with messages := rest}) hmine rfl).queued
    exact Counts.setIth (Counts.setPort hrel (by rfl) (by rfl) (by rfl)) t _

lemma receivePort_kept (hb : ∀ q,BalanceAt σ q 0) (hok : QueuesOk σ)
    (hplace : σ.place t=.outside) (hmine : Mine t σ p) (option maxSize timeout : ℕ) :
    Kept σ (σ.receivePort t p option maxSize timeout).1 := by
  have ht : (σ.place t).waitsOn=none := by rw [hplace]; rfl
  have hcounts := Counts.begin hb p
  unfold receivePort
  split
  · rename_i kmsg rest hmessages
    have hsel := hcounts.select hok ht hmine option maxSize hmessages
    refine (hsel.stay ht ?_).kept
    rw [select_place (hok.othersOk ht) hmine,hplace]
    rfl
  · split
    · exact (Counts.stay (hcounts.setIth t _) ht (by rw [setIth_place,hplace]; rfl)).kept
    · exact (Counts.stay (Counts.setIth (hcounts.setPort (by rfl) (by rfl) (by rfl)) t _) ht
        (by rw [setIth_place,setPort_place,hplace]; rfl)).kept

lemma posting_kept (hb : ∀ q,BalanceAt σ q 0) (hok : QueuesOk σ) {kmsg : IpcKmsg}
    {walk : List (Waiter PortSet Thread)} (hplace : σ.place t=.posting p kmsg walk)
    (hs : σ.posting t p kmsg walk=some (σ',es)) : Kept σ σ' := by
  have ht : (σ.place t).waitsOn=none := by rw [hplace]; rfl
  have hcounts := Counts.begin hb p
  have hothers := hok.othersOk ht
  have hmy := hok.places t
  rw [hplace] at hmy
  have hwalk := hmy.walk p walk rfl
  have hmine := mine_of_lock (hmy.port p rfl)
  unfold posting at hs
  split at hs
  · cases hs
  · cases hs
    exact (hcounts.stay ht (by rw [hplace]; rfl)).kept
  · cases hs
    have hset := hcounts.setPort (e := -1)
      (m := {σ.ports p with messages := (σ.ports p).messages++[kmsg]}) rfl rfl (by simp)
    refine (hset.unlockPort.drop (x := .sent .success) ht ?_ rfl).kept
    exact (congrArg Spot.slot hplace).trans rfl
  · rename_i s r hpick
    have hfound := pick_found hpick
    have hoffer := hcounts.offer hok.queued hwalk hfound kmsg
    have hstill := Still.offer hok.queued hwalk hfound kmsg
    have hplace' : (σ.offer p s r kmsg).place t=.posting p kmsg walk :=
      (offer_place hok.queued ht hwalk hfound kmsg).trans hplace
    split at hs
    · cases hs
      have hmine' := mine_congr hmine (offer_locks σ p p s r kmsg)
      have hok' := (hothers.offer hmine hwalk hfound kmsg).nextSeqno hmine'
      have hrel := hoffer.nextSeqno.releaseMsgcount hstill hok'.queued
      refine (hrel.unlockPort.drop (x := .sent .success) ht ?_ rfl).kept
      have hrest := releaseMsgcount_place hok'.queued hok'.awake p
      exact (congrArg Spot.slot (hrest.trans hplace')).trans rfl
    · cases hs
      exact (hoffer.stay ht (by rw [hplace']; rfl)).kept

lemma handingOff_kept (hb : ∀ q,BalanceAt σ q 0) (hok : QueuesOk σ)
    {walk : List (Waiter PortSet Thread)} (hplace : σ.place t=.handingOff p walk)
    (hs : σ.handingOff t p walk=some (σ',es)) : Kept σ σ' := by
  have ht : (σ.place t).waitsOn=none := by rw [hplace]; rfl
  have hcounts := Counts.begin hb p
  have hothers := hok.othersOk ht
  have hmy := hok.places t
  rw [hplace] at hmy
  have hwalk := hmy.walk p walk rfl
  have hmine := mine_of_lock (hmy.port p rfl)
  unfold handingOff at hs
  split at hs
  · cases hs
    exact (hcounts.unlockPort.stay ht (by rw [unlockPort,setPort_place,hplace]; rfl)).kept
  · rename_i kmsg rest hmessages
    split at hs
    · cases hs
    · cases hs
      exact (hcounts.stay ht (by rw [hplace]; rfl)).kept
    · cases hs
      exact (hcounts.unlockPort.stay ht (by rw [unlockPort,setPort_place,hplace]; rfl)).kept
    · rename_i s r hpick
      have hfound := pick_found hpick
      have hoffer := hcounts.offer hok.queued hwalk hfound kmsg
      have hstill := Still.offer hok.queued hwalk hfound kmsg
      have hplace' : (σ.offer p s r kmsg).place t=.handingOff p walk :=
        (offer_place hok.queued ht hwalk hfound kmsg).trans hplace
      have hok' := hothers.offer hmine hwalk hfound kmsg
      dsimp only at hs
      split at hs
      · cases hs
        have hrel := hoffer.releaseMsgcount hstill hok'.queued
        have hmsgs : (((σ.offer p s r kmsg).releaseMsgcount p).ports p).messages=kmsg::rest := by
          rw [releaseMsgcount_messages,offer_messages,hmessages]
        have hset := hrel.setPort (e := 0) (m :=
          {((σ.offer p s r kmsg).releaseMsgcount p).ports p with messages := rest}) rfl rfl
            (by rw [hmsgs]; push_cast [length_cons]; ring)
        refine (hset.nextSeqno.stay ht ?_).kept
        have hrest := releaseMsgcount_place hok'.queued hok'.awake p
        exact (congrArg Spot.slot (hrest.trans hplace')).symm
      · cases hs
        exact (hoffer.stay ht (by rw [hplace']; rfl)).kept

lemma searching_kept (hb : ∀ q,BalanceAt σ q 0) {s : PortSet} {rest : List Port}
    {option maxSize timeout : ℕ}
    (hplace : σ.place t=.searching s rest option maxSize timeout) (tryLock : Bool) :
    Kept σ (σ.searching t s rest option maxSize timeout tryLock) := by
  have ht : (σ.place t).waitsOn=none := by rw [hplace]; rfl
  have hslot : (σ.place t).slot=none := by rw [hplace]; rfl
  unfold searching
  split
  · split
    · exact Kept.move hb ht (by rfl) (by rfl) hslot.symm
    · exact Kept.move hb ht (by rfl) (by rfl) hslot.symm
  · rename_i p rest
    split
    · split
      · exact Kept.move hb ht rfl rfl hslot.symm
      · have hset := (Counts.begin hb p).setSet s { σ.sets s with
          setlinks := remqueue (σ.sets s).setlinks p++[p],lock := none}
        exact ((hset.setPort (m := {σ.ports p with lock := some t}) rfl rfl rfl).stay
          (x := .selecting p option maxSize) ht hslot.symm).kept
    · exact Kept.move hb ht (by rfl) (by rfl) hslot.symm

/-- The condition: the limit of a port is raised only while no sender is blocked there, and its
queue is destroyed only when it is empty and nobody is sending to it. -/
def SlotSafe (σ : Queues Port PortSet Thread) (t : Thread) : QueueAction Port PortSet Thread → Prop
  | .setQlimit p qlimit => qlimit≤(σ.ports p).qlimit ∨ (σ.ports p).firstFull=none
  | .proceed _ => ∀ p,(σ.place t).life=.destroying p →
      (σ.ports p).messages=[] ∧ ∀ u,(σ.place u).life≠.sending p
  | _ => True

lemma wakeSenders_none (h : (σ.ports p).firstFull=none) (n : ℕ) :
    ∃ fullwaiters,σ.wakeSenders p n=σ.setPort p {σ.ports p with fullwaiters := fullwaiters} := by
  cases n with
  | zero =>
    refine ⟨(σ.ports p).fullwaiters,?_⟩
    simp [wakeSenders,Queues.setPort]
  | succ n =>
    refine ⟨false,?_⟩
    simp [wakeSenders,h]

lemma firstFull_of_unsent (hok : QueuesOk σ)
    (h : ∀ u,(σ.place u).life≠.sending p) : (σ.ports p).firstFull=none := by
  cases hf : (σ.ports p).firstFull with
  | none => rfl
  | some r =>
    obtain ⟨q,kmsg,hq,hplace⟩ := blockedSend_of_waitsOn (hok.queued.port p r .full (firstFull_mem hf))
    cases hq
    exact absurd (by rw [hplace]; rfl) (h r)

lemma proceed_destroying (hok : QueuesOk σ) (hplace : σ.place t=.destroying p)
    (hempty : (σ.ports p).messages=[]) (hunsent : ∀ u,(σ.place u).life≠.sending p)
    {tryLock : Bool}
    (hs : σ.proceed t tryLock=some (σ',es)) : ∃ fullwaiters,σ' =
      (σ.setPort p {σ.ports p with fullwaiters := fullwaiters}).setPlace t .returned := by
  have hnone : ((σ.setPort p {σ.ports p with fullwaiters := false}).ports p).firstFull=none := by
    rw [setPort_ports,update_self]
    exact firstFull_of_unsent hok hunsent
  obtain ⟨fullwaiters,hwake⟩ := wakeSenders_none hnone
    ((σ.setPort p {σ.ports p with fullwaiters := false}).ports p).waitQueue.length
  unfold proceed at hs
  rw [hplace] at hs
  dsimp only at hs
  split at hs
  · cases hs
  · rw [hwake,setPort_setPort,drain] at hs
    simp only [setPort_ports,update_self,hempty] at hs
    cases hs
    exact ⟨fullwaiters,by simp only [hempty]⟩

/-- Under the condition no thread is ever in the middle of destroying a queue. -/
def Undrained (σ : Queues Port PortSet Thread) : Prop := ∀ u p,(σ.place u).life≠.draining p

lemma proceed_kept (hb : ∀ q,BalanceAt σ q 0) (hok : QueuesOk σ) (hun : Undrained σ)
    {tryLock : Bool} (hsafe : SlotSafe σ t (.proceed tryLock))
    (hs : σ.proceed t tryLock=some (σ',es)) : Kept σ σ' := by
  have hmy := hok.places t
  unfold proceed at hs
  split at hs
  case h_1 p kmsg option timeout hplace =>
    split at hs
    · cases hs
    · cases hs
      exact mqueueSend_kept hb hplace
  case h_2 p kmsg hplace =>
    split at hs
    · cases hs
    · cases hs
      exact (Counts.stay ((Counts.begin hb p).setPort (by rfl) (by rfl) (by rfl))
        (by rw [hplace]; rfl) (by rw [setPort_place,hplace]; rfl)).kept
  case h_3 p kmsg walk hplace => exact posting_kept hb hok hplace hs
  case h_4 s rest option maxSize timeout hplace =>
    cases hs
    exact searching_kept hb hplace tryLock
  case h_5 s option maxSize timeout hplace =>
    split at hs
    · cases hs
    · cases hs
      exact Kept.move hb (by rw [hplace]; rfl) (by rfl) (by rfl) (by rw [hplace]; rfl)
  case h_6 p option maxSize hplace =>
    rw [hplace] at hmy
    have ht : (σ.place t).waitsOn=none := by rw [hplace]; rfl
    have hmine := mine_of_lock (hmy.port p rfl)
    split at hs
    · cases hs
    · rename_i kmsg rest hmessages
      cases hs
      have hsel := (Counts.begin hb p).select hok ht hmine option maxSize hmessages
      refine (hsel.unlockPort.stay ht ?_).kept
      rw [unlockPort,setPort_place,select_place (hok.othersOk ht) hmine,hplace]
      rfl
  case h_7 result hplace =>
    cases hs
    have ht : (σ.place t).waitsOn=none := by rw [hplace]; rfl
    unfold receiveResults
    cases result with
    | awakened => exact Kept.move hb ht rfl rfl (by rw [hplace]; rfl)
    | timedOut | interrupted | restart =>
      exact Kept.move hb ht (by rfl) (by rfl) (by rw [hplace]; rfl)
  case h_8 p hplace =>
    split at hs
    · cases hs
    · cases hs
      exact (Counts.stay ((Counts.begin hb p).setPort (by rfl) (by rfl) (by rfl))
        (by rw [hplace]; rfl) (by rw [setPort_place,hplace]; rfl)).kept
  case h_9 p walk hplace => exact handingOff_kept hb hok hplace hs
  case h_10 p hplace =>
    obtain ⟨hempty,hunsent⟩ := hsafe p (by rw [hplace]; rfl)
    have hs' : σ.proceed t tryLock=some (σ',es) := by
      unfold proceed
      rw [hplace]
      exact hs
    obtain ⟨fullwaiters,rfl⟩ := proceed_destroying hok hplace hempty hunsent hs'
    exact (Counts.stay ((Counts.begin hb p).setPort (by rfl) (by rfl) (by rfl))
      (by rw [hplace]; rfl) (by rw [setPort_place,hplace]; rfl)).kept
  case h_11 p hplace => exact absurd (by rw [hplace]; rfl) (hun t p)
  case h_12 => cases hs

lemma call_kept (hb : ∀ q,BalanceAt σ q 0) (hok : QueuesOk σ) (hplace : σ.place t=.outside)
    (hsafe : SlotSafe σ t a)
    (hs : σ.call t a=some (σ',es)) : Kept σ σ' := by
  have ht : (σ.place t).waitsOn=none := by rw [hplace]; rfl
  unfold call at hs
  split at hs
  case h_1 =>
    split at hs
    · cases hs
      exact Kept.move hb ht rfl rfl (by rw [hplace]; rfl)
    · cases hs
      exact Kept.move hb ht rfl rfl (by rw [hplace]; rfl)
  case h_2 p option maxSize timeout =>
    split at hs
    · cases hs
    · rename_i hlock
      obtain rfl := congrArg Prod.fst (some.inj hs)
      exact receivePort_kept hb hok hplace (mine_of_isSome (by simpa using hlock)) _ _ _
  case h_3 =>
    cases hs
    exact Kept.move hb ht rfl rfl (by rw [hplace]; rfl)
  case h_4 p s kalloc =>
    split at hs
    · cases hs
    · split at hs
      · cases hs
        exact Kept.move hb ht rfl rfl (by rw [hplace]; rfl)
      · cases hs
        exact (Counts.stay (Counts.setSet ((Counts.begin hb p).setPort (by rfl) (by rfl) (by rfl))
          s _) ht (by rw [setSet_place,setPort_place,hplace]; rfl)).kept
  case h_5 p s =>
    split at hs
    · cases hs
    · cases hs
      exact (Counts.stay (Counts.setSet ((Counts.begin hb p).setPort (by rfl) (by rfl) (by rfl))
        s _) ht (by rw [setSet_place,setPort_place,hplace]; rfl)).kept
  case h_6 p qlimit =>
    split at hs
    · cases hs
    · cases hs
      have hnone : ∃ fullwaiters,(if (σ.ports p).qlimit<qlimit
          then σ.wakeSenders p (qlimit-(σ.ports p).qlimit) else σ) =
            σ.setPort p {σ.ports p with fullwaiters := fullwaiters} := by
        split
        · rename_i hlt
          exact wakeSenders_none (hsafe.resolve_left (Nat.not_le.mpr hlt)) _
        · exact ⟨(σ.ports p).fullwaiters,by simp [Queues.setPort]⟩
      obtain ⟨fullwaiters,hwake⟩ := hnone
      dsimp only
      rw [hwake,setPort_setPort]
      exact (Counts.stay ((Counts.begin hb p).recount (e := 0) (Still.refl σ) fun n hn => by
        simpa using hn) ht (by rw [setPort_place,hplace]; rfl)).kept
  case h_7 p seqno =>
    split at hs
    · cases hs
    · cases hs
      exact (Counts.stay ((Counts.begin hb p).setPort (by rfl) (by rfl) (by rfl)) ht
        (by rw [setPort_place,hplace]; rfl)).kept
  case h_8 p =>
    split at hs
    · cases hs
      exact (Counts.stay ((Counts.begin hb p).setPort (by rfl) (by rfl) (by rfl)) ht
        (by rw [setPort_place,hplace]; rfl)).kept
    · cases hs
  case h_9 => cases hs

lemma clearWait_kept (hb : ∀ q,BalanceAt σ q 0) {u : Thread} {result : WaitResult}
    (hs : σ.clearWait u result=some σ') : Kept σ σ' := by
  obtain ⟨hresult,hcleared⟩ := clearWait_cleared hs
  have hslot : (σ.place u).waitsOn≠none → (σ.place u).slot=none ∧
      ((σ.place u).wake result).slot=none := by
    intro hw
    cases hp : σ.place u <;> rw [hp] at hw <;> cases result <;>
      first | exact absurd rfl hw | exact absurd rfl hresult | exact ⟨rfl,rfl⟩
  have hkept : ∀ τ : Queues Port PortSet Thread,τ.place=σ.place →
      (∀ q,(τ.ports q).msgcount=(σ.ports q).msgcount) →
      (∀ q,(τ.ports q).messages=(σ.ports q).messages) → (σ.place u).waitsOn≠none →
      Kept σ (τ.wake u result) := by
    intro τ hτ hc hm hw
    obtain ⟨hold,hnew⟩ := hslot hw
    refine ⟨fun q => (hb q).congr (fun v => ?_) (hc q) (by rw [wake,setPlace_ports,hm]),
      fun r q kmsg hr hp => ?_⟩
    · rw [wake,setPlace_place,hτ]
      by_cases hv : v=u
      · subst v
        simp [hold,hnew]
      · simp [hv]
    · rw [wake,setPlace_place,update_apply,hτ] at hp
      split at hp
      · rw [hnew] at hp
        cases hp
      · rw [hr] at hp
        cases hp
  cases hcleared with
  | port p e hlock hwait =>
    refine hkept _ rfl (fun q => ?_) (fun q => ?_) (by rw [hwait]; exact some_ne_none _)
    · rw [setPort_ports,update_apply]
      split
      · subst q
        rfl
      · rfl
    · rw [setPort_ports,update_apply]
      split
      · subst q
        rfl
      · rfl
  | set s hlock hwait =>
    exact hkept _ rfl (fun _ => rfl) (fun _ => rfl) (by rw [hwait]; exact some_ne_none _)

lemma step_kept (hb : ∀ q,BalanceAt σ q 0) (hok : QueuesOk σ) (hun : Undrained σ)
    (hsafe : SlotSafe σ t a)
    (hs : σ.step t a=some (σ',es)) : Kept σ σ' := by
  unfold step at hs
  split at hs
  case h_1 => exact proceed_kept hb hok hun hsafe hs
  case h_2 =>
    obtain ⟨τ,hclear,he⟩ := map_eq_some_iff.mp hs
    cases he
    exact clearWait_kept hb hclear
  case h_3 =>
    split at hs
    case h_1 _ hplace | h_2 hplace | h_3 hplace =>
      cases hs
      exact Kept.move hb (by rw [hplace]; rfl) rfl rfl (by rw [hplace]; rfl)
    case h_4 => cases hs
  case h_4 =>
    split at hs
    · rename_i hplace
      exact call_kept hb hok hplace hsafe hs
    · cases hs

lemma step_undrained (hok : QueuesOk σ) (hun : Undrained σ)
    (hsafe : SlotSafe σ t a)
    (hs : σ.step t a=some (σ',es)) : Undrained σ' := by
  intro u p hu
  have hlives := step_lives hs
  by_cases hut : u=t
  · subst u
    have hturn := hlives.turn
    rw [hu] at hturn
    generalize hl : (σ.place t).life=l at hturn
    cases hturn with
    | same => exact hun t p hl
    | drain =>
      rcases step_destroying hl hs with ⟨tryLock,rfl⟩ | ⟨he,-⟩
      · obtain ⟨hempty,hunsent⟩ := hsafe p hl
        obtain ⟨fullwaiters,rfl⟩ :=
          proceed_destroying hok (destroying_of_life hl) hempty hunsent hs
        rw [setPlace_place,update_self] at hu
        cases hu
      · rw [hu] at he
        cases he
  · rcases (hlives.others u hut).life with he | he
    · exact hun u p (he▸hu)
    · rw [hu] at he
      cases he

end Steps

/-- What holds after every run under the condition, with its record. -/
structure CountOk (σ : Queues Port PortSet Thread) (tr : List (QueueEvent Port Thread)) :
    Prop where
  queues : QueuesOk σ
  balance : ∀ p,BalanceAt σ p 0
  ends : EndsOk σ tr
  undrained : Undrained σ
  noneLate : NoneLate tr

lemma start_countOk (ith : Thread → Ith) (vmPrivilege : Thread → Bool) :
    CountOk (start ith vmPrivilege : Queues Port PortSet Thread) [] where
  queues := start_ok ith vmPrivilege
  balance := fun _ => ⟨0,⟨[],nodup_nil,fun _ => ⟨fun h => absurd h not_mem_nil,nofun⟩,
    rfl⟩,rfl⟩
  ends := start_endsOk ith vmPrivilege
  undrained := fun _ _ h => nomatch h
  noneLate := .nil

lemma step_countOk {tr : List (QueueEvent Port Thread)} {a : QueueAction Port PortSet Thread}
    {es : List (QueueEvent Port Thread)} (h : CountOk σ tr) (hsafe : SlotSafe σ t a)
    (hs : σ.step t a=some (σ',es)) : CountOk σ' (tr++es) where
  queues := h.queues.step hs
  balance := (step_kept h.balance h.queues h.undrained hsafe hs).balance
  ends := by
    refine (step_lives hs).endsOk h.ends fun p hp => ?_
    rcases step_destroying hp hs with ⟨tryLock,rfl⟩ | hstay
    · exact .inl (hsafe p hp).2
    · exact .inr hstay
  undrained := step_undrained h.queues h.undrained hsafe hs
  noneLate := (step_lives hs).noneLate h.ends h.noneLate

/-- In every run under the condition, the count of each queue is the number of its messages plus
the number of the threads that have a slot there and have not posted, among them every blocked
sender that has been awakened; a step that awakens one leaves the count within the limit; and
nothing is posted on a queue that has been destroyed. -/
theorem msgcount_run {ith : Thread → Ith} {vmPrivilege : Thread → Bool}
    {as : List (Thread × QueueAction Port PortSet Thread)} {σ : Queues Port PortSet Thread}
    {tr : List (QueueEvent Port Thread)} (hsafe : Meets SlotSafe (start ith vmPrivilege) as)
    (hr : (start ith vmPrivilege).run as=some (σ,tr)) : (∀ p,∃ owners : List Thread,owners.Nodup ∧
      (∀ t,t∈owners ↔ (σ.place t).slot=some p) ∧
      (σ.ports p).msgcount=((σ.ports p).messages.length+owners.length)%2^32) ∧
    (∀ t a σ' es,SlotSafe σ t a → σ.step t a=some (σ',es) → ∀ r p kmsg,
      σ.place r=.blockedSend p kmsg → (σ'.place r).slot=some p →
      (σ'.ports p).msgcount≤(σ'.ports p).qlimit) ∧ NoneLate tr := by
  have hok : CountOk σ ([]++tr) := run_induction
    (fun _ _ _ _ _ _ h hc hs => step_countOk h hc hs) (start_countOk ith vmPrivilege) hsafe hr
  refine ⟨fun p => ?_,fun t a σ' es ha hs r p kmsg hb hslot => ?_,hok.noneLate⟩
  · obtain ⟨n,⟨owners,hnodup,hmem,rfl⟩,hd⟩ := hok.balance p
    exact ⟨owners,hnodup,hmem,by push_cast at hd; omega⟩
  · exact (step_kept hok.balance hok.queues hok.undrained ha hs).woken r p kmsg hb hslot

instance [Fintype Port] [Fintype Thread] (σ : Queues Port PortSet Thread) (t : Thread) :
    (a : QueueAction Port PortSet Thread) → Decidable (SlotSafe σ t a)
  | .setQlimit p qlimit =>
    inferInstanceAs (Decidable (qlimit≤(σ.ports p).qlimit ∨ (σ.ports p).firstFull=none))
  | .proceed _ => inferInstanceAs (Decidable (∀ p,(σ.place t).life=.destroying p →
      (σ.ports p).messages=[] ∧ ∀ u,(σ.place u).life≠.sending p))
  | .kmsgSend .. | .receive .. | .clearWait .. | .psetAdd .. | .psetRemove .. | .setSeqno ..
  | .destroy .. | .resume => .isTrue trivial

/-- One port with room for one message; thread 0 fills it and thread 1 blocks. -/
def filled : List (Fin 3 × QueueAction (Fin 1) (Fin 1) (Fin 3)) :=
  [(2,.setQlimit 0 1),(2,.resume),(0,.kmsgSend 0 ⟨1,100,false⟩ 0 0),(0,.proceed true),
    (0,.proceed true),(0,.proceed true),(1,.kmsgSend 0 ⟨2,100,false⟩ 0 0),(1,.proceed true)]

def idle : Fin 3 → Ith := fun _ => ⟨0,0,.success,none,0⟩

/-- Thread 2 receives, and its slot goes to the blocked sender. -/
theorem msgcount_run_handedOver : ∃ σ tr,
    (start idle fun _ => false).run (filled++[(2,.receive (.port 0) 0 1000 0)]) =
      some (σ,tr) ∧ (σ.place 1).slot=some 0 ∧
    ∃ owners : List (Fin 3),owners.Nodup ∧ (∀ t,t∈owners ↔ (σ.place t).slot=some 0) ∧
      (σ.ports 0).msgcount=((σ.ports 0).messages.length+owners.length)%2^32 := by
  have hrun : ∃ σ tr,(start idle fun _ => false).run (filled ++
      [(2,.receive (.port 0) 0 1000 0)])=some (σ,tr) ∧ (σ.place 1).slot=some (0 : Fin 1) :=
    ⟨_,_,rfl,by decide⟩
  obtain ⟨σ,tr,hr,hslot⟩ := hrun
  exact ⟨σ,tr,hr,hslot,(msgcount_run (by decide) hr).1 0⟩

/-- Raising the limit wakes the blocked sender without counting its slot; destroying the queue wakes
it as well, and it posts afterwards. -/
theorem woken_uncounted :
    (∃ σ tr,(start idle fun _ => false).run (filled++[(2,.setQlimit 0 2)])=some (σ,tr) ∧
      (σ.ports 0).lock=none ∧
      ¬∃ owners : List (Fin 3),owners.Nodup ∧ (∀ t,t∈owners ↔ (σ.place t).slot=some 0) ∧
        (σ.ports 0).msgcount=((σ.ports 0).messages.length+owners.length)%2^32) ∧
    ∃ σ tr,(start idle fun _ => false).run (filled++[(2,.destroy 0),(2,.proceed true),
      (2,.proceed true),(1,.proceed true),(1,.proceed true)])=some (σ,tr) ∧ ¬NoneLate tr := by
  constructor
  · have hrun : ∃ σ tr,(start idle fun _ => false).run (filled++[(2,.setQlimit 0 2)]) =
        some (σ,tr) ∧ (σ.ports 0).lock=none ∧ (σ.place 1).slot=some (0 : Fin 1) ∧
        (σ.ports 0).msgcount=1 ∧ (σ.ports 0).messages.length=1 :=
      ⟨_,_,rfl,by decide,by decide,by decide,by decide⟩
    obtain ⟨σ,tr,hr,hlock,hslot,hcount,hlen⟩ := hrun
    refine ⟨σ,tr,hr,hlock,?_⟩
    rintro ⟨owners,hnodup,hmem,he⟩
    have hpos := length_pos_of_mem ((hmem 1).mpr hslot)
    have hle := hnodup.length_le_card
    rw [Fintype.card_fin] at hle
    omega
  · refine ⟨_,[.posted 0 ⟨1,100,false⟩,.destroyed 0 ⟨1,100,false⟩,.drained 0] ++
      [.posted 0 ⟨2,100,false⟩],rfl,fun h => ?_⟩
    exact (pairwise_append.mp h).2.2 (.drained 0) (by simp) (.posted 0 ⟨2,100,false⟩)
      (by simp) 0 ⟨2,100,false⟩ rfl rfl

end Queues

end Darwin.Ipc
