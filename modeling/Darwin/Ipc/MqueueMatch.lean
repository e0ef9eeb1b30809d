import Darwin.Ipc.MqueueLife

/-! Messages and receivers that wait for them: neither is left waiting for the other. -/
open List Function Option
namespace Darwin.Ipc

variable {Port PortSet Thread : Type}

/-- The port on whose queue a sender looks for a receiver, and what it has still to look at. -/
def Spot.posts : Spot Port PortSet Thread → Option (Port × List (Waiter PortSet Thread))
  | .posting p _ walk => some (p,walk)
  | _ => none

/-- The set through whose ports a receiver searches, and the ports still to come. -/
def Spot.searches : Spot Port PortSet Thread → Option (PortSet × List Port)
  | .searching s rest _ _ _ => some (s,rest)
  | _ => none

variable {place : Spot Port PortSet Thread}

lemma Spot.wake_posts {result : WaitResult} {x}
    (h : (place.wake result).posts=some x) : place.posts=some x := by
  cases place <;> cases result <;> exact h

lemma Spot.wake_searches {result : WaitResult} {x}
    (h : (place.wake result).searches=some x) : place.searches=some x := by
  cases place <;> cases result <;> exact h

lemma Spot.walk_of_posts {x}
    (h : place.posts=some x) : place.walk=some x := by
  cases place <;> cases h
  rfl

lemma Spot.holdsSet_of_searches {s : PortSet}
    {rest : List Port} (h : place.searches=some (s,rest)) : place.holdsSet=some s := by
  cases place <;> cases h
  rfl

namespace Queues

def Idle (σ : Queues Port PortSet Thread) : Waiter PortSet Thread → Prop
  | .thread _ .full => True
  | .thread _ .receive => False
  | .sub s => (σ.sets s).waitQueue=[]

/-- Where a message is queued nobody waits. A sender that has found nobody so far and a receiver
that has found no message so far have not passed each other by. -/
structure Matched (σ : Queues Port PortSet Thread) : Prop where
  idle : ∀ p,(σ.ports p).messages≠[] → ∀ x∈(σ.ports p).waitQueue,Idle σ x
  linked : ∀ p s,.sub s∈(σ.ports p).waitQueue → p∈(σ.sets s).setlinks
  posts : ∀ u p walk,(σ.place u).posts=some (p,walk) → ∀ x∈(σ.ports p).waitQueue,
    x∈walk ∨ (Idle σ x ∧ ∀ s,x=.sub s → ∀ r rest,(σ.place r).searches=some (s,rest) → p∈rest)
  searches : ∀ u s rest,(σ.place u).searches=some (s,rest) →
    ∀ p,.sub s∈(σ.ports p).waitQueue → p∈rest ∨ (σ.ports p).messages=[]

/-- Fewer waiters, fewer messages, fewer threads on their way to each other. -/
structure Smaller (σ σ' : Queues Port PortSet Thread) : Prop where
  port : ∀ p,∀ x∈(σ'.ports p).waitQueue,x∈(σ.ports p).waitQueue
  messages : ∀ p,(σ'.ports p).messages≠[] → (σ.ports p).messages≠[]
  set : ∀ s,(σ.sets s).waitQueue=[] → (σ'.sets s).waitQueue=[]
  links : ∀ p s,.sub s∈(σ'.ports p).waitQueue → p∈(σ.sets s).setlinks → p∈(σ'.sets s).setlinks
  posts : ∀ u x,(σ'.place u).posts=some x → (σ.place u).posts=some x
  searches : ∀ u x,(σ'.place u).searches=some x → (σ.place u).searches=some x

lemma Smaller.refl (σ : Queues Port PortSet Thread) : Smaller σ σ :=
  ⟨fun _ _ h => h,fun _ h => h,fun _ h => h,fun _ _ _ h => h,fun _ _ h => h,fun _ _ h => h⟩

lemma Smaller.trans {σ τ υ : Queues Port PortSet Thread} (h : Smaller σ τ) (g : Smaller τ υ) :
    Smaller σ υ where
  port := fun p x hx => h.port p x (g.port p x hx)
  messages := fun p hp => h.messages p (g.messages p hp)
  set := fun s hs => g.set s (h.set s hs)
  links := fun p s hs hl => g.links p s hs (h.links p s (g.port p _ hs) hl)
  posts := fun u x hx => h.posts u x (g.posts u x hx)
  searches := fun u x hx => h.searches u x (g.searches u x hx)

lemma Smaller.idle {σ σ' : Queues Port PortSet Thread} (h : Smaller σ σ')
    {x : Waiter PortSet Thread} (hx : Idle σ x) : Idle σ' x := by
  cases x with
  | thread r e => cases e <;> exact hx
  | sub s => exact h.set s hx

lemma Matched.smaller {σ σ' : Queues Port PortSet Thread} (h : Matched σ) (hs : Smaller σ σ') :
    Matched σ' where
  idle := fun p hp x hx => hs.idle (h.idle p (hs.messages p hp) x (hs.port p x hx))
  linked := fun p s hx => hs.links p s hx (h.linked p s (hs.port p _ hx))
  posts := by
    intro u p walk hu x hx
    refine (h.posts u p walk (hs.posts u _ hu) x (hs.port p x hx)).imp_right fun hi => ?_
    exact ⟨hs.idle hi.1,fun s hxs r rest hr => hi.2 s hxs r rest (hs.searches r _ hr)⟩
  searches := by
    intro u s rest hu p hx
    refine (h.searches u s rest (hs.searches u _ hu) p (hs.port p _ hx)).imp_right fun hm => ?_
    by_contra hne
    exact hs.messages p hne hm

lemma start_matched (ith : Thread → Ith) (vmPrivilege : Thread → Bool) :
    Matched (start ith vmPrivilege : Queues Port PortSet Thread) where
  idle := fun _ h => absurd rfl h
  linked := fun _ _ h => absurd h not_mem_nil
  posts := fun _ _ _ h => nomatch h
  searches := fun _ _ _ h => nomatch h

set_option linter.unusedSectionVars false

variable [DecidableEq Port] [DecidableEq PortSet] [DecidableEq Thread]
variable {t : Thread} {σ τ : Queues Port PortSet Thread}

lemma Smaller.setPort (h : Smaller σ τ) {p : Port} {mq : Mqueue PortSet Thread}
    (hw : ∀ x∈mq.waitQueue,x∈(τ.ports p).waitQueue)
    (hm : mq.messages≠[] → (τ.ports p).messages≠[]) : Smaller σ (τ.setPort p mq) := by
  refine h.trans ⟨fun q => ?_,fun q => ?_,fun _ hs => hs,fun _ _ _ hl => hl,fun _ _ hx => hx,
    fun _ _ hx => hx⟩
  · rw [setPort_ports,update_apply]
    split
    · subst q
      exact hw
    · exact fun _ hx => hx
  · rw [setPort_ports,update_apply]
    split
    · subst q
      exact hm
    · exact fun hx => hx

lemma Smaller.tune (h : Smaller σ τ) {p : Port} {m : Mqueue PortSet Thread}
    (hw : m.waitQueue=(τ.ports p).waitQueue) (hm : m.messages=(τ.ports p).messages) :
    Smaller σ (τ.setPort p m) :=
  h.setPort (fun _ hx => hw▸hx) fun hx => hm▸hx

lemma Smaller.setSet (h : Smaller σ τ) {s : PortSet} {w : SetQueue Port Thread}
    (hw : (τ.sets s).waitQueue=[] → w.waitQueue=[])
    (hl : ∀ p∈(τ.sets s).setlinks,p∈w.setlinks) : Smaller σ (τ.setSet s w) := by
  refine h.trans ⟨fun _ _ hx => hx,fun _ hm => hm,fun q => ?_,fun p q _ => ?_,fun _ _ hx => hx,
    fun _ _ hx => hx⟩
  · rw [setSet_sets,update_apply]
    split
    · subst q
      exact hw
    · exact fun hx => hx
  · rw [setSet_sets,update_apply]
    split
    · subst q
      exact hl p
    · exact fun hx => hx

lemma Smaller.setIth (h : Smaller σ τ) (r : Thread) (i : Ith) : Smaller σ (τ.setIth r i) :=
  ⟨h.port,h.messages,h.set,h.links,h.posts,h.searches⟩

lemma Smaller.setPlace (h : Smaller σ τ) {r : Thread} {place : Spot Port PortSet Thread}
    (hp : ∀ x,place.posts=some x → (τ.place r).posts=some x)
    (hs : ∀ x,place.searches=some x → (τ.place r).searches=some x) :
    Smaller σ (τ.setPlace r place) := by
  refine h.trans ⟨fun _ _ hx => hx,fun _ hm => hm,fun _ hx => hx,fun _ _ _ hl => hl,
    fun u x => ?_,fun u x => ?_⟩
  · rw [setPlace_place,update_apply]
    split
    · subst u
      exact hp x
    · exact fun hx => hx
  · rw [setPlace_place,update_apply]
    split
    · subst u
      exact hs x
    · exact fun hx => hx

lemma Smaller.leave (h : Smaller σ τ) {r : Thread} {place : Spot Port PortSet Thread}
    (hp : place.posts=none) (hs : place.searches=none) : Smaller σ (τ.setPlace r place) :=
  h.setPlace (fun x hx => by rw [hp] at hx; cases hx) fun x hx => by rw [hs] at hx; cases hx

lemma Smaller.wake (h : Smaller σ τ) (r : Thread) (result : WaitResult) :
    Smaller σ (τ.wake r result) :=
  h.setPlace (fun _ hx => Spot.wake_posts hx) fun _ hx => Spot.wake_searches hx

lemma Smaller.takePort (h : Smaller σ τ) {p : Port} {x : Waiter PortSet Thread}
    {m : Mqueue PortSet Thread} (hw : m.waitQueue=remqueue (τ.ports p).waitQueue x)
    (hm : m.messages=(τ.ports p).messages) : Smaller σ (τ.setPort p m) := by
  refine h.setPort (fun y hy => ?_) fun hx => hm▸hx
  rw [hw] at hy
  exact (mem_remqueue.mp hy).1

lemma Smaller.releaseMsgcount (h : Smaller σ τ) (p : Port) : Smaller σ (τ.releaseMsgcount p) := by
  have hr := releaseMsgcount_released τ p
  generalize τ.releaseMsgcount p=τ' at hr
  cases hr with
  | kept fullwaiters => exact h.tune (by rfl) (by rfl)
  | gave r hr hlt => exact Smaller.wake (h.takePort (by rfl) (by rfl)) r _

lemma Smaller.wakeSenders (h : Smaller σ τ) (p : Port) (n : ℕ) : Smaller σ (τ.wakeSenders p n) := by
  induction n generalizing τ with
  | zero => exact h
  | succ n ih =>
    unfold Queues.wakeSenders
    split
    · exact h.tune (by rfl) (by rfl)
    · exact ih (Smaller.wake (h.takePort (by rfl) (by rfl)) _ _)

lemma remqueue_nil {α : Type} [DecidableEq α] {queue : List α} (h : queue=[]) (x : α) :
    remqueue queue x=[] := by
  subst h
  rfl

lemma Smaller.offer (h : Smaller σ τ) (p : Port) (s : Option PortSet) (r : Thread)
    (kmsg : IpcKmsg) : Smaller σ (τ.offer p s r kmsg) := by
  cases s with
  | none => exact Smaller.wake (Smaller.setIth (h.takePort (by rfl) (by rfl)) _ _) r _
  | some s =>
    refine Smaller.wake (Smaller.setIth (h.setSet (fun hs => remqueue_nil hs r) ?_) _ _) r _
    exact fun _ hp => hp

lemma Smaller.unlockPort (h : Smaller σ τ) (p : Port) : Smaller σ (τ.unlockPort p) :=
  h.tune (by rfl) (by rfl)

lemma Smaller.nextSeqno (h : Smaller σ τ) (p : Port) : Smaller σ (τ.nextSeqno p) :=
  h.tune (by rfl) (by rfl)

lemma Smaller.unlockSet (h : Smaller σ τ) (s : PortSet) : Smaller σ (τ.unlockSet s) :=
  h.setSet (by exact fun hs => hs) (by exact fun _ hp => hp)

lemma Smaller.select (h : Smaller σ τ) {p : Port} (option maxSize : ℕ) {kmsg : IpcKmsg}
    {rest : List IpcKmsg} (hm : (τ.ports p).messages=kmsg::rest) :
    Smaller σ (τ.select t p option maxSize kmsg rest).1 := by
  unfold Queues.select
  extract_lets mr
  split
  · exact h.setIth t _
  · refine Smaller.setIth (Smaller.nextSeqno (Smaller.releaseMsgcount (h.setPort ?_ ?_) p) p) t _
    · exact fun _ hx => hx
    · rw [hm]
      exact fun _ => cons_ne_nil _ _

section Moves

lemma searches_setPlace {place : Spot Port PortSet Thread} (hs : place.searches=none)
    {r : Thread} {x : PortSet × List Port}
    (hr : ((σ.setPlace t place).place r).searches=some x) : (σ.place r).searches=some x := by
  rw [setPlace_place,update_apply] at hr
  split at hr
  · rw [hs] at hr
    cases hr
  · exact hr

variable {p : Port}

lemma Matched.beginWalk (h : Matched σ) {place : Spot Port PortSet Thread}
    (hp : place.posts=some (p,(σ.ports p).waitQueue)) (hs : place.searches=none) :
    Matched (σ.setPlace t place) where
  idle := h.idle
  linked := h.linked
  posts := by
    intro u q walk hu x hx
    rw [setPlace_place,update_apply] at hu
    split at hu
    · rw [hp] at hu
      cases hu
      exact .inl hx
    · exact (h.posts u q walk hu x hx).imp_right fun hi =>
        ⟨hi.1,fun s hxs r rest hr => hi.2 s hxs r rest (searches_setPlace hs hr)⟩
  searches := fun u s rest hu => h.searches u s rest (searches_setPlace hs hu)

lemma Matched.skip (h : Matched σ) {kmsg : IpcKmsg} {x : Waiter PortSet Thread}
    {walk : List (Waiter PortSet Thread)} (hplace : σ.place t=.posting p kmsg (x::walk))
    (hi : Idle σ x) (hs : ∀ s,x=.sub s → ∀ r rest,(σ.place r).searches≠some (s,rest)) :
    Matched (σ.setPlace t (.posting p kmsg walk)) where
  idle := h.idle
  linked := h.linked
  posts := by
    intro u q walk' hu y hy
    rw [setPlace_place,update_apply] at hu
    split at hu
    · cases hu
      have hold := h.posts t p (x::walk) (by rw [hplace]; rfl) y hy
      rcases hold with hmem | hidle
      · rcases mem_cons.mp hmem with rfl | hmem
        · exact .inr ⟨hi,fun s hxs r rest hr => absurd (searches_setPlace (by rfl) hr) (hs s hxs r rest)⟩
        · exact .inl hmem
      · exact .inr ⟨hidle.1,fun s hxs r rest hr => hidle.2 s hxs r rest (searches_setPlace (by rfl) hr)⟩
    · exact (h.posts u q walk' hu y hy).imp_right fun hidle =>
        ⟨hidle.1,fun s hxs r rest hr => hidle.2 s hxs r rest (searches_setPlace (by rfl) hr)⟩
  searches := fun u s rest hu => h.searches u s rest (searches_setPlace (by rfl) hu)

lemma Matched.enqueue (h : Matched σ) {kmsg : IpcKmsg}
    (hplace : σ.place t=.posting p kmsg []) (messages : List IpcKmsg) :
    Matched (σ.setPort p {σ.ports p with messages := messages}) := by
  have hfound := h.posts t p [] (by rw [hplace]; rfl)
  have hwait : ∀ q,((σ.setPort p {σ.ports p with messages := messages}).ports q).waitQueue =
      (σ.ports q).waitQueue := by
    intro q
    by_cases hq : q=p
    · subst q
      simp
    · simp [hq]
  refine ⟨fun q hq x hx => ?_,fun q s hx => ?_,fun u q walk hu x hx => ?_,
    fun u s rest hu q hx => ?_⟩
  · rw [hwait] at hx
    by_cases hqp : q=p
    · subst q
      exact ((hfound x hx).resolve_left not_mem_nil).1
    · rw [setPort_ports,update_of_ne hqp] at hq
      exact h.idle q hq x hx
  · rw [hwait] at hx
    exact h.linked q s hx
  · rw [hwait] at hx
    exact h.posts u q walk hu x hx
  · rw [hwait] at hx
    by_cases hqp : q=p
    · subst q
      exact .inl (((hfound _ hx).resolve_left not_mem_nil).2 s rfl u rest hu)
    · rw [setPort_ports,update_of_ne hqp]
      exact h.searches u s rest hu q hx

lemma Matched.blockPort (h : Matched σ) {y : Waiter PortSet Thread}
    (hy : Idle σ y ∨ ((σ.ports p).messages=[] ∧ ∀ u walk,(σ.place u).posts≠some (p,walk)))
    (hsub : ∀ s,y≠.sub s) {m : Mqueue PortSet Thread}
    (hw : ∀ x∈m.waitQueue,x=y ∨ x∈(σ.ports p).waitQueue)
    (hm : m.messages=(σ.ports p).messages) : Matched (σ.setPort p m) := by
  have hmsg : ∀ q,((σ.setPort p m).ports q).messages=(σ.ports q).messages := by
    intro q
    by_cases hq : q=p
    · subst q
      simpa using hm
    · simp [hq]
  have hwait : ∀ q,∀ x∈((σ.setPort p m).ports q).waitQueue,
      (q=p ∧ x=y) ∨ x∈(σ.ports q).waitQueue := by
    intro q x hx
    rw [setPort_ports,update_apply] at hx
    split at hx
    · subst q
      exact (hw x hx).imp_left fun he => ⟨rfl,he⟩
    · exact .inr hx
  refine ⟨fun q hq x hx => ?_,fun q s hx => ?_,fun u q walk hu x hx => ?_,
    fun u s rest hu q hx => ?_⟩
  · rw [hmsg] at hq
    rcases hwait q x hx with ⟨rfl,rfl⟩ | hx
    · rcases hy with hy | hy
      · exact hy
      · exact absurd hy.1 hq
    · exact h.idle q hq x hx
  · rcases hwait q _ hx with ⟨-,he⟩ | hx
    · exact absurd he.symm (hsub s)
    · exact h.linked q s hx
  · rcases hwait q x hx with ⟨rfl,rfl⟩ | hx
    · rcases hy with hy | hy
      · exact .inr ⟨hy,fun s hs => absurd hs (hsub s)⟩
      · exact absurd hu (hy.2 u walk)
    · exact h.posts u q walk hu x hx
  · rcases hwait q _ hx with ⟨-,he⟩ | hx
    · exact absurd he.symm (hsub s)
    · rw [hmsg]
      exact h.searches u s rest hu q hx

lemma Matched.blockSet (h : Matched σ) {s : PortSet}
    (hplace : (σ.place t).searches=some (s,[])) {w : SetQueue Port Thread}
    (hl : w.setlinks=(σ.sets s).setlinks) : Matched (σ.setSet s w) := by
  have hidle : ∀ x : Waiter PortSet Thread,x≠.sub s → Idle σ x → Idle (σ.setSet s w) x := by
    intro x hx hi
    cases x with
    | thread r e => cases e <;> exact hi
    | sub s' =>
      have hne : s'≠s := fun he => hx (congrArg Waiter.sub he)
      rw [Idle,setSet_sets,update_of_ne hne]
      exact hi
  refine ⟨fun q hq x hx => ?_,fun q s' hx => ?_,fun u q walk hu x hx => ?_,h.searches⟩
  · refine hidle x ?_ (h.idle q hq x hx)
    rintro rfl
    rcases h.searches t s [] hplace q hx with hm | hm
    · exact not_mem_nil hm
    · exact hq hm
  · rw [setSet_sets,update_apply]
    split
    · subst s'
      rw [hl]
      exact h.linked q s hx
    · exact h.linked q s' hx
  · rcases h.posts u q walk hu x hx with hx | ⟨hi,hs⟩
    · exact .inl hx
    · refine .inr ⟨hidle x ?_ hi,hs⟩
      rintro rfl
      exact not_mem_nil (hs s rfl t [] hplace)

lemma Matched.beginSearch (h : Matched σ) {s : PortSet} (option maxSize timeout : ℕ) :
    Matched (σ.setPlace t (.searching s (σ.sets s).setlinks option maxSize timeout)) where
  idle := h.idle
  linked := h.linked
  posts := by
    intro u p walk hu x hx
    rw [setPlace_place,update_apply] at hu
    split at hu
    · cases hu
    · refine (h.posts u p walk hu x hx).imp_right fun hi => ⟨hi.1,fun s' hxs r rest hr => ?_⟩
      rw [setPlace_place,update_apply] at hr
      split at hr
      · cases hr
        subst x
        exact h.linked p s hx
      · exact hi.2 s' hxs r rest hr
  searches := by
    intro u s' rest hu p hx
    rw [setPlace_place,update_apply] at hu
    split at hu
    · cases hu
      exact .inl (h.linked p s hx)
    · exact h.searches u s' rest hu p hx

lemma Matched.pass (h : Matched σ) {s : PortSet} {rest : List Port}
    {option maxSize timeout : ℕ}
    (hplace : σ.place t=.searching s (p::rest) option maxSize timeout)
    (hm : (σ.ports p).messages=[]) (hp : ∀ u walk,(σ.place u).posts≠some (p,walk)) :
    Matched (σ.setPlace t (.searching s rest option maxSize timeout)) where
  idle := h.idle
  linked := h.linked
  posts := by
    intro u q walk hu x hx
    rw [setPlace_place,update_apply] at hu
    split at hu
    · cases hu
    · refine (h.posts u q walk hu x hx).imp_right fun hi => ⟨hi.1,fun s' hxs r rest' hr => ?_⟩
      rw [setPlace_place,update_apply] at hr
      split at hr
      · cases hr
        have hmem := hi.2 s hxs t (p::rest) (by rw [hplace]; rfl)
        rcases mem_cons.mp hmem with rfl | hmem
        · exact absurd hu (hp u walk)
        · exact hmem
      · exact hi.2 s' hxs r rest' hr
  searches := by
    intro u s' rest' hu q hx
    rw [setPlace_place,update_apply] at hu
    split at hu
    · cases hu
      rcases h.searches t s (p::rest) (by rw [hplace]; rfl) q hx with hq | hq
      · rcases mem_cons.mp hq with rfl | hq
        · exact .inr hm
        · exact .inl hq
      · exact .inr hq
    · exact h.searches u s' rest' hu q hx

lemma Matched.link (h : Matched σ) {s : PortSet}
    (hcond : (σ.ports p).messages=[] ∨ (σ.sets s).waitQueue=[])
    (hp : ∀ u walk,(σ.place u).posts≠some (p,walk))
    (hs : ∀ u rest,(σ.place u).searches≠some (s,rest)) :
    Matched ((σ.setPort p { σ.ports p with
      waitQueue := (σ.ports p).waitQueue++[.sub s]}).setSet s { σ.sets s with
        setlinks := (σ.sets s).setlinks++[p]}) := by
  have hwait : ∀ q,∀ x∈((σ.setPort p { σ.ports p with
      waitQueue := (σ.ports p).waitQueue++[.sub s]}).ports q).waitQueue,
      (q=p ∧ x=.sub s) ∨ x∈(σ.ports q).waitQueue := by
    intro q x hx
    rw [setPort_ports,update_apply] at hx
    split at hx
    · subst q
      rcases mem_append.mp hx with hx | hx
      · exact .inr hx
      · exact .inl ⟨rfl,mem_singleton.mp hx⟩
    · exact .inr hx
  have hmsg : ∀ q,((σ.setPort p { σ.ports p with
      waitQueue := (σ.ports p).waitQueue++[.sub s]}).ports q).messages=(σ.ports q).messages := by
    intro q
    by_cases hq : q=p
    · subst q
      simp
    · simp [hq]
  have hidle : ∀ x : Waiter PortSet Thread,Idle σ x → Idle ((σ.setPort p { σ.ports p with
      waitQueue := (σ.ports p).waitQueue++[.sub s]}).setSet s { σ.sets s with
        setlinks := (σ.sets s).setlinks++[p]}) x := by
    intro x hi
    cases x with
    | thread r e => cases e <;> exact hi
    | sub s' =>
      rw [Idle,setSet_sets,update_apply]
      split
      · subst s'
        exact hi
      · exact hi
  refine ⟨fun q hq x hx => ?_,fun q s' hx => ?_,fun u q walk hu x hx => ?_,
    fun u s' rest hu q hx => ?_⟩
  · rw [setSet_ports,hmsg] at hq
    rcases hwait q x hx with ⟨rfl,rfl⟩ | hx
    · exact hidle _ (hcond.resolve_left hq)
    · exact hidle x (h.idle q hq x hx)
  · rw [setSet_sets,update_apply]
    rcases hwait q _ hx with ⟨rfl,he⟩ | hx
    · cases he
      rw [if_pos rfl]
      exact mem_append_right _ (mem_singleton.mpr rfl)
    · split
      · subst s'
        exact mem_append_left _ (h.linked q s hx)
      · exact h.linked q s' hx
  · rcases hwait q x hx with ⟨rfl,-⟩ | hx
    · exact absurd hu (hp u walk)
    · exact (h.posts u q walk hu x hx).imp_right fun hi => ⟨hidle x hi.1,hi.2⟩
  · rw [setSet_ports,hmsg]
    rcases hwait q _ hx with ⟨-,he⟩ | hx
    · cases he
      exact absurd hu (hs u rest)
    · exact h.searches u s' rest hu q hx

end Moves

section Steps

/-- The condition: a port joins a set only while it has no message or nobody waits on the set, and a
queue is destroyed only when nobody is sending to it. -/
def MatchSafe (σ : Queues Port PortSet Thread) (t : Thread) : QueueAction Port PortSet Thread → Prop
  | .psetAdd p s _ => (σ.ports p).messages=[] ∨ (σ.sets s).waitQueue=[]
  | .proceed _ => ∀ p,(σ.place t).life=.destroying p → ∀ u,(σ.place u).life≠.sending p
  | _ => True

variable {σ' : Queues Port PortSet Thread}

lemma QueuesOk.no_posts (hok : QueuesOk σ) {p : Port} (hp : (σ.ports p).lock.isSome=false)
    (u : Thread) (walk : List (Waiter PortSet Thread)) : (σ.place u).posts≠some (p,walk) := by
  intro hu
  have hlock := (hok.places u).port p (Spot.holdsPort_of_walk (Spot.walk_of_posts hu))
  rw [hlock] at hp
  cases hp

lemma QueuesOk.no_searches (hok : QueuesOk σ) {s : PortSet}
    (hs : (σ.sets s).lock.isSome=false) (u : Thread) (rest : List Port) :
    (σ.place u).searches≠some (s,rest) := by
  intro hu
  have hlock := (hok.places u).set s (Spot.holdsSet_of_searches hu)
  rw [hlock] at hs
  cases hs

lemma pick_skipped {walk walk' : List (Waiter PortSet Thread)}
    (h : σ.pick walk=some (.skip walk')) : ∃ x,walk=x::walk' ∧ Idle σ x ∧
      ∀ s,x=.sub s → (σ.sets s).lock.isSome=false := by
  unfold pick at h
  split at h
  · cases h
  · cases h
  · cases h
    exact ⟨_,rfl,trivial,fun s hs => nomatch hs⟩
  · split at h
    · cases h
    · rename_i s walk hlock
      split at h
      · rename_i hempty
        cases h
        refine ⟨_,rfl,hempty,fun s' hs => ?_⟩
        cases hs
        simpa using hlock
      · cases h

variable {es : List (QueueEvent Port Thread)} {walk : List (Waiter PortSet Thread)}

lemma pick_nobody (h : σ.pick walk=some .nobody) : walk=[] := by
  unfold pick at h
  split at h
  · rfl
  · cases h
  · cases h
  · split at h
    · cases h
    · split at h <;> cases h

lemma mqueueSend_matched (h : Matched σ) (p : Port) (kmsg : IpcKmsg) (option timeout : ℕ) :
    Matched (σ.mqueueSend t p kmsg option timeout) := by
  have hrefl := Smaller.refl σ
  simp only [mqueueSend]
  split
  · exact h.smaller (Smaller.leave (hrefl.tune (by rfl) (by rfl)) rfl rfl)
  · split
    · exact h.smaller (hrefl.leave rfl rfl)
    · have hblock := h.blockPort (p := p) (y := .thread t .full) (.inl trivial)
        (fun _ hs => by cases hs) (m := { σ.ports p with
          fullwaiters := true
          waitQueue := σ.assertWait t (.thread t .full) (σ.ports p).waitQueue})
        (fun x hx => mem_assertWait hx) rfl
      exact hblock.smaller ((Smaller.refl _).leave rfl rfl)

lemma receivePort_matched (h : Matched σ) (hok : QueuesOk σ) {p : Port}
    (hp : (σ.ports p).lock.isSome=false) (option maxSize timeout : ℕ) :
    Matched (σ.receivePort t p option maxSize timeout).1 := by
  have hrefl := Smaller.refl σ
  unfold receivePort
  split
  · rename_i kmsg rest hmessages
    exact h.smaller ((hrefl.select option maxSize hmessages).leave rfl rfl)
  · rename_i hempty
    split
    · exact h.smaller ((hrefl.setIth t _).leave rfl rfl)
    · have hblock := h.blockPort (p := p) (y := .thread t .receive)
        (.inr ⟨hempty,hok.no_posts hp⟩) (fun _ hs => nomatch hs) (m := { σ.ports p with
          waitQueue := σ.assertWait t (.thread t .receive) (σ.ports p).waitQueue})
        (fun x hx => mem_assertWait hx) rfl
      exact hblock.smaller (((Smaller.refl _).setIth t _).leave rfl rfl)

lemma posting_matched (h : Matched σ) (hok : QueuesOk σ) {p : Port} {kmsg : IpcKmsg}
    (hplace : σ.place t=.posting p kmsg walk)
    (hs : σ.posting t p kmsg walk=some (σ',es)) : Matched σ' := by
  have hrefl := Smaller.refl σ
  unfold posting at hs
  split at hs
  · cases hs
  · rename_i walk' hpick
    cases hs
    obtain ⟨x,rfl,hidle,hlock⟩ := pick_skipped hpick
    exact h.skip hplace hidle fun s hx r rest => hok.no_searches (hlock s hx) r rest
  · rename_i hpick
    cases hs
    rw [pick_nobody hpick] at hplace
    have hqueued := h.enqueue hplace ((σ.ports p).messages++[kmsg])
    exact hqueued.smaller (((Smaller.refl _).unlockPort p).leave rfl rfl)
  · rename_i s r hpick
    split at hs
    · cases hs
      exact h.smaller (((((hrefl.offer p s r kmsg).nextSeqno p).releaseMsgcount p).unlockPort
        p).leave rfl rfl)
    · cases hs
      exact (h.smaller (hrefl.offer p s r kmsg)).beginWalk rfl rfl

lemma handingOff_matched (h : Matched σ) {p : Port}
    (hs : σ.handingOff t p walk=some (σ',es)) : Matched σ' := by
  have hrefl := Smaller.refl σ
  unfold handingOff at hs
  split at hs
  · cases hs
    exact h.smaller ((hrefl.unlockPort p).leave rfl rfl)
  · rename_i kmsg rest hmessages
    split at hs
    · cases hs
    · cases hs
      exact h.smaller (hrefl.leave rfl rfl)
    · cases hs
      exact h.smaller ((hrefl.unlockPort p).leave rfl rfl)
    · rename_i s r hpick
      dsimp only at hs
      split at hs
      · cases hs
        refine h.smaller (Smaller.leave (Smaller.nextSeqno (Smaller.setPort ((hrefl.offer p s r
          kmsg).releaseMsgcount p) (by exact fun _ hx => hx) fun _ => ?_) p) rfl rfl)
        rw [releaseMsgcount_messages,offer_messages,hmessages]
        exact cons_ne_nil _ _
      · cases hs
        exact h.smaller ((hrefl.offer p s r kmsg).leave rfl rfl)

lemma unlink_smaller (σ : Queues Port PortSet Thread) (p : Port) (s : PortSet) :
    Smaller σ ((σ.setPort p { σ.ports p with
      waitQueue := remqueue (σ.ports p).waitQueue (.sub s)}).setSet s { σ.sets s with
        setlinks := remqueue (σ.sets s).setlinks p}) := by
  have hport := (Smaller.refl σ).takePort (p := p) (x := .sub s) (m := { σ.ports p with
    waitQueue := remqueue (σ.ports p).waitQueue (.sub s)}) rfl rfl
  refine ⟨hport.port,hport.messages,fun s' hs => ?_,fun q s' hx hl => ?_,hport.posts,
    hport.searches⟩
  · rw [setSet_sets,update_apply]
    split
    · subst s'
      exact hs
    · exact hs
  · rw [setSet_sets,update_apply]
    split
    · subst s'
      refine mem_remqueue.mpr ⟨hl,?_⟩
      rintro rfl
      rw [setSet_ports,setPort_ports,update_self] at hx
      exact notMem_remqueue _ _ hx
    · exact hl

lemma drain_smaller (h : Smaller σ τ) (p : Port) : Smaller σ (τ.drain t p).1 := by
  unfold drain
  split
  · exact h.leave rfl rfl
  · rename_i kmsg rest hmessages
    refine Smaller.leave (h.setPort (by exact fun _ hx => hx) fun _ => ?_) rfl rfl
    rw [hmessages]
    exact cons_ne_nil _ _

lemma searching_matched (h : Matched σ) (hok : QueuesOk σ) {s : PortSet} {rest : List Port}
    {option maxSize timeout : ℕ}
    (hplace : σ.place t=.searching s rest option maxSize timeout) (tryLock : Bool) :
    Matched (σ.searching t s rest option maxSize timeout tryLock) := by
  have hrefl := Smaller.refl σ
  unfold searching
  split
  · split
    · exact h.smaller (((hrefl.unlockSet s).setIth t _).leave rfl rfl)
    · have hblock := h.blockSet (s := s) (t := t) (by rw [hplace]; rfl) (w := { σ.sets s with
        waitQueue := σ.assertWait t t (σ.sets s).waitQueue,lock := none}) rfl
      exact hblock.smaller (((Smaller.refl _).setIth t _).leave rfl rfl)
  · rename_i p rest
    split
    · rename_i htry
      simp only [Bool.and_eq_true,isNone_iff_eq_none] at htry
      have hp : (σ.ports p).lock.isSome=false := by simp [htry.2]
      split
      · rename_i hempty
        exact h.pass hplace hempty (hok.no_posts hp)
      · refine h.smaller (Smaller.leave (Smaller.tune (hrefl.setSet (by exact fun hs => hs)
          fun q hq => ?_) (by rfl) (by rfl)) rfl rfl)
        by_cases hqp : q=p
        · exact mem_append_right _ (mem_singleton.mpr hqp)
        · exact mem_append_left _ (mem_remqueue.mpr ⟨hq,hqp⟩)
    · exact h.smaller ((hrefl.unlockSet s).leave rfl rfl)

lemma proceed_matched (h : Matched σ) (hok : QueuesOk σ) {tryLock : Bool}
    (hs : σ.proceed t tryLock=some (σ',es)) : Matched σ' := by
  have hrefl := Smaller.refl σ
  unfold proceed at hs
  split at hs
  case h_1 p kmsg option timeout hplace =>
    split at hs
    · cases hs
    · cases hs
      exact mqueueSend_matched h p kmsg option timeout
  case h_2 p kmsg hplace =>
    split at hs
    · cases hs
    · cases hs
      refine (h.smaller (hrefl.tune (p := p) (m := {σ.ports p with lock := some t}) rfl
        rfl)).beginWalk (p := p) ?_ rfl
      simp [Spot.posts]
  case h_3 p kmsg walk hplace => exact posting_matched h hok hplace hs
  case h_4 s rest option maxSize timeout hplace =>
    cases hs
    exact searching_matched h hok hplace tryLock
  case h_5 s option maxSize timeout hplace =>
    split at hs
    · cases hs
    · cases hs
      have hlock := h.smaller (hrefl.setSet (s := s) (w := {σ.sets s with lock := some t})
        (fun hs => hs) fun _ hp => hp)
      have hbegin := hlock.beginSearch (t := t) (s := s) option maxSize timeout
      simpa using hbegin
  case h_6 p option maxSize hplace =>
    split at hs
    · cases hs
    · rename_i kmsg rest hmessages
      cases hs
      exact h.smaller (((hrefl.select option maxSize hmessages).unlockPort p).leave rfl rfl)
  case h_7 result hplace =>
    cases hs
    unfold receiveResults
    cases result with
    | awakened => exact h.smaller (hrefl.leave rfl rfl)
    | timedOut | interrupted | restart => exact h.smaller ((hrefl.setIth t _).leave rfl rfl)
  case h_8 p hplace =>
    split at hs
    · cases hs
    · cases hs
      exact h.smaller (Smaller.leave (hrefl.tune (by rfl) (by rfl)) rfl rfl)
  case h_9 p walk hplace => exact handingOff_matched h hs
  case h_10 p hplace =>
    split at hs
    · cases hs
    · obtain rfl := congrArg Prod.fst (some.inj hs)
      exact h.smaller (drain_smaller (Smaller.wakeSenders (hrefl.tune (by rfl) (by rfl)) p _) p)
  case h_11 p hplace =>
    split at hs
    · cases hs
    · obtain rfl := congrArg Prod.fst (some.inj hs)
      exact h.smaller (drain_smaller hrefl p)
  case h_12 => cases hs

lemma call_matched (h : Matched σ) (hok : QueuesOk σ) {a : QueueAction Port PortSet Thread}
    (hsafe : MatchSafe σ t a)
    (hs : σ.call t a=some (σ',es)) : Matched σ' := by
  have hrefl := Smaller.refl σ
  unfold call at hs
  split at hs
  case h_1 =>
    split at hs
    · cases hs
      exact h.smaller (hrefl.leave rfl rfl)
    · cases hs
      exact h.smaller (hrefl.leave rfl rfl)
  case h_2 p option maxSize timeout =>
    split at hs
    · cases hs
    · rename_i hlock
      obtain rfl := congrArg Prod.fst (some.inj hs)
      exact receivePort_matched h hok (by simpa using hlock) option maxSize timeout
  case h_3 =>
    cases hs
    exact h.smaller (hrefl.leave rfl rfl)
  case h_4 p s kalloc =>
    split at hs
    · cases hs
    · rename_i hlock
      rw [Bool.not_eq_true,Bool.or_eq_false_iff] at hlock
      split at hs
      · cases hs
        exact h.smaller (hrefl.leave rfl rfl)
      · cases hs
        have hlink := h.link hsafe (hok.no_posts hlock.1) (hok.no_searches hlock.2)
        exact hlink.smaller ((Smaller.refl _).leave rfl rfl)
  case h_5 p s =>
    split at hs
    · cases hs
    · cases hs
      exact h.smaller (Smaller.leave (unlink_smaller σ p s) rfl rfl)
  case h_6 p qlimit =>
    split at hs
    · cases hs
    · cases hs
      refine h.smaller (Smaller.leave (Smaller.tune ?_ (by rfl) (by rfl)) rfl rfl)
      split
      · exact hrefl.wakeSenders p _
      · exact hrefl
  case h_7 p seqno =>
    split at hs
    · cases hs
    · cases hs
      exact h.smaller (Smaller.leave (hrefl.tune (by rfl) (by rfl)) rfl rfl)
  case h_8 p =>
    split at hs
    · cases hs
      exact h.smaller (Smaller.leave (hrefl.tune (by rfl) (by rfl)) rfl rfl)
    · cases hs
  case h_9 => cases hs

lemma step_matched (h : Matched σ) (hok : QueuesOk σ) {a : QueueAction Port PortSet Thread}
    (hsafe : MatchSafe σ t a)
    (hs : σ.step t a=some (σ',es)) : Matched σ' := by
  have hrefl := Smaller.refl σ
  unfold step at hs
  split at hs
  case h_1 => exact proceed_matched h hok hs
  case h_2 =>
    obtain ⟨υ,hclear,he⟩ := map_eq_some_iff.mp hs
    cases he
    cases (clearWait_cleared hclear).2 with
    | port p e hlock hwait =>
      exact h.smaller (Smaller.wake (hrefl.takePort (by rfl) (by rfl)) _ _)
    | set s hlock hwait =>
      exact h.smaller (Smaller.wake (hrefl.setSet (by exact fun hs => remqueue_nil hs _)
        (by exact fun _ hp => hp)) _ _)
  case h_3 =>
    split at hs
    case h_1 _ hplace | h_2 hplace | h_3 hplace =>
      cases hs
      exact h.smaller (hrefl.leave rfl rfl)
    case h_4 => cases hs
  case h_4 =>
    split at hs
    · exact call_matched h hok hsafe hs
    · cases hs

end Steps

end Queues

end Darwin.Ipc
