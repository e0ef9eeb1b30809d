import Darwin.Kext.DependencyGraph

/-! Loading a module behind the modules that it requires: `KEXTManagerLoadModule` of
`kext.subproj/KEXTManager.c`. -/
open List
namespace Darwin.Kext.Dependencies
open Relation

variable {Name : Type} [DecidableEq Name]

/-- The callbacks of the manager's client that have a say; each may be absent. -/
structure Client (Name : Type) where
  moduleError : Option (Name → KEXTReturn → KEXTReturn)
  moduleWillLoad : Option (Name → Bool)

/-- What the kernel and the manager's settings answer. -/
structure System (Name : Type) where
  disabled : Name → Bool
  safeBoot : Name → Bool
  isLoaded : Name → Bool
  load : Name → List Name → KEXTReturn

/-- What the loop does with a module of the list; a failure may be excused by the client. -/
inductive Event (Name : Type)
  | already (module : Name)
  | refused (module : Name)
  | loaded (module : Name) (deps : List Name)
  | failed (module : Name) (deps : List Name) (result : KEXTReturn) (excused : Bool)
  deriving DecidableEq

def Event.isLoad (module : Name) : Event Name → Bool
  | .loaded name _ => name=module
  | _ => false

/-- The loop over the list, of which the modules `done` have been gone through, with what has
happened to them. -/
def loadLoop (system : System Name) (client : Client Name) :
    List Name → List Name → KEXTReturn → List (Event Name) → KEXTReturn × List (Event Name)
  | [],_,err,events => (err,events)
  | mod1::rest,done,err,events =>
    if system.isLoaded mod1=true ∨ events.any (Event.isLoad mod1)=true then
      match client.moduleError with
      | none => loadLoop system client rest (done++[mod1]) err (events++[.already mod1])
      | some moduleError =>
        let err := moduleError mod1 .moduleAlreadyLoaded
        if err≠.success ∧ err≠.moduleAlreadyLoaded then (err,events++[.already mod1])
        else loadLoop system client rest (done++[mod1]) err (events++[.already mod1])
    else if client.moduleWillLoad.any (fun moduleWillLoad => !moduleWillLoad mod1)=true then
      loadLoop system client rest (done++[mod1]) err (events++[.refused mod1])
    else
      let result := system.load mod1 done
      if result=.success then
        loadLoop system client rest (done++[mod1]) .success (events++[.loaded mod1 done])
      else
        let err := client.moduleError.elim result fun moduleError => moduleError mod1 result
        if err≠.success then (err,events++[.failed mod1 done result false])
        else loadLoop system client rest (done++[mod1]) .success
          (events++[.failed mod1 done result true])

def loadModule (manager : Manager Name) (system : System Name) (client : Client Name)
    (fuel : ℕ) (module : Name) : Option (KEXTReturn × List (Event Name)) :=
  if system.disabled module then some (.moduleDisabled,[])
  else if system.isLoaded module then
    some (client.moduleError.elim .success fun moduleError =>
      moduleError module .moduleAlreadyLoaded,[])
  else if system.safeBoot module=false then some (.moduleDisabled,[])
  else
    match graphDependencies manager fuel [] module with
    | none => none
    | some (result,array) =>
      if result≠.success then some (result,[])
      else some (loadLoop system client array [] .success [])

/-! ### The list -/

variable {manager : Manager Name} {system : System Name} {client : Client Name} {module : Name}
  {array done rest : List Name} {events : List (Event Name)}

lemma graphDependencies_success {fuel : ℕ}
    (h : graphDependencies manager fuel [] module=some (.success,array)) :
    Adds manager [] array (closure manager module) := by
  have hreturns : Returns manager [] module (.success,array) := ⟨fuel,h⟩
  by_cases hsound : Sound manager module
  · obtain ⟨r,hr,⟨-,hadds⟩ | ⟨herror,-⟩⟩ := sound_returns hsound [] listed_nil
    · obtain rfl := hr.unique hreturns
      exact hadds
    · obtain rfl := hr.unique hreturns
      cases herror
  · exfalso
    by_cases hfaulty : Faulty manager module
    · obtain ⟨r,hr,hne⟩ := @faulty_returns _ _ manager [] _ hfaulty listed_nil
      obtain rfl := hr.unique hreturns
      exact hne rfl
    · by_cases hlimited : Limited manager (members []) module
      · obtain ⟨array',hr⟩ := limited_returns listed_nil hlimited
        cases hr.unique hreturns
      · rw [never_returns fuel hsound hfaulty listed_nil hlimited] at h
        cases h

/-! ### The loop -/

def Settled (system : System Name) (events : List (Event Name)) (d : Name) : Prop :=
  system.isLoaded d=true ∨ (∃ deps,.loaded d deps∈events) ∨ .refused d∈events ∨
    ∃ deps result,.failed d deps result true∈events

def Genuine (system : System Name) (client : Client Name) : Event Name → Prop
  | .already _ => True
  | .refused name => ∃ moduleWillLoad∈client.moduleWillLoad,moduleWillLoad name=false
  | .loaded name deps => system.load name deps=.success
  | .failed name deps result excused => system.load name deps=result ∧ result≠.success ∧
      (excused=true → ∃ moduleError∈client.moduleError,moduleError name result=.success)

/-- Modules are loaded once at most, and when what they require is settled. -/
structure Ordered (manager : Manager Name) (system : System Name) (client : Client Name)
    (events : List (Event Name)) : Prop where
  genuine : ∀ event∈events,Genuine system client event
  once : ∀ name,events.countP (Event.isLoad name)≤1
  ordered : ∀ before name deps after,events=before ++ .loaded name deps::after →
    ∀ d,Follows manager name d → (manager.module d).osKernelResource=false → Settled system before d

/-- The loop has gone through `done`. -/
structure Progress (manager : Manager Name) (system : System Name) (client : Client Name)
    (done : List Name) (events : List (Event Name)) : Prop
    extends Ordered manager system client events where
  settled : ∀ d∈done,Settled system events d
  loads : ∀ name deps,.loaded name deps∈events → name∈done
  excused : ∀ name deps result,.failed name deps result false∉events

/-- What the loop comes to. -/
structure InOrder (manager : Manager Name) (system : System Name) (client : Client Name)
    (array : List Name) (result : KEXTReturn) (events : List (Event Name)) : Prop
    extends Ordered manager system client events where
  listed : ∀ name deps,.loaded name deps∈events → name∈array
  reports : ∀ name deps failure,.failed name deps failure false∈events → result≠.success
  complete : result=.success → ∀ d∈array,Settled system events d

omit [DecidableEq Name] in
lemma Settled.append {d : Name} (h : Settled system events d) (more : List (Event Name)) :
    Settled system (events++more) d := by
  rcases h with h | ⟨deps,h⟩ | h | ⟨deps,result,h⟩
  · exact .inl h
  · exact .inr (.inl ⟨deps,mem_append_left _ h⟩)
  · exact .inr (.inr (.inl (mem_append_left _ h)))
  · exact .inr (.inr (.inr ⟨deps,result,mem_append_left _ h⟩))

lemma settled_of_loaded (h : system.isLoaded module=true ∨
    events.any (Event.isLoad module)=true) : Settled system events module := by
  rcases h with h | h
  · exact .inl h
  · obtain ⟨event,hmem,hload⟩ := any_eq_true.mp h
    cases event with
    | loaded name deps =>
      obtain rfl : name=module := of_decide_eq_true hload
      exact .inr (.inl ⟨deps,hmem⟩)
    | already _ => cases hload
    | refused _ => cases hload
    | failed _ _ _ _ => cases hload

lemma Ordered.snoc (h : Progress manager system client done events) (event : Event Name)
    (hgenuine : Genuine system client event) (hmodule : module∉done)
    (hload : ∀ name deps,event=.loaded name deps → name=module)
    (hdeps : ∀ d,Follows manager module d → (manager.module d).osKernelResource=false →
      d∈done) : Ordered manager system client (events++[event]) := by
  refine ⟨fun e he => ?_,fun name => ?_,fun before name deps after hevents d hd hresource => ?_⟩
  · rcases mem_append.mp he with he | he
    · exact h.genuine e he
    · exact mem_singleton.mp he▸hgenuine
  · rw [countP_append,countP_singleton]
    split
    · next hname =>
      have hnone : events.countP (Event.isLoad name)=0 := by
        rw [countP_eq_zero]
        rintro (_ | _ | ⟨name',deps⟩ | _) he hload'
        · cases hload'
        · cases hload'
        · obtain rfl : name'=name := of_decide_eq_true hload'
          cases event with
          | loaded name'' deps' =>
            obtain rfl : name''=name' := of_decide_eq_true hname
            obtain rfl := hload _ _ rfl
            exact hmodule (h.loads _ _ he)
          | already _ => cases hname
          | refused _ => cases hname
          | failed _ _ _ _ => cases hname
        · cases hload'
      omega
    · exact h.once name
  · rcases eq_nil_or_concat' after with rfl | ⟨after,last,rfl⟩
    · obtain ⟨rfl,hlast⟩ := append_inj' hevents rfl
      obtain rfl := hload _ _ (head_eq_of_cons_eq hlast)
      exact h.settled d (hdeps d hd hresource)
    · rw [←cons_append,←append_assoc] at hevents
      exact h.ordered before name deps after (append_inj' hevents rfl).1 d hd hresource

lemma Progress.snoc (h : Progress manager system client done events) (event : Event Name)
    (hgenuine : Genuine system client event) (hmodule : module∉done)
    (hload : ∀ name deps,event=.loaded name deps → name=module)
    (hdeps : ∀ d,Follows manager module d → (manager.module d).osKernelResource=false →
      d∈done) (hsettled : Settled system (events++[event]) module)
    (hexcused : ∀ name deps result,event≠.failed name deps result false) :
    Progress manager system client (done++[module]) (events++[event]) := by
  refine ⟨Ordered.snoc h event hgenuine hmodule hload hdeps,fun d hd => ?_,fun name deps he => ?_,
    fun name deps result he => ?_⟩
  · rcases mem_append.mp hd with hd | hd
    · exact (h.settled d hd).append _
    · exact mem_singleton.mp hd▸hsettled
  · rcases mem_append.mp he with he | he
    · exact mem_append_left _ (h.loads name deps he)
    · rw [hload name deps (mem_singleton.mp he).symm]
      simp
  · rcases mem_append.mp he with he | he
    · exact h.excused name deps result he
    · exact hexcused name deps result (mem_singleton.mp he).symm

lemma Ordered.failed (h : Ordered manager system client events) {result : KEXTReturn}
    (hlisted : ∀ name deps,.loaded name deps∈events → name∈array)
    (hne : result≠.success) : InOrder manager system client array result events :=
  ⟨h,hlisted,fun _ _ _ _ => hne,fun h' => absurd h' hne⟩

lemma loadLoop_inOrder (err : KEXTReturn) (hlisted : Listed manager (done++rest))
    (h : Progress manager system client done events) :
    InOrder manager system client (done++rest) (loadLoop system client rest done err events).1
      (loadLoop system client rest done err events).2 := by
  induction rest generalizing done err events with
  | nil =>
    rw [append_nil]
    exact ⟨h.toOrdered,h.loads,fun name deps failure he => absurd he (h.excused name deps failure),
      fun _ => h.settled⟩
  | cons mod1 rest ih =>
    have hshift : done++mod1::rest=done++[mod1]++rest := by simp
    have hmodule : mod1∉done := by
      have := hlisted.nodup
      rw [nodup_append] at this
      exact fun hmem => this.2.2 mod1 hmem mod1 (by simp) rfl
    have hdeps := hlisted.ordered done mod1 rest rfl
    rw [hshift] at hlisted ⊢
    have hnext := fun err events => @ih (done++[mod1]) events err hlisted
    rw [loadLoop]
    by_cases hloaded : system.isLoaded mod1=true ∨ events.any (Event.isLoad mod1)=true
    · have hsettled := (settled_of_loaded hloaded).append [.already mod1]
      have hprogress := h.snoc (.already mod1) trivial hmodule
        (fun _ _ he => by cases he) hdeps hsettled fun _ _ _ he => by cases he
      rw [if_pos hloaded]
      cases hclient : client.moduleError with
      | none => exact hnext _ _ hprogress
      | some moduleError =>
        simp only
        split
        · next herror =>
          exact hprogress.toOrdered.failed
            (fun name deps he => mem_append_left _ (hprogress.loads name deps he)) herror.1
        · exact hnext _ _ hprogress
    · rw [if_neg hloaded]
      split
      · next hrefused =>
        obtain ⟨moduleWillLoad,hclient,hno⟩ := (Option.any_eq_true ..).mp hrefused
        refine hnext _ _ (h.snoc (.refused mod1) ⟨moduleWillLoad,hclient,by simpa using hno⟩
          hmodule (fun _ _ he => by cases he) hdeps (.inr (.inr (.inl (by simp))))
          fun _ _ _ he => by cases he)
      · simp only
        split
        · next hsuccess =>
          refine hnext _ _ (h.snoc (.loaded mod1 done) hsuccess hmodule (fun _ _ he => ?_)
            hdeps (.inr (.inl ⟨done,by simp⟩)) fun _ _ _ he => by cases he)
          cases he
          rfl
        · next hfailure =>
          split
          · next herror =>
            refine Ordered.failed (Ordered.snoc h (.failed mod1 done (system.load mod1 done) false)
              ⟨rfl,hfailure,fun hx => by cases hx⟩ hmodule (fun _ _ he => by cases he) hdeps)
              (fun name deps he => ?_) herror
            rcases mem_append.mp he with he | he
            · exact mem_append_left _ (mem_append_left _ (h.loads name deps he))
            · cases mem_singleton.mp he
          · next herror =>
            refine hnext _ _ (h.snoc (.failed mod1 done (system.load mod1 done) true)
              ⟨rfl,hfailure,fun _ => ?_⟩ hmodule (fun _ _ he => by cases he) hdeps
              (.inr (.inr (.inr ⟨done,system.load mod1 done,by simp⟩))) fun _ _ _ he => by cases he)
            rw [not_not] at herror
            cases hclient : client.moduleError with
            | none =>
              rw [hclient] at herror
              exact absurd herror hfailure
            | some moduleError =>
              rw [hclient] at herror
              exact ⟨moduleError,rfl,herror⟩

/-! ### The whole call -/

/-- What is promised of a list: it has the modules that are reached through modules other than kernel
resources, but kernel resources, each once and behind those that it requires. -/
structure Complete (manager : Manager Name) (module : Name) (array : List Name) : Prop where
  nodup : array.Nodup
  mem_iff : ∀ y,y∈array ↔ y∈closure manager module
  ordered : ∀ before y after,array=before++y::after → ∀ d,Follows manager y d →
    (manager.module d).osKernelResource=false → d∈before

lemma graphDependencies_complete {fuel : ℕ}
    (h : graphDependencies manager fuel [] module=some (.success,array)) :
    Complete manager module array := by
  obtain ⟨hlisted,hmem⟩ := graphDependencies_success h
  exact ⟨hlisted.nodup,fun y => by simpa using hmem y,hlisted.ordered⟩

/-- The module is not disabled, not loaded yet and allowed in the way the machine was started. -/
def MayLoad (system : System Name) (module : Name) : Prop :=
  system.disabled module=false ∧ system.isLoaded module=false ∧ system.safeBoot module=true

/-- A list that is returned is complete and in order, and loading goes by the list: each module once
at most, when those that it requires are loaded or the client has decided otherwise, with a failure
reported that the client has not excused. Without a list nothing is loaded, and the failure is
reported. -/
theorem loadModule_inOrder (manager : Manager Name) (module : Name) (fuel : ℕ)
    (result : KEXTReturn) (array : List Name)
    (h : graphDependencies manager fuel [] module=some (result,array)) :
    (result=.success → Complete manager module array ∧
      ∀ (system : System Name) (client : Client Name),MayLoad system module →
        ∃ r events,loadModule manager system client fuel module=some (r,events) ∧
          InOrder manager system client array r events) ∧
    (result≠.success → ∀ (system : System Name) (client : Client Name),
      MayLoad system module → loadModule manager system client fuel module=some (result,[])) := by
  refine ⟨?_,?_⟩
  · rintro rfl
    refine ⟨graphDependencies_complete h,fun system client hmay => ?_⟩
    obtain ⟨hdisabled,hloaded,hsafe⟩ := hmay
    have hstart : Progress manager system client [] [] :=
      ⟨⟨fun e he => (by cases he),fun name => (by simp),fun before name deps after he =>
        (by simp at he)⟩,fun d hd => (by cases hd),fun name deps he => (by cases he),
        fun name deps result he => (by cases he)⟩
    refine ⟨(loadLoop system client array [] .success []).1,
      (loadLoop system client array [] .success []).2,?_,
      loadLoop_inOrder .success (graphDependencies_success h).1 hstart⟩
    simp [loadModule,hdisabled,hloaded,hsafe,h]
  · rintro hne system client ⟨hdisabled,hloaded,hsafe⟩
    simp [loadModule,hdisabled,hloaded,hsafe,h,hne]

def driver : Manager ℕ :=
  ⟨Finset.range 3,fun i => ⟨i=1,
    if i=2 then .absent else .dictionary [(i+1,some ['1'])]⟩,fun _ => true⟩

theorem loadModule_inOrder_driver :
    graphDependencies driver 3 [] 0=some (.success,[0]) ∧ Complete driver 0 [0] := by
  have h : graphDependencies driver 3 [] 0=some (.success,[0]) := by decide
  exact ⟨h,((loadModule_inOrder driver 0 3 .success [0] h).1 rfl).1⟩

def pair : Manager ℕ :=
  ⟨Finset.range 2,fun i => ⟨false,if i=1 then .absent else .dictionary [(1,some ['1'])]⟩,
    fun _ => true⟩

def willing : System ℕ :=
  ⟨fun _ => false,fun _ => true,fun _ => false,fun i _ => if i=1 then .other 5 else .success⟩

/-- What a kernel resource requires is not listed; and a module is loaded before a library that the
client refuses to load or whose failure it excuses. -/
theorem library_not_listed : (graphDependencies driver 3 [] 0=some (.success,[0]) ∧
      ReflTransGen (Needs driver) 0 2 ∧ (driver.module 2).osKernelResource=false ∧ 2∉[0]) ∧
    loadModule pair willing ⟨none,some fun i => i=0⟩ 3 0 =
      some (.success,[.refused 1,.loaded 0 [1]]) ∧
    loadModule pair willing ⟨some fun _ _ => .success,none⟩ 3 0 =
      some (.success,[.failed 1 [] (.other 5) true,.loaded 0 [1]]) := by
  have hfirst : Needs driver 0 1 := ⟨Finset.mem_range.mpr (by decide),_,rfl,(1,some ['1']),by simp,rfl⟩
  have hsecond : Needs driver 1 2 := ⟨Finset.mem_range.mpr (by decide),_,rfl,(2,some ['1']),by simp,rfl⟩
  exact ⟨⟨by decide,(ReflTransGen.single hfirst).tail hsecond,rfl,by decide⟩,
    by decide,by decide⟩

end Darwin.Kext.Dependencies
