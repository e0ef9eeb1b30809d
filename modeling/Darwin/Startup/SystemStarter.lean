import Mathlib.Tactic.Ring
import Mathlib.Data.List.Nodup
import Mathlib.Data.List.Perm.Basic

/-! Startup items, from `SystemStarter/StartupItems.c`: the choice of the next item and the record of
what its script has done. -/
open List Function
namespace Darwin.Startup

/-- An array of pointers; it has fewer than 2^30 of them in a 32-bit address space. -/
structure CFArray (α : Type) where
  values : List α
  fits : values.length<2^30
  deriving DecidableEq

def priorityFromString : Option String → ℕ
  | some "Last" => 1
  | some "Late" => 2
  | some "None" => 3
  | some "Early" => 4
  | some "First" => 5
  | _ => 3

/-- The parameters of a bundle that the program reads. -/
structure StartupItem (Service : Type) where
  bundlePath : String
  provides : CFArray Service
  requires : Option (CFArray Service)
  uses : Option (CFArray Service)
  orderPreference : Option String
  deriving DecidableEq

inductive RunStatus
  | success
  | failure
  deriving DecidableEq

/-- What becomes of an item that is run. `notStarted` is the loss of its path for lack of memory. -/
inductive Outcome
  | notStarted
  | noExecutable
  | forkFailed
  | waitFailed
  | signalled
  | exited (code : UInt8)
  deriving DecidableEq

variable {Service : Type}

section Choice

variable (aStatusDict : Service → Option RunStatus)

/-- A service counts as missing while nothing or a failure is recorded for it. -/
def unmet (s : Service) : Bool :=
  match aStatusDict s with
  | none | some .failure => true
  | some .success => false

/-- The best item so far in the pass through the waiting list. -/
structure Choice (Service : Type) where
  aNextItem : Option (StartupItem Service)
  aMinFailedUses : ℕ
  aMaxPriority : ℕ

def checkItem (choice : Choice Service) (anItem : StartupItem Service) : Choice Service :=
  if anItem.requires.any fun rs => rs.values.any (unmet aStatusDict) then choice
  else
    let aFailedUsesCount := match anItem.uses with
      | some us => us.values.countP (unmet aStatusDict)
      | none => 0
    let aPriority := priorityFromString anItem.orderPreference
    let winner : Choice Service := ⟨some anItem,aFailedUsesCount,aPriority⟩
    match anItem.uses with
    | some _ =>
      -- another item already won out
      if choice.aMinFailedUses<aFailedUsesCount then choice
      else if aFailedUsesCount<choice.aMinFailedUses then winner
      else if choice.aMaxPriority<aPriority then winner
      else choice
    | none =>
      if 0<choice.aMinFailedUses then winner
      else if choice.aMaxPriority<aPriority then winner
      else choice

def getNext (aWaitingList : List (StartupItem Service)) : Option (StartupItem Service) :=
  (aWaitingList.foldl (checkItem aStatusDict) ⟨none,2^31-1,1⟩).aNextItem

end Choice

section Run

def Outcome.aSuccess : Outcome → Bool
  | .exited _ => true
  | _ => false

variable [DecidableEq Service]

def startupItemRun (anItem : StartupItem Service) (outcome : Outcome)
    (aStatusDict : Service → Option RunStatus) : Service → Option RunStatus :=
  match outcome with
  | .notStarted => aStatusDict
  | outcome => anItem.provides.values.foldl (fun dict s => update dict s
      (some (if outcome.aSuccess then .success else .failure))) aStatusDict

/-- The state of the loop of `system_starter`; `ran` records what has been run. -/
structure Starter (Service : Type) where
  aWaitingList : List (StartupItem Service)
  aStatusDict : Service → Option RunStatus
  aTotal : ℕ
  aCount : ℕ
  ran : List (StartupItem Service × Outcome)

def Starter.start (items : List (StartupItem Service)) : Starter Service :=
  ⟨items,fun _ => none,items.length,0,[]⟩

/-- One turn of the loop of `system_starter`, which waits for the item's script to end. -/
def Starter.turn (σ : Starter Service) (outcome : Outcome) : Option (Starter Service) :=
  if σ.aCount<σ.aTotal then
    (getNext σ.aStatusDict σ.aWaitingList).map fun anItem =>
      ⟨σ.aWaitingList.erase anItem,startupItemRun anItem outcome σ.aStatusDict,σ.aTotal,
        σ.aCount+1,σ.ran++[(anItem,outcome)]⟩
  else none

def Starter.run (σ : Starter Service) : List Outcome → Option (Starter Service)
  | [] => some σ
  | outcome::outcomes => (σ.turn outcome).bind fun σ => run σ outcomes

end Run

end Darwin.Startup

/-! Startup items are run at most once, in an order that their requirements, uses and preferences
allow, and as many of them as can be. -/
namespace Darwin.Startup

variable {Service : Type}

section Choice

variable {aStatusDict : Service → Option RunStatus}

def Ready (aStatusDict : Service → Option RunStatus) (anItem : StartupItem Service) : Prop :=
  ∀ rs,anItem.requires=some rs → ∀ s∈rs.values,unmet aStatusDict s=false

def failedUses (aStatusDict : Service → Option RunStatus) (anItem : StartupItem Service) : ℕ :=
  match anItem.uses with
  | some us => us.values.countP (unmet aStatusDict)
  | none => 0

def Better (aStatusDict : Service → Option RunStatus) (anItem other : StartupItem Service) : Prop :=
  failedUses aStatusDict anItem<failedUses aStatusDict other ∨
    (failedUses aStatusDict anItem=failedUses aStatusDict other ∧
      priorityFromString other.orderPreference≤priorityFromString anItem.orderPreference)

lemma failedUses_lt (anItem : StartupItem Service) : failedUses aStatusDict anItem<2^31-1 := by
  unfold failedUses
  split
  · rename_i us _
    have hle := us.values.countP_le_length (p := unmet aStatusDict)
    have hfits := us.fits
    omega
  · decide

lemma ready_iff (anItem : StartupItem Service) : Ready aStatusDict anItem ↔
    (anItem.requires.any fun rs => rs.values.any (unmet aStatusDict))=false := by
  unfold Ready
  cases anItem.requires with
  | none => simp
  | some rs => simp [any_eq_false]

lemma checkItem_eq (choice : Choice Service) (anItem : StartupItem Service)
    (hready : Ready aStatusDict anItem) : checkItem aStatusDict choice anItem =
      if failedUses aStatusDict anItem<choice.aMinFailedUses ∨
          (failedUses aStatusDict anItem=choice.aMinFailedUses ∧
            choice.aMaxPriority<priorityFromString anItem.orderPreference)
        then ⟨some anItem,failedUses aStatusDict anItem,priorityFromString anItem.orderPreference⟩
        else choice := by
  unfold checkItem
  rw [(ready_iff anItem).mp hready]
  unfold failedUses
  cases anItem.uses with
  | none =>
    dsimp only
    rw [if_neg Bool.false_ne_true]
    split_ifs <;> first | rfl | omega
  | some us =>
    dsimp only
    rw [if_neg Bool.false_ne_true]
    split_ifs <;> first | rfl | omega

lemma checkItem_of_not_ready (choice : Choice Service) (anItem : StartupItem Service)
    (hready : ¬Ready aStatusDict anItem) : checkItem aStatusDict choice anItem=choice := by
  rw [ready_iff,Bool.not_eq_false] at hready
  rw [checkItem,if_pos hready]

def BestOf (aStatusDict : Service → Option RunStatus) (seen : List (StartupItem Service))
    (choice : Choice Service) : Prop :=
  match choice.aNextItem with
  | none => choice.aMinFailedUses=2^31-1 ∧ ∀ x∈seen,¬Ready aStatusDict x
  | some anItem => anItem∈seen ∧ Ready aStatusDict anItem ∧
      choice.aMinFailedUses=failedUses aStatusDict anItem ∧
      choice.aMaxPriority=priorityFromString anItem.orderPreference ∧
      ∀ x∈seen,Ready aStatusDict x → Better aStatusDict anItem x

variable {choice : Choice Service}

lemma BestOf.skip {seen : List (StartupItem Service)}
    (h : BestOf aStatusDict seen choice) {x : StartupItem Service}
    (hx : ∀ anItem,choice.aNextItem=some anItem → Ready aStatusDict x → Better aStatusDict anItem x)
    (hnone : choice.aNextItem=none → ¬Ready aStatusDict x) :
    BestOf aStatusDict (seen++[x]) choice := by
  unfold BestOf at h ⊢
  cases hc : choice.aNextItem with
  | none =>
    rw [hc] at h
    refine ⟨h.1,fun y hy => ?_⟩
    rcases mem_append.mp hy with hy | hy
    · exact h.2 y hy
    · cases mem_singleton.mp hy
      exact hnone hc
  | some anItem =>
    rw [hc] at h
    obtain ⟨hmem,hready,hmin,hmax,hbest⟩ := h
    refine ⟨mem_append_left _ hmem,hready,hmin,hmax,fun y hy hr => ?_⟩
    rcases mem_append.mp hy with hy | hy
    · exact hbest y hy hr
    · cases mem_singleton.mp hy
      exact hx anItem hc hr

lemma BestOf.check {seen : List (StartupItem Service)}
    (h : BestOf aStatusDict seen choice) (x : StartupItem Service) :
    BestOf aStatusDict (seen++[x]) (checkItem aStatusDict choice x) := by
  by_cases hready : Ready aStatusDict x
  · rw [checkItem_eq choice x hready]
    split
    · rename_i hwins
      refine ⟨mem_append_right _ (mem_singleton.mpr rfl),hready,rfl,rfl,?_⟩
      intro y hy hr
      rcases mem_append.mp hy with hy | hy
      · unfold BestOf at h
        cases hc : choice.aNextItem with
        | none =>
          rw [hc] at h
          exact absurd hr (h.2 y hy)
        | some anItem =>
          rw [hc] at h
          have hbest := h.2.2.2.2 y hy hr
          have hmin := h.2.2.1
          have hmax := h.2.2.2.1
          unfold Better at hbest ⊢
          omega
      · cases mem_singleton.mp hy
        exact .inr ⟨rfl,Nat.le_refl _⟩
    · rename_i hloses
      refine h.skip (fun anItem hc _ => ?_) fun hc => ?_
      · unfold BestOf at h
        rw [hc] at h
        have hmin := h.2.2.1
        have hmax := h.2.2.2.1
        unfold Better
        omega
      · unfold BestOf at h
        rw [hc] at h
        have hlt : failedUses aStatusDict x<2^31-1 := failedUses_lt x
        have hmin := h.1
        omega
  · rw [checkItem_of_not_ready choice x hready]
    exact h.skip (fun _ _ hr => absurd hr hready) fun _ => hready

lemma BestOf.foldl {l seen : List (StartupItem Service)}
    (h : BestOf aStatusDict seen choice) :
    BestOf aStatusDict (seen++l) (l.foldl (checkItem aStatusDict) choice) := by
  induction l generalizing seen choice with
  | nil => rwa [append_nil]
  | cons x l ih =>
    have hnext := ih (h.check x)
    rwa [append_assoc] at hnext

lemma getNext_best (l : List (StartupItem Service)) :
    BestOf aStatusDict l (l.foldl (checkItem aStatusDict) ⟨none,2^31-1,1⟩) := by
  have hstart : BestOf aStatusDict [] (⟨none,2^31-1,1⟩ : Choice Service) :=
    ⟨rfl,fun _ hx => absurd hx not_mem_nil⟩
  exact hstart.foldl

lemma getNext_some {l : List (StartupItem Service)} {anItem : StartupItem Service}
    (h : getNext aStatusDict l=some anItem) : anItem∈l ∧ Ready aStatusDict anItem ∧
      ∀ x∈l,Ready aStatusDict x → Better aStatusDict anItem x := by
  have hbest : BestOf aStatusDict l _ := getNext_best l
  unfold BestOf at hbest
  unfold getNext at h
  rw [h] at hbest
  exact ⟨hbest.1,hbest.2.1,hbest.2.2.2.2⟩

lemma getNext_none {l : List (StartupItem Service)} (h : getNext aStatusDict l=none) :
    ∀ x∈l,¬Ready aStatusDict x := by
  have hbest : BestOf aStatusDict l _ := getNext_best l
  unfold BestOf at hbest
  unfold getNext at h
  rw [h] at hbest
  exact hbest.2

end Choice

section Run

variable [DecidableEq Service] {σ σ' : Starter Service}
variable {ran : List (StartupItem Service × Outcome)}

def Provided (ran : List (StartupItem Service × Outcome)) (s : Service) : Prop :=
  ∃ x∈ran,s∈x.1.provides.values ∧ x.2=.exited 0

instance (ran : List (StartupItem Service × Outcome)) (s : Service) : Decidable (Provided ran s) :=
  inferInstanceAs (Decidable (∃ x∈ran,s∈x.1.provides.values ∧ x.2=.exited 0))

def Startable (ran : List (StartupItem Service × Outcome)) (anItem : StartupItem Service) : Prop :=
  ∀ rs,anItem.requires=some rs → ∀ s∈rs.values,Provided ran s

def unmetUses (ran : List (StartupItem Service × Outcome)) (anItem : StartupItem Service) : ℕ :=
  match anItem.uses with
  | some us => us.values.countP fun s => ¬Provided ran s
  | none => 0

def Precedes (ran : List (StartupItem Service × Outcome))
    (anItem other : StartupItem Service) : Prop :=
  unmetUses ran anItem<unmetUses ran other ∨ (unmetUses ran anItem=unmetUses ran other ∧
      priorityFromString other.orderPreference≤priorityFromString anItem.orderPreference)

/-- The condition: a script that exits does so with 0, the wait for it does not fail, and an item
that fails provides nothing that is recorded as a success. -/
def TurnOk (σ : Starter Service) (outcome : Outcome) : Prop :=
  (∀ code,outcome=.exited code → code=0) ∧ outcome≠.waitFailed ∧
    (outcome≠.exited 0 → ∀ anItem∈getNext σ.aStatusDict σ.aWaitingList,
      ∀ s∈anItem.provides.values,σ.aStatusDict s≠some .success)

def AllTurnsOk (σ : Starter Service) : List Outcome → Prop
  | [] => True
  | outcome::outcomes => TurnOk σ outcome ∧ ∀ σ'∈σ.turn outcome,AllTurnsOk σ' outcomes

section Record

def Faithful (aStatusDict : Service → Option RunStatus)
    (ran : List (StartupItem Service × Outcome)) : Prop :=
  ∀ s,aStatusDict s=some .success ↔ Provided ran s

variable {aStatusDict : Service → Option RunStatus}

lemma Faithful.unmet (h : Faithful aStatusDict ran) (s : Service) :
    unmet aStatusDict s=decide (¬Provided ran s) := by
  have hs := h s
  unfold Startup.unmet
  rcases hd : aStatusDict s with _ | _ | _
  · have hnot : ¬Provided ran s := fun hp => by
      rw [hs.mpr hp] at hd
      cases hd
    rw [decide_eq_true hnot]
  · have hp : Provided ran s := hs.mp hd
    rw [decide_eq_false (not_not_intro hp)]
  · have hnot : ¬Provided ran s := fun hp => by
      rw [hs.mpr hp] at hd
      cases hd
    rw [decide_eq_true hnot]

lemma Faithful.ready (h : Faithful aStatusDict ran) (anItem : StartupItem Service) :
    Ready aStatusDict anItem ↔ Startable ran anItem := by
  unfold Ready Startable
  simp only [h.unmet,decide_eq_false_iff_not,not_not]

lemma Faithful.failedUses (h : Faithful aStatusDict ran) (anItem : StartupItem Service) :
    failedUses aStatusDict anItem=unmetUses ran anItem := by
  have heq : Startup.unmet aStatusDict=fun s => decide (¬Provided ran s) := funext h.unmet
  unfold Startup.failedUses unmetUses
  rw [heq]

lemma Faithful.better (h : Faithful aStatusDict ran) (anItem other : StartupItem Service) :
    Better aStatusDict anItem other ↔ Precedes ran anItem other := by
  unfold Better Precedes
  rw [h.failedUses,h.failedUses]

lemma foldl_update (l : List Service) (st : RunStatus) (s : Service) :
    l.foldl (fun dict s => update dict s (some st)) aStatusDict s =
      if s∈l then some st else aStatusDict s := by
  induction l generalizing aStatusDict with
  | nil => simp
  | cons x l ih =>
    rw [foldl_cons,ih,update_apply]
    by_cases hs : s=x
    · simp [hs]
    · simp [hs]

omit [DecidableEq Service] in
lemma provided_append (x : StartupItem Service × Outcome) (s : Service) : Provided (ran++[x]) s ↔
      Provided ran s ∨ (s∈x.1.provides.values ∧ x.2=.exited 0) := by
  simp [Provided,or_and_right,exists_or]

lemma Faithful.run (h : Faithful aStatusDict ran) {anItem : StartupItem Service}
    {outcome : Outcome} (hexit : ∀ code,outcome=.exited code → code=0)
    (hfail : outcome≠.exited 0 → ∀ s∈anItem.provides.values,aStatusDict s≠some .success) :
    Faithful (startupItemRun anItem outcome aStatusDict) (ran++[(anItem,outcome)]) := by
  intro s
  rw [provided_append,←h s]
  by_cases hsuccess : outcome=.exited 0
  · subst outcome
    simp only [startupItemRun,foldl_update,Outcome.aSuccess]
    by_cases hs : s∈anItem.provides.values
    · simp [hs]
    · simp [hs]
  · have hkeep : startupItemRun anItem outcome aStatusDict s=some .success ↔
        aStatusDict s=some .success := by
      have hno : outcome.aSuccess=false := by
        cases outcome with
        | exited code => exact absurd (by rw [hexit code rfl]) hsuccess
        | _ => rfl
      unfold startupItemRun
      split
      · exact Iff.rfl
      · rw [foldl_update,hno]
        by_cases hs : s∈anItem.provides.values
        · simp [hs,hfail hsuccess s hs]
        · simp [hs]
    rw [hkeep]
    simp [hsuccess]

end Record

/-- What holds after every run under the condition. -/
structure StarterOk (items : List (StartupItem Service)) (σ : Starter Service) : Prop where
  faithful : Faithful σ.aStatusDict σ.ran
  parts : (σ.ran.map Prod.fst++σ.aWaitingList).Perm items
  count : σ.aCount+σ.aWaitingList.length=σ.aTotal
  order : ∀ before x after,σ.ran=before++x::after → Startable before x.1 ∧
    ∀ other∈items,other∉before.map Prod.fst → Startable before other → Precedes before x.1 other
  ended : ∀ x∈σ.ran,x.2≠.waitFailed

lemma start_starterOk (items : List (StartupItem Service)) :
    StarterOk items (Starter.start items) where
  faithful := fun s => by simp [Starter.start,Provided]
  parts := List.Perm.refl items
  count := Nat.zero_add _
  order := fun before x after h => by simp [Starter.start] at h
  ended := fun _ hx => absurd hx not_mem_nil

lemma turn_starterOk {items : List (StartupItem Service)} {outcome : Outcome}
    (h : StarterOk items σ) (hok : TurnOk σ outcome) (hs : σ.turn outcome=some σ') :
    StarterOk items σ' := by
  unfold Starter.turn at hs
  split at hs
  · obtain ⟨anItem,hnext,rfl⟩ := Option.map_eq_some_iff.mp hs
    obtain ⟨hmem,hready,hbest⟩ := getNext_some hnext
    refine ⟨h.faithful.run hok.1 fun hne => hok.2.2 hne anItem hnext,?_,?_,?_,?_⟩
    · have herase := perm_cons_erase hmem
      have happend := (List.Perm.append_left (σ.ran.map Prod.fst) herase).symm.trans h.parts
      simpa using happend
    · have hlen := length_erase_of_mem hmem
      have hpos := length_pos_of_mem hmem
      have hcount := h.count
      dsimp only
      omega
    · intro before x after heq
      rcases eq_nil_or_concat after with rfl | ⟨after',y,rfl⟩
      · obtain ⟨rfl,hx⟩ := append_inj' heq rfl
        cases hx
        refine ⟨(h.faithful.ready _).mp hready,fun other hother hnot hstart => ?_⟩
        have hwait : other∈σ.aWaitingList :=
          (mem_append.mp (h.parts.mem_iff.mpr hother)).resolve_left hnot
        exact (h.faithful.better _ _).mp (hbest other hwait ((h.faithful.ready _).mpr hstart))
      · rw [concat_eq_append,←cons_append,←append_assoc] at heq
        exact h.order before x after' (append_inj' heq rfl).1
    · intro x hx
      rcases mem_append.mp hx with hx | hx
      · exact h.ended x hx
      · cases mem_singleton.mp hx
        exact hok.2.1
  · cases hs

lemma run_starterOk {items : List (StartupItem Service)} {outcomes : List Outcome}
    (h : StarterOk items σ) (hok : AllTurnsOk σ outcomes) (hr : σ.run outcomes=some σ') :
    StarterOk items σ' := by
  induction outcomes generalizing σ with
  | nil =>
    cases hr
    exact h
  | cons outcome outcomes ih =>
    obtain ⟨τ,hs,hr⟩ := Option.bind_eq_some_iff.mp hr
    exact ih (turn_starterOk h hok.1 hs) (hok.2 τ hs) hr

/-- No item is run twice; an item is started when every service it requires has been provided by an
item that succeeded, and no item that could be started then is to be preferred to it; and when the
loop stops no item is running and none that waits could be started. -/
theorem starter_run {items : List (StartupItem Service)} (hnodup : items.Nodup)
    {outcomes : List Outcome} (hok : AllTurnsOk (Starter.start items) outcomes)
    (hr : (Starter.start items).run outcomes=some σ) : (σ.ran.map Prod.fst).Nodup ∧
    (∀ before x after,σ.ran=before++x::after → x.1∈items ∧ Startable before x.1 ∧
      ∀ other∈items,other∉before.map Prod.fst → Startable before other →
        Precedes before x.1 other) ∧
    ((∀ outcome,σ.turn outcome=none) → (∀ x∈σ.ran,x.2≠.waitFailed) ∧
      ∀ other∈items,other∉σ.ran.map Prod.fst → ¬Startable σ.ran other) := by
  have h := run_starterOk (start_starterOk items) hok hr
  refine ⟨?_,fun before x after heq => ⟨?_,h.order before x after heq⟩,fun hstop => ?_⟩
  · exact (h.parts.nodup_iff.mpr hnodup).of_append_left
  · refine h.parts.mem_iff.mp (mem_append_left _ ?_)
    rw [heq]
    simp
  · refine ⟨h.ended,fun other hother hnot hstart => ?_⟩
    have hwait : other∈σ.aWaitingList :=
      (mem_append.mp (h.parts.mem_iff.mpr hother)).resolve_left hnot
    have hpos := length_pos_of_mem hwait
    have hcount := h.count
    have hnone := hstop .noExecutable
    rw [Starter.turn,if_pos (by omega),Option.map_eq_none_iff] at hnone
    exact getNext_none hnone other hwait ((h.faithful.ready other).mpr hstart)

/-- Every service that an item requires is provided by an item before it. -/
def Arranged (provided : List Service) : List (StartupItem Service) → Prop
  | [] => True
  | x::xs => (∀ rs,x.requires=some rs → rs.values⊆provided) ∧
    Arranged (provided++x.provides.values) xs

lemma Arranged.exists_startable (σ : Starter Service) {provided : List Service}
    {items : List (StartupItem Service)} (h : Arranged provided items)
    (hprovided : ∀ s∈provided,Provided σ.ran s)
    (hitems : ∀ x∈items,x∈σ.aWaitingList ∨ (x,.exited 0)∈σ.ran)
    (hwait : ∃ x∈items,x∈σ.aWaitingList) : ∃ x∈σ.aWaitingList,Startable σ.ran x := by
  induction items generalizing provided with
  | nil => simp at hwait
  | cons x xs ih =>
    by_cases hx : x∈σ.aWaitingList
    · exact ⟨x,hx,fun rs hrs s hs => hprovided s (h.1 rs hrs hs)⟩
    · have hran := (hitems x mem_cons_self).resolve_left hx
      refine ih h.2 (fun s hs => ?_) (fun y hy => hitems y (mem_cons_of_mem x hy))
        (by simpa [hx] using hwait)
      exact (mem_append.mp hs).elim (hprovided s) fun hs => ⟨_,hran,hs,rfl⟩

lemma StarterOk.completes {items order : List (StartupItem Service)} {n : ℕ} (h : StarterOk items σ)
    (horder : order.Perm items) (harranged : Arranged [] order)
    (hran : ∀ x∈σ.ran,x.2=.exited 0) (hn : σ.aWaitingList.length=n) :
    ∃ σ',σ.run (replicate n (.exited 0))=some σ' ∧ (σ'.ran.map Prod.fst).Perm items := by
  induction n generalizing σ with
  | zero =>
    have hparts := h.parts
    rw [length_eq_zero_iff.mp hn,append_nil] at hparts
    exact ⟨σ,rfl,hparts⟩
  | succ n ih =>
    have hitem : ∀ x,x∈order ↔ x∈σ.ran.map Prod.fst ∨ x∈σ.aWaitingList := fun x => by
      rw [horder.mem_iff,←h.parts.mem_iff,mem_append]
    obtain ⟨x,hx⟩ := exists_mem_of_length_eq_add_one hn
    obtain ⟨x,hx,hstart⟩ := harranged.exists_startable σ (by simp) (fun x hx =>
      ((hitem x).mp hx).symm.imp_right fun hx => by
        obtain ⟨y,hy,rfl⟩ := mem_map.mp hx
        exact hran y hy▸hy) ⟨x,(hitem x).mpr (.inr hx),hx⟩
    have hcount := h.count
    cases hnext : getNext σ.aStatusDict σ.aWaitingList with
    | none => exact absurd ((h.faithful.ready x).mpr hstart) (getNext_none hnext x hx)
    | some anItem =>
      obtain ⟨τ,hturn,hτ⟩ : ∃ τ,σ.turn (.exited 0)=some τ ∧
          τ.aWaitingList=σ.aWaitingList.erase anItem ∧ τ.ran=σ.ran++[(anItem,.exited 0)] := by
        rw [Starter.turn,if_pos (by omega),hnext]
        exact ⟨_,rfl,rfl,rfl⟩
      rw [replicate_succ,Starter.run,hturn]
      refine ih (turn_starterOk h ⟨by simp,by simp,fun hne => absurd rfl hne⟩ hturn) ?_ ?_
      · simpa [hτ,or_imp,forall_and] using hran
      · rw [hτ.1,length_erase_of_mem (getNext_some hnext).1,hn,Nat.add_sub_cancel]

lemma allTurnsOk_exited (n : ℕ) (σ : Starter Service) : AllTurnsOk σ (replicate n (.exited 0)) := by
  induction n generalizing σ with
  | zero => trivial
  | succ n ih => exact ⟨⟨by simp,by simp,fun hne => absurd rfl hne⟩,fun τ _ => ih τ⟩

omit [DecidableEq Service] in
lemma arranged_ran {before after : List (StartupItem Service × Outcome)}
    (h : ∀ mid x rest,after=mid++x::rest → Startable (before++mid) x.1) :
    Arranged (before.flatMap fun x => x.1.provides.values) (after.map Prod.fst) := by
  induction after generalizing before with
  | nil => trivial
  | cons x after ih =>
    refine ⟨fun rs hrs s hs => ?_,?_⟩
    · obtain ⟨y,hy,hprovides,-⟩ := h [] x after rfl rs hrs s hs
      exact mem_flatMap.mpr ⟨y,by simpa using hy,hprovides⟩
    · simpa using @ih (before++[x]) fun mid y rest he => by
        simpa using h (x::mid) y rest (congrArg (x::·) he)

/-- If all scripts succeed, then all items are run if and only if they can be arranged so. -/
theorem starter_completes_iff (items : List (StartupItem Service)) :
    (∃ order : List (StartupItem Service),order.Perm items ∧ Arranged [] order) ↔
      ∃ σ,(Starter.start items).run (replicate items.length (.exited 0))=some σ ∧
        (σ.ran.map Prod.fst).Perm items := by
  have hstart := start_starterOk items
  constructor
  · rintro ⟨order,horder,harranged⟩
    exact hstart.completes horder harranged (fun _ hx => absurd hx not_mem_nil) rfl
  · rintro ⟨σ,hr,hperm⟩
    have hok := run_starterOk hstart (allTurnsOk_exited _ _) hr
    exact ⟨_,hperm,@arranged_ran _ [] _ fun mid x rest he => (hok.order mid x rest he).1⟩

def network : StartupItem Unit := ⟨"Network",⟨[()],by decide⟩,none,none,some "First"⟩
def backup : StartupItem Unit := ⟨"Backup",⟨[()],by decide⟩,none,none,none⟩
def mounts : StartupItem Unit :=
  ⟨"Mounts",⟨[],by decide⟩,some ⟨[()],by decide⟩,none,some "Last"⟩

theorem starter_run_network : ∃ σ,
    (Starter.start [mounts,network]).run [.exited 0,.exited 0]=some σ ∧
      σ.ran=[(network,.exited 0),(mounts,.exited 0)] ∧ (σ.ran.map Prod.fst).Nodup := by
  have hrun : ∃ σ,(Starter.start [mounts,network]).run [.exited 0,.exited 0]=some σ ∧
      σ.ran=[(network,.exited 0),(mounts,.exited 0)] := ⟨_,rfl,rfl⟩
  obtain ⟨σ,hr,hran⟩ := hrun
  have hok : AllTurnsOk (Starter.start [mounts,network]) [.exited 0,.exited 0] := by
    refine ⟨⟨fun code h => (Outcome.exited.inj h).symm,by decide,fun h => absurd rfl h⟩,
      fun σ' _ => ⟨⟨fun code h => (Outcome.exited.inj h).symm,by decide,fun h => absurd rfl h⟩,
        fun _ _ => trivial⟩⟩
  exact ⟨σ,hr,hran,(starter_run (by decide) hok hr).1⟩

/-- A script that exits with 1 counts as a success, and the item that needs the service is started;
an item that fails takes back a service that another has provided, and the item that needs it is
never started. -/
theorem provided_misjudged :
    (∃ σ,(Starter.start [mounts,network]).run [.exited 1,.exited 0]=some σ ∧
      ∃ before x after,σ.ran=before++x::after ∧ ¬Startable before x.1) ∧
    ∃ σ,(Starter.start [mounts,network,backup]).run [.exited 0,.signalled]=some σ ∧
      (∀ outcome,σ.turn outcome=none) ∧ mounts∉σ.ran.map Prod.fst ∧ Startable σ.ran mounts := by
  refine ⟨⟨_,rfl,[(network,.exited 1)],(mounts,.exited 0),[],rfl,fun h => ?_⟩,_,rfl,fun _ => rfl,
    by decide,?_⟩
  · obtain ⟨x,hx,-,hexit⟩ := h ⟨[()],by decide⟩ rfl () (mem_singleton.mpr rfl)
    cases mem_singleton.mp hx
    exact absurd hexit (by decide)
  · intro rs hrs s hs
    exact ⟨(network,.exited 0),mem_cons_self,mem_singleton.mpr rfl,rfl⟩

end Run

end Darwin.Startup
