import Darwin.Netinfo.Dsfilter

/-! Filters as trees with a value in Kleene's three-valued logic, and what `dsfilter_test` makes of
them: it does not know the members that were appended as assertions. -/
open List Option Nat
namespace Darwin.Netinfo

section Trees

mutual

/-- What a filter was built to be: an assertion, or an and, an or or a not of members. -/
inductive FilterTree
  | assertion (a : Dsassertion)
  | node (op : DsfOp) (members : FilterMembers)

/-- Members in order, appended as filters or as assertions. -/
inductive FilterMembers
  | nil
  | filter (t : FilterTree) (ms : FilterMembers)
  | assertion (a : Dsassertion) (ms : FilterMembers)

end

def kleeneAnd (vs : List Logic3) : Logic3 :=
  if .L3False∈vs then .L3False else if .L3Undefined∈vs then .L3Undefined else .L3True

def kleeneOr (vs : List Logic3) : Logic3 :=
  if .L3True∈vs then .L3True else if .L3Undefined∈vs then .L3Undefined else .L3False

def kleeneNot (vs : List Logic3) : Logic3 := (vs.head?.map not3).getD .L3Undefined

def kleeneOp : DsfOp → List Logic3 → Logic3
  | .DSF_OP_ASSERT,_ => .L3Undefined
  | .DSF_OP_AND,vs => kleeneAnd vs
  | .DSF_OP_OR,vs => kleeneOr vs
  | .DSF_OP_NOT,vs => kleeneNot vs

variable (r : Attributes)

mutual

def FilterTree.kleene : FilterTree → Logic3
  | .assertion a => dsassertionTest a r
  | .node op ms => kleeneOp op ms.kleene

def FilterMembers.kleene : FilterMembers → List Logic3
  | .nil => []
  | .filter t ms => t.kleene::ms.kleene
  | .assertion a ms => dsassertionTest a r::ms.kleene

end

mutual

/-- The filter without the members, at any depth, that were appended as assertions. -/
def FilterTree.recorded : FilterTree → FilterTree
  | .assertion a => .assertion a
  | .node op ms => .node op ms.recorded

def FilterMembers.recorded : FilterMembers → FilterMembers
  | .nil => .nil
  | .filter t ms => .filter t.recorded ms.recorded
  | .assertion _ ms => ms.recorded

end

mutual

/-- What the filter at an address was built to be. -/
inductive Builds (m : Filters) : ℕ → FilterTree → Prop
  | assertion {f : ℕ} {n : Dsfilter} {a : Dsassertion} (h : m.filters[f]?=some n)
    (hop : n.op=.DSF_OP_ASSERT) (ha : n.assert=some a) : Builds m f (.assertion a)
  | node {f : ℕ} {n : Dsfilter} {ms : FilterMembers} (h : m.filters[f]?=some n)
    (hop : n.op≠.DSF_OP_ASSERT) (hms : BuildsAll m (m.appended f) ms) : Builds m f (.node n.op ms)

inductive BuildsAll (m : Filters) : List Member → FilterMembers → Prop
  | nil : BuildsAll m [] .nil
  | filter {x : ℕ} {t : FilterTree} {l : List Member} {ms : FilterMembers} (h : Builds m x t)
    (hms : BuildsAll m l ms) : BuildsAll m (.filter x::l) (.filter t ms)
  | assertion {a : Dsassertion} {l : List Member} {ms : FilterMembers}
    (hms : BuildsAll m l ms) : BuildsAll m (.assertion a::l) (.assertion a ms)

end

end Trees

section Recorded

variable {m : Filters}

def filtersOf : List Member → List ℕ
  | [] => []
  | .filter x::l => x::filtersOf l
  | .assertion _::l => filtersOf l

lemma filtersOf_append (l l' : List Member) : filtersOf (l++l')=filtersOf l++filtersOf l' := by
  induction l with
  | nil => rfl
  | cons member l ih =>
    cases member with
    | filter x => exact congrArg (x::·) ih
    | assertion a => exact ih

/-- The counted slots of each filter are its members that were appended as filters. -/
structure Recorded (m : Filters) : Prop where
  slots : ∀ f n,m.filters[f]?=some n → n.filter.take n.count=filtersOf (m.appended f)
  count : ∀ f n,m.filters[f]?=some n → n.count=(filtersOf (m.appended f)).length
  fresh : ∀ f,m.filters.length≤f → m.appended f=[]

lemma Recorded.malloc (h : Recorded m) (op : DsfOp) (a : Option Dsassertion) :
    Recorded (m.malloc ⟨op,a,0,[]⟩).1 := by
  have hcases : ∀ f n,(m.filters++[⟨op,a,0,[]⟩])[f]?=some n →
      m.filters[f]?=some n ∨ n=⟨op,a,0,[]⟩ ∧ m.appended f=[] := by
    intro f n hf
    rw [getElem?_append] at hf
    split_ifs at hf with hlt
    · exact .inl hf
    · have hn := mem_of_getElem? hf
      exact .inr ⟨mem_singleton.mp hn,h.fresh f (not_lt.mp hlt)⟩
  refine ⟨fun f n hf => ?_,fun f n hf => ?_,fun f hf => ?_⟩
  · rcases hcases f n hf with hold | ⟨rfl,hnil⟩
    · exact h.slots f n hold
    · change []=filtersOf (m.appended f)
      rw [hnil]
      rfl
  · rcases hcases f n hf with hold | ⟨rfl,hnil⟩
    · exact h.count f n hold
    · change 0=(filtersOf (m.appended f)).length
      rw [hnil]
      rfl
  · refine h.fresh f (le_trans ?_ hf)
    exact (le_add_right _ _).trans_eq length_append.symm

lemma Recorded.modify (h : Recorded m) (f : ℕ) (member : Member) (g : Dsfilter → Dsfilter)
    (hcount : ∀ n,(g n).count=n.count+(filtersOf [member]).length)
    (hslots : ∀ n,(n.filter.take n.count).length=n.count →
      (g n).filter.take (g n).count=n.filter.take n.count++filtersOf [member]) :
    Recorded ⟨m.filters.modify f g,(m.record f member).appended⟩ := by
  have hrec : ∀ i n,m.filters[i]?=some n → (m.record f member).appended i =
      if i=f then m.appended i++[member] else m.appended i := by
    intro i n hi
    have hlt : i < m.filters.length := (List.getElem?_eq_some_iff.mp hi).1
    by_cases hif : i=f
    · subst hif
      rw [if_pos rfl]
      exact if_pos ⟨rfl,hlt⟩
    · rw [if_neg hif]
      exact if_neg fun hc => hif hc.1
  have hcases : ∀ i n,(m.filters.modify f g)[i]?=some n → ∃ n',m.filters[i]?=some n' ∧
      n=if i=f then g n' else n' := by
    intro i n hi
    rw [getElem?_modify] at hi
    obtain ⟨n',hn',rfl⟩ := map_eq_some_iff.mp hi
    refine ⟨n',hn',?_⟩
    by_cases hif : i=f
    · rw [if_pos hif.symm,if_pos hif]
    · rw [if_neg (Ne.symm hif),if_neg hif]
  refine ⟨fun i n hi => ?_,fun i n hi => ?_,fun i hi => ?_⟩
  · obtain ⟨n',hn',rfl⟩ := hcases i n hi
    have hold := h.slots i n' hn'
    have hlen := h.count i n' hn'
    change _=filtersOf ((m.record f member).appended i)
    rw [hrec i n' hn']
    by_cases hif : i=f
    · rw [if_pos hif,if_pos hif,filtersOf_append,←hold]
      exact hslots n' (by rw [hold,hlen])
    · rw [if_neg hif,if_neg hif,hold]
  · obtain ⟨n',hn',rfl⟩ := hcases i n hi
    have hlen := h.count i n' hn'
    change _=(filtersOf ((m.record f member).appended i)).length
    rw [hrec i n' hn']
    by_cases hif : i=f
    · rw [if_pos hif,if_pos hif,filtersOf_append,length_append,hcount,hlen]
    · rw [if_neg hif,if_neg hif,hlen]
  · have hi : m.filters.length ≤ i := (length_modify ..).ge.trans hi
    change (m.record f member).appended i=[]
    refine (if_neg fun hc => ?_).trans (h.fresh i hi)
    omega

lemma take_setSlot (x : ℕ) (n : Dsfilter) (h : (n.filter.take n.count).length=n.count) :
    (setSlot x n).filter.take n.count=n.filter.take n.count := by
  change (n.filter.take n.count++[x]).take n.count=n.filter.take n.count
  exact take_left' h

lemma Recorded.step (h : Recorded m) (call : FilterCall) : Recorded (filterStep m call) := by
  cases call with
  | newAssert a => exact h.malloc _ _
  | newAnd => exact h.malloc _ _
  | newOr => exact h.malloc _ _
  | newNot => exact h.malloc _ _
  | appendFilter f x =>
    cases f with
    | none => exact h
    | some f =>
      cases x with
      | none => exact h
      | some x =>
        refine h.modify f (.filter x) (fun n => {setSlot x n with count := n.count+1})
          (fun n => rfl) fun n hn => ?_
        change (n.filter.take n.count++[x]).take (n.count+1)=_
        exact take_of_length_le (by rw [length_append,hn,length_singleton])
  | appendAssertion f a =>
    cases f with
    | none => exact h
    | some f =>
      cases a with
      | none => exact h
      | some a =>
        have hnew : Recorded (dsfilterNewAssert m a).1 := h.malloc _ _
        refine hnew.modify f (.assertion a) (setSlot (dsfilterNewAssert m a).2)
          (fun n => rfl) fun n hn => ?_
        rw [filtersOf,filtersOf,append_nil]
        exact take_setSlot _ n hn

lemma recorded_run (calls : List FilterCall) : Recorded (filterRun calls) := by
  have hall : ∀ m,Recorded m → Recorded (calls.foldl filterStep m) := by
    induction calls with
    | nil => exact fun m h => h
    | cons call calls ih => exact fun m h => ih _ (h.step call)
  refine hall _ ⟨fun f n h => ?_,fun f n h => ?_,fun f _ => rfl⟩ <;>
    exact absurd h.symm (some_ne_none n)

end Recorded

section Test

variable {m : Filters} {r : Attributes}

lemma andLoop_eq {test : ℕ → Option Logic3} {xs : List ℕ} {vs : List Logic3}
    (h : xs.map test=vs.map some) (hasUndef : Bool) : andLoop test xs hasUndef =
      some (kleeneAnd (if hasUndef then .L3Undefined::vs else vs)) := by
  induction xs generalizing vs hasUndef with
  | nil =>
    obtain rfl := map_eq_nil_iff.mp h.symm
    cases hasUndef <;> rfl
  | cons x xs ih =>
    cases vs with
    | nil => exact absurd h (cons_ne_nil _ _)
    | cons v vs =>
      obtain ⟨hx,hxs⟩ := List.cons.inj h
      rw [andLoop,hx]
      cases v with
      | L3False => cases hasUndef <;> simp [kleeneAnd]
      | L3True =>
        dsimp only
        rw [ih hxs]
        cases hasUndef <;> simp [kleeneAnd]
      | L3Undefined =>
        dsimp only
        rw [ih hxs]
        cases hasUndef <;> simp [kleeneAnd]

lemma orLoop_eq {test : ℕ → Option Logic3} {xs : List ℕ} {vs : List Logic3}
    (h : xs.map test=vs.map some) (hasUndef : Bool) : orLoop test xs hasUndef =
      some (kleeneOr (if hasUndef then .L3Undefined::vs else vs)) := by
  induction xs generalizing vs hasUndef with
  | nil =>
    obtain rfl := map_eq_nil_iff.mp h.symm
    cases hasUndef <;> rfl
  | cons x xs ih =>
    cases vs with
    | nil => exact absurd h (cons_ne_nil _ _)
    | cons v vs =>
      obtain ⟨hx,hxs⟩ := List.cons.inj h
      rw [orLoop,hx]
      cases v with
      | L3True => cases hasUndef <;> simp [kleeneOr]
      | L3False =>
        dsimp only
        rw [ih hxs]
        cases hasUndef <;> simp [kleeneOr]
      | L3Undefined =>
        dsimp only
        rw [ih hxs]
        cases hasUndef <;> simp [kleeneOr]

/-- The test of the filter at an address returns a value, given room for the nested calls. -/
def Returns (m : Filters) (r : Attributes) (f : ℕ) (v : Logic3) : Prop :=
  ∃ n,∀ depth ≥ n,dsfilterTest m.filters (some r) depth (some f)=some v

lemma Returns.unique {f : ℕ} {v w : Logic3} (h : Returns m r f v) (h' : Returns m r f w) : v=w := by
  obtain ⟨n,hn⟩ := h
  obtain ⟨n',hn'⟩ := h'
  exact some.inj ((hn (max n n') (le_max_left _ _)).symm.trans (hn' (max n n') (le_max_right _ _)))

mutual

lemma Builds.returns (hm : Recorded m) (r : Attributes) {f : ℕ} {t : FilterTree}
    (h : Builds m f t) : Returns m r f (t.recorded.kleene r) := by
  cases h with
  | @assertion f n a hf hop ha =>
    refine ⟨1,fun depth hdepth => ?_⟩
    obtain ⟨d,rfl⟩ := Nat.exists_eq_add_of_le' hdepth
    rw [dsfilterTest]
    simp only [hf,hop,ha]
    rfl
  | @node f n ms hf hop hms =>
    obtain ⟨d,hd⟩ := BuildsAll.returns hm r hms
    refine ⟨d+1,fun depth hdepth => ?_⟩
    obtain ⟨e,rfl⟩ := Nat.exists_eq_add_of_le' hdepth
    have hall := hd (e+d) (Nat.le_add_left d e)
    rw [←hm.slots f n hf] at hall
    rw [←add_assoc,dsfilterTest]
    simp only [hf]
    cases hn : n.op with
    | DSF_OP_ASSERT => exact absurd hn hop
    | DSF_OP_AND => exact andLoop_eq hall false
    | DSF_OP_OR => exact orLoop_eq hall false
    | DSF_OP_NOT =>
      change _=some (kleeneNot (ms.recorded.kleene r))
      generalize ms.recorded.kleene r=vs at hall
      generalize n.filter.take n.count=xs at hall
      cases xs with
      | nil =>
        obtain rfl := map_eq_nil_iff.mp hall.symm
        rfl
      | cons x xs =>
        cases vs with
        | nil => exact absurd hall (cons_ne_nil _ _)
        | cons v vs =>
          have hx : dsfilterTest m.filters (some r) (e+d) (some x)=some v :=
            (List.cons.inj hall).1
          dsimp only
          rw [hx]
          rfl

lemma BuildsAll.returns (hm : Recorded m) (r : Attributes) {l : List Member} {ms : FilterMembers}
    (h : BuildsAll m l ms) :
    ∃ n,∀ depth ≥ n,(filtersOf l).map (fun x =>
      dsfilterTest m.filters (some r) depth (some x))=(ms.recorded.kleene r).map some := by
  cases h with
  | nil => exact ⟨0,fun depth _ => rfl⟩
  | @filter x t l ms hx hms =>
    obtain ⟨n,hn⟩ := Builds.returns hm r hx
    obtain ⟨n',hn'⟩ := BuildsAll.returns hm r hms
    refine ⟨max n n',fun depth hdepth => ?_⟩
    change dsfilterTest m.filters (some r) depth (some x)::_ =
      some (t.recorded.kleene r)::(ms.recorded.kleene r).map some
    rw [hn depth (le_trans (le_max_left _ _) hdepth)]
    exact congrArg _ (hn' depth (le_trans (le_max_right _ _) hdepth))
  | @assertion a l ms hms =>
    obtain ⟨n,hn⟩ := BuildsAll.returns hm r hms
    exact ⟨n,hn⟩

end

end Test

/-- The test of a filter on a record is the filter's value, and an assertion on a key that is not
there counts as undefined. -/
def TestsKleene (calls : List FilterCall) (f : ℕ) (t : FilterTree) (r : Attributes) : Prop :=
  Returns (filterRun calls) r f (t.kleene r) ∧ ∀ a : Dsassertion,a.assertion≠DSA_PRECOMPUTED →
      dsrecordSelected r a.key a.metaSel=none → dsassertionTest a r=.L3Undefined

/-- After any calls, the test of a filter gives its value exactly when that is its value also
without the members that were appended as assertions. -/
theorem dsfilterTest_kleene_iff (calls : List FilterCall) {f : ℕ} {t : FilterTree}
    (h : Builds (filterRun calls) f t) (r : Attributes) :
    TestsKleene calls f t r ↔ t.recorded.kleene r=t.kleene r := by
  have hret := h.returns (recorded_run calls) r
  constructor
  · exact fun ht => hret.unique ht.1
  · exact fun heq => ⟨heq▸hret,fun a => dsassertionTest_absent⟩

def falseAssertion : Dsassertion where
  assertion := DSA_PRECOMPUTED
  metaSel := 0
  key := ⟨4,[0,0,0,0]⟩
  value := none
  size := fun _ h => absurd rfl h

def filterCalls : List FilterCall :=
  [.newAnd,.newAssert falseAssertion,.appendFilter (some 0) (some 1)]

def assertionCalls : List FilterCall :=
  [.newAnd,.appendAssertion (some 0) (some falseAssertion)]

lemma builds_filterCalls : Builds (filterRun filterCalls) 0
    (.node .DSF_OP_AND (.filter (.assertion falseAssertion) .nil)) :=
  .node (n := ⟨.DSF_OP_AND,none,1,[1]⟩) rfl (by decide)
    (.filter (.assertion (n := ⟨.DSF_OP_ASSERT,some falseAssertion,0,[]⟩) rfl rfl rfl) .nil)

lemma builds_assertionCalls : Builds (filterRun assertionCalls) 0
    (.node .DSF_OP_AND (.assertion falseAssertion .nil)) :=
  .node (n := ⟨.DSF_OP_AND,none,0,[1]⟩) rfl (by decide) (.assertion .nil)

theorem dsfilterTest_kleene_filterCalls : TestsKleene filterCalls 0
    (.node .DSF_OP_AND (.filter (.assertion falseAssertion) .nil)) ⟨[],[]⟩ :=
  (dsfilterTest_kleene_iff filterCalls builds_filterCalls ⟨[],[]⟩).mpr rfl

/-- An and with a false assertion is taken to be true. -/
theorem not_testsKleene_assertionCalls : ∃ t,Builds (filterRun assertionCalls) 0 t ∧
    ¬TestsKleene assertionCalls 0 t ⟨[],[]⟩ := by
  refine ⟨_,builds_assertionCalls,fun h => ?_⟩
  have hret := builds_assertionCalls.returns (recorded_run assertionCalls) ⟨[],[]⟩
  exact Logic3.noConfusion (hret.unique h.1)

end Darwin.Netinfo
