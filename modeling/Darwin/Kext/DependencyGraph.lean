import Darwin.Kext.Dependencies

/-! What the walk over the modules that a module requires comes to: a list, an error, or no end. -/
open List Set
namespace Darwin.Kext.Dependencies
open Relation

variable {Name : Type} [DecidableEq Name] (manager : Manager Name)

/-- The module is required by another that is no kernel resource; what a kernel resource requires is
not looked at. -/
def Follows (module dependency : Name) : Prop :=
  (manager.module module).osKernelResource=false ∧ ∃ entries,
    (manager.module module).requires=.dictionary entries ∧ ∃ entry∈entries,entry.1=dependency

def closure (module : Name) : Set Name :=
  {y | ReflTransGen (Follows manager) module y ∧ (manager.module y).osKernelResource=false}

def closures (entries : List (Name × Option (List Char))) : Set Name :=
  {y | ∃ entry∈entries,y∈closure manager entry.1}

/-- All that a module requires, and what that requires in turn, is there with a version, and each
chain comes to an end. -/
inductive Sound : Name → Prop
  | resource (module : Name) (h : (manager.module module).osKernelResource=true) : Sound module
  | absent (module : Name) (h : (manager.module module).osKernelResource=false)
      (hrequires : (manager.module module).requires=.absent) : Sound module
  | dictionary (module : Name) (entries : List (Name × Option (List Char)))
      (h : (manager.module module).osKernelResource=false)
      (hrequires : (manager.module module).requires=.dictionary entries)
      (hentries : ∀ entry∈entries,entryError manager entry=none)
      (hsound : ∀ entry∈entries,Sound entry.1) : Sound module

def AllSound (entries : List (Name × Option (List Char))) : Prop :=
  ∀ entry∈entries,entryError manager entry=none ∧ Sound manager entry.1

/-- Behind sound entries, the first thing that is not sound is an entry that is refused, or a module
whose requirements are no dictionary. -/
inductive Faulty : Name → Prop
  | other (module : Name) (h : (manager.module module).osKernelResource=false)
      (hrequires : (manager.module module).requires=.other) : Faulty module
  | refused (module : Name) (pre post : List (Name × Option (List Char)))
      (entry : Name × Option (List Char)) (result : KEXTReturn)
      (h : (manager.module module).osKernelResource=false)
      (hrequires : (manager.module module).requires=.dictionary (pre++entry::post))
      (hpre : AllSound manager pre) (hentry : entryError manager entry=some result) : Faulty module
  | deeper (module : Name) (pre post : List (Name × Option (List Char)))
      (entry : Name × Option (List Char))
      (h : (manager.module module).osKernelResource=false)
      (hrequires : (manager.module module).requires=.dictionary (pre++entry::post))
      (hpre : AllSound manager pre) (hentry : entryError manager entry=none)
      (hfaulty : Faulty entry.1) : Faulty module

/-- From a module, with some modules listed, the walk comes to one that is not: behind sound entries,
whose modules are listed then. -/
def Comes (c c' : Set Name × Name) : Prop :=
  (manager.module c.2).osKernelResource=false ∧ ∃ pre entry post,
    (manager.module c.2).requires=.dictionary (pre++entry::post) ∧
    AllSound manager pre ∧ entryError manager entry=none ∧ entry.1=c'.2 ∧
    c'.1=c.1∪closures manager pre ∧ c'.2∉c'.1

def Limited (listed : Set Name) (module : Name) : Prop :=
  ∃ c,ReflTransGen (Comes manager) (listed,module) c ∧ 255<c.1.ncard

/-- The array of a walk: each module once, and behind the modules that it requires. -/
structure Listed (array : List Name) : Prop where
  nodup : array.Nodup
  sound : ∀ y∈array,Sound manager y ∧ (manager.module y).osKernelResource=false
  ordered : ∀ before y after,array=before++y::after → ∀ d,Follows manager y d →
    (manager.module d).osKernelResource=false → d∈before

def Adds (array array' : List Name) (modules : Set Name) : Prop :=
  Listed manager array' ∧ ∀ y,y∈array' ↔ y∈array ∨ y∈modules

abbrev members (array : List Name) : Set Name := {y | y∈array}

variable {manager}
variable {array array' array'' : List Name} {module : Name}
  {entry : Name × Option (List Char)} {entries done todo rest : List (Name × Option (List Char))}

/-! ### What is listed -/

lemma ncard_members (h : array.Nodup) : (members array).ncard=array.length := by
  have : members array=(array.toFinset : Set Name) := by
    ext y
    simp
  rw [this,ncard_coe_finset,toFinset_card_of_nodup h]

lemma listed_nil : Listed manager [] :=
  ⟨nodup_nil,fun y hy => (by cases hy),fun before y after h => (by simp at h)⟩

omit [DecidableEq Name] in
lemma not_follows_resource {d : Name} (h : (manager.module module).osKernelResource=true) :
    ¬Follows manager module d := fun hfollows => by
  rw [hfollows.1] at h
  cases h

lemma Listed.closure_subset (h : Listed manager array) {y z : Name} (hy : y∈array)
    (hz : z∈closure manager y) : z∈array := by
  obtain ⟨hpath,hresource⟩ := hz
  induction hpath using ReflTransGen.head_induction_on with
  | refl => exact hy
  | head hfollows hrest ih =>
    rename_i y w
    obtain ⟨before,after,harray⟩ := append_of_mem hy
    cases hw : (manager.module w).osKernelResource with
    | true =>
      rcases ReflTransGen.cases_head hrest with rfl | ⟨v,hv,-⟩
      · rw [hw] at hresource
        cases hresource
      · exact absurd hv (not_follows_resource hw)
    | false =>
      have hmem := h.ordered before y after harray w hfollows hw
      exact ih (by rw [harray]; exact mem_append_left _ hmem)

omit [DecidableEq Name] in
lemma closure_resource (h : (manager.module module).osKernelResource=true) (y : Name) :
    y∉closure manager module := by
  rintro ⟨hpath,hy⟩
  rcases ReflTransGen.cases_head hpath with rfl | ⟨d,hd,-⟩
  · rw [h] at hy
    cases hy
  · exact not_follows_resource h hd

omit [DecidableEq Name] in
lemma mem_closure_absent (h : (manager.module module).osKernelResource=false)
    (hrequires : (manager.module module).requires=.absent) (y : Name) :
    y∈closure manager module ↔ y=module := by
  constructor
  · rintro ⟨hpath,-⟩
    rcases ReflTransGen.cases_head hpath with rfl | ⟨d,⟨-,entries,hentries,-⟩,-⟩
    · rfl
    · rw [hrequires] at hentries
      cases hentries
  · rintro rfl
    exact ⟨ReflTransGen.refl,h⟩

omit [DecidableEq Name] in
lemma mem_closure_dictionary (h : (manager.module module).osKernelResource=false)
    (hrequires : (manager.module module).requires=.dictionary entries) (y : Name) :
    y∈closure manager module ↔ y=module ∨ y∈closures manager entries := by
  constructor
  · rintro ⟨hpath,hy⟩
    rcases ReflTransGen.cases_head hpath with rfl | ⟨d,⟨-,entries',hentries,entry,hmem,rfl⟩,hrest⟩
    · exact .inl rfl
    · rw [hrequires] at hentries
      cases hentries
      exact .inr ⟨entry,hmem,hrest,hy⟩
  · rintro (rfl | ⟨entry,hmem,hpath,hy⟩)
    · exact ⟨ReflTransGen.refl,h⟩
    · exact ⟨ReflTransGen.head ⟨h,entries,hrequires,entry,hmem,rfl⟩ hpath,hy⟩

lemma mem_appendModule (array : List Name) (module y : Name) :
    y∈appendModule array module ↔ y∈array ∨ y=module := by
  unfold appendModule
  split
  · next h =>
    refine ⟨.inl,fun hy => hy.elim id ?_⟩
    rintro rfl
    exact h
  · simp

lemma Listed.append (h : Listed manager array) (hsound : Sound manager module)
    (hresource : (manager.module module).osKernelResource=false)
    (hall : ∀ d,Follows manager module d → (manager.module d).osKernelResource=false →
      d∈array) : Listed manager (appendModule array module) := by
  unfold appendModule
  split
  · exact h
  · next hmem =>
    refine ⟨?_,fun y hy => ?_,fun before y after harray d hd hdresource => ?_⟩
    · rw [nodup_append]
      refine ⟨h.nodup,nodup_singleton _,fun y hy z hz => ?_⟩
      rintro rfl
      obtain rfl := mem_singleton.mp hz
      exact hmem hy
    · rcases mem_append.mp hy with hy | hy
      · exact h.sound y hy
      · obtain rfl := mem_singleton.mp hy
        exact ⟨hsound,hresource⟩
    · rcases eq_nil_or_concat' after with rfl | ⟨after,z,rfl⟩
      · obtain ⟨rfl,hlast⟩ := append_inj' harray rfl
        obtain rfl : module=y := head_eq_of_cons_eq hlast
        exact hall d hd hdresource
      · rw [←cons_append,←append_assoc] at harray
        exact h.ordered before y after (append_inj' harray rfl).1 d hd hdresource

omit [DecidableEq Name] in
lemma closures_append (entries entries' : List (Name × Option (List Char))) :
    closures manager (entries++entries') =
      closures manager entries∪closures manager entries' := by
  ext y
  simp only [closures,mem_append,mem_ofPred_eq,mem_union,or_and_right,exists_or]

omit [DecidableEq Name] in
lemma closures_singleton (entry : Name × Option (List Char)) :
    closures manager [entry]=closure manager entry.1 := by
  ext y
  simp [closures]

/-! ### Sound modules -/

lemma Adds.trans {modules modules' : Set Name} (h : Adds manager array array' modules)
    (h' : Adds manager array' array'' modules') :
    Adds manager array array'' (modules∪modules') := by
  refine ⟨h'.1,fun y => ?_⟩
  rw [h'.2,h.2,mem_union,or_assoc]

omit [DecidableEq Name] in
lemma Adds.members_eq [DecidableEq Name] {modules : Set Name}
    (h : Adds manager array array' modules) : members array'=members array∪modules := by
  ext y
  exact h.2 y

lemma AllSound.tail (h : AllSound manager (entry::todo)) : AllSound manager todo :=
  fun e he => h e (mem_cons_of_mem _ he)

lemma AllSound.concat (h : AllSound manager done) (htodo : AllSound manager (entry::todo)) :
    AllSound manager (done++[entry]) := by
  intro e he
  rcases mem_append.mp he with he | he
  · exact h e he
  · exact mem_singleton.mp he▸htodo entry mem_cons_self

lemma Adds.listed (h : Adds manager array array' (closures manager done)) (hmem : entry.1∈array') :
    Adds manager array array' (closures manager (done++[entry])) := by
  refine ⟨h.1,fun y => ?_⟩
  rw [h.2,closures_append,closures_singleton,mem_union]
  refine ⟨fun hy => hy.imp id .inl,fun hy => hy.elim .inl fun hy => hy.elim .inr fun hy => ?_⟩
  exact (h.2 y).mp (h.1.closure_subset hmem hy)

lemma Adds.visited (h : Adds manager array array' (closures manager done))
    (h' : Adds manager array' array'' (closure manager entry.1)) :
    Adds manager array array'' (closures manager (done++[entry])) := by
  rw [closures_append,closures_singleton]
  exact h.trans h'

lemma Limited.of_entry (hresource : (manager.module module).osKernelResource=false)
    (hrequires : (manager.module module).requires=.dictionary (done++entry::rest))
    (hdone : AllSound manager done) (hentry : entryError manager entry=none)
    (hadds : Adds manager array array' (closures manager done)) (hmem : entry.1∉array')
    (h : Limited manager (members array') entry.1) : Limited manager (members array) module := by
  obtain ⟨c,hpath,hcard⟩ := h
  exact ⟨c,ReflTransGen.head ⟨hresource,done,entry,rest,hrequires,hdone,hentry,rfl,
    hadds.members_eq,hmem⟩ hpath,hcard⟩

/-- What a call for a sound module comes to: its modules are listed, or too many have been. -/
def Outcome (manager : Manager Name) (array : List Name) (module : Name) (r : KEXTReturn × List Name) : Prop :=
  r.1=.success ∧ Adds manager array r.2 (closure manager module) ∨
    r.1=.error ∧ Limited manager (members array) module

lemma loop_outcome (hresource : (manager.module module).osKernelResource=false)
    (hrequires : (manager.module module).requires=.dictionary (done++todo++rest))
    (hdone : AllSound manager done) (htodo : AllSound manager todo)
    (ih : ∀ entry∈todo,∀ array,Listed manager array →
      ∃ r,Returns manager array entry.1 r ∧ Outcome manager array entry.1 r)
    (hadds : Adds manager array array' (closures manager done)) :
    (∃ array'',Adds manager array array'' (closures manager (done++todo)) ∧
      ∀ result,LoopReturns manager rest array'' result →
        LoopReturns manager (todo++rest) array' result) ∨
    ∃ array'',LoopReturns manager (todo++rest) array' (.error,array'') ∧
      Limited manager (members array) module := by
  induction todo generalizing done array' with
  | nil =>
    rw [append_nil]
    exact .inl ⟨array',hadds,fun result h => h⟩
  | cons entry todo ihtodo =>
    obtain ⟨hentry,hsound⟩ := htodo entry mem_cons_self
    have hwhole : (manager.module module).requires=.dictionary (done++entry::(todo++rest)) := by
      rw [hrequires,append_assoc,cons_append]
    have hshift : done++entry::todo=done++[entry]++todo := by simp
    rw [hshift] at hrequires ⊢
    have hstep := fun array' => @ihtodo array' (done++[entry]) hrequires (hdone.concat htodo)
      htodo.tail fun e he => ih e (mem_cons_of_mem _ he)
    by_cases hmem : entry.1∈array'
    · refine (hstep array' (hadds.listed hmem)).imp ?_ ?_
      · rintro ⟨array'',hadds',hloop⟩
        exact ⟨array'',hadds',fun result h => loopReturns_listed hentry hmem (hloop result h)⟩
      · rintro ⟨array'',hloop,hlimited⟩
        exact ⟨array'',loopReturns_listed hentry hmem hloop,hlimited⟩
    · obtain ⟨⟨result,array1⟩,hreturns,⟨rfl,hadds1⟩ | ⟨rfl,hlimited⟩⟩ :=
        ih entry mem_cons_self array' hadds.1
      · refine (hstep array1 (hadds.visited hadds1)).imp ?_ ?_
        · rintro ⟨array'',hadds',hloop⟩
          exact ⟨array'',hadds',fun result h =>
            loopReturns_visited hentry hmem hreturns (hloop result h)⟩
        · rintro ⟨array'',hloop,hlimited⟩
          exact ⟨array'',loopReturns_visited hentry hmem hreturns hloop,hlimited⟩
      · exact .inr ⟨array1,loopReturns_failed hentry hmem hreturns (by decide),
          hlimited.of_entry hresource hwhole hdone hentry hadds hmem⟩

lemma adds_nil (h : Listed manager array) : Adds manager array array (closures manager []) :=
  ⟨h,fun y => by simp [closures]⟩

lemma limited_of_length (h : array.Nodup) (hlength : 255<array.length) :
    Limited manager (members array) module :=
  ⟨_,ReflTransGen.refl,by rwa [ncard_members h]⟩

lemma sound_returns (hsound : Sound manager module) (array : List Name)
    (hlisted : Listed manager array) :
    ∃ r,Returns manager array module r ∧ Outcome manager array module r := by
  induction hsound generalizing array with
  | resource module hresource =>
    by_cases hfull : 255<array.length
    · exact ⟨_,returns_full hfull,.inr ⟨rfl,limited_of_length hlisted.nodup hfull⟩⟩
    · refine ⟨_,returns_resource hfull hresource,.inl ⟨rfl,hlisted,fun y => ?_⟩⟩
      simp [closure_resource hresource y]
  | absent module hresource hrequires =>
    by_cases hfull : 255<array.length
    · exact ⟨_,returns_full hfull,.inr ⟨rfl,limited_of_length hlisted.nodup hfull⟩⟩
    · refine ⟨_,returns_absent hfull hresource hrequires,.inl ⟨rfl,?_,fun y => ?_⟩⟩
      · refine hlisted.append (.absent module hresource hrequires) hresource ?_
        rintro d ⟨-,entries,hentries,-⟩
        rw [hrequires] at hentries
        cases hentries
      · rw [mem_appendModule,mem_closure_absent hresource hrequires]
  | dictionary module entries hresource hrequires hentries hsound ih =>
    by_cases hfull : 255<array.length
    · exact ⟨_,returns_full hfull,.inr ⟨rfl,limited_of_length hlisted.nodup hfull⟩⟩
    · have hall : AllSound manager entries := fun e he => ⟨hentries e he,hsound e he⟩
      have hloop := @loop_outcome _ _ _ _ _ _ [] entries [] hresource (by simpa using hrequires)
        (fun e he => by cases he) hall ih (adds_nil hlisted)
      simp only [nil_append,append_nil] at hloop
      obtain ⟨array',hadds,hloop⟩ | ⟨array',hloop,hlimited⟩ := hloop
      · refine ⟨_,returns_dictionary hfull hresource hrequires (hloop _ (loopReturns_nil array')),
          .inl ⟨rfl,?_,fun y => ?_⟩⟩
        · refine hadds.1.append (.dictionary module entries hresource hrequires hentries hsound)
            hresource ?_
          rintro d ⟨-,entries',hentries',entry,hmem,rfl⟩ hd
          rw [hrequires] at hentries'
          cases hentries'
          exact (hadds.2 _).mpr (.inr ⟨entry,hmem,ReflTransGen.refl,hd⟩)
        · rw [mem_appendModule,hadds.2,mem_closure_dictionary hresource hrequires,or_assoc,
            or_comm (a := y∈closures manager entries)]
      · exact ⟨_,returns_dictionary_failed hfull hresource hrequires hloop (by decide),
          .inr ⟨rfl,hlimited⟩⟩

/-! ### The limit, and faults -/

lemma loop_before (hresource : (manager.module module).osKernelResource=false)
    (hrequires : (manager.module module).requires=.dictionary (todo++rest))
    (htodo : AllSound manager todo) (hlisted : Listed manager array) :
    (∃ array',Adds manager array array' (closures manager todo) ∧
      ∀ result,LoopReturns manager rest array' result →
        LoopReturns manager (todo++rest) array result) ∨
    ∃ array',LoopReturns manager (todo++rest) array (.error,array') := by
  have hloop := @loop_outcome _ _ _ _ _ _ [] todo rest hresource hrequires
    (fun e he => by cases he) htodo (fun e he array => sound_returns (htodo e he).2 array)
    (adds_nil hlisted)
  refine hloop.imp id ?_
  rintro ⟨array',hloop,-⟩
  exact ⟨array',hloop⟩

lemma limited_returns (hlisted : Listed manager array)
    (hlimited : Limited manager (members array) module) :
    ∃ array',Returns manager array module (.error,array') := by
  obtain ⟨c,hpath,hcard⟩ := hlimited
  generalize hstart : (members array,module)=start at hpath
  induction hpath using ReflTransGen.head_induction_on generalizing array module with
  | refl =>
    subst hstart
    rw [ncard_members hlisted.nodup] at hcard
    exact ⟨array,returns_full hcard⟩
  | head hcomes _ ih =>
    rename_i c' hrest
    subst hstart
    by_cases hfull : 255<array.length
    · exact ⟨array,returns_full hfull⟩
    · obtain ⟨hresource,pre,entry,post,hrequires,hpre,hentry,hname,hset,hnew⟩ := hcomes
      obtain ⟨array1,hadds,hloop⟩ | ⟨array1,hloop⟩ :=
        loop_before hresource hrequires hpre hlisted
      · have hmembers : (members array1,entry.1)=c' :=
          Prod.ext (hadds.members_eq.trans hset.symm) hname
        have hmem : entry.1∉array1 := by
          rw [←hmembers] at hnew
          exact hnew
        obtain ⟨array2,hreturns⟩ := ih hadds.1 hmembers
        exact ⟨array2,returns_dictionary_failed hfull hresource hrequires
          (hloop _ (loopReturns_failed hentry hmem hreturns (by decide))) (by decide)⟩
      · exact ⟨array1,returns_dictionary_failed hfull hresource hrequires hloop (by decide)⟩

lemma error_ne : KEXTReturn.error≠.success := by decide

lemma entryError_ne {result : KEXTReturn} (h : entryError manager entry=some result) :
    result≠.success := by
  unfold entryError at h
  cases hversion : entry.2 with
  | none =>
    rw [hversion] at h
    cases h
    decide
  | some version =>
    simp only [hversion] at h
    split_ifs at h <;> cases h <;> decide

lemma Faulty.not_sound (h : Faulty manager module) : ¬Sound manager module := by
  induction h with
  | other module hresource hrequires =>
    rintro (⟨_,h⟩ | ⟨_,_,h⟩ | ⟨_,entries,_,h,_,_⟩) <;> simp_all
  | refused module pre post entry result hresource hrequires hpre hentry =>
    rintro (⟨_,h⟩ | ⟨_,_,h⟩ | ⟨_,entries,_,h,hall,_⟩)
    · simp_all
    · simp_all
    · rw [hrequires] at h
      cases h
      have := hall entry (by simp)
      rw [hentry] at this
      cases this
  | deeper module pre post entry hresource hrequires hpre hentry _ ih =>
    rintro (⟨_,h⟩ | ⟨_,_,h⟩ | ⟨_,entries,_,h,_,hall⟩)
    · simp_all
    · simp_all
    · rw [hrequires] at h
      cases h
      exact ih (hall entry (by simp))

lemma faulty_returns (hfaulty : Faulty manager module) (hlisted : Listed manager array) :
    ∃ r,Returns manager array module r ∧ r.1≠.success := by
  induction hfaulty generalizing array with
  | other module hresource hrequires =>
    by_cases hfull : 255<array.length
    · exact ⟨_,returns_full hfull,error_ne⟩
    · exact ⟨_,returns_other hfull hresource hrequires,error_ne⟩
  | refused module pre post entry result hresource hrequires hpre hentry =>
    by_cases hfull : 255<array.length
    · exact ⟨_,returns_full hfull,error_ne⟩
    · have hne := entryError_ne hentry
      obtain ⟨array1,-,hloop⟩ | ⟨array1,hloop⟩ := loop_before hresource hrequires hpre hlisted
      · exact ⟨_,returns_dictionary_failed hfull hresource hrequires
          (hloop _ (loopReturns_refused hentry)) hne,hne⟩
      · exact ⟨_,returns_dictionary_failed hfull hresource hrequires hloop error_ne,error_ne⟩
  | deeper module pre post entry hresource hrequires hpre hentry hdeeper ih =>
    by_cases hfull : 255<array.length
    · exact ⟨_,returns_full hfull,error_ne⟩
    · obtain ⟨array1,hadds,hloop⟩ | ⟨array1,hloop⟩ :=
        loop_before hresource hrequires hpre hlisted
      · have hmem : entry.1∉array1 := fun h => hdeeper.not_sound (hadds.1.sound _ h).1
        obtain ⟨⟨result,array2⟩,hreturns,hne⟩ := ih hadds.1
        exact ⟨_,returns_dictionary_failed hfull hresource hrequires
          (hloop _ (loopReturns_failed hentry hmem hreturns hne)) hne,hne⟩
      · exact ⟨_,returns_dictionary_failed hfull hresource hrequires hloop error_ne,error_ne⟩

/-! ### Walks without an end -/

lemma exists_first {α : Type} (p : α → Prop) (l : List α) :
    (∀ x∈l,p x) ∨ ∃ pre x post,l=pre++x::post ∧ (∀ y∈pre,p y) ∧ ¬p x := by
  induction l with
  | nil => exact .inl fun x hx => by cases hx
  | cons x l ih =>
    by_cases hx : p x
    · rcases ih with h | ⟨pre,y,post,rfl,hpre,hy⟩
      · exact .inl (forall_mem_cons.mpr ⟨hx,h⟩)
      · exact .inr ⟨x::pre,y,post,rfl,forall_mem_cons.mpr ⟨hx,hpre⟩,hy⟩
    · exact .inr ⟨[],x,l,rfl,fun y hy => (by cases hy),hx⟩

lemma exists_next (hsound : ¬Sound manager module) (hfaulty : ¬Faulty manager module) :
    (manager.module module).osKernelResource=false ∧ ∃ pre entry post,
      (manager.module module).requires=.dictionary (pre++entry::post) ∧
      AllSound manager pre ∧ entryError manager entry=none ∧ ¬Sound manager entry.1 ∧
      ¬Faulty manager entry.1 := by
  have hresource : (manager.module module).osKernelResource=false := by
    by_contra h
    exact hsound (.resource module (by simpa using h))
  refine ⟨hresource,?_⟩
  cases hrequires : (manager.module module).requires with
  | absent => exact absurd (.absent module hresource hrequires) hsound
  | other => exact absurd (.other module hresource hrequires) hfaulty
  | dictionary entries =>
    rcases exists_first (fun entry => entryError manager entry=none ∧ Sound manager entry.1)
      entries with hall | ⟨pre,entry,post,rfl,hpre,hentry⟩
    · exact absurd (.dictionary module entries hresource hrequires (fun e he => (hall e he).1)
        fun e he => (hall e he).2) hsound
    · cases herror : entryError manager entry with
      | some result =>
        exact absurd (.refused module pre post entry result hresource hrequires hpre herror)
          hfaulty
      | none =>
        refine ⟨pre,entry,post,rfl,hpre,herror,fun h => hentry ⟨herror,h⟩,fun h => ?_⟩
        exact hfaulty (.deeper module pre post entry hresource hrequires hpre herror h)

lemma loop_through {fuel : ℕ} {result : KEXTReturn × List Name}
    (hresource : (manager.module module).osKernelResource=false)
    (hrequires : (manager.module module).requires=.dictionary (done++todo++rest))
    (hdone : AllSound manager done) (htodo : AllSound manager todo)
    (hlimited : ¬Limited manager (members array) module)
    (hadds : Adds manager array array' (closures manager done))
    (h : dependencyLoop manager (graphDependencies manager fuel) (todo++rest) array' =
      some result) : ∃ array'',Adds manager array array'' (closures manager (done++todo)) ∧
      dependencyLoop manager (graphDependencies manager fuel) rest array''=some result := by
  induction todo generalizing done array' with
  | nil =>
    rw [append_nil]
    exact ⟨array',hadds,h⟩
  | cons entry todo ih =>
    obtain ⟨hentry,hsound⟩ := htodo entry mem_cons_self
    have hwhole : (manager.module module).requires=.dictionary (done++entry::(todo++rest)) := by
      rw [hrequires,append_assoc,cons_append]
    have hshift : done++entry::todo=done++[entry]++todo := by simp
    rw [hshift] at hrequires ⊢
    rw [cons_append,dependencyLoop,hentry] at h
    by_cases hmem : entry.1∈array'
    · simp only [if_pos hmem] at h
      exact ih hrequires (hdone.concat htodo) htodo.tail (hadds.listed hmem) h
    · simp only [if_neg hmem] at h
      cases hgraph : graphDependencies manager fuel array' entry.1 with
      | none => simp [hgraph] at h
      | some r =>
        obtain ⟨r',hreturns,houtcome⟩ := sound_returns hsound array' hadds.1
        obtain rfl : r=r' := Returns.unique ⟨fuel,hgraph⟩ hreturns
        rcases houtcome with ⟨hsuccess,hadds1⟩ | ⟨-,hless⟩
        · simp only [hgraph,if_pos hsuccess] at h
          exact ih hrequires (hdone.concat htodo) htodo.tail (hadds.visited hadds1) h
        · exact absurd (hless.of_entry hresource hwhole hdone hentry hadds hmem) hlimited

lemma never_returns (fuel : ℕ) (hsound : ¬Sound manager module)
    (hfaulty : ¬Faulty manager module) (hlisted : Listed manager array)
    (hlimited : ¬Limited manager (members array) module) :
    graphDependencies manager fuel array module=none := by
  induction fuel generalizing module array with
  | zero => rfl
  | succ fuel ih =>
    obtain ⟨hresource,pre,entry,post,hrequires,hpre,hentry,hsound',hfaulty'⟩ :=
      exists_next hsound hfaulty
    have hfull : ¬255<array.length := fun h => hlimited (limited_of_length hlisted.nodup h)
    rw [graphDependencies,if_neg hfull,hresource]
    simp only [hrequires]
    cases hloop : dependencyLoop manager (graphDependencies manager fuel) (pre++entry::post)
        array with
    | none => rfl
    | some result =>
      exfalso
      obtain ⟨array1,hadds,hrest⟩ := @loop_through _ _ _ _ _ _ [] pre (entry::post) _ _ hresource
        (by simpa using hrequires) (fun e he => by cases he) hpre hlimited (adds_nil hlisted) hloop
      rw [nil_append] at hadds
      have hmem : entry.1∉array1 := fun h => hsound' (hadds.1.sound _ h).1
      have hcomes : Comes manager (members array,module) (members array1,entry.1) :=
        ⟨hresource,pre,entry,post,hrequires,hpre,hentry,rfl,hadds.members_eq,hmem⟩
      have hnext : ¬Limited manager (members array1) entry.1 := by
        rintro ⟨c,hpath,hcard⟩
        exact hlimited ⟨c,ReflTransGen.head hcomes hpath,hcard⟩
      have hnone := ih hsound' hfaulty' hadds.1 hnext
      rw [dependencyLoop,hentry] at hrest
      simp [hmem,hnone] at hrest

def Needs (manager : Manager Name) (module dependency : Name) : Prop :=
  dependency∈manager.modules ∧ ∃ entries,
    (manager.module module).requires=.dictionary entries ∧ ∃ entry∈entries,
      entry.1=dependency

def Circular (manager : Manager Name) (module : Name) : Prop :=
  ∃ x,ReflTransGen (Needs manager) module x ∧ TransGen (Needs manager) x x

/-- What is promised for a module: the call returns, and not with a list if a chain is circular. -/
structure Terminates (manager : Manager Name) (module : Name) : Prop where
  returns : ∃ r,Returns manager [] module r
  fails : Circular manager module → ∀ r,Returns manager [] module r → r.1≠.success

/-- A module is appended behind the recursive calls, so that the array does not grow on a circular
chain. -/
theorem terminates_iff (manager : Manager Name) (module : Name) :
    Terminates manager module ↔ Limited manager ∅ module ∨ Faulty manager module ∨
      Sound manager module ∧ ¬Circular manager module := by
  have hempty : members ([] : List Name)=∅ := by
    ext y
    simp
  constructor
  · intro h
    by_cases hlimited : Limited manager ∅ module
    · exact .inl hlimited
    · by_cases hfaulty : Faulty manager module
      · exact .inr (.inl hfaulty)
      · by_cases hsound : Sound manager module
        · refine .inr (.inr ⟨hsound,fun hcircular => ?_⟩)
          obtain ⟨r,hreturns,⟨hsuccess,-⟩ | ⟨-,h'⟩⟩ := sound_returns hsound [] listed_nil
          · exact h.fails hcircular r hreturns hsuccess
          · rw [hempty] at h'
            exact hlimited h'
        · obtain ⟨r,fuel,hreturns⟩ := h.returns
          rw [←hempty] at hlimited
          rw [never_returns fuel hsound hfaulty listed_nil hlimited] at hreturns
          cases hreturns
  · rintro (hlimited | hfaulty | ⟨hsound,hcircular⟩)
    · rw [←hempty] at hlimited
      obtain ⟨array,hreturns⟩ := limited_returns listed_nil hlimited
      refine ⟨⟨_,hreturns⟩,fun _ r hr => ?_⟩
      rw [hr.unique hreturns]
      exact error_ne
    · obtain ⟨r,hreturns,hne⟩ := faulty_returns hfaulty listed_nil
      refine ⟨⟨_,hreturns⟩,fun _ r' hr => ?_⟩
      rwa [hr.unique hreturns]
    · obtain ⟨r,hreturns,-⟩ := sound_returns hsound [] listed_nil
      exact ⟨⟨r,hreturns⟩,fun h => absurd h hcircular⟩

def requireEachOther : Manager (Fin 2) :=
  ⟨Finset.univ,fun i => ⟨false,.dictionary [(1-i,some ['1'])]⟩,fun _ => true⟩

lemma requireEachOther_none (fuel : ℕ) (i : Fin 2) :
    graphDependencies requireEachOther fuel [] i=none := by
  induction fuel generalizing i with
  | zero => rfl
  | succ fuel ih =>
    have hentry : entryError requireEachOther (1-i,some ['1'])=none := by
      revert i
      decide
    have hrequires : (requireEachOther.module i).requires=.dictionary [(1-i,some ['1'])] := rfl
    have hresource : (requireEachOther.module i).osKernelResource=false := rfl
    simp [graphDependencies,hrequires,hresource,dependencyLoop,hentry,ih]

/-- The recursion does not end, and the array stays empty. -/
theorem requireEachOther_not_terminates : ¬Terminates requireEachOther 0 := by
  intro h
  obtain ⟨r,fuel,hreturns⟩ := h.returns
  rw [requireEachOther_none fuel 0] at hreturns
  cases hreturns

end Darwin.Kext.Dependencies
