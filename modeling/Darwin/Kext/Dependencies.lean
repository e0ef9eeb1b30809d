import Darwin.Kext.Version

/-! The list of modules to load: `_KEXTManagerGraphDependencies` of `kext.subproj/KEXTManager.c`. -/
open Nat
namespace Darwin.Kext.Dependencies

inductive KEXTReturn
  | success | error | missingDependency | moduleDisabled | moduleAlreadyLoaded
  | other (code : ℕ)
  deriving DecidableEq,Repr

/-- The property that names the required modules and versions: it may be absent or something other
than a dictionary. -/
inductive Requires (Name : Type)
  | absent
  | other
  | dictionary (entries : List (Name × Option (List Char)))

structure Module (Name : Type) where
  osKernelResource : Bool
  requires : Requires Name

/-- The modules in the manager's database, each by its name, and which characters can be converted
to Mac Roman. -/
structure Manager (Name : Type) where
  modules : Finset Name
  module : Name → Module Name
  macRoman : Char → Bool

def cfStringToVers (macRoman : Char → Bool) (versionString : List Char) : Option Vers.Version :=
  if versionString.length<31 ∧ versionString.all macRoman=true then
    Vers.versParseString versionString
  else none

variable {Name : Type} [DecidableEq Name] (manager : Manager Name)

def entryError (entry : Name × Option (List Char)) : Option KEXTReturn :=
  match entry.2 with
  | none => some .error
  | some version =>
    if cfStringToVers manager.macRoman version=none then some .error
    else if entry.1∉manager.modules then some .missingDependency
    else none

def dependencyLoop (graph : List Name → Name → Option (KEXTReturn × List Name)) :
    List (Name × Option (List Char)) → List Name → Option (KEXTReturn × List Name)
  | [],array => some (.success,array)
  | entry::rest,array =>
    match entryError manager entry with
    | some result => some (result,array)
    | none =>
      if entry.1∈array then dependencyLoop graph rest array
      else
        match graph array entry.1 with
        | none => none
        | some (result,array) =>
          if result=.success then dependencyLoop graph rest array else some (result,array)

def appendModule (array : List Name) (module : Name) : List Name :=
  if module∈array then array else array++[module]

/-- The result and the array afterwards; nothing if the recursion is deeper than `fuel`. -/
def graphDependencies : ℕ → List Name → Name → Option (KEXTReturn × List Name)
  | 0,_,_ => none
  | fuel+1,array,module =>
    if 255<array.length then some (.error,array)
    else if (manager.module module).osKernelResource then some (.success,array)
    else
      match (manager.module module).requires with
      | .absent => some (.success,appendModule array module)
      | .other => some (.error,array)
      | .dictionary entries =>
        match dependencyLoop manager (graphDependencies fuel) entries array with
        | none => none
        | some (result,array) =>
          if result=.success then some (.success,appendModule array module)
          else some (result,array)

/-! ### Recursion that ends -/

section Fuel
variable {manager}
variable {graph graph' : List Name → Name → Option (KEXTReturn × List Name)}
variable {array : List Name} {module : Name} {result : KEXTReturn × List Name} {fuel fuel' : ℕ}

lemma dependencyLoop_mono (h : ∀ array module r,graph array module=some r →
    graph' array module=some r) {entries : List (Name × Option (List Char))}
    (hloop : dependencyLoop manager graph entries array=some result) :
    dependencyLoop manager graph' entries array=some result := by
  induction entries generalizing array with
  | nil => exact hloop
  | cons entry rest ih =>
    rw [dependencyLoop] at hloop ⊢
    cases herror : entryError manager entry with
    | some e => rwa [herror] at hloop
    | none =>
      simp only [herror] at hloop ⊢
      by_cases hmem : entry.1∈array
      · rw [if_pos hmem] at hloop ⊢
        exact ih hloop
      · rw [if_neg hmem] at hloop ⊢
        cases hgraph : graph array entry.1 with
        | none => simp [hgraph] at hloop
        | some r =>
          simp only [hgraph,h _ _ _ hgraph] at hloop ⊢
          by_cases hr : r.1=.success
          · rw [if_pos hr] at hloop ⊢
            exact ih hloop
          · rwa [if_neg hr] at hloop ⊢

lemma graphDependencies_succ (h : graphDependencies manager fuel array module=some result) :
    graphDependencies manager (fuel+1) array module=some result := by
  induction fuel generalizing array module result with
  | zero => cases h
  | succ fuel ih =>
    rw [graphDependencies] at h ⊢
    split_ifs at h ⊢
    · exact h
    · exact h
    · cases hrequires : (manager.module module).requires with
      | absent => rwa [hrequires] at h
      | other => rwa [hrequires] at h
      | dictionary entries =>
        simp only [hrequires] at h ⊢
        cases hloop : dependencyLoop manager (graphDependencies manager fuel) entries array with
        | none => simp [hloop] at h
        | some r =>
          rw [dependencyLoop_mono (fun _ _ _ => ih) hloop]
          rwa [hloop] at h

lemma graphDependencies_mono (hle : fuel≤fuel')
    (h : graphDependencies manager fuel array module=some result) :
    graphDependencies manager fuel' array module=some result := by
  induction hle with
  | refl => exact h
  | step _ ih => exact graphDependencies_succ ih

end Fuel

def Returns (array : List Name) (module : Name) (result : KEXTReturn × List Name) : Prop :=
  ∃ fuel,graphDependencies manager fuel array module=some result

def LoopReturns (entries : List (Name × Option (List Char))) (array : List Name)
    (result : KEXTReturn × List Name) : Prop :=
  ∃ fuel,dependencyLoop manager (graphDependencies manager fuel) entries array=some result

section Returns
variable {manager}
variable {array array' : List Name} {module : Name} {result result' : KEXTReturn × List Name}
  {entry : Name × Option (List Char)} {entries : List (Name × Option (List Char))}

lemma Returns.unique (h : Returns manager array module result)
    (h' : Returns manager array module result') : result=result' := by
  obtain ⟨fuel,hfuel⟩ := h
  obtain ⟨fuel',hfuel'⟩ := h'
  have := graphDependencies_mono (le_max_left fuel fuel') hfuel
  rw [graphDependencies_mono (le_max_right fuel fuel') hfuel'] at this
  exact (Option.some.inj this).symm

lemma loopReturns_nil (array : List Name) : LoopReturns manager [] array (.success,array) :=
  ⟨0,rfl⟩

lemma loopReturns_refused {e : KEXTReturn} (h : entryError manager entry=some e) :
    LoopReturns manager (entry::entries) array (e,array) :=
  ⟨0,by simp [dependencyLoop,h]⟩

lemma loopReturns_listed (h : entryError manager entry=none) (hmem : entry.1∈array)
    (hloop : LoopReturns manager entries array result) :
    LoopReturns manager (entry::entries) array result := by
  obtain ⟨fuel,hfuel⟩ := hloop
  exact ⟨fuel,by simpa [dependencyLoop,h,hmem] using hfuel⟩

lemma loopReturns_failed {e : KEXTReturn} (h : entryError manager entry=none)
    (hmem : entry.1∉array) (hgraph : Returns manager array entry.1 (e,array'))
    (he : e≠.success) : LoopReturns manager (entry::entries) array (e,array') := by
  obtain ⟨fuel,hfuel⟩ := hgraph
  exact ⟨fuel,by simp [dependencyLoop,h,hmem,hfuel,he]⟩

lemma loopReturns_visited (h : entryError manager entry=none) (hmem : entry.1∉array)
    (hgraph : Returns manager array entry.1 (.success,array'))
    (hloop : LoopReturns manager entries array' result) :
    LoopReturns manager (entry::entries) array result := by
  obtain ⟨fuel,hfuel⟩ := hgraph
  obtain ⟨fuel',hfuel'⟩ := hloop
  refine ⟨max fuel fuel',?_⟩
  rw [dependencyLoop,h]
  simp only [if_neg hmem,graphDependencies_mono (le_max_left fuel fuel') hfuel,if_true]
  exact dependencyLoop_mono
    (fun _ _ _ => graphDependencies_mono (le_max_right fuel fuel')) hfuel'

lemma returns_full (h : 255<array.length) : Returns manager array module (.error,array) :=
  ⟨1,by rw [graphDependencies,if_pos h]⟩

lemma returns_resource (h : ¬255<array.length)
    (hresource : (manager.module module).osKernelResource=true) :
    Returns manager array module (.success,array) :=
  ⟨1,by rw [graphDependencies,if_neg h,if_pos hresource]⟩

lemma returns_absent (h : ¬255<array.length)
    (hresource : (manager.module module).osKernelResource=false)
    (hrequires : (manager.module module).requires=.absent) :
    Returns manager array module (.success,appendModule array module) :=
  ⟨1,by simp [graphDependencies,h,hresource,hrequires]⟩

lemma returns_other (h : ¬255<array.length)
    (hresource : (manager.module module).osKernelResource=false)
    (hrequires : (manager.module module).requires=.other) :
    Returns manager array module (.error,array) :=
  ⟨1,by simp [graphDependencies,h,hresource,hrequires]⟩

lemma returns_dictionary (h : ¬255<array.length)
    (hresource : (manager.module module).osKernelResource=false)
    (hrequires : (manager.module module).requires=.dictionary entries)
    (hloop : LoopReturns manager entries array (.success,array')) :
    Returns manager array module (.success,appendModule array' module) := by
  obtain ⟨fuel,hfuel⟩ := hloop
  exact ⟨fuel+1,by simp [graphDependencies,h,hresource,hrequires,hfuel]⟩

lemma returns_dictionary_failed {e : KEXTReturn} (h : ¬255<array.length)
    (hresource : (manager.module module).osKernelResource=false)
    (hrequires : (manager.module module).requires=.dictionary entries)
    (hloop : LoopReturns manager entries array (e,array')) (he : e≠.success) :
    Returns manager array module (e,array') := by
  obtain ⟨fuel,hfuel⟩ := hloop
  exact ⟨fuel+1,by simp [graphDependencies,h,hresource,hrequires,hfuel,he]⟩

end Returns

end Darwin.Kext.Dependencies
