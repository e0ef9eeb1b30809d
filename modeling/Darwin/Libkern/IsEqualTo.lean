import Mathlib.Data.UInt
import Mathlib.Data.List.TakeWhile
import Mathlib.Tactic

/-! The value classes of `libkern/c++` and their `isEqualTo`. A symbol is the one object that
the symbol pool has for its string, so that two symbols are one object if their strings agree. -/
open List Option Nat Prod
namespace Darwin.Libkern

/-- Finitely nested values. A string has the bytes before its terminator, a dictionary its keys,
which are symbols, with their values. -/
inductive OSObject
  | string (chars : List UInt8)
  | symbol (chars : List UInt8)
  | data (bytes : List UInt8)
  | number (value : UInt64)
  | boolean (value : Bool)
  | array (elements : List OSObject)
  | dictionary (entries : List (List UInt8 × OSObject))
  | set (members : List OSObject)

def cString (chars : List UInt8) : List UInt8 := chars.takeWhile (·≠0)

namespace OSString

def isEqualToString (chars other : List UInt8) : Bool :=
  if chars.length≠other.length then false else cString chars == cString other

/-- `OSString::isEqualTo(const OSData *)`. The member `length` counts the terminator. -/
def isEqualToData (chars bytes : List UInt8) : Bool :=
  let string := chars++[0]
  if bytes.length≠string.length then
    if bytes.length=string.length+1 then
      if bytes.getLast?≠some 0 then false
      else bytes.take (bytes.length-1) == string.take (bytes.length-1)
    else false
  else bytes == string

end OSString

namespace OSData

def isEqualToData (bytes other : List UInt8) : Bool :=
  if bytes.length≠other.length then false else bytes == other

/-- `OSData::isEqualTo(const OSString *)`. Here the length is that of `getLength`, without the
terminator. -/
def isEqualToString (bytes chars : List UInt8) : Bool :=
  if chars.length≠bytes.length then
    if bytes.length=chars.length+1 then
      if bytes.getLast?≠some 0 then false
      else bytes.take (bytes.length-1) == chars.take (bytes.length-1)
    else false
  else bytes == chars

end OSData

namespace OSObject

mutual

def isEqualTo : OSObject → OSObject → Bool
  | .string chars,.string other => OSString.isEqualToString chars other
  | .string chars,.symbol other => OSString.isEqualToString chars other
  | .string chars,.data bytes => OSString.isEqualToData chars bytes
  | .symbol chars,.symbol other => chars == other
  | .symbol chars,.string other => OSString.isEqualToString chars other
  | .data bytes,.data other => OSData.isEqualToData bytes other
  | .data bytes,.string chars => OSData.isEqualToString bytes chars
  | .data bytes,.symbol chars => OSData.isEqualToString bytes chars
  | .number value,.number other => value == other
  | .boolean value,.boolean other => value == other
  | .array elements,.array others =>
    if elements.length≠others.length then false else arrayLoop elements others
  | .dictionary entries,.dictionary others =>
    if entries.length≠others.length then false else dictionaryLoop entries others
  | .set members,.set others =>
    if members.length≠others.length then false else setLoop members others
  | _,_ => false
termination_by a b => sizeOf a+sizeOf b

def arrayLoop : List OSObject → List OSObject → Bool
  | x::xs,y::ys => isEqualTo x y && arrayLoop xs ys
  | _,_ => true
termination_by xs ys => sizeOf xs+sizeOf ys

def setLoop : List OSObject → List OSObject → Bool
  | x::xs,y::ys => isEqualTo y x && setLoop xs ys
  | _,_ => true
termination_by xs ys => sizeOf xs+sizeOf ys

def dictionaryLoop : List (List UInt8 × OSObject) → List (List UInt8 × OSObject) → Bool
  | (key,value)::entries,others =>
    valueIsEqualTo key value others && dictionaryLoop entries others
  | [],_ => true
termination_by entries others => sizeOf entries+sizeOf others

/-- `getObject` of the other dictionary and the comparison with what it finds. -/
def valueIsEqualTo (key : List UInt8) (value : OSObject) : List (List UInt8 × OSObject) → Bool
  | [] => false
  | (key',other)::others =>
    if key=key' then isEqualTo value other else valueIsEqualTo key value others
termination_by others => sizeOf value+sizeOf others

end

end OSObject
end Darwin.Libkern

/-! `isEqualTo` compares what the objects stand for, as long as no data object is compared with
a string: a data object may stand for a string with or without its terminator. -/
namespace Darwin.Libkern

/-- What an object stands for. A dictionary is a finite map, a string what `strcmp` and the
length tell of it. -/
inductive Meaning
  | text (length : ℕ) (chars : List UInt8)
  | bytes (bytes : List UInt8)
  | number (value : UInt64)
  | boolean (value : Bool)
  | array (elements : List Meaning)
  | dictionary (value : List UInt8 → Option Meaning)
  | set (members : List Meaning)

namespace OSObject

mutual

def meaning : OSObject → Meaning
  | .string chars => .text chars.length (cString chars)
  | .symbol chars => .text chars.length (cString chars)
  | .data bytes => .bytes bytes
  | .number value => .number value
  | .boolean value => .boolean value
  | .array elements => .array (meanings elements)
  | .dictionary entries => .dictionary fun key => meaningAt key entries
  | .set members => .set (meanings members)
termination_by a => sizeOf a

def meanings : List OSObject → List Meaning
  | [] => []
  | x::xs => meaning x::meanings xs
termination_by xs => sizeOf xs

def meaningAt (key : List UInt8) : List (List UInt8 × OSObject) → Option Meaning
  | [] => none
  | (key',value)::entries => if key=key' then some (meaning value) else meaningAt key entries
termination_by entries => sizeOf entries

end

/-- A symbol's string comes from a C string; a dictionary has each key once. -/
inductive WellFormed : OSObject → Prop
  | string (chars : List UInt8) : WellFormed (.string chars)
  | symbol (chars : List UInt8) (h : ∀ c,c∈chars → c≠0) : WellFormed (.symbol chars)
  | data (bytes : List UInt8) : WellFormed (.data bytes)
  | number (value : UInt64) : WellFormed (.number value)
  | boolean (value : Bool) : WellFormed (.boolean value)
  | array (elements : List OSObject) (h : ∀ x,x∈elements → WellFormed x) :
      WellFormed (.array elements)
  | dictionary (entries : List (List UInt8 × OSObject)) (hkeys : (entries.map fst).Nodup)
      (h : ∀ key x,(key,x)∈entries → WellFormed x) : WellFormed (.dictionary entries)
  | set (members : List OSObject) (h : ∀ x,x∈members → WellFormed x) : WellFormed (.set members)

/-- Somewhere a data object in one value stands where the other has a string or a symbol. -/
inductive Mixed : OSObject → OSObject → Prop
  | dataString (bytes chars : List UInt8) : Mixed (.data bytes) (.string chars)
  | dataSymbol (bytes chars : List UInt8) : Mixed (.data bytes) (.symbol chars)
  | stringData (chars bytes : List UInt8) : Mixed (.string chars) (.data bytes)
  | symbolData (chars bytes : List UInt8) : Mixed (.symbol chars) (.data bytes)
  | array {xs ys : List OSObject} {x y : OSObject} (i : ℕ) (hx : xs[i]?=some x)
      (hy : ys[i]?=some y) (h : Mixed x y) : Mixed (.array xs) (.array ys)
  | dictionary {d e : List (List UInt8 × OSObject)} {x y : OSObject} (key : List UInt8)
      (hx : (key,x)∈d) (hy : (key,y)∈e) (h : Mixed x y) : Mixed (.dictionary d) (.dictionary e)
  | set {xs ys : List OSObject} {x y : OSObject} (i : ℕ) (hx : xs[i]?=some x)
      (hy : ys[i]?=some y) (h : Mixed x y) : Mixed (.set xs) (.set ys)

lemma Mixed.symm {a b : OSObject} (h : Mixed a b) : Mixed b a := by
  induction h with
  | dataString bytes chars => exact .stringData chars bytes
  | dataSymbol bytes chars => exact .symbolData chars bytes
  | stringData chars bytes => exact .dataString bytes chars
  | symbolData chars bytes => exact .dataSymbol bytes chars
  | array i hx hy _ ih => exact .array i hy hx ih
  | dictionary key hx hy _ ih => exact .dictionary key hy hx ih
  | set i hx hy _ ih => exact .set i hy hx ih

/-! ### Strings and symbols -/

lemma isEqualToString_iff (chars other : List UInt8) : OSString.isEqualToString chars other=true ↔
      chars.length=other.length ∧ cString chars=cString other := by
  rw [OSString.isEqualToString]
  split_ifs with h
  · exact iff_of_false (by simp) fun heq => h heq.1
  · rw [beq_iff_eq]
    exact ⟨fun heq => ⟨not_not.mp h,heq⟩,fun heq => heq.2⟩

lemma cString_eq_self {chars : List UInt8} (h : ∀ c,c∈chars → c≠0) : cString chars=chars :=
  takeWhile_eq_self_iff.mpr fun c hc => decide_eq_true (h c hc)

/-! ### Collections, given what is known of their elements -/

variable {entries : List (List UInt8 × OSObject)} {key : List UInt8} {xs ys : List OSObject}

lemma arrayLoop_iff (hlen : xs.length=ys.length)
    (h : ∀ (i : ℕ) x y,xs[i]?=some x → ys[i]?=some y → (isEqualTo x y=true ↔ meaning x=meaning y)) :
    arrayLoop xs ys=true ↔ meanings xs=meanings ys := by
  induction xs generalizing ys with
  | nil =>
    cases ys with
    | nil => simp [arrayLoop]
    | cons y ys => cases hlen
  | cons x xs ih =>
    cases ys with
    | nil => cases hlen
    | cons y ys =>
      have hhead := h 0 x y rfl rfl
      have htail := ih (succ.inj hlen) fun i => h (i+1)
      rw [arrayLoop,Bool.and_eq_true,hhead,htail,meanings,meanings,List.cons.injEq]

lemma setLoop_iff (hlen : xs.length=ys.length)
    (h : ∀ (i : ℕ) x y,xs[i]?=some x → ys[i]?=some y → (isEqualTo y x=true ↔ meaning y=meaning x)) :
    setLoop xs ys=true ↔ meanings xs=meanings ys := by
  induction xs generalizing ys with
  | nil =>
    cases ys with
    | nil => simp [setLoop]
    | cons y ys => cases hlen
  | cons x xs ih =>
    cases ys with
    | nil => cases hlen
    | cons y ys =>
      have hhead := h 0 x y rfl rfl
      have htail := ih (succ.inj hlen) fun i => h (i+1)
      rw [setLoop,Bool.and_eq_true,hhead,htail,meanings,meanings,List.cons.injEq,eq_comm]

lemma meanings_length (xs : List OSObject) : (meanings xs).length=xs.length := by
  induction xs with
  | nil => simp [meanings]
  | cons x xs ih => rw [meanings,length_cons,length_cons,ih]

lemma meaningAt_eq_none : meaningAt key entries=none ↔ key∉entries.map Prod.fst := by
  induction entries with
  | nil => simp [meaningAt]
  | cons entry entries ih =>
    obtain ⟨key',value⟩ := entry
    rw [meaningAt,map_cons,mem_cons,not_or]
    split_ifs with hkey
    · simp [hkey]
    · rw [ih]
      exact ⟨fun h => ⟨hkey,h⟩,fun h => h.2⟩

lemma meaningAt_of_mem {value : OSObject}
    (hkeys : (entries.map Prod.fst).Nodup)
    (h : (key,value)∈entries) : meaningAt key entries=some (meaning value) := by
  induction entries with
  | nil => cases h
  | cons entry entries ih =>
    obtain ⟨key',value'⟩ := entry
    rw [map_cons,nodup_cons] at hkeys
    rw [meaningAt]
    rcases mem_cons.mp h with heq | h
    · cases heq
      rw [if_pos rfl]
    · have hkey : key∈entries.map Prod.fst := mem_map.mpr ⟨_,h,rfl⟩
      have hne : key≠key' := fun h => hkeys.1 (h▸hkey)
      rw [if_neg hne,ih hkeys.2 h]

lemma valueIsEqualTo_iff {value : OSObject}
    {others : List (List UInt8 × OSObject)} (hkeys : (others.map Prod.fst).Nodup) :
    valueIsEqualTo key value others=true ↔
      ∃ other,(key,other)∈others ∧ isEqualTo value other=true := by
  induction others with
  | nil => simp [valueIsEqualTo]
  | cons entry others ih =>
    obtain ⟨key',other⟩ := entry
    rw [map_cons,nodup_cons] at hkeys
    rw [valueIsEqualTo]
    split_ifs with hkey
    · subst hkey
      refine ⟨fun h => ⟨other,mem_cons_self,h⟩,?_⟩
      rintro ⟨other',hmem,h⟩
      rcases mem_cons.mp hmem with heq | hmem
      · cases heq
        exact h
      · exact absurd (mem_map.mpr ⟨_,hmem,rfl⟩) hkeys.1
    · rw [ih hkeys.2]
      constructor
      · rintro ⟨other',hmem,h⟩
        exact ⟨other',mem_cons_of_mem _ hmem,h⟩
      · rintro ⟨other',hmem,h⟩
        rcases mem_cons.mp hmem with heq | hmem
        · cases heq
          exact absurd rfl hkey
        · exact ⟨other',hmem,h⟩

lemma dictionaryLoop_iff {entries others : List (List UInt8 × OSObject)} :
    dictionaryLoop entries others=true ↔
      ∀ key value,(key,value)∈entries → valueIsEqualTo key value others=true := by
  induction entries with
  | nil => simp [dictionaryLoop]
  | cons entry entries ih =>
    obtain ⟨key,value⟩ := entry
    rw [dictionaryLoop,Bool.and_eq_true,ih]
    constructor
    · rintro ⟨hhead,htail⟩ key' value' hmem
      rcases mem_cons.mp hmem with heq | hmem
      · cases heq
        exact hhead
      · exact htail key' value' hmem
    · exact fun h => ⟨h key value mem_cons_self,
        fun key' value' hmem => h key' value' (mem_cons_of_mem _ hmem)⟩

lemma dictionary_iff {entries others : List (List UInt8 × OSObject)}
    (hlen : entries.length=others.length) (hkeys : (entries.map fst).Nodup)
    (hkeys' : (others.map fst).Nodup)
    (h : ∀ key x y,(key,x)∈entries → (key,y)∈others →
      (isEqualTo x y=true ↔ meaning x=meaning y)) : dictionaryLoop entries others=true ↔
      (fun key => meaningAt key entries)=fun key => meaningAt key others := by
  rw [dictionaryLoop_iff]
  constructor
  · intro hall
    have hsub : entries.map fst⊆others.map fst := by
      intro key hkey
      obtain ⟨⟨key,value⟩,hmem,rfl⟩ := mem_map.mp hkey
      obtain ⟨other,hother,-⟩ := (valueIsEqualTo_iff hkeys').mp (hall key value hmem)
      exact mem_map.mpr ⟨_,hother,rfl⟩
    have hperm : (entries.map fst).Perm (others.map fst) :=
      (subperm_of_subset hkeys hsub).perm_of_length_le (by simp [hlen])
    funext key
    by_cases hkey : key∈entries.map fst
    · obtain ⟨⟨key,value⟩,hmem,rfl⟩ := mem_map.mp hkey
      obtain ⟨other,hother,heq⟩ := (valueIsEqualTo_iff hkeys').mp (hall key value hmem)
      rw [meaningAt_of_mem hkeys hmem,meaningAt_of_mem hkeys' hother,
        (h key value other hmem hother).mp heq]
    · rw [meaningAt_eq_none.mpr hkey,meaningAt_eq_none.mpr fun hmem => hkey (hperm.mem_iff.mpr hmem)]
  · intro hsame key value hmem
    have hat : meaningAt key entries=meaningAt key others := congrFun hsame key
    rw [meaningAt_of_mem hkeys hmem] at hat
    have hkey : key∈others.map fst := by
      by_contra hnot
      rw [meaningAt_eq_none.mpr hnot] at hat
      cases hat
    obtain ⟨⟨key,other⟩,hother,rfl⟩ := mem_map.mp hkey
    rw [meaningAt_of_mem hkeys' hother] at hat
    exact (valueIsEqualTo_iff hkeys').mpr
      ⟨other,hother,(h key value other hmem hother).mpr (some.inj hat)⟩

lemma sizeOf_entry_lt {x : OSObject}
    (h : (key,x)∈entries) : sizeOf x<sizeOf entries := by
  have := sizeOf_lt_of_mem h
  simp only [Prod.mk.sizeOf_spec] at this
  omega

lemma sizeOf_getElem?_lt {xs : List OSObject} {i : ℕ} {x : OSObject} (h : xs[i]?=some x) :
    sizeOf x<sizeOf xs := sizeOf_lt_of_mem (mem_of_getElem? h)

lemma isEqualTo_iff {a b : OSObject} (ha : WellFormed a) (hb : WellFormed b)
    (hmix : ¬Mixed a b) : isEqualTo a b=true ↔ meaning a=meaning b := by
  obtain ⟨n,hn⟩ : ∃ n,sizeOf a+sizeOf b<n := ⟨_,lt_succ_self _⟩
  induction n generalizing a b with
  | zero => omega
  | succ n ih =>
    cases ha with
    | string chars =>
      cases hb with
      | string other => simp [isEqualTo,meaning,isEqualToString_iff]
      | symbol other => simp [isEqualTo,meaning,isEqualToString_iff]
      | data bytes => exact absurd (Mixed.stringData chars bytes) hmix
      | _ => simp [isEqualTo,meaning]
    | symbol chars hchars =>
      cases hb with
      | string other => simp [isEqualTo,meaning,isEqualToString_iff]
      | symbol other hother =>
        -- a symbol is the one object for its string
        rw [isEqualTo,meaning,meaning,cString_eq_self hchars,cString_eq_self hother,beq_iff_eq,
          Meaning.text.injEq]
        exact ⟨fun h => ⟨congrArg List.length h,h⟩,fun h => h.2⟩
      | data bytes => exact absurd (Mixed.symbolData chars bytes) hmix
      | _ => simp [isEqualTo,meaning]
    | data bytes =>
      cases hb with
      | string chars => exact absurd (Mixed.dataString bytes chars) hmix
      | symbol chars => exact absurd (Mixed.dataSymbol bytes chars) hmix
      | data other =>
        rw [isEqualTo,meaning,meaning,OSData.isEqualToData,Meaning.bytes.injEq]
        split_ifs with hlen
        · exact iff_of_false (by simp) fun h => hlen (congrArg List.length h)
        · exact beq_iff_eq
      | _ => simp [isEqualTo,meaning]
    | number value => cases hb <;> simp [isEqualTo,meaning]
    | boolean value => cases hb <;> simp [isEqualTo,meaning]
    | array xs hxs =>
      cases hb with
      | array ys hys =>
        rw [isEqualTo,meaning,meaning,Meaning.array.injEq]
        split_ifs with hlen
        · refine iff_of_false (by simp) fun h => hlen ?_
          rw [←meanings_length,h,meanings_length]
        · refine arrayLoop_iff (not_not.mp hlen) fun i x y hx hy => ?_
          have hx' := sizeOf_getElem?_lt hx
          have hy' := sizeOf_getElem?_lt hy
          simp only [array.sizeOf_spec] at hn
          exact ih (hxs x (mem_of_getElem? hx)) (hys y (mem_of_getElem? hy))
            (fun h => hmix (.array i hx hy h)) (by omega)
      | _ => simp [isEqualTo,meaning]
    | dictionary d hkeys hd =>
      cases hb with
      | dictionary e hkeys' he =>
        rw [isEqualTo,meaning,meaning,Meaning.dictionary.injEq]
        split_ifs with hlen
        · refine iff_of_false (by simp) fun h => hlen ?_
          have hsame : ∀ key,key∈d.map fst ↔ key∈e.map fst := fun key => by
            have hat : meaningAt key d=meaningAt key e := congrFun h key
            exact not_iff_not.mp (by rw [←meaningAt_eq_none,←meaningAt_eq_none,hat])
          have hperm := (perm_ext_iff_of_nodup hkeys hkeys').mpr hsame
          simpa using hperm.length_eq
        · refine dictionary_iff (not_not.mp hlen) hkeys hkeys' fun key x y hx hy => ?_
          have hx' := sizeOf_entry_lt hx
          have hy' := sizeOf_entry_lt hy
          simp only [dictionary.sizeOf_spec] at hn
          exact ih (hd key x hx) (he key y hy) (fun h => hmix (.dictionary key hx hy h)) (by omega)
      | _ => simp [isEqualTo,meaning]
    | set xs hxs =>
      cases hb with
      | set ys hys =>
        rw [isEqualTo,meaning,meaning,Meaning.set.injEq]
        split_ifs with hlen
        · refine iff_of_false (by simp) fun h => hlen ?_
          rw [←meanings_length,h,meanings_length]
        · refine setLoop_iff (not_not.mp hlen) fun i x y hx hy => ?_
          have hx' := sizeOf_getElem?_lt hx
          have hy' := sizeOf_getElem?_lt hy
          simp only [set.sizeOf_spec] at hn
          exact ih (hys y (mem_of_getElem? hy)) (hxs x (mem_of_getElem? hx))
            (fun h => hmix (.set i hx hy h.symm)) (by omega)
      | _ => simp [isEqualTo,meaning]

lemma not_mixed_self {a : OSObject} (ha : WellFormed a) : ¬Mixed a a := by
  have hne : ∀ {a b : OSObject},Mixed a b → WellFormed a → a≠b := by
    intro a b h
    induction h with
    | array i hx hy _ ih =>
      rintro hwf heq
      cases heq
      cases hwf with
      | array _ hxs => exact ih (hxs _ (mem_of_getElem? hx)) (some.inj (hx.symm.trans hy))
    | set i hx hy _ ih =>
      rintro hwf heq
      cases heq
      cases hwf with
      | set _ hxs => exact ih (hxs _ (mem_of_getElem? hx)) (some.inj (hx.symm.trans hy))
    | dictionary key hx hy _ ih =>
      rintro hwf heq
      cases heq
      cases hwf with
      | dictionary _ hkeys hd =>
        have heq := inj_on_of_nodup_map hkeys hx hy rfl
        exact ih (hd key _ hx) (congrArg snd heq)
    | _ => rintro-heq; cases heq
  exact fun h => hne h ha rfl

lemma meanings_getElem? (xs : List OSObject) (i : ℕ) : (meanings xs)[i]?=xs[i]?.map meaning := by
  induction xs generalizing i with
  | nil => simp [meanings]
  | cons x xs ih =>
    rw [meanings]
    cases i with
    | zero => rfl
    | succ i => exact ih i

lemma exists_getElem?_of_meanings (h : meanings xs=meanings ys) {i : ℕ}
    {x : OSObject} (hx : xs[i]?=some x) : ∃ y,ys[i]?=some y ∧ meaning x=meaning y := by
  have hi := meanings_getElem? xs i
  rw [h,meanings_getElem?,hx,map_some] at hi
  obtain ⟨y,hy,heq⟩ := map_eq_some_iff.mp hi
  exact ⟨y,hy,heq.symm⟩

lemma exists_mem_of_meaningAt {m : Meaning}
    (h : meaningAt key entries=some m) : ∃ value,(key,value)∈entries ∧ meaning value=m := by
  induction entries with
  | nil => simp [meaningAt] at h
  | cons entry entries ih =>
    obtain ⟨key',value⟩ := entry
    rw [meaningAt] at h
    split_ifs at h with hkey
    · exact ⟨value,by rw [hkey]; exact mem_cons_self,some.inj h⟩
    · obtain ⟨value',hmem,hm⟩ := ih h
      exact ⟨value',mem_cons_of_mem _ hmem,hm⟩

lemma Mixed.congr_left {a c : OSObject} (h : Mixed a c) {b : OSObject} (ha : WellFormed a)
    (hm : meaning a=meaning b) : Mixed b c := by
  induction h generalizing b with
  | dataString bytes chars =>
    cases b <;> simp only [meaning,reduceCtorEq] at hm
    exact .dataString _ chars
  | dataSymbol bytes chars =>
    cases b <;> simp only [meaning,reduceCtorEq] at hm
    exact .dataSymbol _ chars
  | stringData chars bytes =>
    cases b <;> simp only [meaning,reduceCtorEq] at hm
    · exact .stringData _ bytes
    · exact .symbolData _ bytes
  | symbolData chars bytes =>
    cases b <;> simp only [meaning,reduceCtorEq] at hm
    · exact .stringData _ bytes
    · exact .symbolData _ bytes
  | array i hx hy _ ih =>
    cases ha with
    | array _ hxs =>
      cases b <;> simp only [meaning,reduceCtorEq,Meaning.array.injEq] at hm
      obtain ⟨z,hz,heq⟩ := exists_getElem?_of_meanings hm hx
      exact .array i hz hy (ih (hxs _ (mem_of_getElem? hx)) heq)
  | set i hx hy _ ih =>
    cases ha with
    | set _ hxs =>
      cases b <;> simp only [meaning,reduceCtorEq,Meaning.set.injEq] at hm
      obtain ⟨z,hz,heq⟩ := exists_getElem?_of_meanings hm hx
      exact .set i hz hy (ih (hxs _ (mem_of_getElem? hx)) heq)
  | dictionary key hx hy _ ih =>
    cases ha with
    | dictionary _ hkeys hd =>
      cases b <;> simp only [meaning,reduceCtorEq,Meaning.dictionary.injEq] at hm
      have hat := (congrFun hm key).symm.trans (meaningAt_of_mem hkeys hx)
      obtain ⟨z,hz,heq⟩ := exists_mem_of_meaningAt hat
      exact .dictionary key hz hy (ih (hd key _ hx) heq.symm)

lemma take_eq_iff_terminated {bytes chars : List UInt8} (hlen : bytes.length=chars.length+1)
    (hlast : bytes.getLast?=some 0) :
    bytes.take (bytes.length-1)=chars.take (bytes.length-1) ↔ bytes=chars++[0] := by
  obtain ⟨init,rfl⟩ : ∃ init,bytes=init++[0] := getLast?_eq_some_iff.mp hlast
  have hinit : init.length=chars.length := by simpa using hlen
  rw [hlen,Nat.add_sub_cancel,take_length,←hinit,take_left,append_left_inj]

lemma isEqualToString_data_iff (bytes chars : List UInt8) :
    OSData.isEqualToString bytes chars=true ↔ bytes=chars ∨ bytes=chars++[0] := by
  rw [OSData.isEqualToString]
  split_ifs with hlen hone hlast
  · refine iff_of_false (by simp) ?_
    rintro (rfl | rfl)
    · exact hlen rfl
    · exact hlast (by simp)
  · rw [beq_iff_eq,take_eq_iff_terminated hone (not_not.mp hlast)]
    refine ⟨Or.inr,fun h => h.resolve_left fun heq => hlen (by rw [heq])⟩
  · refine iff_of_false (by simp) ?_
    rintro (rfl | rfl)
    · exact hlen rfl
    · exact hone (by simp)
  · rw [beq_iff_eq]
    refine ⟨Or.inl,fun h => h.resolve_right fun heq => ?_⟩
    have := congrArg List.length heq
    rw [length_append,length_singleton] at this
    omega

/-- `isEqualTo` is reflexive; it is symmetric and transitive where no data object is compared
with a string or a symbol; a data object equals a string or symbol that it holds with or
without the terminator. -/
theorem isEqualTo_equivalence : (∀ a,WellFormed a → isEqualTo a a=true) ∧
    (∀ a b,WellFormed a → WellFormed b → ¬Mixed a b → isEqualTo a b=isEqualTo b a) ∧
    (∀ a b c,WellFormed a → WellFormed b → WellFormed c → ¬Mixed a b → ¬Mixed b c →
      isEqualTo a b=true → isEqualTo b c=true → isEqualTo a c=true) ∧ ∀ bytes chars,
      (isEqualTo (.data bytes) (.string chars)=true ↔ bytes=chars ∨ bytes=chars++[0]) ∧
      (isEqualTo (.data bytes) (.symbol chars)=true ↔ bytes=chars ∨ bytes=chars++[0]) := by
  refine ⟨fun a ha => ?_,fun a b ha hb hmix => ?_,fun a b c ha hb hc hab hbc h1 h2 => ?_,
    fun bytes chars => ?_⟩
  · exact (isEqualTo_iff ha ha (not_mixed_self ha)).mpr rfl
  · rw [Bool.eq_iff_iff,isEqualTo_iff ha hb hmix,isEqualTo_iff hb ha fun h => hmix h.symm]
    exact eq_comm
  · rw [isEqualTo_iff ha hb hab] at h1
    rw [isEqualTo_iff hb hc hbc] at h2
    rw [isEqualTo_iff ha hc fun h => hbc (h.congr_left ha h1)]
    exact h1.trans h2
  · rw [isEqualTo,isEqualTo]
    exact ⟨isEqualToString_data_iff bytes chars,isEqualToString_data_iff bytes chars⟩

theorem isEqualTo_equivalence_text : isEqualTo (.string [0x61]) (.string [0x61])=true :=
  isEqualTo_equivalence.2.2.1 (.string [0x61]) (.symbol [0x61]) (.string [0x61]) (.string _)
    (.symbol _ (forall_mem_singleton.mpr (by decide))) (.string _) (fun h => nomatch h)
    (fun h => nomatch h)
    (by rw [isEqualTo]; decide) (by rw [isEqualTo]; decide)

/-- A string equals a data object with its bytes and one with a terminator besides, which are
not equal; and the string is not equal to the first one when it is asked itself. -/
theorem isEqualTo_not_transitive : isEqualTo (.data [0x61]) (.string [0x61])=true ∧
      isEqualTo (.string [0x61]) (.data [0x61,0])=true ∧
      isEqualTo (.data [0x61]) (.data [0x61,0])=false ∧
      isEqualTo (.string [0x61]) (.data [0x61])=false := by
  simp only [isEqualTo]
  decide

end OSObject
end Darwin.Libkern
