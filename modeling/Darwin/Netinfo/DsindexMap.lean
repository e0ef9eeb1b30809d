import Darwin.Netinfo.DsindexKeys
import Darwin.Netinfo.DsstoreFiles
import Darwin.Lib.ListIndex

/-! The functions of `common/dsindex.c` that find, insert or delete, as their argument `what` says.
A search that looks at a value or an id that is not there ends with nothing. -/
open List Option Set
namespace Darwin.Netinfo
open Lib Lib.JumpSearch

def dsindexUtil (x : Dsindex) (key : Dsdata) (what : ℤ) : Dsindex × Option ℕ :=
  match x.findIdx? fun kx => key=kx.key with
  | some i => if what<0 then (x.eraseIdx i,none) else (x,some i)
  | none => if what≤0 then (x,none) else (x++[⟨key,[]⟩],some x.length)

def kindexInsertVal (vals : List DsindexVal) (val : Dsdata) (i : ℕ) : List DsindexVal × Option ℕ :=
  if vals=[] then ([⟨val,[]⟩],some 0) else (vals.insertIdx i ⟨val,[]⟩,some i)

def kindexDeleteVal (vals : List DsindexVal) (i : ℕ) : List DsindexVal × Option ℕ :=
  if vals.length ≤ i then (vals,none) else (vals.eraseIdx i,none)

def kindexUtil (vals : List DsindexVal) (val : Dsdata) (what : ℤ) :
    Option (List DsindexVal × Option ℕ) :=
  if vals.length=0 then some (if 0<what then kindexInsertVal vals val 0 else (vals,none))
  else
    match locateRead (fun i => (vals[i]?).map fun vx => dsdataCompare vx.val val) vals.length with
    | none => none
    | some (.found i) => some (if what<0 then kindexDeleteVal vals i else (vals,some i))
    | some (.insert i) => some (if what≤0 then (vals,none) else kindexInsertVal vals val i)

def vindexInsertDsid (ids : List ℕ) (dsid i : ℕ) : List ℕ × ℕ := (ids.insertIdx i dsid,0)

def vindexDeleteDsid (ids : List ℕ) (i : ℕ) : List ℕ × ℕ :=
  if ids.length ≤ i then (ids,0) else (ids.eraseIdx i,0)

def vindexUtil (ids : List ℕ) (dsid : ℕ) (what : ℤ) : Option (List ℕ × ℕ) :=
  if ids.length=0 then some (if 0<what then vindexInsertDsid ids dsid 0 else (ids,0))
  else
    match locateRead (fun i => (ids[i]?).map fun id => compare id dsid) ids.length with
    | none => none
    | some (.found i) => some (if what<0 then vindexDeleteDsid ids i else (ids,1))
    | some (.insert i) => some (if what≤0 then (ids,0) else vindexInsertDsid ids dsid i)

/-- `kindex_util` for a key's values, and `vindex_util` for the value that this returns. -/
def valueUtil (vals : List DsindexVal) (val : Dsdata) (dsid : ℕ) (w what : ℤ) :
    Option (List DsindexVal) :=
  match kindexUtil vals val w with
  | none => none
  | some (vals,none) => some vals
  | some (vals,some j) =>
    match vals[j]? with
    | none => none
    | some vx => (vindexUtil vx.dsid dsid what).map fun r => vals.set j {vx with dsid := r.1}

def keyUtil (x : Dsindex) (key : Dsdata) (w : ℤ)
    (f : List DsindexVal → Option (List DsindexVal)) : Option Dsindex :=
  match dsindexUtil x key w with
  | (x,none) => some x
  | (x,some i) =>
    match x[i]? with
    | none => none
    | some kx => (f kx.vindex).map fun vals => x.set i {kx with vindex := vals}

def dsindexInsert (x : Dsindex) (key val : Dsdata) (dsid : ℕ) : Option Dsindex :=
  keyUtil x key 1 fun vals => valueUtil vals val dsid 1 1

def valuesUtil (dsid : ℕ) (w what : ℤ) : List Dsdata → List DsindexVal → Option (List DsindexVal)
  | [],vals => some vals
  | v::vs,vals => (valueUtil vals v dsid w what).bind (valuesUtil dsid w what vs)

def dsindexAttributeUtil (x : Dsindex) (a : Dsattribute) (dsid : ℕ) (what : ℤ) : Option Dsindex :=
  if dsid=Files.IndexNull then some x
  else
    let w := if 0<what then 1 else 0
    keyUtil x a.key w (valuesUtil dsid w what a.value)

def dsindexRecordUtil (dsid : ℕ) : List Dsattribute → Dsindex → Option Dsindex
  | [],x => some x
  | a::as,x => (dsindexAttributeUtil x a dsid 1).bind (dsindexRecordUtil dsid as)

def dsindexLookup (x : Dsindex) (key val : Dsdata) : Option (Option DsindexVal) :=
  match dsindexUtil x key 0 with
  | (_,none) => some none
  | (x,some i) =>
    match x[i]? with
    | none => none
    | some kx => (kindexUtil kx.vindex val 0).map fun r => r.2.bind (r.1[·]?)

section Searches

variable {vals : List DsindexVal} {val : Dsdata} {ids : List ℕ} {dsid : ℕ}

lemma kindexUtil_eq (vals : List DsindexVal) (val : Dsdata) (what : ℤ) :
    kindexUtil vals val what=some (match locateIn (fun vx => dsdataCompare vx.val val) vals with
      | .found i => if what<0 then kindexDeleteVal vals i else (vals,some i)
      | .insert i => if what≤0 then (vals,none) else kindexInsertVal vals val i) := by
  rw [kindexUtil]
  by_cases h : vals.length=0
  · obtain rfl := length_eq_zero_iff.mp h
    rw [if_pos h]
    change _=some (if what≤0 then ([],none) else kindexInsertVal [] val 0)
    by_cases hw : 0<what
    · rw [if_pos hw,if_neg (not_le.mpr hw)]
    · rw [if_neg hw,if_pos (not_lt.mp hw)]
  · rw [if_neg h,locateRead_list]
    cases locateIn (fun vx => dsdataCompare vx.val val) vals <;> rfl

lemma vindexUtil_eq (ids : List ℕ) (dsid : ℕ) (what : ℤ) :
    vindexUtil ids dsid what=some (match locateIn (fun id => compare id dsid) ids with
      | .found i => if what<0 then vindexDeleteDsid ids i else (ids,1)
      | .insert i => if what≤0 then (ids,0) else vindexInsertDsid ids dsid i) := by
  rw [vindexUtil]
  by_cases h : ids.length=0
  · obtain rfl := length_eq_zero_iff.mp h
    rw [if_pos h]
    change _=some (if what≤0 then ([],0) else vindexInsertDsid [] dsid 0)
    by_cases hw : 0<what
    · rw [if_pos hw,if_neg (not_le.mpr hw)]
    · rw [if_neg hw,if_pos (not_lt.mp hw)]
  · rw [if_neg h,locateRead_list]
    cases locateIn (fun id => compare id dsid) ids <;> rfl

lemma vindexUtil_insert (ids : List ℕ) (dsid : ℕ) :
    (vindexUtil ids dsid 1).map Prod.fst=some (vindexInsert ids dsid) := by
  rw [vindexUtil_eq,vindexInsert,map_some]
  cases locateIn (fun id => compare id dsid) ids <;> rfl

lemma valueUtil_insert (h : ValsOk vals) (val : Dsdata) (dsid : ℕ) :
    valueUtil vals val dsid 1 1=some (kindexInsert vals val dsid) := by
  have hsplit := h.split val
  rw [valueUtil,kindexUtil_eq,kindexInsert]
  cases hplace : locateIn (fun vx => dsdataCompare vx.val val) vals with
  | found i =>
    rw [hplace] at hsplit
    cases hsplit with
    | found l₁ x l₂ hl hx h₁ h₂ =>
      subst hl
      have hget : (l₁++x::l₂)[l₁.length]?=some x := by simp
      obtain ⟨⟨ids,n⟩,hids,hfst⟩ := map_eq_some_iff.mp (vindexUtil_insert x.dsid dsid)
      dsimp only at hfst ⊢
      rw [if_neg (by decide : ¬(1 : ℤ)<0)]
      dsimp only
      rw [hget]
      dsimp only
      rw [hids,map_some,modify_split,hfst,Lib.ListIndex.set_append_cons]
  | insert i =>
    rw [hplace] at hsplit
    cases hsplit with
    | insert l₁ l₂ hl h₁ h₂ =>
      subst hl
      have hins : kindexInsertVal (l₁++l₂) val l₁.length=(l₁++⟨val,[]⟩::l₂,some l₁.length) := by
        rw [kindexInsertVal]
        split_ifs with hnil
        · obtain ⟨rfl,rfl⟩ := append_eq_nil_iff.mp hnil
          rfl
        · rw [insertIdx_split]
      have hget : (l₁++(⟨val,[]⟩ : DsindexVal)::l₂)[l₁.length]?=some ⟨val,[]⟩ := by simp
      obtain ⟨⟨ids,n⟩,hids,hfst⟩ := map_eq_some_iff.mp (vindexUtil_insert [] dsid)
      dsimp only at hfst ⊢
      rw [if_neg (by decide : ¬(1 : ℤ)≤0),hins]
      dsimp only
      rw [hget]
      dsimp only
      rw [hids,map_some,insertIdx_split,hfst,Lib.ListIndex.set_append_cons]

lemma valuesUtil_insert (h : ValsOk vals) (vs : List Dsdata) (dsid : ℕ) :
    valuesUtil dsid 1 1 vs vals =
      some (vs.foldl (fun vals v => kindexInsert vals v dsid) vals) := by
  induction vs generalizing vals with
  | nil => rfl
  | cons v vs ih =>
    rw [valuesUtil,valueUtil_insert h,bind_some,ih (kindexInsert_spec h v dsid).1]
    rfl

lemma atKey_of_notMem {x : Dsindex} {key : Dsdata} {f : List DsindexVal → List DsindexVal}
    (h : ∀ kx∈x,key≠kx.key) : atKey key f x=x++[⟨key,f []⟩] := by
  induction x with
  | nil => rfl
  | cons kx x ih =>
    rw [atKey,if_neg (h kx mem_cons_self),ih fun y hy => h y (mem_cons_of_mem _ hy)]
    rfl

lemma atKey_of_mem {l₁ l₂ : Dsindex} {kx : DsindexKey} {key : Dsdata}
    {f : List DsindexVal → List DsindexVal} (h : ∀ y∈l₁,key≠y.key) (hkx : key=kx.key) :
    atKey key f (l₁++kx::l₂)=l₁ ++ {kx with vindex := f kx.vindex}::l₂ := by
  induction l₁ with
  | nil => exact if_pos hkx
  | cons y l₁ ih =>
    rw [cons_append,atKey,if_neg (h y mem_cons_self),
      ih fun z hz => h z (mem_cons_of_mem _ hz)]
    rfl

lemma dsindexUtil_cases (x : Dsindex) (key : Dsdata) :
    (∃ l₁ kx l₂,x=l₁++kx::l₂ ∧ (∀ y∈l₁,key≠y.key) ∧ key=kx.key ∧
      ∀ what ≥ 0,dsindexUtil x key what=(x,some l₁.length)) ∨ (∀ kx∈x,key≠kx.key) ∧
      (∀ what≤0,dsindexUtil x key what=(x,none)) ∧
      ∀ what > 0,dsindexUtil x key what=(x++[⟨key,[]⟩],some x.length) := by
  cases hidx : x.findIdx? fun kx => key=kx.key with
  | none =>
    refine .inr ⟨fun kx hkx => ?_,fun what hw => ?_,fun what hw => ?_⟩
    · have hno := findIdx?_eq_none_iff.mp hidx kx hkx
      exact of_decide_eq_false hno
    · rw [dsindexUtil,hidx]
      exact if_pos hw
    · rw [dsindexUtil,hidx]
      exact if_neg (not_le.mpr hw)
  | some i =>
    obtain ⟨hi,hkey,hbefore⟩ := findIdx?_eq_some_iff_getElem.mp hidx
    have hlen : (x.take i).length=i := length_take_of_le hi.le
    refine .inl ⟨x.take i,x[i],x.drop (i+1),?_,fun y hy => ?_,of_decide_eq_true hkey,
      fun what hw => ?_⟩
    · rw [←drop_eq_getElem_cons hi,take_append_drop]
    · obtain ⟨j,hj,rfl⟩ := mem_take_iff_getElem.mp hy
      exact fun he => hbefore j (by omega) (decide_eq_true he)
    · rw [dsindexUtil,hidx,hlen]
      exact if_neg (not_lt.mpr hw)

lemma keyUtil_insert {x : Dsindex} (h : IndexOk x) (key : Dsdata)
    {f : List DsindexVal → Option (List DsindexVal)} {g : List DsindexVal → List DsindexVal}
    (hf : ∀ vals,ValsOk vals → f vals=some (g vals)) : keyUtil x key 1 f=some (atKey key g x) := by
  rcases dsindexUtil_cases x key with ⟨l₁,kx,l₂,rfl,hbefore,hkx,hutil⟩ | ⟨hno,-,hutil⟩
  · have hget : (l₁++kx::l₂)[l₁.length]?=some kx := by simp
    have hvals := h.vals kx (mem_append_right _ mem_cons_self)
    rw [keyUtil,hutil 1 (by decide)]
    dsimp only
    rw [hget]
    dsimp only
    rw [hf _ hvals,map_some,Lib.ListIndex.set_append_cons,atKey_of_mem hbefore hkx]
  · have hget : (x++[(⟨key,[]⟩ : DsindexKey)])[x.length]?=some ⟨key,[]⟩ := by simp
    rw [keyUtil,hutil 1 (by decide)]
    dsimp only
    rw [hget]
    dsimp only
    rw [hf [] valsOk_nil,map_some,Lib.ListIndex.set_append_cons,atKey_of_notMem hno]

end Searches

end Darwin.Netinfo

/-! An index is a map from keys to a map from values to sets of ids. Values are the same when
`dsdata_compare` says so, which does not look at their types. -/
namespace Darwin.Netinfo
open Lib Lib.JumpSearch

section Abstract

/-- The keys that are there, and for a key the ids of each value; a value that is there has ids. -/
@[ext]
structure IndexMap where
  keys : Set Dsdata
  ids : Dsdata → List ℕ → Set ℕ
  outside : ∀ k∉keys,∀ b,ids k b=∅

namespace IndexMap

def empty : IndexMap := ⟨∅,fun _ _ => ∅,fun _ _ _ => rfl⟩

def addKey (m : IndexMap) (key : Dsdata) : IndexMap where
  keys := insert key m.keys
  ids := m.ids
  outside k hk := m.outside k fun h => hk (mem_insert_of_mem key h)

def addPair (m : IndexMap) (key : Dsdata) (b : List ℕ) (dsid : ℕ) : IndexMap where
  keys := insert key m.keys
  ids k b' := m.ids k b'∪{c | k=key ∧ b'=b ∧ c=dsid}
  outside k hk b' := by
    rw [m.outside k fun h => hk (mem_insert_of_mem key h)]
    refine eq_empty_of_forall_notMem fun c hc => ?_
    rcases hc with hc | ⟨rfl,-⟩
    · exact hc
    · exact hk (mem_insert k m.keys)

def remove (m : IndexMap) (dsid : ℕ) : IndexMap where
  keys := m.keys
  ids k b := m.ids k b \ {dsid}
  outside k hk b := by rw [m.outside k hk,empty_sdiff]

def addAttribute (m : IndexMap) (a : Dsattribute) (dsid : ℕ) : IndexMap :=
  if dsid=Files.IndexNull then m
  else a.value.foldl (fun m v => m.addPair a.key v.bytes dsid) (m.addKey a.key)

end IndexMap

end Abstract

/-- A call of the interface. -/
inductive IndexCall
  | insertKey (key : Dsdata)
  | insert (key val : Dsdata) (dsid : ℕ)
  | insertAttribute (a : Dsattribute) (dsid : ℕ)
  | insertRecord (attributes : List Dsattribute) (dsid : ℕ)
  | deleteDsid (dsid : ℕ)
  | lookup (key val : Dsdata)

def indexStep (x : Dsindex) : IndexCall → Option Dsindex
  | .insertKey key => some (dsindexUtil x key 1).1
  | .insert key val dsid => dsindexInsert x key val dsid
  | .insertAttribute a dsid => dsindexAttributeUtil x a dsid 1
  | .insertRecord attributes dsid => dsindexRecordUtil dsid attributes x
  | .deleteDsid dsid => some (dsindexDeleteDsid x dsid)
  | .lookup key val => (dsindexLookup x key val).map fun _ => x

def indexCalls (x : Dsindex) : List IndexCall → Option Dsindex
  | [] => some x
  | call::calls => (indexStep x call).bind (indexCalls · calls)

def IndexMap.step (m : IndexMap) : IndexCall → IndexMap
  | .insertKey key => m.addKey key
  | .insert key val dsid => m.addPair key val.bytes dsid
  | .insertAttribute a dsid => m.addAttribute a dsid
  | .insertRecord attributes dsid => attributes.foldl (fun m a => m.addAttribute a dsid) m
  | .deleteDsid dsid => m.remove dsid
  | .lookup _ _ => m

def indexMap (x : Dsindex) : IndexMap where
  keys := {k | HasKey x k}
  ids k b := {c | Holds x k b c}
  outside _ hk _ := eq_empty_of_forall_notMem fun _ hc => hk hc.hasKey

/-- An index that represents a map: no key is twice there, the values of a key strictly ascend in
the order of `dsdata_compare`, each with ids, which strictly ascend; and a lookup finds a value
exactly when it is there, with its ids. -/
structure Represents (x : Dsindex) (m : IndexMap) : Prop where
  map : indexMap x=m
  keys : (x.map DsindexKey.key).Nodup
  values : ∀ kx∈x,kx.vindex.Pairwise fun v w => dsdataCompare v.val w.val=.lt
  ids : ∀ kx∈x,∀ vx∈kx.vindex,vx.dsid≠[] ∧ vx.dsid.Pairwise (· < ·)
  lookup : ∀ key val,∃ found,dsindexLookup x key val=some found ∧
    (found.isSome ↔ (m.ids key val.bytes).Nonempty) ∧
    ∀ vx∈found,dsdataCompare vx.val val=.eq ∧ {c | c∈vx.dsid}=m.ids key val.bytes

section Lookups

variable {x : Dsindex} {vals : List DsindexVal} {key val : Dsdata}

lemma ValsOk.eq_of_bytes (h : ValsOk vals) {vx vy : DsindexVal} (hx : vx∈vals) (hy : vy∈vals)
    (heq : vx.val.bytes=vy.val.bytes) : vx=vy := by
  have hnodup : (vals.map fun vx => vx.val.bytes).Nodup :=
    pairwise_map.mpr (h.ordered.imp fun {a b} hab => ne_of_lt hab)
  exact inj_on_of_nodup_map hnodup hx hy heq

lemma kindexUtil_lookup (h : ValsOk vals) (val : Dsdata) : ∃ i,kindexUtil vals val 0=some (vals,i) ∧
      ((i.bind (vals[·]?)).isSome ↔ ∃ c,Has vals val.bytes c) ∧
      ∀ vx∈i.bind (vals[·]?),
        dsdataCompare vx.val val=.eq ∧ ∀ c,c∈vx.dsid ↔ Has vals val.bytes c := by
  have hsplit := h.split val
  rw [kindexUtil_eq]
  cases hplace : locateIn (fun vx => dsdataCompare vx.val val) vals with
  | found i =>
    rw [hplace] at hsplit
    refine ⟨some i,congrArg some (if_neg (lt_irrefl (0 : ℤ))),?_⟩
    cases hsplit with
    | found l₁ vx l₂ hl hvx h₁ h₂ =>
      have hget : vals[l₁.length]?=some vx := by simp [hl]
      have hmem := mem_of_getElem? hget
      have hbytes := compareBytes_eq.mp hvx
      have hids : ∀ c,c∈vx.dsid ↔ Has vals val.bytes c := by
        refine fun c => ⟨fun hc => ⟨vx,hmem,hbytes,hc⟩,?_⟩
        rintro ⟨vy,hvy,hb,hc⟩
        exact h.eq_of_bytes hvy hmem (hb.trans hbytes.symm)▸hc
      rw [bind_some,hget]
      obtain ⟨c,hc⟩ := exists_mem_of_ne_nil _ (h.nonempty vx hmem)
      refine ⟨iff_of_true rfl ⟨c,(hids c).mp hc⟩,fun vx' hvx' => ?_⟩
      obtain rfl := some.inj hvx'
      exact ⟨hvx,hids⟩
  | insert i =>
    rw [hplace] at hsplit
    refine ⟨none,congrArg some (if_pos (le_refl (0 : ℤ))),iff_of_false Bool.false_ne_true ?_,
      fun vx hvx => absurd hvx.symm (some_ne_none vx)⟩
    cases hsplit with
    | insert l₁ l₂ hl h₁ h₂ =>
      rintro ⟨c,vx,hvx,hb,hc⟩
      have hcmp : dsdataCompare vx.val val=.eq := compareBytes_eq.mpr hb
      rw [hl] at hvx
      rcases mem_append.mp hvx with hvx | hvx
      · rw [h₁ vx hvx] at hcmp
        exact Ordering.noConfusion hcmp
      · rw [h₂ vx hvx] at hcmp
        exact Ordering.noConfusion hcmp

lemma dsindexLookup_spec (h : IndexOk x) (key val : Dsdata) :
    ∃ found,dsindexLookup x key val=some found ∧
      (found.isSome ↔ ((indexMap x).ids key val.bytes).Nonempty) ∧
      ∀ vx∈found,dsdataCompare vx.val val=.eq ∧ {c | c∈vx.dsid}=(indexMap x).ids key val.bytes := by
  rcases dsindexUtil_cases x key with ⟨l₁,kx,l₂,hx,-,hkx,hutil⟩ | ⟨hno,hutil,-⟩
  · have hget : x[l₁.length]?=some kx := by simp [hx]
    have hmem := mem_of_getElem? hget
    have hholds : ∀ c,Has kx.vindex val.bytes c ↔ Holds x key val.bytes c := by
      refine fun c => ⟨fun hc => ⟨kx,hmem,hkx.symm,hc⟩,?_⟩
      rintro ⟨ky,hky,hk,hc⟩
      exact h.eq_of_key hky hmem (hk.trans hkx)▸hc
    obtain ⟨i,hrun,hsome,hfound⟩ := kindexUtil_lookup (h.vals kx hmem) val
    refine ⟨i.bind (kx.vindex[·]?),?_,hsome.trans (exists_congr hholds),fun vx hvx => ?_⟩
    · rw [dsindexLookup,hutil 0 (le_refl 0)]
      dsimp only
      rw [hget]
      dsimp only
      rw [hrun,map_some]
    · obtain ⟨hcmp,hids⟩ := hfound vx hvx
      exact ⟨hcmp,Set.ext fun c => (hids c).trans (hholds c)⟩
  · refine ⟨none,?_,iff_of_false Bool.false_ne_true ?_,
      fun vx hvx => absurd hvx.symm (some_ne_none vx)⟩
    · rw [dsindexLookup,hutil 0 (le_refl 0)]
    · rintro ⟨c,kx,hkx,hk,-⟩
      exact hno kx hkx hk.symm

end Lookups

section Steps

variable {x x' : Dsindex} {key val : Dsdata} {dsid : ℕ}

lemma Extends.indexMap_addKey
    (h : Extends x x' (fun k => k=key) fun _ _ _ => False) :
    indexMap x'=(indexMap x).addKey key := by
  refine IndexMap.ext (Set.ext fun k => ?_) (funext fun k => funext fun b => Set.ext fun c => ?_)
  · exact (h.keys k).trans or_comm
  · exact (h.holds k b c).trans (iff_of_eq (or_false _))

lemma Extends.indexMap_addPair {b : List ℕ}
    (h : Extends x x' (fun k => k=key) fun k b' c => k=key ∧ b'=b ∧ c=dsid) :
    indexMap x'=(indexMap x).addPair key b dsid := by
  refine IndexMap.ext (Set.ext fun k => ?_) (funext fun k => funext fun b' => Set.ext fun c => ?_)
  · exact (h.keys k).trans or_comm
  · exact h.holds k b' c

lemma foldl_addPair (m : IndexMap) (key : Dsdata) (vs : List Dsdata) (dsid : ℕ) (k : Dsdata)
    (b : List ℕ) (c : ℕ) :
    c∈(vs.foldl (fun m v => m.addPair key v.bytes dsid) m).ids k b ↔
      c∈m.ids k b ∨ k=key ∧ (∃ v∈vs,v.bytes=b) ∧ c=dsid := by
  induction vs generalizing m with
  | nil => simp
  | cons v vs ih =>
    rw [foldl_cons,ih,exists_mem_cons_iff]
    change (c∈m.ids k b ∨ k=key ∧ b=v.bytes ∧ c=dsid) ∨ _ ↔ _
    rw [eq_comm (a := b)]
    tauto

lemma keys_foldl_addPair (m : IndexMap) (key : Dsdata) (vs : List Dsdata) (dsid : ℕ) :
    (vs.foldl (fun m v => m.addPair key v.bytes dsid) (m.addKey key)).keys=insert key m.keys := by
  have hkeep : ∀ m : IndexMap,key∈m.keys →
      (vs.foldl (fun m v => m.addPair key v.bytes dsid) m).keys=m.keys := by
    induction vs with
    | nil => exact fun m _ => rfl
    | cons v vs ih =>
      intro m hm
      rw [foldl_cons,ih (m.addPair key v.bytes dsid) (mem_insert key m.keys)]
      exact insert_eq_of_mem hm
  exact hkeep (m.addKey key) (mem_insert key m.keys)

lemma indexMap_insertAttribute (h : IndexOk x) (a : Dsattribute) (dsid : ℕ) :
    indexMap (dsindexInsertAttribute x a dsid) =
      a.value.foldl (fun m v => m.addPair a.key v.bytes dsid) ((indexMap x).addKey a.key) := by
  have hext := insertAttribute_spec h a dsid
  refine IndexMap.ext (Set.ext fun k => ?_) (funext fun k => funext fun b => Set.ext fun c => ?_)
  · rw [keys_foldl_addPair]
    exact (hext.keys k).trans or_comm
  · rw [foldl_addPair]
    exact hext.holds k b c

lemma dsindexUtil_insertKey (x : Dsindex) (key : Dsdata) :
    (dsindexUtil x key 1).1=dsindexInsertKey x key := by
  rcases dsindexUtil_cases x key with ⟨l₁,kx,l₂,rfl,hbefore,hkx,hutil⟩ | ⟨hno,-,hutil⟩
  · rw [hutil 1 (by decide),dsindexInsertKey,atKey_of_mem hbefore hkx]
    rfl
  · rw [hutil 1 (by decide),dsindexInsertKey,atKey_of_notMem hno]
    rfl

lemma indexStep_spec (h : IndexOk x) (call : IndexCall) :
    ∃ x',indexStep x call=some x' ∧ IndexOk x' ∧ indexMap x'=(indexMap x).step call := by
  have hattribute : ∀ {x : Dsindex},IndexOk x → ∀ (a : Dsattribute) (dsid : ℕ),
      ∃ x',dsindexAttributeUtil x a dsid 1=some x' ∧ IndexOk x' ∧
        indexMap x'=(indexMap x).addAttribute a dsid := by
    intro x h a dsid
    rw [dsindexAttributeUtil,IndexMap.addAttribute]
    by_cases hnull : dsid=Files.IndexNull
    · rw [if_pos hnull,if_pos hnull]
      exact ⟨x,rfl,h,rfl⟩
    · rw [if_neg hnull,if_neg hnull]
      exact ⟨_,keyUtil_insert h a.key fun vals hvals => valuesUtil_insert hvals a.value dsid,
        (insertAttribute_spec h a dsid).ok,indexMap_insertAttribute h a dsid⟩
  cases call with
  | insertKey key =>
    refine ⟨_,rfl,?_⟩
    have hext := insertKey_spec h key
    rw [dsindexUtil_insertKey]
    exact ⟨hext.ok,hext.indexMap_addKey⟩
  | insert key val dsid =>
    have hext := atKey_spec h key fun vals hvals => kindexInsert_spec hvals val dsid
    exact ⟨_,keyUtil_insert h key fun vals hvals => valueUtil_insert hvals val dsid,hext.ok,
      hext.indexMap_addPair⟩
  | insertAttribute a dsid => exact hattribute h a dsid
  | insertRecord attributes dsid =>
    change ∃ x',dsindexRecordUtil dsid attributes x=some x' ∧ IndexOk x' ∧
      indexMap x'=attributes.foldl (fun m a => m.addAttribute a dsid) (indexMap x)
    induction attributes generalizing x with
    | nil => exact ⟨x,rfl,h,rfl⟩
    | cons a attributes ih =>
      obtain ⟨y,hy,hok,hmap⟩ := hattribute h a dsid
      obtain ⟨x',hx',hok',hmap'⟩ := ih hok
      refine ⟨x',?_,hok',hmap'.trans (by rw [hmap,foldl_cons])⟩
      rw [dsindexRecordUtil,hy,bind_some,hx']
  | deleteDsid dsid =>
    obtain ⟨hok,hkeys,hholds⟩ := deleteDsid_spec h dsid
    refine ⟨_,rfl,hok,IndexMap.ext (Set.ext hkeys)
      (funext fun k => funext fun b => Set.ext fun c => ?_)⟩
    exact hholds k b c
  | lookup key val =>
    obtain ⟨found,hfound,-⟩ := dsindexLookup_spec h key val
    refine ⟨x,?_,h,rfl⟩
    rw [indexStep,hfound,map_some]

end Steps

lemma represents_indexMap {x : Dsindex} (h : IndexOk x) : Represents x (indexMap x) where
  map := rfl
  keys := h.keys
  values kx hkx := (h.vals kx hkx).ordered.imp fun hlt => compareBytes_lt.mpr hlt
  ids kx hkx vx hvx := ⟨(h.vals kx hkx).nonempty vx hvx,(h.vals kx hkx).ids vx hvx⟩
  lookup := dsindexLookup_spec h

lemma indexCalls_spec {x : Dsindex} (h : IndexOk x) (calls : List IndexCall) :
    ∃ x',indexCalls x calls=some x' ∧ IndexOk x' ∧
      indexMap x'=calls.foldl IndexMap.step (indexMap x) := by
  induction calls generalizing x with
  | nil => exact ⟨x,rfl,h,rfl⟩
  | cons call calls ih =>
    obtain ⟨y,hy,hok,hmap⟩ := indexStep_spec h call
    obtain ⟨x',hx',hok',hmap'⟩ := ih hok
    refine ⟨x',?_,hok',hmap'.trans (by rw [hmap,foldl_cons])⟩
    rw [indexCalls,hy,bind_some,hx']

lemma indexOk_nil : IndexOk [] := ⟨List.Pairwise.nil,fun _ h => absurd h not_mem_nil⟩

lemma indexMap_nil : indexMap []=IndexMap.empty := by
  refine IndexMap.ext (Set.ext fun k => ?_) (funext fun k => funext fun b => Set.ext fun c => ?_)
  · exact iff_of_false (fun ⟨kx,hkx,_⟩ => not_mem_nil hkx) (notMem_empty k)
  · exact iff_of_false (fun ⟨kx,hkx,_⟩ => not_mem_nil hkx) (notMem_empty c)

/-- After any calls on a new index, none of which looks outside a list, the index represents the
map that the calls make. -/
theorem dsindex_represents (calls : List IndexCall) :
    ∃ x,indexCalls [] calls=some x ∧ Represents x (calls.foldl IndexMap.step .empty) := by
  obtain ⟨x,hx,hok,hmap⟩ := indexCalls_spec indexOk_nil calls
  rw [indexMap_nil] at hmap
  exact ⟨x,hx,hmap▸represents_indexMap hok⟩

end Darwin.Netinfo
