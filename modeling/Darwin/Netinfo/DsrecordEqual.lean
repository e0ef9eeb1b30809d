import Darwin.Netinfo.DsengineIndex
import Darwin.Lib.Inclusion

/-! Equality and matching, from `common/dsrecord.c`, `common/dsattribute.c` and `common/dsdata.c`:
counts are compared, and one side is looked for in the other. -/
open List
namespace Darwin.Netinfo
open Lib.Inclusion

section Code

def dsdataEqual (a b : Dsdata) : Bool :=
  if a.type≠b.type then false
  else if a.bytes.length≠b.bytes.length then false
  else (a.bytes.zip b.bytes).all fun p => p.1=p.2

def hasData (values : List Dsdata) (v : Dsdata) : Bool := values.any fun w => dsdataEqual w v

/-- `dsattribute_match` of two attributes. One and the same attribute is not compared, but the
comparison says the same then. -/
def dsattributeMatch (a p : Dsattribute) : Bool :=
  if dsdataEqual a.key p.key=false then false else p.value.all (hasData a.value)

def dsattributeEqual (a b : Dsattribute) : Bool :=
  if a.value.length≠b.value.length then false
  else if dsdataEqual a.key b.key=false then false
  else a.value.all (hasData b.value)

def dsrecordAttributeIndex (l : List Dsattribute) (key : Dsdata) : Option ℕ :=
  l.findIdx? fun a => dsdataEqual a.key key

/-- The loop that looks for each attribute of one list, by its key, in another one. -/
def checkEach (test : Dsattribute → Dsattribute → Bool) (l l' : List Dsattribute) : Bool :=
  l.all fun aa =>
    match (dsrecordAttributeIndex l' aa.key).bind (l'[·]?) with
    | none => false
    | some ba => test aa ba

def matchContents (r pattern : Attributes) : Bool :=
  checkEach (fun pa ra => dsattributeMatch ra pa) pattern.attributes r.attributes &&
    checkEach (fun pa ra => dsattributeMatch ra pa) pattern.meta_attributes r.meta_attributes

/-- `dsrecord_equal` of two different records: the meta-attributes are not counted. -/
def equalContents (a b : Attributes) : Bool :=
  if a.attributes.length≠b.attributes.length then false
  else checkEach dsattributeEqual a.attributes b.attributes &&
    checkEach dsattributeEqual a.meta_attributes b.meta_attributes

variable (mem : ℕ → Attributes)

def dsrecordMatch (r pattern : Option ℕ) : Bool :=
  if r=pattern then true
  else
    match r,pattern with
    | none,_ => false
    | some _,none => true
    | some r,some pattern => matchContents (mem r) (mem pattern)

def dsrecordEqual (a b : Option ℕ) : Bool :=
  if a=b then true
  else
    match a,b with
    | none,_ => false
    | some _,none => false
    | some a,some b => equalContents (mem a) (mem b)

end Code

def Dsattribute.content (a : Dsattribute) : Dsdata × Multiset Dsdata := (a.key,a.value)

/-- What a record holds, whatever the order of its attributes, its meta-attributes and their
values. -/
def Attributes.content (r : Attributes) :
    Multiset (Dsdata × Multiset Dsdata) × Multiset (Dsdata × Multiset Dsdata) :=
  (r.attributes.map Dsattribute.content,r.meta_attributes.map Dsattribute.content)

/-- On these records the comparisons are what they are for: the three equalities are equivalence
relations, records are equal when they hold the same, and equal records match. -/
structure Comparable (𝒞 : Set Attributes) : Prop where
  data : Equivalence fun a b => dsdataEqual a b=true
  attributes : Equivalence fun a b : {a : Dsattribute //
    ∃ r∈𝒞,a∈r.attributes ∨ a∈r.meta_attributes} => dsattributeEqual a.1 b.1=true
  record : ∀ mem : ℕ → Attributes,Equivalence fun p q : {p : ℕ // mem p∈𝒞} =>
    dsrecordEqual mem (some p.1) (some q.1)=true
  equal_iff : ∀ (mem : ℕ → Attributes) (p q : ℕ),mem p∈𝒞 → mem q∈𝒞 →
    (dsrecordEqual mem (some p) (some q)=true ↔ (mem p).content=(mem q).content)
  matches_equal : ∀ (mem : ℕ → Attributes) (r pattern : ℕ),mem r∈𝒞 → mem pattern∈𝒞 →
    dsrecordEqual mem (some r) (some pattern)=true → dsrecordMatch mem (some r) (some pattern)=true

/-- No key twice, and no value twice under a key. -/
structure Distinct (l : List Dsattribute) : Prop where
  keys : (l.map Dsattribute.key).Nodup
  values : ∀ a∈l,a.value.Nodup

/-- A record without repetitions. -/
structure Regular (r : Attributes) : Prop where
  attributes : Distinct r.attributes
  metas : Distinct r.meta_attributes

/-- A kind of records that may prescribe how many meta-attributes there are, but tells records
without repetitions apart by nothing else. -/
def Kind (𝒞 : Set Attributes) : Prop :=
  ∀ a∈𝒞,∀ b,Regular b → b.meta_attributes.length=a.meta_attributes.length → b∈𝒞

lemma all_zip_iff {l l' : List ℕ} (h : l.length=l'.length) :
    ((l.zip l').all fun p => p.1=p.2)=true ↔ l=l' := by
  induction l generalizing l' with
  | nil =>
    cases l' with
    | nil => exact iff_of_true rfl rfl
    | cons b l' => exact absurd h.symm (Nat.succ_ne_zero _)
  | cons a l ih =>
    cases l' with
    | nil => exact absurd h (Nat.succ_ne_zero _)
    | cons b l' =>
      rw [zip_cons_cons,all_cons,Bool.and_eq_true,decide_eq_true_iff,
        ih (Nat.succ_injective h),List.cons.injEq]

@[simp] lemma dsdataEqual_iff (a b : Dsdata) : dsdataEqual a b=true ↔ a=b := by
  obtain ⟨type,bytes⟩ := a
  obtain ⟨type',bytes'⟩ := b
  rw [dsdataEqual,Dsdata.mk.injEq]
  dsimp only
  by_cases ht : type=type'
  · rw [if_neg (not_not.mpr ht)]
    by_cases hl : bytes.length=bytes'.length
    · rw [if_neg (not_not.mpr hl),all_zip_iff hl,and_iff_right ht]
    · rw [if_pos hl]
      exact iff_of_false Bool.false_ne_true fun h => hl (congrArg List.length h.2)
  · rw [if_pos ht]
    exact iff_of_false Bool.false_ne_true fun h => ht h.1

lemma hasData_iff {values : List Dsdata} {v : Dsdata} : hasData values v=true ↔ v∈values := by
  simp [hasData]

lemma all_hasData_iff {vs ws : List Dsdata} : vs.all (hasData ws)=true ↔ vs⊆ws := by
  simp only [all_eq_true,hasData_iff]
  rfl

lemma dsattributeMatch_iff {a p : Dsattribute} :
    dsattributeMatch a p=true ↔ a.key=p.key ∧ p.value⊆a.value := by
  rw [dsattributeMatch,←dsdataEqual_iff a.key p.key,←all_hasData_iff]
  cases dsdataEqual a.key p.key <;> simp

lemma dsattributeEqual_iff {a b : Dsattribute} : dsattributeEqual a b=true ↔
      a.value.length=b.value.length ∧ a.key=b.key ∧ a.value⊆b.value := by
  rw [dsattributeEqual,←dsdataEqual_iff a.key b.key,←all_hasData_iff]
  by_cases h : a.value.length=b.value.length
  · rw [if_neg (not_not.mpr h)]
    cases dsdataEqual a.key b.key <;> simp [h]
  · rw [if_pos h]
    exact iff_of_false Bool.false_ne_true fun hc => h hc.1

section Lists

variable {l l' : List Dsattribute}

def firstKey (l : List Dsattribute) (key : Dsdata) : Option Dsattribute :=
  l.find? fun a => dsdataEqual a.key key

lemma bind_dsrecordAttributeIndex (l : List Dsattribute) (key : Dsdata) :
    (dsrecordAttributeIndex l key).bind (l[·]?)=firstKey l key :=
  find?_eq_bind_findIdx?_getElem?.symm

lemma firstKey_some {key : Dsdata} {a : Dsattribute} (h : firstKey l key=some a) :
    a∈l ∧ a.key=key := by
  have hkey : dsdataEqual a.key key=true :=
    find?_some (p := fun a : Dsattribute => dsdataEqual a.key key) h
  exact ⟨mem_of_find?_eq_some h,(dsdataEqual_iff a.key key).mp hkey⟩

lemma exists_firstKey {key : Dsdata} (h : key∈l.map Dsattribute.key) :
    ∃ a,firstKey l key=some a := by
  obtain ⟨a,ha,hkey⟩ := mem_map.mp h
  refine Option.isSome_iff_exists.mp (find?_isSome.mpr ⟨a,ha,?_⟩)
  exact (dsdataEqual_iff a.key key).mpr hkey

lemma firstKey_of_mem (hl : (l.map Dsattribute.key).Nodup) {a : Dsattribute} (ha : a∈l) :
    firstKey l a.key=some a := by
  obtain ⟨b,hb⟩ := exists_firstKey (mem_map_of_mem ha)
  obtain ⟨hmem,hkey⟩ := firstKey_some hb
  rw [hb,inj_on_of_nodup_map hl hmem ha hkey]

variable {test : Dsattribute → Dsattribute → Bool}

lemma checkEach_iff :
    checkEach test l l'=true ↔ ∀ a∈l,∃ b,firstKey l' a.key=some b ∧ test a b=true := by
  simp only [checkEach,all_eq_true,bind_dsrecordAttributeIndex]
  refine forall₂_congr fun a _ => ?_
  cases firstKey l' a.key with
  | none => simp
  | some b => simp

lemma content_eq_iff {a b : Dsattribute} :
    a.content=b.content ↔ a.key=b.key ∧ a.value.Perm b.value := by
  rw [Dsattribute.content,Dsattribute.content,Prod.mk.injEq,Multiset.coe_eq_coe]

def contents (l : List Dsattribute) : Multiset (Dsdata × Multiset Dsdata) :=
  l.map Dsattribute.content

lemma map_key_perm (h : contents l=contents l') :
    (l.map Dsattribute.key).Perm (l'.map Dsattribute.key) := by
  have hperm : (l.map Dsattribute.content).Perm (l'.map Dsattribute.content) :=
    Multiset.coe_eq_coe.mp h
  have hkeys := hperm.map Prod.fst
  rw [map_map,map_map] at hkeys
  exact hkeys

lemma exists_mem_of_contents (h : contents l=contents l') {a : Dsattribute} (ha : a∈l) :
    ∃ b∈l',a.content=b.content := by
  have hperm : (l.map Dsattribute.content).Perm (l'.map Dsattribute.content) :=
    Multiset.coe_eq_coe.mp h
  obtain ⟨b,hb,heq⟩ := mem_map.mp (hperm.subset (mem_map_of_mem ha))
  exact ⟨b,hb,heq.symm⟩

lemma Distinct.of_contents (hl : Distinct l) (h : contents l=contents l') : Distinct l' := by
  refine ⟨(map_key_perm h).nodup_iff.mp hl.keys,fun b hb => ?_⟩
  obtain ⟨a,ha,heq⟩ := exists_mem_of_contents h.symm hb
  exact (content_eq_iff.mp heq).2.nodup_iff.mpr (hl.values a ha)

lemma perm_of_equal {a b : Dsattribute} (ha : a.value.Nodup) (h : dsattributeEqual a b=true) :
    a.content=b.content := by
  obtain ⟨hlen,hkey,hsub⟩ := dsattributeEqual_iff.mp h
  exact content_eq_iff.mpr ⟨hkey,perm_of_subset ha hsub hlen.symm⟩

lemma equal_of_content {a b : Dsattribute} (h : a.content=b.content) :
    dsattributeEqual a b=true := by
  obtain ⟨hkey,hperm⟩ := content_eq_iff.mp h
  exact dsattributeEqual_iff.mpr ⟨hperm.length_eq,hkey,hperm.subset⟩

lemma contents_of_checkEach (hl : Distinct l) (hlen : l.length=l'.length)
    (h : checkEach dsattributeEqual l l'=true) : contents l=contents l' := by
  have hnodup : (l.map Dsattribute.content).Nodup := by
    refine List.Nodup.of_map Prod.fst ?_
    rw [map_map]
    exact hl.keys
  refine Multiset.coe_eq_coe.mpr (perm_of_subset hnodup ?_ ?_)
  · intro c hc
    obtain ⟨a,ha,rfl⟩ := mem_map.mp hc
    obtain ⟨b,hb,heq⟩ := checkEach_iff.mp h a ha
    exact mem_map.mpr ⟨b,(firstKey_some hb).1,(perm_of_equal (hl.values a ha) heq).symm⟩
  · rw [length_map,length_map,hlen]

lemma checkEach_of_contents (hl : Distinct l) (h : contents l=contents l')
    (ht : ∀ a b : Dsattribute,a.content=b.content → test a b=true) : checkEach test l l'=true := by
  refine checkEach_iff.mpr fun a ha => ?_
  obtain ⟨b,hb,heq⟩ := exists_mem_of_contents h ha
  have hkey : b.key=a.key := (content_eq_iff.mp heq).1.symm
  exact ⟨b,hkey▸firstKey_of_mem (hl.of_contents h).keys hb,ht a b heq⟩

end Lists

section Regular

variable {a b : Attributes}

lemma content_eq_iff_contents : a.content=b.content ↔ contents a.attributes=contents b.attributes ∧
      contents a.meta_attributes=contents b.meta_attributes :=
  Prod.ext_iff

lemma length_eq_of_contents {l l' : List Dsattribute} (h : contents l=contents l') :
    l.length=l'.length := by
  have := (map_key_perm h).length_eq
  rwa [length_map,length_map] at this

lemma equalContents_iff : equalContents a b=true ↔ a.attributes.length=b.attributes.length ∧
      checkEach dsattributeEqual a.attributes b.attributes=true ∧
      checkEach dsattributeEqual a.meta_attributes b.meta_attributes=true := by
  rw [equalContents]
  by_cases h : a.attributes.length=b.attributes.length
  · rw [if_neg (not_not.mpr h),Bool.and_eq_true,and_iff_right h]
  · rw [if_pos h]
    exact iff_of_false Bool.false_ne_true fun hc => h hc.1

lemma Regular.equal_iff (ha : Regular a)
    (hm : a.meta_attributes.length=b.meta_attributes.length) :
    equalContents a b=true ↔ a.content=b.content := by
  rw [equalContents_iff,content_eq_iff_contents]
  constructor
  · rintro ⟨hlen,hattr,hmeta⟩
    exact ⟨contents_of_checkEach ha.attributes hlen hattr,contents_of_checkEach ha.metas hm hmeta⟩
  · rintro ⟨hattr,hmeta⟩
    exact ⟨length_eq_of_contents hattr,
      checkEach_of_contents ha.attributes hattr fun _ _ => equal_of_content,
      checkEach_of_contents ha.metas hmeta fun _ _ => equal_of_content⟩

lemma match_of_content {a p : Dsattribute} (h : p.content=a.content) :
    dsattributeMatch a p=true := by
  obtain ⟨hkey,hperm⟩ := content_eq_iff.mp h
  exact dsattributeMatch_iff.mpr ⟨hkey.symm,hperm.subset⟩

lemma Regular.matchContents (ha : Regular b) (h : a.content=b.content) :
    matchContents a b=true := by
  obtain ⟨hattr,hmeta⟩ := content_eq_iff_contents.mp h
  rw [Netinfo.matchContents,Bool.and_eq_true]
  exact ⟨checkEach_of_contents ha.attributes hattr.symm fun _ _ => match_of_content,
    checkEach_of_contents ha.metas hmeta.symm fun _ _ => match_of_content⟩

lemma Distinct.of_metas (h : Distinct a.meta_attributes) : Regular ⟨[],a.meta_attributes⟩ :=
  ⟨⟨List.Pairwise.nil,fun _ hb => absurd hb not_mem_nil⟩,h⟩

variable {mem : ℕ → Attributes} {p q : ℕ}

lemma dsrecordEqual_same (mem : ℕ → Attributes) (p : Option ℕ) : dsrecordEqual mem p p=true :=
  if_pos rfl

lemma dsrecordEqual_of_ne (h : p≠q) :
    dsrecordEqual mem (some p) (some q)=equalContents (mem p) (mem q) :=
  if_neg fun he => h (Option.some.inj he)

end Regular

instance : Infinite Dsdata :=
  Infinite.of_injective (fun n : ℕ => (⟨n,[]⟩ : Dsdata)) fun _ _ h => (Dsdata.mk.inj h).1

lemma exists_nodup_attribute (a : Dsattribute) :
    ∃ b : Dsattribute,b.value.Nodup ∧ dsattributeEqual a b=true := by
  obtain ⟨vs,hnodup,hlen,hsub⟩ := exists_nodup_superset a.value
  exact ⟨⟨a.key,vs⟩,hnodup,dsattributeEqual_iff.mpr ⟨hlen.symm,rfl,hsub⟩⟩

lemma dsattributeEqual_trans {a b c : Dsattribute} (h : dsattributeEqual a b=true)
    (h' : dsattributeEqual b c=true) : dsattributeEqual a c=true := by
  obtain ⟨hlen,hkey,hsub⟩ := dsattributeEqual_iff.mp h
  obtain ⟨hlen',hkey',hsub'⟩ := dsattributeEqual_iff.mp h'
  exact dsattributeEqual_iff.mpr ⟨hlen.trans hlen',hkey.trans hkey',List.Subset.trans hsub hsub'⟩

lemma exists_distinct (l : List Dsattribute) (h : checkEach dsattributeEqual l l=true) :
    ∃ l',Distinct l' ∧ l'.length=l.length ∧ checkEach dsattributeEqual l l'=true := by
  obtain ⟨keys,hnodup,hlen,hsub⟩ := exists_nodup_superset (l.map Dsattribute.key)
  rw [length_map] at hlen
  -- each key gets the values of its first attribute, and more where there are repetitions
  have hattr : ∀ key,∃ b : Dsattribute,b.key=key ∧ b.value.Nodup ∧
      ∀ a,firstKey l key=some a → dsattributeEqual a b=true := by
    intro key
    cases hfirst : firstKey l key with
    | none => exact ⟨⟨key,[]⟩,rfl,List.Pairwise.nil,fun a ha => absurd ha.symm (by simp)⟩
    | some a =>
      obtain ⟨b,hb,heq⟩ := exists_nodup_attribute a
      have hkey := (dsattributeEqual_iff.mp heq).2.1
      refine ⟨b,hkey.symm.trans (firstKey_some hfirst).2,hb,fun a' ha' => ?_⟩
      obtain rfl := Option.some.inj ha'
      exact heq
  choose f hkey hvalues hequal using hattr
  have hkeys : (keys.map f).map Dsattribute.key=keys := by
    rw [map_map]
    exact (map_congr_left fun key _ => hkey key).trans (map_id keys)
  have hdistinct : Distinct (keys.map f) := by
    refine ⟨hkeys.symm▸hnodup,fun b hb => ?_⟩
    obtain ⟨key,-,rfl⟩ := mem_map.mp hb
    exact hvalues key
  refine ⟨keys.map f,hdistinct,by rw [length_map,hlen],checkEach_iff.mpr fun a ha => ?_⟩
  obtain ⟨first,hfirst,heq⟩ := checkEach_iff.mp h a ha
  have hmem : f a.key∈keys.map f := mem_map_of_mem (hsub (mem_map_of_mem ha))
  refine ⟨f a.key,?_,dsattributeEqual_trans heq (hequal a.key first hfirst)⟩
  have hf := firstKey_of_mem hdistinct.keys hmem
  rwa [hkey a.key] at hf

lemma exists_regular (a : Attributes) (h : equalContents a a=true) :
    ∃ b,Regular b ∧ b.meta_attributes.length=a.meta_attributes.length ∧ equalContents a b=true := by
  obtain ⟨-,hattr,hmeta⟩ := equalContents_iff.mp h
  obtain ⟨attributes,hd,hlen,hcheck⟩ := exists_distinct a.attributes hattr
  obtain ⟨metas,hd',hlen',hcheck'⟩ := exists_distinct a.meta_attributes hmeta
  exact ⟨⟨attributes,metas⟩,⟨hd,hd'⟩,hlen',equalContents_iff.mpr ⟨hlen.symm,hcheck,hcheck'⟩⟩

def bareMetas (n : ℕ) : List Dsattribute := (range n).map fun i => ⟨⟨i,[]⟩,[]⟩

lemma length_bareMetas (n : ℕ) : (bareMetas n).length=n := by rw [bareMetas,length_map,length_range]

lemma regular_bareMetas (n : ℕ) : Regular ⟨[],bareMetas n⟩ := by
  refine Distinct.of_metas (a := ⟨[],bareMetas n⟩) ⟨?_,fun a ha => ?_⟩
  · rw [bareMetas,map_map]
    exact nodup_range.map fun i j h => (Dsdata.mk.inj h).1
  · obtain ⟨i,-,rfl⟩ := mem_map.mp ha
    exact List.Pairwise.nil

lemma equal_bareMetas {m n : ℕ} (h : m≤n) :
    equalContents ⟨[],bareMetas m⟩ ⟨[],bareMetas n⟩=true := by
  refine equalContents_iff.mpr ⟨rfl,rfl,checkEach_iff.mpr fun a ha => ?_⟩
  obtain ⟨i,hi,rfl⟩ := mem_map.mp ha
  have hmem : (⟨⟨i,[]⟩,[]⟩ : Dsattribute)∈bareMetas n :=
    mem_map.mpr ⟨i,mem_range.mpr (lt_of_lt_of_le (mem_range.mp hi) h),rfl⟩
  exact ⟨_,firstKey_of_mem (regular_bareMetas n).metas.keys hmem,equal_of_content rfl⟩

section Result

variable {𝒞 : Set Attributes}

lemma Comparable.contents_iff (h : Comparable 𝒞) {a b : Attributes} (ha : a∈𝒞) (hb : b∈𝒞) :
    equalContents a b=true ↔ a.content=b.content := by
  have hiff := h.equal_iff (fun p => if p=0 then a else b) 0 1 ha hb
  rwa [dsrecordEqual_of_ne Nat.zero_ne_one] at hiff

lemma regular_of_content {a b : Attributes} (hb : Regular b) (h : a.content=b.content) :
    Regular a := by
  obtain ⟨hattr,hmeta⟩ := content_eq_iff_contents.mp h.symm
  exact ⟨hb.attributes.of_contents hattr,hb.metas.of_contents hmeta⟩

lemma Comparable.regular (h : Comparable 𝒞) (hkind : Kind 𝒞) {a : Attributes} (ha : a∈𝒞) :
    Regular a := by
  obtain ⟨b,hb,hm,heq⟩ := exists_regular a ((h.contents_iff ha ha).mpr rfl)
  exact regular_of_content hb ((h.contents_iff ha (hkind a ha b hb hm)).mp heq)

lemma Comparable.metas_le (h : Comparable 𝒞) (hkind : Kind 𝒞) {a b : Attributes} (ha : a∈𝒞)
    (hb : b∈𝒞) : b.meta_attributes.length≤a.meta_attributes.length := by
  by_contra hlt
  have hbare : ∀ c∈𝒞,(⟨[],bareMetas c.meta_attributes.length⟩ : Attributes)∈𝒞 :=
    fun c hc => hkind c hc _ (regular_bareMetas _) (length_bareMetas _)
  have heq := (h.contents_iff (hbare a ha) (hbare b hb)).mp (equal_bareMetas (by omega))
  have hlen := length_eq_of_contents (content_eq_iff_contents.mp heq).2
  rw [length_bareMetas,length_bareMetas] at hlen
  omega

lemma dsrecordEqual_regular (hreg : ∀ a∈𝒞,Regular a)
    (hm : ∀ a∈𝒞,∀ b∈𝒞,a.meta_attributes.length=b.meta_attributes.length)
    (mem : ℕ → Attributes) {p q : ℕ} (hp : mem p∈𝒞) (hq : mem q∈𝒞) :
    dsrecordEqual mem (some p) (some q)=true ↔ (mem p).content=(mem q).content := by
  by_cases hpq : p=q
  · subst hpq
    exact iff_of_true (dsrecordEqual_same mem _) rfl
  · rw [dsrecordEqual_of_ne hpq]
    exact (hreg _ hp).equal_iff (hm _ hp _ hq)

/-- The comparisons do what they are for on a kind of records exactly when none of these has a
repetition and all have as many meta-attributes. -/
theorem comparable_iff (𝒞 : Set Attributes) (hkind : Kind 𝒞) : Comparable 𝒞 ↔ (∀ a∈𝒞,Regular a) ∧
      ∀ a∈𝒞,∀ b∈𝒞,a.meta_attributes.length=b.meta_attributes.length := by
  constructor
  · intro h
    exact ⟨fun a ha => h.regular hkind ha,
      fun a ha b hb => le_antisymm (h.metas_le hkind hb ha) (h.metas_le hkind ha hb)⟩
  · rintro ⟨hreg,hm⟩
    have hvalues : ∀ a : {a : Dsattribute //
        ∃ r∈𝒞,a∈r.attributes ∨ a∈r.meta_attributes},a.1.value.Nodup := by
      rintro ⟨a,r,hr,ha | ha⟩
      · exact (hreg r hr).attributes.values a ha
      · exact (hreg r hr).metas.values a ha
    have hequal := fun mem p q hp hq => dsrecordEqual_regular (p := p) (q := q) hreg hm mem hp hq
    refine ⟨⟨fun a => (dsdataEqual_iff a a).mpr rfl,fun {a b} h => ?_,fun {a b c} h h' => ?_⟩,
      ⟨fun a => equal_of_content rfl,fun {a b} h => ?_,dsattributeEqual_trans⟩,
      fun mem => ⟨fun p => dsrecordEqual_same mem _,fun {p q} h => ?_,fun {p q s} h h' => ?_⟩,
      hequal,fun mem r pattern hr hp h => ?_⟩
    · exact (dsdataEqual_iff b a).mpr ((dsdataEqual_iff a b).mp h).symm
    · exact (dsdataEqual_iff a c).mpr
        (((dsdataEqual_iff a b).mp h).trans ((dsdataEqual_iff b c).mp h'))
    · exact equal_of_content (perm_of_equal (hvalues a) h).symm
    · exact (hequal mem q p q.2 p.2).mpr ((hequal mem p q p.2 q.2).mp h).symm
    · exact (hequal mem p s p.2 s.2).mpr
        (((hequal mem p q p.2 q.2).mp h).trans ((hequal mem q s q.2 s.2).mp h'))
    · by_cases hrp : r=pattern
      · exact if_pos (congrArg some hrp)
      · rw [dsrecordMatch,if_neg fun he => hrp (Option.some.inj he)]
        exact (hreg _ hp).matchContents ((hequal mem r pattern hr hp).mp h)

/-- They are right on the records without repetitions that have no meta-attributes. -/
theorem comparable_regular : Comparable {r | Regular r ∧ r.meta_attributes=[]} := by
  have hkind : Kind {r | Regular r ∧ r.meta_attributes=[]} := by
    intro a ha b hb hm
    rw [ha.2] at hm
    exact ⟨hb,eq_nil_of_length_eq_zero hm⟩
  refine (comparable_iff _ hkind).mpr ⟨fun a ha => ha.1,fun a ha b hb => ?_⟩
  rw [ha.2,hb.2]

/-- The comparisons are not right on all records. -/
theorem not_comparable_univ : ¬Comparable Set.univ := by
  intro h
  have hle := h.metas_le (fun _ _ _ _ _ => Set.mem_univ _) (Set.mem_univ ⟨[],bareMetas 0⟩)
    (Set.mem_univ ⟨[],bareMetas 1⟩)
  exact absurd hle (by decide)

end Result

end Darwin.Netinfo
