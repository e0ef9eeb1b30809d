import Darwin.Objc.HashTable
import Darwin.Objc.MapTableRun

/-! Hash tables refine sets of elements up to `isEqual`. -/
open List Function Option Nat
namespace Darwin.Objc

variable {D : Type} [DecidableEq D] {prototype : NXHashTablePrototype D}
variable {table : NXHashTable D} {content : ℕ → List D} {data null : D} {depth : ℕ}

set_option linter.unusedSectionVars false

/-- A bucket holds the elements of a list, in one of three forms. -/
inductive BucketOk : HashBucket D → List D → Prop
  | empty : BucketOk ⟨0,.null⟩ []
  | one (data : D) : BucketOk ⟨1,.one data⟩ [data]
  | many (count : ℕ) (pairs : List D) (hlen : pairs.length=count) (hmany : 2≤count) :
    BucketOk ⟨count,.many pairs⟩ pairs

def Stored (content : ℕ → List D) (x : D) : Prop := ∃ p,x∈content p

/-- Elements are in the bucket of their hash value, all different, and the count is right. -/
structure HashTableOk (prototype : NXHashTablePrototype D) (table : NXHashTable D)
    (content : ℕ → List D) : Prop where
  pos : 0<table.nbBuckets
  bucket : ∀ p,BucketOk (table.buckets p) (content p)
  home : ∀ p x,x∈content p → bucketIndex prototype table x=p
  distinct : ∀ p,(content p).Pairwise fun x y => ¬Same prototype x y
  count : table.count=∑ p∈Finset.range table.nbBuckets,(content p).length

def filledBuckets (n : ℕ) (content : ℕ → List D) : Finset ℕ :=
  (Finset.range n).filter fun p => content p≠[]

/-- An element is added without growing only to an empty bucket, or when there is room. -/
def Roomy (table : NXHashTable D) (content : ℕ → List D) : Prop :=
  table.count≤table.nbBuckets+(filledBuckets table.nbBuckets content).card

lemma Roomy.le_twice (h : Roomy table content) : table.count≤2*table.nbBuckets := by
  have hle := Finset.card_filter_le (Finset.range table.nbBuckets) fun p => content p≠[]
  rw [Finset.card_range] at hle
  have hroom : table.count≤table.nbBuckets+(filledBuckets table.nbBuckets content).card := h
  unfold filledBuckets at hroom
  omega

lemma sum_length_update {n i : ℕ} (hi : i<n) (content : ℕ → List D) (pairs : List D) :
    (∑ p∈Finset.range n,(update content i pairs p).length)+(content i).length =
      (∑ p∈Finset.range n,(content p).length)+pairs.length := by
  have hmem := Finset.mem_range.mpr hi
  rw [←Finset.add_sum_erase _ _ hmem,←Finset.add_sum_erase _ (fun p => (content p).length) hmem,
    update_self]
  have hrest : ∑ p∈(Finset.range n).erase i,(update content i pairs p).length =
      ∑ p∈(Finset.range n).erase i,(content p).length :=
    Finset.sum_congr rfl fun p hp => by rw [update_of_ne (Finset.ne_of_mem_erase hp)]
  rw [hrest]
  omega

lemma bucketIndex_lt (prototype : NXHashTablePrototype D) (h : 0<table.nbBuckets) (x : D) :
    bucketIndex prototype table x<table.nbBuckets := mod_lt _ h

lemma Same.bucketIndex (hproto : PrototypeOk prototype) {x y : D} (h : Same prototype x y)
    (table : NXHashTable D) : bucketIndex prototype table x=bucketIndex prototype table y := by
  unfold Objc.bucketIndex
  rw [hproto.hash x y ((same_iff hproto).mp h)]

lemma HashTableOk.mem_of_same (hproto : PrototypeOk prototype)
    (h : HashTableOk prototype table content) {x : D} (hx : Stored content x)
    (hsame : Same prototype data x) : x∈content (bucketIndex prototype table data) := by
  obtain ⟨p,hp⟩ := hx
  rwa [hsame.bucketIndex hproto,h.home p x hp]

lemma HashTableOk.put (h : HashTableOk prototype table content) {i n : ℕ} (hi : i<table.nbBuckets)
    {b : HashBucket D} {pairs : List D} (hb : BucketOk b pairs)
    (hhome : ∀ x∈pairs,bucketIndex prototype table x=i)
    (hdistinct : pairs.Pairwise fun x y => ¬Same prototype x y)
    (hcount : n+(content i).length=table.count+pairs.length) :
    HashTableOk prototype {table with buckets := update table.buckets i b,count := n}
      (update content i pairs) where
  pos := h.pos
  bucket p := by
    dsimp only
    rw [update_apply,update_apply]
    split
    · exact hb
    · exact h.bucket p
  home p x hx := by
    rw [update_apply] at hx
    split at hx
    · rename_i hp
      exact (hhome x hx).trans hp.symm
    · exact h.home p x hx
  distinct p := by
    rw [update_apply]
    split
    · exact hdistinct
    · exact h.distinct p
  count := by
    have hsum := sum_length_update hi content pairs
    have hold := h.count
    dsimp only
    omega

lemma stored_put (h : HashTableOk prototype table content) {i : ℕ} {pairs : List D} {x : D} :
    Stored (update content i pairs) x ↔
      x∈pairs ∨ Stored content x ∧ bucketIndex prototype table x≠i := by
  constructor
  · rintro ⟨p,hx⟩
    rw [update_apply] at hx
    split at hx
    · exact .inl hx
    · rename_i hp
      exact .inr ⟨⟨p,hx⟩,fun heq => hp ((h.home p x hx).symm.trans heq)⟩
  · rintro (hx | ⟨⟨p,hx⟩,hne⟩)
    · exact ⟨i,by rwa [update_self]⟩
    · have hp : p≠i := fun heq => hne ((h.home p x hx).trans heq)
      exact ⟨p,by rwa [update_of_ne hp]⟩

/-- How the loop over a bucket ends. -/
inductive Found (prototype : NXHashTablePrototype D) (data : D) (pairs : List D) :
    Option (ℕ × D) → Prop
  | absent (hnone : ∀ x∈pairs,¬Same prototype data x) : Found prototype data pairs none
  | at (before : List D) (old : D) (behind : List D) (heq : pairs=before++old::behind)
    (hsame : Same prototype data old) : Found prototype data pairs (some (before.length,old))

lemma findPair_spec (prototype : NXHashTablePrototype D) (data : D) (pairs : List D) :
    ∃ r,findPair prototype data pairs.length pairs=some r ∧ Found prototype data pairs r := by
  induction pairs with
  | nil => exact ⟨none,rfl,.absent fun x hx => by cases hx⟩
  | cons pair pairs ih =>
    rw [length_cons,findPair]
    split
    · rename_i hsame
      exact ⟨_,rfl,.at [] pair pairs rfl hsame⟩
    · rename_i hother
      obtain ⟨r,hr,hfound⟩ := ih
      rw [hr]
      cases hfound with
      | absent hnone =>
        refine ⟨none,rfl,.absent fun x hx => ?_⟩
        rcases mem_cons.mp hx with rfl | hx
        · exact hother
        · exact hnone x hx
      | «at» before old behind heq hsame =>
        exact ⟨_,rfl,.at (pair::before) old behind (by rw [heq]; rfl) hsame⟩

lemma NXHashGet_spec (h : HashTableOk prototype table content) (null data : D) :
    ∃ r,NXHashGet prototype null table data=some ((r.map Prod.snd).getD null) ∧
      NXHashMember prototype table data=some r.isSome ∧
      Found prototype data (content (bucketIndex prototype table data)) r := by
  have hbucket := h.bucket (bucketIndex prototype table data)
  unfold NXHashGet NXHashMember
  dsimp only
  generalize table.buckets (bucketIndex prototype table data)=bucket at hbucket
  generalize content (bucketIndex prototype table data)=pairs at hbucket
  cases hbucket with
  | empty => exact ⟨none,rfl,rfl,.absent fun x hx => by cases hx⟩
  | one one =>
    by_cases hsame : Same prototype data one
    · refine ⟨some (0,one),?_,?_,.at [] one [] rfl hsame⟩
      · simp [Elements.one?,hsame]
      · simp [Elements.one?,hsame]
    · refine ⟨none,?_,?_,.absent fun x hx => ?_⟩
      · simp [Elements.one?,hsame]
      · exact congrArg some (Bool.eq_false_iff.mpr hsame)
      · rwa [mem_singleton.mp hx]
  | many count pairs hlen hmany =>
    obtain ⟨r,hr,hfound⟩ := findPair_spec prototype data pairs
    rw [hlen] at hr
    have hzero : count≠0 := by omega
    have hone : count≠1 := by omega
    rw [if_neg hzero,if_neg hzero,if_neg hone,if_neg hone]
    refine ⟨r,?_,?_,hfound⟩
    · dsimp only [Elements.many?]
      rw [bind_some,hr]
      cases r <;> rfl
    · dsimp only [Elements.many?]
      rw [bind_some,hr]
      rfl

def flattened (content : ℕ → List D) (n : ℕ) : List D := (List.range n).flatMap content

lemma flattened_succ (content : ℕ → List D) (n : ℕ) :
    flattened content (n+1)=flattened content n++content n := by
  rw [flattened,range_succ,flatMap_append,flatMap_singleton,flattened]

lemma length_flattened (content : ℕ → List D) (n : ℕ) :
    (flattened content n).length=∑ p∈Finset.range n,(content p).length := by
  induction n with
  | zero => rfl
  | succ n ih => rw [flattened_succ,length_append,ih,Finset.sum_range_succ]

lemma BucketOk.count_eq {b : HashBucket D} {pairs : List D} (h : BucketOk b pairs) :
    b.count=pairs.length := by
  cases h with
  | empty => rfl
  | one data => rfl
  | many count pairs hlen hmany => exact hlen.symm

lemma nextBucket_spec (h : HashTableOk prototype table content) (i : ℕ) :
    match nextBucket table i with
    | none => flattened content i=[]
    | some (p,j) => j=(content p).length ∧ 0<j ∧
      flattened content i=flattened content p++content p := by
  induction i with
  | zero => exact rfl
  | succ i ih =>
    have hcount := (h.bucket i).count_eq
    rw [nextBucket,flattened_succ]
    split_ifs with hzero
    · rw [length_eq_zero_iff.mp (hcount.symm.trans hzero),append_nil]
      exact ih
    · exact ⟨hcount,pos_of_ne_zero hzero,rfl⟩

lemma NXNextHashState_spec (h : HashTableOk prototype table content) {i j : ℕ}
    (hj : j≤(content i).length) :
    (NXNextHashState table (i,j)=some none ∧ flattened content i++(content i).take j=[]) ∨
    ∃ data p k,NXNextHashState table (i,j)=some (some (data,p,k)) ∧ k≤(content p).length ∧
      flattened content i++(content i).take j =
        (flattened content p++(content p).take k)++[data] := by
  -- the element before place `k+1` of bucket `p`
  have hread : ∀ p k (hk : k+1≤(content p).length),
      (if (table.buckets p).count=1 then (table.buckets p).elements.one?
        else (table.buckets p).elements.many?.bind fun pairs => pairs[k]?) =
          some ((content p).get ⟨k,hk⟩) := by
    intro p k hk
    have hbucket := h.bucket p
    have hget : some ((content p).get ⟨k,hk⟩)=(content p)[k]? := (List.getElem?_eq_getElem hk).symm
    rw [hget]
    generalize table.buckets p=b at hbucket
    generalize content p=pairs at hbucket hk
    cases hbucket with
    | empty => cases hk
    | one data =>
      obtain rfl : k=0 := le_zero.mp (le_of_succ_le_succ hk)
      rfl
    | many count pairs hlen hmany =>
      rw [if_neg (by dsimp only; omega)]
      rfl
  have hstep : ∀ p k,(hk : k+1≤(content p).length) → flattened content p++(content p).take (k+1) =
        (flattened content p++(content p).take k)++[(content p).get ⟨k,hk⟩] := by
    intro p k hk
    rw [take_succ_eq_append_getElem hk,←append_assoc]
    rfl
  unfold NXNextHashState
  rcases eq_zero_or_eq_succ_pred j with rfl | hsucc
  · have hnext := nextBucket_spec h i
    dsimp only
    rw [if_pos rfl,take_zero,append_nil]
    cases hb : nextBucket table i with
    | none =>
      rw [hb] at hnext
      exact .inl ⟨rfl,hnext⟩
    | some r =>
      obtain ⟨p,k⟩ := r
      rw [hb] at hnext
      obtain ⟨hk,hpos,heq⟩ := hnext
      obtain ⟨k,rfl⟩ := exists_eq_add_one_of_ne_zero (ne_of_gt hpos)
      have hle : k+1≤(content p).length := le_of_eq hk
      refine .inr ⟨(content p).get ⟨k,hle⟩,p,k,?_,by omega,?_⟩
      · dsimp only
        rw [Nat.add_sub_cancel,hread p k hle,map_some]
      · rw [←hstep p k hle,hk,take_length,heq]
  · obtain ⟨k,rfl⟩ : ∃ k,j=k+1 := ⟨_,hsucc⟩
    refine .inr ⟨(content i).get ⟨k,hj⟩,i,k,?_,by omega,hstep i k hj⟩
    dsimp only
    rw [if_neg (succ_ne_zero k)]
    dsimp only
    rw [Nat.add_sub_cancel,hread i k hj,map_some]

lemma elementsFrom_eq (h : HashTableOk prototype table content) (fuel i j : ℕ)
    (hj : j≤(content i).length)
    (hfuel : (flattened content i++(content i).take j).length<fuel) :
    elementsFrom table fuel (i,j)=some (flattened content i++(content i).take j).reverse := by
  induction fuel generalizing i j with
  | zero => exact absurd hfuel (not_lt_zero _)
  | succ fuel ih =>
    rw [elementsFrom]
    rcases NXNextHashState_spec h hj with ⟨hnext,hnil⟩ | ⟨data,p,k,hnext,hk,heq⟩
    · rw [hnext,hnil]
      rfl
    · rw [heq,length_append,length_singleton] at hfuel
      rw [hnext,bind_some]
      dsimp only
      rw [ih p k hk (by omega),heq,reverse_concat]
      rfl

lemma elements_eq (h : HashTableOk prototype table content) :
    elements table=some (flattened content table.nbBuckets).reverse := by
  have hlen := length_flattened content table.nbBuckets
  have hcount := h.count
  have hall := elementsFrom_eq h (table.count+1) table.nbBuckets 0 (zero_le _)
  rw [take_zero,append_nil] at hall
  exact hall (by omega)

lemma mem_flattened (h : HashTableOk prototype table content) {x : D} :
    x∈flattened content table.nbBuckets ↔ Stored content x := by
  rw [flattened,mem_flatMap]
  constructor
  · rintro ⟨p,-,hx⟩
    exact ⟨p,hx⟩
  · rintro ⟨p,hx⟩
    refine ⟨p,mem_range.mpr ?_,hx⟩
    rw [←h.home p x hx]
    exact bucketIndex_lt prototype h.pos x

lemma pairwise_flattened (hproto : PrototypeOk prototype) (h : HashTableOk prototype table content) :
    (flattened content table.nbBuckets).Pairwise fun x y => ¬Same prototype x y := by
  rw [flattened,pairwise_flatMap]
  refine ⟨fun p _ => h.distinct p,?_⟩
  refine pairwise_lt_range.imp fun {p q} hpq x hx y hy hsame => ?_
  have heq := hsame.bucketIndex hproto table
  rw [h.home p x hx,h.home q y hy] at heq
  omega

lemma filledBuckets_update_cons {n i : ℕ} (hi : i<n) (content : ℕ → List D) {pairs : List D}
    (hpairs : pairs≠[]) :
    filledBuckets n (update content i pairs)=insert i (filledBuckets n content) := by
  ext p
  simp only [filledBuckets,Finset.mem_insert,Finset.mem_filter,Finset.mem_range,update_apply]
  by_cases hp : p=i
  · subst p
    simp [hi,hpairs]
  · simp [hp]

/-- What an insertion does to the elements. -/
structure DataInserted (prototype : NXHashTablePrototype D) (replace : Bool) (data : D)
    (content content' : ℕ → List D) (old : Option D) : Prop where
  absent : old=none → ∀ x,Stored content x → ¬Same prototype data x
  present : ∀ y,old=some y → Stored content y ∧ Same prototype data y
  stored : ∀ x,Stored content' x ↔ if replace=false ∧ old.isSome then Stored content x
    else x=data ∨ Stored content x ∧ ¬Same prototype data x

lemma HashTableOk.parts (hproto : PrototypeOk prototype) (h : HashTableOk prototype table content)
    {before behind : List D} {old : D}
    (heq : content (bucketIndex prototype table data)=before++old::behind)
    (hsame : Same prototype data old) :
    (before++behind).Pairwise (fun x y => ¬Same prototype x y) ∧
      ∀ x,x∈before ∨ x∈behind → x∈content (bucketIndex prototype table data) ∧
        ¬Same prototype data x := by
  have hdistinct := h.distinct (bucketIndex prototype table data)
  rw [heq,pairwise_append,pairwise_cons] at hdistinct
  obtain ⟨hbefore,⟨hold,hbehind⟩,hacross⟩ := hdistinct
  refine ⟨pairwise_append.mpr
    ⟨hbefore,hbehind,fun x hx y hy => hacross x hx y (mem_cons_of_mem old hy)⟩,fun x hx => ⟨?_,?_⟩⟩
  · rw [heq,mem_append,mem_cons]
    exact hx.imp id .inr
  · intro hdx
    rcases hx with hx | hx
    · exact hacross x hx old mem_cons_self ((hdx.symm hproto).trans hproto hsame)
    · exact hold x hx ((hsame.symm hproto).trans hproto hdx)

lemma HashTableOk.replaced (hproto : PrototypeOk prototype) (h : HashTableOk prototype table content)
    {before behind : List D} {old : D}
    (heq : content (bucketIndex prototype table data)=before++old::behind)
    (hsame : Same prototype data old) {b : HashBucket D} (hb : BucketOk b (before++data::behind)) :
    HashTableOk prototype { table with
      buckets := update table.buckets (bucketIndex prototype table data) b}
      (update content (bucketIndex prototype table data) (before++data::behind)) ∧
    DataInserted prototype true data content
      (update content (bucketIndex prototype table data) (before++data::behind))
      (some old) := by
  have hi := bucketIndex_lt prototype h.pos data
  obtain ⟨hpairs,hparts⟩ := h.parts hproto heq hsame
  obtain ⟨hbefore,hbehind,hacross⟩ := pairwise_append.mp hpairs
  constructor
  · refine h.put hi hb (fun x hx => ?_) ?_ (by rw [heq,length_append,length_append]; rfl)
    · rcases mem_append.mp hx with hx | hx
      · exact h.home _ x (hparts x (.inl hx)).1
      · rcases mem_cons.mp hx with rfl | hx
        · rfl
        · exact h.home _ x (hparts x (.inr hx)).1
    · rw [pairwise_append,pairwise_cons]
      refine ⟨hbefore,⟨fun x hx => (hparts x (.inr hx)).2,hbehind⟩,fun x hx y hy hxy => ?_⟩
      rcases mem_cons.mp hy with rfl | hy
      · exact (hparts x (.inl hx)).2 (hxy.symm hproto)
      · exact hacross x hx y hy hxy
  · refine ⟨fun hnone => (by cases hnone),fun y hy => ?_,fun x => ?_⟩
    · cases hy
      exact ⟨⟨_,by rw [heq]; exact mem_append_right before mem_cons_self⟩,hsame⟩
    · rw [if_neg (by simp),stored_put h,mem_append,mem_cons]
      constructor
      · rintro ((hx | rfl | hx) | ⟨hx,hne⟩)
        · exact .inr ((hparts x (.inl hx)).imp_left fun hx => ⟨_,hx⟩)
        · exact .inl rfl
        · exact .inr ((hparts x (.inr hx)).imp_left fun hx => ⟨_,hx⟩)
        · exact .inr ⟨hx,fun hdx => hne (hdx.bucketIndex hproto table).symm⟩
      · rintro (rfl | ⟨⟨p,hx⟩,hdx⟩)
        · exact .inl (.inr (.inl rfl))
        · by_cases hp : bucketIndex prototype table x=bucketIndex prototype table data
          · rw [←h.home p x hx,hp,heq,mem_append,mem_cons] at hx
            rcases hx with hx | rfl | hx
            · exact .inl (.inl hx)
            · exact absurd hsame hdx
            · exact .inl (.inr (.inr hx))
          · exact .inr ⟨⟨p,hx⟩,hp⟩

lemma HashTableOk.added (hproto : PrototypeOk prototype) (h : HashTableOk prototype table content)
    (replace : Bool)
    (hnone : ∀ x∈content (bucketIndex prototype table data),¬Same prototype data x)
    {b : HashBucket D} (hb : BucketOk b (data::content (bucketIndex prototype table data))) :
    HashTableOk prototype { table with
      buckets := update table.buckets (bucketIndex prototype table data) b
      count := table.count+1}
      (update content (bucketIndex prototype table data)
        (data::content (bucketIndex prototype table data))) ∧
    DataInserted prototype replace data content
      (update content (bucketIndex prototype table data)
        (data::content (bucketIndex prototype table data))) none := by
  have hi := bucketIndex_lt prototype h.pos data
  have habsent : ∀ x,Stored content x → ¬Same prototype data x := fun x hx hsame =>
    hnone x (h.mem_of_same hproto hx hsame) hsame
  refine ⟨h.put hi hb (fun x hx => ?_) ?_ ?_,fun _ => habsent,fun y hy => (by cases hy),fun x => ?_⟩
  · rcases mem_cons.mp hx with rfl | hx
    · rfl
    · exact h.home _ x hx
  · exact pairwise_cons.mpr ⟨hnone,h.distinct _⟩
  · rw [length_cons]
    omega
  · rw [if_neg (by simp),stored_put h,mem_cons]
    constructor
    · rintro ((rfl | hx) | ⟨hx,-⟩)
      · exact .inl rfl
      · exact .inr ⟨⟨_,hx⟩,habsent x ⟨_,hx⟩⟩
      · exact .inr ⟨hx,habsent x hx⟩
    · rintro (rfl | ⟨⟨p,hx⟩,-⟩)
      · exact .inl (.inl rfl)
      · by_cases hp : bucketIndex prototype table x=bucketIndex prototype table data
        · exact .inl (.inr (by rwa [←hp,h.home p x hx]))
        · exact .inr ⟨⟨p,hx⟩,hp⟩

abbrev reinsert (prototype : NXHashTablePrototype D) (depth : ℕ) (table : NXHashTable D) (data : D) :
    Option (NXHashTable D) := (insertData prototype true depth table data).map Prod.fst

/-- How an insertion goes on: it is done, or it rehashes a table with one element more. -/
inductive InsertData (prototype : NXHashTablePrototype D) (replace : Bool) (depth : ℕ)
    (table : NXHashTable D) (content : ℕ → List D) (data : D) : Prop
  | done (table' : NXHashTable D) (content' : ℕ → List D) (old : Option D)
    (hok : HashTableOk prototype table' content')
    (hins : DataInserted prototype replace data content content' old)
    (hnb : table'.nbBuckets=table.nbBuckets) (hroomy : Roomy table content → Roomy table' content')
    (hcount : old=none → table'.count=table.count+1)
    (heq : insertData prototype replace (depth+1) table data=some (table',old))
  | grow (table' : NXHashTable D) (content' : ℕ → List D)
    (hok : HashTableOk prototype table' content')
    (hins : DataInserted prototype replace data content content' none)
    (hnb : table'.nbBuckets=table.nbBuckets) (hcount : table'.count=table.count+1)
    (hmany : table'.nbBuckets<table'.count)
    (heq : insertData prototype replace (depth+1) table data =
      (hashRehash (reinsert prototype depth) table').map fun table => (table,none))

lemma Roomy.replaced (h : Roomy table content) {i : ℕ} (hi : i<table.nbBuckets)
    {pairs : List D} (hpairs : pairs≠[]) {buckets : ℕ → HashBucket D} :
    Roomy {table with buckets := buckets} (update content i pairs) := by
  have hroom : table.count≤table.nbBuckets+(filledBuckets table.nbBuckets content).card := h
  have hle := Finset.card_le_card
    (Finset.subset_insert i (filledBuckets table.nbBuckets content))
  rw [←filledBuckets_update_cons hi content hpairs] at hle
  unfold Roomy
  dsimp only
  omega

lemma enlarge_cases (hproto : PrototypeOk prototype) (h : HashTableOk prototype table content)
    (replace : Bool)
    (hnone : ∀ x∈content (bucketIndex prototype table data),¬Same prototype data x)
    (hb : BucketOk ⟨(table.buckets (bucketIndex prototype table data)).count+1,
      .many (data::content (bucketIndex prototype table data))⟩
      (data::content (bucketIndex prototype table data)))
    (heq : insertData prototype replace (depth+1) table data =
      (enlarge (reinsert prototype depth) table (bucketIndex prototype table data)
        (data::content (bucketIndex prototype table data))).map fun table => (table,none)) :
    InsertData prototype replace depth table content data := by
  obtain ⟨hok,hins⟩ := h.added hproto replace hnone hb
  rw [enlarge] at heq
  dsimp only at heq
  split_ifs at heq with hmany
  · exact .grow _ _ hok hins rfl rfl hmany heq
  · refine .done _ _ none hok hins rfl (fun _ => ?_) (fun _ => rfl) heq
    unfold Roomy
    dsimp only
    omega

lemma insertData_cases (hproto : PrototypeOk prototype) (h : HashTableOk prototype table content)
    (replace : Bool) (depth : ℕ) (data : D) :
    InsertData prototype replace depth table content data := by
  have hi := bucketIndex_lt prototype h.pos data
  have hbucket := h.bucket (bucketIndex prototype table data)
  -- an equal element is kept
  have hkept : ∀ before old behind,
      content (bucketIndex prototype table data)=before++old::behind → Same prototype data old →
      DataInserted prototype false data content content (some old) := by
    intro before old behind heq hsame
    refine ⟨fun hnone => (by cases hnone),fun y hy => ?_,fun x => by simp⟩
    cases hy
    exact ⟨⟨_,by rw [heq]; exact mem_append_right before mem_cons_self⟩,hsame⟩
  generalize hbdef : table.buckets (bucketIndex prototype table data)=bucket at hbucket
  generalize hcdef : content (bucketIndex prototype table data)=pairs at hbucket
  cases hbucket with
  | empty =>
    have hadd : BucketOk ⟨1,.one data⟩ (data::content (bucketIndex prototype table data)) := by
      rw [hcdef]
      exact .one data
    obtain ⟨hok,hins⟩ := h.added hproto replace (by rw [hcdef]; exact fun x hx => by cases hx) hadd
    refine .done _ _ none hok hins rfl (fun hroomy => ?_) (fun _ => rfl) ?_
    · have hroom : table.count≤table.nbBuckets+(filledBuckets table.nbBuckets content).card :=
        hroomy
      have hnew : bucketIndex prototype table data∉filledBuckets table.nbBuckets content := by
        simp [filledBuckets,hcdef]
      unfold Roomy
      rw [filledBuckets_update_cons hi content (cons_ne_nil _ _),Finset.card_insert_of_notMem hnew]
      dsimp only
      omega
    · simp only [insertData,hbdef]
      rfl
  | one one =>
    by_cases hsame : Same prototype data one
    · have heq : insertData prototype replace (depth+1) table data =
          some (if replace then { table with
            buckets := update table.buckets (bucketIndex prototype table data)
              ⟨1,.one data⟩} else table,some one) := by
        simp only [insertData,hbdef,Elements.one?]
        rw [if_neg one_ne_zero,if_pos trivial,bind_some,if_pos hsame]
      cases replace with
      | false =>
        exact .done table content (some one) h (hkept [] one [] hcdef hsame) rfl id
          (fun hn => by cases hn) heq
      | true =>
        have hold : content (bucketIndex prototype table data)=[]++one::[] := hcdef
        obtain ⟨hok,hins⟩ := h.replaced hproto hold hsame (.one data)
        exact .done _ _ (some one) hok hins rfl
          (fun hroomy => hroomy.replaced hi (cons_ne_nil _ _)) (fun hn => by cases hn) heq
    · refine enlarge_cases hproto h replace ?_ ?_ ?_
      · rw [hcdef]
        intro x hx
        rwa [mem_singleton.mp hx]
      · rw [hbdef,hcdef]
        exact .many 2 _ rfl (le_refl 2)
      · simp only [insertData,hbdef,Elements.one?]
        rw [if_neg one_ne_zero,if_pos trivial,bind_some,if_neg hsame,hcdef]
  | many count pairs hlen hmany =>
    obtain ⟨r,hr,hfound⟩ := findPair_spec prototype data pairs
    rw [hlen] at hr
    cases hfound with
    | absent hnone =>
      refine enlarge_cases hproto h replace (by rwa [hcdef]) ?_ ?_
      · rw [hbdef,hcdef]
        exact .many (count+1) _ (by rw [length_cons,hlen]) (by omega)
      · have heq : insertData prototype replace (depth+1) table data =
            (enlarge (reinsert prototype depth) table (bucketIndex prototype table data)
              (data::pairs.take count)).map fun table => (table,none) := by
          simp only [insertData,hbdef,Elements.many?]
          rw [if_neg (by omega),if_neg (by omega),bind_some]
          exact congrArg (Option.bind · _) hr
        rw [heq,hcdef,←hlen,take_length]
    | «at» before old behind hsplit hsame =>
      have heq : insertData prototype replace (depth+1) table data =
          some (if replace then { table with
            buckets := update table.buckets (bucketIndex prototype table data)
              ⟨count,.many (pairs.set before.length data)⟩} else table,some old) := by
        simp only [insertData,hbdef,Elements.many?]
        rw [if_neg (by omega),if_neg (by omega),bind_some]
        exact congrArg (Option.bind · _) hr
      have hold : content (bucketIndex prototype table data)=before++old::behind :=
        hcdef.trans hsplit
      cases replace with
      | false =>
        exact .done table content (some old) h (hkept before old behind hold hsame) rfl id
          (fun hn => by cases hn) heq
      | true =>
        have hset : pairs.set before.length data=before++data::behind := by
          rw [hsplit,set_append_right _ _ (Nat.le_refl _),Nat.sub_self]
          rfl
        rw [hset] at heq
        obtain ⟨hok,hins⟩ := h.replaced hproto hold hsame
          (.many count (before++data::behind) (by rw [←hset,length_set,hlen]) hmany)
        exact .done _ _ (some old) hok hins rfl
          (fun hroomy => hroomy.replaced hi (by simp)) (fun hn => by cases hn) heq

end Darwin.Objc
