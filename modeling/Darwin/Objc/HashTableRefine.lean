import Darwin.Objc.HashTableRun

/-! Runs of insertions and removals on hash tables. -/
open List Function
namespace Darwin.Objc

variable {D : Type} [DecidableEq D] {prototype : NXHashTablePrototype D}
variable {table : NXHashTable D} {content : ℕ → List D} {data null : D}

section Rehash

lemma HashTableOk.created (prototype : NXHashTablePrototype D) {n : ℕ} (hn : 0<n) :
    HashTableOk prototype (⟨0,n,fun _ => ⟨0,.null⟩⟩ : NXHashTable D) fun _ => [] where
  pos := hn
  bucket _ := .empty
  home _ _ hx := by cases hx
  distinct _ := List.Pairwise.nil
  count := (Finset.sum_const_zero (s := Finset.range n)).symm

omit [DecidableEq D] in
lemma not_stored_nil (x : D) : ¬Stored (fun _ => []) x := fun ⟨_,hx⟩ => by cases hx

lemma reinsert_list (hproto : PrototypeOk prototype) (depth : ℕ) (xs : List D)
    (h : HashTableOk prototype table content) (hroomy : Roomy table content)
    (hroom : table.count+xs.length≤table.nbBuckets)
    (hdistinct : xs.Pairwise fun x y => ¬Same prototype x y)
    (habsent : ∀ x∈xs,∀ y,Stored content y → ¬Same prototype x y) :
    ∃ table' content',xs.foldlM (reinsert prototype (depth+1)) table=some table' ∧
      HashTableOk prototype table' content' ∧ Roomy table' content' ∧
      ∀ x,Stored content' x ↔ x∈xs ∨ Stored content x := by
  induction xs generalizing table content with
  | nil => exact ⟨table,content,rfl,h,hroomy,fun x => by simp⟩
  | cons x xs ih =>
    obtain ⟨hx,hxs⟩ := pairwise_cons.mp hdistinct
    have hlen : table.count+xs.length+1≤table.nbBuckets := hroom
    have hnone := habsent x mem_cons_self
    have hcases : InsertData prototype true depth table content x :=
      insertData_cases hproto h true depth x
    cases hcases with
    | done table₁ content₁ old hok hins hnb hroomy₁ hcount heq =>
      cases old with
      | some y => exact absurd (hins.present y rfl).2 (hnone y (hins.present y rfl).1)
      | none =>
        have hstored : ∀ z,Stored content₁ z ↔ z=x ∨ Stored content z := fun z => by
          rw [hins.stored,if_neg (by simp)]
          exact or_congr_right ⟨And.left,fun hz => ⟨hz,hnone z hz⟩⟩
        obtain ⟨table',content',hfold,hok',hroomy',hstored'⟩ := ih hok (hroomy₁ hroomy)
          (by rw [hcount rfl,hnb]; omega) hxs fun y hy z hz => by
            rcases (hstored z).mp hz with rfl | hz
            · exact fun hyz => hx y hy (hyz.symm hproto)
            · exact habsent y (mem_cons_of_mem x hy) z hz
        refine ⟨table',content',?_,hok',hroomy',fun z => ?_⟩
        · rw [foldlM_cons,reinsert,heq]
          exact hfold
        · rw [hstored',hstored,mem_cons]
          tauto
    | grow table₁ content₁ hok hins hnb hcount hmany heq => omega

lemma hashRehash_spec (hproto : PrototypeOk prototype) (depth : ℕ)
    (h : HashTableOk prototype table content) (hcount : table.count≤2*table.nbBuckets+1) :
    ∃ table' content',hashRehash (reinsert prototype (depth+1)) table=some table' ∧
      HashTableOk prototype table' content' ∧ Roomy table' content' ∧
      ∀ x,Stored content' x ↔ Stored content x := by
  have hlen := length_flattened content table.nbBuckets
  have hold := h.count
  have hpairwise : (flattened content table.nbBuckets).reverse.Pairwise
      fun x y => ¬Same prototype x y := by
    rw [pairwise_reverse]
    exact (pairwise_flattened hproto h).imp fun hne hsame => hne (hsame.symm hproto)
  have hroom : 0+(flattened content table.nbBuckets).reverse.length ≤
      table.nbBuckets+(table.nbBuckets+1) := by
    rw [length_reverse]
    omega
  obtain ⟨table',content',hfold,hok,hroomy,hstored⟩ := reinsert_list hproto depth
    (flattened content table.nbBuckets).reverse
    (HashTableOk.created prototype (show 0<table.nbBuckets+(table.nbBuckets+1) by omega))
    (Nat.zero_le _) hroom hpairwise fun x _ y hy => absurd hy (not_stored_nil y)
  refine ⟨table',content',?_,hok,hroomy,fun x => ?_⟩
  · rw [hashRehash,elements_eq h]
    exact hfold
  · rw [hstored,mem_reverse,mem_flattened h]
    exact or_iff_left (not_stored_nil x)

lemma insertData_spec (hproto : PrototypeOk prototype) (h : HashTableOk prototype table content)
    (hroomy : Roomy table content) (replace : Bool) (data : D) :
    ∃ table' content' old,insertData prototype replace 2 table data=some (table',old) ∧
      HashTableOk prototype table' content' ∧ Roomy table' content' ∧
      DataInserted prototype replace data content content' old := by
  have hcases : InsertData prototype replace 1 table content data :=
    insertData_cases hproto h replace 1 data
  cases hcases with
  | done table' content' old hok hins hnb hroomy' hcount heq =>
    exact ⟨table',content',old,heq,hok,hroomy' hroomy,hins⟩
  | grow table₁ content₁ hok hins hnb hcount hmany heq =>
    have htwice := hroomy.le_twice
    obtain ⟨table',content',hrehash,hok',hroomy',hstored⟩ := hashRehash_spec hproto 0 hok (by omega)
    refine ⟨table',content',none,?_,hok',hroomy',hins.absent,hins.present,fun x => ?_⟩
    · rw [heq,hrehash]
      rfl
    · rw [hstored]
      exact hins.stored x

end Rehash

/-- What a removal does to the elements. -/
structure DataRemoved (prototype : NXHashTablePrototype D) (data : D)
    (content content' : ℕ → List D) (old : Option D) : Prop where
  absent : old=none → ∀ x,Stored content x → ¬Same prototype data x
  present : ∀ y,old=some y → Stored content y ∧ Same prototype data y
  stored : ∀ x,Stored content' x ↔ Stored content x ∧ ¬Same prototype data x

lemma HashTableOk.shrunk (hproto : PrototypeOk prototype) (h : HashTableOk prototype table content)
    (hroomy : Roomy table content) {before behind : List D} {old : D}
    (heq : content (bucketIndex prototype table data)=before++old::behind)
    (hsame : Same prototype data old) {b : HashBucket D} (hb : BucketOk b (before++behind)) :
    let table' : NXHashTable D := { table with
      buckets := update table.buckets (bucketIndex prototype table data) b
      count := table.count-1}
    let content' := update content (bucketIndex prototype table data) (before++behind)
    HashTableOk prototype table' content' ∧ Roomy table' content' ∧
      DataRemoved prototype data content content' (some old) := by
  intro table' content'
  have hi := bucketIndex_lt prototype h.pos data
  obtain ⟨hpairs,hparts⟩ := h.parts hproto heq hsame
  have hlength : (content (bucketIndex prototype table data)).length =
      before.length+behind.length+1 := by
    rw [heq,length_append,length_cons]
    omega
  have hle : (content (bucketIndex prototype table data)).length≤table.count := by
    rw [h.count]
    exact Finset.single_le_sum (f := fun p => (content p).length) (fun _ _ => Nat.zero_le _)
      (Finset.mem_range.mpr hi)
  refine ⟨h.put hi hb (fun x hx => h.home _ x (hparts x (mem_append.mp hx)).1) hpairs ?_,?_,
    fun hnone => (by cases hnone),fun y hy => ?_,fun x => ?_⟩
  · rw [length_append]
    omega
  · have hroom : table.count≤table.nbBuckets+(filledBuckets table.nbBuckets content).card :=
      hroomy
    have hsub : filledBuckets table.nbBuckets content ⊆
        insert (bucketIndex prototype table data) (filledBuckets table.nbBuckets content') := by
      intro p hp
      rw [filledBuckets,Finset.mem_filter] at hp
      by_cases hpi : p=bucketIndex prototype table data
      · exact Finset.mem_insert.mpr (.inl hpi)
      · refine Finset.mem_insert.mpr (.inr (Finset.mem_filter.mpr ⟨hp.1,?_⟩))
        have hsame : content' p=content p := update_of_ne hpi ..
        rw [hsame]
        exact hp.2
    have hcard := (Finset.card_le_card hsub).trans (Finset.card_insert_le _ _)
    have hgoal : table.count-1 ≤
        table.nbBuckets+(filledBuckets table.nbBuckets content').card := by omega
    exact hgoal
  · cases hy
    exact ⟨⟨_,by rw [heq]; exact mem_append_right before mem_cons_self⟩,hsame⟩
  · rw [stored_put h,mem_append]
    constructor
    · rintro (hx | ⟨hx,hne⟩)
      · exact (hparts x hx).imp_left fun hx => ⟨_,hx⟩
      · exact ⟨hx,fun hdx => hne (hdx.bucketIndex hproto table).symm⟩
    · rintro ⟨⟨p,hx⟩,hdx⟩
      by_cases hp : bucketIndex prototype table x=bucketIndex prototype table data
      · rw [←h.home p x hx,hp,heq,mem_append,mem_cons] at hx
        rcases hx with hx | rfl | hx
        · exact .inl (.inl hx)
        · exact absurd hsame hdx
        · exact .inl (.inr hx)
      · exact .inr ⟨⟨p,hx⟩,hp⟩

lemma NXHashRemove_spec (hproto : PrototypeOk prototype) (h : HashTableOk prototype table content)
    (hroomy : Roomy table content) (null data : D) : ∃ table' content' old,
      NXHashRemove prototype null table data=some (table',old.getD null) ∧
      HashTableOk prototype table' content' ∧ Roomy table' content' ∧
      DataRemoved prototype data content content' old := by
  have hbucket := h.bucket (bucketIndex prototype table data)
  -- nothing equal is there
  have hkept : (∀ x∈content (bucketIndex prototype table data),¬Same prototype data x) →
      DataRemoved prototype data content content none := by
    intro hnone
    have habsent : ∀ x,Stored content x → ¬Same prototype data x := fun x hx hsame =>
      hnone x (h.mem_of_same hproto hx hsame) hsame
    exact ⟨fun _ => habsent,fun y hy => (by cases hy),fun x =>
      ⟨fun hx => ⟨hx,habsent x hx⟩,And.left⟩⟩
  unfold NXHashRemove
  dsimp only
  generalize hbdef : table.buckets (bucketIndex prototype table data)=bucket at hbucket
  generalize hcdef : content (bucketIndex prototype table data)=pairs at hbucket
  cases hbucket with
  | empty =>
    exact ⟨table,content,none,rfl,h,hroomy,hkept (by rw [hcdef]; exact fun x hx => by cases hx)⟩
  | one one =>
    by_cases hsame : Same prototype data one
    · have heq : content (bucketIndex prototype table data)=[]++one::[] := hcdef
      obtain ⟨hok,hroomy',hremoved⟩ := h.shrunk hproto hroomy heq hsame .empty
      refine ⟨_,_,some one,?_,hok,hroomy',hremoved⟩
      simp [Elements.one?,hsame]
    · refine ⟨table,content,none,?_,h,hroomy,hkept ?_⟩
      · simp [Elements.one?,hsame]
      · rw [hcdef]
        intro x hx
        rwa [mem_singleton.mp hx]
  | many count pairs hlen hmany =>
    rw [if_neg (by dsimp only; omega),if_neg (by dsimp only; omega)]
    dsimp only [Elements.many?]
    rw [Option.bind_some]
    by_cases htwo : count=2
    · rw [if_pos htwo]
      obtain ⟨pair0,pair1,rfl⟩ := length_eq_two.mp (hlen.trans htwo)
      by_cases hsame0 : Same prototype data pair0
      · have heq : content (bucketIndex prototype table data)=[]++pair0::[pair1] := hcdef
        obtain ⟨hok,hroomy',hremoved⟩ := h.shrunk hproto hroomy heq hsame0 (.one pair1)
        refine ⟨_,_,some pair0,?_,hok,hroomy',hremoved⟩
        simp [hsame0]
      · by_cases hsame1 : Same prototype data pair1
        · have heq : content (bucketIndex prototype table data)=[pair0]++pair1::[] := hcdef
          obtain ⟨hok,hroomy',hremoved⟩ := h.shrunk hproto hroomy heq hsame1 (.one pair0)
          refine ⟨_,_,some pair1,?_,hok,hroomy',hremoved⟩
          simp [hsame0,hsame1]
        · refine ⟨table,content,none,?_,h,hroomy,hkept ?_⟩
          · simp [hsame0,hsame1]
          · rw [hcdef]
            intro x hx
            rcases mem_cons.mp hx with rfl | hx
            · exact hsame0
            · rwa [mem_singleton.mp hx]
    · rw [if_neg htwo]
      obtain ⟨r,hr,hfound⟩ := findPair_spec prototype data pairs
      rw [hlen] at hr
      rw [hr]
      cases hfound with
      | absent hnone => exact ⟨table,content,none,rfl,h,hroomy,hkept (by rwa [hcdef])⟩
      | «at» before old behind hsplit hsame =>
        have heq : content (bucketIndex prototype table data)=before++old::behind :=
          hcdef.trans hsplit
        have hlength : before.length+behind.length=count-1 := by
          rw [hsplit,length_append,length_cons] at hlen
          omega
        have htaken : pairs.take before.length++
            (pairs.drop (before.length+1)).take (count-1-before.length)=before++behind := by
          have hdrop : pairs.drop (before.length+1)=behind := by
            rw [hsplit,drop_append,drop_eq_nil_of_le (by omega)]
            simp
          rw [hdrop,hsplit,take_left,take_of_length_le (by omega)]
        obtain ⟨hok,hroomy',hremoved⟩ := h.shrunk hproto hroomy heq hsame
          (.many (count-1) (before++behind) (by rw [length_append,hlength]) (by omega))
        refine ⟨_,_,some old,?_,hok,hroomy',hremoved⟩
        rw [Option.map_some]
        dsimp only
        rw [htaken]
        rfl

section Runs

/-- An operation on a table. -/
inductive HashAction (D : Type)
  | insert (data : D)
  | insertIfAbsent (data : D)
  | remove (data : D)

def HashAction.perform (prototype : NXHashTablePrototype D) (null : D) (table : NXHashTable D) :
    HashAction D → Option (NXHashTable D × D)
  | .insert data => NXHashInsert prototype null table data
  | .insertIfAbsent data => NXHashInsertIfAbsent prototype table data
  | .remove data => NXHashRemove prototype null table data

def runHash (prototype : NXHashTablePrototype D) (null : D) (table : NXHashTable D) :
    List (HashAction D) → Option (NXHashTable D × List D)
  | [] => some (table,[])
  | action::actions => (action.perform prototype null table).bind fun r =>
    (runHash prototype null r.1 actions).map fun s => (s.1,r.2::s.2)

/-- What an operation means for a set up to `isEqual`, given by the element that it has for each. -/
def HashAction.apply (prototype : NXHashTablePrototype D) (f : D → Option D) :
    HashAction D → D → Option D
  | .insert data => fun k => if Same prototype data k then some data else f k
  | .insertIfAbsent data => fun k =>
    if Same prototype data k then some ((f data).getD data) else f k
  | .remove data => fun k => if Same prototype data k then none else f k

/-- The element that an operation should return: the previous one, or for `NXHashInsertIfAbsent` the
one that is there afterwards. -/
def HashAction.previous (null : D) (f : D → Option D) : HashAction D → D
  | .insert data | .remove data => (f data).getD null
  | .insertIfAbsent data => (f data).getD data

def hashed (prototype : NXHashTablePrototype D) (actions : List (HashAction D)) : D → Option D :=
  actions.foldl (HashAction.apply prototype) fun _ => none

def previousElements (prototype : NXHashTablePrototype D) (null : D) (f : D → Option D) :
    List (HashAction D) → List D
  | [] => []
  | action::actions =>
    action.previous null f::previousElements prototype null (action.apply prototype f) actions

def HashRefines (prototype : NXHashTablePrototype D) (table : NXHashTable D) (f : D → Option D) :
    Prop :=
  ∃ content,HashTableOk prototype table content ∧ Roomy table content ∧
    ∀ k x,f k=some x ↔ Stored content x ∧ Same prototype x k

variable {f : D → Option D}

lemma eq_of_stored (hproto : PrototypeOk prototype) {old : Option D}
    (hf : ∀ k x,f k=some x ↔ Stored content x ∧ Same prototype x k)
    (habsent : old=none → ∀ x,Stored content x → ¬Same prototype data x)
    (hpresent : ∀ y,old=some y → Stored content y ∧ Same prototype data y) : f data=old := by
  cases hold : old with
  | none =>
    cases hfd : f data with
    | none => rfl
    | some y =>
      obtain ⟨hy,hsame⟩ := (hf data y).mp hfd
      exact absurd (hsame.symm hproto) (habsent hold y hy)
  | some y =>
    obtain ⟨hy,hsame⟩ := hpresent y hold
    exact (hf data y).mpr ⟨hy,hsame.symm hproto⟩

lemma HashAction.perform_spec (hproto : PrototypeOk prototype) (null : D)
    (h : HashRefines prototype table f) (action : HashAction D) :
    ∃ table',action.perform prototype null table=some (table',action.previous null f) ∧
      HashRefines prototype table' (action.apply prototype f) := by
  obtain ⟨content,hok,hroomy,hf⟩ := h
  have hset : ∀ data k x,(x=data ∨ Stored content x ∧ ¬Same prototype data x) ∧
      Same prototype x k ↔ (if Same prototype data k then some data else f k)=some x := by
    intro data k x
    split
    · rename_i hsame
      constructor
      · rintro ⟨rfl | ⟨-,hne⟩,hxk⟩
        · rfl
        · exact absurd (hsame.trans hproto (hxk.symm hproto)) hne
      · intro heq
        cases heq
        exact ⟨.inl rfl,hsame⟩
    · rename_i hother
      rw [hf]
      constructor
      · rintro ⟨rfl | ⟨hx,-⟩,hxk⟩
        · exact absurd hxk hother
        · exact ⟨hx,hxk⟩
      · rintro ⟨hx,hxk⟩
        exact ⟨.inr ⟨hx,fun hdx => hother (hdx.trans hproto hxk)⟩,hxk⟩
  cases action with
  | insert data =>
    obtain ⟨table',content',old,heq,hok',hroomy',hins⟩ := insertData_spec hproto hok hroomy true data
    have hold := eq_of_stored hproto hf hins.absent hins.present
    refine ⟨table',?_,content',hok',hroomy',fun k x => ?_⟩
    · dsimp only [HashAction.perform,HashAction.previous]
      rw [NXHashInsert,heq,hold]
      rfl
    · rw [hins.stored,if_neg (by simp)]
      exact (hset data k x).symm
  | insertIfAbsent data =>
    obtain ⟨table',content',old,heq,hok',hroomy',hins⟩ := insertData_spec hproto hok hroomy false data
    have hold := eq_of_stored hproto hf hins.absent hins.present
    refine ⟨table',?_,content',hok',hroomy',fun k x => ?_⟩
    · dsimp only [HashAction.perform,HashAction.previous]
      rw [NXHashInsertIfAbsent,heq,hold]
      rfl
    · dsimp only [HashAction.apply]
      rw [hold]
      cases old with
      | none =>
        have hstored : Stored content' x ↔ x=data ∨ Stored content x ∧ ¬Same prototype data x :=
          (hins.stored x).trans (by rw [if_neg (by simp)])
        rw [hstored]
        exact (hset data k x).symm
      | some y =>
        have hstored : Stored content' x ↔ Stored content x :=
          (hins.stored x).trans (by rw [if_pos ⟨rfl,rfl⟩])
        obtain ⟨hy,hsame⟩ := hins.present y rfl
        rw [hstored,←hf]
        split
        · rename_i hk
          rw [Option.getD_some,(hf k y).mpr ⟨hy,(hsame.symm hproto).trans hproto hk⟩]
        · exact Iff.rfl
  | remove data =>
    obtain ⟨table',content',old,heq,hok',hroomy',hremoved⟩ :=
      NXHashRemove_spec hproto hok hroomy null data
    have hold := eq_of_stored hproto hf hremoved.absent hremoved.present
    refine ⟨table',?_,content',hok',hroomy',fun k x => ?_⟩
    · dsimp only [HashAction.perform,HashAction.previous]
      rw [heq,hold]
    · rw [hremoved.stored]
      dsimp only [HashAction.apply]
      split
      · rename_i hk
        refine ⟨fun hx => (by cases hx),?_⟩
        rintro ⟨⟨hx,hne⟩,hxk⟩
        exact absurd (hk.trans hproto (hxk.symm hproto)) hne
      · rename_i hk
        rw [hf]
        constructor
        · rintro ⟨hx,hxk⟩
          exact ⟨⟨hx,fun hdx => hk (hdx.trans hproto hxk)⟩,hxk⟩
        · rintro ⟨⟨hx,-⟩,hxk⟩
          exact ⟨hx,hxk⟩

lemma runHash_spec (hproto : PrototypeOk prototype) (null : D) (h : HashRefines prototype table f)
    (actions : List (HashAction D)) : ∃ table',runHash prototype null table actions =
        some (table',previousElements prototype null f actions) ∧
      HashRefines prototype table' (actions.foldl (HashAction.apply prototype) f) := by
  induction actions generalizing table f with
  | nil => exact ⟨table,rfl,h⟩
  | cons action actions ih =>
    obtain ⟨table₁,hstep,h₁⟩ := action.perform_spec hproto null h
    obtain ⟨table',hrun,h'⟩ := ih h₁
    refine ⟨table',?_,h'⟩
    rw [runHash,hstep,Option.bind_some,hrun]
    rfl

/-- What a table tells about the set that it holds. -/
structure HashModels (prototype : NXHashTablePrototype D) (null : D) (table : NXHashTable D)
    (f : D → Option D) : Prop where
  member : ∀ data,NXHashMember prototype table data=some (f data).isSome
  get : ∀ data,NXHashGet prototype null table data=some ((f data).getD null)
  enumerated : ∃ xs,elements table=some xs ∧ xs.length=table.count ∧
    (xs.Pairwise fun x y => ¬Same prototype x y) ∧
    ∀ data x,f data=some x ↔ x∈xs ∧ Same prototype x data

lemma HashRefines.models (hproto : PrototypeOk prototype) (null : D)
    (h : HashRefines prototype table f) : HashModels prototype null table f := by
  obtain ⟨content,hok,hroomy,hf⟩ := h
  have hget : ∀ data,NXHashGet prototype null table data=some ((f data).getD null) ∧
      NXHashMember prototype table data=some (f data).isSome := by
    intro data
    obtain ⟨r,hget,hmember,hfound⟩ := NXHashGet_spec hok null data
    have hr : f data=r.map Prod.snd := by
      cases hfound with
      | absent hnone =>
        exact eq_of_stored hproto hf
          (fun _ x hx hsame => hnone x (hok.mem_of_same hproto hx hsame) hsame)
          (fun y hy => by cases hy)
      | «at» before old behind heq hsame =>
        have hstored : Stored content old :=
          ⟨_,by rw [heq]; exact mem_append_right before mem_cons_self⟩
        exact (hf data old).mpr ⟨hstored,hsame.symm hproto⟩
    refine ⟨by rw [hget,hr],?_⟩
    rw [hmember,hr,Option.isSome_map]
  refine ⟨fun data => (hget data).2,fun data => (hget data).1,_,elements_eq hok,?_,?_,
    fun data x => ?_⟩
  · rw [length_reverse,length_flattened,hok.count]
  · rw [pairwise_reverse]
    exact (pairwise_flattened hproto hok).imp fun hne hsame => hne (hsame.symm hproto)
  · rw [hf,mem_reverse,mem_flattened hok]

/-- Every run ends, returns the previous elements, and leaves the set. -/
theorem hashTable_run (hproto : PrototypeOk prototype) (null : D) (capacity : ℕ)
    (actions : List (HashAction D)) :
    ∃ table,runHash prototype null (NXCreateHashTable capacity) actions =
        some (table,previousElements prototype null (fun _ => none) actions) ∧
      HashModels prototype null table (hashed prototype actions) := by
  have hone := Nat.one_lt_two_pow (Nat.succ_ne_zero (Nat.log2 capacity))
  have hcreated : HashRefines prototype (NXCreateHashTable capacity) fun _ => none :=
    ⟨fun _ => [],HashTableOk.created prototype (by omega),Nat.zero_le _,fun k x =>
      ⟨fun hx => (by cases hx),fun hx => absurd hx.1 (not_stored_nil x)⟩⟩
  obtain ⟨table,hrun,h⟩ := runHash_spec hproto null hcreated actions
  exact ⟨table,hrun,h.models hproto null⟩

def remainders : NXHashTablePrototype ℕ := ⟨fun n => n%10,fun m n => m%10=n%10⟩

theorem hashTable_run_remainders : ∃ table,runHash remainders 0 (NXCreateHashTable 0)
        [.insert 1,.insert 2,.insert 11,.insertIfAbsent 12,.remove 21] =
        some (table,previousElements remainders 0 (fun _ => none)
          [.insert 1,.insert 2,.insert 11,.insertIfAbsent 12,.remove 21]) ∧
      HashModels remainders 0 table (hashed remainders
        [.insert 1,.insert 2,.insert 11,.insertIfAbsent 12,.remove 21]) :=
  hashTable_run ⟨⟨fun _ => by simp [remainders],fun h => by simpa [remainders,eq_comm] using h,
    fun h g => by
      simp only [remainders,decide_eq_true_eq] at h g ⊢
      exact h.trans g⟩,fun m n h => by simpa [remainders] using h⟩ 0 0 _

end Runs

end Darwin.Objc
