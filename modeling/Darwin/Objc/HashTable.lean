import Darwin.Objc.MapTable

/-! Hash tables of elements, from `runtime/hashtable2.m`. -/
open Function
namespace Darwin.Objc

variable {D : Type} [DecidableEq D]

abbrev NXHashTablePrototype (D : Type) := NXMapTablePrototype D

/-- The union of a bucket. -/
inductive Elements (D : Type)
  | null
  | one (data : D)
  | many (pairs : List D)

def Elements.one? : Elements D → Option D
  | .one data => some data
  | .null | .many _ => none

def Elements.many? : Elements D → Option (List D)
  | .many pairs => some pairs
  | .null | .one _ => none

structure HashBucket (D : Type) where
  count : ℕ
  elements : Elements D

structure NXHashTable (D : Type) where
  count : ℕ
  nbBuckets : ℕ
  buckets : ℕ → HashBucket D

def NXCreateHashTable (capacity : ℕ) : NXHashTable D :=
  ⟨0,2^(Nat.log2 capacity+1)-1,fun _ => ⟨0,.null⟩⟩

section Search

variable (prototype : NXHashTablePrototype D)

def bucketIndex (table : NXHashTable D) (data : D) : ℕ := prototype.hash data%table.nbBuckets

/-- The loop `while (j--)` over the elements of a bucket: where the first equal one is. -/
def findPair (data : D) : ℕ → List D → Option (Option (ℕ × D))
  | 0,_ => some none
  | _+1,[] => none
  | j+1,pair::pairs =>
    if isEqual prototype data pair then some (some (0,pair))
    else (findPair data j pairs).map (Option.map fun r => (r.1+1,r.2))

def NXHashMember (table : NXHashTable D) (data : D) : Option Bool :=
  let bucket := table.buckets (bucketIndex prototype table data)
  if bucket.count=0 then some false
  else if bucket.count=1 then bucket.elements.one?.map fun one => isEqual prototype data one
  else bucket.elements.many?.bind fun pairs =>
    (findPair prototype data bucket.count pairs).map Option.isSome

def NXHashGet (null : D) (table : NXHashTable D) (data : D) : Option D :=
  let bucket := table.buckets (bucketIndex prototype table data)
  if bucket.count=0 then some null
  else if bucket.count=1 then
    bucket.elements.one?.map fun one => if isEqual prototype data one then one else null
  else bucket.elements.many?.bind fun pairs =>
    (findPair prototype data bucket.count pairs).map fun
      | some (_,old) => old
      | none => null

end Search

/-- The loop of `NXNextHashState` that looks for the next bucket with elements. -/
def nextBucket (table : NXHashTable D) : ℕ → Option (ℕ × ℕ)
  | 0 => none
  | i+1 =>
    if (table.buckets i).count=0 then nextBucket table i else some (i,(table.buckets i).count)

def NXNextHashState (table : NXHashTable D) (state : ℕ × ℕ) : Option (Option (D × ℕ × ℕ)) :=
  match (if state.2=0 then nextBucket table state.1 else some state) with
  | none => some none
  | some (i,j) =>
    let bucket := table.buckets i
    let data := if bucket.count=1 then bucket.elements.one?
      else bucket.elements.many?.bind fun pairs => pairs[j-1]?
    data.map fun data => some (data,i,j-1)

def elementsFrom (table : NXHashTable D) : ℕ → ℕ × ℕ → Option (List D)
  | 0,_ => none
  | fuel+1,state => (NXNextHashState table state).bind fun
    | none => some []
    | some (data,state) => (elementsFrom table fuel state).map (data::·)

def elements (table : NXHashTable D) : Option (List D) :=
  elementsFrom table (table.count+1) (table.nbBuckets,0)

section Insert

variable (prototype : NXHashTablePrototype D)

def hashRehash (insert : NXHashTable D → D → Option (NXHashTable D)) (table : NXHashTable D) :
    Option (NXHashTable D) :=
  (elements table).bind fun datas => datas.foldlM insert
    ⟨0,table.nbBuckets+(table.nbBuckets+1),fun _ => ⟨0,.null⟩⟩

/-- A bucket has one element more; rehashes when there are more elements than buckets. -/
def enlarge (insert : NXHashTable D → D → Option (NXHashTable D)) (table : NXHashTable D)
    (index : ℕ) (pairs : List D) : Option (NXHashTable D) :=
  let table : NXHashTable D := { table with
    buckets := update table.buckets index
      ⟨(table.buckets index).count+1,.many pairs⟩
    count := table.count+1}
  if table.nbBuckets<table.count then hashRehash insert table else some table

/-- What `NXHashInsert` and `NXHashInsertIfAbsent` have in common: an equal element is found, and
replaced or not, or the element is added. -/
def insertData (replace : Bool) : ℕ → NXHashTable D → D → Option (NXHashTable D × Option D)
  | 0,_,_ => none
  | depth+1,table,data =>
    let index := bucketIndex prototype table data
    let bucket := table.buckets index
    let put := fun bucket : HashBucket D =>
      {table with buckets := update table.buckets index bucket}
    let rehashed := fun (table : NXHashTable D) data =>
      (insertData true depth table data).map Prod.fst
    if bucket.count=0 then
      some ({put ⟨1,.one data⟩ with count := table.count+1},none)
    else if bucket.count=1 then
      bucket.elements.one?.bind fun old =>
        if isEqual prototype data old then
          some (if replace then put ⟨1,.one data⟩ else table,some old)
        else (enlarge rehashed table index [data,old]).map fun table => (table,none)
    else
      bucket.elements.many?.bind fun pairs =>
        (findPair prototype data bucket.count pairs).bind fun
          | some (p,old) =>
            some (if replace then put ⟨bucket.count,.many (pairs.set p data)⟩ else table,some old)
          -- we enlarge this bucket; and put new data in front
          | none => (enlarge rehashed table index (data::pairs.take bucket.count)).map
              fun table => (table,none)

def NXHashInsert (null : D) (table : NXHashTable D) (data : D) : Option (NXHashTable D × D) :=
  (insertData prototype true 2 table data).map fun r => (r.1,r.2.getD null)

def NXHashInsertIfAbsent (table : NXHashTable D) (data : D) : Option (NXHashTable D × D) :=
  (insertData prototype false 2 table data).map fun r => (r.1,r.2.getD data)

end Insert

section Remove

variable (prototype : NXHashTablePrototype D)

def NXHashRemove (null : D) (table : NXHashTable D) (data : D) : Option (NXHashTable D × D) :=
  let index := bucketIndex prototype table data
  let bucket := table.buckets index
  let put := fun bucket : HashBucket D =>
    {table with buckets := update table.buckets index bucket,count := table.count-1}
  if bucket.count=0 then some (table,null)
  else if bucket.count=1 then
    bucket.elements.one?.map fun one =>
      if isEqual prototype data one then (put ⟨0,.null⟩,one) else (table,null)
  else
    bucket.elements.many?.bind fun pairs =>
      if bucket.count=2 then
        pairs[0]?.bind fun pair0 => pairs[1]?.map fun pair1 =>
          if isEqual prototype data pair0 then (put ⟨1,.one pair1⟩,pair0)
          else if isEqual prototype data pair1 then (put ⟨1,.one pair0⟩,pair1)
          else (table,null)
      else
        (findPair prototype data bucket.count pairs).map fun
          -- we shrink this bucket
          | some (p,old) => (put ⟨bucket.count-1,
              .many (pairs.take p++(pairs.drop (p+1)).take (bucket.count-1-p))⟩,old)
          | none => (table,null)

end Remove

end Darwin.Objc
