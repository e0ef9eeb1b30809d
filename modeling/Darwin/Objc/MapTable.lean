import Darwin.Lib.Cluster

/-! Hash tables of mappings, from `runtime/maptable.m`. -/
open Function
namespace Darwin.Objc

variable {K V : Type} [DecidableEq K]

/-- The callbacks of a table. -/
structure NXMapTablePrototype (K : Type) where
  hash : K → ℕ
  isEqual : K → K → Bool

/-- A table. A bucket without a pair has the key `NX_MAPNOTAKEY`. -/
structure NXMapTable (K V : Type) where
  count : ℕ
  nbBuckets : ℕ
  buckets : ℕ → Option (K × V)

section Macros

variable (prototype : NXMapTablePrototype K)

def bucketOf (nbBuckets : ℕ) (key : K) : ℕ :=
  let hash := prototype.hash key%2^32
  let xored := (hash%2^16)^^^(hash>>>16)
  (xored*65521+hash)%2^32%nbBuckets

def isEqual (key1 key2 : K) : Bool := key1=key2 || prototype.isEqual key1 key2

def nextIndex (nbBuckets index : ℕ) : ℕ := if nbBuckets ≤ index+1 then 0 else index+1

def NXCreateMapTable (capacity : ℕ) : NXMapTable K V :=
  ⟨0,2^(Nat.log2 capacity+1)-1,fun _ => none⟩

end Macros

section Search

variable (prototype : NXMapTablePrototype K)

/-- Where a search through the buckets ends. -/
inductive Probe (K V : Type)
  | empty (index2 : ℕ)
  | found (index2 : ℕ) (pair : K × V)
  | around

/-- The loop `while ((index2 = nextIndex(table, index2)) != index)` of a search for a key. -/
def probe (table : NXMapTable K V) (key : K) (index : ℕ) : ℕ → ℕ → Option (Probe K V)
  | 0,_ => none
  | fuel+1,index2 =>
    let index2 := nextIndex table.nbBuckets index2
    if index2=index then some .around
    else
      match table.buckets index2 with
      | none => some (.empty index2)
      | some pair =>
        if isEqual prototype pair.1 key then some (.found index2 pair)
        else probe table key index fuel index2

def NXMapMember (table : NXMapTable K V) (key : K) : Option (Option (K × V)) :=
  let index := bucketOf prototype table.nbBuckets key
  match table.buckets index with
  | none => some none
  | some pair =>
    if isEqual prototype pair.1 key then some (some pair)
    else (probe prototype table key index table.nbBuckets index).map fun
      | .found _ pair => some pair
      | .empty _ | .around => none

def NXMapGet (null : V) (table : NXMapTable K V) (key : K) : Option V :=
  (NXMapMember prototype table key).map fun
    | some pair => pair.2
    | none => null

end Search

section Insert

variable (prototype : NXMapTablePrototype K) (null : V)

def shiftPairs (nbBuckets : ℕ) : ℕ → (ℕ → Option (K × V)) → ℕ → Option (K × V) →
    Option (ℕ → Option (K × V))
  | _,buckets,_,none => some buckets
  | 0,_,_,some _ => none
  | fuel+1,buckets,index2,some current =>
    shiftPairs nbBuckets fuel (update buckets index2 (some current))
      (nextIndex nbBuckets index2) (buckets index2)

/-- `_NXMapRehash`: every pair is inserted into twice as many buckets and one. -/
def rehashWith (insert : NXMapTable K V → K → V → Option (NXMapTable K V × V))
    (table : NXMapTable K V) : Option (NXMapTable K V) :=
  (List.range table.nbBuckets).foldlM (fun new index =>
    match table.buckets index with
    | none => some new
    | some pair => (insert new pair.1 pair.2).map Prod.fst)
    ⟨0,table.nbBuckets+(table.nbBuckets+1),fun _ => none⟩

/-- `NXMapInsert` of a key other than `NX_MAPNOTAKEY`: the table and the previous value. It calls
itself after rehashing, and from there. -/
def insertKey : ℕ → NXMapTable K V → K → V → Option (NXMapTable K V × V)
  | 0,_,_,_ => none
  | depth+1,table,key,value =>
    let index := bucketOf prototype table.nbBuckets key
    match table.buckets index with
    | none =>
      some ({ table with
        buckets := update table.buckets index (some (key,value))
        count := table.count+1},null)
    | some pair =>
      if isEqual prototype pair.1 key then
        some ({ table with
          buckets := update table.buckets index (some (pair.1,value))},pair.2)
      else if table.count=table.nbBuckets then
        -- no room: rehash and retry
        (rehashWith (insertKey depth) table).bind fun table => insertKey depth table key value
      else
        (probe prototype table key index table.nbBuckets index).bind fun
          | .empty _ =>
            (shiftPairs table.nbBuckets table.nbBuckets table.buckets index
              (some (key,value))).bind fun buckets =>
                let table := {table with buckets := buckets,count := table.count+1}
                if table.nbBuckets*3<table.count*4 then
                  (rehashWith (insertKey depth) table).map fun table => (table,null)
                else some (table,null)
          | .found index2 pair =>
            some ({ table with
              buckets := update table.buckets index2 (some (pair.1,value))},pair.2)
          -- no room: can't happen!
          | .around => some (table,null)

/-- `NXMapInsert`: two calls inside each other are enough; the key `NX_MAPNOTAKEY` is refused. -/
def NXMapInsert (table : NXMapTable K V) (key : Option K) (value : V) :
    Option (NXMapTable K V × V) :=
  match key with
  | none => some (table,null)
  | some key => insertKey prototype null 2 table key value

end Insert

section Remove

variable (prototype : NXMapTablePrototype K) (null : V)

/-- The loop that measures the chain: its length, how often the key was found, and its value. -/
def chainFrom (table : NXMapTable K V) (key : K) (index : ℕ) :
    ℕ → ℕ → ℕ × ℕ × V → Option (ℕ × ℕ × V)
  | 0,_,_ => none
  | fuel+1,index2,(chain,found,old) =>
    let index2 := nextIndex table.nbBuckets index2
    if index2=index then some (chain,found,old)
    else
      match table.buckets index2 with
      | none => some (chain,found,old)
      | some pair =>
        if isEqual prototype pair.1 key
        then chainFrom table key index fuel index2 (chain+1,found+1,pair.2)
        else chainFrom table key index fuel index2 (chain+1,found,old)

def takeChain (nbBuckets : ℕ) (key : K) : ℕ → (ℕ → Option (K × V)) → ℕ →
    (ℕ → Option (K × V)) × List (K × V)
  | 0,buckets,_ => (buckets,[])
  | nb+1,buckets,index2 =>
    let r := takeChain nbBuckets key nb (update buckets index2 none)
      (nextIndex nbBuckets index2)
    (r.1,match buckets index2 with
      | none => r.2
      | some pair => if isEqual prototype pair.1 key then r.2 else pair::r.2)

def NXMapRemove (table : NXMapTable K V) (key : K) : Option (NXMapTable K V × V) :=
  let index := bucketOf prototype table.nbBuckets key
  match table.buckets index with
  | none => some (table,null)
  | some pair =>
    let first := if isEqual prototype pair.1 key then (1,1,pair.2) else (1,0,null)
    (chainFrom prototype table key index table.nbBuckets index first).bind fun r =>
      if r.2.1=0 then some (table,null)
      else
        -- remove then reinsert
        let taken := takeChain prototype table.nbBuckets key r.1 table.buckets index
        (taken.2.reverse.foldlM (fun table pair =>
          (NXMapInsert prototype null table (some pair.1) pair.2).map Prod.fst)
          {table with buckets := taken.1,count := table.count-r.1}).map fun table =>
            (table,r.2.2)

end Remove

section Enumeration

variable (prototype : NXMapTablePrototype K)

/-- `NXNextMapState`, from a state whose index is `index`: the pair and the next index. -/
def NXNextMapState (table : NXMapTable K V) : ℕ → Option ((K × V) × ℕ)
  | 0 => none
  | index+1 =>
    match table.buckets index with
    | some pair => some (pair,index)
    | none => NXNextMapState table index

def enumerateFrom (table : NXMapTable K V) : ℕ → ℕ → Option (List (K × V))
  | 0,_ => none
  | fuel+1,index =>
    match NXNextMapState table index with
    | none => some []
    | some (pair,index) => (enumerateFrom table fuel index).map (pair::·)

def enumerate (table : NXMapTable K V) : Option (List (K × V)) :=
  enumerateFrom table (table.nbBuckets+1) table.nbBuckets

def compareFrom (table2 : NXMapTable K V) : List (K × V) → Option Bool
  | [] => some true
  | pair::pairs => (NXMapMember prototype table2 pair.1).bind fun
    | none => some false
    | some _ => compareFrom table2 pairs

def NXCompareMapTables (table1 table2 : NXMapTable K V) : Option Bool :=
  if table1.count≠table2.count then some false
  else (enumerate table1).bind (compareFrom prototype table2)

end Enumeration

end Darwin.Objc
