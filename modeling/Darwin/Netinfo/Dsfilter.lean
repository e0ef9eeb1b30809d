import Darwin.Netinfo.DsengineIndex

/-! Assertions about a record, from `common/dsassertion.c`, in three-valued logic. -/
namespace Darwin.Netinfo

/-- `Logic3` -/
inductive Logic3
  | L3False
  | L3True
  | L3Undefined
  deriving DecidableEq

def DSA_LESS : ℤ := 0
def DSA_LESS_OR_EQUAL : ℤ := 1
def DSA_EQUAL : ℤ := 2
def DSA_GREATER_OR_EQUAL : ℤ := 3
def DSA_GREATER : ℤ := 4
def DSA_APPROX : ℤ := 5
def DSA_HAS_KEY : ℤ := 6
def DSA_PREFIX : ℤ := 7
def DSA_SUBSTR : ℤ := 8
def DSA_SUFFIX : ℤ := 9
def DSA_PRECOMPUTED : ℤ := 10

def DataTypeAny : ℕ := 255
def SELECT_META_ATTRIBUTE : ℤ := 1

/-- An assertion has a value, unless it asks for a key only or is decided already. -/
structure Dsassertion where
  assertion : ℤ
  metaSel : ℤ
  key : Dsdata
  value : Option Dsdata
  size : assertion≠DSA_HAS_KEY → assertion≠DSA_PRECOMPUTED → value.isSome

def dsdataToUint32 (d : Dsdata) : ℕ :=
  match d.bytes with
  | a::b::c::e::_ => ((a*256+b)*256+c)*256+e
  | _ => 0

def dsdataCompareSub (a b : Dsdata) (start len : ℕ) : Ordering :=
  match a.bytes,b.bytes with
  | [],[] => .eq
  | [],_ => .lt
  | _,[] => .gt
  | as,bs =>
    let len := min (min len (as.length-start)) bs.length
    compareBytes ((as.drop start).take len) (bs.take len)

def dsrecordSelected (r : Attributes) (k : Dsdata) (asel : ℤ) : Option Dsattribute :=
  dsrecordAttribute (if asel=SELECT_META_ATTRIBUTE then r.meta_attributes else r.attributes) k

/-- The loops over the values of an attribute: one that is of the type asked for passes the test. -/
def someValue (ttype : ℕ) (test : Dsdata → Bool) (a : Dsattribute) : Logic3 :=
  if a.value.any fun v => !(ttype≠DataTypeAny && v.type≠ttype) && test v then .L3True
  else .L3False

def testAttribute (t : Dsassertion) (value : Dsdata) (ttype : ℕ) (a : Dsattribute) : Logic3 :=
  let len := value.bytes.length
  if t.assertion=DSA_LESS then someValue ttype (fun v => dsdataCompare v value=.lt) a
  else if t.assertion=DSA_LESS_OR_EQUAL then
    someValue ttype (fun v => dsdataCompare v value≠.gt) a
  else if t.assertion=DSA_EQUAL || t.assertion=DSA_APPROX then
    someValue ttype (fun v => dsdataCompare v value=.eq) a
  else if t.assertion=DSA_GREATER_OR_EQUAL then
    someValue ttype (fun v => dsdataCompare v value≠.lt) a
  else if t.assertion=DSA_GREATER then someValue ttype (fun v => dsdataCompare v value=.gt) a
  else if t.assertion=DSA_PREFIX then
    someValue ttype (fun v => len≤v.bytes.length && dsdataCompareSub v value 0 len=.eq) a
  else if t.assertion=DSA_SUBSTR then
    someValue ttype (fun v => len≤v.bytes.length &&
      (List.range (v.bytes.length-len+1)).any fun start =>
        dsdataCompareSub v value start len=.eq) a
  else if t.assertion=DSA_SUFFIX then
    someValue ttype (fun v => len≤v.bytes.length &&
      dsdataCompareSub v value (v.bytes.length-len) len=.eq) a
  else .L3False

def dsassertionTest (t : Dsassertion) (r : Attributes) : Logic3 :=
  if hpre : t.assertion=DSA_PRECOMPUTED then
    -- the number is bounded by that of `L3Undefined`
    match dsdataToUint32 t.key with
    | 0 => .L3False
    | 1 => .L3True
    | _ => .L3Undefined
  else
    match dsrecordSelected r t.key t.metaSel with
    | none => .L3Undefined
    | some a =>
      if hkey : t.assertion=DSA_HAS_KEY then
        if dsdataCompare a.key t.key=.eq then .L3True else .L3False
      else
        let value := t.value.get (t.size hkey hpre)
        testAttribute t value value.type a

lemma dsassertionTest_absent {t : Dsassertion} {r : Attributes}
    (hpre : t.assertion≠DSA_PRECOMPUTED) (h : dsrecordSelected r t.key t.metaSel=none) :
    dsassertionTest t r=.L3Undefined := by
  rw [dsassertionTest,dif_neg hpre,h]

end Darwin.Netinfo

/-! Filters, from `common/dsfilter.c`: nodes in memory that hold on to each other, built by calls
in any order. Beside the memory stands the history of what was appended to each filter. -/
namespace Darwin.Netinfo

inductive DsfOp
  | DSF_OP_ASSERT
  | DSF_OP_AND
  | DSF_OP_OR
  | DSF_OP_NOT
  deriving DecidableEq

/-- `dsfilter`: the array may have more slots than are counted. -/
structure Dsfilter where
  op : DsfOp
  assert : Option Dsassertion
  count : ℕ
  filter : List ℕ

/-- What a call has appended. -/
inductive Member
  | filter (x : ℕ)
  | assertion (a : Dsassertion)

/-- The filters at their addresses, and the history. -/
structure Filters where
  filters : List Dsfilter
  appended : ℕ → List Member

def Filters.malloc (m : Filters) (f : Dsfilter) : Filters × ℕ :=
  (⟨m.filters++[f],m.appended⟩,m.filters.length)

def Filters.record (m : Filters) (f : ℕ) (member : Member) : Filters :=
  ⟨m.filters,fun g =>
    if g=f ∧ f < m.filters.length then m.appended g++[member] else m.appended g⟩

def dsfilterNewAssert (m : Filters) (a : Dsassertion) : Filters × ℕ :=
  m.malloc ⟨.DSF_OP_ASSERT,some a,0,[]⟩

def dsfilterNewComposite (m : Filters) (op : DsfOp) : Filters × ℕ := m.malloc ⟨op,none,0,[]⟩

def dsfilterNewAnd (m : Filters) : Filters × ℕ := dsfilterNewComposite m .DSF_OP_AND
def dsfilterNewOr (m : Filters) : Filters × ℕ := dsfilterNewComposite m .DSF_OP_OR
def dsfilterNewNot (m : Filters) : Filters × ℕ := dsfilterNewComposite m .DSF_OP_NOT

/-- The array is allocated anew for the first member and grows by a slot for each other one; the
slot behind those counted is set. -/
def setSlot (x : ℕ) (f : Dsfilter) : Dsfilter := {f with filter := f.filter.take f.count++[x]}

def dsfilterAppendFilter (m : Filters) (f x : Option ℕ) : Filters :=
  match f,x with
  | none,_ => m
  | some _,none => m
  | some f,some x =>
    let m := m.record f (.filter x)
    ⟨m.filters.modify f fun n => {setSlot x n with count := n.count+1},m.appended⟩

def dsfilterAppendAssertion (m : Filters) (f : Option ℕ) (a : Option Dsassertion) : Filters :=
  match f,a with
  | none,_ => m
  | some _,none => m
  | some f,some a =>
    let (m,x) := dsfilterNewAssert m a
    let m := m.record f (.assertion a)
    ⟨m.filters.modify f (setSlot x),m.appended⟩

/-- A call of the interface. -/
inductive FilterCall
  | newAssert (a : Dsassertion)
  | newAnd
  | newOr
  | newNot
  | appendFilter (f x : Option ℕ)
  | appendAssertion (f : Option ℕ) (a : Option Dsassertion)

def filterStep (m : Filters) : FilterCall → Filters
  | .newAssert a => (dsfilterNewAssert m a).1
  | .newAnd => (dsfilterNewAnd m).1
  | .newOr => (dsfilterNewOr m).1
  | .newNot => (dsfilterNewNot m).1
  | .appendFilter f x => dsfilterAppendFilter m f x
  | .appendAssertion f a => dsfilterAppendAssertion m f a

def filterRun (calls : List FilterCall) : Filters := calls.foldl filterStep ⟨[],fun _ => []⟩

def andLoop (test : ℕ → Option Logic3) : List ℕ → Bool → Option Logic3
  | [],hasUndef => some (if hasUndef then .L3Undefined else .L3True)
  | i::is,hasUndef =>
    match test i with
    | none => none
    | some .L3False => some .L3False
    | some .L3Undefined => andLoop test is true
    | some .L3True => andLoop test is hasUndef

def orLoop (test : ℕ → Option Logic3) : List ℕ → Bool → Option Logic3
  | [],hasUndef => some (if hasUndef then .L3Undefined else .L3False)
  | i::is,hasUndef =>
    match test i with
    | none => none
    | some .L3True => some .L3True
    | some .L3Undefined => orLoop test is true
    | some .L3False => orLoop test is hasUndef

def not3 : Logic3 → Logic3
  | .L3True => .L3False
  | .L3False => .L3True
  | .L3Undefined => .L3Undefined

def dsfilterTest (filters : List Dsfilter) (r : Option Attributes) : ℕ → Option ℕ → Option Logic3
  | 0,_ => none
  | _+1,none => some .L3Undefined
  | depth+1,some f =>
    match r with
    | none => some .L3Undefined
    | some record =>
      match filters[f]? with
      | none => none
      | some n =>
        let members := n.filter.take n.count
        let test := fun x => dsfilterTest filters r depth (some x)
        match n.op with
        | .DSF_OP_ASSERT =>
          some (match n.assert with
            | none => .L3Undefined
            | some a => dsassertionTest a record)
        | .DSF_OP_AND => andLoop test members false
        | .DSF_OP_OR => orLoop test members false
        | .DSF_OP_NOT =>
          match members with
          | [] => some .L3Undefined
          | x::_ => (test x).map not3

end Darwin.Netinfo
