import Darwin.Netinfo.Dsengine
import Darwin.Netinfo.DsindexKeys

/-! The indexes that cached records carry, and how `common/dsengine.c` and `dsstore_match` of
`common/dsstore.c` use them. The store can be written, and its files are read and written without
errors. A record that is taken out of the cache loses its index. -/
open Option
namespace Darwin.Netinfo
open Lib

/-- The attributes of a record. -/
structure Attributes where
  attributes : List Dsattribute
  meta_attributes : List Dsattribute
  deriving DecidableEq

/-- The records, and the index that the cached record with an id carries, if it is cached and has
one. -/
structure Engine where
  store : Dsstore Attributes
  index : ℕ → Option Dsindex

def DataTypeCStr : ℕ := 6

def NAME_NAME : Dsdata := ⟨DataTypeCStr,[110,97,109,101,0]⟩

def NAME_INDEX_KEY : Dsdata := ⟨DataTypeCStr,[105,110,100,101,120,95,107,101,121,0]⟩

def Engine.put (s : Engine) (dsid : ℕ) (r : Dsrecord Attributes) : Engine :=
  {s with store := s.store.put dsid r}

def Engine.setIndex (s : Engine) (dsid : ℕ) (x : Option Dsindex) : Engine :=
  {s with index := Function.update s.index dsid x}

def Engine.atIndex (s : Engine) (dsid : ℕ) (f : Dsindex → Dsindex) : Engine :=
  s.setIndex dsid ((s.index dsid).map f)

def Engine.erase (s : Engine) (dsid : ℕ) : Engine :=
  ({s with store := s.store.erase dsid} : Engine).setIndex dsid none

def Engine.create (s : Engine) (r : Dsrecord Attributes) (dsid : ℕ) : Engine :=
  match s.store.get dsid with
  | none => s
  | some parent =>
    let rdsid := s.store.fresh
    let s := (s.put rdsid {r with super := dsid}).setIndex rdsid none
    let s := s.put dsid (dsrecordAppendSub dsid parent rdsid)
    s.atIndex dsid fun x => dsindexInsertRecord x r.attributes.attributes rdsid

/-- `dsengine_save`; `same` is whether the record is the cached one, which may carry an index. -/
def Engine.save (s : Engine) (dsid : ℕ) (r : Dsrecord Attributes) (same : Bool) : Engine :=
  match s.store.get dsid with
  | none => s
  | some stored =>
    match s.store.get stored.super with
    | none => s
    | some _ =>
      let s := s.atIndex stored.super fun x =>
        dsindexInsertRecord (dsindexDeleteDsid x dsid) r.attributes.attributes dsid
      (if same then s else s.setIndex dsid none).put dsid r

def Engine.forKids (f : Engine → ℕ → Option (Engine × DSStatus)) :
    List ℕ → Engine → Option (Engine × DSStatus)
  | [],s => some (s,.ok)
  | kid::kids,s =>
    (f s kid).bind fun r => if r.2≠.ok then some r else Engine.forKids f kids r.1

def Engine.removeOne (s : Engine) (dsid : ℕ) : Engine × DSStatus :=
  match s.store.get dsid with
  | none => (s,.invalidPath)
  | some r =>
    match s.store.get r.super with
    | none => (s,.invalidPath)
    | some parent =>
      let s := s.put r.super (dsrecordRemoveSub parent dsid)
      let s := s.atIndex r.super fun x => dsindexDeleteDsid x dsid
      (s.erase dsid,.ok)

def Engine.remove : ℕ → Engine → ℕ → Option (Engine × DSStatus)
  | 0,_,_ => none
  | depth+1,s,dsid =>
    match s.store.get dsid with
    | none => some (s,.ok)
    | some r => (Engine.forKids (Engine.remove depth) r.sub s).map fun removed =>
      if removed.2≠.ok then removed else removed.1.removeOne dsid

def Engine.move (s : Engine) (dsid pdsid : ℕ) : Engine :=
  if dsid=0 then s
  else
    match s.store.get dsid with
    | none => s
    | some child =>
      if child.super=pdsid then s
      else
        let s := s.put dsid {child with super := pdsid}
        match s.store.get child.super with
        | none => s
        | some r =>
          let s := s.put child.super (dsrecordRemoveSub r dsid)
          let s := s.atIndex child.super fun x => dsindexDeleteDsid x dsid
          match s.store.get pdsid with
          | none => s
          | some r =>
            let s := s.put pdsid (dsrecordAppendSub pdsid r dsid)
            s.atIndex pdsid fun x => dsindexInsertRecord x child.attributes.attributes dsid

section Stores

variable {s : Engine}

lemma dsstoreSave_true (store : Dsstore Attributes) (dsid : ℕ) (r : Dsrecord Attributes) :
    dsstoreSave true store dsid r=(store.put dsid r,.ok) := rfl

/-- Without its indexes, the engine does what it does to a store that can be written. -/
theorem create_store (r : Dsrecord Attributes) (dsid : ℕ) :
    (s.create r dsid).store=(dsengineCreate true s.store r dsid).1 := by
  rw [Engine.create,dsengineCreate]
  cases s.store.get dsid with
  | none => rfl
  | some parent =>
    simp only [dsstoreSave_true,SortedMap.put_put]
    rfl

lemma save_store (dsid : ℕ) (r : Dsrecord Attributes) (same : Bool) :
    (s.save dsid r same).store=(dsengineSave true s.store dsid r).1 := by
  rw [Engine.save,dsengineSave]
  cases s.store.get dsid with
  | none => rfl
  | some stored =>
    dsimp only
    cases s.store.get stored.super with
    | none => rfl
    | some parent => cases same <;> rfl

lemma move_store (dsid pdsid : ℕ) :
    (s.move dsid pdsid).store=(dsengineMove true s.store dsid pdsid).1 := by
  rw [Engine.move,dsengineMove]
  by_cases h0 : dsid=0
  · rw [if_pos h0,if_pos h0]
  rw [if_neg h0,if_neg h0]
  cases s.store.get dsid with
  | none => rfl
  | some child =>
    dsimp only
    by_cases hsame : child.super=pdsid
    · rw [if_pos hsame,if_pos hsame]
    rw [if_neg hsame,if_neg hsame]
    simp only [dsstoreSave_true,SortedMap.put_put,ne_eq,not_true_eq_false,if_false]
    simp only [Engine.put,Engine.atIndex,Engine.setIndex]
    cases (s.store.put dsid {child with super := pdsid}).get child.super with
    | none => rfl
    | some r =>
      dsimp only
      cases ((s.store.put dsid {child with super := pdsid}).put child.super
          (dsrecordRemoveSub r dsid)).get pdsid with
      | none => rfl
      | some r => rfl

lemma forKids_store {f : Engine → ℕ → Option (Engine × DSStatus)}
    {g : Dsstore Attributes → ℕ → Option (Dsstore Attributes × DSStatus)}
    (hf : ∀ s kid,(f s kid).map (fun r => (r.1.store,r.2))=g s.store kid) (kids : List ℕ) :
    (Engine.forKids f kids s).map (fun r => (r.1.store,r.2))=forKids g kids s.store := by
  induction kids generalizing s with
  | nil => rfl
  | cons kid kids ih =>
    rw [Engine.forKids,forKids,←hf]
    cases f s kid with
    | none => rfl
    | some r =>
      rw [bind_some,map_some,bind_some]
      split_ifs with hr
      · rfl
      · exact ih

lemma remove_store (depth dsid : ℕ) :
    (Engine.remove depth s dsid).map (fun r => (r.1.store,r.2)) =
      dsengineRemove true depth s.store dsid := by
  induction depth generalizing s dsid with
  | zero => rfl
  | succ depth ih =>
    rw [Engine.remove,dsengineRemove]
    cases s.store.get dsid with
    | none => rfl
    | some r =>
      dsimp only
      rw [←forKids_store (fun s kid => ih kid) r.sub]
      cases Engine.forKids (Engine.remove depth) r.sub s with
      | none => rfl
      | some removed =>
        simp only [map_some,some.injEq]
        split_ifs with hr
        · rfl
        rw [Engine.removeOne]
        cases removed.1.store.get dsid with
        | none => rfl
        | some r =>
          dsimp only
          cases removed.1.store.get r.super with
          | none => rfl
          | some parent =>
            simp only [dsstoreSave_true,SortedMap.put_put]
            rfl

end Stores

def dsrecordAttribute (attributes : List Dsattribute) (k : Dsdata) : Option Dsattribute :=
  attributes.find? fun a => a.key=k

/-- The keys that `dsstore_match` indexes: the name, and the values of `index_key`. -/
def indexKeys (r : Dsrecord Attributes) : List Dsdata :=
  NAME_NAME::((dsrecordAttribute r.attributes.meta_attributes NAME_INDEX_KEY).map
    Dsattribute.value).getD []

def hasEqual (attributes : List Dsattribute) (key val : Dsdata) : Bool :=
  attributes.any fun a => a.key=key ∧ val∈a.value

def indexChild (keys : List Dsdata) (x : Dsindex) (attributes : List Dsattribute) (dsid : ℕ) :
    Dsindex :=
  attributes.foldl (fun x a => if a.key∈keys then dsindexInsertAttribute x a dsid else x) x

/-- The loop of `dsstore_match` over the children; it ends where one is missing. -/
def matchLoop (store : Dsstore Attributes) (keys : List Dsdata) (key val : Dsdata) :
    List ℕ → Dsindex → Option ℕ → Dsindex × DSStatus × Option ℕ
  | [],x,found => (x,.ok,found)
  | c::cs,x,found =>
    match store.get c with
    | none => (x,.invalidPath,found)
    | some k =>
      let found := if found=none ∧ hasEqual k.attributes.attributes key val then some c else found
      matchLoop store keys key val cs (indexChild keys x k.attributes.attributes c) found

def Engine.dsstoreMatch (s : Engine) (dsid : ℕ) (key val : Dsdata) : Engine × DSStatus × Option ℕ :=
  match s.store.get dsid with
  | none => (s,.invalidPath,none)
  | some r =>
    if r.sub=[] then (s,.ok,none)
    else
      match (s.index dsid).bind fun x => dsindexLookupKey x key with
      | some kx => (s,.ok,(dsindexLookupVal kx.vindex val).bind fun vx => vx.dsid.head?)
      | none =>
        let matched := matchLoop s.store (indexKeys r) key val r.sub
          ((indexKeys r).foldl dsindexInsertKey []) none
        (s.setIndex dsid (some matched.1),matched.2)

end Darwin.Netinfo
