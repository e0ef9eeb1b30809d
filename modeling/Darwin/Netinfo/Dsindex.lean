import Darwin.Lib.JumpSearch
import Mathlib.Tactic

/-! The index of a record's children, from `common/dsindex.c`: keys, for each key values in order,
and for each value the ids of the children that have it, in order. -/
open List Nat
namespace Darwin.Netinfo
open Lib Lib.JumpSearch

/-- Typed data. Equality is that of `dsdata_equal`. -/
structure Dsdata where
  type : ℕ
  bytes : List ℕ
  deriving DecidableEq

/-- A key and its values. -/
structure Dsattribute where
  key : Dsdata
  value : List Dsdata
  deriving DecidableEq

def compareBytes : List ℕ → List ℕ → Ordering
  | [],[] => .eq
  | [],_::_ => .lt
  | _::_,[] => .gt
  | a::as,b::bs => if a<b then .lt else if b<a then .gt else compareBytes as bs

def dsdataCompare (a b : Dsdata) : Ordering := compareBytes a.bytes b.bytes

/-- `dsindex_val_t` -/
structure DsindexVal where
  val : Dsdata
  dsid : List ℕ
  deriving DecidableEq

/-- `dsindex_key_t` -/
structure DsindexKey where
  key : Dsdata
  vindex : List DsindexVal
  deriving DecidableEq

abbrev Dsindex := List DsindexKey

def vindexInsert (ids : List ℕ) (dsid : ℕ) : List ℕ :=
  match locateIn (fun i => compare i dsid) ids with
  | .found _ => ids
  | .insert i => ids.insertIdx i dsid

def kindexInsert (vals : List DsindexVal) (val : Dsdata) (dsid : ℕ) : List DsindexVal :=
  match locateIn (fun vx => dsdataCompare vx.val val) vals with
  | .found i => vals.modify i fun vx => {vx with dsid := vindexInsert vx.dsid dsid}
  | .insert i => vals.insertIdx i ⟨val,vindexInsert [] dsid⟩

def dsindexLookupVal (vals : List DsindexVal) (val : Dsdata) : Option DsindexVal :=
  match locateIn (fun vx => dsdataCompare vx.val val) vals with
  | .found i => vals[i]?
  | .insert _ => none

def kindexDeleteDsid (vals : List DsindexVal) (dsid : ℕ) : List DsindexVal :=
  (vals.map fun vx => {vx with dsid := vx.dsid.filter (·≠dsid)}).filter fun vx => vx.dsid≠[]

def atKey (key : Dsdata) (f : List DsindexVal → List DsindexVal) : Dsindex → Dsindex
  | [] => [⟨key,f []⟩]
  | kx::x => if key=kx.key then {kx with vindex := f kx.vindex}::x else kx::atKey key f x

def dsindexInsertKey (x : Dsindex) (key : Dsdata) : Dsindex := atKey key id x

def dsindexInsertAttribute (x : Dsindex) (a : Dsattribute) (dsid : ℕ) : Dsindex :=
  atKey a.key (fun vals => a.value.foldl (fun vals v => kindexInsert vals v dsid) vals) x

def dsindexInsertRecord (x : Dsindex) (attributes : List Dsattribute) (dsid : ℕ) : Dsindex :=
  attributes.foldl (fun x a => dsindexInsertAttribute x a dsid) x

def dsindexDeleteDsid (x : Dsindex) (dsid : ℕ) : Dsindex :=
  x.map fun kx => {kx with vindex := kindexDeleteDsid kx.vindex dsid}

def dsindexLookupKey (x : Dsindex) (key : Dsdata) : Option DsindexKey :=
  x.find? fun kx => key=kx.key

lemma compareBytes_spec (a b : List ℕ) :
    (compareBytes a b=.lt ↔ a<b) ∧ (compareBytes a b=.gt ↔ b<a) ∧ (compareBytes a b=.eq ↔ a=b) := by
  induction a generalizing b with
  | nil =>
    cases b with
    | nil => simp [compareBytes]
    | cons b bs => simp [compareBytes]
  | cons a as ih =>
    cases b with
    | nil => simp [compareBytes]
    | cons b bs =>
      obtain ⟨hlt,hgt,heq⟩ := ih bs
      rw [compareBytes,cons_lt_cons_iff,cons_lt_cons_iff,List.cons.injEq]
      split_ifs with hab hba
      · simp [hab,hab.ne,hab.ne',hab.not_gt]
      · simp [hba,hba.ne,hba.ne',hba.not_gt]
      · have hsame : a=b := le_antisymm (not_lt.mp hba) (not_lt.mp hab)
        simp [hsame,hlt,hgt,heq]

lemma compareBytes_lt {a b : List ℕ} : compareBytes a b=.lt ↔ a<b := (compareBytes_spec a b).1
lemma compareBytes_gt {a b : List ℕ} : compareBytes a b=.gt ↔ b<a := (compareBytes_spec a b).2.1
lemma compareBytes_eq {a b : List ℕ} : compareBytes a b=.eq ↔ a=b := (compareBytes_spec a b).2.2

section Values

/-- The ids of a value are in order, and the values are in that of their bytes. -/
structure ValsOk (vals : List DsindexVal) : Prop where
  ordered : vals.Pairwise fun x y => x.val.bytes<y.val.bytes
  ids : ∀ vx∈vals,vx.dsid.Pairwise (· < ·)
  nonempty : ∀ vx∈vals,vx.dsid≠[]

def Has (vals : List DsindexVal) (bytes : List ℕ) (dsid : ℕ) : Prop :=
  ∃ vx∈vals,vx.val.bytes=bytes ∧ dsid∈vx.dsid

lemma vindexInsert_spec {ids : List ℕ} (h : ids.Pairwise (· < ·)) (dsid : ℕ) :
    (vindexInsert ids dsid).Pairwise (· < ·) ∧ vindexInsert ids dsid≠[] ∧
      ∀ c,c∈vindexInsert ids dsid ↔ c∈ids ∨ c=dsid := by
  have hsplit : Split (fun i => compare i dsid) ids (locateIn (fun i => compare i dsid) ids) :=
    locateIn_split (h.imp fun {x y} hxy hx => by
      rw [Nat.compare_eq_gt]
      have hle : dsid≤x := Nat.not_lt.mp fun hlt => hx (Nat.compare_eq_lt.mpr hlt)
      exact lt_of_le_of_lt hle hxy)
  rw [vindexInsert]
  cases hplace : locateIn (fun i => compare i dsid) ids with
  | found i =>
    rw [hplace] at hsplit
    cases hsplit with
    | found l₁ x l₂ hl hx h₁ h₂ =>
      have hmem : dsid∈ids := by
        rw [hl,←Nat.compare_eq_eq.mp hx]
        exact mem_append_right _ mem_cons_self
      refine ⟨h,ne_nil_of_mem hmem,fun c => ⟨.inl,?_⟩⟩
      rintro (hc | rfl)
      · exact hc
      · exact hmem
  | insert i =>
    rw [hplace] at hsplit
    cases hsplit with
    | insert l₁ l₂ hl h₁ h₂ =>
      subst hl
      dsimp only
      rw [insertIdx_split]
      obtain ⟨hfirst,hlast,hboth⟩ := pairwise_append.mp h
      refine ⟨pairwise_append.mpr ⟨hfirst,pairwise_cons.mpr ⟨fun y hy => ?_,hlast⟩,
        fun x hx y hy => ?_⟩,by simp,fun c => ?_⟩
      · exact Nat.compare_eq_gt.mp (h₂ y hy)
      · rcases mem_cons.mp hy with rfl | hy
        · exact Nat.compare_eq_lt.mp (h₁ x hx)
        · exact hboth x hx y hy
      · simp only [mem_append,mem_cons]
        tauto

variable {vals : List DsindexVal}

lemma ValsOk.split (h : ValsOk vals) (val : Dsdata) :
    Split (fun vx => dsdataCompare vx.val val) vals
      (locateIn (fun vx => dsdataCompare vx.val val) vals) :=
  locateIn_split (h.ordered.imp fun {x y} hxy hx => by
    rw [dsdataCompare] at hx ⊢
    have hle : val.bytes≤x.val.bytes := not_lt.mp fun hlt => hx (compareBytes_lt.mpr hlt)
    exact compareBytes_gt.mpr (lt_of_le_of_lt hle hxy))

lemma kindexInsert_spec (h : ValsOk vals) (val : Dsdata) (dsid : ℕ) :
    ValsOk (kindexInsert vals val dsid) ∧
      ∀ b c,Has (kindexInsert vals val dsid) b c ↔ Has vals b c ∨ b=val.bytes ∧ c=dsid := by
  have hsplit := h.split val
  rw [kindexInsert]
  cases hplace : locateIn (fun vx => dsdataCompare vx.val val) vals with
  | found i =>
    rw [hplace] at hsplit
    cases hsplit with
    | found l₁ x l₂ hl hx h₁ h₂ =>
      subst hl
      have hbytes := compareBytes_eq.mp hx
      obtain ⟨hids,hne,hmem⟩ := vindexInsert_spec (h.ids x (by simp)) dsid
      dsimp only
      rw [modify_split]
      refine ⟨⟨?_,fun y hy => ?_,fun y hy => ?_⟩,fun b c => ?_⟩
      · have hordered := h.ordered
        rw [pairwise_append,pairwise_cons] at hordered ⊢
        simpa using hordered
      · rcases mem_append.mp hy with hy | hy
        · exact h.ids y (by simp [hy])
        · rcases mem_cons.mp hy with rfl | hy
          · exact hids
          · exact h.ids y (by simp [hy])
      · rcases mem_append.mp hy with hy | hy
        · exact h.nonempty y (by simp [hy])
        · rcases mem_cons.mp hy with rfl | hy
          · exact hne
          · exact h.nonempty y (by simp [hy])
      · simp only [Has,mem_append,mem_cons]
        constructor
        · rintro ⟨y,hy | rfl | hy,hb,hc⟩
          · exact .inl ⟨y,.inl hy,hb,hc⟩
          · rcases (hmem c).mp hc with hc | hc
            · exact .inl ⟨x,.inr (.inl rfl),hb,hc⟩
            · exact .inr ⟨hb.symm.trans hbytes,hc⟩
          · exact .inl ⟨y,.inr (.inr hy),hb,hc⟩
        · rintro (⟨y,hy | rfl | hy,hb,hc⟩ | ⟨rfl,rfl⟩)
          · exact ⟨y,.inl hy,hb,hc⟩
          · exact ⟨_,.inr (.inl rfl),hb,(hmem c).mpr (.inl hc)⟩
          · exact ⟨y,.inr (.inr hy),hb,hc⟩
          · exact ⟨_,.inr (.inl rfl),hbytes,(hmem c).mpr (.inr rfl)⟩
  | insert i =>
    rw [hplace] at hsplit
    cases hsplit with
    | insert l₁ l₂ hl h₁ h₂ =>
      subst hl
      obtain ⟨hids,hne,hmem⟩ := vindexInsert_spec List.Pairwise.nil dsid
      dsimp only
      rw [insertIdx_split]
      refine ⟨⟨?_,fun y hy => ?_,fun y hy => ?_⟩,fun b c => ?_⟩
      · obtain ⟨hfirst,hlast,hboth⟩ := pairwise_append.mp h.ordered
        refine pairwise_append.mpr ⟨hfirst,pairwise_cons.mpr ⟨fun y hy => ?_,hlast⟩,
          fun x hx y hy => ?_⟩
        · exact compareBytes_gt.mp (h₂ y hy)
        · rcases mem_cons.mp hy with rfl | hy
          · exact compareBytes_lt.mp (h₁ x hx)
          · exact hboth x hx y hy
      · rcases mem_append.mp hy with hy | hy
        · exact h.ids y (by simp [hy])
        · rcases mem_cons.mp hy with rfl | hy
          · exact hids
          · exact h.ids y (by simp [hy])
      · rcases mem_append.mp hy with hy | hy
        · exact h.nonempty y (by simp [hy])
        · rcases mem_cons.mp hy with rfl | hy
          · exact hne
          · exact h.nonempty y (by simp [hy])
      · simp only [Has,mem_append,mem_cons]
        constructor
        · rintro ⟨y,hy | rfl | hy,hb,hc⟩
          · exact .inl ⟨y,.inl hy,hb,hc⟩
          · rcases (hmem c).mp hc with hc | hc
            · cases hc
            · exact .inr ⟨hb.symm,hc⟩
          · exact .inl ⟨y,.inr hy,hb,hc⟩
        · rintro (⟨y,hy | hy,hb,hc⟩ | ⟨rfl,rfl⟩)
          · exact ⟨y,.inl hy,hb,hc⟩
          · exact ⟨y,.inr (.inr hy),hb,hc⟩
          · exact ⟨_,.inr (.inl rfl),rfl,(hmem c).mpr (.inr rfl)⟩

lemma insertValues_spec (h : ValsOk vals) (value : List Dsdata)
    (dsid : ℕ) :
    ValsOk (value.foldl (fun vals v => kindexInsert vals v dsid) vals) ∧
      ∀ b c,Has (value.foldl (fun vals v => kindexInsert vals v dsid) vals) b c ↔
        Has vals b c ∨ (∃ v∈value,v.bytes=b) ∧ c=dsid := by
  induction value generalizing vals with
  | nil => exact ⟨h,fun b c => by simp⟩
  | cons v value ih =>
    obtain ⟨hok,hhas⟩ := kindexInsert_spec h v dsid
    obtain ⟨hok',hhas'⟩ := ih hok
    refine ⟨hok',fun b c => ?_⟩
    rw [foldl_cons,hhas',hhas,exists_mem_cons_iff]
    constructor
    · rintro ((hold | ⟨rfl,rfl⟩) | ⟨hv,rfl⟩)
      · exact .inl hold
      · exact .inr ⟨.inl rfl,rfl⟩
      · exact .inr ⟨.inr hv,rfl⟩
    · rintro (hold | ⟨rfl | hv,rfl⟩)
      · exact .inl (.inl hold)
      · exact .inl (.inr ⟨rfl,rfl⟩)
      · exact .inr ⟨hv,rfl⟩

lemma kindexDeleteDsid_spec (h : ValsOk vals) (dsid : ℕ) : ValsOk (kindexDeleteDsid vals dsid) ∧
      ∀ b c,Has (kindexDeleteDsid vals dsid) b c ↔ Has vals b c ∧ c≠dsid := by
  have hmem : ∀ y,y∈kindexDeleteDsid vals dsid ↔
      (∃ vx∈vals,y={vx with dsid := vx.dsid.filter (·≠dsid)}) ∧ y.dsid≠[] := by
    intro y
    simp only [kindexDeleteDsid,mem_filter,mem_map,decide_eq_true_eq]
    exact and_congr_left fun _ => exists_congr fun vx => and_congr_right fun _ => eq_comm
  refine ⟨⟨?_,fun y hy => ?_,fun y hy => ((hmem y).mp hy).2⟩,fun b c => ⟨?_,?_⟩⟩
  · exact List.Pairwise.filter _ (pairwise_map.mpr h.ordered)
  · obtain ⟨⟨vx,hvx,rfl⟩,-⟩ := (hmem y).mp hy
    exact (h.ids vx hvx).filter _
  · rintro ⟨y,hy,hb,hc⟩
    obtain ⟨⟨vx,hvx,rfl⟩,-⟩ := (hmem y).mp hy
    obtain ⟨hc,hne⟩ := mem_filter.mp hc
    exact ⟨⟨vx,hvx,hb,hc⟩,of_decide_eq_true hne⟩
  · rintro ⟨⟨vx,hvx,hb,hc⟩,hne⟩
    have hkept : c∈vx.dsid.filter (·≠dsid) := mem_filter.mpr ⟨hc,decide_eq_true hne⟩
    exact ⟨_,(hmem _).mpr ⟨⟨vx,hvx,rfl⟩,ne_nil_of_mem hkept⟩,hb,hkept⟩

lemma dsindexLookupVal_spec (h : ValsOk vals) (val : Dsdata) :
    (∀ c,((dsindexLookupVal vals val).bind fun vx => vx.dsid.head?)=some c →
        Has vals val.bytes c ∧ ∀ c',Has vals val.bytes c' → c≤c') ∧
      (((dsindexLookupVal vals val).bind fun vx => vx.dsid.head?)=none →
        ∀ c,¬Has vals val.bytes c) := by
  have hsplit := h.split val
  rw [dsindexLookupVal]
  cases hplace : locateIn (fun vx => dsdataCompare vx.val val) vals with
  | found i =>
    rw [hplace] at hsplit
    cases hsplit with
    | found l₁ x l₂ hl hx h₁ h₂ =>
      subst hl
      have hget : (l₁++x::l₂)[l₁.length]?=some x := by simp
      dsimp only
      rw [hget,Option.bind_some]
      have hbytes := compareBytes_eq.mp hx
      have hids := h.ids x (by simp)
      cases hhead : x.dsid with
      | nil => exact absurd hhead (h.nonempty x (by simp))
      | cons d ds =>
        rw [hhead] at hids
        refine ⟨fun c hc => ?_,fun hnone => (by cases hnone)⟩
        cases hc
        refine ⟨⟨x,by simp,hbytes,hhead▸mem_cons_self⟩,?_⟩
        rintro c' ⟨y,hy,hb,hc'⟩
        have hyx : y=x := by
          rcases mem_append.mp hy with hy | hy
          · have hlt := compareBytes_lt.mp (h₁ y hy)
            rw [hb] at hlt
            exact absurd hlt (lt_irrefl _)
          · rcases mem_cons.mp hy with rfl | hy
            · rfl
            · have hgt := compareBytes_gt.mp (h₂ y hy)
              rw [hb] at hgt
              exact absurd hgt (lt_irrefl _)
        rw [hyx,hhead] at hc'
        rcases mem_cons.mp hc' with rfl | hc'
        · exact le_refl _
        · exact le_of_lt ((pairwise_cons.mp hids).1 c' hc')
  | insert i =>
    rw [hplace] at hsplit
    cases hsplit with
    | insert l₁ l₂ hl h₁ h₂ =>
      subst hl
      refine ⟨fun c hc => (by cases hc),fun _ c hhas => ?_⟩
      obtain ⟨y,hy,hb,-⟩ := hhas
      rcases mem_append.mp hy with hy | hy
      · have hlt := compareBytes_lt.mp (h₁ y hy)
        rw [hb] at hlt
        exact lt_irrefl _ hlt
      · have hgt := compareBytes_gt.mp (h₂ y hy)
        rw [hb] at hgt
        exact lt_irrefl _ hgt

end Values

end Darwin.Netinfo
