import Darwin.Pager.PagingSegments

/-! The cluster map of a paging object: direct while it is small, else through indirect blocks
of entries. A map entry has the place of a cluster or the error of a write. -/
open List Option Nat BitVec
namespace Darwin.Pager
open Lib

/-- One map entry. The field `vsmap_entry` has 23 bits and `vsmap_psindex` has 8; the two
bitmaps have a bit for each page. -/
structure VsMap where
  vsmap_entry : ℕ
  vsmap_psindex : ℕ
  vsmap_error : Bool
  vsmap_bmap : BitVec 16
  vsmap_alloc : BitVec 16
  deriving DecidableEq

def VSM_CLR : VsMap := ⟨VSM_ENTRY_NULL,0,false,0,0⟩

def CLMAP_ENTRIES : ℕ := 64

def INDIRECT_CLMAP_ENTRIES (ncls : ℕ) : ℕ := (ncls-1)/CLMAP_ENTRIES+1

def INDIRECT_CLMAP (size : ℕ) : Bool := CLMAP_ENTRIES<size

def setPages : ℕ → ℕ → BitVec 16 → BitVec 16
  | 0,_,b => b
  | n+1,i,b => setPages n (i+1) (b|||1#16<<<i)

def clearPages : ℕ → ℕ → BitVec 16 → BitVec 16
  | 0,_,b => b
  | n+1,i,b => clearPages n (i+1) (b&&&~~~(1#16<<<i))

namespace VsMap

def VSM_ISCLR (m : VsMap) : Bool := m.vsmap_entry=VSM_ENTRY_NULL ∧ m.vsmap_error=false

def VSM_SETCLOFF (m : VsMap) (cluster : ℕ) : VsMap := {m with vsmap_entry := cluster%2^23}

def VSM_SETPS (m : VsMap) (psindex : ℕ) : VsMap := {m with vsmap_psindex := psindex%2^8}

def VSM_SETERR (m : VsMap) (error : ℕ) : VsMap :=
  {m with vsmap_error := true,vsmap_entry := error%2^23}

def VSM_SETPG (m : VsMap) (n i : ℕ) : VsMap := {m with vsmap_bmap := setPages n i m.vsmap_bmap}

def VSM_SETALLOC (m : VsMap) (n i : ℕ) : VsMap :=
  {m with vsmap_alloc := setPages n i m.vsmap_alloc}

def VSM_CLRPG (m : VsMap) (n i : ℕ) : VsMap :=
  { m with
    vsmap_bmap := clearPages n i m.vsmap_bmap
    vsmap_alloc := clearPages n i m.vsmap_alloc}

def place (m : VsMap) : Option (ℕ × ℕ) :=
  if m.VSM_ISCLR ∨ m.vsmap_error then none else some (m.vsmap_psindex,m.vsmap_entry)

end VsMap

inductive ClusterMap
  | direct (dmap : List VsMap)
  | indirect (imap : List (Option (List VsMap)))

structure Vstruct where
  vs_clshift : ℕ
  vs_size : ℕ
  map : ClusterMap

namespace Vstruct

/-- The entries among which that of a cluster is, if they have been allocated. -/
def block (vs : Vstruct) (cluster : ℕ) : Option (List VsMap) :=
  match vs.map with
  | .direct dmap => some dmap
  | .indirect imap => imap.getD (cluster/CLMAP_ENTRIES) none

def store (vs : Vstruct) (cluster : ℕ) (m : VsMap) : Vstruct :=
  match vs.map with
  | .direct dmap => {vs with map := .direct (dmap.set (cluster%CLMAP_ENTRIES) m)}
  | .indirect imap =>
    match imap.getD (cluster/CLMAP_ENTRIES) none with
    | none => vs
    | some entries =>
      let entries := entries.set (cluster%CLMAP_ENTRIES) m
      {vs with map := .indirect (imap.set (cluster/CLMAP_ENTRIES) (some entries))}

def ps_map_extend (vs : Vstruct) (new_size : ℕ) (kalloc : ℕ → Bool) : Option Vstruct :=
  if new_size≤vs.vs_size then some vs
  else if INDIRECT_CLMAP new_size then
    match vs.map with
    | .indirect imap =>
      if INDIRECT_CLMAP_ENTRIES new_size=INDIRECT_CLMAP_ENTRIES vs.vs_size then
        some {vs with vs_size := new_size}
      else if kalloc 0=false then none
      else
        some { vs with
          map := .indirect (imap++replicate
            (INDIRECT_CLMAP_ENTRIES new_size-INDIRECT_CLMAP_ENTRIES vs.vs_size) none)
          vs_size := new_size}
    | .direct dmap =>
      if kalloc 0=false then none
      else if kalloc 1=false then none
      else
        some { vs with
          map := .indirect (some (dmap++replicate (CLMAP_ENTRIES-vs.vs_size) VSM_CLR)::
            replicate (INDIRECT_CLMAP_ENTRIES new_size-1) none)
          vs_size := new_size}
  else if kalloc 0=false then none
  else
    match vs.map with
    | .indirect _ => none
    | .direct dmap =>
      some { vs with
        map := .direct (dmap++replicate (new_size-vs.vs_size) VSM_CLR)
        vs_size := new_size}

/-- The part of `ps_clmap` that finds the indirect block of a cluster, or allocates it. -/
def findBlock (vs : Vstruct) (cluster : ℕ) (allocate : Bool) : Option Vstruct :=
  match vs.map with
  | .direct _ => some vs
  | .indirect imap =>
    match imap.getD (cluster/CLMAP_ENTRIES) none with
    | some _ => some vs
    | none =>
      if allocate then
        let entries := replicate CLMAP_ENTRIES VSM_CLR
        some {vs with map := .indirect (imap.set (cluster/CLMAP_ENTRIES) (some entries))}
      else none

def entry (vs : Vstruct) (cluster : ℕ) : VsMap :=
  match vs.map with
  | .direct dmap => dmap.getD cluster VSM_CLR
  | .indirect imap =>
    ((imap.getD (cluster/CLMAP_ENTRIES) none).getD []).getD (cluster%CLMAP_ENTRIES) VSM_CLR

/-- A map has the shape that goes with its size. -/
structure Shape (vs : Vstruct) : Prop where
  direct : ∀ {dmap},vs.map=.direct dmap → dmap.length=vs.vs_size ∧ vs.vs_size≤CLMAP_ENTRIES
  indirect : ∀ {imap},vs.map=.indirect imap →
    imap.length=INDIRECT_CLMAP_ENTRIES vs.vs_size ∧ CLMAP_ENTRIES<vs.vs_size ∧
      ∀ {entries},some entries∈imap → entries.length=CLMAP_ENTRIES
  clshift : vs.vs_clshift≤3

end Vstruct

lemma getLsbD_setPages (n i : ℕ) (b : BitVec 16) (j : ℕ) : (setPages n i b).getLsbD j =
    (b.getLsbD j || decide (i≤j ∧ j < i+n ∧ j<16)) := by
  induction n generalizing i b with
  | zero =>
    rw [setPages,decide_eq_false (by omega),Bool.or_false]
  | succ n ih =>
    rw [setPages,ih,getLsbD_or,Bool.or_assoc]
    congr 1
    rw [getLsbD_shiftLeft,getLsbD_one]
    grind

lemma getLsbD_clearPages (n i : ℕ) (b : BitVec 16) (j : ℕ) : (clearPages n i b).getLsbD j =
    (b.getLsbD j && !decide (i≤j ∧ j < i+n)) := by
  induction n generalizing i b with
  | zero =>
    rw [clearPages,decide_eq_false (by omega),Bool.not_false,Bool.and_true]
  | succ n ih =>
    rw [clearPages,ih,getLsbD_and,getLsbD_not,getLsbD_shiftLeft,getLsbD_one]
    grind

namespace Vstruct
variable {vs vs' : Vstruct} {cluster c : ℕ} {m : VsMap}

lemma getD_set {α : Type} (xs : List α) (d a : α) {i : ℕ} (hi : i<xs.length) (j : ℕ) :
    (xs.set i a).getD j d=if j=i then a else xs.getD j d := by
  rw [getD_eq_getElem?_getD,getD_eq_getElem?_getD,getElem?_set]
  by_cases hij : i=j
  · subst hij
    simp [hi]
  · rw [if_neg hij,if_neg (Ne.symm hij)]

lemma getD_append_replicate {α : Type} (xs : List α) (d : α) (n j : ℕ) :
    (xs++replicate n d).getD j d=xs.getD j d := by
  rw [getD_eq_getElem?_getD,getD_eq_getElem?_getD]
  rcases lt_or_ge j xs.length with hlt | hge
  · rw [getElem?_append_left hlt]
  · rw [List.getElem?_append_right hge,List.getElem?_eq_none hge,List.getElem?_replicate]
    split_ifs
    · rfl
    · rfl

variable {entries : List VsMap}

lemma Shape.entry_eq (h : vs.Shape) (hlt : cluster<vs.vs_size)
    (hb : vs.block cluster=some entries) :
    entries.getD (cluster%CLMAP_ENTRIES) VSM_CLR=vs.entry cluster := by
  rw [block] at hb
  rw [entry]
  cases hmap : vs.map with
  | direct dmap =>
    rw [hmap] at hb
    have hsize := (h.direct hmap).2
    rw [←some.inj hb,mod_eq_of_lt (hlt.trans_le hsize)]
  | indirect imap =>
    rw [hmap] at hb
    dsimp only at hb ⊢
    rw [hb]
    rfl

lemma mem_of_getD {imap : List (Option (List VsMap))} {i : ℕ}
    (h : imap.getD i none=some entries) : i < imap.length ∧ some entries∈imap := by
  rw [getD_eq_getElem?_getD] at h
  cases hget : imap[i]? with
  | none =>
    rw [hget] at h
    cases h
  | some e =>
    rw [hget] at h
    obtain ⟨hlt,heq⟩ := List.getElem?_eq_some_iff.mp hget
    refine ⟨hlt,?_⟩
    rw [←show e=some entries from h,←heq]
    exact getElem_mem hlt

lemma Shape.entry_store (h : vs.Shape) (hlt : cluster<vs.vs_size)
    (hb : vs.block cluster=some entries) (c : ℕ) :
    (vs.store cluster m).entry c=if c=cluster then m else vs.entry c := by
  rw [block] at hb
  rw [store]
  cases hmap : vs.map with
  | direct dmap =>
    obtain ⟨hlength,hsize⟩ := h.direct hmap
    simp only [entry,hmap]
    rw [mod_eq_of_lt (hlt.trans_le hsize),getD_set _ _ _ (by omega)]
  | indirect imap =>
    rw [hmap] at hb
    dsimp only at hb
    obtain ⟨hi,hmem⟩ := mem_of_getD hb
    have hlength := (h.indirect hmap).2.2 hmem
    simp only [entry,hmap,hb]
    rw [getD_set _ _ _ hi]
    by_cases hblock : c/CLMAP_ENTRIES=cluster/CLMAP_ENTRIES
    · rw [if_pos hblock,getD_some,getD_set _ _ _
        (by rw [hlength]; exact mod_lt _ (by decide)),hblock,hb,getD_some]
      by_cases hc : c=cluster
      · rw [if_pos hc,if_pos (by rw [hc])]
      · rw [if_neg hc,if_neg]
        intro hmod
        rw [CLMAP_ENTRIES] at hblock hmod
        omega
    · rw [if_neg hblock,if_neg]
      rintro rfl
      exact hblock rfl

lemma Shape.store (h : vs.Shape) (cluster : ℕ) (m : VsMap) :
    (vs.store cluster m).Shape ∧ (vs.store cluster m).vs_size=vs.vs_size ∧
      (vs.store cluster m).vs_clshift=vs.vs_clshift := by
  rw [Vstruct.store]
  cases hmap : vs.map with
  | direct dmap =>
    obtain ⟨hlength,hsize⟩ := h.direct hmap
    refine ⟨⟨fun {d} hd => ?_,fun {d} hd => ?_,h.clshift⟩,rfl,rfl⟩
    · injection hd with hd
      rw [←hd,length_set]
      exact ⟨hlength,hsize⟩
    · cases hd
  | indirect imap =>
    dsimp only
    cases hb : imap.getD (cluster/CLMAP_ENTRIES) none with
    | none => exact ⟨h,rfl,rfl⟩
    | some entries =>
      obtain ⟨hlength,hsize,hblocks⟩ := h.indirect hmap
      have hentries := hblocks (mem_of_getD hb).2
      refine ⟨⟨fun {d} hd => ?_,fun {d} hd => ?_,h.clshift⟩,rfl,rfl⟩
      · cases hd
      · injection hd with hd
        rw [←hd,length_set]
        refine ⟨hlength,hsize,fun {e} he => ?_⟩
        rcases mem_or_eq_of_mem_set he with he | he
        · exact hblocks he
        · rw [some.inj he,length_set,hentries]

lemma Shape.extend (h : vs.Shape) {new_size : ℕ} {kalloc : ℕ → Bool}
    (hext : vs.ps_map_extend new_size kalloc=some vs') : vs'.Shape ∧
      (∀ c,vs'.entry c=vs.entry c) ∧ vs'.vs_size=max vs.vs_size new_size ∧
      vs'.vs_clshift=vs.vs_clshift := by
  rw [ps_map_extend] at hext
  by_cases hle : new_size≤vs.vs_size
  · rw [if_pos hle] at hext
    rw [←some.inj hext]
    exact ⟨h,fun _ => rfl,by omega,rfl⟩
  rw [if_neg hle] at hext
  by_cases hindirect : INDIRECT_CLMAP new_size=true
  · rw [if_pos hindirect] at hext
    have hnew : CLMAP_ENTRIES<new_size := by simpa [INDIRECT_CLMAP] using hindirect
    cases hmap : vs.map with
    | indirect imap =>
      obtain ⟨hlength,hsize,hblocks⟩ := h.indirect hmap
      rw [hmap] at hext
      dsimp only at hext
      split_ifs at hext with hsame hfail
      · rw [←some.inj hext]
        refine ⟨⟨fun {d} hd => ?_,fun {d} hd => ?_,h.clshift⟩,fun c => ?_,?_,rfl⟩
        · cases hd
        · injection hd with hd
          rw [←hd]
          exact ⟨hlength.trans hsame.symm,hnew,hblocks⟩
        · simp only [entry,hmap]
        · dsimp only
          omega
      · rw [←some.inj hext]
        have hmono : INDIRECT_CLMAP_ENTRIES vs.vs_size≤INDIRECT_CLMAP_ENTRIES new_size := by
          rw [INDIRECT_CLMAP_ENTRIES,INDIRECT_CLMAP_ENTRIES]
          exact Nat.succ_le_succ (Nat.div_le_div_right (by omega))
        refine ⟨⟨fun {d} hd => ?_,fun {d} hd => ?_,h.clshift⟩,fun c => ?_,?_,rfl⟩
        · cases hd
        · injection hd with hd
          rw [←hd,length_append,length_replicate,hlength]
          refine ⟨by dsimp only; omega,hnew,fun {e} he => ?_⟩
          rcases mem_append.mp he with he | he
          · exact hblocks he
          · cases (mem_replicate.mp he).2
        · simp only [entry,hmap]
          rw [getD_append_replicate]
        · dsimp only
          omega
    | direct dmap =>
      obtain ⟨hlength,hsize⟩ := h.direct hmap
      rw [hmap] at hext
      dsimp only at hext
      split_ifs at hext with hfail hfail'
      rw [←some.inj hext]
      refine ⟨⟨fun {d} hd => ?_,fun {d} hd => ?_,h.clshift⟩,fun c => ?_,?_,rfl⟩
      · cases hd
      · injection hd with hd
        rw [←hd,length_cons,length_replicate]
        refine ⟨?_,hnew,fun {e} he => ?_⟩
        · rw [INDIRECT_CLMAP_ENTRIES,Nat.add_sub_cancel]
        · rcases mem_cons.mp he with he | he
          · rw [some.inj he,length_append,length_replicate,hlength]
            omega
          · cases (mem_replicate.mp he).2
      · simp only [entry,hmap]
        rcases lt_or_ge c CLMAP_ENTRIES with hlt | hge
        · rw [div_eq_of_lt hlt,getD_cons_zero,getD_some,mod_eq_of_lt hlt,getD_append_replicate]
        · obtain ⟨b,hb⟩ := exists_eq_succ_of_ne_zero
            (show c/CLMAP_ENTRIES≠0 by rw [CLMAP_ENTRIES] at *; omega)
          rw [hb,succ_eq_add_one,getD_cons_succ,←nil_append (replicate _ _),
            getD_append_replicate,getD_nil,getD_none,getD_nil,getD_eq_getElem?_getD,
            List.getElem?_eq_none (by omega),getD_none]
      · dsimp only
        omega
  · rw [if_neg hindirect] at hext
    by_cases hfail : kalloc 0=false
    · rw [if_pos hfail] at hext
      cases hext
    rw [if_neg hfail] at hext
    cases hmap : vs.map with
    | indirect imap =>
      have hsize := (h.indirect hmap).2.1
      have hnew : ¬CLMAP_ENTRIES<new_size := by simpa [INDIRECT_CLMAP] using hindirect
      omega
    | direct dmap =>
      obtain ⟨hlength,hsize⟩ := h.direct hmap
      have hnew : ¬CLMAP_ENTRIES<new_size := by simpa [INDIRECT_CLMAP] using hindirect
      rw [hmap] at hext
      dsimp only at hext
      rw [←some.inj hext]
      refine ⟨⟨fun {d} hd => ?_,fun {d} hd => ?_,h.clshift⟩,fun c => ?_,?_,rfl⟩
      · injection hd with hd
        rw [←hd,length_append,length_replicate,hlength]
        exact ⟨by dsimp only; omega,by dsimp only; omega⟩
      · cases hd
      · simp only [entry,hmap]
        rw [getD_append_replicate]
      · dsimp only
        omega

lemma Shape.findBlock (h : vs.Shape) {allocate : Bool} (hlt : cluster<vs.vs_size)
    (hfind : vs.findBlock cluster allocate=some vs') : vs'.Shape ∧
      (∀ c,vs'.entry c=vs.entry c) ∧ vs'.vs_size=vs.vs_size ∧
      vs'.vs_clshift=vs.vs_clshift ∧ ∃ entries,vs'.block cluster=some entries := by
  rw [Vstruct.findBlock] at hfind
  cases hmap : vs.map with
  | direct dmap =>
    rw [hmap] at hfind
    rw [←some.inj hfind]
    exact ⟨h,fun _ => rfl,rfl,rfl,dmap,by rw [block,hmap]⟩
  | indirect imap =>
    rw [hmap] at hfind
    dsimp only at hfind
    obtain ⟨hlength,hsize,hblocks⟩ := h.indirect hmap
    cases hb : imap.getD (cluster/CLMAP_ENTRIES) none with
    | some entries =>
      rw [hb] at hfind
      rw [←some.inj hfind]
      exact ⟨h,fun _ => rfl,rfl,rfl,entries,by rw [block,hmap]; exact hb⟩
    | none =>
      rw [hb] at hfind
      dsimp only at hfind
      split_ifs at hfind with halloc
      rw [←some.inj hfind]
      have hi : cluster/CLMAP_ENTRIES < imap.length := by
        rw [hlength,INDIRECT_CLMAP_ENTRIES]
        exact Nat.lt_succ_of_le (Nat.div_le_div_right (by omega))
      refine ⟨⟨fun {d} hd => ?_,fun {d} hd => ?_,h.clshift⟩,fun c => ?_,rfl,rfl,
        replicate CLMAP_ENTRIES VSM_CLR,?_⟩
      · cases hd
      · injection hd with hd
        rw [←hd,length_set]
        refine ⟨hlength,hsize,fun {e} he => ?_⟩
        rcases mem_or_eq_of_mem_set he with he | he
        · exact hblocks he
        · rw [some.inj he,length_replicate]
      · simp only [entry,hmap]
        rw [getD_set _ _ _ hi]
        split_ifs with hc
        · rw [hc,hb,getD_some,getD_none,getD_nil,
            ← nil_append (replicate _ _),getD_append_replicate,getD_nil]
        · rfl
      · simp only [block]
        rw [getD_set _ _ _ hi,if_pos rfl]

end Vstruct

end Darwin.Pager
