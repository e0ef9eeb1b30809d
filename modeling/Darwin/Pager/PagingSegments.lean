import Darwin.Lib.BitWords
import Darwin.Lib.Owners

/-! The paging segments of the default pager, from `default_pager/dp_backing_store.c`: a
cluster of one is taken and given back. -/
open List Function Option
namespace Darwin.Pager
open Lib Lib.BitWords

/-- A paging segment: `ps_bmap` has the bit of each cluster, also behind the last one. -/
structure PagingSegment where
  ps_ncls : ℕ
  ps_clshift : ℕ
  ps_bmap : ℕ → Bool
  ps_clcount : ℕ
  ps_hint : ℕ
  ps_going_away : Bool
  bs_priority : ℕ

/-- What `ps_select_array` has for a priority. -/
inductive SelectEntry
  | BS_NOPRI
  | BS_FULLPRI
  | index (i : ℕ)
  deriving DecidableEq

/-- The array of paging segments and what belongs to the selection of one. -/
structure PagingSegments where
  segment : ℕ → Option PagingSegment
  paging_segment_count : ℕ
  paging_segment_max : ℕ
  ps_select_array : ℕ → SelectEntry
  physical_transfer_cluster_count : ℕ

def BS_MAXPRI : ℕ := 4

def NBBY : ℕ := 8

def MAXPHYS : ℕ := 64*1024

def page_shift : ℕ := 12

def MAX_PSEG_INDEX : ℕ := 63

def VSM_ENTRY_NULL : ℕ := 0x7fffff

namespace PagingSegments

def setSegment (s : PagingSegments) (i : ℕ) (ps : PagingSegment) : PagingSegments :=
  {s with segment := update s.segment i (some ps)}

def setSelect (s : PagingSegments) (i : ℕ) (e : SelectEntry) : PagingSegments :=
  {s with ps_select_array := update s.ps_select_array i e}

def usable (s : PagingSegments) (shift priority j : ℕ) : Bool :=
  match s.segment j with
  | none => false
  | some ps => ps.bs_priority=priority ∧ ps.ps_going_away=false ∧ ps.ps_clcount≠0 ∧
      shift≤ps.ps_clshift

def selectLoop (s : PagingSegments) (shift priority start_index : ℕ) : ℕ → ℕ → Option ℕ
  | 0,_ => none
  | n+1,j =>
    let j := if s.paging_segment_max<j then 0 else j
    if s.usable shift priority j then some j
    else if j=start_index then none
    else selectLoop s shift priority start_index n (j+1)

/-- Where the inner loop starts, where it ends, and the count of clusters taken in a row. -/
def selectStart (s : PagingSegments) (start_index : ℕ) : ℕ × ℕ × ℕ :=
  match s.segment start_index with
  | none => (start_index+1,start_index,0)
  | some ps =>
    if s.physical_transfer_cluster_count+1=MAXPHYS>>>(ps.ps_clshift+page_shift) then
      (start_index+1,start_index,0)
    else
      (start_index,if start_index=0 then s.paging_segment_max else start_index-1,
        s.physical_transfer_cluster_count+1)

def takeFrom (s : PagingSegments) (j : ℕ) : PagingSegments :=
  match s.segment j with
  | none => s
  | some ps => s.setSegment j {ps with ps_clcount := ps.ps_clcount-1}

def selectPriority (shift : ℕ) : ℕ → PagingSegments → Option ℕ × PagingSegments
  | 0,s => (none,s)
  | i+1,s =>
    match s.ps_select_array i with
    | .BS_NOPRI => selectPriority shift i s
    | .BS_FULLPRI => selectPriority shift i s
    | .index start_index =>
      let r := s.selectStart start_index
      let s := {s with physical_transfer_cluster_count := r.2.2}
      match s.selectLoop shift i r.2.1 (s.paging_segment_max+2) r.1 with
      | some j => (some j,(s.takeFrom j).setSelect i (.index j))
      | none => selectPriority shift i (s.setSelect i .BS_FULLPRI)

def ps_select_segment (s : PagingSegments) (shift : ℕ) : Option ℕ × PagingSegments :=
  if s.paging_segment_count=1 then
    match s.segment s.paging_segment_max with
    | none => (none,s)
    | some ps =>
      if ps.ps_going_away=false ∧ ps.ps_clcount≠0 then
        (some s.paging_segment_max,s.takeFrom s.paging_segment_max)
      else (none,s)
  else if s.paging_segment_count=0 then (none,s)
  else selectPriority shift (BS_MAXPRI+1) s

/-- The loop of `ps_allocate_cluster` over the bytes of the bitmap, at most `n` of them: the
first byte that is not full, and its first clear bit. -/
def findClear (ps_bmap : ℕ → Bool) : ℕ → ℕ → ℕ × ℕ
  | 0,byte_num => (byte_num,0)
  | n+1,byte_num =>
    match (range NBBY).find? fun bit_num => !ps_bmap (byte_num*NBBY+bit_num) with
    | some bit_num => (byte_num,bit_num)
    | none => findClear ps_bmap n (byte_num+1)

/-- The part of `ps_allocate_cluster` that looks for a cluster in the chosen segment. -/
def takeCluster (s : PagingSegments) (j : ℕ) : Option (ℕ × ℕ) × PagingSegments :=
  match s.segment j with
  | none => (none,s)
  | some ps =>
    let found := findClear ps.ps_bmap ((ps.ps_ncls+NBBY-1)/NBBY-ps.ps_hint) ps.ps_hint
    let cluster := found.1*NBBY+found.2
    (some (j,cluster),s.setSegment j { ps with
      ps_hint := found.1
      ps_bmap := update ps.ps_bmap cluster true})

/-- The segment and the cluster in it; `use_ps` names a segment that has to be taken. -/
def ps_allocate_cluster (s : PagingSegments) (vs_clshift : ℕ) (use_ps : Option ℕ) :
    Option (ℕ × ℕ) × PagingSegments :=
  match use_ps with
  | some j => (s.takeFrom j).takeCluster j
  | none =>
    match s.ps_select_segment vs_clshift with
    | (none,s) => (none,s)
    | (some j,s) => s.takeCluster j

def ps_deallocate_cluster (s : PagingSegments) (j cluster : ℕ) : Option PagingSegments :=
  match s.segment j with
  | none => none
  | some ps =>
    if ps.ps_ncls≤cluster then none
    else
      let s := s.setSegment j { ps with
        ps_bmap := update ps.ps_bmap cluster false
        ps_clcount := ps.ps_clcount+1
        ps_hint := if cluster/NBBY<ps.ps_hint then cluster/NBBY else ps.ps_hint}
      some (if s.ps_select_array ps.bs_priority=.BS_FULLPRI then
        s.setSelect ps.bs_priority (.index 0) else s)

def used (s : PagingSegments) : Set (ℕ × ℕ) :=
  {k | ∃ ps,s.segment k.1=some ps ∧ k.2<ps.ps_ncls ∧ ps.ps_bmap k.2=true}

/-- A segment counts its unused clusters, and its hint is not above any of them. -/
structure SegmentOK (ps : PagingSegment) : Prop where
  count : ps.ps_clcount=clearBelow ps.ps_bmap ps.ps_ncls
  hint : ∀ cl<ps.ps_ncls,ps.ps_bmap cl=false → ps.ps_hint≤cl/NBBY

/-- The used clusters are those with a name, each has one, and every segment is right. -/
structure StoreOK (place : ℕ × ℕ → Option (ℕ × ℕ)) (s : PagingSegments) : Prop where
  owns : Owns place s.used
  segment : ∀ {i ps},s.segment i=some ps → SegmentOK ps
  small : ∀ {i ps},s.segment i=some ps → i<MAX_PSEG_INDEX ∧ ps.ps_ncls≤VSM_ENTRY_NULL

section Select
variable {s : PagingSegments}

/-- What a selection does to the segments: one cluster is taken off the count of the chosen one. -/
def Selects (s : PagingSegments) (r : Option ℕ × PagingSegments) : Prop :=
  (r.1=none ∧ r.2.segment=s.segment) ∨ ∃ j ps,r.1=some j ∧ s.segment j=some ps ∧ ps.ps_clcount≠0 ∧
    r.2.segment=update s.segment j (some {ps with ps_clcount := ps.ps_clcount-1})

lemma selectLoop_usable {shift priority start_index j : ℕ} (n i : ℕ)
    (h : s.selectLoop shift priority start_index n i=some j) : s.usable shift priority j=true := by
  induction n generalizing i with
  | zero => cases h
  | succ n ih =>
    rw [selectLoop] at h
    split_ifs at h with hmax husable hstart husable' hstart'
    · exact some.inj h▸husable
    · exact ih _ h
    · exact some.inj h▸husable'
    · exact ih _ h

lemma segment_of_usable {shift priority j : ℕ} (h : s.usable shift priority j=true) :
    ∃ ps,s.segment j=some ps ∧ ps.ps_clcount≠0 := by
  rw [usable] at h
  cases hseg : s.segment j with
  | none =>
    rw [hseg] at h
    cases h
  | some ps =>
    rw [hseg] at h
    exact ⟨ps,rfl,(of_decide_eq_true h).2.2.1⟩

lemma takeFrom_segment {j : ℕ} {ps : PagingSegment} (h : s.segment j=some ps) :
    (s.takeFrom j).segment =
      update s.segment j (some {ps with ps_clcount := ps.ps_clcount-1}) := by
  rw [takeFrom,h]
  rfl

lemma selectPriority_spec (shift n : ℕ) (s : PagingSegments) :
    Selects s (selectPriority shift n s) := by
  induction n generalizing s with
  | zero => exact .inl ⟨rfl,rfl⟩
  | succ n ih =>
    rw [selectPriority]
    cases hentry : s.ps_select_array n with
    | BS_NOPRI => exact ih s
    | BS_FULLPRI => exact ih s
    | index start_index =>
      dsimp only
      obtain ⟨t,ht⟩ : ∃ t : PagingSegments,t =
        {s with physical_transfer_cluster_count := (s.selectStart start_index).2.2} := ⟨_,rfl⟩
      have hsame : t.segment=s.segment := by rw [ht]
      rw [←ht]
      cases hloop : t.selectLoop shift n (s.selectStart start_index).2.1 (s.paging_segment_max+2)
        (s.selectStart start_index).1 with
      | none =>
        have hrest := ih (t.setSelect n .BS_FULLPRI)
        rw [Selects,show (t.setSelect n .BS_FULLPRI).segment=s.segment from hsame] at hrest
        exact hrest
      | some j =>
        obtain ⟨ps,hseg,hcount⟩ := segment_of_usable (selectLoop_usable _ _ hloop)
        have htake := takeFrom_segment hseg
        rw [hsame] at hseg htake
        exact .inr ⟨j,ps,rfl,hseg,hcount,htake⟩

lemma ps_select_segment_spec (s : PagingSegments) (shift : ℕ) :
    Selects s (s.ps_select_segment shift) := by
  rw [ps_select_segment]
  split_ifs with hone hzero
  · cases hseg : s.segment s.paging_segment_max with
    | none => exact .inl ⟨rfl,rfl⟩
    | some ps =>
      dsimp only
      split_ifs with husable
      · exact .inr ⟨_,ps,rfl,hseg,husable.2,takeFrom_segment hseg⟩
      · exact .inl ⟨rfl,rfl⟩
  · exact .inl ⟨rfl,rfl⟩
  · exact selectPriority_spec shift _ s

end Select

lemma findClear_spec (f : ℕ → Bool) (n byte : ℕ) {cl : ℕ} (h1 : byte*NBBY≤cl)
    (h2 : cl<(byte+n)*NBBY) (hcl : f cl=false) :
    byte≤(findClear f n byte).1 ∧ (findClear f n byte).2<NBBY ∧
      f ((findClear f n byte).1*NBBY+(findClear f n byte).2)=false ∧
      ∀ c,byte*NBBY≤c → f c=false → (findClear f n byte).1*NBBY+(findClear f n byte).2≤c := by
  rw [NBBY] at *
  induction n generalizing byte with
  | zero => omega
  | succ n ih =>
    rw [findClear,NBBY]
    cases hfind : (range 8).find? fun bit_num => !f (byte*8+bit_num) with
    | some bit =>
      obtain ⟨hbit,before,behind,heq,hbefore⟩ := find?_eq_some_iff_append.mp hfind
      have hlt : bit<8 := by
        have hmem : bit∈range 8 := by
          rw [heq]
          exact mem_append_right _ mem_cons_self
        exact mem_range.mp hmem
      refine ⟨Nat.le_refl _,hlt,by simpa using hbit,fun c hc hclear => ?_⟩
      by_contra hcon
      dsimp only at hcon
      -- a clear bit of the byte below would have been found
      have hmem : c-byte*8∈before := by
        have hin : c-byte*8∈before++bit::behind := by
          rw [←heq]
          exact mem_range.mpr (by omega)
        have hsorted := pairwise_lt_range (n := 8)
        rw [heq,pairwise_append,pairwise_cons] at hsorted
        rcases mem_append.mp hin with hb | hb
        · exact hb
        · rcases mem_cons.mp hb with hb | hb
          · omega
          · have := hsorted.2.1.1 _ hb
            omega
      have hset := hbefore _ hmem
      rw [show byte*8+(c-byte*8)=c by omega,hclear] at hset
      cases hset
    | none =>
      have hfull : ∀ c,byte*8≤c → c<byte*8+8 → f c=true := by
        intro c hc1 hc2
        have hset := find?_eq_none.mp hfind (c-byte*8) (mem_range.mpr (by omega))
        rw [show byte*8+(c-byte*8)=c by omega] at hset
        simpa using hset
      have hbeyond : ∀ c,byte*8≤c → f c=false → (byte+1)*8≤c := by
        intro c hc hclear
        by_contra hlt
        rw [hfull c hc (by omega)] at hclear
        cases hclear
      obtain ⟨hle,hbit,hclear,hleast⟩ := ih (byte+1) (hbeyond cl h1 hcl) (by omega)
      exact ⟨by dsimp only; omega,hbit,hclear,fun c hc hc' => hleast c (hbeyond c hc hc') hc'⟩

section Store
variable {place : ℕ × ℕ → Option (ℕ × ℕ)} {s : PagingSegments} {x : ℕ × ℕ}

lemma StoreOK.congr {s' : PagingSegments} (h : StoreOK place s) (hsame : s'.segment=s.segment) :
    StoreOK place s' := by
  have hused : s'.used=s.used := by rw [used,used,hsame]
  refine ⟨hused▸h.owns,fun hseg => ?_,fun hseg => ?_⟩
  · rw [hsame] at hseg
    exact h.segment hseg
  · rw [hsame] at hseg
    exact h.small hseg

lemma mem_used {i cl : ℕ} {ps : PagingSegment} (hseg : s.segment i=some ps) :
    (i,cl)∈s.used ↔ cl<ps.ps_ncls ∧ ps.ps_bmap cl=true := by
  constructor
  · rintro ⟨ps',hseg',h⟩
    rw [hseg] at hseg'
    rwa [some.inj hseg']
  · exact fun h => ⟨ps,hseg,h⟩

lemma used_of_update {t : PagingSegments} {j cl : ℕ} {ps ps' : PagingSegment} {b : Bool}
    (hseg : s.segment j=some ps) (ht : t.segment=update s.segment j (some ps'))
    (hncls : ps'.ps_ncls=ps.ps_ncls) (hbmap : ps'.ps_bmap=update ps.ps_bmap cl b)
    (hlt : cl<ps.ps_ncls) :
    t.used=if b then insert (j,cl) s.used else s.used \ {(j,cl)} := by
  ext ⟨i,c⟩
  have hother : i≠j → ((i,c)∈t.used ↔ (i,c)∈s.used) := by
    intro hij
    rw [used,used,Set.mem_ofPred_eq,Set.mem_ofPred_eq,ht]
    dsimp only
    rw [update_of_ne hij]
  by_cases hij : i=j
  · subst hij
    have hseg' : t.segment i=some ps' := by rw [ht,update_self]
    rw [mem_used hseg',hncls,hbmap]
    by_cases hc : c=cl
    · subst hc
      rw [update_self]
      cases b
      · simp
      · simp [hlt]
    · rw [update_of_ne hc,←mem_used hseg]
      cases b
      · simp [hc]
      · simp [hc]
  · rw [hother hij]
    cases b
    · simp [hij]
    · simp [hij]

lemma StoreOK.takeCluster {t : PagingSegments} {j : ℕ} {ps : PagingSegment} (h : StoreOK place s)
    (hx : place x=none) (hseg : s.segment j=some ps) (hcount : ps.ps_clcount≠0)
    (ht : t.segment =
      update s.segment j (some {ps with ps_clcount := ps.ps_clcount-1})) :
    ∃ cl t',t.takeCluster j=(some (j,cl),t') ∧ j<MAX_PSEG_INDEX ∧ cl<VSM_ENTRY_NULL ∧
      StoreOK (update place x (some (j,cl))) t' := by
  obtain ⟨hclcount,hhint⟩ := h.segment hseg
  obtain ⟨hj,hncls⟩ := h.small hseg
  -- the count says that there is a clear bit, and the hint that it is not below the hint
  obtain ⟨c,hc,hclear⟩ := exists_clear_of_pos (by omega : 0<clearBelow ps.ps_bmap ps.ps_ncls)
  have hge := hhint c hc hclear
  rw [NBBY] at hge
  obtain ⟨hle,hbit,hfree,hleast⟩ := findClear_spec ps.ps_bmap
    ((ps.ps_ncls+NBBY-1)/NBBY-ps.ps_hint) ps.ps_hint (by rw [NBBY]; omega)
    (by rw [NBBY]; omega) hclear
  obtain ⟨found,hfound⟩ : ∃ found,found=findClear ps.ps_bmap
    ((ps.ps_ncls+NBBY-1)/NBBY-ps.ps_hint) ps.ps_hint := ⟨_,rfl⟩
  rw [←hfound] at hle hbit hfree hleast
  have hcl : found.1*NBBY+found.2<ps.ps_ncls :=
    (hleast c (by rw [NBBY]; omega) hclear).trans_lt hc
  have hsegt : t.segment j=some {ps with ps_clcount := ps.ps_clcount-1} := by rw [ht,update_self]
  refine ⟨found.1*NBBY+found.2,t.setSegment j { ps with
      ps_clcount := ps.ps_clcount-1
      ps_hint := found.1
      ps_bmap := update ps.ps_bmap (found.1*NBBY+found.2) true},?_,hj,hcl.trans_le hncls,?_⟩
  · rw [PagingSegments.takeCluster,hsegt,hfound]
  have ht' : (t.setSegment j { ps with
      ps_clcount := ps.ps_clcount-1
      ps_hint := found.1
      ps_bmap := update ps.ps_bmap (found.1*NBBY+found.2) true}).segment =
      update s.segment j (some { ps with
        ps_clcount := ps.ps_clcount-1
        ps_hint := found.1
        ps_bmap := update ps.ps_bmap (found.1*NBBY+found.2) true}) := by
    rw [setSegment,ht,update_idem]
  have hnot : (j,found.1*NBBY+found.2)∉s.used := by
    rw [mem_used hseg,hfree]
    simp
  refine ⟨?_,fun {i ps'} hseg' => ?_,fun {i ps'} hseg' => ?_⟩
  · rw [used_of_update hseg ht' rfl rfl hcl]
    exact h.owns.alloc hx hnot
  · rw [ht'] at hseg'
    by_cases hij : i=j
    · rw [hij,update_self] at hseg'
      rw [←some.inj hseg']
      have hcard := clearBelow_add_card (f := ps.ps_bmap)
        (g := update ps.ps_bmap (found.1*NBBY+found.2) true) (n := ps.ps_ncls)
        (s := {found.1*NBBY+found.2}) (by simpa using hcl) (by simpa using hfree) (by simp)
        (fun i _ hi => update_of_ne (by simpa using hi) _ _)
      rw [Finset.card_singleton] at hcard
      refine ⟨by dsimp only; omega,fun c' hc' hclear' => ?_⟩
      dsimp only at hc' hclear' ⊢
      have hne : c'≠found.1*NBBY+found.2 := by
        rintro rfl
        rw [update_self] at hclear'
        cases hclear'
      rw [update_of_ne hne] at hclear'
      have hge' := hhint c' hc' hclear'
      have := hleast c' (by rw [NBBY] at *; omega) hclear'
      rw [NBBY] at *
      omega
    · rw [update_of_ne hij] at hseg'
      exact h.segment hseg'
  · rw [ht'] at hseg'
    by_cases hij : i=j
    · rw [hij,update_self] at hseg'
      rw [←some.inj hseg',hij]
      exact ⟨hj,hncls⟩
    · rw [update_of_ne hij] at hseg'
      exact h.small hseg'

lemma StoreOK.allocate (h : StoreOK place s) (hx : place x=none) (shift : ℕ) :
    (∃ s',s.ps_allocate_cluster shift none=(none,s') ∧ StoreOK place s') ∨
    ∃ j cl s',s.ps_allocate_cluster shift none=(some (j,cl),s') ∧ j<MAX_PSEG_INDEX ∧
      cl<VSM_ENTRY_NULL ∧ StoreOK (update place x (some (j,cl))) s' := by
  rw [ps_allocate_cluster]
  obtain ⟨r,hr⟩ : ∃ r,r=s.ps_select_segment shift := ⟨_,rfl⟩
  have hspec := ps_select_segment_spec s shift
  rw [←hr] at hspec ⊢
  obtain ⟨chosen,t⟩ := r
  rcases hspec with ⟨hnone,hsame⟩ | ⟨j,ps,hsome,hseg,hcount,ht⟩
  · dsimp only at hnone hsame
    subst hnone
    exact .inl ⟨t,rfl,h.congr hsame⟩
  · dsimp only at hsome ht
    subst hsome
    obtain ⟨cl,t',htake,hj,hcl,hok⟩ := h.takeCluster hx hseg hcount ht
    exact .inr ⟨j,cl,t',htake,hj,hcl,hok⟩

lemma StoreOK.deallocate {j cl : ℕ} (h : StoreOK place s) (hx : place x=some (j,cl)) :
    ∃ s',s.ps_deallocate_cluster j cl=some s' ∧ StoreOK (update place x none) s' := by
  obtain ⟨ps,hseg,hlt,hset⟩ := (h.owns.used_iff (j,cl)).mpr ⟨x,hx⟩
  dsimp only at hseg hlt hset
  obtain ⟨hclcount,hhint⟩ := h.segment hseg
  rw [ps_deallocate_cluster,hseg]
  dsimp only
  rw [if_neg (Nat.not_le.mpr hlt)]
  obtain ⟨ps',hps'⟩ : ∃ ps' : PagingSegment,ps'={ ps with
      ps_bmap := update ps.ps_bmap cl false
      ps_clcount := ps.ps_clcount+1
      ps_hint := if cl/NBBY<ps.ps_hint then cl/NBBY else ps.ps_hint} := ⟨_,rfl⟩
  rw [←hps']
  have hok : StoreOK (update place x none) (s.setSegment j ps') := by
    refine ⟨?_,fun {i ps''} hseg' => ?_,fun {i ps''} hseg' => ?_⟩
    · rw [used_of_update hseg rfl (by rw [hps']) (by rw [hps']) hlt]
      exact h.owns.free hx
    · rw [setSegment] at hseg'
      dsimp only at hseg'
      by_cases hij : i=j
      · rw [hij,update_self] at hseg'
        rw [←some.inj hseg',hps']
        have hcard := clearBelow_add_card (f := update ps.ps_bmap cl false)
          (g := ps.ps_bmap) (n := ps.ps_ncls) (s := {cl}) (by simpa using hlt) (by simp)
          (by simpa using hset) (fun i _ hi => (update_of_ne (by simpa using hi) _ _).symm)
        rw [Finset.card_singleton] at hcard
        refine ⟨by dsimp only; omega,fun c hc hclear => ?_⟩
        dsimp only at hc hclear ⊢
        by_cases hceq : c=cl
        · rw [hceq]
          split_ifs <;> omega
        · rw [update_of_ne hceq] at hclear
          have := hhint c hc hclear
          split_ifs <;> omega
      · rw [update_of_ne hij] at hseg'
        exact h.segment hseg'
    · rw [setSegment] at hseg'
      dsimp only at hseg'
      by_cases hij : i=j
      · rw [hij,update_self] at hseg'
        have hsmall := h.small hseg
        rw [←some.inj hseg',hij,hps']
        exact ⟨hsmall.1,hsmall.2⟩
      · rw [update_of_ne hij] at hseg'
        exact h.small hseg'
  refine ⟨_,rfl,?_⟩
  split_ifs
  · exact hok.congr rfl
  · exact hok

end Store

end PagingSegments
end Darwin.Pager
