import Darwin.Pager.ClusterMap

/-! Looking up, allocating and releasing the clusters of paging objects. Offsets and sizes are in
pages. -/
open List Function Option Nat
namespace Darwin.Pager
open Lib

inductive ClFlag
  | CL_FIND
  | CL_ALLOC
  deriving DecidableEq

/-- What `ps_clmap` tells about a cluster, from the page on that it was asked for. -/
structure Clmap where
  cl_ps : ℕ
  cl_numpages : ℕ
  cl_bmap : BitVec 16
  cl_alloc : BitVec 16
  deriving DecidableEq

/-- `-1` with the error of the cluster, the page within the segment, or `0` after a write. -/
inductive ClmapResult
  | failed (cl_error : ℕ)
  | found (clmap : Clmap) (page : ℕ)
  | written (clmap : Clmap)
  deriving DecidableEq

def clmapUse (s : PagingSegments) (vs : Vstruct) (page : ℕ) (m : VsMap) (newcl : ℕ) (flag : ClFlag)
    (size error : ℕ) : Option (ClmapResult × PagingSegments × Vstruct) :=
  let vsclsize := 2^vs.vs_clshift
  let cluster := page/vsclsize
  let i := page%vsclsize
  match flag with
  | .CL_ALLOC =>
    let m := m.VSM_SETALLOC (min size (vsclsize-i)) i
    some (.found ⟨m.vsmap_psindex,vsclsize-i,m.vsmap_bmap>>>i,m.vsmap_alloc>>>i⟩
      (newcl*vsclsize+i),s,vs.store cluster m)
  | .CL_FIND =>
    let clmap : Clmap := ⟨m.vsmap_psindex,vsclsize-i,m.vsmap_bmap>>>i,m.vsmap_alloc>>>i⟩
    if size=0 then some (.found clmap (newcl*vsclsize+i),s,vs)
    else if error=0 then
      some (.written clmap,s,vs.store cluster (m.VSM_SETPG size i))
    else
      let off := m.vsmap_entry
      let vs := vs.store cluster (m.VSM_SETERR error)
      if off≠0 then
        (s.ps_deallocate_cluster m.vsmap_psindex off).map fun s => (.written clmap,s,vs)
      else some (.written clmap,s,vs)

def clmapEntry (s : PagingSegments) (vs : Vstruct) (page : ℕ) (entries : List VsMap)
    (flag : ClFlag) (size error : ℕ) : Option (ClmapResult × PagingSegments × Vstruct) :=
  let cluster := page/2^vs.vs_clshift
  let m := entries.getD (cluster%CLMAP_ENTRIES) VSM_CLR
  if m.vsmap_error then some (.failed m.vsmap_entry,s,vs)
  else if m.VSM_ISCLR then
    match flag with
    | .CL_FIND =>
      -- out of swap space: the error is recorded
      some (.failed 0,s,if error≠0 then vs.store cluster (m.VSM_SETERR error) else vs)
    | .CL_ALLOC =>
      match s.ps_allocate_cluster vs.vs_clshift none with
      | (none,s) => some (.failed 0,s,vs)
      | (some (psindex,newcl),s) =>
        clmapUse s vs page ((VSM_CLR.VSM_SETCLOFF newcl).VSM_SETPS psindex) newcl flag size error
  else clmapUse s vs page m m.vsmap_entry flag size error

/-- `ps_clmap`, with `none` for a panic; `kalloc` tells which of its allocations succeed. -/
def ps_clmap (s : PagingSegments) (vs : Vstruct) (page : ℕ) (flag : ClFlag) (size error : ℕ)
    (kalloc : ℕ → Bool) : Option (ClmapResult × PagingSegments × Vstruct) :=
  let cluster := page/2^vs.vs_clshift
  if vs.vs_size≤cluster ∧ flag=.CL_FIND then some (.failed 0,s,vs)
  else
    match vs.ps_map_extend (cluster+1) kalloc with
    | none => some (.failed 0,s,vs)
    | some vs =>
      match vs.findBlock cluster (flag=.CL_ALLOC ∧ kalloc 2=true) with
      | none => some (.failed 0,s,vs)
      | some vs => clmapEntry s vs page ((vs.block cluster).getD []) flag size error

def clunmapLoop : ℕ → PagingSegments → Vstruct → ℕ → ℕ → Option (PagingSegments × Vstruct)
  | 0,s,vs,_,_ => some (s,vs)
  | n+1,s,vs,page,length =>
    if length=0 then some (s,vs)
    else
      let vsclsize := 2^vs.vs_clshift
      let cluster := page/vsclsize
      match vs.block cluster with
      | none => some (s,vs)
      | some entries =>
        let m := entries.getD (cluster%CLMAP_ENTRIES) VSM_CLR
        if m.VSM_ISCLR then clunmapLoop n s vs (page+1) (length-1)
        else
          let i := page%vsclsize
          let count := min length (vsclsize-i)
          let m := m.VSM_CLRPG count i
          if m.vsmap_alloc=0 then
            match s.ps_deallocate_cluster m.vsmap_psindex m.vsmap_entry with
            | none => none
            | some s => clunmapLoop n s (vs.store cluster VSM_CLR) (page+count) (length-count)
          else clunmapLoop n s (vs.store cluster m) (page+count) (length-count)

def ps_clunmap (s : PagingSegments) (vs : Vstruct) (page length : ℕ) :
    Option (PagingSegments × Vstruct) :=
  clunmapLoop length s vs page length

def ps_dealloc_vsmap : List VsMap → PagingSegments → Option PagingSegments
  | [],s => some s
  | m::ms,s =>
    if m.VSM_ISCLR=false ∧ m.vsmap_error=false then
      match s.ps_deallocate_cluster m.vsmap_psindex m.vsmap_entry with
      | none => none
      | some s => ps_dealloc_vsmap ms s
    else ps_dealloc_vsmap ms s

def deallocBlocks : List (Option (List VsMap)) → PagingSegments → Option PagingSegments
  | [],s => some s
  | none::bs,s => deallocBlocks bs s
  | some ms::bs,s =>
    match ps_dealloc_vsmap ms s with
    | none => none
    | some s => deallocBlocks bs s

def ps_vstruct_dealloc (s : PagingSegments) (vs : Vstruct) : Option PagingSegments :=
  match vs.map with
  | .indirect imap => deallocBlocks (imap.take (INDIRECT_CLMAP_ENTRIES vs.vs_size)) s
  | .direct dmap => ps_dealloc_vsmap (dmap.take vs.vs_size) s

def withObject (place : ℕ × ℕ → Option (ℕ × ℕ)) (id : ℕ) (vs : Vstruct) : ℕ × ℕ → Option (ℕ × ℕ) :=
  fun x => if x.1=id then (vs.entry x.2).place else place x

def Allocated (vs : Vstruct) (page : ℕ) (k : ℕ × ℕ) : Prop :=
  page/2^vs.vs_clshift<vs.vs_size ∧ (vs.entry (page/2^vs.vs_clshift)).place=some k ∧
    (vs.entry (page/2^vs.vs_clshift)).vsmap_alloc.getLsbD (page%2^vs.vs_clshift)=true

/-- Pages that are not lost stay allocated where they are. -/
structure Keeps (lost : ℕ → Prop) (vs vs' : Vstruct) : Prop where
  shape : vs'.Shape
  clshift : vs'.vs_clshift=vs.vs_clshift
  keeps : ∀ {page k},¬lost page → Allocated vs page k → Allocated vs' page k

section Places
variable {place : ℕ × ℕ → Option (ℕ × ℕ)} {id cluster : ℕ} {vs vs' : Vstruct} {m : VsMap}

@[simp] lemma place_clr : VSM_CLR.place=none := rfl

lemma place_setErr (m : VsMap) (error : ℕ) : (m.VSM_SETERR error).place=none := by
  rw [VsMap.place,VsMap.VSM_SETERR,if_pos (.inr rfl)]

lemma place_new {j cl : ℕ} (hj : j<MAX_PSEG_INDEX) (hcl : cl<VSM_ENTRY_NULL) :
    ((VSM_CLR.VSM_SETCLOFF cl).VSM_SETPS j).place=some (j,cl) := by
  rw [MAX_PSEG_INDEX] at hj
  rw [VSM_ENTRY_NULL] at hcl
  have hentry : cl%2^23=cl := mod_eq_of_lt (by omega)
  have hindex : j%2^8=j := mod_eq_of_lt (by omega)
  rw [VsMap.place,VsMap.VSM_SETPS,VsMap.VSM_SETCLOFF,hentry,hindex,if_neg]
  rw [VsMap.VSM_ISCLR,VSM_ENTRY_NULL]
  simp only [VSM_CLR,decide_eq_true_eq,Bool.false_eq_true,or_false]
  omega

lemma place_eq_some_iff {j cl : ℕ} : m.place=some (j,cl) ↔
    m.VSM_ISCLR=false ∧ m.vsmap_error=false ∧ m.vsmap_psindex=j ∧ m.vsmap_entry=cl := by
  rw [VsMap.place]
  cases m.VSM_ISCLR
  · cases m.vsmap_error
    · simp
    · simp
  · simp

lemma place_congr {m' : VsMap} (h1 : m'.vsmap_entry=m.vsmap_entry)
    (h2 : m'.vsmap_psindex=m.vsmap_psindex) (h3 : m'.vsmap_error=m.vsmap_error) :
    m'.place=m.place := by
  rw [VsMap.place,VsMap.place,VsMap.VSM_ISCLR,VsMap.VSM_ISCLR,h1,h2,h3]

lemma withObject_of_entry (h : ∀ c,(vs'.entry c).place=(vs.entry c).place) :
    withObject place id vs'=withObject place id vs := by
  funext x
  rw [withObject,withObject,h]

lemma withObject_store (h : vs.Shape) (hlt : cluster<vs.vs_size) {entries : List VsMap}
    (hb : vs.block cluster=some entries) : withObject place id (vs.store cluster m) =
      update (withObject place id vs) (id,cluster) m.place := by
  funext x
  obtain ⟨i,c⟩ := x
  rw [withObject]
  dsimp only
  by_cases hx : (i,c)=(id,cluster)
  · obtain ⟨rfl,rfl⟩ := Prod.mk.inj hx
    rw [update_self,if_pos rfl,h.entry_store hlt hb,if_pos rfl]
  · rw [update_of_ne hx,withObject]
    dsimp only
    split_ifs with hi
    · rw [h.entry_store hlt hb,if_neg]
      rintro rfl
      exact hx (by rw [hi])
    · rfl

variable {lost : ℕ → Prop}

lemma Keeps.refl (h : vs.Shape) : Keeps lost vs vs := ⟨h,rfl,fun _ ha => ha⟩

lemma Keeps.trans {lost lost' : ℕ → Prop} {vs'' : Vstruct} (h : Keeps lost vs vs')
    (h' : Keeps lost' vs' vs'') : Keeps (fun p => lost p ∨ lost' p) vs vs'' where
  shape := h'.shape
  clshift := h'.clshift.trans h.clshift
  keeps hnot ha := h'.keeps (fun hl => hnot (.inr hl)) (h.keeps (fun hl => hnot (.inl hl)) ha)

lemma Keeps.mono {lost lost' : ℕ → Prop} (h : Keeps lost vs vs') (hle : ∀ p,lost p → lost' p) :
    Keeps lost' vs vs' :=
  ⟨h.shape,h.clshift,fun hnot => h.keeps fun hl => hnot (hle _ hl)⟩

lemma Keeps.of_entry (h : vs'.Shape) (hshift : vs'.vs_clshift=vs.vs_clshift)
    (hsize : vs.vs_size≤vs'.vs_size) (hentry : ∀ c,vs'.entry c=vs.entry c) : Keeps lost vs vs' := by
  refine ⟨h,hshift,fun {page k} _ ha => ?_⟩
  rw [Allocated,hshift,hentry]
  exact ⟨ha.1.trans_le hsize,ha.2⟩

lemma Keeps.of_store (h : vs.Shape) (hlt : cluster<vs.vs_size)
    {entries : List VsMap} (hb : vs.block cluster=some entries)
    (hkeep : ∀ page k,page/2^vs.vs_clshift=cluster → ¬lost page → Allocated vs page k →
      m.place=some k ∧ m.vsmap_alloc.getLsbD (page%2^vs.vs_clshift)=true) :
    Keeps lost vs (vs.store cluster m) := by
  obtain ⟨hshape,hsize,hshift⟩ := h.store cluster m
  refine ⟨hshape,hshift,fun {page k} hnot ha => ?_⟩
  rw [Allocated,hshift,hsize,h.entry_store hlt hb]
  by_cases hc : page/2^vs.vs_clshift=cluster
  · rw [if_pos hc]
    exact ⟨ha.1,hkeep page k hc hnot ha⟩
  · rw [if_neg hc]
    exact ha

end Places

section Clmap
variable {place : ℕ × ℕ → Option (ℕ × ℕ)} {id : ℕ} {s : PagingSegments} {vs : Vstruct}

def FailedWrite (vs : Vstruct) (page : ℕ) (flag : ClFlag) (size error p : ℕ) : Prop :=
  flag=.CL_FIND ∧ size≠0 ∧ error≠0 ∧ p/2^vs.vs_clshift=page/2^vs.vs_clshift

def ClmapDone (place : ℕ × ℕ → Option (ℕ × ℕ)) (id : ℕ) (vs : Vstruct) (lost : ℕ → Prop)
    (r : Option (ClmapResult × PagingSegments × Vstruct)) : Prop :=
  ∃ result s' vs',r=some (result,s',vs') ∧
    PagingSegments.StoreOK (withObject place id vs') s' ∧ Keeps lost vs vs'

lemma clmapUse_done {page newcl j : ℕ} {m : VsMap} {flag : ClFlag} {size error : ℕ}
    (hshape : vs.Shape) (hlt : page/2^vs.vs_clshift<vs.vs_size) {entries : List VsMap}
    (hb : vs.block (page/2^vs.vs_clshift)=some entries) (hm : m.place=some (j,newcl))
    (hold : flag=.CL_FIND → vs.entry (page/2^vs.vs_clshift)=m)
    (hok : PagingSegments.StoreOK
      (update (withObject place id vs) (id,page/2^vs.vs_clshift) (some (j,newcl))) s)
    (hkeep : ∀ p k,p/2^vs.vs_clshift=page/2^vs.vs_clshift → Allocated vs p k →
      m.place=some k ∧ m.vsmap_alloc.getLsbD (p%2^vs.vs_clshift)=true)
    (hzero : flag=.CL_FIND → size≠0 → error≠0 → newcl≠0) :
    ClmapDone place id vs (FailedWrite vs page flag size error)
      (clmapUse s vs page m newcl flag size error) := by
  obtain ⟨-,-,hps,hentry⟩ := place_eq_some_iff.mp hm
  -- an entry with the same address is stored
  have hstore : ∀ m' : VsMap,m'.place=some (j,newcl) → (∀ i,m.vsmap_alloc.getLsbD i=true →
      m'.vsmap_alloc.getLsbD i=true) →
      PagingSegments.StoreOK (withObject place id (vs.store (page/2^vs.vs_clshift) m')) s ∧
      Keeps (FailedWrite vs page flag size error) vs (vs.store (page/2^vs.vs_clshift) m') := by
    intro m' hm' halloc
    rw [withObject_store hshape hlt hb,hm']
    refine ⟨hok,Keeps.of_store hshape hlt hb fun p k hp _ ha => ?_⟩
    obtain ⟨hplace,hbit⟩ := hkeep p k hp ha
    exact ⟨hm'.trans (hm.symm.trans hplace),halloc _ hbit⟩
  cases flag with
  | CL_ALLOC =>
    rw [clmapUse]
    obtain ⟨hdone,hkeeps⟩ := hstore (m.VSM_SETALLOC
        (min size (2^vs.vs_clshift-page%2^vs.vs_clshift)) (page%2^vs.vs_clshift))
      ((place_congr rfl rfl rfl).trans hm) fun i hi => by
        rw [VsMap.VSM_SETALLOC,getLsbD_setPages,hi,Bool.true_or]
    exact ⟨_,_,_,rfl,hdone,hkeeps⟩
  | CL_FIND =>
    rw [clmapUse]
    have hsame : update (withObject place id vs) (id,page/2^vs.vs_clshift)
        (some (j,newcl))=withObject place id vs := by
      rw [update_eq_self_iff,withObject,if_pos rfl,hold rfl,hm]
    by_cases hsize : size=0
    · rw [if_pos hsize]
      exact ⟨_,_,_,rfl,hsame▸hok,Keeps.refl hshape⟩
    rw [if_neg hsize]
    by_cases herror : error=0
    · rw [if_pos herror]
      obtain ⟨hdone,hkeeps⟩ := hstore (m.VSM_SETPG size (page%2^vs.vs_clshift))
        ((place_congr rfl rfl rfl).trans hm) fun i hi => hi
      exact ⟨_,_,_,rfl,hdone,hkeeps⟩
    rw [if_neg herror,hps,hentry,if_pos (hzero rfl hsize herror)]
    obtain ⟨s',hs',hdone⟩ := hok.deallocate (update_self _ _ _)
    rw [update_idem] at hdone
    rw [hs']
    refine ⟨_,s',_,rfl,?_,Keeps.of_store hshape hlt hb fun p k hp hnot _ => ?_⟩
    · rw [withObject_store hshape hlt hb,place_setErr]
      exact hdone
    · exact absurd ⟨rfl,hsize,herror,hp⟩ hnot

lemma not_allocated_of_place {p : ℕ} {k : ℕ × ℕ} {c : ℕ} (hp : p/2^vs.vs_clshift=c)
    (hnone : (vs.entry c).place=none) : ¬Allocated vs p k := by
  rintro ⟨-,hplace,-⟩
  rw [hp,hnone] at hplace
  cases hplace

lemma clmapEntry_done {page : ℕ} {flag : ClFlag} {size error : ℕ} (hshape : vs.Shape)
    (hlt : page/2^vs.vs_clshift<vs.vs_size) {entries : List VsMap}
    (hb : vs.block (page/2^vs.vs_clshift)=some entries)
    (hok : PagingSegments.StoreOK (withObject place id vs) s)
    (hzero : flag=.CL_FIND → size≠0 → error≠0 → ∀ j cl,
      (vs.entry (page/2^vs.vs_clshift)).place=some (j,cl) → cl≠0) :
    ClmapDone place id vs (FailedWrite vs page flag size error)
      (clmapEntry s vs page entries flag size error) := by
  rw [clmapEntry.eq_def]
  simp only [hshape.entry_eq hlt hb]
  obtain ⟨m,hm⟩ : ∃ m,m=vs.entry (page/2^vs.vs_clshift) := ⟨_,rfl⟩
  have hplace : withObject place id vs (id,page/2^vs.vs_clshift)=m.place := by
    rw [withObject,if_pos rfl,←hm]
  rw [←hm]
  by_cases herr : m.vsmap_error=true
  · simp only [if_pos herr]
    exact ⟨_,_,_,rfl,hok,Keeps.refl hshape⟩
  simp only [if_neg herr]
  by_cases hclr : m.VSM_ISCLR=true
  · have hnone : m.place=none := by rw [VsMap.place,if_pos (.inl hclr)]
    simp only [if_pos hclr]
    cases flag with
    | CL_FIND =>
      dsimp only
      by_cases herror : error=0
      · rw [if_neg (not_not.mpr herror)]
        exact ⟨_,_,_,rfl,hok,Keeps.refl hshape⟩
      · rw [if_pos herror]
        refine ⟨_,_,_,rfl,?_,Keeps.of_store hshape hlt hb fun p k hp _ ha => ?_⟩
        · rw [withObject_store hshape hlt hb,place_setErr,←hnone,←hplace,update_eq_self]
          exact hok
        · exact absurd ha (not_allocated_of_place hp (hm▸hnone))
    | CL_ALLOC =>
      dsimp only
      rcases hok.allocate (x := (id,page/2^vs.vs_clshift)) (hplace.trans hnone) vs.vs_clshift with
        ⟨s',hs',hok'⟩ | ⟨j,cl,s',hs',hj,hcl,hok'⟩
      · rw [hs']
        exact ⟨_,_,_,rfl,hok',Keeps.refl hshape⟩
      · rw [hs']
        refine clmapUse_done hshape hlt hb (place_new hj hcl) (fun h => by cases h) hok'
          (fun p k hp ha => ?_) fun h => by cases h
        exact absurd ha (not_allocated_of_place hp (hm▸hnone))
  · simp only [if_neg hclr]
    have hsome : m.place=some (m.vsmap_psindex,m.vsmap_entry) := by
      rw [VsMap.place,if_neg (not_or.mpr ⟨hclr,herr⟩)]
    refine clmapUse_done hshape hlt hb hsome (fun _ => hm.symm) ?_ (fun p k hp ha => ?_)
      fun hf hs he => hzero hf hs he m.vsmap_psindex m.vsmap_entry (by rw [←hm]; exact hsome)
    · rw [←hsome,←hplace,update_eq_self]
      exact hok
    · obtain ⟨-,h1,h2⟩ := ha
      rw [hp,←hm] at h1 h2
      exact ⟨h1,h2⟩

/-- `ps_clmap` keeps the store right and every page where it is, except those of a cluster whose
write has failed. -/
theorem ps_clmap_done {page : ℕ} {flag : ClFlag} {size error : ℕ} (kalloc : ℕ → Bool)
    (hshape : vs.Shape) (hok : PagingSegments.StoreOK (withObject place id vs) s)
    (hzero : flag=.CL_FIND → size≠0 → error≠0 → ∀ j cl,
      (vs.entry (page/2^vs.vs_clshift)).place=some (j,cl) → cl≠0) :
    ClmapDone place id vs (FailedWrite vs page flag size error)
      (ps_clmap s vs page flag size error kalloc) := by
  rw [ps_clmap]
  by_cases hbeyond : vs.vs_size≤page/2^vs.vs_clshift ∧ flag=.CL_FIND
  · simp only [if_pos hbeyond]
    exact ⟨_,_,_,rfl,hok,Keeps.refl hshape⟩
  simp only [if_neg hbeyond]
  cases hext : vs.ps_map_extend (page/2^vs.vs_clshift+1) kalloc with
  | none => exact ⟨_,_,_,rfl,hok,Keeps.refl hshape⟩
  | some vs1 =>
    obtain ⟨hshape1,hentry1,hsize1,hshift1⟩ := hshape.extend hext
    dsimp only
    have hlt1 : page/2^vs.vs_clshift<vs1.vs_size := by omega
    cases hfind : vs1.findBlock (page/2^vs.vs_clshift)
      (decide (flag=.CL_ALLOC ∧ kalloc 2=true)) with
    | none =>
      refine ⟨_,_,_,rfl,?_,Keeps.of_entry hshape1 hshift1 (by omega) hentry1⟩
      rw [withObject_of_entry fun c => congrArg VsMap.place (hentry1 c)]
      exact hok
    | some vs2 =>
      obtain ⟨hshape2,hentry2,hsize2,hshift2,entries,hb⟩ := hshape1.findBlock hlt1 hfind
      have hentry : ∀ c,vs2.entry c=vs.entry c := fun c => (hentry2 c).trans (hentry1 c)
      have hshift : vs2.vs_clshift=vs.vs_clshift := hshift2.trans hshift1
      dsimp only
      rw [hb,getD_some]
      rw [←hshift] at hb hlt1
      obtain ⟨result,s',vs',hr,hok',hkeeps⟩ := clmapEntry_done hshape2 (by omega) hb
        (by rw [withObject_of_entry fun c => congrArg VsMap.place (hentry c)]; exact hok)
        (by rw [hentry,hshift]; exact hzero)
      refine ⟨result,s',vs',hr,hok',?_⟩
      have hfirst : Keeps (FailedWrite vs page flag size error) vs vs2 :=
        Keeps.of_entry hshape2 hshift (by omega) hentry
      refine (hfirst.trans hkeeps).mono fun p hp => ?_
      rw [FailedWrite,FailedWrite,hshift] at hp
      exact hp.elim (fun h => h) fun h => h

end Clmap

section Clunmap
variable {place : ℕ × ℕ → Option (ℕ × ℕ)} {id : ℕ}

def UnmapDone (place : ℕ × ℕ → Option (ℕ × ℕ)) (id : ℕ) (vs : Vstruct) (lost : ℕ → Prop)
    (r : Option (PagingSegments × Vstruct)) : Prop :=
  ∃ s' vs',r=some (s',vs') ∧ PagingSegments.StoreOK (withObject place id vs') s' ∧ Keeps lost vs vs'

/-- The pages of a range are inside the map, and no write of theirs has failed. -/
def Unmappable (vs : Vstruct) (page length : ℕ) : Prop :=
  ∀ p,page≤p → p<page+length → p/2^vs.vs_clshift<vs.vs_size ∧
    (vs.entry (p/2^vs.vs_clshift)).vsmap_error=false

lemma UnmapDone.after {vs vs1 : Vstruct} {lost lost1 lost2 : ℕ → Prop}
    {r : Option (PagingSegments × Vstruct)} (h : UnmapDone place id vs1 lost2 r)
    (hkeeps : Keeps lost1 vs vs1) (h1 : ∀ p,lost1 p → lost p) (h2 : ∀ p,lost2 p → lost p) :
    UnmapDone place id vs lost r := by
  obtain ⟨s',vs',hr,hok,hkeeps'⟩ := h
  exact ⟨s',vs',hr,hok,(hkeeps.trans hkeeps').mono fun p hp => hp.elim (h1 p) (h2 p)⟩

lemma clunmapLoop_done (n : ℕ) (s : PagingSegments) (vs : Vstruct) (page length : ℕ)
    (hn : length≤n) (hshape : vs.Shape)
    (hok : PagingSegments.StoreOK (withObject place id vs) s) (hrange : Unmappable vs page length) :
    UnmapDone place id vs (fun p => page≤p ∧ p<page+length)
      (clunmapLoop n s vs page length) := by
  induction n generalizing s vs page length with
  | zero => exact ⟨s,vs,rfl,hok,Keeps.refl hshape⟩
  | succ n ih =>
    rw [clunmapLoop]
    by_cases hzero : length=0
    · rw [if_pos hzero]
      exact ⟨s,vs,rfl,hok,Keeps.refl hshape⟩
    rw [if_neg hzero]
    obtain ⟨hlt,herror⟩ := hrange page (le_refl _) (by omega)
    cases hb : vs.block (page/2^vs.vs_clshift) with
    | none =>
      simp only [hb]
      exact ⟨s,vs,rfl,hok,Keeps.refl hshape⟩
    | some entries =>
      simp only [hb,hshape.entry_eq hlt hb]
      obtain ⟨m,hm⟩ : ∃ m,m=vs.entry (page/2^vs.vs_clshift) := ⟨_,rfl⟩
      rw [←hm] at herror ⊢
      by_cases hclr : m.VSM_ISCLR=true
      · rw [if_pos hclr]
        have hsame : Keeps (fun _ => False) vs vs := Keeps.refl hshape
        refine (ih s vs (page+1) (length-1) (by omega) hshape hok fun p h1 h2 =>
          hrange p (by omega) (by omega)).after hsame (fun p hp => hp.elim)
          fun p hp => ⟨by omega,by omega⟩
      rw [if_neg hclr]
      have hplace : m.place=some (m.vsmap_psindex,m.vsmap_entry) := by
        rw [VsMap.place,if_neg (not_or.mpr ⟨hclr,by rw [herror]; decide⟩)]
      have hname : withObject place id vs (id,page/2^vs.vs_clshift) =
          some (m.vsmap_psindex,m.vsmap_entry) := by
        rw [withObject,if_pos rfl,←hm,hplace]
      have hpow : 0<2^vs.vs_clshift := Nat.two_pow_pos _
      have hmod := Nat.mod_lt page hpow
      have hdiv := div_add_mod page (2^vs.vs_clshift)
      obtain ⟨count,hcount⟩ : ∃ count,
        count=min length (2^vs.vs_clshift-page%2^vs.vs_clshift) := ⟨_,rfl⟩
      rw [←hcount]
      -- a page of the cluster outside the range keeps its bit
      have hbit : ∀ p k,p/2^vs.vs_clshift=page/2^vs.vs_clshift →
          ¬(page≤p ∧ p<page+count) → Allocated vs p k → m.place=some k ∧
          (m.VSM_CLRPG count (page%2^vs.vs_clshift)).vsmap_alloc.getLsbD
            (p%2^vs.vs_clshift)=true := by
        intro p k hp hnot ha
        obtain ⟨-,h1,h2⟩ := ha
        rw [hp,←hm] at h1 h2
        have hdivp := div_add_mod p (2^vs.vs_clshift)
        rw [hp] at hdivp
        refine ⟨h1,?_⟩
        rw [VsMap.VSM_CLRPG,getLsbD_clearPages,h2,decide_eq_false (by omega)]
        rfl
      have hrest : ∀ m' : VsMap,m'.vsmap_error=false →
          Unmappable (vs.store (page/2^vs.vs_clshift) m') (page+count) (length-count) := by
        intro m' hm' p h1 h2
        obtain ⟨-,hsize,hshift⟩ := hshape.store (page/2^vs.vs_clshift) m'
        obtain ⟨hp1,hp2⟩ := hrange p (by omega) (by omega)
        rw [hsize,hshift,hshape.entry_store hlt hb]
        refine ⟨hp1,?_⟩
        split_ifs
        · exact hm'
        · exact hp2
      by_cases halloc : (m.VSM_CLRPG count (page%2^vs.vs_clshift)).vsmap_alloc=0
      · rw [if_pos halloc]
        obtain ⟨s',hs',hok'⟩ := hok.deallocate hname
        have hcall : s.ps_deallocate_cluster
            (m.VSM_CLRPG count (page%2^vs.vs_clshift)).vsmap_psindex
            (m.VSM_CLRPG count (page%2^vs.vs_clshift)).vsmap_entry=some s' := hs'
        rw [hcall]
        have hkeeps : Keeps (fun p => page≤p ∧ p<page+count) vs
            (vs.store (page/2^vs.vs_clshift) VSM_CLR) := by
          refine Keeps.of_store hshape hlt hb fun p k hp hnot ha => ?_
          obtain ⟨-,hset⟩ := hbit p k hp hnot ha
          rw [halloc,BitVec.ofNat_eq_ofNat,BitVec.getLsbD_zero] at hset
          cases hset
        refine (ih s' _ (page+count) (length-count) (by omega) hkeeps.shape ?_
          (hrest VSM_CLR rfl)).after hkeeps (fun p hp => ⟨hp.1,by omega⟩)
          fun p hp => ⟨by omega,by omega⟩
        rw [withObject_store hshape hlt hb,place_clr]
        exact hok'
      · rw [if_neg halloc]
        have hplace' : (m.VSM_CLRPG count (page%2^vs.vs_clshift)).place=m.place :=
          place_congr rfl rfl rfl
        have hkeeps : Keeps (fun p => page≤p ∧ p<page+count) vs
            (vs.store (page/2^vs.vs_clshift) (m.VSM_CLRPG count (page%2^vs.vs_clshift))) := by
          refine Keeps.of_store hshape hlt hb fun p k hp hnot ha => ?_
          obtain ⟨h1,h2⟩ := hbit p k hp hnot ha
          exact ⟨hplace'.trans h1,h2⟩
        refine (ih s _ (page+count) (length-count) (by omega) hkeeps.shape ?_
          (hrest _ herror)).after hkeeps (fun p hp => ⟨hp.1,by omega⟩)
          fun p hp => ⟨by omega,by omega⟩
        rw [withObject_store hshape hlt hb,hplace',hplace,←hname,update_eq_self]
        exact hok

lemma ps_clunmap_done {s : PagingSegments} {vs : Vstruct} {page length : ℕ} (hshape : vs.Shape)
    (hok : PagingSegments.StoreOK (withObject place id vs) s) (hrange : Unmappable vs page length) :
    UnmapDone place id vs (fun p => page≤p ∧ p<page+length) (ps_clunmap s vs page length) :=
  clunmapLoop_done length s vs page length (le_refl _) hshape hok hrange

end Clunmap

section Dealloc
variable {place : ℕ × ℕ → Option (ℕ × ℕ)} {id : ℕ}

def erase (place : ℕ × ℕ → Option (ℕ × ℕ)) (id first last : ℕ) : ℕ × ℕ → Option (ℕ × ℕ) :=
  fun x => if x.1=id ∧ first≤x.2 ∧ x.2<last then none else place x

lemma erase_self (first : ℕ) : erase place id first first=place := by
  funext x
  rw [erase,if_neg (by omega)]

lemma erase_erase {first mid last : ℕ} (h1 : first ≤ mid) (h2 : mid≤last) :
    erase (erase place id first mid) id mid last=erase place id first last := by
  funext x
  rw [erase,erase,erase]
  split_ifs <;> first | rfl | omega

lemma erase_succ (first : ℕ) : erase place id first (first+1)=update place (id,first) none := by
  funext x
  obtain ⟨i,c⟩ := x
  rw [erase]
  by_cases hx : (i,c)=(id,first)
  · obtain ⟨rfl,rfl⟩ := Prod.mk.inj hx
    rw [update_self,if_pos ⟨rfl,le_refl _,lt_succ_self _⟩]
  · rw [update_of_ne hx,if_neg]
    rintro ⟨rfl,h1,h2⟩
    exact hx (by rw [show c=first from le_antisymm (le_of_lt_succ h2) h1])

def EntriesAt (place : ℕ × ℕ → Option (ℕ × ℕ)) (id first : ℕ) (ms : List VsMap) : Prop :=
  ∀ i < ms.length,place (id,first+i)=(ms.getD i VSM_CLR).place

lemma EntriesAt.tail {first : ℕ} {m : VsMap} {ms : List VsMap}
    (h : EntriesAt place id first (m::ms)) : EntriesAt place id (first+1) ms := by
  intro i hi
  have hnext := h (i+1) (succ_lt_succ hi)
  rw [getD_cons_succ] at hnext
  rw [←hnext]
  congr 2
  omega

lemma EntriesAt.erase {start first : ℕ} {ms : List VsMap} (h : EntriesAt place id first ms) :
    EntriesAt (erase place id start first) id first ms := by
  intro i hi
  rw [Pager.erase,if_neg (by omega)]
  exact h i hi

lemma ps_dealloc_vsmap_done (ms : List VsMap) (first : ℕ) {s : PagingSegments}
    (hok : PagingSegments.StoreOK place s) (hms : EntriesAt place id first ms) :
    ∃ s',ps_dealloc_vsmap ms s=some s' ∧
      PagingSegments.StoreOK (erase place id first (first+ms.length)) s' := by
  induction ms generalizing place first s with
  | nil =>
    refine ⟨s,rfl,?_⟩
    rw [length_nil,add_zero,erase_self]
    exact hok
  | cons m ms ih =>
    have hplace : place (id,first)=m.place := hms 0 (succ_pos _)
    have hrest : EntriesAt (erase place id first (first+1)) id (first+1) ms := hms.tail.erase
    have hlast : erase (erase place id first (first+1)) id (first+1) (first+1+ms.length) =
        erase place id first (first+(m::ms).length) := by
      rw [erase_erase (by omega) (by omega),length_cons]
      congr 1
      omega
    rw [ps_dealloc_vsmap]
    by_cases hm : m.VSM_ISCLR=false ∧ m.vsmap_error=false
    · rw [if_pos hm]
      obtain ⟨s',hs',hok'⟩ := hok.deallocate
        (hplace.trans (place_eq_some_iff.mpr ⟨hm.1,hm.2,rfl,rfl⟩))
      rw [hs']
      rw [←erase_succ] at hok'
      obtain ⟨s2,hs2,hok2⟩ := ih (first+1) hok' hrest
      exact ⟨s2,hs2,hlast▸hok2⟩
    · rw [if_neg hm]
      have hnone : m.place=none := by
        rw [VsMap.place,if_pos]
        by_contra hcon
        obtain ⟨h1,h2⟩ := not_or.mp hcon
        exact hm ⟨Bool.eq_false_iff.mpr h1,Bool.eq_false_iff.mpr h2⟩
      have hsame : erase place id first (first+1)=place := by
        rw [erase_succ,update_eq_self_iff,hplace,hnone]
      obtain ⟨s2,hs2,hok2⟩ := ih (first+1) (hsame▸hok) hrest
      exact ⟨s2,hs2,hlast▸hok2⟩

lemma deallocBlocks_done (bs : List (Option (List VsMap))) (b : ℕ) {s : PagingSegments}
    (hok : PagingSegments.StoreOK place s)
    (hlength : ∀ {ms},some ms∈bs → ms.length=CLMAP_ENTRIES)
    (hbs : ∀ i<bs.length,∀ j<CLMAP_ENTRIES,
      place (id,(b+i)*CLMAP_ENTRIES+j)=(((bs.getD i none).getD []).getD j VSM_CLR).place) :
    ∃ s',deallocBlocks bs s=some s' ∧ PagingSegments.StoreOK
      (erase place id (b*CLMAP_ENTRIES) ((b+bs.length)*CLMAP_ENTRIES)) s' := by
  induction bs generalizing place b s with
  | nil =>
    refine ⟨s,rfl,?_⟩
    rw [length_nil,add_zero,erase_self]
    exact hok
  | cons entries bs ih =>
    have hle : b*CLMAP_ENTRIES≤(b+1)*CLMAP_ENTRIES := mul_le_mul_right _ (by omega)
    have hle' : (b+1)*CLMAP_ENTRIES≤(b+1+bs.length)*CLMAP_ENTRIES :=
      mul_le_mul_right _ (by omega)
    have hlast : erase (erase place id (b*CLMAP_ENTRIES) ((b+1)*CLMAP_ENTRIES)) id
        ((b+1)*CLMAP_ENTRIES) ((b+1+bs.length)*CLMAP_ENTRIES) =
        erase place id (b*CLMAP_ENTRIES) ((b+(entries::bs).length)*CLMAP_ENTRIES) := by
      rw [erase_erase hle hle',length_cons,
        show b+1+bs.length=b+(bs.length+1) by omega]
    have hrest : ∀ i<bs.length,∀ j<CLMAP_ENTRIES,
        erase place id (b*CLMAP_ENTRIES) ((b+1)*CLMAP_ENTRIES)
          (id,(b+1+i)*CLMAP_ENTRIES+j)=(((bs.getD i none).getD []).getD j VSM_CLR).place := by
      intro i hi j hj
      have hnext := hbs (i+1) (succ_lt_succ hi) j hj
      rw [getD_cons_succ] at hnext
      rw [←hnext,erase,if_neg,show b+1+i=b+(i+1) by omega]
      have hmul : (b+1)*CLMAP_ENTRIES≤(b+1+i)*CLMAP_ENTRIES :=
        mul_le_mul_right _ (by omega)
      omega
    have hfirst : ∀ j<CLMAP_ENTRIES,place (id,b*CLMAP_ENTRIES+j) =
        ((entries.getD []).getD j VSM_CLR).place := fun j hj => hbs 0 (succ_pos _) j hj
    cases entries with
    | none =>
      rw [deallocBlocks]
      have hsame : erase place id (b*CLMAP_ENTRIES) ((b+1)*CLMAP_ENTRIES)=place := by
        funext x
        rw [erase]
        split_ifs with hx
        · obtain ⟨h1,h2,h3⟩ := hx
          have hplace := hfirst (x.2-b*CLMAP_ENTRIES) (by rw [succ_mul] at h3; omega)
          rw [←h1,Nat.add_sub_cancel' h2] at hplace
          exact hplace.symm
        · rfl
      obtain ⟨s2,hs2,hok2⟩ := ih (b+1) (hsame▸hok)
        (fun hm => hlength (mem_cons_of_mem _ hm)) hrest
      exact ⟨s2,hs2,hlast▸hok2⟩
    | some ms =>
      rw [deallocBlocks]
      have hlen : ms.length=CLMAP_ENTRIES := hlength mem_cons_self
      obtain ⟨s',hs',hok'⟩ := ps_dealloc_vsmap_done ms (b*CLMAP_ENTRIES) hok
        fun i hi => hfirst i (hlen▸hi)
      rw [hs']
      rw [hlen,←succ_mul] at hok'
      obtain ⟨s2,hs2,hok2⟩ := ih (b+1) hok' (fun hm => hlength (mem_cons_of_mem _ hm)) hrest
      exact ⟨s2,hs2,hlast▸hok2⟩

lemma ps_vstruct_dealloc_done {s : PagingSegments} {vs : Vstruct} (hshape : vs.Shape)
    (hok : PagingSegments.StoreOK (withObject place id vs) s) :
    ∃ s',ps_vstruct_dealloc s vs=some s' ∧
      PagingSegments.StoreOK (fun x => if x.1=id then none else place x) s' := by
  -- all entries behind the map are clear
  have hall : ∀ last,(∀ c,last≤c → (vs.entry c).place=none) →
      erase (withObject place id vs) id 0 last=fun x => if x.1=id then none else place x := by
    intro last hlast
    funext x
    rw [erase,withObject]
    by_cases hx : x.1=id
    · rw [if_pos hx,if_pos hx]
      split_ifs with h
      · rfl
      · exact hlast x.2 (by omega)
    · rw [if_neg (fun h => hx h.1),if_neg hx,if_neg hx]
  have hentry : ∀ c,withObject place id vs (id,c)=(vs.entry c).place := by
    intro c
    rw [withObject,if_pos rfl]
  rw [ps_vstruct_dealloc]
  cases hmap : vs.map with
  | direct dmap =>
    have hlength := (hshape.direct hmap).1
    dsimp only
    rw [←hlength,take_length]
    obtain ⟨s',hs',hok'⟩ := ps_dealloc_vsmap_done dmap 0 hok fun i hi => by
      rw [zero_add,hentry,Vstruct.entry,hmap]
    refine ⟨s',hs',?_⟩
    rw [zero_add,hall] at hok'
    · exact hok'
    · intro c hc
      rw [Vstruct.entry,hmap]
      dsimp only
      rw [getD_eq_getElem?_getD,getElem?_eq_none hc]
      rfl
  | indirect imap =>
    obtain ⟨hlength,-,hblocks⟩ := hshape.indirect hmap
    dsimp only
    rw [←hlength,take_length]
    obtain ⟨s',hs',hok'⟩ := deallocBlocks_done imap 0 hok hblocks fun i hi j hj => by
      rw [zero_add,hentry,Vstruct.entry,hmap]
      dsimp only
      rw [mul_comm,mul_add_div (by decide),div_eq_of_lt hj,add_zero,mul_add_mod,mod_eq_of_lt hj]
    refine ⟨s',hs',?_⟩
    rw [zero_add,zero_mul,hall] at hok'
    · exact hok'
    · intro c hc
      rw [Vstruct.entry,hmap]
      dsimp only
      have hc' : imap.length≤c/CLMAP_ENTRIES := (le_div_iff_mul_le (by decide)).mpr hc
      have hget : imap.getD (c/CLMAP_ENTRIES) none=none := by
        rw [getD_eq_getElem?_getD,getElem?_eq_none hc']
        rfl
      rw [hget]
      rfl

end Dealloc

section Lookup
variable {s s' : PagingSegments} {vs vs' : Vstruct} {page : ℕ}

lemma findBlock_of_place {cluster : ℕ} {k : ℕ × ℕ} (h : (vs.entry cluster).place=some k)
    (allocate : Bool) : vs.findBlock cluster allocate=some vs ∧
      ∃ entries,vs.block cluster=some entries := by
  rw [Vstruct.findBlock,Vstruct.block]
  rw [Vstruct.entry] at h
  cases hmap : vs.map with
  | direct dmap => exact ⟨rfl,dmap,rfl⟩
  | indirect imap =>
    rw [hmap] at h
    dsimp only at h ⊢
    cases hb : imap.getD (cluster/CLMAP_ENTRIES) none with
    | none =>
      rw [hb] at h
      cases h
    | some entries => exact ⟨rfl,entries,rfl⟩

lemma Allocated.ps_clmap_eq {k : ℕ × ℕ} (ha : Allocated vs page k) (hshape : vs.Shape)
    (s : PagingSegments) (kalloc : ℕ → Bool) : ∃ clmap,ps_clmap s vs page .CL_FIND 0 0 kalloc =
      some (.found clmap (k.2*2^vs.vs_clshift+page%2^vs.vs_clshift),s,vs) ∧ clmap.cl_ps=k.1 := by
  obtain ⟨hlt,hplace,-⟩ := ha
  obtain ⟨m,hm⟩ : ∃ m,m=vs.entry (page/2^vs.vs_clshift) := ⟨_,rfl⟩
  obtain ⟨hclr,herror,hps,hentry⟩ := place_eq_some_iff.mp hplace
  obtain ⟨hfind,entries,hb⟩ := findBlock_of_place hplace
    (decide (ClFlag.CL_FIND=.CL_ALLOC ∧ kalloc 2=true))
  have hextend : vs.ps_map_extend (page/2^vs.vs_clshift+1) kalloc=some vs := by
    rw [Vstruct.ps_map_extend,if_pos (by omega)]
  rw [←hm] at hclr herror hps hentry
  refine ⟨⟨m.vsmap_psindex,2^vs.vs_clshift-page%2^vs.vs_clshift,
    m.vsmap_bmap>>>(page%2^vs.vs_clshift),m.vsmap_alloc>>>(page%2^vs.vs_clshift)⟩,?_,hps⟩
  rw [ps_clmap,if_neg (by omega)]
  simp only [hextend,hfind,hb,getD_some]
  rw [clmapEntry.eq_def]
  simp only [hshape.entry_eq hlt hb,←hm,herror,hclr,Bool.false_eq_true,if_false]
  rw [clmapUse,hentry]
  rfl

lemma clmapUse_allocated {j newcl size error p : ℕ} {m : VsMap} {clmap : Clmap} (hshape : vs.Shape)
    (hlt : page/2^vs.vs_clshift<vs.vs_size) {entries : List VsMap}
    (hb : vs.block (page/2^vs.vs_clshift)=some entries) (hm : m.place=some (j,newcl))
    (h : clmapUse s vs page m newcl .CL_ALLOC size error=some (.found clmap p,s',vs')) :
    p=newcl*2^vs.vs_clshift+page%2^vs.vs_clshift ∧
      ∀ q,page≤q → q<page+size → q/2^vs.vs_clshift=page/2^vs.vs_clshift →
        Allocated vs' q (clmap.cl_ps,newcl) := by
  rw [clmapUse] at h
  obtain ⟨hresult,hstate⟩ := Prod.mk.inj (some.inj h)
  injection hresult with hclmap hp
  obtain ⟨-,hvs⟩ := Prod.mk.inj hstate
  refine ⟨hp.symm,fun q h1 h2 hq => ?_⟩
  obtain ⟨-,hsize,hshift⟩ := hshape.store (page/2^vs.vs_clshift)
    (m.VSM_SETALLOC (min size (2^vs.vs_clshift-page%2^vs.vs_clshift)) (page%2^vs.vs_clshift))
  rw [←hvs,Allocated,hshift,hsize,hq,hshape.entry_store hlt hb,if_pos rfl]
  refine ⟨hlt,?_,?_⟩
  · rw [←hclmap]
    refine (place_congr rfl rfl rfl).trans (hm.trans ?_)
    rw [←(place_eq_some_iff.mp hm).2.2.1]
    rfl
  · have hpow : 2^vs.vs_clshift≤2^3 := Nat.pow_le_pow_right (by decide) hshape.clshift
    have hmod := Nat.mod_lt q (Nat.two_pow_pos vs.vs_clshift)
    have hdivq := Nat.div_add_mod q (2^vs.vs_clshift)
    have hdiv := div_add_mod page (2^vs.vs_clshift)
    rw [hq] at hdivq
    rw [VsMap.VSM_SETALLOC,getLsbD_setPages,decide_eq_true (by omega),Bool.or_true]

lemma allocated_of_ps_clmap {place : ℕ × ℕ → Option (ℕ × ℕ)} {id size error p : ℕ}
    {kalloc : ℕ → Bool} {clmap : Clmap} (hshape : vs.Shape)
    (hok : PagingSegments.StoreOK (withObject place id vs) s)
    (h : ps_clmap s vs page .CL_ALLOC size error kalloc=some (.found clmap p,s',vs')) :
    ∃ cl,p=cl*2^vs.vs_clshift+page%2^vs.vs_clshift ∧
      ∀ q,page≤q → q<page+size → q/2^vs.vs_clshift=page/2^vs.vs_clshift →
        Allocated vs' q (clmap.cl_ps,cl) := by
  rw [ps_clmap,if_neg (fun h => by cases h.2)] at h
  cases hext : vs.ps_map_extend (page/2^vs.vs_clshift+1) kalloc with
  | none =>
    rw [hext] at h
    cases h
  | some vs1 =>
    obtain ⟨hshape1,hentry1,hsize1,hshift1⟩ := hshape.extend hext
    have hlt1 : page/2^vs.vs_clshift<vs1.vs_size := by omega
    obtain ⟨allocate,hallocate⟩ : ∃ allocate,
      allocate=decide (ClFlag.CL_ALLOC=.CL_ALLOC ∧ kalloc 2=true) := ⟨_,rfl⟩
    rw [←hallocate] at h
    simp only [hext] at h
    cases hfind : vs1.findBlock (page/2^vs.vs_clshift) allocate with
    | none =>
      simp only [hfind] at h
      cases h
    | some vs2 =>
      obtain ⟨hshape2,hentry2,hsize2,hshift2,entries,hb⟩ := hshape1.findBlock hlt1 hfind
      have hentry : ∀ c,vs2.entry c=vs.entry c := fun c => (hentry2 c).trans (hentry1 c)
      have hshift : vs2.vs_clshift=vs.vs_clshift := hshift2.trans hshift1
      have hok2 : PagingSegments.StoreOK (withObject place id vs2) s := by
        rw [withObject_of_entry fun c => congrArg VsMap.place (hentry c)]
        exact hok
      simp only [hfind,hb,getD_some] at h
      rw [←hshift] at hb hlt1 ⊢
      have hlt2 : page/2^vs2.vs_clshift<vs2.vs_size := by omega
      rw [clmapEntry.eq_def] at h
      simp only [hshape2.entry_eq hlt2 hb] at h
      by_cases herr : (vs2.entry (page/2^vs2.vs_clshift)).vsmap_error=true
      · rw [if_pos herr] at h
        cases h
      rw [if_neg herr] at h
      by_cases hclr : (vs2.entry (page/2^vs2.vs_clshift)).VSM_ISCLR=true
      · rw [if_pos hclr] at h
        have hnone : withObject place id vs2 (id,page/2^vs2.vs_clshift)=none := by
          rw [withObject,if_pos rfl,VsMap.place,if_pos (.inl hclr)]
        rcases hok2.allocate hnone vs2.vs_clshift with ⟨s2,hs2,-⟩ | ⟨j,cl,s2,hs2,hj,hcl,-⟩
        · rw [hs2] at h
          cases h
        · rw [hs2] at h
          exact ⟨cl,clmapUse_allocated hshape2 hlt2 hb (place_new hj hcl) h⟩
      · rw [if_neg hclr] at h
        exact ⟨_,clmapUse_allocated hshape2 hlt2 hb
          (by rw [VsMap.place,if_neg (not_or.mpr ⟨hclr,herr⟩)]) h⟩

end Lookup

end Darwin.Pager
