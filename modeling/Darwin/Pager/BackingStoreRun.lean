import Darwin.Pager.BackingStore

/-! Runs of calls on any paging objects over any paging segments: which clusters are used, and
where a page is found. -/
open Function Option List Nat
namespace Darwin.Pager
open Lib Lib.BitWords

/-- The paging segments, and the paging objects that have clusters in them. -/
structure BackingStore where
  segments : PagingSegments
  vstruct : ℕ → Option Vstruct

inductive Call
  | ps_clmap (id page : ℕ) (flag : ClFlag) (size error : ℕ) (kalloc : ℕ → Bool)
  | ps_clunmap (id page length : ℕ)
  | ps_map_extend (id new_size : ℕ) (kalloc : ℕ → Bool)
  | ps_vstruct_dealloc (id : ℕ)

namespace BackingStore

def set (b : BackingStore) (id : ℕ) (s : PagingSegments) (vs : Option Vstruct) : BackingStore :=
  ⟨s,update b.vstruct id vs⟩

/-- A call, with what `ps_clmap` tells; `none` where it panics or there is no such object. -/
def call (b : BackingStore) : Call → Option (Option ClmapResult × BackingStore)
  | .ps_clmap id page flag size error kalloc =>
    (b.vstruct id).bind fun vs =>
      (Pager.ps_clmap b.segments vs page flag size error kalloc).map fun r =>
        (some r.1,b.set id r.2.1 (some r.2.2))
  | .ps_clunmap id page length =>
    (b.vstruct id).bind fun vs =>
      (Pager.ps_clunmap b.segments vs page length).map fun r => (none,b.set id r.1 (some r.2))
  | .ps_map_extend id new_size kalloc =>
    (b.vstruct id).map fun vs =>
      (none,b.set id b.segments (some ((vs.ps_map_extend new_size kalloc).getD vs)))
  | .ps_vstruct_dealloc id =>
    (b.vstruct id).bind fun vs =>
      (Pager.ps_vstruct_dealloc b.segments vs).map fun s => (none,b.set id s none)

def place (b : BackingStore) (x : ℕ × ℕ) : Option (ℕ × ℕ) :=
  (b.vstruct x.1).bind fun vs => (vs.entry x.2).place

/-- The object exists. A write that ends with an error is not one to cluster 0 of its segment,
and what is unmapped is inside the map and in no entry with an error. -/
def CallOK (b : BackingStore) : Call → Prop
  | .ps_clmap id page flag size error _ => ∃ vs,b.vstruct id=some vs ∧
      (flag=.CL_FIND → size≠0 → error≠0 → ∀ j cl,
        (vs.entry (page/2^vs.vs_clshift)).place=some (j,cl) → cl≠0)
  | .ps_clunmap id page length => ∃ vs,b.vstruct id=some vs ∧ Unmappable vs page length
  | .ps_map_extend id _ _ => ∃ vs,b.vstruct id=some vs
  | .ps_vstruct_dealloc id => ∃ vs,b.vstruct id=some vs

/-- The call unmaps the page, destroys its object, or ends a write to its cluster with an
error. -/
def Loses (b : BackingStore) (id page : ℕ) : Call → Prop
  | .ps_clmap i page' flag size error _ =>
      i=id ∧ ∃ vs,b.vstruct id=some vs ∧ FailedWrite vs page' flag size error page
  | .ps_clunmap i page' length => i=id ∧ page'≤page ∧ page<page'+length
  | .ps_map_extend _ _ _ => False
  | .ps_vstruct_dealloc i => i=id

/-- The states that calls lead to, each of them allowed. -/
inductive Run (allowed : BackingStore → Call → Prop) (b : BackingStore) : BackingStore → Prop
  | refl : Run allowed b b
  | step {b1 b2 : BackingStore} {c : Call} {r : Option ClmapResult} (before : Run allowed b b1)
      (ok : allowed b1 c) (hcall : b1.call c=some (r,b2)) : Run allowed b b2

/-- No cluster is in use, and no map entry is set. -/
structure Fresh (b : BackingStore) : Prop where
  vstruct : ∀ {id vs},b.vstruct id=some vs → vs.Shape ∧ ∀ c,vs.entry c=VSM_CLR
  segment : ∀ {i ps},b.segments.segment i=some ps →
    (∀ cl<ps.ps_ncls,ps.ps_bmap cl=false) ∧ ps.ps_clcount=ps.ps_ncls ∧ ps.ps_hint=0
  small : ∀ {i ps},b.segments.segment i=some ps → i<MAX_PSEG_INDEX ∧ ps.ps_ncls≤VSM_ENTRY_NULL

/-- What every call keeps. -/
structure Right (b : BackingStore) : Prop where
  store : PagingSegments.StoreOK b.place b.segments
  shape : ∀ {id vs},b.vstruct id=some vs → vs.Shape

def PageAt (b : BackingStore) (id page : ℕ) (k : ℕ × ℕ) (clshift : ℕ) : Prop :=
  ∃ vs,b.vstruct id=some vs ∧ vs.vs_clshift=clshift ∧ Allocated vs page k

variable {b b' : BackingStore} {id : ℕ} {vs vs' : Vstruct} {s : PagingSegments}

lemma place_eq_withObject (h : b.vstruct id=some vs) : withObject b.place id vs=b.place := by
  funext x
  rw [withObject]
  split_ifs with hx
  · rw [place,hx,h,bind_some]
  · rfl

lemma place_set (b : BackingStore) (id : ℕ) (s : PagingSegments) (vs : Vstruct) :
    (b.set id s (some vs)).place=withObject b.place id vs := by
  funext x
  rw [place,set,withObject]
  dsimp only
  split_ifs with hx
  · rw [hx,update_self,bind_some]
  · rw [update_of_ne hx]
    rfl

lemma place_set_none (b : BackingStore) (id : ℕ) (s : PagingSegments) :
    (b.set id s none).place=fun x => if x.1=id then none else b.place x := by
  funext x
  rw [place,set]
  dsimp only
  split_ifs with hx
  · rw [hx,update_self,bind_none]
  · rw [update_of_ne hx]
    rfl

lemma Right.replace (h : b.Right) (hok : PagingSegments.StoreOK (withObject b.place id vs') s)
    (hshape : vs'.Shape) : (b.set id s (some vs')).Right := by
  refine ⟨?_,fun {i v} hv => ?_⟩
  · rw [place_set]
    exact hok
  · rw [BackingStore.set] at hv
    dsimp only at hv
    by_cases hi : i=id
    · rw [hi,update_self] at hv
      exact some.inj hv▸hshape
    · rw [update_of_ne hi] at hv
      exact h.shape hv

lemma Right.storeOK (h : b.Right) (hvs : b.vstruct id=some vs) :
    PagingSegments.StoreOK (withObject b.place id vs) b.segments := by
  rw [place_eq_withObject hvs]
  exact h.store

lemma PageAt.replace {i page clshift : ℕ} {k : ℕ × ℕ} {lost : ℕ → Prop}
    (h : b.PageAt i page k clshift) (hvs : b.vstruct id=some vs) (hkeeps : Keeps lost vs vs') (hnot : i=id → ¬lost page) :
    (b.set id s (some vs')).PageAt i page k clshift := by
  obtain ⟨v,hv,hshift,ha⟩ := h
  by_cases hi : i=id
  · subst hi
    obtain rfl := some.inj (hv.symm.trans hvs)
    exact ⟨vs',update_self _ _ _,hkeeps.clshift.trans hshift,hkeeps.keeps (hnot rfl) ha⟩
  · exact ⟨v,(update_of_ne hi _ _).trans hv,hshift,ha⟩

/-- An allowed call does not panic, keeps the store right, and leaves every page where it is
that it does not lose. -/
theorem Right.call_done (h : b.Right) {c : Call} (hc : b.CallOK c) :
    ∃ r b',b.call c=some (r,b') ∧ b'.Right ∧
      ∀ {i page clshift : ℕ} {k : ℕ × ℕ},¬b.Loses i page c → b.PageAt i page k clshift →
        b'.PageAt i page k clshift := by
  cases c with
  | ps_clmap id page flag size error kalloc =>
    obtain ⟨vs,hvs,hzero⟩ := hc
    obtain ⟨result,s',vs',hr,hok,hkeeps⟩ :=
      ps_clmap_done kalloc (h.shape hvs) (h.storeOK hvs) hzero
    refine ⟨some result,b.set id s' (some vs'),?_,h.replace hok hkeeps.shape,
      fun {i p _ _} hnot hat =>
        hat.replace hvs hkeeps fun hi hlost => hnot ⟨hi.symm,vs,hi▸hvs,hlost⟩⟩
    rw [BackingStore.call,hvs,bind_some,hr]
    rfl
  | ps_clunmap id page length =>
    obtain ⟨vs,hvs,hrange⟩ := hc
    obtain ⟨s',vs',hr,hok,hkeeps⟩ := ps_clunmap_done (h.shape hvs) (h.storeOK hvs) hrange
    refine ⟨none,b.set id s' (some vs'),?_,h.replace hok hkeeps.shape,fun {i p _ _} hnot hat =>
      hat.replace hvs hkeeps fun hi hlost => hnot ⟨hi.symm,hlost⟩⟩
    rw [BackingStore.call,hvs,bind_some,hr]
    rfl
  | ps_map_extend id new_size kalloc =>
    obtain ⟨vs,hvs⟩ := hc
    have hkeeps : Keeps (fun _ => False) vs ((vs.ps_map_extend new_size kalloc).getD vs) := by
      cases hext : vs.ps_map_extend new_size kalloc with
      | none => exact Keeps.refl (h.shape hvs)
      | some vs1 =>
        obtain ⟨hshape1,hentry1,hsize1,hshift1⟩ := (h.shape hvs).extend hext
        exact Keeps.of_entry hshape1 hshift1 (hsize1▸le_max_left _ _) hentry1
    have hentry : ∀ c,((vs.ps_map_extend new_size kalloc).getD vs).entry c=vs.entry c := by
      cases hext : vs.ps_map_extend new_size kalloc with
      | none => exact fun _ => rfl
      | some vs1 => exact ((h.shape hvs).extend hext).2.1
    refine ⟨none,b.set id b.segments (some ((vs.ps_map_extend new_size kalloc).getD vs)),?_,
      h.replace ?_ hkeeps.shape,fun {i p _ _} _ hat => hat.replace hvs hkeeps fun _ hlost => hlost⟩
    · rw [BackingStore.call,hvs,map_some]
    · rw [withObject_of_entry fun c => congrArg VsMap.place (hentry c)]
      exact h.storeOK hvs
  | ps_vstruct_dealloc id =>
    obtain ⟨vs,hvs⟩ := hc
    obtain ⟨s',hs',hok⟩ := ps_vstruct_dealloc_done (h.shape hvs) (h.storeOK hvs)
    refine ⟨none,b.set id s' none,?_,⟨?_,fun {i v} hv => ?_⟩,fun {i p _ _} hnot hat => ?_⟩
    · rw [BackingStore.call,hvs,bind_some,hs']
      rfl
    · rw [place_set_none]
      exact hok
    · rw [BackingStore.set] at hv
      dsimp only at hv
      by_cases hi : i=id
      · rw [hi,update_self] at hv
        cases hv
      · rw [update_of_ne hi] at hv
        exact h.shape hv
    · obtain ⟨v,hv,hshift,ha⟩ := hat
      exact ⟨v,(update_of_ne (fun hi => hnot hi.symm) _ _).trans hv,hshift,ha⟩

lemma Fresh.right (h : b.Fresh) : b.Right := by
  have hplace : ∀ x,b.place x=none := by
    intro x
    rw [place]
    cases hvs : b.vstruct x.1 with
    | none => rfl
    | some vs => rw [bind_some,(h.vstruct hvs).2,place_clr]
  refine ⟨⟨⟨fun k => ?_,fun {x y k} hx _ => ?_⟩,fun {i ps} hps => ?_,h.small⟩,
    fun hvs => (h.vstruct hvs).1⟩
  · constructor
    · rintro ⟨ps,hps,hlt,hset⟩
      rw [(h.segment hps).1 _ hlt] at hset
      cases hset
    · rintro ⟨x,hx⟩
      rw [hplace] at hx
      cases hx
  · rw [hplace] at hx
    cases hx
  · obtain ⟨hclear,hcount,hhint⟩ := h.segment hps
    refine ⟨?_,fun cl _ _ => hhint▸zero_le _⟩
    rw [hcount,clearBelow_of_clear (zero_le _) fun cl _ hlt => hclear cl hlt,clearBelow,
      Nat.count_zero,Nat.zero_add,Nat.sub_zero]

lemma Run.right {allowed : BackingStore → Call → Prop} (hrun : Run allowed b b')
    (hall : ∀ {b c},allowed b c → CallOK b c) (h : b.Right) : b'.Right := by
  induction hrun with
  | refl => exact h
  | step before ok hcall ih =>
    obtain ⟨r,b2,hb2,hright,-⟩ := ih.call_done (hall ok)
    obtain ⟨-,rfl⟩ := Prod.mk.inj (some.inj (hb2.symm.trans hcall))
    exact hright

lemma Run.pageAt {page clshift : ℕ} {k : ℕ × ℕ} (h : b.Right)
    (hrun : Run (fun b c => b.CallOK c ∧ ¬b.Loses id page c) b b')
    (hat : b.PageAt id page k clshift) : b'.PageAt id page k clshift := by
  induction hrun with
  | refl => exact hat
  | step before ok hcall ih =>
    obtain ⟨r,b2,hb2,-,hpage⟩ := (before.right (fun hall => hall.1) h).call_done ok.1
    obtain ⟨-,rfl⟩ := Prod.mk.inj (some.inj (hb2.symm.trans hcall))
    exact hpage ok.2 ih

lemma PageAt.lookup {page clshift : ℕ} {k : ℕ × ℕ} (hat : b.PageAt id page k clshift)
    (h : b.Right) (kalloc : ℕ → Bool) : ∃ clmap,b.call (.ps_clmap id page .CL_FIND 0 0 kalloc) =
      some (some (.found clmap (k.2*2^clshift+page%2^clshift)),b) ∧ clmap.cl_ps=k.1 := by
  obtain ⟨vs,hvs,rfl,ha⟩ := hat
  obtain ⟨clmap,hclmap,hps⟩ := ha.ps_clmap_eq (h.shape hvs) b.segments kalloc
  refine ⟨clmap,?_,hps⟩
  rw [call,hvs,bind_some,hclmap,map_some,set,←hvs,update_eq_self]

lemma Right.pageAt {page size error p : ℕ} {kalloc : ℕ → Bool} {clmap : Clmap} (h : b.Right)
    (hvs : b.vstruct id=some vs)
    (hcall : b.call (.ps_clmap id page .CL_ALLOC size error kalloc) =
      some (some (.found clmap p),b')) : ∃ cl,p=cl*2^vs.vs_clshift+page%2^vs.vs_clshift ∧
      ∀ q,page≤q → q<page+size → q/2^vs.vs_clshift=page/2^vs.vs_clshift →
        b'.PageAt id q (clmap.cl_ps,cl) vs.vs_clshift := by
  have hdone : ClmapDone b.place id vs (FailedWrite vs page .CL_ALLOC size error)
      (ps_clmap b.segments vs page .CL_ALLOC size error kalloc) :=
    ps_clmap_done kalloc (h.shape hvs) (h.storeOK hvs) fun hf => by cases hf
  obtain ⟨result,s',vs',hr,-,hkeeps⟩ := hdone
  rw [call,hvs,bind_some,hr,map_some] at hcall
  obtain ⟨hresult,rfl⟩ := Prod.mk.inj (some.inj hcall)
  obtain rfl : result=.found clmap p := some.inj hresult
  obtain ⟨cl,hp,hpages⟩ := allocated_of_ps_clmap (h.shape hvs) (h.storeOK hvs) hr
  exact ⟨cl,hp,fun q h1 h2 hq => ⟨vs',update_self _ _ _,hkeeps.clshift,hpages q h1 h2 hq⟩⟩

/-- From a fresh store, with segments of fewer than 2^23 clusters, calls of `ps_clmap`,
`ps_clunmap`, `ps_map_extend` and `ps_vstruct_dealloc` are made in any order, with any of their
allocations failing, such that no write to cluster 0 of a segment ends with an error and no
entry with an error is unmapped. Then none of them panics, a cluster is marked used exactly when
one map entry names it, the counts and hints of the segments are right, a grown map has every
earlier entry, and a page that was allocated is found at the same place until it is unmapped, its
object is destroyed, or a write to its cluster ends with an error. -/
theorem Run.store_correct {b0 : BackingStore} (hfresh : b0.Fresh) (hrun : Run CallOK b0 b) :
    (∀ c,b.CallOK c → ∃ r b',b.call c=some (r,b')) ∧
    (∀ j cl,(∃ ps,b.segments.segment j=some ps ∧ cl<ps.ps_ncls ∧ ps.ps_bmap cl=true) ↔
      ∃! x : ℕ × ℕ,b.place x=some (j,cl)) ∧
    (∀ j ps,b.segments.segment j=some ps → ps.ps_clcount=clearBelow ps.ps_bmap ps.ps_ncls ∧
      ∀ cl<ps.ps_ncls,ps.ps_bmap cl=false → ps.ps_hint≤cl/NBBY) ∧
    (∀ id vs new_size kalloc vs',b.vstruct id=some vs →
      vs.ps_map_extend new_size kalloc=some vs' → new_size≤vs'.vs_size ∧
      ∀ c,vs'.entry c=vs.entry c) ∧ ∀ id vs page size error kalloc clmap p b1,b.vstruct id=some vs →
      b.call (.ps_clmap id page .CL_ALLOC size error kalloc)=some (some (.found clmap p),b1) →
      ∀ q,page≤q → q<page+size → q/2^vs.vs_clshift=page/2^vs.vs_clshift →
      ∀ b2,Run (fun b c => b.CallOK c ∧ ¬b.Loses id q c) b1 b2 →
      ∀ kalloc,∃ clmap',b2.call (.ps_clmap id q .CL_FIND 0 0 kalloc) =
        some (some (.found clmap' (p+(q-page))),b2) ∧ clmap'.cl_ps=clmap.cl_ps := by
  have h : b.Right := hrun.right (fun hc => hc) hfresh.right
  refine ⟨fun c hc => ?_,fun j cl => h.store.owns.existsUnique_iff (j,cl),fun j ps hps => ?_,
    fun id vs new_size kalloc vs' hvs hext => ?_,?_⟩
  · obtain ⟨r,b',hb',-⟩ := h.call_done hc
    exact ⟨r,b',hb'⟩
  · obtain ⟨hcount,hhint⟩ := h.store.segment hps
    exact ⟨hcount,hhint⟩
  · obtain ⟨-,hentry,hsize,-⟩ := (h.shape hvs).extend hext
    exact ⟨hsize▸le_max_right _ _,hentry⟩
  · intro id vs page size error kalloc clmap p b1 hvs hcall q h1 h2 hq b2 hrun2 kalloc2
    obtain ⟨cl,hp,hpages⟩ := h.pageAt hvs hcall
    obtain ⟨r,b1',hb1,hright,-⟩ := h.call_done (c := .ps_clmap id page .CL_ALLOC size error kalloc)
      ⟨vs,hvs,fun hf => by cases hf⟩
    obtain ⟨-,rfl⟩ := Prod.mk.inj (some.inj (hb1.symm.trans hcall))
    have hright2 : b2.Right := hrun2.right (fun hc => hc.1) hright
    obtain ⟨clmap',hclmap,hps⟩ := (hrun2.pageAt hright (hpages q h1 h2 hq)).lookup hright2 kalloc2
    refine ⟨clmap',?_,hps⟩
    have hdiv := div_add_mod page (2^vs.vs_clshift)
    have hdivq := div_add_mod q (2^vs.vs_clshift)
    rw [hq] at hdivq
    rw [hclmap,hp,show cl*2^vs.vs_clshift+page%2^vs.vs_clshift+(q-page) =
      cl*2^vs.vs_clshift+q%2^vs.vs_clshift by omega]

def clearObject (n : ℕ) : Vstruct := ⟨0,n,.direct (replicate n VSM_CLR)⟩

lemma clearObject_fresh {n : ℕ} (hn : n≤CLMAP_ENTRIES) :
    (clearObject n).Shape ∧ ∀ c,(clearObject n).entry c=VSM_CLR := by
  refine ⟨⟨fun {dmap} hmap => ?_,fun {imap} hmap => ?_,zero_le _⟩,fun c => ?_⟩
  · injection hmap with hmap
    rw [←hmap,length_replicate]
    exact ⟨rfl,hn⟩
  · cases hmap
  · rw [clearObject,Vstruct.entry]
    dsimp only
    rw [←nil_append (replicate _ _),Vstruct.getD_append_replicate,getD_nil]

/-- Two objects, of one page and of five, over one segment of sixteen clusters of a page. -/
def twoObjects : BackingStore where
  segments := {
    segment := fun i => if i=0 then some ⟨16,0,fun _ => false,16,0,false,0⟩ else none
    paging_segment_count := 1
    paging_segment_max := 0
    ps_select_array := fun i => if i=0 then .index 0 else .BS_NOPRI
    physical_transfer_cluster_count := 0}
  vstruct := fun id =>
    if id=0 then some (clearObject 1) else if id=1 then some (clearObject 5) else none

lemma twoObjects_fresh : twoObjects.Fresh := by
  refine ⟨fun {id vs} hvs => ?_,fun {i ps} hps => ?_,fun {i ps} hps => ?_⟩
  · rw [twoObjects] at hvs
    dsimp only at hvs
    split_ifs at hvs
    · exact some.inj hvs▸clearObject_fresh (by decide)
    · exact some.inj hvs▸clearObject_fresh (by decide)
  · rw [twoObjects] at hps
    dsimp only at hps
    split_ifs at hps
    rw [←some.inj hps]
    exact ⟨fun _ _ => rfl,rfl,rfl⟩
  · rw [twoObjects] at hps
    dsimp only at hps
    split_ifs at hps with hi
    rw [←some.inj hps,hi]
    decide

/-- An allocation in the first of two objects. -/
theorem twoObjects_run : ∃ r b,twoObjects.call (.ps_clmap 0 0 .CL_ALLOC 1 0 fun _ => true) =
    some (r,b) ∧ ∀ j ps,b.segments.segment j=some ps →
      ps.ps_clcount=clearBelow ps.ps_bmap ps.ps_ncls ∧
      ∀ cl<ps.ps_ncls,ps.ps_bmap cl=false → ps.ps_hint≤cl/NBBY := by
  obtain ⟨r,b,hcall⟩ : ∃ r b,twoObjects.call (.ps_clmap 0 0 .CL_ALLOC 1 0 fun _ => true) =
    some (r,b) := ⟨_,_,rfl⟩
  refine ⟨r,b,hcall,(Run.store_correct twoObjects_fresh (.step .refl ?_ hcall)).2.2.1⟩
  exact ⟨clearObject 1,rfl,fun hf => by cases hf⟩

def calls (b : BackingStore) : List Call → Option BackingStore
  | [] => some b
  | c::cs => (b.call c).bind fun r => r.2.calls cs

/-- The write of the page of the first object ends with error 5. Unmapping that page then frees
cluster 5, which a map entry of the second object names. -/
theorem failedWrite_frees_other : twoObjects.Fresh ∧ ∃ b,twoObjects.calls [
      .ps_clmap 0 0 .CL_ALLOC 1 0 fun _ => true,
      .ps_clmap 1 0 .CL_ALLOC 1 0 fun _ => true,
      .ps_clmap 1 1 .CL_ALLOC 1 0 fun _ => true,
      .ps_clmap 1 2 .CL_ALLOC 1 0 fun _ => true,
      .ps_clmap 1 3 .CL_ALLOC 1 0 fun _ => true,
      .ps_clmap 1 4 .CL_ALLOC 1 0 fun _ => true,
      .ps_clmap 0 0 .CL_FIND 1 5 fun _ => true,
      .ps_clunmap 0 0 1]=some b ∧ b.place (1,4)=some (0,5) ∧ (0,5)∉b.segments.used := by
  refine ⟨twoObjects_fresh,_,rfl,rfl,?_⟩
  rintro ⟨ps,hps,-,hset⟩
  rw [←some.inj hps] at hset
  cases hset

end BackingStore
end Darwin.Pager
