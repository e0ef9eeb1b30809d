import Darwin.Hfs.ReaddirPosition

/-! Calls of `hfs_readdir` in a folder and elsewhere. -/
open List Option Nat
namespace Darwin.Hfs.Readdir
open Lib

variable {V N : Type} [LinearOrder N] [OrderBot N]
variable {vcb : ExtendedVCB N} {tree : SortedMap (CatalogKey N) CatalogRecord}
variable {volume : V} {dirID : ℕ} {cache : CatalogCacheGlobals V N}

section Standing

def Standing (vcb : ExtendedVCB N) (tree : SortedMap (CatalogKey N) CatalogRecord) (volume : V)
    (dirID : ℕ) (longName : N) (cip : CatalogIterator V N) : Prop :=
  cip.volume=some volume → cip.folderID=dirID →
    Place vcb tree dirID (cip.key longName) cip.currentOffset cip.nextOffset ∧
      (dirID≠cip.parentID → cip.nextOffset=noOffset)

variable {key key' : CatalogKey N} {cur next X : ℕ}

lemma Place.outside (h : Place vcb tree dirID key cur next) (hkey : dirID≠(ofLex key).1)
    (hkey' : dirID≠(ofLex key').1) (next' : ℕ) : Place vcb tree dirID key' cur next' := by
  cases h with
  | start _ _ => exact absurd rfl hkey
  | before pre e post hsplit hshown => exact absurd (child_parent hsplit).symm hkey
  | behind pre e post hsplit hshown => exact absurd (child_parent hsplit).symm hkey
  | ended _ pre post _ hsplit hshown hhidden _ =>
    exact .ended key' pre post next' hsplit hshown hhidden hkey'

lemma buffered_standing (vcb : ExtendedVCB N) (tree : SortedMap (CatalogKey N) CatalogRecord)
    (volume : V) (dirID : ℕ) : Buffered (Standing vcb tree volume dirID) := by
  refine ⟨fun name cip hnone hvolume => ?_,fun name name' cip hlive h hvolume hfolder => ?_⟩
  · rw [hnone] at hvolume
    cases hvolume
  · obtain ⟨hplace,hended⟩ := h hvolume hfolder
    refine ⟨?_,hended⟩
    cases hlong : cip.isLong with
    | false =>
      have hsame : cip.key name'=cip.key name := by
        cases hname : cip.folderName with
        | short s => rw [CatalogIterator.key,CatalogIterator.key,CatalogIterator.name,
            CatalogIterator.name,hname]
        | long =>
          rw [CatalogIterator.isLong,hname] at hlong
          cases hlong
      rwa [hsame]
    | true =>
      have hne : dirID≠cip.parentID := fun heq =>
        hlive ⟨by simp [hvolume],heq.symm.trans hfolder.symm,hlong⟩
      exact hplace.outside hne (show dirID≠(ofLex (cip.key name')).1 from hne) _

lemma Place.reads (h : Place vcb tree dirID key cur next) (hX : X<noOffset)
    (hmatch : cur=X ∨ next=X) (hended : dirID≠(ofLex key).1 → next=noOffset) :
    ∃ done rest,children tree dirID=done++rest ∧ (∀ x∈done,Shown vcb dirID x) ∧
      X=offsetBehind vcb done ∧ (dirID≠(ofLex key).1 ∧ (∀ x∈rest,Hidden vcb dirID x) ∨
        dirID=(ofLex key).1 ∧
        (cur=X → recordsFrom tree key .current=rest++later tree dirID ∧ rest≠[]) ∧
        (cur≠X → recordsFrom tree key .next=rest++later tree dirID ∧
          (rest=[] → Place vcb tree dirID key cur X))) := by
  cases h with
  | start next hnext =>
    have hcur : noOffset≠X := ne_of_gt hX
    have hnextX : next=X := hmatch.resolve_left hcur
    have hstart : next=CAT_START_OFFSET :=
      hnext.resolve_left fun heq => hcur (heq.symm.trans hnextX)
    refine ⟨[],children tree dirID,rfl,fun x hx => absurd hx not_mem_nil,
      hnextX.symm.trans hstart,.inr ⟨rfl,fun heq => absurd heq hcur,fun _ => ?_⟩⟩
    refine ⟨recordsFrom_start tree dirID,fun _ => ?_⟩
    rw [←hnextX]
    exact .start next hnext
  | before pre e post hsplit hshown =>
    have hX : offsetBehind vcb pre=X := hmatch.elim id id
    refine ⟨pre,e::post,hsplit,hshown,hX.symm,.inr ⟨(child_parent hsplit).symm,fun _ => ?_,
      fun hne => absurd hX hne⟩⟩
    exact ⟨recordsFrom_current hsplit,cons_ne_nil e post⟩
  | behind pre e post hsplit hshown =>
    by_cases hcur : offsetBehind vcb pre=X
    · refine ⟨pre,e::post,hsplit,fun x hx => hshown x (mem_append_left _ hx),hcur.symm,
        .inr ⟨(child_parent hsplit).symm,fun _ => ?_,fun hne => absurd hcur hne⟩⟩
      exact ⟨recordsFrom_current hsplit,cons_ne_nil e post⟩
    · have hnext : offsetBehind vcb (pre++[e])=X := hmatch.resolve_left hcur
      refine ⟨pre++[e],post,by rw [hsplit,append_assoc,singleton_append],hshown,
        hnext.symm,.inr ⟨(child_parent hsplit).symm,fun heq => absurd heq hcur,fun _ => ?_⟩⟩
      refine ⟨recordsFrom_next hsplit,fun _ => ?_⟩
      rw [←hnext]
      exact .behind pre e post hsplit hshown
  | ended _ pre post _ hsplit hshown hhidden hkey =>
    have hnext : next≠X := fun heq => by
      rw [hended hkey] at heq
      exact absurd heq (ne_of_gt hX)
    exact ⟨pre,post,hsplit,hshown,(hmatch.resolve_right hnext).symm,.inl ⟨hkey,hhidden⟩⟩

lemma Place.cur_lt (h : Place vcb tree dirID key cur next)
    (hsize : offsetBehind vcb (children tree dirID)<noOffset) : cur<2^32 := by
  have hle : ∀ pre post,children tree dirID=pre++post →
      offsetBehind vcb pre≤offsetBehind vcb (children tree dirID) := by
    intro pre post hsplit
    rw [hsplit,offsetBehind_append]
    exact le_add_right _ _
  have hno : noOffset<2^32 := by decide
  cases h with
  | start _ _ => exact hno
  | before pre e post hsplit hshown => exact (hle pre _ hsplit).trans_lt (hsize.trans hno)
  | behind pre e post hsplit hshown => exact (hle pre _ hsplit).trans_lt (hsize.trans hno)
  | ended _ pre post _ hsplit hshown hhidden hkey =>
    exact (hle pre _ hsplit).trans_lt (hsize.trans hno)

lemma Place.updated (h : Place vcb tree dirID key cur next) :
    Place vcb tree dirID key cur (if (ofLex key).1≠dirID then noOffset else next) := by
  by_cases hkey : dirID=(ofLex key).1
  · rwa [if_neg (not_not.mpr hkey.symm)]
  · exact h.outside hkey hkey _

end Standing

section Position

variable [DecidableEq V] {X : ℕ}

def Positions (vcb : ExtendedVCB N) (tree : SortedMap (CatalogKey N) CatalogRecord) (dirID : ℕ)
    (t : Taken V N) (X : ℕ) (rest : List (CatalogKey N × CatalogRecord)) : Prop :=
  PositionIterator vcb tree t X=none ∧ (∀ x∈rest,Hidden vcb dirID x) ∧ dirID≠t.cip.parentID ∨
    ∃ key op,PositionIterator vcb tree t X=some ⟨t,key,op⟩ ∧
      recordsFrom tree key op=rest++later tree dirID ∧ t.cip.parentID=t.cip.folderID ∧
      (rest=[] → Place vcb tree dirID key t.cip.currentOffset X)

/-- A call is served if it begins at the start of the folder or an iterator is at its offset. -/
def Served (cache : CatalogCacheGlobals V N) (volume : V) (dirID X : ℕ) : Prop :=
  X=CAT_START_OFFSET ∨ ∃ cip∈cache.iterators,cip.scores volume dirID X=true

lemma position_served (hok : FolderOk vcb tree dirID)
    (hcache : CacheOk (Standing vcb tree volume dirID) cache) (hX : X<noOffset)
    (hserved : Served cache volume dirID X) :
    ∃ done rest,children tree dirID=done++rest ∧ (∀ x∈done,Shown vcb dirID x) ∧
      X=offsetBehind vcb done ∧
      Positions vcb tree dirID (GetCatalogIterator cache volume dirID X) X rest := by
  obtain ⟨hlong,-,-,hcases⟩ := getCatalogIterator_spec hcache volume dirID X
  generalize GetCatalogIterator cache volume dirID X=t at *
  rcases hcases with ⟨hmem,hscores,-⟩ | ⟨hnone,hfresh⟩
  · rw [CatalogIterator.scores,Bool.and_eq_true,Bool.and_eq_true,Bool.or_eq_true,decide_eq_true_eq,
      decide_eq_true_eq,decide_eq_true_eq,decide_eq_true_eq] at hscores
    obtain ⟨⟨hvolume,hfolder⟩,hmatch⟩ := hscores
    obtain ⟨hplace,hended⟩ := hcache.good t.cip hmem hvolume hfolder
    rw [←hlong] at hplace
    obtain ⟨done,rest,hsplit,hshown,hoff,houtcome⟩ := hplace.reads hX hmatch hended
    refine ⟨done,rest,hsplit,hshown,hoff,?_⟩
    rcases houtcome with ⟨hne,hhidden⟩ | ⟨heq,hcurrent,hnext⟩
    · have hne : dirID≠t.cip.parentID := hne
      refine .inl ⟨?_,hhidden,hne⟩
      rw [PositionIterator,hfolder]
      exact if_pos hne
    · have heq : dirID=t.cip.parentID := heq
      have hsame : t.cip.folderID=t.cip.parentID := hfolder.trans heq
      by_cases hcur : t.cip.currentOffset=X
      · obtain ⟨hrecords,hnonempty⟩ := hcurrent hcur
        refine .inr ⟨t.cip.key t.longName,.current,?_,hrecords,hsame.symm,
          fun hnil => absurd hnil hnonempty⟩
        rw [PositionIterator,if_neg (not_not.mpr hsame),if_pos hcur]
      · obtain ⟨hrecords,hplace⟩ := hnext hcur
        refine .inr ⟨t.cip.key t.longName,.next,?_,hrecords,hsame.symm,hplace⟩
        rw [PositionIterator,if_neg (not_not.mpr hsame),if_neg hcur,
          if_pos (hmatch.resolve_left hcur)]
  · have hstart : X=CAT_START_OFFSET := by
      rcases hserved with hstart | ⟨cip,hcip,hscores⟩
      · exact hstart
      · rw [hnone cip hcip] at hscores
        cases hscores
    refine ⟨[],children tree dirID,rfl,fun x hx => absurd hx not_mem_nil,hstart,.inr ?_⟩
    have hkey : t.cip.key t.longName=toLex (dirID,⊥) := by rw [hfresh]; rfl
    refine ⟨toLex (dirID,⊥),.next,?_,recordsFrom_start tree dirID,by rw [hfresh],fun _ => ?_⟩
    · have hcur : t.cip.currentOffset≠X := by rw [hfresh]; exact ne_of_gt hX
      have hnext : t.cip.nextOffset≠X := by rw [hfresh]; exact ne_of_gt hX
      rw [PositionIterator,if_neg (by rw [hfresh]; exact not_not.mpr rfl),if_neg hcur,if_neg hnext,
        positionFromStart]
      dsimp only
      rw [hkey,if_neg (by rw [hok.thread]; exact some_ne_none _),if_pos (le_of_eq hstart)]
    · rw [hfresh,hstart]
      exact .start _ (.inr rfl)

end Position

section Calls

variable {X : ℕ}

/-- What a call returns that goes on behind the entries of `done`, with some entries moved
before. -/
structure Returned (vcb : ExtendedVCB N) (dirID uioResid : ℕ) (dots : List Dirent)
    (done rest : List (CatalogKey N × CatalogRecord)) (r : ReadResult) : Prop where
  einval : r.einval=false
  result : ∃ more rest',rest=more++rest' ∧ (∀ x∈more,Shown vcb dirID x) ∧
    r.uioOffset=offsetBehind vcb (done++more) ∧ r.moved=dots++direntsOf vcb more ∧
    (r.eofflag=true → ∀ x∈rest',Hidden vcb dirID x) ∧ (more=[] → r.eofflag=true ∨
      ∃ e∈rest.head?,Shown vcb dirID e ∧ uioResid<entrySize vcb e)

lemma readEntries_spec (hok : FolderOk vcb tree dirID)
    (hsize : offsetBehind vcb (children tree dirID)<noOffset) {t : Taken V N}
    {key : CatalogKey N} {op : BTreeIterationOperation}
    {done rest : List (CatalogKey N × CatalogRecord)} (uioResid : ℕ) (dots : List Dirent)
    (ht : TakenOk (Standing vcb tree volume dirID) t) (hfolder : t.cip.folderID=dirID)
    (hsplit : children tree dirID=done++rest) (hshown : ∀ x∈done,Shown vcb dirID x)
    (hX : X=offsetBehind vcb done)
    (hrecords : recordsFrom tree key op=rest++later tree dirID)
    (hplace : rest=[] → Place vcb tree dirID key t.cip.currentOffset X) :
    CacheOk (Standing vcb tree volume dirID)
        (readEntries vcb tree dirID X uioResid dots ⟨t,key,op⟩).1 ∧
      Returned vcb dirID uioResid dots done rest
        (readEntries vcb tree dirID X uioResid dots ⟨t,key,op⟩).2 := by
  obtain ⟨more,rest',hs⟩ := iterateLoop_spec hok rest done key
    ⟨t.cip.currentOffset,X,uioResid,dots,false⟩ hsplit hshown hX rfl
  rw [readEntries]
  dsimp only
  rw [hrecords]
  generalize iterateLoop vcb dirID (rest++later tree dirID) key
    ⟨t.cip.currentOffset,X,uioResid,dots,false⟩=r at *
  have hreached : Place vcb tree dirID r.2.1 r.1.lastoffset r.1.uioOffset := by
    rcases hs.place with hreached | ⟨hnil,hsame⟩
    · exact hreached
    · rw [hsame]
      exact hplace hnil
  have hlast : r.1.lastoffset%2^32=r.1.lastoffset := mod_eq_of_lt (hreached.cur_lt hsize)
  have hnext : r.1.uioOffset%2^32=r.1.uioOffset := by
    refine mod_eq_of_lt ?_
    have hno : noOffset<2^32 := by decide
    rw [hs.offset]
    refine lt_of_le_of_lt ?_ (hsize.trans hno)
    rw [hsplit,hs.split,←append_assoc,offsetBehind_append (done++more) rest']
    exact le_add_right _ _
  rw [hlast,hnext]
  refine ⟨?_,rfl,more,rest',hs.split,hs.shown,hs.offset,hs.moved,hs.complete,hs.progress⟩
  have ht' : TakenOk (Standing vcb tree volume dirID) { t with
      cip := { t.cip with
        currentOffset := r.1.lastoffset
        nextOffset := r.1.uioOffset}} := ⟨ht.good,ht.owned,ht.alone⟩
  refine (ht'.update (buffered_standing vcb tree volume dirID) _ _).release fun _ _ => ?_
  obtain ⟨-,-,hcur,hnext',hkey⟩ := update_cip (fun name => (vcb.chars name).length) r.2.1
    { t with
      cip := { t.cip with
        currentOffset := r.1.lastoffset
        nextOffset := r.1.uioOffset}}
  dsimp only at hcur hnext'
  have hparent : (UpdateCatalogIterator (fun name => (vcb.chars name).length) r.2.1
      { t with
        cip := { t.cip with
          currentOffset := r.1.lastoffset
          nextOffset := r.1.uioOffset}}).cip.parentID=(ofLex r.2.1).1 :=
    congrArg (fun k => (ofLex k).1) hkey
  rw [hkey,hcur,hnext',hparent,hfolder]
  exact ⟨hreached.updated,fun hne => if_pos hne.symm⟩

variable [DecidableEq V] {parentDirID uioOffset uioResid : ℕ} {dots : List Dirent}

lemma readdir_einval (h : uioResid<averageDirentrySize ∨
    rootdots dirID parentDirID uioOffset=none) :
    hfsReaddir vcb tree volume dirID parentDirID cache uioOffset uioResid =
      (cache,⟨true,false,uioOffset,[]⟩) := by
  rw [hfsReaddir]
  by_cases hroom : uioResid<averageDirentrySize
  · exact if_pos hroom
  · rw [if_neg hroom,h.resolve_left hroom]

lemma readdir_none (hroom : ¬uioResid<averageDirentrySize)
    (hdots : rootdots dirID parentDirID uioOffset=some dots)
    (hX : (uioOffset+dots.length*dotSize)%2^32=X)
    (hposition : PositionIterator vcb tree (GetCatalogIterator cache volume dirID X) X=none) :
    hfsReaddir vcb tree volume dirID parentDirID cache uioOffset uioResid =
      ((GetCatalogIterator cache volume dirID X).age,
        ⟨false,true,uioOffset+dots.length*dotSize,dots⟩) := by
  rw [hfsReaddir,if_neg hroom,hdots]
  dsimp only
  rw [hX,hposition]

lemma readdir_some {p : Positioned V N} (hroom : ¬uioResid<averageDirentrySize)
    (hdots : rootdots dirID parentDirID uioOffset=some dots)
    (hX : (uioOffset+dots.length*dotSize)%2^32=X)
    (hposition : PositionIterator vcb tree (GetCatalogIterator cache volume dirID X) X=some p) :
    hfsReaddir vcb tree volume dirID parentDirID cache uioOffset uioResid =
      readEntries vcb tree dirID (uioOffset+dots.length*dotSize) (uioResid-dots.length*dotSize)
        dots p := by
  rw [hfsReaddir,if_neg hroom,hdots]
  dsimp only
  rw [hX,hposition]

lemma taken_ok {Good : N → CatalogIterator V N → Prop} (hcache : CacheOk Good cache)
    (hinside : (GetCatalogIterator cache volume dirID X).cip.parentID =
      (GetCatalogIterator cache volume dirID X).cip.folderID) :
    TakenOk Good (GetCatalogIterator cache volume dirID X) := by
  obtain ⟨-,hgood,howned,hcases⟩ := getCatalogIterator_spec hcache volume dirID X
  refine ⟨hgood,howned,fun hlong => ?_⟩
  rcases hcases with ⟨-,hscores,halone⟩ | ⟨-,hfresh⟩
  · rw [CatalogIterator.scores,Bool.and_eq_true,Bool.and_eq_true,decide_eq_true_eq] at hscores
    exact halone ⟨by simp [hscores.1.1],hinside,hlong⟩
  · rw [hfresh] at hlong
    cases hlong

lemma readdir_served (hok : FolderOk vcb tree dirID)
    (hsize : offsetBehind vcb (children tree dirID)<noOffset)
    (hcache : CacheOk (Standing vcb tree volume dirID) cache)
    (hroom : ¬uioResid<averageDirentrySize)
    (hdots : rootdots dirID parentDirID uioOffset=some dots)
    (hlt : uioOffset+dots.length*dotSize<noOffset)
    (hserved : Served cache volume dirID (uioOffset+dots.length*dotSize)) :
    CacheOk (Standing vcb tree volume dirID)
        (hfsReaddir vcb tree volume dirID parentDirID cache uioOffset uioResid).1 ∧
      ∃ done rest,children tree dirID=done++rest ∧ (∀ x∈done,Shown vcb dirID x) ∧
        uioOffset+dots.length*dotSize=offsetBehind vcb done ∧
        Returned vcb dirID (uioResid-dots.length*dotSize) dots done rest
          (hfsReaddir vcb tree volume dirID parentDirID cache uioOffset uioResid).2 := by
  have hX : (uioOffset+dots.length*dotSize)%2^32=uioOffset+dots.length*dotSize :=
    mod_eq_of_lt (hlt.trans (by decide))
  obtain ⟨done,rest,hsplit,hshown,hoff,hposition⟩ := position_served hok hcache hlt hserved
  obtain ⟨hlong,hgood,howned,hcases⟩ := getCatalogIterator_spec hcache volume dirID
    (uioOffset+dots.length*dotSize)
  have hfolder : (GetCatalogIterator cache volume dirID
      (uioOffset+dots.length*dotSize)).cip.folderID=dirID := by
    rcases hcases with ⟨-,hscores,-⟩ | ⟨-,hfresh⟩
    · rw [CatalogIterator.scores,Bool.and_eq_true,Bool.and_eq_true,decide_eq_true_eq,
        decide_eq_true_eq] at hscores
      exact hscores.1.2
    · rw [hfresh]
  rcases hposition with ⟨hnone,hhidden,hne⟩ | ⟨key,op,hsome,hrecords,hinside,hplace⟩
  · rw [readdir_none hroom hdots hX hnone]
    refine ⟨?_,done,rest,hsplit,hshown,hoff,rfl,[],rest,rfl,fun x hx => absurd hx not_mem_nil,
      ?_,(append_nil _).symm,fun _ => hhidden,fun _ => .inl rfl⟩
    · rcases hcases with ⟨hmem,-,-⟩ | ⟨-,hfresh⟩
      · refine cacheOk_age hgood howned ?_ fun hlive => hne (hfolder.symm.trans hlive.2.1.symm)
        rw [hlong]
        exact hcache.good _ hmem
      · rw [hfresh] at hne
        exact absurd rfl hne
    · rw [append_nil]
      exact hoff
  · rw [readdir_some hroom hdots hX hsome]
    have hread := readEntries_spec hok hsize (uioResid-dots.length*dotSize) dots
      (taken_ok hcache hinside) hfolder hsplit hshown hoff hrecords hplace
    exact ⟨hread.1,done,rest,hsplit,hshown,hoff,hread.2⟩

end Calls

section Missed

def Missed (vcb : ExtendedVCB N) (tree : SortedMap (CatalogKey N) CatalogRecord) (dirID X : ℕ) :
    Prop :=
  children tree dirID≠[] ∧
    ((children tree dirID).map fun e => GetDirEntrySize vcb e.1).sum<2^32 ∧
    ∀ pre post,children tree dirID=pre++post →
      (pre.map fun e => GetDirEntrySize vcb e.1).sum≠X

variable {X : ℕ}

lemma offsetLoop_missed (hmissed : Missed vcb tree dirID X)
    (rest : List (CatalogKey N × CatalogRecord)) :
    ∀ (done : List (CatalogKey N × CatalogRecord)) (key : CatalogKey N) (cur next : ℕ),
      children tree dirID=done++rest →
      next=(done.map fun e => GetDirEntrySize vcb e.1).sum →
      offsetLoop vcb dirID X (rest++later tree dirID) key cur next=none := by
  induction rest with
  | nil =>
    intro done key cur next hsplit hnext
    have hne : next≠X := hnext▸hmissed.2.2 done [] hsplit
    rw [nil_append]
    cases hlater : later tree dirID with
    | nil => exact if_neg hne
    | cons e l =>
      have hother : dirID≠(ofLex e.1).1 := later_parent (hlater▸mem_cons_self)
      rw [offsetLoop,if_pos hother,if_neg hne]
      exact ite_self none
  | cons e rest ih =>
    intro done key cur next hsplit hnext
    have hne : next≠X := hnext▸hmissed.2.2 done _ hsplit
    have hsplit' : children tree dirID=done++[e]++rest := by
      rw [hsplit,append_assoc,singleton_append]
    have hsum : (next+GetDirEntrySize vcb e.1)%2^32 =
        ((done++[e]).map fun e => GetDirEntrySize vcb e.1).sum := by
      have hbound := hmissed.2.1
      rw [hsplit',map_append,List.sum_append] at hbound
      rw [map_append,List.sum_append,map_singleton,sum_singleton,←hnext] at hbound ⊢
      exact mod_eq_of_lt (lt_of_le_of_lt (le_add_right _ _) hbound)
    rw [cons_append,offsetLoop,if_neg (not_not.mpr (child_parent hsplit).symm),if_neg hne,
      ih (done++[e]) e.1 next _ hsplit' hsum]
    exact ite_self none

variable [DecidableEq V] {parentDirID uioOffset uioResid : ℕ} {dots : List Dirent}

lemma le_rootdots (hdots : rootdots dirID parentDirID uioOffset=some dots) :
    uioOffset+dots.length*dotSize=max CAT_START_OFFSET uioOffset := by
  rw [rootdots] at hdots
  split_ifs at hdots with hlarge hzero hone
  · cases hdots
    rw [max_eq_right hlarge]
    rfl
  · cases hdots
    rw [hzero]
    rfl
  · cases hdots
    rw [hone]
    rfl

lemma readdir_missed (hok : FolderOk vcb tree dirID)
    (hcache : CacheOk (Standing vcb tree volume dirID) cache)
    (hroom : ¬uioResid<averageDirentrySize)
    (hdots : rootdots dirID parentDirID uioOffset=some dots)
    (hlt : uioOffset+dots.length*dotSize<noOffset)
    (hserved : ¬Served cache volume dirID (uioOffset+dots.length*dotSize))
    (hmissed : Missed vcb tree dirID (uioOffset+dots.length*dotSize)) :
    CacheOk (Standing vcb tree volume dirID)
        (hfsReaddir vcb tree volume dirID parentDirID cache uioOffset uioResid).1 ∧
      (hfsReaddir vcb tree volume dirID parentDirID cache uioOffset uioResid).2 =
        ⟨false,true,uioOffset+dots.length*dotSize,dots⟩ := by
  have hX : (uioOffset+dots.length*dotSize)%2^32=uioOffset+dots.length*dotSize :=
    mod_eq_of_lt (hlt.trans (by decide))
  have hbelow : ¬uioOffset+dots.length*dotSize≤CAT_START_OFFSET := by
    have hle := le_rootdots hdots
    have hne : uioOffset+dots.length*dotSize≠CAT_START_OFFSET := fun heq => hserved (.inl heq)
    omega
  obtain ⟨hlong,hgood,howned,⟨hmem,hscores,-⟩ | ⟨-,hfresh⟩⟩ :=
    getCatalogIterator_spec hcache volume dirID (uioOffset+dots.length*dotSize)
  · exact absurd (.inr ⟨_,hmem,hscores⟩) hserved
  · have hnone : PositionIterator vcb tree
        (GetCatalogIterator cache volume dirID (uioOffset+dots.length*dotSize))
        (uioOffset+dots.length*dotSize)=none := by
      rw [PositionIterator,positionFromStart,hfresh]
      dsimp only
      rw [if_neg (not_not.mpr rfl),if_neg (ne_of_gt hlt),if_neg (ne_of_gt hlt)]
      have hkey : (⟨some volume,dirID,noOffset,noOffset,dirID,.short ⊥⟩ :
          CatalogIterator V N).key (GetCatalogIterator cache volume dirID
            (uioOffset+dots.length*dotSize)).longName=toLex (dirID,⊥) := rfl
      rw [hkey,if_neg (by rw [hok.thread]; exact some_ne_none _),if_neg hbelow,recordsFrom_start]
      cases hchildren : children tree dirID with
      | nil => exact absurd hchildren hmissed.1
      | cons e rest =>
        have hparent : (ofLex e.1).1=dirID := child_parent (hchildren.trans (nil_append _).symm)
        rw [cons_append]
        dsimp only
        rw [hparent,offsetLoop_missed hmissed rest [e] _ _ _ hchildren (sum_singleton).symm]
    rw [readdir_none hroom hdots hX hnone]
    refine ⟨cacheOk_age hgood howned ?_ fun hlive => ?_,rfl⟩
    · rw [hfresh]
      exact fun _ _ => ⟨.start _ (.inl rfl),fun _ => rfl⟩
    · rw [hfresh] at hlive
      cases hlive.2.2

end Missed

section Elsewhere

variable [DecidableEq V] {X : ℕ} {Good : N → CatalogIterator V N → Prop}
variable {vol : ExtendedVCB N} {catalog : SortedMap (CatalogKey N) CatalogRecord}
variable {volume' : V} {dirID' : ℕ} {p : Positioned V N}

lemma getCatalogIterator_folder (hcache : CacheOk Good cache) (volume : V) (dirID X : ℕ) :
    (GetCatalogIterator cache volume dirID X).cip.volume=some volume ∧
      (GetCatalogIterator cache volume dirID X).cip.folderID=dirID := by
  obtain ⟨-,-,-,⟨-,hscores,-⟩ | ⟨-,hfresh⟩⟩ := getCatalogIterator_spec hcache volume dirID X
  · rw [CatalogIterator.scores,Bool.and_eq_true,Bool.and_eq_true,decide_eq_true_eq,
      decide_eq_true_eq] at hscores
    exact hscores.1
  · rw [hfresh]
    exact ⟨rfl,rfl⟩

lemma not_found_age (hcache : CacheOk Good cache)
    (hfresh : ∀ longName,Good longName ⟨some volume,dirID,noOffset,noOffset,dirID,.short ⊥⟩)
    (h : PositionIterator vol catalog (GetCatalogIterator cache volume dirID X) X=none) :
    CacheOk Good (GetCatalogIterator cache volume dirID X).age := by
  obtain ⟨hlong,hgood,howned,hcases⟩ := getCatalogIterator_spec hcache volume dirID X
  rcases hcases with ⟨hmem,hscores,-⟩ | ⟨-,heq⟩
  · refine cacheOk_age hgood howned ?_ fun hlive => ?_
    · rw [hlong]
      exact hcache.good _ hmem
    · rw [CatalogIterator.scores,Bool.and_eq_true,Bool.or_eq_true,decide_eq_true_eq,
        decide_eq_true_eq] at hscores
      rw [PositionIterator,if_neg (not_not.mpr hlive.2.1.symm)] at h
      by_cases hcur : (GetCatalogIterator cache volume dirID X).cip.currentOffset=X
      · rw [if_pos hcur] at h
        cases h
      · rw [if_neg hcur,if_pos (hscores.2.resolve_left hcur)] at h
        cases h
  · refine cacheOk_age hgood howned ?_ fun hlive => ?_
    · rw [heq]
      exact hfresh _
    · rw [heq] at hlive
      cases hlive.2.2

omit [OrderBot N] [DecidableEq V] in
lemma positionFromStart_ok (hbuffered : Buffered Good) {t : Taken V N} (ht : TakenOk Good t)
    (h : positionFromStart vol catalog t X=some p) :
    TakenOk Good p.taken ∧ p.taken.cip.volume=t.cip.volume ∧
      p.taken.cip.folderID=t.cip.folderID := by
  rw [positionFromStart] at h
  dsimp only at h
  split_ifs at h with hthread hstart
  · cases h
    exact ⟨ht,rfl,rfl⟩
  · cases hrecords : recordsFrom catalog (t.cip.key t.longName) .next with
    | nil =>
      rw [hrecords] at h
      cases h
    | cons e records =>
      rw [hrecords] at h
      dsimp only at h
      cases hloop : offsetLoop vol (ofLex e.1).1 X records e.1 CAT_START_OFFSET
        (GetDirEntrySize vol e.1) with
      | none =>
        rw [hloop] at h
        cases h
      | some found =>
        rw [hloop] at h
        cases h
        have hupdate := ht.update hbuffered (fun name => (vol.chars name).length) found.1
        obtain ⟨hvolume,hfolder,-⟩ := update_cip (fun name => (vol.chars name).length) found.1 t
        exact ⟨⟨hupdate.good,hupdate.owned,hupdate.alone⟩,hvolume,hfolder⟩

lemma positioned_ok (hbuffered : Buffered Good) (hcache : CacheOk Good cache)
    (h : PositionIterator vol catalog (GetCatalogIterator cache volume dirID X) X=some p) :
    TakenOk Good p.taken ∧ p.taken.cip.volume=some volume ∧ p.taken.cip.folderID=dirID := by
  have hfolder := getCatalogIterator_folder hcache volume dirID X
  rw [PositionIterator] at h
  split_ifs at h with hinside hcur hnext
  · cases h
    exact ⟨taken_ok hcache (not_not.mp hinside).symm,hfolder⟩
  · cases h
    exact ⟨taken_ok hcache (not_not.mp hinside).symm,hfolder⟩
  · obtain ⟨hok,hvolume,hsame⟩ := positionFromStart_ok hbuffered
      (taken_ok hcache (not_not.mp hinside).symm) h
    exact ⟨hok,hvolume.trans hfolder.1,hsame.trans hfolder.2⟩

lemma readdir_elsewhere (helse : volume'=volume → dirID'≠dirID)
    (hcache : CacheOk (Standing vcb tree volume dirID) cache)
    (parentDirID uioOffset uioResid : ℕ) : CacheOk (Standing vcb tree volume dirID)
      (hfsReaddir vol catalog volume' dirID' parentDirID cache uioOffset uioResid).1 := by
  have hvacuous : ∀ longName (cip : CatalogIterator V N),cip.volume=some volume' →
      cip.folderID=dirID' → Standing vcb tree volume dirID longName cip := by
    intro longName cip hvolume' hfolder' hvolume hfolder
    rw [hvolume',some.injEq] at hvolume
    exact absurd (hfolder'.symm.trans hfolder) (helse hvolume)
  by_cases hroom : uioResid<averageDirentrySize
  · rw [readdir_einval (.inl hroom)]
    exact hcache
  · cases hdots : rootdots dirID' parentDirID uioOffset with
    | none =>
      rw [readdir_einval (.inr hdots)]
      exact hcache
    | some dots =>
      cases hposition : PositionIterator vol catalog (GetCatalogIterator cache volume' dirID'
          ((uioOffset+dots.length*dotSize)%2^32)) ((uioOffset+dots.length*dotSize)%2^32) with
      | none =>
        rw [readdir_none hroom hdots rfl hposition]
        exact not_found_age hcache (fun longName => hvacuous longName _ rfl rfl) hposition
      | some p =>
        rw [readdir_some hroom hdots rfl hposition,readEntries]
        obtain ⟨hok,hvolume,hfolder⟩ := positioned_ok (buffered_standing vcb tree volume dirID)
          hcache hposition
        generalize iterateLoop vol dirID' (recordsFrom catalog p.key p.op) p.key
          ⟨p.taken.cip.currentOffset,uioOffset+dots.length*dotSize,
            uioResid-dots.length*dotSize,dots,false⟩=r
        have hok' : TakenOk (Standing vcb tree volume dirID) { p.taken with
            cip := { p.taken.cip with
              currentOffset := r.1.lastoffset%2^32
              nextOffset := r.1.uioOffset%2^32}} := ⟨hok.good,hok.owned,hok.alone⟩
        obtain ⟨hvolume',hfolder',-⟩ := update_cip (fun name => (vol.chars name).length) r.2.1
          { p.taken with
            cip := { p.taken.cip with
              currentOffset := r.1.lastoffset%2^32
              nextOffset := r.1.uioOffset%2^32}}
        exact (hok'.update (buffered_standing vcb tree volume dirID) _ _).release
          (hvacuous _ _ (hvolume'.trans hvolume) (hfolder'.trans hfolder))

end Elsewhere

end Darwin.Hfs.Readdir
