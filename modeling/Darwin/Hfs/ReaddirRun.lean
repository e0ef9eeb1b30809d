import Darwin.Hfs.ReaddirCalls
import Mathlib.Order.Nat

/-! Any number of readers of directories, of which one is watched. -/
open List Function Nat
namespace Darwin.Hfs.Readdir
open Lib

variable {V N : Type} [DecidableEq V] [LinearOrder N] [OrderBot N]

section System

/-- A reader: the offset where its last call ended, what it received, and the end. -/
structure Reader where
  offset : ℕ
  received : List Dirent
  eof : Bool
  deriving DecidableEq

def newReader : Reader := ⟨0,[],false⟩

structure System (V N : Type) [LinearOrder N] where
  catalog : V → SortedMap (CatalogKey N) CatalogRecord
  cache : CatalogCacheGlobals V N
  reader : Reader

/-- The watched reader reads on, another reader reads, or a catalog is modified, which trashes the
iterators of some folders. -/
inductive Event (V N : Type) [LinearOrder N]
  | read (uioResid : ℕ)
  | other (volume : V) (dirID parentDirID uioOffset uioResid : ℕ)
  | modify (volume : V) (catalog : SortedMap (CatalogKey N) CatalogRecord) (folders : List ℕ)

def InitCatalogCache (V N : Type) [Bot N] : CatalogCacheGlobals V N :=
  ⟨replicate 16 ⟨none,0,0,0,0,.short ⊥⟩,⊥⟩

variable (vcb : V → ExtendedVCB N) (volume : V) (dirID parentDirID : ℕ)

def System.step (s : System V N) : Event V N → System V N
  | .read uioResid =>
    let r := hfsReaddir (vcb volume) (s.catalog volume) volume dirID parentDirID s.cache
      s.reader.offset uioResid
    { s with
      cache := r.1
      reader := ⟨r.2.uioOffset,s.reader.received++r.2.moved,s.reader.eof || r.2.eofflag⟩}
  | .other volume dirID parentDirID uioOffset uioResid =>
    { s with
      cache := (hfsReaddir (vcb volume) (s.catalog volume) volume dirID parentDirID s.cache
        uioOffset uioResid).1}
  | .modify volume catalog folders =>
    { s with
      catalog := update s.catalog volume catalog
      cache := folders.foldl (fun cache folderID => TrashCatalogIterator cache volume folderID)
        s.cache}

def System.run (s : System V N) (events : List (Event V N)) : System V N :=
  events.foldl (System.step vcb volume dirID parentDirID) s

def visible (vcb : ExtendedVCB N) (tree : SortedMap (CatalogKey N) CatalogRecord) (dirID : ℕ) :
    List Dirent :=
  (direntsOf vcb (children tree dirID)).filter fun ent => !isHidden vcb dirID ent

def System.expected (s : System V N) : List Dirent :=
  [dotEntry dirID 1,dotEntry parentDirID 2]++visible (vcb volume) (s.catalog volume) dirID

def System.start (catalog : V → SortedMap (CatalogKey N) CatalogRecord) : System V N :=
  ⟨catalog,InitCatalogCache V N,newReader⟩

def Readable (vcb : ExtendedVCB N) (tree : SortedMap (CatalogKey N) CatalogRecord) (dirID : ℕ) :
    Prop :=
  FolderOk vcb tree dirID ∧ offsetBehind vcb (children tree dirID)<noOffset

def SameFolder (tree tree' : SortedMap (CatalogKey N) CatalogRecord) (dirID : ℕ) : Prop :=
  children tree' dirID=children tree dirID ∧ tree'.get (toLex (dirID,⊥))=tree.get (toLex (dirID,⊥))

def Behind (vcb : ExtendedVCB N) (tree : SortedMap (CatalogKey N) CatalogRecord) (dirID X : ℕ) :
    Prop :=
  ∃ done rest,children tree dirID=done++rest ∧ (∀ x∈done,Shown vcb dirID x) ∧
    (∀ x∈rest,Hidden vcb dirID x) ∧ X=offsetBehind vcb done

/-- The condition on a step. A call in the folder begins at its start, or at the offset of an
iterator, or at an offset that is not found from the beginning, which for the watched reader is the
one behind everything. The folder is not modified after the first call. -/
def System.Fair (s : System V N) : Event V N → Prop
  | .read _ =>
    Served s.cache volume dirID (max CAT_START_OFFSET s.reader.offset) ∨
      Missed (vcb volume) (s.catalog volume) dirID (max CAT_START_OFFSET s.reader.offset) ∧
        Behind (vcb volume) (s.catalog volume) dirID (max CAT_START_OFFSET s.reader.offset)
  | .other volume' dirID' _ uioOffset _ =>
    volume'=volume → dirID'=dirID → uioOffset<noOffset ∧
      (Served s.cache volume dirID (max CAT_START_OFFSET uioOffset) ∨
        Missed (vcb volume) (s.catalog volume) dirID (max CAT_START_OFFSET uioOffset))
  | .modify volume' catalog folders =>
    volume'=volume → SameFolder (s.catalog volume) catalog dirID ∨
      s.reader=newReader ∧ dirID∈folders ∧ Readable (vcb volume) catalog dirID

def System.FairRun (s : System V N) : List (Event V N) → Prop
  | [] => True
  | event::events => s.Fair vcb volume dirID event ∧
    (s.step vcb volume dirID parentDirID event).FairRun events

end System

section Invariant

variable {vcb : V → ExtendedVCB N} {volume : V} {dirID parentDirID : ℕ} {s : System V N}

/-- What the watched reader received are the first entries of the folder, up to its offset. -/
def ReaderOk (vcb : ExtendedVCB N) (tree : SortedMap (CatalogKey N) CatalogRecord)
    (dirID parentDirID : ℕ) (reader : Reader) : Prop :=
  reader=newReader ∨ ∃ done rest,children tree dirID=done++rest ∧
    (∀ x∈done,Shown vcb dirID x) ∧ reader.offset=offsetBehind vcb done ∧
    reader.received=[dotEntry dirID 1,dotEntry parentDirID 2]++direntsOf vcb done ∧
    (reader.eof=true → ∀ x∈rest,Hidden vcb dirID x)

structure SystemOk (vcb : V → ExtendedVCB N) (volume : V) (dirID parentDirID : ℕ)
    (s : System V N) : Prop where
  readable : Readable (vcb volume) (s.catalog volume) dirID
  cache : CacheOk (Standing (vcb volume) (s.catalog volume) volume dirID) s.cache
  reader : ReaderOk (vcb volume) (s.catalog volume) dirID parentDirID s.reader

variable {vcb : ExtendedVCB N} {tree tree' : SortedMap (CatalogKey N) CatalogRecord}

lemma visible_split {tree : SortedMap (CatalogKey N) CatalogRecord}
    {done rest : List (CatalogKey N × CatalogRecord)} (hsplit : children tree dirID=done++rest)
    (hdone : ∀ x∈done,Shown vcb dirID x) : visible vcb tree dirID =
      direntsOf vcb done++(direntsOf vcb rest).filter fun ent => !isHidden vcb dirID ent := by
  rw [visible,hsplit,direntsOf_append,filter_append,filter_shown hdone]

omit [LinearOrder N] [OrderBot N] in
lemma direntsOf_ne_nil {more : List (CatalogKey N × CatalogRecord)}
    (hne : more≠[]) (hshown : ∀ x∈more,Shown vcb dirID x) : direntsOf vcb more≠[] := by
  cases more with
  | nil => exact absurd rfl hne
  | cons e more =>
    obtain ⟨ent,hent,-⟩ := hshown e mem_cons_self
    rw [direntsOf_cons hent]
    exact cons_ne_nil _ _

lemma ReaderOk.position {tree : SortedMap (CatalogKey N) CatalogRecord}
    {reader : Reader} (h : ReaderOk vcb tree dirID parentDirID reader) :
    ∃ dots done rest,rootdots dirID parentDirID reader.offset=some dots ∧
      children tree dirID=done++rest ∧ (∀ x∈done,Shown vcb dirID x) ∧
      reader.offset+dots.length*dotSize=offsetBehind vcb done ∧ reader.received++dots =
        [dotEntry dirID 1,dotEntry parentDirID 2]++direntsOf vcb done ∧
      (reader.eof=true → ∀ x∈rest,Hidden vcb dirID x) ∧ (reader≠newReader → dots=[]) := by
  rcases h with rfl | ⟨done,rest,hsplit,hshown,hoff,hreceived,heof⟩
  · exact ⟨[dotEntry dirID 1,dotEntry parentDirID 2],[],children tree dirID,rfl,rfl,
      fun x hx => absurd hx not_mem_nil,rfl,rfl,fun h => (by cases h),fun h => absurd rfl h⟩
  · refine ⟨[],done,rest,?_,hsplit,hshown,hoff,by rw [append_nil,hreceived],heof,
      fun _ => rfl⟩
    rw [hoff]
    exact if_pos (le_add_right _ _)

lemma Place.congr
    {key : CatalogKey N} {cur next : ℕ} (hsame : children tree' dirID=children tree dirID)
    (h : Place vcb tree dirID key cur next) : Place vcb tree' dirID key cur next := by
  cases h with
  | start _ hnext => exact .start next hnext
  | before pre e post hsplit hshown => exact .before pre e post (hsame.trans hsplit) hshown
  | behind pre e post hsplit hshown => exact .behind pre e post (hsame.trans hsplit) hshown
  | ended _ pre post _ hsplit hshown hhidden hkey =>
    exact .ended key pre post next (hsame.trans hsplit) hshown hhidden hkey

lemma Readable.congr
    (hsame : SameFolder tree tree' dirID) (h : Readable vcb tree dirID) :
    Readable vcb tree' dirID := by
  obtain ⟨hok,hsize⟩ := h
  obtain ⟨hchildren,hthread⟩ := hsame
  refine ⟨⟨hthread.trans hok.thread,?_,?_⟩,?_⟩
  · rw [hchildren]
    exact hok.nodes
  · rw [hchildren]
    exact hok.hiddenLast
  · rwa [hchildren]

end Invariant

section Steps

variable {vcb : V → ExtendedVCB N} {volume : V} {dirID parentDirID : ℕ} {s : System V N}

variable {done rest : List (CatalogKey N × CatalogRecord)}

lemma Readable.lt_noOffset {vcb : ExtendedVCB N}
    {tree : SortedMap (CatalogKey N) CatalogRecord} (h : Readable vcb tree dirID)
    (hsplit : children tree dirID=done++rest) : offsetBehind vcb done<noOffset := by
  refine lt_of_le_of_lt ?_ h.2
  rw [hsplit,offsetBehind_append]
  exact le_add_right _ _

omit [DecidableEq V] in
lemma returned_reader (s : System V N) {uioResid : ℕ} {dots : List Dirent} {r : ReadResult}
    (hsplit : children (s.catalog volume) dirID=done++rest)
    (hshown : ∀ x∈done,Shown (vcb volume) dirID x)
    (hreceived : s.reader.received++dots =
      [dotEntry dirID 1,dotEntry parentDirID 2]++direntsOf (vcb volume) done)
    (heof : s.reader.eof=true → ∀ x∈rest,Hidden (vcb volume) dirID x)
    (hr : Returned (vcb volume) dirID (uioResid-dots.length*dotSize) dots done rest r) :
    ReaderOk (vcb volume) (s.catalog volume) dirID parentDirID
        ⟨r.uioOffset,s.reader.received++r.moved,s.reader.eof || r.eofflag⟩ ∧
      (s.reader.received.length<(s.reader.received++r.moved).length ∨
        (s.reader.eof || r.eofflag)=true ∨
          ∃ ent∈(s.expected vcb volume dirID parentDirID)[s.reader.received.length]?,
            uioResid<ent.d_reclen) := by
  obtain ⟨more,rest',rfl,hmoreShown,hmoreOff,hmoved,hmoreEof,hprogress⟩ := hr.result
  refine ⟨.inr ⟨done++more,rest',?_,?_,hmoreOff,?_,?_⟩,?_⟩
  · rw [hsplit,append_assoc]
  · exact fun x hx => (mem_append.mp hx).elim (hshown x) (hmoreShown x)
  · rw [hmoved,←append_assoc,hreceived,direntsOf_append,append_assoc]
  · rw [Bool.or_eq_true]
    rintro (hbefore | hnow) x hx
    · exact heof hbefore x (mem_append_right more hx)
    · exact hmoreEof hnow x hx
  · by_cases hmore : more=[]
    · subst hmore
      rcases hprogress rfl with hnow | ⟨e,he,heShown,hfull⟩
      · exact .inr (.inl (by rw [hnow,Bool.or_true]))
      · by_cases hdots : dots=[]
        · subst hdots
          obtain ⟨ent,hent,hentShown⟩ := heShown
          cases rest' with
          | nil => cases he
          | cons x rest' =>
            cases he
            rw [append_nil] at hreceived
            refine .inr (.inr ⟨ent,?_,?_⟩)
            · rw [System.expected,visible_split hsplit hshown,nil_append,direntsOf_cons hent,
                filter_cons_of_pos (by rw [hentShown]; rfl),←append_assoc,←hreceived,
                List.getElem?_append_right (Nat.le_refl _),Nat.sub_self]
              rfl
            · rwa [entrySize,hent,length_nil,zero_mul] at hfull
        · refine .inl ?_
          rw [hmoved,length_append,length_append]
          have := length_pos_iff.mpr hdots
          omega
    · refine .inl ?_
      have hpos := length_pos_iff.mpr (direntsOf_ne_nil hmore hmoreShown)
      rw [hmoved,length_append,length_append]
      omega

lemma SystemOk.read (h : SystemOk vcb volume dirID parentDirID s) (uioResid : ℕ)
    (hfair : s.Fair vcb volume dirID (.read uioResid)) :
    SystemOk vcb volume dirID parentDirID (s.step vcb volume dirID parentDirID (.read uioResid)) ∧
      (averageDirentrySize≤uioResid → s.reader.received.length <
            (s.step vcb volume dirID parentDirID (.read uioResid)).reader.received.length ∨
          (s.step vcb volume dirID parentDirID (.read uioResid)).reader.eof=true ∨
          ∃ ent∈(s.expected vcb volume dirID parentDirID)[s.reader.received.length]?,
            uioResid<ent.d_reclen) := by
  obtain ⟨dots,done,rest,hdots,hsplit,hshown,hoff,hreceived,heof,hnew⟩ := h.reader.position
  by_cases hroom : uioResid<averageDirentrySize
  · have hsame : s.step vcb volume dirID parentDirID (.read uioResid)=s := by
      rw [System.step,readdir_einval (.inl hroom)]
      simp
    rw [hsame]
    exact ⟨h,fun hle => absurd hroom (not_lt.mpr hle)⟩
  · have hlt : s.reader.offset+dots.length*dotSize<noOffset :=
      hoff▸h.readable.lt_noOffset hsplit
    by_cases hserved : Served s.cache volume dirID (s.reader.offset+dots.length*dotSize)
    · obtain ⟨hcache,done',rest',hsplit',hshown',hoff',hreturned⟩ := readdir_served h.readable.1
        h.readable.2 h.cache hroom hdots hlt hserved
      obtain ⟨rfl,rfl⟩ := prefix_unique hsplit' hsplit hshown' hshown (hoff'.symm.trans hoff)
      obtain ⟨hreader,hprogress⟩ := returned_reader s hsplit hshown hreceived heof hreturned
      exact ⟨⟨h.readable,hcache,hreader⟩,fun _ => hprogress⟩
    · have hmax := le_rootdots hdots
      obtain ⟨hmissed,done',rest',hsplit',hshown',hhidden,hoff'⟩ := hfair.resolve_left fun hs =>
        hserved (hmax▸hs)
      rw [←hmax] at hmissed hoff'
      obtain ⟨rfl,rfl⟩ := prefix_unique hsplit' hsplit hshown' hshown (hoff'.symm.trans hoff)
      obtain ⟨hcache,hresult⟩ := readdir_missed h.readable.1 h.cache hroom hdots hlt hserved hmissed
      have hreturned : Returned (vcb volume) dirID (uioResid-dots.length*dotSize) dots done' rest'
          (hfsReaddir (vcb volume) (s.catalog volume) volume dirID parentDirID s.cache
            s.reader.offset uioResid).2 := by
        rw [hresult]
        refine ⟨rfl,[],rest',rfl,fun x hx => absurd hx not_mem_nil,?_,
          (append_nil _).symm,fun _ => hhidden,fun _ => .inl rfl⟩
        rw [append_nil]
        exact hoff
      obtain ⟨hreader,hprogress⟩ := returned_reader s hsplit hshown hreceived heof hreturned
      exact ⟨⟨h.readable,hcache,hreader⟩,fun _ => hprogress⟩

lemma SystemOk.other (h : SystemOk vcb volume dirID parentDirID s) {volume' : V}
    {dirID' parentDirID' uioOffset uioResid : ℕ}
    (hfair : s.Fair vcb volume dirID (.other volume' dirID' parentDirID' uioOffset uioResid)) :
    SystemOk vcb volume dirID parentDirID
      (s.step vcb volume dirID parentDirID
        (.other volume' dirID' parentDirID' uioOffset uioResid)) := by
  refine ⟨h.readable,?_,h.reader⟩
  by_cases hhere : volume'=volume ∧ dirID'=dirID
  · obtain ⟨rfl,rfl⟩ := hhere
    obtain ⟨hlt,hcall⟩ := hfair rfl rfl
    by_cases hroom : uioResid<averageDirentrySize
    · rw [System.step,readdir_einval (.inl hroom)]
      exact h.cache
    · cases hdots : rootdots dirID' parentDirID' uioOffset with
      | none =>
        rw [System.step,readdir_einval (.inr hdots)]
        exact h.cache
      | some dots =>
        have hmax := le_rootdots hdots
        have hltX : uioOffset+dots.length*dotSize<noOffset := by
          rw [hmax]
          exact max_lt (by decide) hlt
        rw [←hmax] at hcall
        by_cases hserved : Served s.cache volume' dirID' (uioOffset+dots.length*dotSize)
        · exact (readdir_served h.readable.1 h.readable.2 h.cache hroom hdots hltX hserved).1
        · exact (readdir_missed h.readable.1 h.cache hroom hdots hltX hserved
            (hcall.resolve_left hserved)).1
  · exact readdir_elsewhere (fun hv hd => hhere ⟨hv,hd⟩) h.cache _ _ _

omit [LinearOrder N] [OrderBot N] in
lemma cacheOk_trashAll {Good : N → CatalogIterator V N → Prop} (hbuffered : Buffered Good)
    (volume : V) (folders : List ℕ) {cache : CatalogCacheGlobals V N} (h : CacheOk Good cache) :
    CacheOk Good (folders.foldl (fun cache folderID => TrashCatalogIterator cache volume folderID)
      cache) := by
  induction folders generalizing cache with
  | nil => exact h
  | cons folder folders ih => exact ih (cacheOk_trash hbuffered h fun _ _ _ hgood => hgood)

lemma cacheOk_trashFolder {vcb : ExtendedVCB N}
    {tree tree' : SortedMap (CatalogKey N) CatalogRecord} {folders : List ℕ}
    {cache : CatalogCacheGlobals V N} (hmem : dirID∈folders)
    (h : CacheOk (Standing vcb tree volume dirID) cache) : CacheOk (Standing vcb tree' volume dirID)
      (folders.foldl (fun cache folderID => TrashCatalogIterator cache volume folderID) cache) := by
  induction folders generalizing cache with
  | nil => exact absurd hmem not_mem_nil
  | cons folder folders ih =>
    rw [foldl_cons]
    by_cases hfolder : folder=dirID
    · subst hfolder
      refine cacheOk_trashAll (buffered_standing vcb tree' volume folder) volume folders
        (cacheOk_trash (buffered_standing vcb tree' volume folder) h ?_)
      exact fun _ cip hnot _ hvolume hsame => absurd ⟨hvolume,.inr hsame⟩ hnot
    · refine ih ((mem_cons.mp hmem).resolve_left fun heq => hfolder heq.symm) ?_
      exact cacheOk_trash (buffered_standing vcb tree volume dirID) h fun _ _ _ hgood => hgood

lemma SystemOk.modify (h : SystemOk vcb volume dirID parentDirID s) {volume' : V}
    {catalog : SortedMap (CatalogKey N) CatalogRecord} {folders : List ℕ}
    (hfair : s.Fair vcb volume dirID (.modify volume' catalog folders)) :
    SystemOk vcb volume dirID parentDirID
      (s.step vcb volume dirID parentDirID (.modify volume' catalog folders)) := by
  have hbuffered := buffered_standing (vcb volume) (s.catalog volume) volume dirID
  by_cases hvolume : volume'=volume
  · subst hvolume
    have hself : (s.step vcb volume' dirID parentDirID
        (.modify volume' catalog folders)).catalog volume'=catalog := update_self _ _ _
    rcases hfair rfl with hsame | ⟨hnew,hmem,hreadable⟩
    · refine ⟨?_,?_,?_⟩
      · rw [hself]
        exact h.readable.congr hsame
      · rw [hself]
        have hcache := cacheOk_trashAll hbuffered volume' folders h.cache
        refine ⟨fun cip hcip hv hd => ?_,hcache.owned⟩
        obtain ⟨hplace,hended⟩ := hcache.good cip hcip hv hd
        exact ⟨hplace.congr hsame.1,hended⟩
      · rw [hself]
        exact h.reader.imp id fun ⟨done,rest,hsplit,hreader⟩ =>
          ⟨done,rest,hsame.1.trans hsplit,hreader⟩
    · refine ⟨?_,?_,.inl hnew⟩
      · rw [hself]
        exact hreadable
      · rw [hself]
        exact cacheOk_trashFolder hmem h.cache
  · have hother : (s.step vcb volume dirID parentDirID
        (.modify volume' catalog folders)).catalog volume=s.catalog volume :=
      update_of_ne (fun heq => hvolume heq.symm) _ _
    refine ⟨?_,?_,?_⟩
    · rw [hother]
      exact h.readable
    · rw [hother]
      exact cacheOk_trashAll hbuffered volume' folders h.cache
    · rw [hother]
      exact h.reader

lemma SystemOk.step (h : SystemOk vcb volume dirID parentDirID s) {event : Event V N}
    (hfair : s.Fair vcb volume dirID event) :
    SystemOk vcb volume dirID parentDirID (s.step vcb volume dirID parentDirID event) := by
  cases event with
  | read uioResid => exact (h.read uioResid hfair).1
  | other volume' dirID' parentDirID' uioOffset uioResid => exact h.other hfair
  | modify volume' catalog folders => exact h.modify hfair

end Steps

section Runs

variable {vcb : V → ExtendedVCB N} {volume : V} {dirID parentDirID : ℕ} {s : System V N}
variable {catalog : V → SortedMap (CatalogKey N) CatalogRecord} {events : List (Event V N)}

omit [DecidableEq V] in
lemma systemOk_start (h : Readable (vcb volume) (catalog volume) dirID) :
    SystemOk vcb volume dirID parentDirID (System.start catalog) := by
  refine ⟨h,⟨fun cip hcip hvolume => ?_,?_⟩,.inl rfl⟩
  · rw [eq_of_mem_replicate hcip] at hvolume
    cases hvolume
  · exact pairwise_replicate.mpr (.inr fun hlive => absurd rfl hlive.1)

lemma SystemOk.run (h : SystemOk vcb volume dirID parentDirID s)
    (hfair : s.FairRun vcb volume dirID parentDirID events) :
    SystemOk vcb volume dirID parentDirID (s.run vcb volume dirID parentDirID events) := by
  induction events generalizing s with
  | nil => exact h
  | cons event events ih => exact ih (h.step hfair.1) hfair.2

omit [DecidableEq V] in
lemma SystemOk.received (h : SystemOk vcb volume dirID parentDirID s) :
    s.reader.received <+: s.expected vcb volume dirID parentDirID ∧ (s.reader.eof=true →
        s.reader.received=s.expected vcb volume dirID parentDirID) := by
  rcases h.reader with hnew | ⟨done,rest,hsplit,hshown,-,hreceived,heof⟩
  · rw [hnew]
    exact ⟨ nil_prefix,fun heof => (by cases heof)⟩
  · rw [System.expected,visible_split hsplit hshown,hreceived]
    refine ⟨?_,fun hend => ?_⟩
    · rw [←append_assoc]
      exact prefix_append _ _
    · rw [filter_hidden (heof hend),append_nil]

def letterVolume : ExtendedVCB ℕ := ⟨true,fun n => [96+n],fun _ => none,id,0,0⟩

def letterTree : SortedMap (CatalogKey ℕ) CatalogRecord :=
  ⟨[(toLex (16,0),.thread),(toLex (16,1),.file 20),(toLex (16,2),.file 21)],by decide⟩

lemma letterTree_readable : Readable letterVolume letterTree 16 := by
  have hshown : ∀ e∈children letterTree 16,Shown letterVolume 16 e := by
    intro e he
    rcases mem_cons.mp he with rfl | he
    · exact ⟨_,rfl,rfl⟩
    · cases mem_singleton.mp he
      exact ⟨_,rfl,rfl⟩
  refine ⟨⟨rfl,fun e he hthread => ?_,fun pre e post hsplit hhidden => ?_⟩,by decide⟩
  · obtain ⟨ent,hent,-⟩ := hshown e he
    rw [hthread] at hent
    cases hent
  · refine absurd (hshown e ?_) hhidden.not_shown
    rw [hsplit]
    exact mem_append_right pre mem_cons_self

/-- The first call has room for one entry. The second one goes on with the iterator. -/
def twoCalls : List (Event ℕ ℕ) := [.read 40,.read 40]

/-- Between the two calls, as many other folders are read as there are iterators. The reader is told
that there is nothing behind the first entry. -/
def evictingRun : List (Event ℕ ℕ) :=
  .read 40::(range 16).map (fun i => .other (i+1) 16 2 0 40)++[.read 40]

end Runs

end Darwin.Hfs.Readdir
