import Darwin.Hfs.ExchangeRun

/-! `ExchangeFileIDs` exchanges two files or leaves them as they are. -/
open Function
namespace Darwin.Hfs.Catalog
open Lib

variable {K : Type}
variable {fails : ℕ → Option InsertFailure} {vcb vcb' : ExtendedVCB K} {srcKey destKey : K}
variable {srcData destData : CatalogFile} {err : OSErr}

def ExtendedVCB.records (vcb : ExtendedVCB K) (id : ℕ) : List ((ℕ ×ₗ ℕ) × ExtentRecord) :=
  overflow vcb.extents.tree id

def HasForks (record : Option CatalogRecord) (id : ℕ) (forks : CatalogFile) : Prop :=
  ∃ file,record=some (.file file) ∧ file.fileID=id ∧ file.dataFork=forks.dataFork ∧
    file.resourceFork=forks.resourceFork

/-- Sizes, catalog extents and overflow records of the two files are exchanged. -/
structure Exchanged (vcb vcb' : ExtendedVCB K) (srcKey destKey : K)
    (srcData destData : CatalogFile) : Prop where
  srcForks : HasForks (vcb'.catalog srcKey) srcData.fileID destData
  destForks : HasForks (vcb'.catalog destKey) destData.fileID srcData
  srcRecords : vcb'.records srcData.fileID=vcb.records destData.fileID
  destRecords : vcb'.records destData.fileID=vcb.records srcData.fileID

/-- The two files are as before. -/
structure Kept (vcb vcb' : ExtendedVCB K) (srcKey destKey : K)
    (srcData destData : CatalogFile) : Prop where
  src : vcb'.catalog srcKey=vcb.catalog srcKey
  dest : vcb'.catalog destKey=vcb.catalog destKey
  srcRecords : vcb'.records srcData.fileID=vcb.records srcData.fileID
  destRecords : vcb'.records destData.fileID=vcb.records destData.fileID

/-- The files are exchanged or there is an error and they are as before; no record is under the
temporary file id, and the other files are as before. -/
structure Complete (vcb vcb' : ExtendedVCB K) (srcKey destKey : K)
    (srcData destData : CatalogFile) (err : OSErr) : Prop where
  files : err=.noErr ∧ Exchanged vcb vcb' srcKey destKey srcData destData ∨
    err≠.noErr ∧ Kept vcb vcb' srcKey destKey srcData destData
  bogus : vcb'.records kHFSBogusExtentFileID=[]
  others : ∀ key,key≠srcKey → key≠destKey → vcb'.catalog key=vcb.catalog key
  otherRecords : ∀ id,id≠srcData.fileID → id≠destData.fileID → id≠kHFSBogusExtentFileID →
    vcb'.records id=vcb.records id

/-- When the exchange is complete, by the files whose catalog records seem not to have all
extents. -/
def ExchangeHolds (fails : ℕ → Option InsertFailure) (vcb : ExtendedVCB K)
    (srcData destData : CatalogFile) : Prop :=
  if extentBlocks srcData then
    if extentBlocks destData then
      BothHold fails vcb.extents.tried (vcb.records srcData.fileID).length
        (vcb.records destData.fileID).length
    else OneHolds fails vcb.extents.tried (vcb.records srcData.fileID)
      (vcb.records destData.fileID)
  else if extentBlocks destData then
    OneHolds fails vcb.extents.tried (vcb.records destData.fileID) (vcb.records srcData.fileID)
  else vcb.records srcData.fileID=vcb.records destData.fileID

lemma Complete.symm (h : Complete vcb vcb' srcKey destKey srcData destData err) :
    Complete vcb vcb' destKey srcKey destData srcData err := by
  refine ⟨?_,h.bogus,fun key hkey hkey' => h.others key hkey' hkey,
    fun id hid hid' => h.otherRecords id hid' hid⟩
  rcases h.files with ⟨herr,hex⟩ | ⟨herr,hkept⟩
  · exact .inl ⟨herr,hex.destForks,hex.srcForks,hex.destRecords,hex.srcRecords⟩
  · exact .inr ⟨herr,hkept.dest,hkept.src,hkept.destRecords,hkept.srcRecords⟩

lemma keys_ne (hsrc : vcb.catalog srcKey=some (.file srcData))
    (hdest : vcb.catalog destKey=some (.file destData))
    (hne : srcData.fileID≠destData.fileID) : srcKey≠destKey := by
  rintro rfl
  have hsame : srcData=destData := by simpa [hsrc] using hdest
  exact hne (congrArg CatalogFile.fileID hsame)

lemma not_exchanged (hsrc : vcb.catalog srcKey=some (.file srcData))
    (hcatalog : vcb'.catalog=vcb.catalog)
    (hdiff : extentBlocks srcData≠extentBlocks destData) :
    ¬Exchanged vcb vcb' srcKey destKey srcData destData := by
  intro h
  obtain ⟨file,hfile,-,hdata,hresource⟩ := h.srcForks
  have hsame : srcData=file := by simpa [hcatalog,hsrc] using hfile
  subst hsame
  exact hdiff (by rw [extentBlocks,extentBlocks,hdata,hresource])

lemma exchangedCatalog_comm [DecidableEq K] (hkeys : srcKey≠destKey) :
    exchangedCatalog vcb destKey srcKey destData srcData =
      exchangedCatalog vcb srcKey destKey srcData destData :=
  update_comm hkeys.symm _ _ _

lemma exchangedCatalog_src [DecidableEq K] (hkeys : srcKey≠destKey) :
    HasForks (exchangedCatalog vcb srcKey destKey srcData destData srcKey) srcData.fileID
      destData := by
  rw [exchangedCatalog,update_of_ne hkeys,update_self]
  exact ⟨CopyCatalogNodeInfo destData srcData,rfl,rfl,rfl,rfl⟩

lemma exchangedCatalog_dest [DecidableEq K] :
    HasForks (exchangedCatalog vcb srcKey destKey srcData destData destKey) destData.fileID
      srcData := by
  rw [exchangedCatalog,update_self]
  exact ⟨CopyCatalogNodeInfo srcData destData,rfl,rfl,rfl,rfl⟩

section Outcome

variable (hbogus : srcData.fileID≠kHFSBogusExtentFileID)
variable (hbogus' : destData.fileID≠kHFSBogusExtentFileID)
include hbogus hbogus'

lemma complete_exchanged [DecidableEq K] (hkeys : srcKey≠destKey)
    (hne : srcData.fileID≠destData.fileID)
    (hcatalog : vcb'.catalog=exchangedCatalog vcb srcKey destKey srcData destData)
    (hrecords : overflow vcb'.extents.tree=update (update
      (update (overflow vcb.extents.tree) kHFSBogusExtentFileID [])
      srcData.fileID (vcb.records destData.fileID)) destData.fileID (vcb.records srcData.fileID)) :
    Complete vcb vcb' srcKey destKey srcData destData .noErr := by
  refine ⟨.inl ⟨rfl,?_,?_,?_,?_⟩,?_,fun key hkey hkey' => ?_,fun id hid hid' hid'' => ?_⟩
  · rw [hcatalog]
    exact exchangedCatalog_src hkeys
  · rw [hcatalog]
    exact exchangedCatalog_dest
  · rw [ExtendedVCB.records,hrecords,update_of_ne hne,update_self]
  · rw [ExtendedVCB.records,hrecords,update_self]
  · rw [ExtendedVCB.records,hrecords,update_of_ne hbogus'.symm,update_of_ne hbogus.symm,update_self]
  · rw [hcatalog,exchangedCatalog,update_of_ne hkey',update_of_ne hkey]
  · rw [ExtendedVCB.records,hrecords,update_of_ne hid',update_of_ne hid,update_of_ne hid'']
    rfl

lemma complete_kept (hcatalog : vcb'.catalog=vcb.catalog) (herr : err≠.noErr)
    (hrecords : overflow vcb'.extents.tree =
      update (overflow vcb.extents.tree) kHFSBogusExtentFileID []) :
    Complete vcb vcb' srcKey destKey srcData destData err := by
  have hother : ∀ id,id≠kHFSBogusExtentFileID → vcb'.records id=vcb.records id :=
    fun id hid => by rw [ExtendedVCB.records,hrecords,update_of_ne hid]; rfl
  refine ⟨.inr ⟨herr,?_,?_,hother _ hbogus,hother _ hbogus'⟩,?_,fun key _ _ => ?_,
    fun id _ _ hid => hother id hid⟩
  · rw [hcatalog]
  · rw [hcatalog]
  · rw [ExtendedVCB.records,hrecords,update_self]
  · rw [hcatalog]

end Outcome

section Exchange

variable [DecidableEq K] {x y : ExtentsFile}

lemma exchange_some (hsrc : vcb.catalog srcKey=some (.file srcData))
    (hdest : vcb.catalog destKey=some (.file destData))
    (hdelete : DeleteExtents vcb.extents kHFSBogusExtentFileID=some (x,.noErr))
    (hmoved : exchangeExtents fails x srcData destData=some (y,some err)) :
    ExchangeFileIDs fails vcb srcKey destKey=some (⟨vcb.catalog,y⟩,err) := by
  rw [ExchangeFileIDs,hsrc,hdest]
  dsimp only
  rw [hdelete,Option.bind_some]
  dsimp only
  rw [if_neg (not_not.mpr rfl),hmoved]
  rfl

lemma exchange_none (hsrc : vcb.catalog srcKey=some (.file srcData))
    (hdest : vcb.catalog destKey=some (.file destData))
    (hdelete : DeleteExtents vcb.extents kHFSBogusExtentFileID=some (x,.noErr))
    (hmoved : exchangeExtents fails x srcData destData=some (y,none)) :
    ExchangeFileIDs fails vcb srcKey destKey =
      some (⟨exchangedCatalog vcb srcKey destKey srcData destData,y⟩,.noErr) := by
  rw [ExchangeFileIDs,hsrc,hdest]
  dsimp only
  rw [hdelete,Option.bind_some]
  dsimp only
  rw [if_neg (not_not.mpr rfl),hmoved]
  rfl

variable {tree : SortedMap ExtentKey ExtentRecord} (fails : ℕ → Option InsertFailure)
variable (hsrc : vcb.catalog srcKey=some (.file srcData))
variable (hdest : vcb.catalog destKey=some (.file destData))
variable (hne : srcData.fileID≠destData.fileID)
variable (hbogus : srcData.fileID≠kHFSBogusExtentFileID)
variable (hbogus' : destData.fileID≠kHFSBogusExtentFileID)
variable (hfirst : NoFirst tree)
variable (hT : overflow tree=update (overflow vcb.extents.tree) kHFSBogusExtentFileID [])
include hsrc hdest hne hbogus hbogus' hfirst hT

lemma one_complete (hdiff : extentBlocks srcData≠extentBlocks destData) :
    ∃ y e,exchangeOne fails ⟨tree,vcb.extents.tried⟩ srcData.fileID destData.fileID=some (y,e) ∧
      (e=none ∧ (Complete vcb ⟨exchangedCatalog vcb srcKey destKey srcData destData,y⟩
          srcKey destKey srcData destData .noErr ↔
        OneHolds fails vcb.extents.tried (vcb.records srcData.fileID)
          (vcb.records destData.fileID)) ∨
      ∃ err,e=some err ∧ (Complete vcb ⟨vcb.catalog,y⟩ srcKey destKey srcData destData err ↔
        OneHolds fails vcb.extents.tried (vcb.records srcData.fileID)
          (vcb.records destData.fileID))) := by
  have hS : update (overflow vcb.extents.tree) kHFSBogusExtentFileID [] srcData.fileID =
      vcb.records srcData.fileID := update_of_ne hbogus _ _
  have hD : update (overflow vcb.extents.tree) kHFSBogusExtentFileID [] destData.fileID =
      vcb.records destData.fileID := update_of_ne hbogus' _ _
  by_cases h : OneHolds fails vcb.extents.tried (vcb.records srcData.fileID)
      (vcb.records destData.fileID)
  · obtain ⟨y,e,hrun,hcases⟩ := one_holds (x := ⟨tree,vcb.extents.tried⟩) hT hfirst hne
      (by rwa [hS,hD])
    refine ⟨y,e,hrun,?_⟩
    rcases hcases with ⟨rfl,hover⟩ | ⟨err,rfl,herr,hover⟩
    · refine .inl ⟨rfl,iff_of_true ?_ h⟩
      rw [hS,hD,update_comm hne.symm] at hover
      exact complete_exchanged hbogus hbogus' (keys_ne hsrc hdest hne) hne rfl hover
    · exact .inr ⟨err,rfl,iff_of_true (complete_kept hbogus hbogus' rfl herr hover) h⟩
  · obtain ⟨y,e,hrun,hcases⟩ := one_fails (x := ⟨tree,vcb.extents.tried⟩) hT hfirst hne
      (by rwa [hS,hD])
    rw [hD] at hcases
    refine ⟨y,e,hrun,?_⟩
    rcases hcases with ⟨rfl,hover⟩ | rfl | ⟨err,rfl,herr,hover⟩
    · refine .inl ⟨rfl,iff_of_false (fun hc => ?_) h⟩
      rcases hc.files with ⟨-,hex⟩ | ⟨herr,-⟩
      · exact hover hex.srcRecords
      · exact herr rfl
    · refine .inr ⟨.noErr,rfl,iff_of_false (fun hc => ?_) h⟩
      have hnot : ¬Exchanged vcb ⟨vcb.catalog,y⟩ srcKey destKey srcData destData :=
        not_exchanged hsrc rfl hdiff
      rcases hc.files with ⟨-,hex⟩ | ⟨herr,-⟩
      · exact hnot hex
      · exact herr rfl
    · refine .inr ⟨err,rfl,iff_of_false (fun hc => ?_) h⟩
      rcases hc.files with ⟨herr',-⟩ | ⟨-,hkept⟩
      · exact herr herr'
      · exact hover hkept.destRecords

lemma both_complete :
    ∃ y err,exchangeBoth fails ⟨tree,vcb.extents.tried⟩ srcData.fileID destData.fileID =
        some (y,err) ∧
      (err=.noErr → (Complete vcb ⟨exchangedCatalog vcb srcKey destKey srcData destData,y⟩
          srcKey destKey srcData destData .noErr ↔
        BothHold fails vcb.extents.tried (vcb.records srcData.fileID).length
          (vcb.records destData.fileID).length)) ∧
      (err≠.noErr → (Complete vcb ⟨vcb.catalog,y⟩ srcKey destKey srcData destData err ↔
        BothHold fails vcb.extents.tried (vcb.records srcData.fileID).length
          (vcb.records destData.fileID).length)) := by
  have hS : update (overflow vcb.extents.tree) kHFSBogusExtentFileID [] srcData.fileID =
      vcb.records srcData.fileID := update_of_ne hbogus _ _
  have hD : update (overflow vcb.extents.tree) kHFSBogusExtentFileID [] destData.fileID =
      vcb.records destData.fileID := update_of_ne hbogus' _ _
  obtain ⟨y,err,hrun,hok,hbad⟩ := exchangeBoth_spec (x := ⟨tree,vcb.extents.tried⟩) hfirst hT
    (update_self _ _ _) hbogus hne hbogus' fails
  rw [hS,hD] at hok hbad
  refine ⟨y,err,hrun,fun herr => ?_,fun herr => ?_⟩
  · by_cases h : BothHold fails vcb.extents.tried (vcb.records srcData.fileID).length
        (vcb.records destData.fileID).length
    · refine iff_of_true ?_ h
      rcases hok h with ⟨-,hover⟩ | ⟨herr',-⟩
      · rw [hS,hD] at hover
        exact complete_exchanged hbogus hbogus' (keys_ne hsrc hdest hne) hne rfl hover
      · exact absurd herr herr'
    · exact absurd herr (hbad h).1
  · by_cases h : BothHold fails vcb.extents.tried (vcb.records srcData.fileID).length
        (vcb.records destData.fileID).length
    · refine iff_of_true ?_ h
      rcases hok h with ⟨herr',-⟩ | ⟨-,hover⟩
      · exact absurd herr' herr
      · exact complete_kept hbogus hbogus' rfl herr hover
    · refine iff_of_false (fun hc => ?_) h
      rcases hc.files with ⟨herr',-⟩ | ⟨-,hkept⟩
      · exact herr herr'
      · rcases (hbad h).2 with hover | hover
        · exact hover hc.bogus
        · exact hover (hkept.srcRecords.trans hS.symm)

end Exchange

/-- The exchange is complete exactly under the condition. -/
theorem exchange_complete_iff [DecidableEq K] (hsrc : vcb.catalog srcKey=some (.file srcData))
    (hdest : vcb.catalog destKey=some (.file destData))
    (hne : srcData.fileID≠destData.fileID) (hbogus : srcData.fileID≠kHFSBogusExtentFileID)
    (hbogus' : destData.fileID≠kHFSBogusExtentFileID) (hfirst : NoFirst vcb.extents.tree) :
    ∃ vcb' err,ExchangeFileIDs fails vcb srcKey destKey=some (vcb',err) ∧
      (Complete vcb vcb' srcKey destKey srcData destData err ↔
        ExchangeHolds fails vcb srcData destData) := by
  obtain ⟨tree,hdelete,hfirst',hT⟩ := delete_overflow hfirst rfl kHFSBogusExtentFileID
  have hkeys := keys_ne hsrc hdest hne
  rw [ExchangeHolds]
  by_cases hs : extentBlocks srcData=true
  · rw [if_pos hs]
    by_cases hd : extentBlocks destData=true
    · rw [if_pos hd]
      obtain ⟨y,err,hrun,hnone,hsome⟩ := both_complete fails hsrc hdest hne hbogus hbogus'
        hfirst' hT
      have hstep : exchangeExtents fails ⟨tree,vcb.extents.tried⟩ srcData destData =
          some (y,if err=.noErr then none else some err) := by
        rw [exchangeExtents,if_pos (by rw [hs,hd]; rfl),hrun]
        rfl
      by_cases herr : err=.noErr
      · rw [if_pos herr] at hstep
        exact ⟨_,_,exchange_none hsrc hdest hdelete hstep,hnone herr⟩
      · rw [if_neg herr] at hstep
        exact ⟨_,_,exchange_some hsrc hdest hdelete hstep,hsome herr⟩
    · rw [if_neg hd]
      obtain ⟨y,e,hrun,hcases⟩ := one_complete fails hsrc hdest hne hbogus hbogus' hfirst' hT
        (by simp [hs,hd])
      have hstep : exchangeExtents fails ⟨tree,vcb.extents.tried⟩ srcData destData =
          some (y,e) := by
        rw [exchangeExtents,if_neg (by simp [hd]),if_pos hs,hrun]
      rcases hcases with ⟨rfl,hiff⟩ | ⟨err,rfl,hiff⟩
      · exact ⟨_,_,exchange_none hsrc hdest hdelete hstep,hiff⟩
      · exact ⟨_,_,exchange_some hsrc hdest hdelete hstep,hiff⟩
  · rw [if_neg hs]
    by_cases hd : extentBlocks destData=true
    · rw [if_pos hd]
      obtain ⟨y,e,hrun,hcases⟩ := one_complete fails hdest hsrc hne.symm hbogus' hbogus hfirst' hT
        (by simp [hs,hd])
      have hstep : exchangeExtents fails ⟨tree,vcb.extents.tried⟩ srcData destData =
          some (y,e) := by
        rw [exchangeExtents,if_neg (by simp [hs]),if_neg hs,if_pos hd,hrun]
      rcases hcases with ⟨rfl,hiff⟩ | ⟨err,rfl,hiff⟩
      · rw [exchangedCatalog_comm hkeys] at hiff
        exact ⟨_,_,exchange_none hsrc hdest hdelete hstep,Iff.trans ⟨.symm,.symm⟩ hiff⟩
      · exact ⟨_,_,exchange_some hsrc hdest hdelete hstep,Iff.trans ⟨.symm,.symm⟩ hiff⟩
    · rw [if_neg hd]
      have hstep : exchangeExtents fails ⟨tree,vcb.extents.tried⟩ srcData destData =
          some (⟨tree,vcb.extents.tried⟩,none) := by
        rw [exchangeExtents,if_neg (by simp [hs]),if_neg hs,if_neg hd]
      refine ⟨_,_,exchange_none hsrc hdest hdelete hstep,fun hc => ?_,fun hsame => ?_⟩
      · rcases hc.files with ⟨-,hex⟩ | ⟨herr,-⟩
        · have hkept := hex.srcRecords
          rw [ExtendedVCB.records,hT,update_of_ne hbogus] at hkept
          exact hkept
        · exact absurd rfl herr
      · refine complete_exchanged hbogus hbogus' hkeys hne rfl ?_
        have hold : vcb.records srcData.fileID=update (overflow vcb.extents.tree)
            kHFSBogusExtentFileID [] srcData.fileID := (update_of_ne hbogus _ _).symm
        have hold' : vcb.records srcData.fileID=update (overflow vcb.extents.tree)
            kHFSBogusExtentFileID [] destData.fileID :=
          hsame.trans (update_of_ne hbogus' _ _).symm
        rw [←hsame,hold,update_eq_self,←hold,hold',update_eq_self]
        exact hT

/-- A file with one block in its catalog record and one in an overflow record. -/
def longFile : CatalogFile :=
  ⟨16,⟨1024,2,[⟨100,1⟩]⟩,⟨0,0,[]⟩,0⟩

def shortFile : CatalogFile :=
  ⟨17,⟨512,1,[⟨300,1⟩]⟩,⟨0,0,[]⟩,0⟩

def twoFiles : ExtendedVCB Bool :=
  ⟨fun key => if key then some (.file shortFile) else some (.file longFile),
    ⟨SortedMap.empty.put (toLex (16,toLex (0,1))) [⟨200,1⟩],0⟩⟩

lemma twoFiles_noFirst : NoFirst twoFiles.extents.tree := by
  intro id
  have hne : ExtentKey.first id≠toLex (16,toLex (0,1)) := fun heq => by
    have hrest := ((ExtentKey.ext_iff _ _).mp heq).2
    exact absurd (congrArg (fun k => (ofLex k).2) hrest) Nat.zero_ne_one
  exact (SortedMap.get_put _ _ _ _).trans (if_neg hne)

theorem exchange_complete_iff_twoFiles :
    ∃ vcb' err,ExchangeFileIDs (fun _ => none) twoFiles false true=some (vcb',err) ∧
      (Complete twoFiles vcb' false true longFile shortFile err ↔
        ExchangeHolds (fun _ => none) twoFiles longFile shortFile) :=
  exchange_complete_iff rfl rfl (by decide) (by decide) (by decide) twoFiles_noFirst

/-- On a full disk the overflow record is lost, without an error. -/
theorem full_disk_loses_record :
    ∃ vcb' err,ExchangeFileIDs (fun _ => some .diskFull) twoFiles false true =
        some (vcb',err) ∧ err=.noErr ∧ twoFiles.records 16≠[] ∧ vcb'.records 16=[] ∧
      vcb'.records 17=[] ∧ ¬Complete twoFiles vcb' false true longFile shortFile err := by
  refine ⟨_,_,rfl,rfl,by decide,rfl,rfl,fun h => ?_⟩
  rcases h.files with ⟨-,hex⟩ | ⟨herr,-⟩
  · exact absurd hex.destRecords (by decide)
  · exact herr rfl

end Darwin.Hfs.Catalog
