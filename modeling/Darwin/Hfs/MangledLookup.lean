import Darwin.Hfs.EmbeddedFileID

/-! The lookup of a child by its mangled name, from `Catalog/CatalogUtilities.c`. -/
open List
namespace Darwin.Hfs.MangledLookup
open Vfs

structure CatalogKey where
  parentID : ℕ
  nodeName : List ℕ
deriving DecidableEq

inductive CatalogRecord
  | thread (parentID : ℕ) (nodeName : List ℕ)
  | node (cnid : ℕ)
deriving DecidableEq

/-- How a lookup ends; `overrun` where `bcmp` reads behind one of the names. -/
inductive Lookup
  | noErr (key : CatalogKey) (record : CatalogRecord)
  | cmNotFound
  | overrun
deriving DecidableEq

/-- `LocateCatalogRecord`, by folder and name. -/
abbrev LocateRecord := ℕ → List ℕ → Option (CatalogKey × CatalogRecord)

def locateCatalogNode (locateCatalogRecord : LocateRecord) (folderID : ℕ) (name : List ℕ) :
    Option (CatalogKey × CatalogRecord) :=
  (locateCatalogRecord folderID name).bind fun found =>
    match found.2 with
    | .thread parentID nodeName =>
      if parentID≠0 then locateCatalogRecord parentID nodeName else some found
    | .node _ => some found

def kHFSFirstUserCatalogNodeID : ℕ := 16
def kMaxCompareLen : ℕ := 64

/-- `prefixlen` at the comparison, which leaves out the last six bytes. -/
def comparedLen (prefixlen actualDstLen : ℕ) : ℕ :=
  if (2^32+min prefixlen kMaxCompareLen-actualDstLen)%2^32<6 then actualDstLen
  else min prefixlen kMaxCompareLen

def locateCatalogNodeByMangledName (locateCatalogRecord : LocateRecord) (folderID : ℕ)
    (name : List ℕ) (length : ℕ) : Lookup :=
  if name.headD 0=0 then .cmNotFound
  else if (getEmbeddedFileID name length).1<kHFSFirstUserCatalogNodeID then .cmNotFound
  else
    match locateCatalogNode locateCatalogRecord (getEmbeddedFileID name length).1 [] with
    | none => .cmNotFound
    | some (key,record) =>
      let nodeName := (utf8Encodestr key.nodeName (kMaxCompareLen+1) colon noFlags).2
      let prefixlen := comparedLen (getEmbeddedFileID name length).2 nodeName.length
      let count := (2^32+prefixlen-6)%2^32
      if folderID≠key.parentID then .cmNotFound
      else if nodeName.length<prefixlen then .cmNotFound
      else if nodeName.length<count ∨ name.length<count then .overrun
      else if nodeName.take count≠name.take count then .cmNotFound
      else .noErr key record

variable {locate : LocateRecord} {folderID : ℕ}

/-- What success says about the record that was found. -/
structure Agrees (locate : LocateRecord) (folderID : ℕ) (name : List ℕ) (length : ℕ)
    (key : CatalogKey) (record : CatalogRecord) (n : ℕ) : Prop where
  located : locateCatalogNode locate (getEmbeddedFileID name length).1 []=some (key,record)
  parent : key.parentID=folderID
  compared : n+6=comparedLen (getEmbeddedFileID name length).2
    (utf8Encodestr key.nodeName (kMaxCompareLen+1) colon noFlags).2.length
  inName : n≤name.length
  inNode : n≤(encoded colon noFlags key.nodeName).length
  same : name.take n=(encoded colon noFlags key.nodeName).take n

lemma encodestr_initial (ucs : List ℕ) (buflen : ℕ) :
    (utf8Encodestr ucs buflen colon noFlags).2 <+: encoded colon noFlags ucs :=
  encodeLoop_initial 0 ucs

lemma encodestr_length (ucs : List ℕ) :
    (utf8Encodestr ucs (kMaxCompareLen+1) colon noFlags).2.length≤kMaxCompareLen := by
  have h := encodeLoop_length_le colon noFlags ucs (Nat.zero_le kMaxCompareLen)
  rwa [Nat.zero_add] at h

lemma agrees_of_noErr {name : List ℕ} {length : ℕ} {key : CatalogKey} {record : CatalogRecord}
    (h : locateCatalogNodeByMangledName locate folderID name length=.noErr key record) :
    ∃ n,Agrees locate folderID name length key record n := by
  rw [locateCatalogNodeByMangledName] at h
  split_ifs at h
  split at h
  · cases h
  · rename_i key' record' hlocate
    dsimp only at h
    obtain ⟨nodeName,hnode⟩ : ∃ nodeName,nodeName =
      (utf8Encodestr key'.nodeName (kMaxCompareLen+1) colon noFlags).2 := ⟨_,rfl⟩
    have hle := encodestr_length key'.nodeName
    have hinit := encodestr_initial key'.nodeName (kMaxCompareLen+1)
    rw [←hnode] at h hle hinit
    split_ifs at h with hparent hshort hover hdiff
    injection h with hkey hrecord
    subst key' record'
    have hlen : comparedLen (getEmbeddedFileID name length).2 nodeName.length≤kMaxCompareLen :=
      (not_lt.mp hshort).trans hle
    have hcount : comparedLen (getEmbeddedFileID name length).2 nodeName.length-6+6 =
        comparedLen (getEmbeddedFileID name length).2 nodeName.length ∧
        (2^32+comparedLen (getEmbeddedFileID name length).2 nodeName.length-6)%2^32 =
        comparedLen (getEmbeddedFileID name length).2 nodeName.length-6 := by
      rw [kMaxCompareLen] at hlen hle
      omega
    rw [hcount.2] at hover hdiff
    rw [not_or,not_lt,not_lt] at hover
    refine ⟨_,hlocate,(not_not.mp hparent).symm,hnode▸hcount.1,hover.2,
      hover.1.trans hinit.length_le,?_⟩
    rw [←not_not.mp hdiff]
    obtain ⟨rest,hrest⟩ := hinit
    rw [←hrest,take_append_of_le_length hover.1]

lemma found_of_long {child : List ℕ} (hunits : ∀ ch∈child,ch<2^16) {cnid : ℕ} (h16 : 16≤cnid)
    (h32 : cnid<2^32) (hshown : AllDigitsShown cnid)
    (hlong : (utf8Encodestr child (direntMaxNameBytes+1) colon noFlags).1≠none)
    (hfolder : folderID≠0) {key : CatalogKey}
    (hthread : locate cnid []=some (key,.thread folderID child))
    (hnode : locate folderID child=some (⟨folderID,child⟩,.node cnid)) :
    locateCatalogNodeByMangledName locate folderID
      (convertUnicodeToUTF8Mangled child (direntMaxNameBytes+1) cnid).1
      (convertUnicodeToUTF8Mangled child (direntMaxNameBytes+1) cnid).2.1 =
        .noErr ⟨folderID,child⟩ (.node cnid) := by
  obtain ⟨hiff,hbytes⟩ := getEmbeddedFileID_iff hunits
    (show 31≤direntMaxNameBytes+1 by decide) (by decide) h16 h32
  have hid := hiff.mpr ⟨hshown,hbytes hlong⟩
  obtain ⟨stem,ext,hext,hstem0,hstem,hmangled,-,hlength⟩ := convertUnicodeToUTF8Mangled_spec hunits
    (show 16≤direntMaxNameBytes+1 by decide) (by decide) cnid
  have hlength := hlength hlong
  have hdigits := fileIDDigits_length_le cnid 8 0
  have hextlen := hext.length_le
  rw [hmangled] at hid ⊢
  dsimp only at hid ⊢
  simp only [length_append,length_cons,direntMaxNameBytes] at hlength
  obtain ⟨c,front,rfl⟩ : ∃ c front,stem=c::front := by
    cases stem with
    | nil => simp at hlength; omega
    | cons c front => exact ⟨c,front,rfl⟩
  have hlocate : locateCatalogNode locate cnid []=some (⟨folderID,child⟩,.node cnid) := by
    rw [locateCatalogNode,hthread,Option.bind_some]
    dsimp only
    rw [if_pos hfolder,hnode]
  obtain ⟨nodeName,hnodeName⟩ : ∃ nodeName,nodeName =
    (utf8Encodestr child (kMaxCompareLen+1) colon noFlags).2 := ⟨_,rfl⟩
  have hle := encodestr_length child
  have hinit := encodestr_initial child (kMaxCompareLen+1)
  have hfull : kMaxCompareLen<0+(encoded colon noFlags child).length := by
    have := hstem.length_le
    rw [kMaxCompareLen]
    simp only [length_cons] at this hlength
    omega
  have hcut := encodeLoop_cut colon noFlags child hfull
  change kMaxCompareLen≤0+(utf8Encodestr child (kMaxCompareLen+1) colon noFlags).2.length+2 at hcut
  rw [←hnodeName] at hle hinit hcut
  have hcompared : comparedLen (c::front).length nodeName.length=nodeName.length := by
    rw [comparedLen,if_pos]
    simp only [kMaxCompareLen,length_cons] at hle hcut hlength ⊢
    omega
  have hcount : (2^32+nodeName.length-6)%2^32=nodeName.length-6 := by
    simp only [kMaxCompareLen] at hle hcut
    omega
  have hsame : nodeName.take (nodeName.length-6) =
      (c::front++hash::fileIDDigits cnid 8 0++ext++[0]).take (nodeName.length-6) := by
    have hshort : nodeName.length-6≤(c::front).length := by
      simp only [kMaxCompareLen,length_cons] at hle hlength ⊢
      omega
    obtain ⟨rest,hrest⟩ := hinit
    obtain ⟨rest',hrest'⟩ := hstem
    have hnode : (nodeName++rest).take (nodeName.length-6)=nodeName.take (nodeName.length-6) :=
      take_append_of_le_length (Nat.sub_le _ _)
    rw [append_assoc,append_assoc,take_append_of_le_length hshort,←hnode,hrest,←hrest',
      take_append_of_le_length hshort]
  have hhead : (c::front++hash::fileIDDigits cnid 8 0++ext++[0]).headD 0≠0 := by
    simpa using hstem0 c mem_cons_self
  rw [locateCatalogNodeByMangledName,hid]
  dsimp only
  rw [if_neg hhead,if_neg (show ¬cnid<kHFSFirstUserCatalogNodeID from not_lt.mpr h16),hlocate]
  dsimp only
  rw [←hnodeName,hcompared,hcount,if_neg (not_not.mpr rfl),if_neg (lt_irrefl _),if_neg,
    if_neg (not_not.mpr hsame)]
  simp only [kMaxCompareLen,length_append,length_cons,length_nil] at hle hlength ⊢
  omega

/-- A child whose name is too long is found by its mangled name, if that shows all digits of its id;
and any name finds nothing but a child of the folder whose name agrees in the bytes compared, which
lie in both names. -/
theorem locateCatalogNodeByMangledName_finds (locate : LocateRecord) (folderID : ℕ) :
    (∀ child cnid key,(∀ ch∈child,ch<2^16) → 16≤cnid → cnid<2^32 → AllDigitsShown cnid →
      (utf8Encodestr child (direntMaxNameBytes+1) colon noFlags).1≠none → folderID≠0 →
      locate cnid []=some (key,.thread folderID child) →
      locate folderID child=some (⟨folderID,child⟩,.node cnid) →
      locateCatalogNodeByMangledName locate folderID
        (convertUnicodeToUTF8Mangled child (direntMaxNameBytes+1) cnid).1
        (convertUnicodeToUTF8Mangled child (direntMaxNameBytes+1) cnid).2.1 =
          .noErr ⟨folderID,child⟩ (.node cnid)) ∧ ∀ name length key record,
      locateCatalogNodeByMangledName locate folderID name length=.noErr key record →
        ∃ n,Agrees locate folderID name length key record n :=
  ⟨fun _ _ _ hunits h16 h32 hshown hlong hfolder hthread hnode =>
    found_of_long hunits h16 h32 hshown hlong hfolder hthread hnode,
    fun _ _ _ _ h => agrees_of_noErr h⟩

/-- A folder 20 with one child, of id 26 and with a long name. -/
def oneChild : LocateRecord := fun folderID name =>
  if folderID=26 ∧ name=[] then some (⟨26,[]⟩,.thread 20 longName)
  else if folderID=20 ∧ name=longName then some (⟨20,longName⟩,.node 26)
  else none

theorem locateCatalogNodeByMangledName_finds_oneChild : locateCatalogNodeByMangledName oneChild 20
      (convertUnicodeToUTF8Mangled longName (direntMaxNameBytes+1) 26).1
      (convertUnicodeToUTF8Mangled longName (direntMaxNameBytes+1) 26).2.1 =
        .noErr ⟨20,longName⟩ (.node 26) :=
  (locateCatalogNodeByMangledName_finds oneChild 20).1 longName 26 ⟨26,[]⟩ longName_lt
    (by decide) (by decide) (by decide) (by decide) (by decide) rfl
    (by rw [oneChild,if_neg (by decide),if_pos ⟨rfl,rfl⟩])

/-- A name that agrees in 60 bytes and differs in the next twenty. -/
def otherName : List ℕ := replicate 60 0x61++replicate 20 0x62++[hash,0x31,0x41]

theorem otherName_found : ¬∀ name length key record,
    locateCatalogNodeByMangledName oneChild 20 name length=.noErr key record →
      name.take (getEmbeddedFileID name length).2 <+: encoded colon noFlags key.nodeName := by
  intro h
  have hfound : locateCatalogNodeByMangledName oneChild 20 otherName 83 =
      .noErr ⟨20,longName⟩ (.node 26) := by
    decide +kernel
  exact absurd (h _ _ _ _ hfound) (by decide)

end Darwin.Hfs.MangledLookup
