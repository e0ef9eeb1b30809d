import Darwin.IOKit.NvramOldWorld
import Mathlib.Data.List.GetD
import Mathlib.Data.List.TakeWhile

/-! What `initOFVariables` reads from an image with fixed places that `syncOFVariables` has
written. -/
open List Function
namespace Darwin.IOKit.Nvram

/-! ### The checksum -/

lemma toNat_foldl_words (words : List (BitVec 16)) (sum : BitVec 32)
    (h : sum.toNat+words.length*0xFFFF<2^32) :
    (words.foldl (fun sum word => sum+word.setWidth 32) sum).toNat =
      sum.toNat+(words.map BitVec.toNat).sum := by
  induction words generalizing sum with
  | nil => rfl
  | cons word words ih =>
    have hword := word.isLt
    rw [length_cons] at h
    have hadd : (sum+word.setWidth 32).toNat=sum.toNat+word.toNat := by
      rw [BitVec.toNat_add,BitVec.toNat_setWidth,Nat.mod_eq_of_lt (by omega : word.toNat<2^32),
        Nat.mod_eq_of_lt (by omega)]
    rw [foldl_cons,ih _ (by rw [hadd]; omega),hadd,map_cons,sum_cons]
    omega

lemma OWImage.length_words (image : OWImage) : image.words.length=1024 := by
  simp [words,wordsBehind,halves,owPartitionSize,sizeofOWVariablesHeader,length_flatMap,comp_def]

lemma OWImage.toNat_sumWords (image : OWImage) :
    (sumWords image.words).toNat=(image.words.map BitVec.toNat).sum := by
  have h := toNat_foldl_words image.words 0 (by
    rw [image.length_words]
    decide)
  rwa [show (0 : BitVec 32).toNat=0 from rfl,Nat.zero_add] at h

lemma sum_le_length (words : List (BitVec 16)) :
    (words.map BitVec.toNat).sum≤words.length*0xFFFF := by
  induction words with
  | nil => exact le_rfl
  | cons word words ih =>
    have hword := word.isLt
    rw [map_cons,sum_cons,length_cons]
    omega

lemma fold_sum {sum : BitVec 32} (hpos : 0<sum.toNat) (hlt : sum.toNat<2^31)
    (hmod : sum.toNat%0xFFFF=0) : (sum>>>16)+(sum&&&0xFFFF)=0xFFFF := by
  apply BitVec.eq_of_toNat_eq
  have hhigh : (sum>>>16).toNat=sum.toNat/2^16 := by
    rw [BitVec.toNat_ushiftRight,Nat.shiftRight_eq_div_pow]
  have hlow : (sum&&&0xFFFF).toNat=sum.toNat%2^16 := by
    rw [BitVec.toNat_and]
    exact Nat.and_two_pow_sub_one_eq_mod _ 16
  rw [BitVec.toNat_add,hhigh,hlow]
  change _=2^16-1
  obtain ⟨k,hk⟩ := Nat.dvd_of_mod_eq_zero hmod
  have hquotient : sum.toNat/2^16=k-1 := by
    have hless : sum.toNat/2^16<k := by omega
    have hmore : k-2<sum.toNat/2^16+1 := by omega
    omega
  have hsplit := Nat.div_add_mod sum.toNat (2^16)
  rw [hquotient] at hsplit ⊢
  rw [Nat.mod_eq_of_lt (by omega)]
  omega

lemma validateOWChecksum_of_fold {image : OWImage}
    (h : (sumWords image.words>>>16)+(sumWords image.words&&&0xFFFF)=0xFFFF) :
    validateOWChecksum image=true := by
  unfold validateOWChecksum
  generalize sumWords image.words=sum at h ⊢
  simp only [h]
  decide

def OWImage.withChecksum (image : OWImage) (checksum : BitVec 16) : OWImage :=
  {image with header := {image.header with owChecksum := checksum}}

lemma OWImage.object_withChecksum (image : OWImage) (checksum : BitVec 16) (v : OWVariable) :
    (image.withChecksum checksum).object v=image.object v := rfl

lemma OWImage.sum_withChecksum (image : OWImage) (checksum : BitVec 16)
    (hzero : image.header.owChecksum=0) :
    ((image.withChecksum checksum).words.map BitVec.toNat).sum =
      (image.words.map BitVec.toNat).sum+checksum.toNat := by
  have hold : image.words=[image.header.owMagic,image.header.owVersion++image.header.owPages,
      image.header.owChecksum]++image.wordsBehind := rfl
  have hnew : (image.withChecksum checksum).words=[image.header.owMagic,
      image.header.owVersion++image.header.owPages,checksum]++image.wordsBehind := rfl
  rw [hold,hnew,hzero]
  simp only [map_append,map_cons,map_nil,sum_append,sum_cons,
    sum_nil,show (0 : BitVec 16).toNat=0 from rfl]
  omega

lemma validate_generated (image : OWImage) (hzero : image.header.owChecksum=0) :
    validateOWChecksum (image.withChecksum (~~~generateOWChecksum image))=true := by
  have hsum := image.toNat_sumWords
  have hle := sum_le_length image.words
  rw [image.length_words] at hle
  have hgenerated : (~~~generateOWChecksum image).toNat =
      0xFFFF-(sumWords image.words).toNat%0xFFFF := by
    rw [BitVec.toNat_not,generateOWChecksum,BitVec.truncate_eq_setWidth,BitVec.toNat_setWidth,
      BitVec.toNat_umod,show (0xFFFF : BitVec 32).toNat=0xFFFF from rfl]
    omega
  generalize ~~~generateOWChecksum image=checksum at hgenerated ⊢
  have htotal := (image.withChecksum checksum).toNat_sumWords
  rw [image.sum_withChecksum checksum hzero,hgenerated,←hsum] at htotal
  have hmod := Nat.mod_lt (sumWords image.words).toNat (by decide : 0xFFFF > 0)
  exact validateOWChecksum_of_fold (fold_sum (by omega) (by omega) (by omega))

/-! ### The variables -/

def Apart (v w : OWVariable) : Prop :=
  v.propSymbol≠w.propSymbol ∧ (v.propType=w.propType → v.propOffset≠w.propOffset ∧
    (v.propType=.boolean → BitVec.ofNat 32 v.propOffset&&&BitVec.ofNat 32 w.propOffset=0))

instance (v w : OWVariable) : Decidable (Apart v w) := by
  unfold Apart
  infer_instance

lemma owVariables_apart : owVariables.Pairwise Apart := by decide

lemma owVariables_bit : ∀ v∈owVariables,BitVec.ofNat 32 v.propOffset≠0 ∨
    v.propType≠.boolean := by decide

def FitsPlace : OSObject → Prop
  | .number value => value.toNat<2^32
  | .string text => 0∉text
  | _ => True

/-- The loop between two variables: those that are done can be read. -/
structure Synced (dict : OSDictionary) (done rest : List OWVariable) (st : Syncing) : Prop where
  low : 92 ≤ st.curOffset.toNat
  high : st.curOffset.toNat≤owPartitionSize
  object : ∀ v∈done,dict v.propSymbol=some (st.image.object v)
  above : ∀ v∈done,v.propType=.string → owPartitionOffset+st.curOffset.toNat ≤
    (st.image.header.owStrings v.propOffset).offset.toNat
  clear : ∀ v∈rest,v.propType=.boolean → st.image.header.owFlags&&&BitVec.ofNat 32 v.propOffset=0

section Step

variable {dict : OSDictionary} {done rest : List OWVariable} {st : Syncing} {v : OWVariable}

lemma Synced.boolean (h : Synced dict done (v::rest) st)
    (hapart : (done++v::rest).Pairwise Apart) (htype : v.propType=.boolean)
    (hbit : BitVec.ofNat 32 v.propOffset≠0) {value : Bool}
    (hvalue : dict v.propSymbol=some (.boolean value)) {owFlags : BitVec 32}
    (hflags : owFlags=if value then st.image.header.owFlags|||BitVec.ofNat 32 v.propOffset
      else st.image.header.owFlags) :
    Synced dict (done++[v]) rest { st with
      image := {st.image with header := {st.image.header with owFlags := owFlags}}} := by
  obtain ⟨-,hrest,hdone⟩ := pairwise_append.mp hapart
  have hother : ∀ w,Apart w v ∨ Apart v w → w.propType=.boolean →
      owFlags&&&BitVec.ofNat 32 w.propOffset =
        st.image.header.owFlags&&&BitVec.ofNat 32 w.propOffset := by
    intro w hw hwtype
    have hmeet : BitVec.ofNat 32 v.propOffset&&&BitVec.ofNat 32 w.propOffset=0 := by
      rcases hw with hw | hw
      · rw [BitVec.and_comm]
        exact (hw.2 (hwtype.trans htype.symm)).2 hwtype
      · exact (hw.2 (htype.trans hwtype.symm)).2 htype
    rw [hflags]
    split_ifs
    · rw [BitVec.and_or_distrib_right,hmeet]
      exact BitVec.or_zero
    · rfl
  have hown : (owFlags&&&BitVec.ofNat 32 v.propOffset≠0) ↔ value=true := by
    have hclear := h.clear v mem_cons_self htype
    cases value with
    | true =>
      rw [hflags,if_pos rfl,BitVec.and_or_distrib_right,hclear,BitVec.and_self]
      simpa using hbit
    | false =>
      rw [hflags,if_neg Bool.false_ne_true,hclear]
      simp
  refine ⟨h.low,h.high,fun w hw => ?_,fun w hw hwtype => ?_,fun w hw hwtype => ?_⟩
  · rcases mem_append.mp hw with hw | hw
    · rw [h.object w hw]
      simp only [OWImage.object]
      cases hwtype : w.propType with
      | boolean => simp only [hother w (Or.inl (hdone w hw v mem_cons_self)) hwtype]
      | number => rfl
      | string => rfl
      | data => rfl
    · rw [mem_singleton.mp hw,hvalue]
      have hread : decide (owFlags&&&BitVec.ofNat 32 v.propOffset≠0)=value := by
        rw [Bool.eq_iff_iff,decide_eq_true_iff]
        exact hown
      simp only [OWImage.object,htype,hread]
  · rcases mem_append.mp hw with hw | hw
    · exact h.above w hw hwtype
    · rw [mem_singleton.mp hw,htype] at hwtype
      cases hwtype
  · have happart := (pairwise_cons.mp hrest).1 w hw
    rw [hother w (Or.inr happart) hwtype]
    exact h.clear w (mem_cons_of_mem _ hw) hwtype

lemma withNumber32_truncate {value : BitVec 64} (h : value.toNat<2^32) :
    withNumber32 ((value.truncate 32).toNat : ℤ)=value := by
  have htruncate : (value.truncate 32).toNat=value.toNat := by
    rw [BitVec.truncate_eq_setWidth,BitVec.toNat_setWidth,Nat.mod_eq_of_lt h]
  rw [htruncate]
  exact withNumber32_ofNat h

lemma Synced.number (h : Synced dict done (v::rest) st)
    (hapart : (done++v::rest).Pairwise Apart) (htype : v.propType=.number)
    {value : BitVec 64} (hvalue : dict v.propSymbol=some (.number value))
    (hfits : value.toNat<2^32) :
    Synced dict (done++[v]) rest { st with
      image := { st.image with header := { st.image.header with
        owNumbers := Function.update st.image.header.owNumbers v.propOffset
          (value.truncate 32)}}} := by
  obtain ⟨-,hrest,hdone⟩ := pairwise_append.mp hapart
  refine ⟨h.low,h.high,fun w hw => ?_,fun w hw hwtype => ?_,fun w hw hwtype => ?_⟩
  · rcases mem_append.mp hw with hw | hw
    · rw [h.object w hw]
      simp only [OWImage.object]
      cases hwtype : w.propType with
      | boolean => rfl
      | number =>
        have hne := ((hdone w hw v mem_cons_self).2 (hwtype.trans htype.symm)).1
        simp only [update_of_ne hne]
      | string => rfl
      | data => rfl
    · rw [mem_singleton.mp hw,hvalue]
      simp only [OWImage.object,htype,update_self]
      rw [withNumber32_truncate hfits]
  · rcases mem_append.mp hw with hw | hw
    · exact h.above w hw hwtype
    · rw [mem_singleton.mp hw,htype] at hwtype
      cases hwtype
  · exact h.clear w (mem_cons_of_mem _ hw) hwtype

lemma bytesFrom_congr {area area' : ℕ → UInt8} {start length : ℕ}
    (h : ∀ i,start ≤ i → area' i=area i) :
    bytesFrom area' start length=bytesFrom area start length :=
  map_congr_left fun i _ => h (start+i) (Nat.le_add_right start i)

lemma bytesFrom_written {area : ℕ → UInt8} {start : ℕ} (text : List UInt8) :
    bytesFrom (fun i => if start ≤ i ∧ i<start+text.length then text.getD (i-start) 0
      else area i) start text.length=text := by
  apply ext_getElem
  · simp [bytesFrom]
  · intro i hi htext
    simp only [bytesFrom,getElem_map,getElem_range]
    rw [if_pos ⟨by omega,by omega⟩,Nat.add_sub_cancel_left,getD_eq_getElem _ _ htext]

lemma Synced.string (h : Synced dict done (v::rest) st)
    (hapart : (done++v::rest).Pairwise Apart) (htype : v.propType=.string)
    {text : List UInt8} (hvalue : dict v.propSymbol=some (.string text)) (hfits : 0∉text)
    {curOffset : BitVec 32} (hcur : curOffset=st.curOffset-BitVec.ofNat 32 text.length)
    (hlow : ¬curOffset<92) (hroom : ¬owPartitionSize<curOffset.toNat+text.length) :
    Synced dict (done++[v]) rest { st with
      image :=
        { header := { st.image.header with
            owStrings := Function.update st.image.header.owStrings v.propOffset
              ⟨(curOffset+BitVec.ofNat 32 owPartitionOffset).truncate 16,
                (BitVec.ofNat 32 text.length).truncate 16⟩}
          area := fun i =>
            if curOffset.toNat ≤ i ∧ i<curOffset.toNat+text.length then
              text.getD (i-curOffset.toNat) 0
            else st.image.area i}
      curOffset := curOffset} := by
  obtain ⟨-,hrest,hdone⟩ := pairwise_append.mp hapart
  have hhigh := h.high
  have hsize : owPartitionSize=0x800 := rfl
  have hfar : owPartitionOffset=0x1800 := rfl
  have hlow' : 92≤curOffset.toNat := by
    rw [BitVec.lt_def,show (92 : BitVec 32).toNat=92 from rfl] at hlow
    omega
  have hlength : (BitVec.ofNat 32 text.length).toNat=text.length := by
    rw [BitVec.toNat_ofNat,Nat.mod_eq_of_lt (by omega)]
  -- the room check fails to see a text longer than `curOffset`; the buffer's end does not
  have hstart : curOffset.toNat+text.length=st.curOffset.toNat := by
    have hsub : curOffset.toNat=(2^32-text.length+st.curOffset.toNat)%2^32 := by
      rw [hcur,BitVec.toNat_sub,hlength]
    omega
  have hoffset : ((curOffset+BitVec.ofNat 32 owPartitionOffset).truncate 16).toNat =
      owPartitionOffset+curOffset.toNat := by
    rw [BitVec.truncate_eq_setWidth,BitVec.toNat_setWidth,BitVec.toNat_add,BitVec.toNat_ofNat]
    omega
  have hlength16 : ((BitVec.ofNat 32 text.length).truncate 16).toNat=text.length := by
    rw [BitVec.truncate_eq_setWidth,BitVec.toNat_setWidth,hlength,Nat.mod_eq_of_lt (by omega)]
  have hne : ∀ w∈done,w.propType=.string → w.propOffset≠v.propOffset := by
    intro w hw hwtype
    exact ((hdone w hw v mem_cons_self).2 (hwtype.trans htype.symm)).1
  have hhigh' : curOffset.toNat≤owPartitionSize := by omega
  refine ⟨hlow',hhigh',fun w hw => ?_,fun w hw hwtype => ?_,fun w hw hwtype => ?_⟩
  · rcases mem_append.mp hw with hw | hw
    · rw [h.object w hw]
      simp only [OWImage.object]
      cases hwtype : w.propType with
      | boolean => rfl
      | number => rfl
      | string =>
        have habove := h.above w hw hwtype
        simp only [update_of_ne (hne w hw hwtype)]
        rw [bytesFrom_congr fun i hi => if_neg (by omega)]
      | data => rfl
    · rw [mem_singleton.mp hw,hvalue]
      simp only [OWImage.object,htype,update_self]
      rw [hoffset,hlength16,Nat.add_sub_cancel_left,bytesFrom_written]
      have htake : text.takeWhile (·≠0)=text := by
        rw [takeWhile_eq_self_iff]
        intro c hc
        rw [decide_eq_true_iff]
        rintro rfl
        exact hfits hc
      rw [htake]
  · change _ ≤
      ((Function.update st.image.header.owStrings v.propOffset _) w.propOffset).offset.toNat
    rcases mem_append.mp hw with hw | hw
    · have habove := h.above w hw hwtype
      rw [update_of_ne (hne w hw hwtype)]
      change owPartitionOffset+curOffset.toNat≤_
      omega
    · rw [mem_singleton.mp hw,update_self]
      exact hoffset.ge
  · exact h.clear w (mem_cons_of_mem _ hw) hwtype

lemma Synced.variable {st' : Syncing} (h : Synced dict done (v::rest) st)
    (hapart : (done++v::rest).Pairwise Apart) (hmem : v∈owVariables)
    (hfits : ∀ object,dict v.propSymbol=some object → FitsPlace object)
    (hsync : syncVariable dict st v=some st') (hok : st'.ok=true) :
    Synced dict (done++[v]) rest st' := by
  unfold syncVariable at hsync
  split at hsync
  · rename_i value htype hvalue
    cases hsync
    exact h.boolean hapart htype ((owVariables_bit v hmem).resolve_right (· htype)) hvalue rfl
  · rename_i value htype hvalue
    cases hsync
    exact h.number hapart htype hvalue (hfits _ hvalue)
  · rename_i text htype hvalue
    simp only at hsync
    split_ifs at hsync with hlow hroom
    · cases hsync
      cases hok
    · cases hsync
      exact h.string hapart htype hvalue (hfits _ hvalue) rfl hlow hroom
  · cases hsync

lemma syncVariables_of_not_ok (rest : List OWVariable) (h : st.ok=false) :
    syncVariables dict rest st=some st := by
  cases rest with
  | nil => rfl
  | cons v rest => rw [syncVariables,if_neg (h▸Bool.false_ne_true)]

lemma synced_syncVariables {st' : Syncing} (h : Synced dict done rest st)
    (hapart : (done++rest).Pairwise Apart) (hmem : ∀ v∈rest,v∈owVariables)
    (hfits : ∀ v∈rest,∀ object,dict v.propSymbol=some object → FitsPlace object)
    (hsync : syncVariables dict rest st=some st') (hok : st'.ok=true) :
    Synced dict (done++rest) [] st' := by
  induction rest generalizing done st with
  | nil =>
    cases hsync
    rwa [append_nil]
  | cons v rest ih =>
    rw [syncVariables] at hsync
    split_ifs at hsync with hgoing
    · split at hsync
      · cases hsync
      · rename_i st'' hstep
        by_cases hok' : st''.ok=true
        · have hnext := h.variable hapart (hmem v mem_cons_self) (hfits v mem_cons_self)
            hstep hok'
          have hloop := ih hnext (by rwa [append_assoc])
            (fun w hw => hmem w (mem_cons_of_mem _ hw))
            (fun w hw => hfits w (mem_cons_of_mem _ hw)) hsync
          rwa [append_assoc] at hloop
        · rw [syncVariables_of_not_ok _ (Bool.eq_false_iff.mpr hok')] at hsync
          cases hsync
          exact absurd hok hok'
    · cases hsync
      exact absurd hok hgoing

end Step

/-! ### What is read back -/

lemma foldl_setObject (image : OWImage) (vs : List OWVariable) (dict : OSDictionary)
    (name : List UInt8) (hname : ∀ v∈vs,v.propSymbol≠name) :
    vs.foldl (fun dict v => OSDictionary.setObject dict v.propSymbol (image.object v)) dict name =
      dict name := by
  induction vs generalizing dict with
  | nil => rfl
  | cons v vs ih =>
    rw [foldl_cons,ih _ fun w hw => hname w (mem_cons_of_mem _ hw),
      OSDictionary.setObject,update_of_ne (hname v mem_cons_self).symm]

lemma foldl_setObject_mem (image : OWImage) {vs : List OWVariable} (dict : OSDictionary)
    (hapart : vs.Pairwise Apart) {v : OWVariable} (hv : v∈vs) :
    vs.foldl (fun dict v => OSDictionary.setObject dict v.propSymbol (image.object v)) dict
      v.propSymbol=some (image.object v) := by
  induction vs generalizing dict with
  | nil => cases hv
  | cons w vs ih =>
    obtain ⟨hhead,htail⟩ := pairwise_cons.mp hapart
    rw [foldl_cons]
    rcases mem_cons.mp hv with rfl | hv
    · rw [foldl_setObject image vs _ _ fun w hw => (hhead w hw).1.symm,OSDictionary.setObject,
        update_self]
    · exact ih _ htail hv

lemma bootArgs_notMem : ∀ v∈owVariables,v.propSymbol≠bootArgs := by decide

lemma exists_bootCommand : ∃ v∈owVariables,v.propSymbol=bootCommand ∧ v.propType=.string := by
  decide

def argsOf (object : Option OSObject) : Option OSObject :=
  match object with
  | some (.string command) => (findBootr command).map OSObject.string
  | _ => none

lemma updateOWBootArgs_bootCommand (dict : OSDictionary) (text : List UInt8) :
    updateOWBootArgs dict bootCommand (.string text) =
      Function.update dict bootArgs (argsOf (some (.string text))) := by
  rw [updateOWBootArgs,if_pos rfl,argsOf]
  cases findBootr text with
  | none => rfl
  | some args => rfl

lemma oldWorldVariables_eq {image : OWImage} {text : List UInt8}
    (hvalid : validateOWChecksum image=true)
    (hcommand : owVariables.foldl
      (fun dict v => OSDictionary.setObject dict v.propSymbol (image.object v)) (fun _ => none)
      bootCommand=some (.string text)) :
    oldWorldVariables image=some (Function.update (owVariables.foldl
      (fun dict v => OSDictionary.setObject dict v.propSymbol (image.object v)) fun _ => none)
      bootArgs (argsOf (some (.string text)))) := by
  rw [oldWorldVariables,if_pos hvalid]
  generalize owVariables.foldl (fun dict v => OSDictionary.setObject dict v.propSymbol
    (image.object v)) (fun _ => none)=read at hcommand ⊢
  simp only [hcommand,updateOWBootArgs_bootCommand]

lemma validate_oldWorldBuffer {ofImage image : OWImage} {dict : OSDictionary}
    (h : oldWorldBuffer ofImage dict=some (some image)) : validateOWChecksum image=true := by
  rw [oldWorldBuffer] at h
  split at h
  · cases h
  · split_ifs at h with hok
    · cases h
      exact validate_generated _ rfl
    · cases h

lemma oldWorldVariables_oldWorldBuffer {ofImage image : OWImage} {dict : OSDictionary}
    (hfits : ∀ v∈owVariables,∀ object,dict v.propSymbol=some object → FitsPlace object)
    (h : oldWorldBuffer ofImage dict=some (some image)) : ∃ read,oldWorldVariables image=some read ∧
      (∀ v∈owVariables,read v.propSymbol=dict v.propSymbol) ∧
      (∀ name,name≠bootArgs → (∀ v∈owVariables,v.propSymbol≠name) → read name=none) ∧
      read bootArgs=argsOf (dict bootCommand) := by
  have hvalid := validate_oldWorldBuffer h
  obtain ⟨st,hst,hok,hobject⟩ : ∃ st,syncVariables dict owVariables
      ⟨⟨ofImage.header.blank,fun _ => 0⟩,BitVec.ofNat 32 owPartitionSize,true⟩=some st ∧
      st.ok=true ∧ ∀ v,image.object v=st.image.object v := by
    rw [oldWorldBuffer] at h
    split at h
    · cases h
    · rename_i st hst
      split_ifs at h with hok
      · cases h
        exact ⟨st,hst,hok,st.unsummed.object_withChecksum _⟩
      · cases h
  have hsynced : Synced dict ([]++owVariables) [] st :=
    synced_syncVariables
      ⟨(by decide : 92≤(BitVec.ofNat 32 owPartitionSize).toNat),
        (by decide : (BitVec.ofNat 32 owPartitionSize).toNat≤owPartitionSize),
        fun v hv => (not_mem_nil hv).elim,
        fun v hv => (not_mem_nil hv).elim,fun v _ _ => BitVec.zero_and⟩
      owVariables_apart (fun v hv => hv) hfits hst hok
  have hvalues : ∀ v∈owVariables,dict v.propSymbol=some (image.object v) := fun v hv =>
    (hsynced.object v hv).trans (congrArg some (hobject v).symm)
  obtain ⟨w,hw,hname,htype⟩ := exists_bootCommand
  have hcommand : ∃ text,image.object w=.string text := by
    rw [OWImage.object,htype]
    exact ⟨_,rfl⟩
  obtain ⟨text,htext⟩ := hcommand
  have hread := foldl_setObject_mem image (fun _ => none) owVariables_apart hw
  rw [hname,htext] at hread
  have hdict : dict bootCommand=some (.string text) := by rw [←hname,hvalues w hw,htext]
  refine ⟨_,oldWorldVariables_eq hvalid hread,fun v hv => ?_,fun name hne hother => ?_,?_⟩
  · rw [update_of_ne (bootArgs_notMem v hv),hvalues v hv,
      foldl_setObject_mem image _ owVariables_apart hv]
  · rw [update_of_ne hne,foldl_setObject image owVariables _ name hother]
  · rw [update_self,hdict]

end Darwin.IOKit.Nvram
