import Darwin.IOKit.NvramNewWorld
import Darwin.IOKit.NvramOldWorldImage

/-! `syncOFVariables` writes the variables into the image of their partition, and `initOFVariables`
reads them from it. -/
open Option Function List
namespace Darwin.IOKit.Nvram

inductive IOReturn
  | success | notReady | noMemory | badArgument | badMedia
  deriving DecidableEq

/-- The image of the partition, on a machine that starts from a boot ROM and on the others. -/
inductive OFImage
  | newWorld (bytes : List UInt8)
  | oldWorld (image : OWImage)

structure IODTNVRAM where
  ofImage : Option OFImage
  ofDict : Option OSDictionary
  ofImageDirty : Bool
  nvramImageDirty : Bool

def OFImage.buffer (dict : OSDictionary) (keys : List (List UInt8)) :
    OFImage → Option (Option OFImage)
  | .newWorld bytes => some ((newWorldBuffer bytes.length dict keys).map OFImage.newWorld)
  | .oldWorld image => (oldWorldBuffer image dict).map (Option.map OFImage.oldWorld)

/-- `keys` are in the iterator's order, and `memory` tells whether there is a buffer. A call that
does not return gives `none`. -/
def syncOFVariables (memory : Bool) (keys : List (List UInt8)) (nvram : IODTNVRAM) :
    Option (IOReturn × IODTNVRAM) :=
  match nvram.ofImage,nvram.ofDict with
  | some ofImage,some dict =>
    if nvram.ofImageDirty=false then some (.success,nvram)
    else if memory=false then some (.noMemory,nvram)
    else
      match ofImage.buffer dict keys with
      | none => none
      | some none => some (.badArgument,nvram)
      | some (some buffer) =>
        some (.success,
          {nvram with ofImage := some buffer,ofImageDirty := false,nvramImageDirty := true})
  | _,_ => some (.notReady,nvram)

def OFImage.dictionary : OFImage → Option OSDictionary
  | .newWorld bytes => some (newWorldVariables bytes)
  | .oldWorld image => oldWorldVariables image

def IODTNVRAM.withVariables (nvram : IODTNVRAM) : Option OSDictionary → IOReturn × IODTNVRAM
  | none => (.badMedia,{nvram with ofDict := none})
  | some dict => (.success,{nvram with ofDict := some dict})

def initOFVariables (nvram : IODTNVRAM) : IOReturn × IODTNVRAM :=
  match nvram.ofImage with
  | none => (.notReady,nvram)
  | some ofImage => nvram.withVariables ofImage.dictionary

/-! ### What comes back -/

def Keeps (dict : OSDictionary) : OFImage → Prop
  | .newWorld _ => ∀ name object,dict name=some object → PlainName name ∧ PlainValue object
  | .oldWorld _ =>
    ∀ v∈owVariables,∀ object,dict v.propSymbol=some object → FitsPlace object

/-- The dictionary that is rebuilt: an empty `boot-args` is added where there is none, or the
variables are those that have a place and `boot-args` comes from `boot-command`. -/
def Rebuilt (dict read : OSDictionary) : OFImage → Prop
  | .newWorld _ => read =
    if dict bootArgs=none then OSDictionary.setObject dict bootArgs (.string []) else dict
  | .oldWorld _ =>
    (∀ v∈owVariables,read v.propSymbol=dict v.propSymbol) ∧
      (∀ name,name≠bootArgs → (∀ v∈owVariables,v.propSymbol≠name) → read name=none) ∧
      read bootArgs=argsOf (dict bootCommand)

def OFImage.Valid : OFImage → Prop
  | .newWorld _ => True
  | .oldWorld image => validateOWChecksum image=true

variable {memory : Bool} {keys : List (List UInt8)} {nvram nvram' : IODTNVRAM} {result : IOReturn}
  {dict : OSDictionary} {ofImage buffer : OFImage}

lemma initOFVariables_eq {read : OSDictionary} (himage : nvram.ofImage=some ofImage)
    (hread : ofImage.dictionary=some read) :
    initOFVariables nvram=(.success,{nvram with ofDict := some read}) := by
  rw [initOFVariables,himage]
  change nvram.withVariables ofImage.dictionary=_
  rw [hread,IODTNVRAM.withVariables,himage]

lemma syncOFVariables_cases (h : syncOFVariables memory keys nvram=some (result,nvram')) :
    nvram'=nvram ∧ (result=.success → nvram.ofImageDirty=false) ∨
      result=.success ∧ ∃ ofImage dict buffer,nvram.ofImage=some ofImage ∧
        nvram.ofDict=some dict ∧ ofImage.buffer dict keys=some (some buffer) ∧ nvram' =
          { nvram with
            ofImage := some buffer
            ofImageDirty := false
            nvramImageDirty := true} := by
  unfold syncOFVariables at h
  split at h
  · rename_i ofImage dict himage hdict
    split_ifs at h with hclean hmemory
    · cases h
      exact Or.inl ⟨rfl,fun _ => hclean⟩
    · cases h
      exact Or.inl ⟨rfl,fun hresult => by cases hresult⟩
    · split at h
      · cases h
      · cases h
        exact Or.inl ⟨rfl,fun hresult => by cases hresult⟩
      · rename_i buffer hbuffer
        cases h
        exact Or.inr ⟨rfl,ofImage,dict,buffer,himage,hdict,hbuffer,rfl⟩
  · cases h
    exact Or.inl ⟨rfl,fun hresult => by cases hresult⟩

lemma OFImage.buffer_valid (h : ofImage.buffer dict keys=some (some buffer)) : buffer.Valid := by
  cases ofImage with
  | newWorld bytes =>
    simp only [OFImage.buffer,some.injEq,map_eq_some_iff] at h
    obtain ⟨written,-,rfl⟩ := h
    exact trivial
  | oldWorld image =>
    simp only [OFImage.buffer,map_eq_some_iff] at h
    obtain ⟨_,hwritten,written,rfl,rfl⟩ := h
    exact validate_oldWorldBuffer hwritten

lemma OFImage.buffer_rebuilt (hkeys : ∀ name,name∈keys ↔ dict name≠none)
    (hkeeps : Keeps dict ofImage) (h : ofImage.buffer dict keys=some (some buffer))
    (hnvram : nvram.ofImage=some buffer) :
    ∃ read,initOFVariables nvram=(.success,{nvram with ofDict := some read}) ∧
      Rebuilt dict read ofImage := by
  cases ofImage with
  | newWorld bytes =>
    simp only [OFImage.buffer,some.injEq,map_eq_some_iff] at h
    obtain ⟨written,hwritten,rfl⟩ := h
    have hplain : Plain dict keys := by
      intro name hname
      obtain ⟨object,hobject⟩ := ne_none_iff_exists'.mp ((hkeys name).mp hname)
      exact ⟨(hkeeps name object hobject).1,fun object hobject => (hkeeps name object hobject).2⟩
    obtain ⟨-,hread⟩ := newWorldVariables_newWorldBuffer hplain hkeys hwritten
    exact ⟨_,initOFVariables_eq hnvram rfl,hread⟩
  | oldWorld image =>
    simp only [OFImage.buffer,map_eq_some_iff] at h
    obtain ⟨_,hwritten,written,rfl,rfl⟩ := h
    obtain ⟨read,hread,hrebuilt⟩ := oldWorldVariables_oldWorldBuffer hkeeps hwritten
    exact ⟨read,initOFVariables_eq hnvram hread,hrebuilt⟩

/-- A write that succeeds leaves an image that is valid and gives the dictionary back, and a call
that fails leaves the image as it was. -/
theorem syncOFVariables_rebuilt (himage : nvram.ofImage=some ofImage)
    (hdict : nvram.ofDict=some dict) (hkeys : ∀ name,name∈keys ↔ dict name≠none)
    (h : syncOFVariables memory keys nvram=some (result,nvram')) :
    (result≠.success → nvram'=nvram) ∧ (result=.success → nvram.ofImageDirty=true →
        ∃ buffer,nvram'.ofImage=some buffer ∧ buffer.Valid ∧ (Keeps dict ofImage → ∃ read,
            initOFVariables nvram'=(.success,{nvram' with ofDict := some read}) ∧
              Rebuilt dict read ofImage)) := by
  rcases syncOFVariables_cases h with ⟨hsame,hclean⟩ | 
      ⟨hsuccess,image,dict',buffer,himage',hdict',hwritten,hnext⟩
  · refine ⟨fun _ => hsame,fun hresult hdirty => ?_⟩
    rw [hclean hresult] at hdirty
    cases hdirty
  · refine ⟨fun hresult => absurd hsuccess hresult,fun _ _ => ?_⟩
    obtain rfl := some.inj (himage'.symm.trans himage)
    obtain rfl := some.inj (hdict'.symm.trans hdict)
    have hbuffer : nvram'.ofImage=some buffer := by rw [hnext]
    exact ⟨buffer,hbuffer,OFImage.buffer_valid hwritten,fun hkeeps =>
      OFImage.buffer_rebuilt hkeys hkeeps hwritten hbuffer⟩

lemma syncOFVariables_of_buffer (h : ofImage.buffer dict keys=some (some buffer)) :
    syncOFVariables true keys ⟨some ofImage,some dict,true,false⟩ =
      some (.success,⟨some buffer,some dict,false,true⟩) := by
  simp only [syncOFVariables,h,Bool.true_eq_false,if_false]

/-! ### Dictionaries of one variable -/

def oneVariable (name : List UInt8) (object : OSObject) : OSDictionary :=
  OSDictionary.setObject (fun _ => none) name object

lemma buffer_oneVariable {name bytes : List UInt8} {object : OSObject}
    (h : convertObjectToProp 0x80 name object=some bytes) :
    (OFImage.newWorld (replicate 0x80 0)).buffer (oneVariable name object) [name] =
      some (some (.newWorld (bytes++replicate (0x80-bytes.length) 0))) := by
  have hlookup : oneVariable name object name=some object := by
    rw [oneVariable,OSDictionary.setObject,update_self]
  simp only [OFImage.buffer,length_replicate,newWorldBuffer,syncLoop,hlookup,h,map_some,nil_append]

theorem syncOFVariables_rebuilt_bootFile :
    ∃ nvram',syncOFVariables true [ascii "boot-file"]
        ⟨some (.newWorld (replicate 0x80 0)),
          some (oneVariable (ascii "boot-file") (.string (ascii "x"))),true,false⟩ =
        some (.success,nvram') ∧
      ∃ read,initOFVariables nvram'=(.success,{nvram' with ofDict := some read}) ∧
        Rebuilt (oneVariable (ascii "boot-file") (.string (ascii "x"))) read
          (.newWorld (replicate 0x80 0)) := by
  have hwritten : convertObjectToProp 0x80 (ascii "boot-file") (.string (ascii "x")) =
      some (ascii "boot-file=x" ++ [0]) := by decide
  have hlookup : ∀ name,oneVariable (ascii "boot-file") (.string (ascii "x")) name =
      if name=ascii "boot-file" then some (.string (ascii "x")) else none :=
    update_apply _ _ _
  have hkeys : ∀ name,name ∈ [ascii "boot-file"] ↔
      oneVariable (ascii "boot-file") (.string (ascii "x")) name≠none := by
    intro name
    rw [hlookup,mem_singleton]
    split_ifs with hname <;> simp [hname]
  have hkeeps : Keeps (oneVariable (ascii "boot-file") (.string (ascii "x")))
      (.newWorld (replicate 0x80 0)) := by
    intro name object hobject
    rw [hlookup] at hobject
    split_ifs at hobject with hname
    cases hobject
    rw [hname]
    exact ⟨⟨by decide,by decide⟩,(by decide : 0∉ascii "x")⟩
  have hsync := syncOFVariables_of_buffer (buffer_oneVariable hwritten)
  obtain ⟨-,hsuccess⟩ := syncOFVariables_rebuilt rfl rfl hkeys hsync
  obtain ⟨buffer,-,-,hrebuilt⟩ := hsuccess rfl rfl
  exact ⟨_,hsync,hrebuilt hkeeps⟩

/-! ### Dictionaries that do not come back -/

def Differs (keys : List (List UInt8)) (dict : OSDictionary) (ofImage : OFImage)
    (key : List UInt8) : Prop :=
  ∃ nvram' read,syncOFVariables true keys ⟨some ofImage,some dict,true,false⟩ =
      some (.success,nvram') ∧
    initOFVariables nvram'=(.success,{nvram' with ofDict := some read}) ∧ read key≠dict key

lemma differs_oneVariable {name key : List UInt8} {object : OSObject} (other text : List UInt8)
    (object' : OSObject)
    (hwritten : convertObjectToProp 0x80 name object=some (other++61::text++[0]))
    (hother : PlainName other) (htext : 0∉text)
    (hconvert : convertPropToObject other text=some (other,object'))
    (hkey : (if oneVariable other object' bootArgs=none
      then OSDictionary.setObject (oneVariable other object') bootArgs (.string [])
      else oneVariable other object') key≠oneVariable name object key) :
    Differs [name] (oneVariable name object) (.newWorld (replicate 0x80 0)) key := by
  have hread : newWorldVariables (other++61::text++[0] ++
      replicate (0x80-(other++61::text++[0]).length) 0) =
      if oneVariable other object' bootArgs=none
        then OSDictionary.setObject (oneVariable other object') bootArgs (.string [])
        else oneVariable other object' := by
    rw [newWorldVariables,initLoop_entry _ hother htext hconvert,initLoop_zeroes]
    rfl
  exact ⟨_,_,syncOFVariables_of_buffer (buffer_oneVariable hwritten),
    initOFVariables_eq rfl (congrArg some hread),hkey⟩

def emptyVariables (args : List UInt8) : OSDictionary :=
  OSDictionary.setObject (fun name =>
    (gOFVariables.find? fun ofVar => ofVar.variableName=name).map fun ofVar =>
      match ofVar.variableType with
      | .boolean => .boolean false
      | .number => .number 0
      | .string => .string []
      | .data => .other) bootArgs (.string args)

def emptyImage : OWImage where
  header := ⟨0,0,0,0,0,0,0,0,fun _ => 0,fun _ => ⟨0,0⟩⟩
  area _ := 0

lemma emptyVariables_fits (args : List UInt8) :
    Keeps (emptyVariables args) (.oldWorld emptyImage) := by
  intro v hv object hobject
  rw [emptyVariables,OSDictionary.setObject,update_of_ne (bootArgs_notMem v hv),
    map_eq_some_iff] at hobject
  obtain ⟨ofVar,-,rfl⟩ := hobject
  cases htype : ofVar.variableType with
  | boolean => exact trivial
  | number => exact (by decide : (0 : BitVec 64).toNat<2^32)
  | string => exact not_mem_nil
  | data => exact trivial

lemma exists_oldWorldBuffer : ∃ image,
    oldWorldBuffer emptyImage (emptyVariables (ascii "-v"))=some (some image) := by
  have h : (oldWorldBuffer emptyImage (emptyVariables (ascii "-v"))).map isSome =
      some true := by decide
  obtain ⟨written,hwritten,hsome⟩ := map_eq_some_iff.mp h
  obtain ⟨image,rfl⟩ := isSome_iff_exists.mp hsome
  exact ⟨image,hwritten⟩

lemma differs_emptyVariables :
    Differs [] (emptyVariables (ascii "-v")) (.oldWorld emptyImage) bootArgs := by
  obtain ⟨image,himage⟩ := exists_oldWorldBuffer
  obtain ⟨read,hread,-,-,hargs⟩ :=
    oldWorldVariables_oldWorldBuffer (emptyVariables_fits _) himage
  have hbuffer : (OFImage.oldWorld emptyImage).buffer (emptyVariables (ascii "-v")) [] =
      some (some (.oldWorld image)) := by
    simp only [OFImage.buffer,himage,map_some]
  refine ⟨_,read,syncOFVariables_of_buffer hbuffer,initOFVariables_eq rfl hread,?_⟩
  rw [hargs]
  decide

theorem variables_not_rebuilt :
    Differs [ascii "boot-file"] (oneVariable (ascii "boot-file") (.string (ascii "x")))
      (.newWorld (replicate 0x80 0)) bootArgs ∧
    Differs [ascii "a=b"] (oneVariable (ascii "a=b") (.data [1]))
      (.newWorld (replicate 0x80 0)) (ascii "a=b") ∧
    Differs [ascii "real-base"] (oneVariable (ascii "real-base") (.number 0x80000000))
      (.newWorld (replicate 0x80 0)) (ascii "real-base") ∧
    Differs [ascii "aapl,pci"] (oneVariable (ascii "aapl,pci") (.data (replicate 0x80 0)))
      (.newWorld (replicate 0x80 0)) (ascii "aapl,pci") ∧
    Differs [] (emptyVariables (ascii "-v")) (.oldWorld emptyImage) bootArgs := by
  refine ⟨?_,?_,?_,?_,differs_emptyVariables⟩
  · exact differs_oneVariable (ascii "boot-file") (ascii "x") (.string (ascii "x"))
      (by decide) ⟨by decide,by decide⟩ (by decide) (by decide) (by decide)
  · exact differs_oneVariable (ascii "a") (ascii "b=" ++ [1]) (.data (ascii "b=" ++ [1]))
      (by decide +kernel) ⟨by decide,by decide⟩ (by decide) (by decide +kernel) (by decide +kernel)
  · exact differs_oneVariable (ascii "real-base") (ascii "0x80000000") (.number 0x7FFFFFFF)
      (by decide) ⟨by decide,by decide⟩ (by decide) (by decide) (by decide)
  · exact differs_oneVariable (ascii "aapl,pci") [0xFF,0x80] (.data []) (by decide +kernel)
      ⟨by decide,by decide⟩ (by decide) (by decide +kernel) (by decide +kernel)

end Darwin.IOKit.Nvram
