import Darwin.IOKit.NvramVariables

/-! The image of the Open Firmware variables on machines without a boot ROM: a header with fixed
places, strings from the end down, and a checksum. The image takes 0x800 bytes from 0x1800 on. -/
open List
namespace Darwin.IOKit.Nvram

def owPartitionOffset : ℕ := 0x1800
def owPartitionSize : ℕ := 0x800

structure OWString where
  offset : BitVec 16
  length : BitVec 16

structure OWVariablesHeader where
  owMagic : BitVec 16
  owVersion : BitVec 8
  owPages : BitVec 8
  owChecksum : BitVec 16
  owHere : BitVec 16
  owTop : BitVec 16
  owNext : BitVec 16
  owFlags : BitVec 32
  owNumbers : ℕ → BitVec 32
  owStrings : ℕ → OWString

def sizeofOWVariablesHeader : ℕ := 92

/-- The image, with what stands behind its header by the offset from its start. -/
structure OWImage where
  header : OWVariablesHeader
  area : ℕ → UInt8

/-- A variable that has a place in the header: its bit, or its place among the numbers or
strings. -/
structure OWVariable where
  propSymbol : List UInt8
  propType : OFVariableType
  propOffset : ℕ
  deriving DecidableEq

def getOWVariableInfo (variableNumber : ℕ) : Option OWVariable :=
  (gOFVariables.find? fun ofVar => ofVar.variableOffset=(variableNumber : ℤ)).map fun ofVar =>
    ⟨ofVar.variableName,ofVar.variableType,
      match ofVar.variableType with
      | .boolean => 2^(31-variableNumber)
      | .number => variableNumber-8
      | .string => variableNumber-17
      | .data => 0⟩

def owVariables : List OWVariable :=
  (((range (gOFVariables.length+1)).map getOWVariableInfo).takeWhile Option.isSome).reduceOption

/-! ### The checksum -/

def halves (word : BitVec 32) : List (BitVec 16) := [(word>>>16).truncate 16,word.truncate 16]

def OWImage.wordsBehind (image : OWImage) : List (BitVec 16) :=
  [image.header.owHere,image.header.owTop,image.header.owNext]++halves image.header.owFlags ++
    ((range 9).map image.header.owNumbers).flatMap halves ++
    ((range 10).map image.header.owStrings).flatMap (fun s => [s.offset,s.length]) ++
    (range ((owPartitionSize-sizeofOWVariablesHeader)/2)).map fun n =>
      BitVec.ofNat 16 ((image.area (sizeofOWVariablesHeader+2*n)).toNat*0x100 +
        (image.area (sizeofOWVariablesHeader+2*n+1)).toNat)

def OWImage.words (image : OWImage) : List (BitVec 16) :=
  [image.header.owMagic,image.header.owVersion++image.header.owPages,image.header.owChecksum] ++
    image.wordsBehind

def sumWords (words : List (BitVec 16)) : BitVec 32 :=
  words.foldl (fun sum word => sum+word.setWidth 32) 0

def generateOWChecksum (image : OWImage) : BitVec 16 :=
  (sumWords image.words%0xFFFF).truncate 16

def validateOWChecksum (image : OWImage) : Bool :=
  let sum := sumWords image.words
  let checksum := (sum>>>16)+(sum&&&0xFFFF)
  let checksum := if checksum=0x10000 then checksum-1 else checksum
  (checksum^^^0xFFFF)&&&0xFFFF=0

/-! ### Writing -/

/-- The state of the loop of `syncOFVariables`. -/
structure Syncing where
  image : OWImage
  curOffset : BitVec 32
  ok : Bool

def syncVariable (dict : OSDictionary) (st : Syncing) (v : OWVariable) : Option Syncing :=
  match v.propType,dict v.propSymbol with
  | .boolean,some (.boolean value) =>
    let owFlags :=
      if value then st.image.header.owFlags|||BitVec.ofNat 32 v.propOffset
      else st.image.header.owFlags
    some { st with
      image := {st.image with header := {st.image.header with owFlags := owFlags}}}
  | .number,some (.number value) =>
    let owNumbers := Function.update st.image.header.owNumbers v.propOffset (value.truncate 32)
    some { st with
      image := {st.image with header := {st.image.header with owNumbers := owNumbers}}}
  | .string,some (.string text) =>
    let tmpDataLength := BitVec.ofNat 32 text.length
    if st.curOffset-tmpDataLength<92 then some {st with ok := false}
    else
      let curOffset := st.curOffset-tmpDataLength
      let owStrings := Function.update st.image.header.owStrings v.propOffset
        ⟨(curOffset+BitVec.ofNat 32 owPartitionOffset).truncate 16,tmpDataLength.truncate 16⟩
      if owPartitionSize<curOffset.toNat+text.length then none
      else
        some
          { st with
            image :=
              { header := {st.image.header with owStrings := owStrings}
                area := fun i =>
                  if curOffset.toNat ≤ i ∧ i<curOffset.toNat+text.length then
                    text.getD (i-curOffset.toNat) 0
                  else st.image.area i}
            curOffset := curOffset}
  | _,_ => none

def syncVariables (dict : OSDictionary) : List OWVariable → Syncing → Option Syncing
  | [],st => some st
  | v::rest,st =>
    if st.ok then
      match syncVariable dict st v with
      | none => none
      | some st => syncVariables dict rest st
    else some st

/-- The buffer before anything is written into it, with what is taken from the old header. -/
def OWVariablesHeader.blank (owHeaderOld : OWVariablesHeader) : OWVariablesHeader where
  owMagic := owHeaderOld.owMagic
  owVersion := owHeaderOld.owVersion
  owPages := owHeaderOld.owPages
  owChecksum := 0
  owHere := 0
  owTop := 0
  owNext := 0
  owFlags := 0
  owNumbers _ := 0
  owStrings _ := ⟨0,0⟩

def Syncing.unsummed (st : Syncing) : OWImage where
  header := { st.image.header with
    owHere := BitVec.ofNat 16 (owPartitionOffset+sizeofOWVariablesHeader)
    owTop := (BitVec.ofNat 32 owPartitionOffset+st.curOffset).truncate 16
    owNext := 0
    owChecksum := 0}
  area := st.image.area

def oldWorldBuffer (ofImage : OWImage) (dict : OSDictionary) : Option (Option OWImage) :=
  match syncVariables dict owVariables
      ⟨⟨ofImage.header.blank,fun _ => 0⟩,BitVec.ofNat 32 owPartitionSize,true⟩ with
  | none => none
  | some st =>
    if st.ok then
      let image := st.unsummed
      some (some { image with
        header := {image.header with owChecksum := ~~~generateOWChecksum image}})
    else some none

/-! ### Reading -/

def bytesFrom (area : ℕ → UInt8) (start length : ℕ) : List UInt8 :=
  (range length).map fun i => area (start+i)

def OWImage.object (image : OWImage) (v : OWVariable) : OSObject :=
  match v.propType with
  | .boolean => .boolean (image.header.owFlags&&&BitVec.ofNat 32 v.propOffset≠0)
  | .number => .number (withNumber32 (image.header.owNumbers v.propOffset).toNat)
  | .string =>
    let place := image.header.owStrings v.propOffset
    .string ((bytesFrom image.area (place.offset.toNat-owPartitionOffset)
      place.length.toNat).takeWhile (·≠0))
  | .data => .other

def bootCommand : List UInt8 := ascii "boot-command"

def bootrText : List UInt8 := ascii "bootr"

def findBootr : List UInt8 → Option (List UInt8)
  | [] => none
  | c::rest =>
    if bootrText <+: c::rest then some (((c::rest).drop 5).dropWhile (·=32))
    else findBootr rest

def updateOWBootArgs (dict : OSDictionary) (key : List UInt8) (value : OSObject) : OSDictionary :=
  match value with
  | .string tmpString =>
    if key=bootCommand then
      match findBootr tmpString with
      | none => dict.removeObject bootArgs
      | some args => dict.setObject bootArgs (.string args)
    else if key=bootArgs then
      match dict bootCommand with
      | some (.string command) =>
        match findBootr command with
        | none => dict.removeObject bootArgs
        | some args =>
          dict.setObject bootCommand
            (.string (command.take (command.length-args.length)++tmpString))
      | _ => dict
    else dict
  | _ => dict

def oldWorldVariables (ofImage : OWImage) : Option OSDictionary :=
  if validateOWChecksum ofImage then
    let dict := owVariables.foldl
      (fun dict v => OSDictionary.setObject dict v.propSymbol (ofImage.object v)) fun _ => none
    match dict bootCommand with
    | none => some dict
    | some object => some (updateOWBootArgs dict bootCommand object)
  else none

end Darwin.IOKit.Nvram
