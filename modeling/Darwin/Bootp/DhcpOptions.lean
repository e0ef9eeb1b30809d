import Darwin.Lib.ByteStore

/-! DHCP options, from `bootplib/dhcp_options.c`: areas that options are added to, and the parser that
finds them again. Addresses count from the start of the buffer, in 32 bits. -/
namespace Darwin.Bootp
open Lib.ByteStore

def tagPad : UInt8 := 0
def tagEnd : UInt8 := 255

def int32 (n : ℕ) : ℤ := if n%2^32<2^31 then (n%2^32 : ℕ) else (n%2^32 : ℕ)-2^32

def dhcpoaMagic : ℕ := 0x11223344

/-- `dhcpoa_t` -/
structure OptionArea where
  oaMagic : ℕ
  oaBuffer : ℕ → UInt8
  oaSize : ℕ
  oaOffset : ℕ
  oaEndTag : Bool
  oaLast : ℕ
  oaPrevLast : ℕ
  oaOptionCount : ℕ
  oaErr : String

inductive OaRet
  | success
  | failed
  | full
  deriving DecidableEq

def dhcpoaInit (buffer : ℕ → UInt8) (size : ℕ) : OptionArea :=
  ⟨dhcpoaMagic,fun a => if a<size then 0 else buffer a,size,0,false,0,0,0,""⟩

def dhcpoaAdd (oa : OptionArea) (tag : UInt8) (option : List UInt8) : OptionArea × OaRet :=
  let oa := {oa with oaErr := "" }
  let len := option.length
  if 255<len then ({oa with oaErr := s!"tag {tag} option {len} > {255}" },.failed)
  else if oa.oaMagic≠dhcpoaMagic then
    ({oa with oaErr := "dhcpoa_t not initialized - internal error!!!" },.failed)
  else if oa.oaEndTag then ({oa with oaErr := "attempt to add second end tag" },.failed)
  else if tag=tagEnd then
    if int32 oa.oaSize ≤ int32 (oa.oaOffset+1) then
      -- this can't happen since we're careful to leave space
      let needed := int32 (oa.oaOffset+1)
      let size := int32 oa.oaSize
      ({oa with oaErr := s!"can't add end tag {needed} >= {size}" },.failed)
    else
      ({ oa with
        oaBuffer := store oa.oaBuffer [(oa.oaOffset,tag)]
        oaOffset := (oa.oaOffset+1)%2^32
        oaEndTag := true
        oaOptionCount := oa.oaOptionCount+1},.success)
  else if tag=tagPad then
    if int32 oa.oaSize ≤ int32 (oa.oaOffset+1+1) then
      let needed := int32 (oa.oaOffset+1+1)
      let size := int32 oa.oaSize
      ({oa with oaErr := s!"can't add pad tag {needed} >= {size}" },.full)
    else
      ({ oa with
        oaBuffer := store oa.oaBuffer [(oa.oaOffset,tag)]
        oaOffset := (oa.oaOffset+1)%2^32
        oaOptionCount := oa.oaOptionCount+1},.success)
  else
    if int32 oa.oaSize ≤ int32 (oa.oaOffset+len+2+1) then
      let needed := int32 (oa.oaOffset+len+2+1)
      let size := int32 oa.oaSize
      ({oa with oaErr := s!"can't add tag {tag} ({needed} >= {size})" },.full)
    else
      ({ oa with
        oaBuffer := store oa.oaBuffer
          (storesAt oa.oaOffset (tag::UInt8.ofNat len::option))
        oaOffset := (oa.oaOffset+(len+2))%2^32
        oaLast := oa.oaOffset
        oaPrevLast := oa.oaLast
        oaOptionCount := oa.oaOptionCount+1},.success)

def addAll (oa : OptionArea) : List (UInt8 × List UInt8) → OptionArea × List (UInt8 × List UInt8)
  | [] => (oa,[])
  | (tag,option)::options =>
    let r := addAll (dhcpoaAdd oa tag option).1 options
    (r.1,if (dhcpoaAdd oa tag option).2=.success then (tag,option)::r.2 else r.2)

section Parser

variable (mem : ℕ → UInt8)

/-- The loop of `dhcpol_parse_buffer`, with the `len` bytes from `scan` on still to come. -/
def parseScan (scan : ℕ) : ℕ → Except String (List ℕ)
  | 0 => .ok []
  | len+1 =>
    if mem scan=tagEnd then .ok [scan]
    else if mem scan=tagPad then parseScan (scan+1) len
    else
      let used := (mem (scan+1)).toNat+2
      if used≤len+1 then (parseScan (scan+used) (len+1-used)).map (scan::·)
      else
        let tag := mem scan
        .error s!"parse failed near tag {tag}"
  termination_by len => len

def dhcpolParseBuffer (length : ℕ) : Except String (List ℕ) := parseScan mem 0 length

def findFrom (tag : UInt8) (i : ℕ) : List ℕ → Option (ℕ × ℕ × ℕ)
  | [] => none
  | option::list =>
    if mem option=tag then some (option+2,(mem (option+1)).toNat,i+1) else findFrom tag (i+1) list

def dhcpolFind (list : List ℕ) (tag : UInt8) (start : ℕ) : Option (ℕ × ℕ × ℕ) :=
  if tag=tagEnd || tag=tagPad then none else findFrom mem tag start (list.drop start)

def getFrom (tag : UInt8) (data : Option (List UInt8)) : List ℕ → Option (List UInt8)
  | [] => data
  | option::list =>
    if mem option=tag then
      getFrom tag (some (data.getD []++bytesFrom mem (option+2) (mem (option+1)).toNat)) list
    else getFrom tag data list

def dhcpolGet (list : List ℕ) (tag : UInt8) : Option (List UInt8) :=
  if tag=tagEnd || tag=tagPad then none else getFrom mem tag none list

end Parser

end Darwin.Bootp
