import Mathlib.Data.UInt
import Mathlib.Tactic

/-! Version numbers of kernel extensions: `VERS_parse_string` and `VERS_string` of
`kext.subproj/vers_rsrc.c`. A text is the characters before the terminator. -/
namespace Darwin.Kext.Vers

/-- The four bytes of a number. -/
@[ext] structure Version where
  byte0 : UInt8
  byte1 : UInt8
  byte2 : UInt8
  byte3 : UInt8
  deriving DecidableEq,Repr

/-- The number as the processor reads it, the first byte being the most significant. -/
def Version.vnum (vers : Version) : ℕ :=
  ((vers.byte0.toNat*256+vers.byte1.toNat)*256+vers.byte2.toNat)*256+vers.byte3.toNat

def development : UInt8 := 0x20
def alpha : UInt8 := 0x40
def beta : UInt8 := 0x60
def candidate : UInt8 := 0x70
def release : UInt8 := 0x80
def invalid : UInt8 := 0xff
def bcdIllegal : UInt8 := 0xff

def bcdCombine (l r : UInt8) : UInt8 := ((l&&&0xf)<<<4)|||(r&&&0xf)
def bcdGetLeft (p : UInt8) : UInt8 := (p>>>4)&&&0xf
def bcdGetRight (p : UInt8) : UInt8 := p&&&0xf

def isreleasestate (c : Char) : Bool := c = 'd' ∨ c = 'a' ∨ c = 'b' ∨ c = 'f'

def bcdDigitForChar : Char → UInt8
  | '0' => 0
  | '1' => 1
  | '2' => 2
  | '3' => 3
  | '4' => 4
  | '5' => 5
  | '6' => 6
  | '7' => 7
  | '8' => 8
  | '9' => 9
  | _ => bcdIllegal

def bcdCharForDigit (digit : UInt8) : Char :=
  match digit.toNat with
  | 0 => '0'
  | 1 => '1'
  | 2 => '2'
  | 3 => '3'
  | 4 => '4'
  | 5 => '5'
  | 6 => '6'
  | 7 => '7'
  | 8 => '8'
  | 9 => '9'
  | _ => '?'

def isdigit (c : Char) : Bool := c.isDigit

def isspace (c : Char) : Bool := c.isWhitespace ∨ c.toNat=11 ∨ c.toNat=12

def isdigitAt : List Char → Bool
  | [] => false
  | c::_ => isdigit c

def revisionForString : List Char → UInt8 × List Char
  | [] => (release,[])
  | c::rest =>
    if isspace c then (release,c::rest)
    else if c = 'd' then if isdigitAt rest then (development,rest) else (invalid,c::rest)
    else if c = 'a' then if isdigitAt rest then (alpha,rest) else (invalid,c::rest)
    else if c = 'b' then if isdigitAt rest then (beta,rest) else (invalid,c::rest)
    else if c = 'f' then
      if isdigitAt rest then (candidate,rest)
      else if rest.head?=some 'c' ∧ isdigitAt rest.tail then (candidate,rest.tail)
      else (invalid,c::rest)
    else (invalid,c::rest)

def revisionLoop : ℕ → ℕ → List Char → Option (ℕ × List Char)
  | 0,revisionNum,text => some (revisionNum,text)
  | _+1,revisionNum,[] => some (revisionNum,[])
  | left+1,revisionNum,c::rest =>
    if bcdDigitForChar c=bcdIllegal then none
    else revisionLoop left (revisionNum*10+(bcdDigitForChar c).toNat) rest

def Version.final (vers : Version) : Version := {vers with byte2 := release,byte3 := 0xff}

def releaseState (vers : Version) (text : List Char) : Option Version :=
  if text=[] then some vers.final
  else
    let revision := revisionForString text
    if revision.1=invalid then none
    else if revision.1=release then some vers.final
    else if isdigitAt revision.2=false then none
    else
      match revisionLoop 3 0 revision.2 with
      | none => none
      | some (revisionNum,rest) =>
        if isdigitAt rest ∨ 255<revisionNum then none
        else if revision.1=candidate then
          if revisionNum=0 then none
          else some {vers with byte2 := release,byte3 := UInt8.ofNat revisionNum-1}
        else some {vers with byte2 := revision.1,byte3 := UInt8.ofNat revisionNum}

def afterNumber (dot : List Char → Option Version) (vers : Version) : List Char → Option Version
  | [] => some vers.final
  | c::rest =>
    if isreleasestate c then releaseState vers (c::rest)
    else if c = '.' then dot rest
    else none

def bugfixNumber (vers : Version) : List Char → Option Version
  | [] => some vers.final
  | c::rest =>
    if isdigit c then
      if bcdDigitForChar c=bcdIllegal then none
      else afterNumber (fun _ => none) {vers with byte1 := vers.byte1|||bcdDigitForChar c} rest
    else none

def minorNumber (vers : Version) : List Char → Option Version
  | [] => some vers.final
  | c::rest =>
    if isdigit c then
      if bcdDigitForChar c=bcdIllegal then none
      else
        let vers := {vers with byte1 := bcdCombine (bcdDigitForChar c) 0}
        afterNumber (bugfixNumber vers) vers rest
    else none

def versParseString : List Char → Option Version
  | [] => none
  | first::text =>
    if bcdDigitForChar first=bcdIllegal then none
    else
      let vers : Version := ⟨bcdDigitForChar first,0,0,0⟩
      match text with
      | [] => some vers.final
      | c::rest =>
        if isdigit c then
          if bcdDigitForChar c=bcdIllegal then none
          else
            let vers := {vers with byte0 := bcdCombine vers.byte0 (bcdDigitForChar c)}
            afterNumber (minorNumber vers) vers rest
        else afterNumber (minorNumber vers) vers (c::rest)

def versStringMaxLen : ℕ := 12

def numbersString (vers : Version) : ℤ × List Char :=
  let major1 := bcdCharForDigit (bcdGetLeft vers.byte0)
  let major2 := bcdCharForDigit (bcdGetRight vers.byte0)
  let minor := bcdCharForDigit (bcdGetLeft vers.byte1)
  let bugfix := bcdCharForDigit (bcdGetRight vers.byte1)
  (if major1 = '?' ∨ major2 = '?' ∨ minor = '?' ∨ bugfix = '?' then 0 else 1,
    (if major1 ≠ '0' then [major1] else [])++[major2,'.',minor] ++
      if bugfix ≠ '0' then ['.',bugfix] else [])

/-- The result, and the text that the buffer has then; it is untouched if it is too short. -/
def versString (length : ℕ) (vers : Version) : ℤ × Option (List Char) :=
  if length<versStringMaxLen then (-1,none)
  else
    let numbers := numbersString vers
    if vers.byte2=release ∧ vers.byte3=255 then (0,some numbers.2)
    else if vers.byte2=release then
      (numbers.1,some (numbers.2++['f','c']++Nat.toDigits 10 (vers.byte3.toNat+1)))
    else
      let digits := Nat.toDigits 10 vers.byte3.toNat
      if vers.byte2=development then (numbers.1,some (numbers.2++['d']++digits))
      else if vers.byte2=alpha then (numbers.1,some (numbers.2++['a']++digits))
      else if vers.byte2=beta then (numbers.1,some (numbers.2++['b']++digits))
      else (0,some (numbers.2++['?']++digits))

example : versParseString "1.2.3fc4".toList=some ⟨0x01,0x23,0x80,3⟩ := by decide

end Darwin.Kext.Vers
