import Darwin.Vfs.UtfConv

/-! Names that are too long for a directory entry, from `Unicode/UnicodeWrappers.c`: the name
is cut, and its file ID and extension are put at the end. -/
namespace Darwin.Hfs
open Vfs

def hash : ℕ := 0x23
def dot : ℕ := 0x2e
def colon : ℕ := 0x3a

def direntMaxNameBytes : ℕ := 255

def translate : List ℕ :=
  [0x30,0x31,0x32,0x33,0x34,0x35,0x36,0x37,0x38,0x39,0x41,0x42,0x43,0x44,0x45,0x46]

/-- The loop of `GetFileIDString` for `b = 4*(k-1)` down to `0`, with `i` digits written. -/
def fileIDDigits (fileID : ℕ) : ℕ → ℕ → List ℕ
  | 0,_ => []
  | k+1,i =>
    let c := translate.getD ((fileID>>>(4*k))&&&0xf) 0
    if c≠0x30 ∨ 1 < i ∨ k=0 then c::fileIDDigits fileID k (i+1)
    else fileIDDigits fileID k i

def getFileIDString (fileID : ℕ) : List ℕ := hash::fileIDDigits fileID 8 0

def extensionChar (c : ℕ) : Bool :=
  (decide (0x61≤c) && decide (c≤0x7a)) || (decide (0x41≤c) && decide (c≤0x5a)) ||
    (decide (0x30≤c) && decide (c≤0x39))

def maxFileExtensionChars : ℕ := 5

def maxExtChars (length : ℕ) : ℕ :=
  if length < maxFileExtensionChars+2 then length-2 else maxFileExtensionChars

/-- The scan back from the end for a dot: the number of extension characters after it, or `0`
if there is no extension. At most as many characters are read as the second argument says. -/
def scanExtension : List ℕ → ℕ → ℕ → ℕ
  | _,0,_ => 0
  | [],_,_ => 0
  | c::rest,left+1,extChars =>
    if c=dot then extChars
    else if extensionChar c then scanExtension rest left (extChars+1)
    else 0

def getFilenameExtension (unicodeStr : List ℕ) : List ℕ :=
  if unicodeStr.length<3 then []
  else
    let extChars := scanExtension unicodeStr.reverse (maxExtChars unicodeStr.length+1) 0
    if extChars=0 then []
    else (unicodeStr.drop (unicodeStr.length-(extChars+1))).map (· % 2^8)

def countFilenameExtensionChars (filename : List ℕ) (length : ℕ) : ℕ :=
  if length<3 then 0
  else scanExtension (filename.take length).reverse (maxExtChars length+1) 0

def isHexDigit (c : ℕ) : Bool :=
  (decide (0x30≤c) && decide (c≤0x39)) || (decide (0x41≤c) && decide (c≤0x46))

def hexStringLoop : ℕ → List ℕ → ℕ
  | value,[] => value
  | value,c::p =>
    if 0x30≤c ∧ c≤0x39 then hexStringLoop ((value<<<4+(c-0x30))%2^32) p
    else if 0x41≤c ∧ c≤0x46 then hexStringLoop ((value<<<4+(10+(c-0x41)))%2^32) p
    else 0

def hexStringToInteger (hexStr : List ℕ) : ℕ := hexStringLoop 0 hexStr

/-- The scan back for the file ID marker, with the digits already passed: the file ID and the
length of what is before the marker. -/
def scanFileID : List ℕ → List ℕ → ℕ × ℕ
  | [],_ => (0,0)
  | c::rest,digits =>
    if c=hash then
      if digits.length+1<3 then (0,0) else (hexStringToInteger digits,rest.length)
    else if isHexDigit c then scanFileID rest (c::digits)
    else (0,0)

/-- The file ID in a mangled name and the length of its prefix. The position is a `short`. -/
def getEmbeddedFileID (filename : List ℕ) (length : ℕ) : ℕ × ℕ :=
  let length := if length=0 then (filename.takeWhile (·≠0)).length else length
  if length<28 then (0,0)
  else
    let extChars := if 5<length then countFilenameExtensionChars filename length else 0
    let length := if 0<extChars then length-(extChars+1) else length
    if 2^15≤(length-1)%2^16 then (0,0)
    else scanFileID (filename.take ((length-1)%2^16+1)).reverse []

def strcat (dst src : List ℕ) : List ℕ := dst.takeWhile (·≠0)++src++[0]

def convertUnicodeToUTF8Mangled (srcStr : List ℕ) (maxDstLen cnid : ℕ) : List ℕ × ℕ × ℕ :=
  let fileIDStr := getFileIDString cnid
  let extStr := getFilenameExtension srcStr
  let src := srcStr.take (srcStr.length-extStr.length)
  let subMaxLen := (2^32+maxDstLen-(extStr.length+fileIDStr.length))%2^32
  let utf8 := (utf8Encodestr src subMaxLen colon noFlags).2
  (strcat (strcat (utf8++[0]) fileIDStr) extStr,
    utf8.length+(extStr.length+fileIDStr.length),utf8.length)

end Darwin.Hfs
