import Mathlib.Data.Nat.Bitwise

/-! The file name conversion of `bsd/vfs/vfs_utfconv.c`. UCS-2 code units are numbers below
`2^16`, bytes are numbers below `2^8`. -/
namespace Darwin.Vfs

inductive Errno
  | nameTooLong
  | inval
  deriving DecidableEq,Repr

/-- `UTF_REVERSE_ENDIAN`, `UTF_NO_NULL_TERM` and `UTF_DECOMPOSED`. -/
structure UtfFlags where
  reverseEndian : Bool
  noNullTerm : Bool
  decomposed : Bool
  deriving DecidableEq

def noFlags : UtfFlags := ⟨false,false,false⟩

def nxSwapShort (x : ℕ) : ℕ := ((x<<<8)|||(x>>>8))%2^16

def swapUnit (flags : UtfFlags) (ch : ℕ) : ℕ := if flags.reverseEndian then nxSwapShort ch else ch

def slash : ℕ := 0x2f

/-- A code unit as it is encoded, with the alternate slash in place of a slash. -/
def unitToEncode (altslash : ℕ) (flags : UtfFlags) (ch : ℕ) : ℕ :=
  let ch := swapUnit flags ch
  if altslash≠0 ∧ ch=slash then altslash else ch

def ucsToUtfLen (ch : ℕ) : ℕ := if ch<0x80 then 1 else if ch<0x800 then 2 else 3

def utf8Encodelen (altslash : ℕ) (flags : UtfFlags) : List ℕ → ℕ
  | [] => 0
  | ch::ucs =>
    let ch := unitToEncode altslash flags ch
    let ch := if ch=0 then 0xc080 else ch
    ucsToUtfLen ch+utf8Encodelen altslash flags ucs

def encodeUnit (ch : ℕ) : List ℕ :=
  if ch<0x80 ∧ ch≠0 then [ch%2^8]
  else if ch<0x800 then [((ch>>>6)|||0xc0)%2^8,((ch&&&0x3f)|||0x80)%2^8]
  else [((ch>>>12)|||0xe0)%2^8,(((ch>>>6)&&&0x3f)|||0x80)%2^8,
    ((ch&&&0x3f)|||0x80)%2^8]

/-- The loop of `utf8_encodestr` with `n` bytes already in a buffer that ends at `limit`. -/
def encodeLoop (altslash : ℕ) (flags : UtfFlags) (limit : ℕ) : ℕ → List ℕ → Option Errno × List ℕ
  | _,[] => (none,[])
  | n,ch::ucs =>
    let bytes := encodeUnit (unitToEncode altslash flags ch)
    if limit≤n+(bytes.length-1) then (some .nameTooLong,[])
    else
      let rest := encodeLoop altslash flags limit (n+bytes.length) ucs
      (rest.1,bytes++rest.2)

/-- The result and the bytes up to `*utf8len`; a terminating NUL comes after them. -/
def utf8Encodestr (ucs : List ℕ) (buflen altslash : ℕ) (flags : UtfFlags) : Option Errno × List ℕ :=
  encodeLoop altslash flags (if flags.noNullTerm then buflen else buflen-1) 0 ucs

def primaryChar : List ℕ := [
  0x41,0x41,0x41,0x41,0x41,0x41,0xC6,0x43,0x45,0x45,0x45,0x45,0x49,0x49,0x49,0x49,
  0xD0,0x4E,0x4F,0x4F,0x4F,0x4F,0x4F,0xD7,0xD8,0x55,0x55,0x55,0x55,0x59,0xDE,0xDF,
  0x61,0x61,0x61,0x61,0x61,0x61,0xE6,0x63,0x65,0x65,0x65,0x65,0x69,0x69,0x69,0x69,
  0xF0,0x6E,0x6F,0x6F,0x6F,0x6F,0x6F,0xF7,0xF8,0x75,0x75,0x75,0x75,0x79,0xFE,0x79]

def combiningChar : List ℕ := [
  0x00,0x01,0x02,0x03,0x08,0x0A,0xFF,0x27,0x00,0x01,0x02,0x08,0x00,0x01,0x02,0x08,
  0xFF,0x03,0x00,0x01,0x02,0x03,0x08,0xFF,0xFF,0x00,0x01,0x02,0x08,0x01,0xFF,0xFF,
  0x00,0x01,0x02,0x03,0x08,0x0A,0xFF,0x27,0x00,0x01,0x02,0x08,0x00,0x01,0x02,0x08,
  0xFF,0x03,0x00,0x01,0x02,0x03,0x08,0xFF,0xFF,0x00,0x01,0x02,0x08,0x01,0xFF,0x08]

def cjkDecompBitmap : List ℕ := [
  0x00000000,0x00000000,0x000AAAAA,0xA540DB6C,0x00000802,0x000AAAAA,0xA540DB6C,0x000009E2]

def isDecomposable (unicodeVal : ℕ) : Bool :=
  (cjkDecompBitmap.getD (unicodeVal/32) 0).testBit (31-unicodeVal%32)

def ucsDecompose (ch : ℕ) : ℕ × ℕ :=
  if ch≤0xff ∧ 0xc0≤ch then
    let base := primaryChar.getD (ch-0xc0) 0
    if base≤0x7a then (base,0x300+combiningChar.getD (ch-0xc0) 0) else (base,0)
  else if 0x3000<ch ∧ ch<0x3100 ∧ isDecomposable (ch-0x3000) then
    match ch with
    | 0x3071 => (0x306f,0x309a)
    | 0x3074 => (0x3072,0x309a)
    | 0x3077 => (0x3075,0x309a)
    | 0x307a => (0x3078,0x309a)
    | 0x307d => (0x307b,0x309a)
    | 0x3094 => (0x3046,0x3099)
    | 0x30d1 => (0x30cf,0x309a)
    | 0x30d4 => (0x30d2,0x309a)
    | 0x30d7 => (0x30d5,0x309a)
    | 0x30da => (0x30d8,0x309a)
    | 0x30dd => (0x30db,0x309a)
    | 0x30f4 => (0x30a6,0x3099)
    | 0x30f7 => (0x30ef,0x3099)
    | 0x30f8 => (0x30f0,0x3099)
    | 0x30f9 => (0x30f1,0x3099)
    | 0x30fa => (0x30f2,0x3099)
    | _ => (ch-1,0x3099)
  else (ch,0)

def pred32 (n : ℕ) : ℕ := if n=0 then 2^32-1 else n-1

def decodeFinal (mem : ℕ → ℕ) (ch pos utf8len : ℕ) : Option (ℕ × ℕ × ℕ) :=
  let byte := mem pos
  if byte&&&0xc0≠0x80 then none
  else some ((ch+(byte&&&0x3f))%2^16,pos+1,pred32 utf8len)

def decodeSequence (mem : ℕ → ℕ) (byte pos utf8len : ℕ) : Option (ℕ × ℕ × ℕ) :=
  if byte&&&0xf0=0xc0 ∨ byte&&&0xf0=0xd0 then
    let ch := (byte&&&0x1f)<<<6
    if ch<0x80 ∧ mem pos≠0x80 then none else decodeFinal mem ch pos utf8len
  else if byte&&&0xf0=0xe0 then
    let ch := (byte&&&0x0f)<<<6
    let byte := mem pos
    if byte&&&0xc0≠0x80 then none
    else
      let ch := ((ch+(byte&&&0x3f))<<<6)%2^16
      if ch<0x800 then none else decodeFinal mem ch (pos+1) (pred32 utf8len)
  else none

def storedUnit (altslash : ℕ) (flags : UtfFlags) (ch : ℕ) : ℕ :=
  swapUnit flags (if ch=altslash then slash else ch)

/-- The loop of `utf8_decodestr`, with room for as many more code units as the first argument
says and `utf8len` bytes to come from `pos` on. -/
def decodeLoop (mem : ℕ → ℕ) (altslash : ℕ) (flags : UtfFlags) : ℕ → ℕ → ℕ → Option Errno × List ℕ
  | 0,pos,utf8len => if utf8len=0 ∨ mem pos=0 then (none,[]) else (some .nameTooLong,[])
  | room+1,pos,utf8len =>
    let byte := mem pos
    if utf8len=0 ∨ byte=0 then (none,[])
    else if byte<0x80 then
      let rest := decodeLoop mem altslash flags room (pos+1) (utf8len-1)
      (rest.1,storedUnit altslash flags byte::rest.2)
    else
      match decodeSequence mem byte (pos+1) (utf8len-1) with
      | none => (some .inval,[])
      | some (ch,pos,utf8len) =>
        if flags.decomposed ∧ (ucsDecompose ch).2≠0 then
          match room with
          | 0 => (some .nameTooLong,[swapUnit flags (ucsDecompose ch).1])
          | room+1 =>
            let rest := decodeLoop mem altslash flags room pos utf8len
            (rest.1,swapUnit flags (ucsDecompose ch).1 ::
              storedUnit altslash flags (ucsDecompose ch).2::rest.2)
        else
          let ch := if flags.decomposed then (ucsDecompose ch).1 else ch
          let rest := decodeLoop mem altslash flags room pos utf8len
          (rest.1,storedUnit altslash flags ch::rest.2)

/-- The buffer of `buflen` bytes has room for a code unit wherever one may start in it. -/
def utf8Decodestr (mem : ℕ → ℕ) (utf8len buflen altslash : ℕ) (flags : UtfFlags) :
    Option Errno × List ℕ :=
  decodeLoop mem altslash flags ((buflen+1)/2) 0 utf8len

end Darwin.Vfs
