import Darwin.Libkern.XmlTokens

/-! The documents that `OSUnserializeXML` is for: how tags, strings, numbers and data are spelled, which
sequences of them are objects, and which object each of them denotes. -/
namespace Darwin.Libkern.UnserializeXML

/-! ### Spelling -/

/-- Spaces, ends of lines and comments. -/
inductive Blank : List UInt8 → Prop
  | nil : Blank []
  | space {c : UInt8} {s : List UInt8} : isSpace c ∨ c=0x0a → Blank s → Blank (c::s)
  | comment {c : UInt8} {body s : List UInt8} : c=0x3f ∨ c=0x21 → 0x3e∉body → Blank s →
    Blank (0x3c::c::body++0x3e::s)

def IsName (s : List UInt8) : Prop := s≠[] ∧ ∀ c∈s,isAlphaNumeric c

/-- `name = "value"`, again and again. -/
inductive AttributesText : List UInt8 → List (List UInt8 × List UInt8) → Prop
  | nil : AttributesText [] []
  | cons {a name b c value s : List UInt8} {attributes : List (List UInt8 × List UInt8)} :
    (∀ x∈a,isSpace x) → IsName name → (∀ x∈b,isSpace x) → (∀ x∈c,isSpace x) →
    0x22∉value → AttributesText s attributes →
    AttributesText (a++name++b++0x3d::c++0x22::value++0x22::s)
      ((name,value)::attributes)

/-- A tag; one that closes an element has no attributes. -/
inductive TagText : TagType → List UInt8 → List (List UInt8 × List UInt8) → List UInt8 → Prop
  | opening {name s : List UInt8} {attributes : List (List UInt8 × List UInt8)} :
    IsName name → AttributesText s attributes →
    TagText .TAG_START name attributes (0x3c::name++s++[0x3e])
  | empty {name s : List UInt8} {attributes : List (List UInt8 × List UInt8)} :
    IsName name → AttributesText s attributes →
    TagText .TAG_EMPTY name attributes (0x3c::name++s++[0x2f,0x3e])
  | closing {name : List UInt8} : IsName name → TagText .TAG_END name [] (0x3c::0x2f::name++[0x3e])

def entities : List (List UInt8 × UInt8) :=
  [(chars ['&','l','t',';'],0x3c),(chars ['&','g','t',';'],0x3e),(chars ['&','a','m','p',';'],0x26)]

/-- A string as it is written between tags. -/
inductive StringText : List UInt8 → List UInt8 → Prop
  | nil : StringText [] []
  | char {c : UInt8} {s string : List UInt8} : c≠0x3c → c≠0x26 → StringText s string →
    StringText (c::s) (c::string)
  | entity {e s string : List UInt8} {c : UInt8} : (e,c)∈entities → StringText s string →
    StringText (e++s) (c::string)

def digitValue (c : UInt8) : ℕ := if isDigit c then c.toNat-0x30 else 0xa+(c.toNat-0x61)

def ofDigits (base : ℕ) (digits : List UInt8) : ℕ :=
  digits.foldl (fun n c => n*base+digitValue c) 0

inductive NumberText : List UInt8 → ℕ → Prop
  | decimal {digits : List UInt8} : digits≠[] → (∀ c∈digits,isDigit c) →
    NumberText digits (ofDigits 10 digits)
  | hexadecimal {digits : List UInt8} : digits≠[] → (∀ c∈digits,isHexDigit c) →
    NumberText (0x30::0x78::digits) (ofDigits 16 digits)

/-- Two digits a byte, with blanks between the bytes. -/
inductive HexText : List UInt8 → List UInt8 → Prop
  | nil : HexText [] []
  | blank {c : UInt8} {s bytes : List UInt8} : isSpace c ∨ c=0x0a → HexText s bytes →
    HexText (c::s) bytes
  | byte {c d : UInt8} {s bytes : List UInt8} : isHexDigit c → isHexDigit d → HexText s bytes →
    HexText (c::d::s) (UInt8.ofNat (16*digitValue c+digitValue d)::bytes)

def isBase64 (c : UInt8) : Bool := c<0x80 ∧ (decodeTable c).isSome

def bytesOf (a b c d : UInt8) : List UInt8 :=
  let value := fun c => (decodeTable c).getD 0
  let n := 2^18*value a+2^12*value b+2^6*value c+value d
  [UInt8.ofNat (n/2^16),UInt8.ofNat (n/2^8),UInt8.ofNat n]

/-- Four digits are three bytes; at the end one `=` is for a byte less, and two are for two less. -/
inductive Base64 : List UInt8 → List UInt8 → Prop
  | nil : Base64 [] []
  | three {a b c d : UInt8} {s bytes : List UInt8} : (∀ x ∈ [a,b,c,d],isBase64 x ∧ x≠0x3d) →
    Base64 s bytes → Base64 (a::b::c::d::s) (bytesOf a b c d++bytes)
  | two {a b c : UInt8} : (∀ x ∈ [a,b,c],isBase64 x ∧ x≠0x3d) →
    Base64 [a,b,c,0x3d] ((bytesOf a b c 0x3d).take 2)
  | one {a b : UInt8} : (∀ x ∈ [a,b],isBase64 x ∧ x≠0x3d) →
    Base64 [a,b,0x3d,0x3d] ((bytesOf a b 0x3d 0x3d).take 1)

def isBlankChar (c : UInt8) : Bool := isSpace c || c=0x0a || c=0x0d

def Base64Text (s bytes : List UInt8) : Prop := Base64 (s.filter (! isBlankChar ·)) bytes

def DataText (readable : Prop) (s bytes : List UInt8) : Prop :=
  (readable ∧ HexText s bytes) ∨ (¬readable ∧ Base64Text s bytes)

/-! ### What stands between blanks -/

inductive Collection
  | dictionary
  | array
  | set
  deriving DecidableEq,Repr

def Collection.tag : Collection → List UInt8
  | .dictionary => tagDict
  | .array => tagArray
  | .set => tagSet

def Collection.empty : Collection → OSObject
  | .dictionary => .dictionary []
  | .array => .array []
  | .set => .set []

/-- An object without members, with its ID; a Boolean, which has none; a reference; a key; and the tags
of a collection and of a property list. -/
inductive Lexeme
  | value (id : ℤ) (o : OSObject)
  | boolean (b : Bool)
  | idref (id : ℤ)
  | key (string : List UInt8)
  | opens (c : Collection) (id : ℤ)
  | closes (c : Collection)
  | plist (tagType : TagType)

def Lexeme.isPlist : Lexeme → Bool
  | .plist _ => true
  | _ => false

def attrID : List UInt8 := chars ['I','D']
def attrIDREF : List UInt8 := chars ['I','D','R','E','F']
def attrSize : List UInt8 := chars ['s','i','z','e']

def IsNumeral (s : List UInt8) : Prop :=
  (s≠[] ∧ ∀ c∈s,isDigit c) ∨ ∃ x digits,s=0x30::x::digits ∧ (x=0x78 ∨ x=0x58) ∧
    digits≠[] ∧ ∀ c∈digits,isHexDigit c ∨ (0x41≤c ∧ c≤0x46)

def Numbered (name : List UInt8) (attributes : List (List UInt8 × List UInt8)) : Prop :=
  ∀ a∈attributes,a.1=name → IsNumeral a.2

def Readable (attributes : List (List UInt8 × List UInt8)) : Prop :=
  (chars ['f','o','r','m','a','t'],chars ['h','e','x'])∈attributes

section Spelling
variable (strtol : List UInt8 → ℤ) (strtoul : List UInt8 → ℕ)

def idOf (attributes : List (List UInt8 × List UInt8)) : ℤ :=
  attributes.foldl (fun id a => if a.1=attrID then strtol a.2 else id) (-1)

/-- The attributes of a tag that is not a reference, and the ID that they give. -/
structure Identified (attributes : List (List UInt8 × List UInt8)) (id : ℤ) : Prop where
  noIdref : ∀ a∈attributes,a.1≠attrIDREF
  numbered : Numbered attrID attributes
  eq_idOf : id=idOf strtol attributes

/-- How each of them is spelled. -/
inductive Spells : List UInt8 → Lexeme → Prop
  | plist {tagType : TagType} {attributes : List (List UInt8 × List UInt8)} {s : List UInt8} {id : ℤ} :
    TagText tagType tagPlist attributes s → Identified strtol attributes id →
    Spells s (.plist tagType)
  | idref {name value s : List UInt8} {attributes before after : List (List UInt8 × List UInt8)} :
    TagText .TAG_EMPTY name attributes s → attributes=before++(attrIDREF,value)::after →
    (∀ a∈before,a.1≠attrIDREF) → IsNumeral value → Spells s (.idref (strtol value))
  | empty {attributes : List (List UInt8 × List UInt8)} {s : List UInt8} {id : ℤ} (c : Collection) :
    TagText .TAG_EMPTY c.tag attributes s → Identified strtol attributes id →
    Spells s (.value id c.empty)
  | opens {attributes : List (List UInt8 × List UInt8)} {s : List UInt8} {id : ℤ} (c : Collection) :
    TagText .TAG_START c.tag attributes s → Identified strtol attributes id → Spells s (.opens c id)
  | closes {s : List UInt8} (c : Collection) : TagText .TAG_END c.tag [] s → Spells s (.closes c)
  | boolean {attributes : List (List UInt8 × List UInt8)} {s : List UInt8} {id : ℤ} (b : Bool) :
    TagText .TAG_EMPTY (if b then tagTrue else tagFalse) attributes s →
    Identified strtol attributes id → Spells s (.boolean b)
  | noData {attributes : List (List UInt8 × List UInt8)} {s : List UInt8} {id : ℤ} :
    TagText .TAG_EMPTY tagData attributes s → Identified strtol attributes id →
    Spells s (.value id (.data []))
  | data {attributes : List (List UInt8 × List UInt8)} {a s bytes b : List UInt8} {id : ℤ} :
    TagText .TAG_START tagData attributes a → Identified strtol attributes id →
    DataText (Readable attributes) s bytes → TagText .TAG_END tagData [] b →
    Spells (a++s++b) (.value id (.data bytes))
  | noNumber {attributes : List (List UInt8 × List UInt8)} {s : List UInt8} {id : ℤ} :
    TagText .TAG_EMPTY tagInteger attributes s → Identified strtol attributes id →
    Numbered attrSize attributes → Spells s (.value id (.number 0 (integerSize strtoul attributes)))
  | integer {attributes : List (List UInt8 × List UInt8)} {a s b : List UInt8} {n : ℕ} {id : ℤ} :
    TagText .TAG_START tagInteger attributes a → Identified strtol attributes id →
    Numbered attrSize attributes → NumberText s n → n<2^64 → TagText .TAG_END tagInteger [] b →
    Spells (a++s++b) (.value id (.number n (integerSize strtoul attributes)))
  | noString {attributes : List (List UInt8 × List UInt8)} {s : List UInt8} {id : ℤ} :
    TagText .TAG_EMPTY tagString attributes s → Identified strtol attributes id →
    Spells s (.value id (.string []))
  | string {attributes : List (List UInt8 × List UInt8)} {a s string b : List UInt8} {id : ℤ} :
    TagText .TAG_START tagString attributes a → Identified strtol attributes id →
    StringText s string → TagText .TAG_END tagString [] b →
    Spells (a++s++b) (.value id (.string string))
  | key {attributes : List (List UInt8 × List UInt8)} {a s string b : List UInt8} {id : ℤ} :
    TagText .TAG_START tagKey attributes a → Identified strtol attributes id →
    StringText s string → TagText .TAG_END tagKey [] b → Spells (a++s++b) (.key string)

/-- What a text is made of, with blanks between. -/
inductive Lexes : List UInt8 → List Lexeme → Prop
  | nil {s : List UInt8} : Blank s → Lexes s []
  | cons {s w u : List UInt8} {x : Lexeme} {xs : List Lexeme} : Blank s →
    Spells strtol strtoul w x → Lexes u xs → Lexes (s++w++u) (x::xs)

end Spelling

/-! ### Objects -/

abbrev Identifiers := List (ℤ × OSObject)

def identify (id : ℤ) (o : OSObject) (ids : Identifiers) : Identifiers :=
  if 0 ≤ id then (id,o)::ids else ids

mutual

/-- An object, with what has an ID in front of it and behind it. -/
inductive IsObject : Identifiers → List Lexeme → OSObject → Identifiers → Prop
  | value {ids : Identifiers} {id : ℤ} {o : OSObject} :
    IsObject ids [.value id o] o (identify id o ids)
  | boolean {ids : Identifiers} {b : Bool} : IsObject ids [.boolean b] (.boolean b) ids
  | idref {ids : Identifiers} {id : ℤ} {o : OSObject} : ids.lookup id=some o →
    IsObject ids [.idref id] o ids
  | dictionary {ids ids' : Identifiers} {id : ℤ} {xs : List Lexeme}
    {entries : List (List UInt8 × OSObject)} : IsPairs ids xs entries ids' →
    IsObject ids (.opens .dictionary id::(xs++[.closes .dictionary])) (.dictionary entries)
      (identify id (.dictionary entries) ids')
  | array {ids ids' : Identifiers} {id : ℤ} {xs : List Lexeme} {members : List OSObject} :
    IsElements ids xs members ids' →
    IsObject ids (.opens .array id::(xs++[.closes .array])) (.array members)
      (identify id (.array members) ids')
  | set {ids ids' : Identifiers} {id : ℤ} {xs : List Lexeme} {members : List OSObject} :
    IsElements ids xs members ids' →
    IsObject ids (.opens .set id::(xs++[.closes .set])) (.set members)
      (identify id (.set members) ids')

/-- Keys with their objects. -/
inductive IsPairs : Identifiers → List Lexeme → List (List UInt8 × OSObject) → Identifiers → Prop
  | nil {ids : Identifiers} : IsPairs ids [] [] ids
  | snoc {ids ids' ids'' : Identifiers} {xs ys : List Lexeme}
    {entries : List (List UInt8 × OSObject)} {key : List UInt8} {o : OSObject} :
    IsPairs ids xs entries ids' → IsObject ids' ys o ids'' →
    IsPairs ids (xs ++ .key key::ys) (entries++[(key,o)]) ids''

inductive IsElements : Identifiers → List Lexeme → List OSObject → Identifiers → Prop
  | nil {ids : Identifiers} : IsElements ids [] [] ids
  | snoc {ids ids' ids'' : Identifiers} {xs ys : List Lexeme} {members : List OSObject}
    {o : OSObject} : IsElements ids xs members ids' → IsObject ids' ys o ids'' →
    IsElements ids (xs++ys) (members++[o]) ids''

end

/-- At most one object, and what it is; it may stand between the tags of a property list. -/
inductive Denotes : List Lexeme → OSObject → Prop
  | nothing : Denotes [] .null
  | object {xs : List Lexeme} {o : OSObject} {ids : Identifiers} : IsObject [] xs o ids →
    Denotes xs o
  | emptyPlist : Denotes [.plist .TAG_START,.plist .TAG_END] .null
  | plist {xs : List Lexeme} {o : OSObject} {ids : Identifiers} : IsObject [] xs o ids →
    Denotes (.plist .TAG_START::(xs++[.plist .TAG_END])) o

def IsDocument (strtol : List UInt8 → ℤ) (strtoul : List UInt8 → ℕ) (text : List UInt8)
    (o : OSObject) : Prop :=
  ∃ xs,Lexes strtol strtoul text xs ∧ Denotes xs o

end Darwin.Libkern.UnserializeXML
