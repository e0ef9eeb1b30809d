import Darwin.Libkern.XmlScanner

/-! `yylex`: the tokens of a text, and how far the scanner has read when it has found one. The only
loop of the scanner that does not stop at the end of the text is the one over a quoted value. -/
open List Nat
namespace Darwin.Libkern.UnserializeXML

inductive Token
  | endOfInput
  | ARRAY
  | BOOLEAN
  | DATA
  | DICTIONARY
  | IDREF
  | KEY
  | NUMBER
  | SET
  | STRING
  | SYNTAX_ERROR
  | leftBrace
  | rightBrace
  | leftParen
  | rightParen
  | leftBracket
  | rightBracket
  deriving DecidableEq,Repr

/-- An object as it is built: a collection of what is put into it, in this order. -/
inductive OSObject
  | null
  | dictionary (entries : List (List UInt8 × OSObject))
  | array (members : List OSObject)
  | set (members : List OSObject)
  | string (s : List UInt8)
  | data (bytes : List UInt8)
  | number (value size : ℕ)
  | boolean (b : Bool)

/-- `object_t`; a list of them is the keys and objects along their `next` fields. -/
structure ObjectT where
  next : List (List UInt8 × OSObject)
  elements : List (List UInt8 × OSObject)
  object : OSObject
  key : List UInt8
  size : ℕ
  data : List UInt8
  string : List UInt8
  number : ℕ
  idref : ℤ

def newObject : ObjectT := ⟨[],[],.null,[],0,[],[],0,-1⟩

/-- A token; what is left of the text; and traces of the scanner: the text behind the opening quotes of
values, the text that copies of strings have not read, the text at the tags that begin a token or are
skipped, and the text where a token's closing tag should be. -/
structure Lexed where
  token : Token
  yylval : ObjectT
  rest : Text
  opened : List Text
  copied : List Text
  met : List Text
  closings : List Text

def Lexed.behind (opened met : List Text) (l : Lexed) : Lexed :=
  {l with opened := opened++l.opened,met := met++l.met}

def tagArray : List UInt8 := chars ['a','r','r','a','y']
def tagDict : List UInt8 := chars ['d','i','c','t']
def tagData : List UInt8 := chars ['d','a','t','a']
def tagFalse : List UInt8 := chars ['f','a','l','s','e']
def tagInteger : List UInt8 := chars ['i','n','t','e','g','e','r']
def tagKey : List UInt8 := chars ['k','e','y']
def tagPlist : List UInt8 := chars ['p','l','i','s','t']
def tagString : List UInt8 := chars ['s','t','r','i','n','g']
def tagSet : List UInt8 := chars ['s','e','t']
def tagTrue : List UInt8 := chars ['t','r','u','e']

section Code
variable (strtol : List UInt8 → ℤ) (strtoul : List UInt8 → ℕ)

/-- The loop for "ID" and "IDREF" attributes: `none` for a syntax error, else whether there is an
IDREF, and the number. -/
def findIds (tagType : TagType) (idref : ℤ) : List (List UInt8 × List UInt8) → Option (Bool × ℤ)
  | [] => some (false,idref)
  | (name,value)::others =>
    if name.take 2=chars ['I','D'] then
      if name=chars ['I','D','R','E','F'] then
        if tagType≠.TAG_EMPTY then none else some (true,strtol value)
      else if name=chars ['I','D'] then findIds tagType (strtol value) others
      else none
    else findIds tagType idref others

def closeTag (name : List UInt8) (token : Token) (yylval : ObjectT) (t : Text)
    (copied : List Text) : Lexed :=
  let close := getTag t
  ⟨if close.tagType≠.TAG_END ∨ close.tag≠name then .SYNTAX_ERROR else token,yylval,close.rest,
    close.opened,copied,[],[t]⟩

def lexString (name : List UInt8) (token : Token) (yylval : ObjectT) (t : Text) : Lexed :=
  let read := getString t
  match read.string with
  | none => ⟨.SYNTAX_ERROR,yylval,read.rest,[],read.copied,[],[]⟩
  | some string => closeTag name token {yylval with string := string} read.rest read.copied

def integerSize (attributes : List (List UInt8 × List UInt8)) : ℕ :=
  attributes.foldl (fun size a => if a.1=chars ['s','i','z','e'] then strtoul a.2 else size) 64

/-- The `switch` over the tag; a tag that only begins like a known one is the end of the input. -/
def lexTag (read : TagRead) (yylval : ObjectT) : Lexed :=
  let empty := read.tagType=.TAG_EMPTY
  let start := read.tagType=.TAG_START
  if read.tag=tagArray then
    ⟨if empty then .ARRAY else if start then .leftParen else .rightParen,yylval,read.rest,[],[],[],[]⟩
  else if read.tag=tagDict then
    ⟨if empty then .DICTIONARY else if start then .leftBrace else .rightBrace,yylval,read.rest,[],[],[],[]⟩
  else if read.tag=tagData then
    if empty then ⟨.DATA,yylval,read.rest,[],[],[],[]⟩
    else
      let readable := read.attributes.any fun a =>
        a.1=chars ['f','o','r','m','a','t'] ∧ a.2=chars ['h','e','x']
      let data := if readable then getHexData read.rest else getCFEncodedData read.rest
      let bytes := data.1.getD []
      closeTag tagData .DATA {yylval with data := bytes,size := bytes.length} data.2 []
  else if read.tag=tagFalse ∧ empty then ⟨.BOOLEAN,yylval,read.rest,[],[],[],[]⟩
  else if read.tag=tagInteger then
    let yylval := {yylval with size := integerSize strtoul read.attributes}
    if empty then ⟨.NUMBER,yylval,read.rest,[],[],[],[]⟩
    else
      let number := getNumber read.rest
      closeTag tagInteger .NUMBER {yylval with number := number.1} number.2 []
  else if read.tag=tagKey then
    if empty then ⟨.SYNTAX_ERROR,yylval,read.rest,[],[],[],[]⟩
    else lexString tagKey .KEY yylval read.rest
  else if read.tag=tagString then
    if empty then ⟨.STRING,yylval,read.rest,[],[],[],[]⟩
    else lexString tagString .STRING yylval read.rest
  else if read.tag=tagSet then
    ⟨if empty then .SET else if start then .leftBracket else .rightBracket,yylval,read.rest,[],[],[],[]⟩
  else if read.tag=tagTrue ∧ empty then
    ⟨.BOOLEAN,{yylval with number := 1},read.rest,[],[],[],[]⟩
  else if currentChar read.tag∈chars ['a','d','f','i','k','p','s','t'] then
    ⟨.endOfInput,yylval,read.rest,[],[],[],[]⟩
  else ⟨.SYNTAX_ERROR,yylval,read.rest,[],[],[],[]⟩

def yylexFrom : ℕ → Text → Option Lexed
  | 0,_ => none
  | fuel+1,t =>
    let t := t.dropWhile isSpace
    if currentChar t=0x0a then yylexFrom fuel (nextChar t)
    else if currentChar t=0 then some ⟨.endOfInput,newObject,t,[],[],[],[]⟩
    else
      let read := getTag t
      if read.tagType=.TAG_BAD then some ⟨.SYNTAX_ERROR,newObject,read.rest,read.opened,[],[],[]⟩
      else if read.tagType=.TAG_COMMENT then
        (yylexFrom fuel read.rest).map (Lexed.behind read.opened [])
      else
        match findIds strtol read.tagType (-1) read.attributes with
        | none => some ⟨.SYNTAX_ERROR,newObject,read.rest,read.opened,[],[],[]⟩
        | some (true,idref) =>
          some ⟨.IDREF,{newObject with idref := idref},read.rest,read.opened,[],[t],[]⟩
        | some (false,idref) =>
          if read.tag=tagPlist then
            (yylexFrom fuel read.rest).map (Lexed.behind read.opened [t])
          else some ((lexTag strtoul read {newObject with idref := idref}).behind read.opened [t])

def yylex (t : Text) : Option Lexed := yylexFrom strtol strtoul (t.length+1) t

end Code

/-! ### Quoted values -/

/-- The text ends inside a quoted value, and before the value's buffer is full. -/
def Cut (beyond opened : Text) : Prop :=
  ∃ value,opened=value++0::beyond ∧ value.length+2<TAG_MAX_LENGTH ∧ 0x22∉value

/-- From the one place to the other the scanner goes on, and past the end of the text exactly if it
comes to a value in which the text ends. -/
structure Scanned (t r : Text) (opened : List Text) : Prop where
  suffix : r <:+ t
  ended : ∀ beyond,Ended beyond t → (Ended beyond r ↔ ∀ o∈opened,¬Cut beyond o)

section Scanned
variable {t r u : Text} {opened opened' : List Text}

lemma Reads.scanned (h : Reads t r) : Scanned t r [] :=
  ⟨h.suffix,fun beyond hb =>
    iff_of_true (h.ended beyond hb) fun _ ho => absurd ho not_mem_nil⟩

lemma Scanned.trans (h : Scanned t r opened) (h' : Scanned r u opened') :
    Scanned t u (opened++opened') := by
  refine ⟨h'.suffix.trans h.suffix,fun beyond hb => ?_⟩
  simp only [mem_append,or_imp,forall_and]
  rw [←h.ended beyond hb]
  constructor
  · intro hu
    have hr : Ended beyond r := List.IsSuffix.trans hu h'.suffix
    exact ⟨hr,(h'.ended beyond hr).mp hu⟩
  · exact fun ⟨hr,hall⟩ => (h'.ended beyond hr).mpr hall

lemma Reads.then_scanned (h : Reads t r) (h' : Scanned r u opened) : Scanned t u opened :=
  h.scanned.trans h'

lemma Scanned.then_reads (h : Scanned t r opened) (h' : Reads r u) : Scanned t u opened := by
  have := h.trans h'.scanned
  rwa [append_nil] at this

lemma copyValue_suffix (length : ℕ) (t : Text) : (copyValue length t).2 <:+ t := by
  induction t generalizing length with
  | nil => exact suffix_refl []
  | cons c t ih =>
    rw [copyValue]
    split_ifs
    · exact suffix_cons c t
    · exact suffix_refl _
    · exact (ih _).trans (suffix_cons c t)

lemma copyValue_ended (beyond : Text) {length : ℕ} {t : Text} (h : Ended beyond t) :
    Ended beyond (copyValue length t).2 ↔ ¬∃ value,t=value++0::beyond ∧
      length+value.length+2<TAG_MAX_LENGTH ∧ 0x22∉value := by
  induction t generalizing length with
  | nil => exact absurd h.length_le (by simp)
  | cons c t ih =>
    rw [copyValue]
    split_ifs with hquote hfull
    · refine iff_of_true (h.tail (by rw [hquote]; decide)) ?_
      rintro ⟨value,hvalue,-,hnone⟩
      cases value with
      | nil =>
        rw [hquote] at hvalue
        exact absurd (List.cons.inj hvalue).1 (by decide)
      | cons c' value =>
        rw [←(List.cons.inj hvalue).1,hquote] at hnone
        exact hnone mem_cons_self
    · refine iff_of_true h ?_
      rintro ⟨value,-,hshort,-⟩
      rw [TAG_MAX_LENGTH] at hfull hshort
      omega
    · rcases suffix_cons_iff.mp h with heq | hrest
      · -- the next character is the NUL: the scanner goes on behind it
        refine iff_of_false (fun hpast => ?_) (not_not.mpr ⟨[],heq.symm,?_,not_mem_nil⟩)
        · have hle := (hpast.trans (copyValue_suffix _ t)).length_le
          have hlength := congrArg List.length heq
          simp only [length_cons] at hle hlength
          omega
        · rw [TAG_MAX_LENGTH] at hfull ⊢
          simp only [length_nil]
          omega
      · rw [ih hrest,not_iff_not]
        constructor
        · rintro ⟨value,rfl,hshort,hnone⟩
          refine ⟨c::value,rfl,?_,?_⟩
          · rw [length_cons]
            omega
          · rw [mem_cons,not_or]
            exact ⟨fun h => hquote h.symm,hnone⟩
        · rintro ⟨value,hvalue,hshort,hnone⟩
          cases value with
          | nil =>
            have hle := hrest.length_le
            rw [(List.cons.inj hvalue).2,length_cons] at hle
            omega
          | cons c' value =>
            refine ⟨value,(List.cons.inj hvalue).2,?_,fun h => hnone (mem_cons_of_mem _ h)⟩
            rw [length_cons] at hshort
            omega

lemma copyValue_scanned (t : Text) : Scanned t (copyValue 0 t).2 [t] := by
  refine ⟨copyValue_suffix 0 t,fun beyond hb => ?_⟩
  rw [copyValue_ended beyond hb,forall_mem_singleton,Cut]
  simp only [zero_add]

lemma getAttribute_scanned (t : Text) :
    Scanned t (getAttribute t).rest (getAttribute t).opened := by
  have hspace : isSpace 0=false := by decide
  have hname : Reads t (copyAttribute 0 (t.dropWhile isSpace)).2 :=
    (Reads.dropWhile hspace t).trans (copyAttribute_reads 0 _)
  rw [getAttribute]
  dsimp only
  cases hattr : (copyAttribute 0 (t.dropWhile isSpace)).1 with
  | none => exact hname.scanned
  | some attr =>
    dsimp only
    have hequals := hname.trans (.dropWhile hspace _)
    split_ifs with heq hquote
    · exact hequals.scanned
    · refine ((hequals.trans (.next ?_)).trans (.dropWhile hspace _)).scanned
      rw [not_not.mp heq]
      decide
    · refine (((hequals.trans (.next ?_)).trans (.dropWhile hspace _)).trans (.next ?_)).then_scanned
        (copyValue_scanned _)
      · rw [not_not.mp heq]
        decide
      · rw [not_not.mp hquote]
        decide

lemma getAttributes_scanned (slots : ℕ) (t : Text) :
    Scanned t (getAttributes slots t).rest (getAttributes slots t).opened := by
  induction slots generalizing t with
  | zero => exact (Reads.refl t).scanned
  | succ slots ih =>
    have hfirst := getAttribute_scanned t
    rw [getAttributes]
    split_ifs with hend
    · exact (Reads.refl t).scanned
    · dsimp only
      cases hvalue : (getAttribute t).value with
      | none => exact hfirst
      | some attr => exact hfirst.trans (ih _)

lemma getTagName_scanned (tagType : TagType) (t : Text) :
    Scanned t (getTagName tagType t).rest (getTagName tagType t).opened := by
  rw [getTagName]
  by_cases halpha : (!isAlpha (currentChar t))=true
  · rw [if_pos halpha]
    exact (Reads.refl t).scanned
  rw [if_neg halpha]
  have hname := copyTag_reads 0 t
  dsimp only
  cases htag : (copyTag 0 t).1 with
  | none => exact hname.scanned
  | some tag =>
    dsimp only
    have hattributes := hname.then_scanned (getAttributes_scanned TAG_MAX_ATTRIBUTES (copyTag 0 t).2)
    obtain ⟨read,hread⟩ : ∃ read,read=getAttributes TAG_MAX_ATTRIBUTES (copyTag 0 t).2 := ⟨_,rfl⟩
    rw [←hread] at hattributes ⊢
    cases hvalues : read.value with
    | none => exact hattributes
    | some values =>
      dsimp only
      have hlast : Scanned t (if currentChar read.rest=0x2f then nextChar read.rest else read.rest)
          read.opened := by
        split_ifs with hslash
        · refine hattributes.then_reads (.next ?_)
          rw [hslash]
          decide
        · exact hattributes
      by_cases hclose : currentChar
          (if currentChar read.rest=0x2f then nextChar read.rest else read.rest)=0x3e
      · rw [if_neg (not_not.mpr hclose)]
        refine hlast.then_reads (.next ?_)
        rw [hclose]
        decide
      · rw [if_pos hclose]
        exact hlast

lemma getTag_of_lt {t : Text} (h : currentChar t=0x3c) :
    Scanned (nextChar t) (getTag t).rest (getTag t).opened := by
  rw [getTag,if_neg (not_not.mpr h)]
  dsimp only
  split_ifs with hcomment hfound hslash
  · refine ((Reads.next ?_).trans (skipComment_reads _)).scanned
    rcases hcomment with h0 | h0 <;> rw [h0] <;> decide
  · refine ((Reads.next ?_).trans (skipComment_reads _)).scanned
    rcases hcomment with h0 | h0 <;> rw [h0] <;> decide
  · refine (Reads.next ?_).then_scanned (getTagName_scanned _ _)
    rw [hslash]
    decide
  · exact getTagName_scanned _ _

lemma getTag_scanned (t : Text) : Scanned t (getTag t).rest (getTag t).opened := by
  by_cases h : currentChar t=0x3c
  · refine (Reads.next ?_).then_scanned (getTag_of_lt h)
    rw [h]
    decide
  · rw [getTag,if_pos h]
    exact (Reads.refl t).scanned

lemma getTag_shorter {t : Text} (h : (getTag t).tagType≠.TAG_BAD) :
    (getTag t).rest.length<t.length := by
  have hlt : currentChar t=0x3c := by
    by_contra hne
    rw [getTag,if_pos hne] at h
    exact h rfl
  have hle := (getTag_of_lt hlt).suffix.length_le
  cases t with
  | nil => exact absurd hlt (by decide)
  | cons c t =>
    rw [nextChar,tail_cons] at hle
    rw [length_cons]
    omega

end Scanned

/-! ### Tokens -/

/-- A token is scanned, copies of strings end before what is left of the text, and only the end of the
input and a syntax error may take no character. -/
structure LexSpec (t : Text) (l : Lexed) : Prop where
  scanned : Scanned t l.rest l.opened
  copied : ∀ beyond,Ended beyond l.rest → ∀ u∈l.copied,Ended beyond u
  shorter : l.token≠.endOfInput → l.token≠.SYNTAX_ERROR → l.rest.length<t.length

section LexSpec
variable {t r : Text} {l : Lexed} {yylval : ObjectT} {token : Token}

lemma LexSpec.behind {opened : List Text} (h : Scanned t r opened) (h' : LexSpec r l)
    (met : List Text) : LexSpec t (l.behind opened met) := by
  refine ⟨h.trans h'.scanned,h'.copied,fun hend hbad => ?_⟩
  exact (h'.shorter hend hbad).trans_le h.suffix.length_le

/-- What `closeTag` and the other ends of `lexTag` keep, and how far they go. -/
structure TokenSpec (t : Text) (l : Lexed) : Prop where
  scanned : Scanned t l.rest l.opened
  copied : ∀ beyond,Ended beyond l.rest → ∀ u∈l.copied,Ended beyond u

lemma TokenSpec.lexSpec {opened : List Text} (h : Scanned t r opened) (hlt : r.length<t.length)
    (h' : TokenSpec r l) (met : List Text) : LexSpec t (l.behind opened met) :=
  ⟨h.trans h'.scanned,h'.copied,fun _ _ => h'.scanned.suffix.length_le.trans_lt hlt⟩

lemma tokenSpec_here (t : Text) (token : Token) (yylval : ObjectT) :
    TokenSpec t ⟨token,yylval,t,[],[],[],[]⟩ :=
  ⟨(Reads.refl t).scanned,fun _ _ _ hu => absurd hu not_mem_nil⟩

lemma closeTag_spec (name : List UInt8) {copied : List Text} (h : Reads t r)
    (hcopied : ∀ u∈copied,Reads t u) : TokenSpec t (closeTag name token yylval r copied) := by
  have hscanned : Scanned t (getTag r).rest (getTag r).opened := h.then_scanned (getTag_scanned r)
  refine ⟨hscanned,fun beyond hb u hu => (hcopied u hu).ended beyond ?_⟩
  exact List.IsSuffix.trans hb hscanned.suffix

lemma lexString_spec (name : List UInt8) (token : Token) (yylval : ObjectT) (t : Text) :
    TokenSpec t (lexString name token yylval t) := by
  have hreads := getString_reads t
  have hcopied := getString_copied t
  rw [lexString]
  cases hstring : (getString t).string with
  | none =>
    refine ⟨hreads.scanned,fun beyond hb u hu => (hcopied u hu).ended beyond ?_⟩
    exact List.IsSuffix.trans hb hreads.suffix
  | some string => exact closeTag_spec name hreads hcopied

variable (strtol : List UInt8 → ℤ) (strtoul : List UInt8 → ℕ)

lemma lexTag_spec (read : TagRead) (yylval : ObjectT) :
    TokenSpec read.rest (lexTag strtoul read yylval) := by
  have hnone : ∀ u∈([] : List Text),Reads read.rest u := fun u hu => absurd hu not_mem_nil
  have hdata : ∀ readable : Bool,Reads read.rest
      (if readable then getHexData read.rest else getCFEncodedData read.rest).2 := by
    intro readable
    cases readable
    · exact encodedLoop_reads 0 0 0 _
    · exact hexLoop_reads false _
  rw [lexTag]
  dsimp only
  by_cases harray : read.tag=tagArray
  · rw [if_pos harray]
    exact tokenSpec_here _ _ _
  rw [if_neg harray]
  by_cases hdict : read.tag=tagDict
  · rw [if_pos hdict]
    exact tokenSpec_here _ _ _
  rw [if_neg hdict]
  by_cases htagData : read.tag=tagData
  · rw [if_pos htagData]
    split_ifs
    · exact tokenSpec_here _ _ _
    · exact closeTag_spec _ (hdata true) hnone
    · exact closeTag_spec _ (hdata false) hnone
  rw [if_neg htagData]
  by_cases hfalse : read.tag=tagFalse ∧ read.tagType=.TAG_EMPTY
  · rw [if_pos hfalse]
    exact tokenSpec_here _ _ _
  rw [if_neg hfalse]
  by_cases hinteger : read.tag=tagInteger
  · rw [if_pos hinteger]
    split_ifs
    · exact tokenSpec_here _ _ _
    · exact closeTag_spec _ (getNumber_reads _) hnone
  rw [if_neg hinteger]
  by_cases hkey : read.tag=tagKey
  · rw [if_pos hkey]
    split_ifs
    · exact tokenSpec_here _ _ _
    · exact lexString_spec _ _ _ _
  rw [if_neg hkey]
  by_cases hstring : read.tag=tagString
  · rw [if_pos hstring]
    split_ifs
    · exact tokenSpec_here _ _ _
    · exact lexString_spec _ _ _ _
  rw [if_neg hstring]
  by_cases hset : read.tag=tagSet
  · rw [if_pos hset]
    exact tokenSpec_here _ _ _
  rw [if_neg hset]
  split_ifs <;> exact tokenSpec_here _ _ _

lemma yylexFrom_spec (fuel : ℕ) (t : Text) (hfuel : t.length<fuel) :
    ∃ l,yylexFrom strtol strtoul fuel t=some l ∧ LexSpec t l := by
  induction fuel generalizing t with
  | zero => exact absurd hfuel (not_lt_zero _)
  | succ fuel ih =>
    have hspaces : Reads t (t.dropWhile isSpace) := .dropWhile (by decide) t
    have hle := hspaces.length_le
    obtain ⟨s,hs⟩ : ∃ s,s=t.dropWhile isSpace := ⟨_,rfl⟩
    rw [←hs] at hspaces hle
    rw [yylexFrom]
    dsimp only
    rw [←hs]
    have hscanned := hspaces.then_scanned (getTag_scanned s)
    by_cases hline : currentChar s=0x0a
    · have hnext : Reads s (nextChar s) := .next (by rw [hline]; decide)
      have hshorter : (nextChar s).length<s.length := by
        cases s with
        | nil => exact absurd hline (by decide)
        | cons c s => exact lt_succ_self _
      obtain ⟨l,hl,hspec⟩ := ih (nextChar s) (by omega)
      rw [if_pos hline]
      exact ⟨l,hl,hspec.behind (hspaces.trans hnext).scanned []⟩
    rw [if_neg hline]
    by_cases hzero : currentChar s=0
    · rw [if_pos hzero]
      exact ⟨_,rfl,hspaces.scanned,fun _ _ _ hu => absurd hu not_mem_nil,
        fun h => absurd rfl h⟩
    rw [if_neg hzero]
    by_cases hbad : (getTag s).tagType=.TAG_BAD
    · rw [if_pos hbad]
      exact ⟨_,rfl,hscanned,fun _ _ _ hu => absurd hu not_mem_nil,fun _ h => absurd rfl h⟩
    rw [if_neg hbad]
    have hshorter := getTag_shorter hbad
    obtain ⟨l,hl,hspec⟩ := ih (getTag s).rest (by omega)
    have hagain : ∀ met,∃ l,(yylexFrom strtol strtoul fuel (getTag s).rest).map
        (Lexed.behind (getTag s).opened met)=some l ∧ LexSpec t l := by
      intro met
      rw [hl]
      exact ⟨_,rfl,hspec.behind hscanned met⟩
    by_cases hcomment : (getTag s).tagType=.TAG_COMMENT
    · rw [if_pos hcomment]
      exact hagain []
    rw [if_neg hcomment]
    have hnil : ∀ beyond : Text,Ended beyond (getTag s).rest → ∀ u∈([] : List Text),
        Ended beyond u := fun _ _ _ hu => absurd hu not_mem_nil
    cases hids : findIds strtol (getTag s).tagType (-1) (getTag s).attributes with
    | none => exact ⟨_,rfl,hscanned,hnil,fun _ h => absurd rfl h⟩
    | some found =>
      obtain ⟨isIdref,idref⟩ := found
      cases isIdref with
      | true => exact ⟨_,rfl,hscanned,hnil,fun _ _ => by dsimp only; omega⟩
      | false =>
        dsimp only
        by_cases hplist : (getTag s).tag=tagPlist
        · rw [if_pos hplist]
          exact hagain [s]
        · rw [if_neg hplist]
          exact ⟨_,rfl,(lexTag_spec strtoul _ _).lexSpec hscanned (by omega) [s]⟩

lemma yylex_spec (t : Text) : ∃ l,yylex strtol strtoul t=some l ∧ LexSpec t l :=
  yylexFrom_spec strtol strtoul (t.length+1) t (lt_succ_self _)

end LexSpec
end Darwin.Libkern.UnserializeXML
