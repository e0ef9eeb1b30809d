import Darwin.Libkern.XmlSpelling

/-! What the scanner takes for a lexeme is spelled as one, unless it goes over something that is not. -/
open List Option
namespace Darwin.Libkern.UnserializeXML

/-! ### Elements -/

def lexemeOf : Token → ObjectT → Option Lexeme
  | .ARRAY,v => some (.value v.idref (.array []))
  | .BOOLEAN,v => some (.boolean (v.number≠0))
  | .DATA,v => some (.value v.idref (.data (v.data.take v.size)))
  | .DICTIONARY,v => some (.value v.idref (.dictionary []))
  | .IDREF,v => some (.idref v.idref)
  | .KEY,v => some (.key v.string)
  | .NUMBER,v => some (.value v.idref (.number v.number v.size))
  | .SET,v => some (.value v.idref (.set []))
  | .STRING,v => some (.value v.idref (.string v.string))
  | .leftBrace,v => some (.opens .dictionary v.idref)
  | .rightBrace,_ => some (.closes .dictionary)
  | .leftParen,v => some (.opens .array v.idref)
  | .rightParen,_ => some (.closes .array)
  | .leftBracket,v => some (.opens .set v.idref)
  | .rightBracket,_ => some (.closes .set)
  | .endOfInput,_ => none
  | .SYNTAX_ERROR,_ => none

def PlainClosing (t : Text) : Prop :=
  (getTag t).tagType=.TAG_END → (getTag t).attributes=[]

section Elements
variable (strtol : List UInt8 → ℤ) (strtoul : List UInt8 → ℕ)

def elementOf (read : TagRead) : Lexed :=
  lexTag strtoul read {newObject with idref := idOf strtol read.attributes}

/-- Elements whose tag is not a closing tag where the element has text, and whose text is what the tag
says. -/
structure RegularElement (read : TagRead) : Prop where
  begins : read.tag ∈ [tagData,tagInteger,tagKey,tagString] → read.tagType≠.TAG_END
  hex : read.tag=tagData → read.tagType=.TAG_START → Readable read.attributes →
    (getHexData read.rest).1≠none
  base64 : read.tag=tagData → read.tagType=.TAG_START → ¬Readable read.attributes →
    Adjacent (read.rest.takeWhile (·≠0x3c)) ∧
      ∃ bytes,Base64Text (read.rest.takeWhile (·≠0x3c)) bytes
  size : read.tag=tagInteger → Numbered attrSize read.attributes
  number : read.tag=tagInteger → read.tagType=.TAG_START → ShortNumber read.rest

/-- The text behind the tag is the rest of a lexeme, which is the one of the token. -/
def Completes (t : Text) (w : List UInt8) (l : Lexed) : Prop :=
  ∃ w' x,t=w'++l.rest ∧ Spells strtol strtoul (w++w') x ∧
    lexemeOf l.token l.yylval=some x ∧ l.yylval.elements=[]

variable {strtol strtoul} {t r : Text} {w : List UInt8} {id : ℤ} {token : Token} {yylval : ObjectT}
  {attributes : List (List UInt8 × List UInt8)} {copied : List Text}

variable {name : List UInt8}

lemma closeTag_text
    (htoken : (closeTag name token yylval r copied).token≠.SYNTAX_ERROR) (hplain : PlainClosing r) : ∃ b,r=b++(closeTag name token yylval r copied).rest ∧
      TagText .TAG_END name [] b ∧ (closeTag name token yylval r copied).token=token := by
  rw [closeTag] at htoken ⊢
  dsimp only at htoken ⊢
  split_ifs at htoken ⊢ with hclose
  · exact absurd rfl htoken
  rw [not_or,not_not,not_not] at hclose
  have hattributes := hplain hclose.1
  obtain ⟨b,hb,htext⟩ := getTag_text (t := r) (by rw [hclose.1]; decide) (by rw [hclose.1]; decide)
    ⟨by rw [hattributes]; exact fun _ ha => absurd ha not_mem_nil,
      fun _ => ⟨hclose.1,hattributes⟩⟩
  rw [hclose.1,hclose.2,hattributes] at htext
  exact ⟨b,hb,htext,rfl⟩

lemma closeTag_end
    (htoken : (closeTag name token yylval r copied).token≠.SYNTAX_ERROR) :
    (getTag r).tagType≠.TAG_BAD := by
  intro hbad
  rw [closeTag] at htoken
  dsimp only at htoken
  rw [hbad,if_pos (.inl (by decide))] at htoken
  exact htoken rfl

lemma completes_here {x : Lexeme} (t : Text) (hw : Spells strtol strtoul w x)
    (hx : lexemeOf token yylval=some x) (helements : yylval.elements=[]) :
    Completes strtol strtoul t w ⟨token,yylval,t,[],[],[],[]⟩ :=
  ⟨[],x,rfl,by rw [append_nil]; exact hw,hx,helements⟩

lemma completes_closeTag {name body : List UInt8} {x : Lexeme} (ht : t=body++r)
    (hw : ∀ b,TagText .TAG_END name [] b → Spells strtol strtoul (w++body++b) x)
    (hx : lexemeOf token yylval=some x) (helements : yylval.elements=[])
    (htoken : (closeTag name token yylval r copied).token≠.SYNTAX_ERROR)
    (hplain : PlainClosing r) : Completes strtol strtoul t w (closeTag name token yylval r copied) := by
  obtain ⟨b,hb,htext,htoken'⟩ := closeTag_text htoken hplain
  refine ⟨body++b,x,?_,?_,?_,helements⟩
  · rw [append_assoc,←hb]
    exact ht
  · rw [←append_assoc]
    exact hw b htext
  · rw [htoken']
    exact hx

lemma completes_collection {read : TagRead} {c : Collection} {empty opens closes : Token}
    (htext : TagText read.tagType c.tag read.attributes w)
    (hid : Identified strtol read.attributes yylval.idref)
    (hempty : lexemeOf empty yylval=some (.value yylval.idref c.empty))
    (hopens : lexemeOf opens yylval=some (.opens c yylval.idref))
    (hcloses : lexemeOf closes yylval=some (.closes c)) (helements : yylval.elements=[]) :
    Completes strtol strtoul t w ⟨if read.tagType=.TAG_EMPTY then empty else
      if read.tagType=.TAG_START then opens else closes,yylval,t,[],[],[],[]⟩ := by
  obtain ⟨tagType,htype⟩ : ∃ tagType,tagType=read.tagType := ⟨_,rfl⟩
  obtain ⟨attributes,hattributes⟩ : ∃ attributes,attributes=read.attributes := ⟨_,rfl⟩
  rw [←htype,←hattributes] at htext
  rw [←hattributes] at hid
  rw [←htype]
  cases htext with
  | opening hname hs => exact completes_here t (.opens c (.opening hname hs) hid) hopens helements
  | empty hname hs => exact completes_here t (.empty c (.empty hname hs) hid) hempty helements
  | closing hname => exact completes_here t (.closes c (.closing hname)) hcloses helements

lemma start_of_ne {tagType : TagType} (h : TagText tagType name attributes w)
    (hempty : tagType≠.TAG_EMPTY) (hend : tagType≠.TAG_END) : tagType=.TAG_START := by
  cases h with
  | opening => rfl
  | empty => exact absurd rfl hempty
  | closing => exact absurd rfl hend

lemma data_text {read : TagRead} (hdata : read.tag=tagData) (htype : read.tagType=.TAG_START)
    (hreg : RegularElement read) {readable : Bool}
    (hreadable : readable=true ↔ Readable read.attributes) {data : Option (List UInt8) × Text}
    (h : data=if readable then getHexData read.rest else getCFEncodedData read.rest)
    (htag : (getTag data.2).tagType≠.TAG_BAD) :
    ∃ body,read.rest=body++data.2 ∧ DataText (Readable read.attributes) body (data.1.getD []) := by
  cases readable with
  | true =>
    have hr := hreadable.mp rfl
    rw [if_pos rfl] at h
    obtain ⟨bytes,hbytes⟩ := ne_none_iff_exists'.mp (hreg.hex hdata htype hr)
    obtain ⟨body,hbody,htext⟩ := hexLoop_text hbytes
    refine ⟨body,by rw [h]; exact hbody,.inl ⟨hr,?_⟩⟩
    rw [h,hbytes]
    exact htext
  | false =>
    have hr : ¬Readable read.attributes := fun hr => Bool.false_ne_true (hreadable.mpr hr)
    rw [if_neg Bool.false_ne_true] at h
    obtain ⟨hadj,bytes,hbytes⟩ := hreg.base64 hdata htype hr
    have hsplit : read.rest.takeWhile (·≠0x3c)++read.rest.dropWhile (·≠0x3c)=read.rest :=
      takeWhile_append_dropWhile
    cases hdrop : read.rest.dropWhile (·≠0x3c) with
    | nil =>
      -- there is no closing tag
      have hnone : 0x3c∉read.rest := by
        intro hmem
        rw [hdrop,append_nil] at hsplit
        rw [←hsplit] at hmem
        exact absurd (all_eq_true.mp all_takeWhile _ hmem) (by decide)
      have hlt := eq_cons_of_currentChar (lt_of_getTag htag) (by decide)
      have hsuffix : data.2 <:+ read.rest := by
        rw [h]
        exact (encodedLoop_reads 0 0 0 _).suffix
      exact absurd (hsuffix.subset (by rw [hlt]; exact mem_cons_self)) hnone
    | cons c r =>
      have hc : c=0x3c := by
        have := List.head?_dropWhile_not (·≠0x3c) read.rest
        rw [hdrop] at this
        simpa using this
      rw [hdrop,hc] at hsplit
      have hrun := encodedLoop_text hbytes hadj 0 0 (by decide : 0%4=0) r
      rw [hsplit] at hrun
      rw [getCFEncodedData,hrun] at h
      refine ⟨read.rest.takeWhile (·≠0x3c),?_,.inr ⟨hr,?_⟩⟩
      · rw [h]
        exact hsplit.symm
      · rw [h]
        exact hbytes

lemma any_iff_readable (attributes : List (List UInt8 × List UInt8)) :
    (attributes.any fun a => a.1=chars ['f','o','r','m','a','t'] ∧ a.2=chars ['h','e','x'])=true ↔
      Readable attributes := by
  rw [Readable,List.any_eq_true]
  constructor
  · rintro ⟨⟨name,value⟩,hmem,h⟩
    obtain ⟨hname,hvalue⟩ := decide_eq_true_iff.mp h
    rw [←hname,←hvalue]
    exact hmem
  · exact fun h => ⟨_,h,decide_eq_true ⟨rfl,rfl⟩⟩

lemma completes_lexString (lexeme : List UInt8 → Lexeme)
    (hw : ∀ body string b,StringText body string → TagText .TAG_END name [] b →
      Spells strtol strtoul (w++body++b) (lexeme string))
    (hx : ∀ string,lexemeOf token {yylval with string := string}=some (lexeme string))
    (helements : yylval.elements=[])
    (htoken : (lexString name token yylval t).token≠.SYNTAX_ERROR)
    (hplain : ∀ u∈(lexString name token yylval t).closings,PlainClosing u) :
    Completes strtol strtoul t w (lexString name token yylval t) := by
  rw [lexString] at htoken hplain ⊢
  cases hstring : (getString t).string with
  | none =>
    rw [hstring] at htoken
    exact absurd rfl htoken
  | some string =>
    rw [hstring] at htoken hplain
    obtain ⟨body,hbody,htext⟩ := getString_text hstring
    exact completes_closeTag hbody (fun b hb => hw body string b htext hb) (hx string) helements
      htoken (hplain _ (mem_singleton_self _))

lemma elementOf_completes {read : TagRead} (htext : TagText read.tagType read.tag read.attributes w)
    (hid : Identified strtol read.attributes (idOf strtol read.attributes))
    (hreg : RegularElement read)
    (htoken : (elementOf strtol strtoul read).token≠.SYNTAX_ERROR)
    (hknown : (elementOf strtol strtoul read).token≠.endOfInput)
    (hplain : ∀ u∈(elementOf strtol strtoul read).closings,PlainClosing u) :
    Completes strtol strtoul read.rest w (elementOf strtol strtoul read) := by
  rw [elementOf,lexTag] at htoken hplain hknown ⊢
  dsimp only at htoken hplain hknown ⊢
  by_cases harray : read.tag=tagArray
  · rw [if_pos harray]
    rw [harray] at htext
    exact completes_collection (c := .array) htext hid rfl rfl rfl rfl
  rw [if_neg harray] at htoken hplain hknown ⊢
  by_cases hdict : read.tag=tagDict
  · rw [if_pos hdict]
    rw [hdict] at htext
    exact completes_collection (c := .dictionary) htext hid rfl rfl rfl rfl
  rw [if_neg hdict] at htoken hplain hknown ⊢
  by_cases hdata : read.tag=tagData
  · rw [if_pos hdata] at htoken hplain ⊢
    by_cases hempty : read.tagType=.TAG_EMPTY
    · rw [if_pos hempty]
      rw [hdata,hempty] at htext
      exact completes_here _ (.noData htext hid) rfl rfl
    · have hstart := start_of_ne htext hempty (hreg.begins (by rw [hdata]; decide))
      rw [if_neg hempty] at htoken hplain ⊢
      obtain ⟨body,hbody,hbytes⟩ := data_text hdata hstart hreg
        (any_iff_readable read.attributes) rfl (closeTag_end htoken)
      rw [hdata,hstart] at htext
      refine completes_closeTag hbody (fun b hb => .data htext hid hbytes hb) ?_ rfl htoken
        (hplain _ (mem_singleton_self _))
      rw [lexemeOf,take_length]
  rw [if_neg hdata] at htoken hplain hknown ⊢
  by_cases hfalse : read.tag=tagFalse ∧ read.tagType=.TAG_EMPTY
  · rw [if_pos hfalse]
    rw [hfalse.1,hfalse.2] at htext
    exact completes_here _ (.boolean false htext hid) rfl rfl
  rw [if_neg hfalse] at htoken hplain hknown ⊢
  by_cases hinteger : read.tag=tagInteger
  · rw [if_pos hinteger] at htoken hplain ⊢
    by_cases hempty : read.tagType=.TAG_EMPTY
    · rw [if_pos hempty]
      rw [hinteger,hempty] at htext
      exact completes_here _ (.noNumber htext hid (hreg.size hinteger)) rfl rfl
    · have hstart := start_of_ne htext hempty (hreg.begins (by rw [hinteger]; decide))
      rw [if_neg hempty] at htoken hplain ⊢
      obtain ⟨body,hbody,hnumber,hshort⟩ := getNumber_text (hreg.number hinteger hstart)
      rw [hinteger,hstart] at htext
      exact completes_closeTag hbody
        (fun b hb => .integer htext hid (hreg.size hinteger) hnumber hshort hb) rfl rfl htoken
        (hplain _ (mem_singleton_self _))
  rw [if_neg hinteger] at htoken hplain hknown ⊢
  by_cases hkey : read.tag=tagKey
  · rw [if_pos hkey] at htoken hplain ⊢
    by_cases hempty : read.tagType=.TAG_EMPTY
    · rw [if_pos hempty] at htoken
      exact absurd rfl htoken
    · have hstart := start_of_ne htext hempty (hreg.begins (by rw [hkey]; decide))
      rw [if_neg hempty] at htoken hplain ⊢
      rw [hkey,hstart] at htext
      exact completes_lexString .key
        (fun body string b hs hb => .key htext hid hs hb) (fun _ => rfl) rfl htoken hplain
  rw [if_neg hkey] at htoken hplain hknown ⊢
  by_cases hstring : read.tag=tagString
  · rw [if_pos hstring] at htoken hplain ⊢
    by_cases hempty : read.tagType=.TAG_EMPTY
    · rw [if_pos hempty]
      rw [hstring,hempty] at htext
      exact completes_here _ (.noString htext hid) rfl rfl
    · have hstart := start_of_ne htext hempty (hreg.begins (by rw [hstring]; decide))
      rw [if_neg hempty] at htoken hplain ⊢
      rw [hstring,hstart] at htext
      exact completes_lexString (fun string => .value _ (.string string))
        (fun body string b hs hb => .string htext hid hs hb) (fun _ => rfl) rfl htoken hplain
  rw [if_neg hstring] at htoken hplain hknown ⊢
  by_cases hset : read.tag=tagSet
  · rw [if_pos hset]
    rw [hset] at htext
    exact completes_collection (c := .set) htext hid rfl rfl rfl rfl
  rw [if_neg hset] at htoken hplain hknown ⊢
  by_cases htrue : read.tag=tagTrue ∧ read.tagType=.TAG_EMPTY
  · rw [if_pos htrue]
    rw [htrue.1,htrue.2] at htext
    exact completes_here _ (.boolean true htext hid) rfl rfl
  rw [if_neg htrue] at htoken hknown
  split_ifs at htoken hknown
  · exact absurd rfl hknown
  · exact absurd rfl htoken

end Elements

/-! ### Tokens -/

section Tokens
variable (strtol : List UInt8 → ℤ) (strtoul : List UInt8 → ℕ)

/-- A tag that is plain, whose ID or reference is a number, and that begins a regular element if it is
neither a reference nor a tag of a property list. -/
structure RegularTag (t : Text) : Prop where
  plain : PlainTag t
  idref : ∀ before value after,(getTag t).attributes=before++(attrIDREF,value)::after →
    (∀ a∈before,a.1≠attrIDREF) → IsNumeral value
  id : (∀ a∈(getTag t).attributes,a.1≠attrIDREF) → Numbered attrID (getTag t).attributes
  element : (∀ a∈(getTag t).attributes,a.1≠attrIDREF) → (getTag t).tag≠tagPlist →
    RegularElement (getTag t)

/-- The tag of an element that is a syntax error, or the end of the input. -/
structure Refused (t : Text) : Prop where
  noIdref : ∀ a∈(getTag t).attributes,a.1≠attrIDREF
  noPlist : (getTag t).tag≠tagPlist
  token : (elementOf strtol strtoul (getTag t)).token=.SYNTAX_ERROR ∨
    (elementOf strtol strtoul (getTag t)).token=.endOfInput

/-- Nothing has been gone over that is not spelled as it should be. -/
structure Traces (met closings : List Text) : Prop where
  met : ∀ t∈met,RegularTag t ∨ Refused strtol strtoul t
  closings : ∀ t∈closings,PlainClosing t

def AtEnd (l : Lexed) : Prop := ∀ t∈l.met,(getTag t).tag=tagPlist

/-- The text in front of what is left: tags of property lists and the lexeme of the token. At the end of
the input there is none, unless it is a tag that is taken for the end. -/
def LexSound (t : Text) (l : Lexed) : Prop :=
  (l.token=.endOfInput ∧ (AtEnd l → ∃ w ys,t=w++l.rest ∧ (∀ y∈ys,y.isPlist=true) ∧
      Lexes strtol strtoul w ys ∧ currentChar l.rest=0)) ∨
    ∃ w ys x,t=w++l.rest ∧ (∀ y∈ys,y.isPlist=true) ∧
      Lexes strtol strtoul w (ys++[x]) ∧ lexemeOf l.token l.yylval=some x ∧ l.yylval.elements=[]

variable {strtol strtoul} {t r : Text} {l : Lexed} {attributes : List (List UInt8 × List UInt8)}

lemma Blank.append {a b : List UInt8} (ha : Blank a) (hb : Blank b) : Blank (a++b) := by
  induction ha with
  | nil => exact hb
  | space hc _ ih => exact .space hc ih
  | comment hc hbody _ ih =>
    rw [append_assoc]
    exact .comment hc hbody ih

lemma Blank.spaces {s : List UInt8} (h : ∀ c∈s,isSpace c) : Blank s := by
  induction s with
  | nil => exact .nil
  | cons c s ih =>
    obtain ⟨hc,hs⟩ := forall_mem_cons.mp h
    exact .space (.inl hc) (ih hs)

lemma Lexes.blank {b w : List UInt8} {xs : List Lexeme} (hb : Blank b)
    (h : Lexes strtol strtoul w xs) : Lexes strtol strtoul (b++w) xs := by
  cases h with
  | nil hs => exact .nil (hb.append hs)
  | cons hs hx hxs =>
    rw [←append_assoc,←append_assoc]
    exact .cons (hb.append hs) hx hxs

lemma Lexes.append {u w : List UInt8} {xs ys : List Lexeme} (h : Lexes strtol strtoul u xs)
    (h' : Lexes strtol strtoul w ys) : Lexes strtol strtoul (u++w) (xs++ys) := by
  induction h with
  | nil hs => exact h'.blank hs
  | cons hs hx _ ih =>
    rw [append_assoc]
    exact .cons hs hx ih

lemma Lexes.single {w : List UInt8} {x : Lexeme} (h : Spells strtol strtoul w x) :
    Lexes strtol strtoul w [x] := by
  have := Lexes.cons .nil h (.nil .nil)
  rwa [nil_append,append_nil] at this

lemma LexSound.behind {w : List UInt8} {ys : List Lexeme} (hw : Lexes strtol strtoul w ys)
    (hys : ∀ y∈ys,y.isPlist=true) (ht : t=w++r) (opened met : List Text)
    (h : LexSound strtol strtoul r l) : LexSound strtol strtoul t (l.behind opened met) := by
  rcases h with ⟨htoken,h⟩ | ⟨w',ys',x,hr,hys',hlex,hx,helements⟩
  · refine .inl ⟨htoken,fun hend => ?_⟩
    obtain ⟨w',ys',hr,hys',hlex,hzero⟩ := h fun t ht => hend t (mem_append_right _ ht)
    refine ⟨w++w',ys++ys',?_,forall_mem_append.mpr ⟨hys,hys'⟩,hw.append hlex,hzero⟩
    rw [ht,hr,append_assoc]
    rfl
  · refine .inr ⟨w++w',ys++ys',x,?_,forall_mem_append.mpr ⟨hys,hys'⟩,?_,hx,helements⟩
    · rw [ht,hr,append_assoc]
      rfl
    · rw [append_assoc]
      exact hw.append hlex

lemma findIds_idref {tagType : TagType} {idref n : ℤ}
    (h : findIds strtol tagType idref attributes=some (true,n)) :
    tagType=.TAG_EMPTY ∧ ∃ before value after,attributes=before++(attrIDREF,value)::after ∧
      (∀ a∈before,a.1≠attrIDREF) ∧ n=strtol value := by
  induction attributes generalizing idref with
  | nil => cases h
  | cons a attributes ih =>
    obtain ⟨name,value⟩ := a
    rw [findIds] at h
    have hother : name≠attrIDREF →
        (∃ idref',findIds strtol tagType idref' attributes=some (true,n)) →
        tagType=.TAG_EMPTY ∧ ∃ before value' after,
          (name,value)::attributes=before++(attrIDREF,value')::after ∧
          (∀ a∈before,a.1≠attrIDREF) ∧ n=strtol value' := by
      rintro hname ⟨idref',h'⟩
      obtain ⟨htype,before,value',after,rfl,hbefore,hn⟩ := ih h'
      exact ⟨htype,(name,value)::before,value',after,rfl,forall_mem_cons.mpr ⟨hname,hbefore⟩,hn⟩
    split_ifs at h with htwo hidref htype hid
    · obtain ⟨-,rfl⟩ := Prod.mk.inj (some_inj.mp h)
      refine ⟨not_not.mp htype,[],value,attributes,?_,fun _ ha => absurd ha not_mem_nil,rfl⟩
      rw [hidref]
      rfl
    · exact hother hidref ⟨_,h⟩
    · exact hother (fun hname => htwo (by rw [hname]; rfl)) ⟨_,h⟩

lemma findIds_id {tagType : TagType} {idref n : ℤ}
    (h : findIds strtol tagType idref attributes=some (false,n)) : (∀ a∈attributes,a.1≠attrIDREF) ∧
      n=attributes.foldl (fun id a => if a.1=attrID then strtol a.2 else id) idref := by
  induction attributes generalizing idref with
  | nil =>
    obtain ⟨-,rfl⟩ := Prod.mk.inj (some_inj.mp h)
    exact ⟨fun _ ha => absurd ha not_mem_nil,rfl⟩
  | cons a attributes ih =>
    obtain ⟨name,value⟩ := a
    rw [findIds] at h
    split_ifs at h with htwo hidref htype hid
    · cases h
    · obtain ⟨hnone,hn⟩ := ih h
      refine ⟨forall_mem_cons.mpr ⟨hidref,hnone⟩,?_⟩
      rw [hn,foldl_cons,if_pos (show (name,value).1=attrID from hid)]
    · obtain ⟨hnone,hn⟩ := ih h
      have hne : name≠attrIDREF := fun hname => htwo (by rw [hname]; rfl)
      have hne' : (name,value).1≠attrID := fun hname =>
        htwo (by rw [show name=attrID from hname]; rfl)
      refine ⟨forall_mem_cons.mpr ⟨hne,hnone⟩,?_⟩
      rw [hn,foldl_cons,if_neg hne']

lemma lexSound_idref (htype : (getTag t).tagType≠.TAG_BAD)
    (hcomment : (getTag t).tagType≠.TAG_COMMENT) {n : ℤ}
    (hn : findIds strtol (getTag t).tagType (-1) (getTag t).attributes=some (true,n))
    (hreg : RegularTag t) (opened met : List Text) : LexSound strtol strtoul t
      ⟨.IDREF,{newObject with idref := n},(getTag t).rest,opened,[],met,[]⟩ := by
  obtain ⟨hempty,before,value,after,hattributes,hbefore,rfl⟩ := findIds_idref hn
  obtain ⟨w,ht,htext⟩ := getTag_text htype hcomment hreg.plain
  refine .inr ⟨w,[],_,ht,fun _ hy => absurd hy not_mem_nil,?_,rfl,rfl⟩
  rw [hempty] at htext
  exact .single (.idref htext hattributes hbefore (hreg.idref _ _ _ hattributes hbefore))

lemma yylexFrom_sound {fuel : ℕ} (h : yylexFrom strtol strtoul fuel t=some l)
    (htoken : l.token≠.SYNTAX_ERROR) (htraces : Traces strtol strtoul l.met l.closings) :
    LexSound strtol strtoul t l := by
  induction fuel generalizing t l with
  | zero => cases h
  | succ fuel ih =>
    obtain ⟨b,hb,hspaces⟩ := spaces_append t
    obtain ⟨s,hs⟩ : ∃ s,s=t.dropWhile isSpace := ⟨_,rfl⟩
    have hblank : Blank b := .spaces hspaces
    rw [yylexFrom] at h
    dsimp only at h
    rw [←hs] at h hb
    -- what is found from the first character on that is not a space
    suffices hfound : LexSound strtol strtoul s l from
      hfound.behind (.nil hblank) (fun _ hy => absurd hy not_mem_nil) hb [] []
    by_cases hline : currentChar s=0x0a
    · rw [if_pos hline] at h
      exact (ih h htoken htraces).behind (.nil (.space (.inr rfl) .nil))
        (fun _ hy => absurd hy not_mem_nil) (eq_cons_of_currentChar hline (by decide)) [] []
    rw [if_neg hline] at h
    by_cases hzero : currentChar s=0
    · rw [if_pos hzero] at h
      obtain rfl := some_inj.mp h
      exact .inl ⟨rfl,fun _ => ⟨[],[],rfl,fun _ hy => absurd hy not_mem_nil,.nil .nil,hzero⟩⟩
    rw [if_neg hzero] at h
    by_cases hbad : (getTag s).tagType=.TAG_BAD
    · rw [if_pos hbad] at h
      obtain rfl := some_inj.mp h
      exact absurd rfl htoken
    rw [if_neg hbad] at h
    by_cases hcomment : (getTag s).tagType=.TAG_COMMENT
    · rw [if_pos hcomment] at h
      obtain ⟨l',hl',rfl⟩ := map_eq_some_iff.mp h
      obtain ⟨c,hc,hcblank⟩ := getTag_comment hcomment
      have hcomment' := hcblank [] .nil
      rw [append_nil] at hcomment'
      exact (ih hl' htoken ⟨fun u hu => htraces.met u hu,htraces.closings⟩).behind (.nil hcomment')
        (fun _ hy => absurd hy not_mem_nil) hc _ _
    rw [if_neg hcomment] at h
    cases hids : findIds strtol (getTag s).tagType (-1) (getTag s).attributes with
    | none =>
      rw [hids] at h
      obtain rfl := some_inj.mp h
      exact absurd rfl htoken
    | some found =>
      obtain ⟨isIdref,idref⟩ := found
      rw [hids] at h
      cases isIdref with
      | true =>
        obtain rfl := some_inj.mp h
        obtain ⟨-,before,value,after,hattributes,-,-⟩ := findIds_idref hids
        have hreg : RegularTag s := by
          rcases htraces.met s (mem_singleton_self s) with hreg | hrefused
          · exact hreg
          · refine absurd rfl (hrefused.noIdref (attrIDREF,value) ?_)
            rw [hattributes]
            exact mem_append_right _ mem_cons_self
        exact lexSound_idref hbad hcomment hids hreg _ _
      | false =>
        dsimp only at h
        obtain ⟨hnone,hid⟩ := findIds_id hids
        by_cases hplist : (getTag s).tag=tagPlist
        · rw [if_pos hplist] at h
          obtain ⟨l',hl',rfl⟩ := map_eq_some_iff.mp h
          have hreg : RegularTag s := by
            rcases htraces.met s mem_cons_self with hreg | hrefused
            · exact hreg
            · exact absurd hplist hrefused.noPlist
          obtain ⟨w,hw,htext⟩ := getTag_text hbad hcomment hreg.plain
          rw [hplist] at htext
          refine (ih hl' htoken ⟨fun u hu => htraces.met u (mem_cons_of_mem _ hu),
            htraces.closings⟩).behind (.single (.plist htext ⟨hnone,hreg.id hnone,rfl⟩)) ?_ hw _ _
          exact fun y hy => by rw [mem_singleton.mp hy]; rfl
        · rw [if_neg hplist] at h
          obtain rfl := some_inj.mp h
          rw [hid] at htoken htraces ⊢
          by_cases hknown : (elementOf strtol strtoul (getTag s)).token=.endOfInput
          · exact .inl ⟨hknown,fun hend => absurd (hend s mem_cons_self) hplist⟩
          rcases htraces.met s mem_cons_self with hreg | hrefused
          · obtain ⟨w,hw,htext⟩ := getTag_text hbad hcomment hreg.plain
            obtain ⟨w',x,hw',hx,hlexeme,helements⟩ := elementOf_completes htext
              ⟨hnone,hreg.id hnone,rfl⟩ (hreg.element hnone hplist) htoken hknown htraces.closings
            refine .inr ⟨w++w',[],x,?_,fun _ hy => absurd hy not_mem_nil,.single hx,hlexeme,
              helements⟩
            rw [append_assoc]
            conv_lhs => rw [hw,hw']
            rfl
          · exact absurd (hrefused.token.resolve_right hknown) htoken

end Tokens
end Darwin.Libkern.UnserializeXML
