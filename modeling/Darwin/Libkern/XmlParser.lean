import Darwin.Libkern.XmlTokens

/-! `OSUnserializeXML`: the parser that is made from the grammar, with its tables. The parser comes to
an end on every text, and the scanner goes past the end of the text only in a quoted value. -/
open List Option Nat
namespace Darwin.Libkern.UnserializeXML

/-! ### The tables -/

def YYFINAL : ℤ := 40
def YYFLAG : ℤ := -32768
def YYNTBASE : ℤ := 19
def YYLAST : ℤ := 107
def YYMAXDEPTH : ℕ := 10000

def yyr1 : List ℤ := [
  0,19,19,19,20,20,20,20,20,20,20,20,21,21,21,22,22,23,24,25,25,25,26,26,26,27,27,28,29,30,31,32]

def yyr2 : List ℕ := [0,0,1,1,1,1,1,1,1,1,1,1,2,3,1,1,2,2,1,2,3,1,2,3,1,1,2,1,1,1,1,1]

def yydefact : List ℕ := [
  1,21,27,28,14,29,30,24,31,3,0,0,0,2,4,5,6,10,8,11,9,7,18,12,0,15,0,19,25,0,22,0,13,16,17,20,26,23,
  0,0,0]

def yydefgoto : List ℤ := [38,28,14,24,25,26,15,16,29,17,18,19,20,21]

def yypact : List ℤ := [
  45,-32768,-32768,-32768,-32768,-32768,-32768,-32768,-32768,-32768,4,60,-2,-32768,-32768,-32768,
  -32768,-32768,-32768,-32768,-32768,-32768,-32768,-32768,6,-32768,90,-32768,-32768,75,-32768,29,
  -32768,-32768,-32768,-32768,-32768,-32768,10,17,-32768]

def yypgoto : List ℤ := [
  -32768,0,-32768,-32768,-18,-32768,-32768,-32768,7,-32768,-32768,-32768,-32768,-32768]

def yytable : List ℤ := [
  13,1,2,3,4,5,33,6,7,8,39,10,22,11,22,12,30,40,23,31,32,0,0,0,0,0,34,0,0,36,0,36,1,2,3,4,5,0,6,7,8,0,
  10,0,11,0,12,37,1,2,3,4,5,0,6,7,8,9,10,0,11,0,12,1,2,3,4,5,0,6,7,8,0,10,0,11,27,12,1,2,3,4,5,0,6,7,
  8,0,10,0,11,35,12,1,2,3,4,5,0,6,7,8,0,10,0,11,0,12]

def yycheck : List ℤ := [
  0,3,4,5,6,7,24,9,10,11,0,13,8,15,8,17,18,0,14,12,14,-1,-1,-1,-1,-1,26,-1,-1,29,-1,31,3,4,5,6,7,-1,9,
  10,11,-1,13,-1,15,-1,17,18,3,4,5,6,7,-1,9,10,11,12,13,-1,15,-1,17,3,4,5,6,7,-1,9,10,11,-1,13,-1,15,
  16,17,3,4,5,6,7,-1,9,10,11,-1,13,-1,15,16,17,3,4,5,6,7,-1,9,10,11,-1,13,-1,15,-1,17]

def Token.translate : Token → ℕ
  | .endOfInput => 0
  | .ARRAY => 3
  | .BOOLEAN => 4
  | .DATA => 5
  | .DICTIONARY => 6
  | .IDREF => 7
  | .KEY => 8
  | .NUMBER => 9
  | .SET => 10
  | .STRING => 11
  | .SYNTAX_ERROR => 12
  | .leftBrace => 13
  | .rightBrace => 14
  | .leftParen => 15
  | .rightParen => 16
  | .leftBracket => 17
  | .rightBracket => 18

/-- The entry at `i` of `yytable`, if `yycheck` says that it is there for `k`. -/
def tableEntry (i k : ℤ) : Option ℤ :=
  if i<0 ∨ YYLAST < i ∨ yycheck.getD i.toNat 0≠k then none else some (yytable.getD i.toNat 0)

def actionOf (state token : ℕ) : Option ℤ := tableEntry (yypact.getD state 0+token) token

def gotoOf (rule state : ℕ) : ℕ :=
  let symbol := (yyr1.getD rule 0-YYNTBASE).toNat
  ((tableEntry (yypgoto.getD symbol 0+state) state).getD (yydefgoto.getD symbol 0)).toNat

/-! ### The parser -/

inductive ParseErr
  | syntaxError
  | forwardReference
  | parseError
  | stackOverflow
  deriving DecidableEq,Repr

/-- What `yyparse` leaves: `parsedObject`, or what `yyerror` was called with; what is left of the text,
and the scanner's traces. -/
structure Finished where
  result : Except ParseErr OSObject
  rest : Text
  opened : List Text
  copied : List Text
  met : List Text
  closings : List Text

abbrev Tags := List (ℤ × OSObject)

/-- The stacks have their tops first. -/
structure Parser where
  yyss : List ℕ
  yyvs : List ObjectT
  yychar : Option Token
  yylval : ObjectT
  tags : Tags
  rest : Text
  opened : List Text
  copied : List Text
  met : List Text
  closings : List Text

inductive Step
  | next (p : Parser)
  | done (f : Finished)

def Parser.yystate (p : Parser) : ℕ := p.yyss.headD 0

/-- No state shifts the error token, so that an error empties the stack and ends the parse. -/
def Parser.finish (p : Parser) (result : Except ParseErr OSObject) : Step :=
  .done ⟨result,p.rest,p.opened,p.copied,p.met,p.closings⟩

def Parser.yynewstate (p : Parser) (state : ℕ) : Step :=
  let p := {p with yyss := state::p.yyss}
  if YYMAXDEPTH≤p.yyss.length then p.finish (.error .stackOverflow) else .next p

def ObjectT.chain (o : ObjectT) : List (List UInt8 × OSObject) := (o.key,o.object)::o.next

def buildOSDictionary (header : ObjectT) : ObjectT :=
  {header with elements := [],object := .dictionary header.elements.reverse}

def buildOSArray (header : ObjectT) : ObjectT :=
  {header with elements := [],object := .array (header.elements.reverse.map Prod.snd)}

def buildOSSet (header : ObjectT) : ObjectT :=
  {header with elements := [],object := .set (header.elements.reverse.map Prod.snd)}

def buildOSString (o : ObjectT) : ObjectT := {o with string := [],object := .string o.string}

def buildKey (o : ObjectT) : ObjectT := {o with string := [],key := o.string}

def buildOSData (o : ObjectT) : ObjectT :=
  {o with data := [],object := .data (o.data.take o.size)}

def buildOSNumber (o : ObjectT) : ObjectT := {o with object := .number o.number o.size}

def buildOSBoolean (o : ObjectT) : ObjectT := {o with object := .boolean (o.number≠0)}

def rememberObject (tag : ℤ) (o : OSObject) (tags : Tags) : Tags := (tag,o)::tags

def retrieveObject (tag : ℤ) (tags : Tags) : Option ObjectT :=
  (tags.lookup tag).map fun ref => {newObject with object := ref}

/-- `$$` in the action of a rule, with `$1` and `$2`; it is `$1` where there is no action. -/
def reducedValue (one two : ObjectT) (tags : Tags) : ℕ → ObjectT
  | 4 => buildOSDictionary one
  | 5 => buildOSArray one
  | 6 => buildOSSet one
  | 7 => buildOSString one
  | 8 => buildOSData one
  | 9 => buildOSNumber one
  | 10 => buildOSBoolean one
  | 11 => (retrieveObject one.idref tags).getD newObject
  | 12 | 19 | 22 => {one with elements := []}
  | 13 | 20 | 23 => {one with elements := two.chain}
  | 16 | 26 => {two with next := one.chain}
  | 17 => {one with next := [],object := two.object}
  | 18 => buildKey one
  | 25 => {one with next := []}
  | _ => one

/-- The rules that build a dictionary, an array, a set, a string, data or a number remember it if it
has an ID. -/
def remembered (rule : ℕ) (value : ObjectT) (tags : Tags) : Tags :=
  if 4≤rule ∧ rule≤9 ∧ 0≤value.idref then rememberObject value.idref value.object tags else tags

def Parser.yyreduce (p : Parser) (rule : ℕ) : Step :=
  if rule=1 then p.finish (.ok .null)
  else if rule=2 then p.finish (.ok (p.yyvs.headD newObject).object)
  else if rule=3 then p.finish (.error .syntaxError)
  else if rule=11 ∧ retrieveObject (p.yyvs.headD newObject).idref p.tags=none then
    p.finish (.error .forwardReference)
  else
    let yylen := yyr2.getD rule 0
    let value := reducedValue (p.yyvs.getD (yylen-1) newObject) (p.yyvs.getD (yylen-2) newObject)
      p.tags rule
    let below : Parser := { p with
      yyss := p.yyss.drop yylen
      yyvs := value::p.yyvs.drop yylen
      tags := remembered rule value p.tags}
    below.yynewstate (gotoOf rule below.yystate)

def Parser.yydefault (p : Parser) : Step :=
  let rule := yydefact.getD p.yystate 0
  if rule=0 then p.finish (.error .parseError) else p.yyreduce rule

section Code
variable (strtol : List UInt8 → ℤ) (strtoul : List UInt8 → ℕ)

def Parser.lookahead (p : Parser) : Option (Token × Parser) :=
  match p.yychar with
  | some token => some (token,p)
  | none => (yylex strtol strtoul p.rest).map fun l =>
    (l.token,{ p with
      yychar := some l.token
      yylval := l.yylval
      rest := l.rest
      opened := p.opened++l.opened
      copied := p.copied++l.copied
      met := p.met++l.met
      closings := p.closings++l.closings})

def Parser.act (p : Parser) (token : Token) : Step :=
  match actionOf p.yystate token.translate with
  | none => p.yydefault
  | some yyn =>
    if yyn<0 then
      if yyn=YYFLAG then p.finish (.error .parseError) else p.yyreduce (-yyn).toNat
    else if yyn=0 then p.finish (.error .parseError)
    else if yyn=YYFINAL then p.finish (.ok .null)
    else
      let shifted : Parser := { p with
        yychar := if token=.endOfInput then p.yychar else none
        yyvs := p.yylval::p.yyvs}
      shifted.yynewstate yyn.toNat

def Parser.step (p : Parser) : Option Step :=
  if yypact.getD p.yystate 0=YYFLAG then some p.yydefault
  else (p.lookahead strtol strtoul).map fun (token,p) => p.act token

def yyparse : ℕ → Parser → Option Finished
  | 0,_ => none
  | fuel+1,p =>
    match p.step strtol strtoul with
    | none => none
    | some (.done f) => some f
    | some (.next p) => yyparse fuel p

def startOf (buffer : Text) : Parser := ⟨[0],[],none,newObject,[],buffer,[],[],[],[]⟩

def Returns (buffer : Text) (f : Finished) : Prop :=
  ∃ fuel,yyparse strtol strtoul fuel (startOf buffer)=some f

end Code

/-! ### The stack of states -/

def beforeObject : List ℕ := [0,11,12,26,29,31]

def belowTable : List (List ℕ) :=
  [[]]++replicate 8 beforeObject++[[0]]++replicate 3 beforeObject++[[0]] ++
    replicate 8 beforeObject++[[10,24],[10],[10],[10],[10,24],[11],[11,12],[11],[12],[12],
      [24],[24],[26],[29],[29,31],[31]]

def below (state : ℕ) : List ℕ := belowTable.getD state []

inductive Path : List ℕ → Prop
  | start : Path [0]
  | push {state under : ℕ} {l : List ℕ} : Path (under::l) → under∈below state →
    Path (state::under::l)

def rank (state : ℕ) : ℕ :=
  if state=0 then 1
  else if state≤8 then 4
  else if 14 ≤ state ∧ state≤21 ∨ state=23 ∨ state=27 ∨ state=30 ∨ state=32 ∨
    state=35 ∨ state=37 then 3
  else if state=13 ∨ state=22 ∨ state=25 ∨ state=28 ∨ state=33 ∨ state=34 ∨
    state=36 then 2
  else 1

def Reduces (state : ℕ) : Prop :=
  let rule := yydefact.getD state 0
  (yyr2.getD rule 0=1 ∧ ∀ u∈below state,u∈below (gotoOf rule u) ∧ rank (gotoOf rule u)<rank state) ∨
  (yyr2.getD rule 0=2 ∧ ∀ v∈below state,v≠0 ∧ ∀ u∈below v,u∈below (gotoOf rule u) ∧
    rank (gotoOf rule u)<rank state+rank v) ∨
  (yyr2.getD rule 0=3 ∧ ∀ w∈below state,w≠0 ∧ ∀ v∈below w,v≠0 ∧ ∀ u∈below v,
    u∈below (gotoOf rule u) ∧ rank (gotoOf rule u)<rank state+rank w+rank v)

instance (state : ℕ) : Decidable (Reduces state) := inferInstanceAs (Decidable (_ ∨ _))

lemma reduces_all : ∀ state<38,yypact.getD state 0=YYFLAG → yydefact.getD state 0≤3 ∧
    1≤yydefact.getD state 0 ∨ Reduces state := by
  decide

lemma default_all : ∀ state<38,yypact.getD state 0≠YYFLAG → yydefact.getD state 0≤1 := by decide

lemma shift_all : ∀ state<38,yypact.getD state 0≠YYFLAG → ∀ k<19,
    (actionOf state k).all fun n => 0<n ∧ n≠YYFINAL ∧ state∈below n.toNat ∧
      rank n.toNat≤4 ∧ k≠0 ∧ (k=12 → n=9) := by
  decide

lemma lt_of_mem_below {state under : ℕ} (h : under∈below state) : state<38 := by
  by_contra hge
  have hlength : belowTable.length=38 := rfl
  rw [below,getD_eq_getElem?_getD,getElem?_eq_none (by omega),getD_none] at h
  exact absurd h not_mem_nil

lemma Path.lt {state : ℕ} {l : List ℕ} (h : Path (state::l)) : state<38 := by
  cases h with
  | start => decide
  | push h hmem => exact lt_of_mem_below hmem

lemma Path.reduce {state : ℕ} {l : List ℕ} (h : Path (state::l)) (h0 : state≠0)
    (hr : Reduces state) : ∃ under rest,
      (state::l).drop (yyr2.getD (yydefact.getD state 0) 0)=under::rest ∧
      Path (gotoOf (yydefact.getD state 0) under::under::rest) ∧
      rank (gotoOf (yydefact.getD state 0) under)+((under::rest).map rank).sum <
        ((state::l).map rank).sum := by
  cases h with
  | start => exact absurd rfl h0
  | @push _ u l h hmem =>
    rcases hr with ⟨hlen,hone⟩ | ⟨hlen,htwo⟩ | ⟨hlen,hthree⟩
    · obtain ⟨hgoto,hrank⟩ := hone u hmem
      refine ⟨u,l,by rw [hlen]; rfl,h.push hgoto,?_⟩
      simp only [map_cons,sum_cons]
      omega
    · obtain ⟨hu,htwo⟩ := htwo u hmem
      cases h with
      | start => exact absurd rfl hu
      | @push _ v l h hmem' =>
        obtain ⟨hgoto,hrank⟩ := htwo v hmem'
        refine ⟨v,l,by rw [hlen]; rfl,h.push hgoto,?_⟩
        simp only [map_cons,sum_cons]
        omega
    · obtain ⟨hu,hthree⟩ := hthree u hmem
      cases h with
      | start => exact absurd rfl hu
      | @push _ v l h hmem' =>
        obtain ⟨hv,hthree⟩ := hthree v hmem'
        cases h with
        | start => exact absurd rfl hv
        | @push _ w l h hmem'' =>
          obtain ⟨hgoto,hrank⟩ := hthree w hmem''
          refine ⟨w,l,by rw [hlen]; rfl,h.push hgoto,?_⟩
          simp only [map_cons,sum_cons]
          omega

/-! ### Every step -/

/-- The text left tells whether a value has been met in which the text ends. -/
structure Traced (beyond rest : Text) (opened copied : List Text) : Prop where
  ended : Ended beyond rest ↔ ∀ o∈opened,¬Cut beyond o
  copied : Ended beyond rest → ∀ u∈copied,Ended beyond u

lemma Traced.lex {beyond rest : Text} {opened copied : List Text} {l : Lexed}
    (h : Traced beyond rest opened copied) (hl : LexSpec rest l) :
    Traced beyond l.rest (opened++l.opened) (copied++l.copied) := by
  have hback : Ended beyond l.rest → Ended beyond rest := fun hb =>
    List.IsSuffix.trans hb hl.scanned.suffix
  constructor
  · simp only [mem_append,or_imp,forall_and]
    rw [←h.ended]
    constructor
    · exact fun hb => ⟨hback hb,(hl.scanned.ended beyond (hback hb)).mp hb⟩
    · exact fun ⟨hb,hall⟩ => (hl.scanned.ended beyond hb).mpr hall
  · intro hb u hu
    rcases mem_append.mp hu with hu | hu
    · exact h.copied (hback hb) u hu
    · exact hl.copied beyond hb u hu

/-- How much there is left to do: text to scan and states to take off the stack. -/
def Parser.left (p : Parser) : ℕ := 5*p.rest.length+(p.yyss.map rank).sum

/-- Between two rounds there is no lookahead token. -/
structure Ready (beyond : Text) (p : Parser) : Prop where
  path : Path p.yyss
  empty : p.yychar=none
  traced : Traced beyond p.rest p.opened p.copied

/-- After a round the parse has ended, or there is less to do, or it ends with the next round. -/
inductive StepSpec (beyond : Text) (left : ℕ) : Step → Prop
  | done {f : Finished} : Traced beyond f.rest f.opened f.copied → StepSpec beyond left (.done f)
  | next {p : Parser} : Ready beyond p → p.left<left ∨ p.yystate=9 → StepSpec beyond left (.next p)

section Steps
variable {beyond : Text} {p : Parser} {left : ℕ}

lemma StepSpec.finish (h : Traced beyond p.rest p.opened p.copied)
    (result : Except ParseErr OSObject) : StepSpec beyond left (p.finish result) := .done h

lemma StepSpec.yynewstate {state : ℕ} (hpath : Path (state::p.yyss)) (hempty : p.yychar=none)
    (h : Traced beyond p.rest p.opened p.copied)
    (hleft : 5*p.rest.length+rank state+(p.yyss.map rank).sum<left ∨ state=9) :
    StepSpec beyond left (p.yynewstate state) := by
  rw [Parser.yynewstate]
  dsimp only
  split_ifs
  · exact .done h
  · refine .next ⟨hpath,hempty,h⟩ ?_
    rcases hleft with hlt | rfl
    · refine .inl ?_
      rw [Parser.left,map_cons,sum_cons]
      dsimp only
      omega
    · exact .inr rfl

lemma StepSpec.yyreduce_accept {rule : ℕ} (h : Traced beyond p.rest p.opened p.copied)
    (h1 : 1≤rule) (h3 : rule≤3) : StepSpec beyond left (p.yyreduce rule) := by
  rw [Parser.yyreduce]
  split_ifs
  · exact .finish h _
  · exact .finish h _
  · exact .finish h _
  · omega
  · omega

lemma StepSpec.yyreduce {state : ℕ} {l : List ℕ} (hready : Ready beyond p)
    (hstates : p.yyss=state::l) (h0 : state≠0) (hr : Reduces state) :
    StepSpec beyond p.left (p.yyreduce (yydefact.getD state 0)) := by
  have hpath := hready.path
  rw [hstates] at hpath
  obtain ⟨under,rest,hdrop,hgoto,hrank⟩ := hpath.reduce h0 hr
  rw [Parser.yyreduce]
  split_ifs
  · exact .finish hready.traced _
  · exact .finish hready.traced _
  · exact .finish hready.traced _
  · exact .finish hready.traced _
  · dsimp only
    rw [Parser.yystate]
    dsimp only
    rw [hstates,hdrop,headD_cons]
    refine .yynewstate hgoto hready.empty hready.traced (.inl ?_)
    rw [Parser.left,hstates]
    dsimp only
    omega

lemma Ready.states (h : Ready beyond p) :
    ∃ state l,p.yyss=state::l ∧ p.yystate=state ∧ Path (state::l) := by
  have hpath := h.path
  cases hstates : p.yyss with
  | nil =>
    rw [hstates] at hpath
    cases hpath
  | cons state l =>
    rw [hstates] at hpath
    exact ⟨state,l,rfl,by rw [Parser.yystate,hstates,headD_cons],hpath⟩

lemma StepSpec.yydefault (hready : Ready beyond p)
    (hflag : yypact.getD p.yystate 0=YYFLAG) : StepSpec beyond p.left p.yydefault := by
  obtain ⟨state,l,hstates,hstate,hpath⟩ := hready.states
  have hlt := hpath.lt
  rw [hstate] at hflag
  rw [Parser.yydefault,hstate]
  split_ifs
  · exact .finish hready.traced _
  · rcases reduces_all state hlt hflag with ⟨h3,h1⟩ | hr
    · exact .yyreduce_accept hready.traced h1 h3
    · refine .yyreduce hready hstates ?_ hr
      rintro rfl
      exact absurd hflag (by decide)

lemma Token.translate_lt (token : Token) : token.translate<19 := by
  cases token <;> decide

lemma StepSpec.act {l : Lexed} (hready : Ready beyond p)
    (hflag : yypact.getD p.yystate 0≠YYFLAG) (hl : LexSpec p.rest l) {p' : Parser}
    (hstates : p'.yyss=p.yyss) (hrest : p'.rest=l.rest)
    (htraced : Traced beyond p'.rest p'.opened p'.copied) :
    StepSpec beyond p.left (p'.act l.token) := by
  have hstate : p'.yystate=p.yystate := by rw [Parser.yystate,Parser.yystate,hstates]
  obtain ⟨state,below',hp,hp',hpath⟩ := hready.states
  rw [hp'] at hflag hstate
  have hlt := hpath.lt
  rw [Parser.act,hstate]
  cases haction : actionOf state l.token.translate with
  | none =>
    have hdefault := default_all state hlt hflag
    dsimp only
    rw [Parser.yydefault,hstate]
    split_ifs with h0
    · exact .finish htraced _
    · exact .yyreduce_accept htraced (by omega) (by omega)
  | some n =>
    have hshift := shift_all state hlt hflag l.token.translate l.token.translate_lt
    rw [haction,all_some,decide_eq_true_iff] at hshift
    obtain ⟨hpos,hfinal,hbelow,hrank,hend,hbad⟩ := hshift
    have htoken : l.token≠.endOfInput := by
      intro h
      rw [h] at hend
      exact hend rfl
    dsimp only
    rw [if_neg (by omega),if_neg (by omega),if_neg hfinal,if_neg htoken]
    refine .yynewstate ?_ rfl htraced ?_
    · rw [hstates,hp]
      exact hpath.push hbelow
    · by_cases herror : l.token=.SYNTAX_ERROR
      · refine .inr ?_
        rw [hbad (by rw [herror]; rfl)]
        rfl
      · refine .inl ?_
        have hshorter := hl.shorter htoken herror
        rw [Parser.left,hstates]
        dsimp only
        rw [hrest]
        omega

variable (strtol : List UInt8 → ℤ) (strtoul : List UInt8 → ℕ)

lemma step_spec (hready : Ready beyond p) :
    ∃ s,p.step strtol strtoul=some s ∧ StepSpec beyond p.left s := by
  rw [Parser.step]
  by_cases hflag : yypact.getD p.yystate 0=YYFLAG
  · rw [if_pos hflag]
    exact ⟨_,rfl,.yydefault hready hflag⟩
  · rw [if_neg hflag,Parser.lookahead,hready.empty]
    obtain ⟨l,hlex,hl⟩ := yylex_spec strtol strtoul p.rest
    rw [hlex]
    exact ⟨_,rfl,.act hready hflag hl rfl rfl (hready.traced.lex hl)⟩

lemma step_nine (hready : Ready beyond p) (h : p.yystate=9) :
    ∃ f,p.step strtol strtoul=some (.done f) ∧ Traced beyond f.rest f.opened f.copied := by
  have hflag : yypact.getD p.yystate 0=YYFLAG := by
    rw [h]
    decide
  rw [Parser.step,if_pos hflag,Parser.yydefault,h]
  exact ⟨_,rfl,hready.traced⟩

lemma yyparse_ends (hready : Ready beyond p) : ∃ fuel f,
    yyparse strtol strtoul fuel p=some f ∧ Traced beyond f.rest f.opened f.copied := by
  obtain ⟨n,hn⟩ : ∃ n,p.left=n := ⟨_,rfl⟩
  induction n using Nat.strong_induction_on generalizing p with
  | _ n ih =>
    obtain ⟨s,hstep,hspec⟩ := step_spec strtol strtoul hready
    cases hspec with
    | @done f htraced =>
      refine ⟨1,f,?_,htraced⟩
      rw [yyparse,hstep]
    | @next p' hready' hless =>
      rcases hless with hlt | hnine
      · obtain ⟨fuel,f,hrun,htraced⟩ := ih p'.left (hn▸hlt) hready' rfl
        refine ⟨fuel+1,f,?_,htraced⟩
        rw [yyparse,hstep]
        exact hrun
      · obtain ⟨f,hstep',htraced⟩ := step_nine strtol strtoul hready' hnine
        refine ⟨2,f,?_,htraced⟩
        rw [yyparse,hstep]
        dsimp only
        rw [yyparse,hstep']

lemma yyparse_succ {fuel : ℕ} {f : Finished} (h : yyparse strtol strtoul fuel p=some f) :
    yyparse strtol strtoul (fuel+1) p=some f := by
  induction fuel generalizing p with
  | zero => cases h
  | succ fuel ih =>
    rw [yyparse] at h ⊢
    cases hstep : p.step strtol strtoul with
    | none =>
      rw [hstep] at h
      cases h
    | some s =>
      rw [hstep] at h
      cases s with
      | done f' => exact h
      | next p' => exact ih h

lemma yyparse_mono {fuel fuel' : ℕ} {f : Finished} (hle : fuel≤fuel')
    (h : yyparse strtol strtoul fuel p=some f) : yyparse strtol strtoul fuel' p=some f := by
  induction fuel',hle using le_induction with
  | base => exact h
  | succ fuel' _ ih => exact yyparse_succ strtol strtoul ih

lemma Returns.unique {buffer : Text} {f f' : Finished} (h : Returns strtol strtoul buffer f)
    (h' : Returns strtol strtoul buffer f') : f=f' := by
  obtain ⟨fuel,hf⟩ := h
  obtain ⟨fuel',hf'⟩ := h'
  have hmax := yyparse_mono strtol strtoul (le_max_left fuel fuel') hf
  rw [yyparse_mono strtol strtoul (le_max_right fuel fuel') hf'] at hmax
  exact (some_inj.mp hmax).symm

end Steps

/-- What is promised of a text with its NUL and what is behind it in memory: the call comes to an end,
and neither the scanner nor a copy of a string has read a character behind the NUL. -/
def ScansText (strtol : List UInt8 → ℤ) (strtoul : List UInt8 → ℕ) (text beyond : List UInt8) :
    Prop :=
  ∃ f,Returns strtol strtoul (text++0::beyond) f ∧ Ended beyond f.rest ∧ ∀ u∈f.copied,Ended beyond u

/-- The call comes to a quoted value of an attribute; this is the text from its first character on. -/
def MeetsValue (strtol : List UInt8 → ℤ) (strtoul : List UInt8 → ℕ) (buffer value : Text) : Prop :=
  ∃ f,Returns strtol strtoul buffer f ∧ value∈f.opened

/-- Every call comes to an end, and it reads nothing behind the NUL exactly if it does not come to a
quoted value in which the text ends before 30 characters of it. -/
theorem scansText_iff (strtol : List UInt8 → ℤ) (strtoul : List UInt8 → ℕ)
    (text beyond : List UInt8) : ScansText strtol strtoul text beyond ↔
      ∀ value,MeetsValue strtol strtoul (text++0::beyond) value → ¬Cut beyond value := by
  have hready : Ready beyond (startOf (text++0::beyond)) :=
    ⟨.start,rfl,iff_of_true (suffix_append text _) fun _ ho => absurd ho not_mem_nil,
      fun _ _ hu => absurd hu not_mem_nil⟩
  obtain ⟨fuel,f,hrun,htraced⟩ := yyparse_ends strtol strtoul hready
  constructor
  · rintro ⟨f',hreturns,hended,-⟩ value ⟨f'',hreturns',hmem⟩
    obtain rfl := Returns.unique strtol strtoul hreturns ⟨fuel,hrun⟩
    obtain rfl := Returns.unique strtol strtoul hreturns' ⟨fuel,hrun⟩
    exact htraced.ended.mp hended value hmem
  · intro hnone
    have hended := htraced.ended.mpr fun o ho => hnone o ⟨f,⟨fuel,hrun⟩,ho⟩
    exact ⟨f,⟨fuel,hrun⟩,hended,htraced.copied hended⟩

/-- The text `<a b="`, with a quote and a `>` behind its NUL: both are read, and there is no error. -/
theorem open_value_reads_beyond :
    (yyparse (fun _ => 0) (fun _ => 0) 2
        (startOf ([0x3c,0x61,0x20,0x62,0x3d,0x22]++0::[0x22,0x3e]))).map
      (fun f => (f.rest,f.opened))=some ([],[[0,0x22,0x3e]]) ∧
    ¬ScansText (fun _ => 0) (fun _ => 0) [0x3c,0x61,0x20,0x62,0x3d,0x22] [0x22,0x3e] := by
  have hrun : (yyparse (fun _ => 0) (fun _ => 0) 2
      (startOf ([0x3c,0x61,0x20,0x62,0x3d,0x22]++0::[0x22,0x3e]))).map
      (fun f => (f.rest,f.opened))=some ([],[[0,0x22,0x3e]]) := by
    decide
  refine ⟨hrun,?_⟩
  rintro ⟨f,⟨fuel,hf⟩,hended,-⟩
  obtain ⟨f',hf',hparts⟩ := map_eq_some_iff.mp hrun
  obtain rfl := Returns.unique _ _ ⟨fuel,hf⟩ ⟨2,hf'⟩
  rw [(Prod.mk.inj hparts).1] at hended
  exact absurd hended.length_le (by decide)

end Darwin.Libkern.UnserializeXML
