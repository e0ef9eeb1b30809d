import Darwin.Libkern.XmlLexemes
import Darwin.Libkern.XmlParser

/-! The rules of the grammar, each with what its symbols mean, and the parser's stack: what is on it is
what the lexemes denote that have been read. -/
open List Option
namespace Darwin.Libkern.UnserializeXML

/-! ### The grammar -/

inductive Symbol
  | start
  | token (t : Token)
  | object
  | dict
  | pairs
  | pair
  | key
  | array
  | set
  | elements
  | boolean
  | data
  | idref
  | number
  | string
  deriving DecidableEq

def grammar : List (ℕ × Symbol × List Symbol) := [(4,.object,[.dict]),(5,.object,[.array]),
  (6,.object,[.set]),(7,.object,[.string]),(8,.object,[.data]),(9,.object,[.number]),
  (10,.object,[.boolean]),(11,.object,[.idref]),(12,.dict,[.token .leftBrace,.token .rightBrace]),
  (13,.dict,[.token .leftBrace,.pairs,.token .rightBrace]),(14,.dict,[.token .DICTIONARY]),
  (15,.pairs,[.pair]),(16,.pairs,[.pairs,.pair]),(17,.pair,[.key,.object]),(18,.key,[.token .KEY]),
  (19,.array,[.token .leftParen,.token .rightParen]),
  (20,.array,[.token .leftParen,.elements,.token .rightParen]),(21,.array,[.token .ARRAY]),
  (22,.set,[.token .leftBracket,.token .rightBracket]),
  (23,.set,[.token .leftBracket,.elements,.token .rightBracket]),(24,.set,[.token .SET]),
  (25,.elements,[.object]),(26,.elements,[.elements,.object]),(27,.boolean,[.token .BOOLEAN]),
  (28,.data,[.token .DATA]),(29,.idref,[.token .IDREF]),(30,.number,[.token .NUMBER]),
  (31,.string,[.token .STRING])]

def symbols : List Symbol := [
  .start,.token .ARRAY,.token .BOOLEAN,.token .DATA,.token .DICTIONARY,.token .IDREF,.token .NUMBER,
  .token .SET,.token .STRING,.token .SYNTAX_ERROR,.token .leftBrace,.token .leftParen,
  .token .leftBracket,.object,.dict,.array,.set,.boolean,.data,.idref,.number,.string,.token .KEY,
  .token .rightBrace,.pairs,.pair,.key,.token .rightParen,.object,.elements,.token .rightBracket,
  .elements,.token .rightBrace,.pair,.object,.token .rightParen,.object,.token .rightBracket]

def symbolOf (state : ℕ) : Symbol := symbols.getD state .start

/-- The reduction in a state is that of a rule, on every stack that can be there. -/
def Follows (state : ℕ) : Prop :=
  let rule := yydefact.getD state 0
  (yyr2.getD rule 0=1 ∧ ∀ u∈below state,(rule,symbolOf (gotoOf rule u),[symbolOf state])∈grammar) ∨
  (yyr2.getD rule 0=2 ∧ ∀ v∈below state,v≠0 ∧ ∀ u∈below v,
    (rule,symbolOf (gotoOf rule u),[symbolOf v,symbolOf state])∈grammar) ∨
  (yyr2.getD rule 0=3 ∧ ∀ w∈below state,w≠0 ∧ ∀ v∈below w,v≠0 ∧ ∀ u∈below v,
    (rule,symbolOf (gotoOf rule u),[symbolOf v,symbolOf w,symbolOf state])∈grammar)

instance (state : ℕ) : Decidable (Follows state) := inferInstanceAs (Decidable (_ ∨ _))

lemma follows_all : ∀ state<38,yypact.getD state 0=YYFLAG →
    state=9 ∨ state=13 ∨ 4≤yydefact.getD state 0 ∧ Follows state := by
  decide

lemma symbolOf_shift (token : Token) : ∀ state<38,yypact.getD state 0≠YYFLAG →
    (actionOf state token.translate).all fun n => symbolOf n.toNat=.token token := by
  cases token <;> decide

lemma default_start : ∀ state<38,yypact.getD state 0≠YYFLAG → yydefact.getD state 0=1 →
    state=0 := by
  decide

def notFirst : List Token := [.KEY,.rightBrace,.rightParen,.rightBracket]

/-- What is found first is neither one of these nor a tag that is taken for the end of the input. -/
def Begins (l : Lexed) : Prop := l.token∉notFirst ∧ (l.token=.endOfInput → AtEnd l)

lemma action_start (token : Token) (h : actionOf 0 token.translate=none) :
    token=.endOfInput ∨ token∈notFirst := by
  revert h
  cases token <;> decide

/-! ### What the symbols mean -/

def MeansToken (t : Token) (ids : Identifiers) (xs : List Lexeme) (v : ObjectT)
    (ids' : Identifiers) : Prop :=
  ids'=ids ∧ v.elements=[] ∧ ∃ x,lexemeOf t v=some x ∧ xs=[x]

/-- The value of a symbol is what its lexemes denote, with what has an ID in front of it and behind it.
A collection is identified when it becomes an object. -/
def Means (ids : Identifiers) (xs : List Lexeme) (v : ObjectT) (ids' : Identifiers) : Symbol → Prop
  | .start => False
  | .token t => MeansToken t ids xs v ids'
  | .object => IsObject ids xs v.object ids'
  | .dict => IsObject ids xs (.dictionary v.elements.reverse)
      (identify v.idref (.dictionary v.elements.reverse) ids')
  | .pairs => IsPairs ids xs v.chain.reverse ids'
  | .pair => v.next=[] ∧ ∃ ys,xs=.key v.key::ys ∧ IsObject ids ys v.object ids'
  | .key => ids'=ids ∧ xs=[.key v.key]
  | .array => IsObject ids xs (.array (v.elements.reverse.map Prod.snd))
      (identify v.idref (.array (v.elements.reverse.map Prod.snd)) ids')
  | .set => IsObject ids xs (.set (v.elements.reverse.map Prod.snd))
      (identify v.idref (.set (v.elements.reverse.map Prod.snd)) ids')
  | .elements => IsElements ids xs (v.chain.reverse.map Prod.snd) ids'
  | .boolean => MeansToken .BOOLEAN ids xs v ids'
  | .data => MeansToken .DATA ids xs v ids'
  | .idref => MeansToken .IDREF ids xs v ids'
  | .number => MeansToken .NUMBER ids xs v ids'
  | .string => MeansToken .STRING ids xs v ids'

section Means
variable {ids ids' ids'' ids₃ : Identifiers} {xs ys zs : List Lexeme} {v u w other : ObjectT}
  {rule : ℕ} {lhs a b c : Symbol}

lemma MeansToken.lexeme {t : Token} {x : Lexeme} (h : MeansToken t ids xs v ids')
    (hx : lexemeOf t v=some x) : ids'=ids ∧ v.elements=[] ∧ xs=[x] := by
  obtain ⟨hids,helements,y,hy,hxs⟩ := h
  rw [hx] at hy
  rw [some_inj.mp hy]
  exact ⟨hids,helements,hxs⟩

lemma remembered_of_le {value : ObjectT} (h : 4≤rule ∧ rule≤9) (tags : Tags) :
    remembered rule value tags=identify value.idref value.object tags := by
  rw [remembered,identify,rememberObject]
  exact if_congr ⟨fun h' => h'.2.2,fun h' => ⟨h.1,h.2,h'⟩⟩ rfl rfl

lemma remembered_of_lt {value : ObjectT} (h : 9<rule) (tags : Tags) :
    remembered rule value tags=tags := by
  rw [remembered]
  exact if_neg fun h' => absurd h'.2.1 (by omega)

lemma Means.one (h : (rule,lhs,[a])∈grammar) (hv : Means ids xs v ids' a)
    (hknown : rule=11 → retrieveObject v.idref ids'≠none) :
    Means ids xs (reducedValue v other ids' rule)
      (remembered rule (reducedValue v other ids' rule) ids') lhs := by
  simp only [grammar,mem_cons,Prod.mk.injEq,List.cons.injEq,not_mem_nil,or_false,
    and_true,reduceCtorEq,and_false,false_or] at h
  rcases h with ⟨rfl,rfl,rfl⟩ | ⟨rfl,rfl,rfl⟩ | ⟨rfl,rfl,rfl⟩ | ⟨rfl,rfl,rfl⟩ | ⟨rfl,rfl,rfl⟩ |
    ⟨rfl,rfl,rfl⟩ | ⟨rfl,rfl,rfl⟩ | ⟨rfl,rfl,rfl⟩ | ⟨rfl,rfl,rfl⟩ | ⟨rfl,rfl,rfl⟩ | ⟨rfl,rfl,rfl⟩ |
    ⟨rfl,rfl,rfl⟩ | ⟨rfl,rfl,rfl⟩ | ⟨rfl,rfl,rfl⟩ | ⟨rfl,rfl,rfl⟩ | ⟨rfl,rfl,rfl⟩ | ⟨rfl,rfl,rfl⟩ |
    ⟨rfl,rfl,rfl⟩ | ⟨rfl,rfl,rfl⟩
  -- an object of another symbol
  · rw [remembered_of_le (by omega)]
    exact hv
  · rw [remembered_of_le (by omega)]
    exact hv
  · rw [remembered_of_le (by omega)]
    exact hv
  · obtain ⟨rfl,-,rfl⟩ := MeansToken.lexeme hv rfl
    rw [remembered_of_le (by omega)]
    exact .value
  · obtain ⟨rfl,-,rfl⟩ := MeansToken.lexeme hv rfl
    rw [remembered_of_le (by omega)]
    exact .value
  · obtain ⟨rfl,-,rfl⟩ := MeansToken.lexeme hv rfl
    rw [remembered_of_le (by omega)]
    exact .value
  · obtain ⟨rfl,-,rfl⟩ := MeansToken.lexeme hv rfl
    rw [remembered_of_lt (by omega)]
    exact .boolean
  · -- a reference to an object that is remembered
    obtain ⟨rfl,-,rfl⟩ := MeansToken.lexeme hv rfl
    rw [remembered_of_lt (by omega)]
    obtain ⟨o,ho⟩ := ne_none_iff_exists'.mp (hknown rfl)
    obtain ⟨ref,href,rfl⟩ := map_eq_some_iff.mp ho
    have hvalue : reducedValue v other ids' 11={newObject with object := ref} := by
      rw [reducedValue,ho,getD_some]
    rw [hvalue]
    exact .idref href
  -- the other symbols in their order
  · obtain ⟨rfl,helements,rfl⟩ := MeansToken.lexeme hv rfl
    rw [remembered_of_lt (by omega),Means,
      show (reducedValue v other ids' 14).elements=v.elements from rfl,helements]
    exact .value
  · obtain ⟨hnext,zs,rfl,ho⟩ := hv
    rw [remembered_of_lt (by omega),Means,ObjectT.chain,
      show (reducedValue v other ids' 15).next=v.next from rfl,hnext]
    exact .snoc .nil ho
  · obtain ⟨rfl,-,rfl⟩ := MeansToken.lexeme hv rfl
    rw [remembered_of_lt (by omega)]
    exact ⟨rfl,rfl⟩
  · obtain ⟨rfl,helements,rfl⟩ := MeansToken.lexeme hv rfl
    rw [remembered_of_lt (by omega),Means,
      show (reducedValue v other ids' 21).elements=v.elements from rfl,helements]
    exact .value
  · obtain ⟨rfl,helements,rfl⟩ := MeansToken.lexeme hv rfl
    rw [remembered_of_lt (by omega),Means,
      show (reducedValue v other ids' 24).elements=v.elements from rfl,helements]
    exact .value
  · rw [remembered_of_lt (by omega)]
    exact .snoc .nil hv
  · rw [remembered_of_lt (by omega)]
    exact hv
  · rw [remembered_of_lt (by omega)]
    exact hv
  · rw [remembered_of_lt (by omega)]
    exact hv
  · rw [remembered_of_lt (by omega)]
    exact hv
  · rw [remembered_of_lt (by omega)]
    exact hv

lemma Means.two (h : (rule,lhs,[a,b])∈grammar) (hv : Means ids xs v ids' a)
    (hu : Means ids' ys u ids'' b) : Means ids (xs++ys) (reducedValue v u ids'' rule)
      (remembered rule (reducedValue v u ids'' rule) ids'') lhs := by
  simp only [grammar,mem_cons,Prod.mk.injEq,List.cons.injEq,not_mem_nil,or_false,
    and_true,reduceCtorEq,and_false,false_or] at h
  rcases h with ⟨rfl,rfl,rfl,rfl⟩ | ⟨rfl,rfl,rfl,rfl⟩ | ⟨rfl,rfl,rfl,rfl⟩ | ⟨rfl,rfl,rfl,rfl⟩ |
    ⟨rfl,rfl,rfl,rfl⟩ | ⟨rfl,rfl,rfl,rfl⟩
  · obtain ⟨rfl,-,rfl⟩ := MeansToken.lexeme hv rfl
    obtain ⟨rfl,-,rfl⟩ := MeansToken.lexeme hu rfl
    rw [remembered_of_lt (by omega)]
    exact .dictionary .nil
  · obtain ⟨-,zs,rfl,ho⟩ := hu
    rw [remembered_of_lt (by omega),Means,ObjectT.chain,reverse_cons]
    exact .snoc hv ho
  · obtain ⟨rfl,rfl⟩ := hv
    rw [remembered_of_lt (by omega)]
    exact ⟨rfl,ys,rfl,hu⟩
  · obtain ⟨rfl,-,rfl⟩ := MeansToken.lexeme hv rfl
    obtain ⟨rfl,-,rfl⟩ := MeansToken.lexeme hu rfl
    rw [remembered_of_lt (by omega)]
    exact .array .nil
  · obtain ⟨rfl,-,rfl⟩ := MeansToken.lexeme hv rfl
    obtain ⟨rfl,-,rfl⟩ := MeansToken.lexeme hu rfl
    rw [remembered_of_lt (by omega)]
    exact .set .nil
  · rw [remembered_of_lt (by omega),Means,ObjectT.chain,reverse_cons,map_append]
    exact .snoc hv hu

lemma Means.three (h : (rule,lhs,[a,b,c])∈grammar) (hv : Means ids xs v ids' a)
    (hu : Means ids' ys u ids'' b) (hw : Means ids'' zs w ids₃ c) :
    Means ids (xs++ys++zs) (reducedValue v u ids₃ rule)
      (remembered rule (reducedValue v u ids₃ rule) ids₃) lhs := by
  simp only [grammar,mem_cons,Prod.mk.injEq,List.cons.injEq,not_mem_nil,or_false,
    and_true,reduceCtorEq,and_false,false_or] at h
  rcases h with ⟨rfl,rfl,rfl,rfl,rfl⟩ | ⟨rfl,rfl,rfl,rfl,rfl⟩ | ⟨rfl,rfl,rfl,rfl,rfl⟩
  · obtain ⟨rfl,-,rfl⟩ := MeansToken.lexeme hv rfl
    obtain ⟨rfl,-,rfl⟩ := MeansToken.lexeme hw rfl
    rw [remembered_of_lt (by omega)]
    exact .dictionary hu
  · obtain ⟨rfl,-,rfl⟩ := MeansToken.lexeme hv rfl
    obtain ⟨rfl,-,rfl⟩ := MeansToken.lexeme hw rfl
    rw [remembered_of_lt (by omega)]
    exact .array hu
  · obtain ⟨rfl,-,rfl⟩ := MeansToken.lexeme hv rfl
    obtain ⟨rfl,-,rfl⟩ := MeansToken.lexeme hw rfl
    rw [remembered_of_lt (by omega)]
    exact .set hu

end Means

/-! ### The stack -/

/-- The values on the stack are what the lexemes denote that have been read. -/
inductive Covers : List ℕ → List ObjectT → List Lexeme → Tags → Prop
  | start : Covers [0] [] [] []
  | push {state under : ℕ} {l : List ℕ} {v : ObjectT} {vs : List ObjectT} {xs ys : List Lexeme}
    {tags tags' : Tags} : Covers (under::l) vs xs tags → Means tags ys v tags' (symbolOf state) →
    Covers (state::under::l) (v::vs) (xs++ys) tags'

section Stack
variable {state : ℕ} {l : List ℕ} {vs : List ObjectT} {xs : List Lexeme} {tags : Tags}

lemma Covers.reduce {rule yylen : ℕ} {value : ObjectT} (h : Covers (state::l) vs xs tags)
    (hpath : Path (state::l)) (h0 : state≠0) (hf : Follows state)
    (hrule : rule=yydefact.getD state 0) (hyylen : yylen=yyr2.getD rule 0)
    (hvalue : value=reducedValue (vs.getD (yylen-1) newObject) (vs.getD (yylen-2) newObject)
      tags rule) (hknown : rule=11 → retrieveObject (vs.headD newObject).idref tags≠none) :
    ∃ under rest,(state::l).drop yylen=under::rest ∧
      Covers (gotoOf rule under::under::rest) (value::vs.drop yylen) xs
        (remembered rule value tags) := by
  rw [Follows] at hf
  rw [←hrule,←hyylen] at hf
  cases h with
  | start => exact absurd rfl h0
  | @push _ u l v vs xs ys tags₁ _ h hv =>
    cases hpath with
    | push hpath hmem =>
      rcases hf with ⟨hlen,hone⟩ | ⟨hlen,htwo⟩ | ⟨hlen,hthree⟩
      · rw [hlen] at hvalue ⊢
        exact ⟨u,l,rfl,h.push (by rw [hvalue]; exact hv.one (hone u hmem) hknown)⟩
      · obtain ⟨hu,htwo⟩ := htwo u hmem
        cases h with
        | start => exact absurd rfl hu
        | @push _ w l v' vs xs ys' tags₂ _ h hv' =>
          cases hpath with
          | push hpath hmem' =>
            rw [hlen] at hvalue ⊢
            rw [append_assoc]
            exact ⟨w,l,rfl,h.push (by rw [hvalue]; exact hv'.two (htwo w hmem') hv)⟩
      · obtain ⟨hu,hthree⟩ := hthree u hmem
        cases h with
        | start => exact absurd rfl hu
        | @push _ w l v' vs xs ys' tags₂ _ h hv' =>
          cases hpath with
          | push hpath hmem' =>
            obtain ⟨hw,hthree⟩ := hthree w hmem'
            cases h with
            | start => exact absurd rfl hw
            | @push _ z l v'' vs xs ys'' tags₃ _ h hv'' =>
              cases hpath with
              | push hpath hmem'' =>
                rw [hlen] at hvalue ⊢
                rw [append_assoc,append_assoc,←append_assoc ys'']
                exact ⟨z,l,rfl,h.push (by
                  rw [hvalue]
                  exact hv''.three (hthree z hmem'') hv' hv)⟩

lemma Covers.nothing (h : Covers [0] vs xs tags) : xs=[] := by
  cases h with
  | start => rfl

lemma Covers.object (h : Covers (13::l) vs xs tags) (hpath : Path (13::l)) :
    IsObject [] xs (vs.headD newObject).object tags := by
  cases hpath with
  | push hpath hmem =>
    obtain rfl := mem_singleton.mp hmem
    cases h with
    | push h hv =>
      cases h with
      | start => exact hv
      | push h hfalse => exact hfalse.elim

end Stack

end Darwin.Libkern.UnserializeXML
