import Darwin.Libkern.XmlGrammar

/-! What `OSUnserializeXML` returns is an object of the text, and when the text is a document. -/
open List Option Nat
namespace Darwin.Libkern.UnserializeXML

/-! ### Every step -/

section Steps
variable (strtol : List UInt8 → ℤ) (strtoul : List UInt8 → ℕ)

/-- What has been read are lexemes, which are these without the tags of property lists. -/
def Consumed (buffer rest : Text) (xs : List Lexeme) : Prop :=
  ∃ u ys,buffer=u++rest ∧ Lexes strtol strtoul u ys ∧ ys.filter (! Lexeme.isPlist ·)=xs

structure Sound (buffer : Text) (p : Parser) : Prop where
  covers : ∃ xs,Consumed strtol strtoul buffer p.rest xs ∧ Covers p.yyss p.yyvs xs p.tags
  first : p.yyss=[0] → p.rest=buffer

/-- An object is what has been read; there is none only if the input is empty. -/
def Outcome (buffer : Text) (f : Finished) : Prop :=
  ∀ o,f.result=.ok o → ∃ xs,Consumed strtol strtoul buffer f.rest xs ∧
    ((∃ ids,IsObject [] xs o ids) ∨ (o=.null ∧ xs=[] ∧ currentChar f.rest=0))

/-- After a round, unless something has been gone over that is not spelled as it should be. -/
def StepSound (buffer : Text) : Step → Prop
  | .done f => Traces strtol strtoul f.met f.closings → Outcome strtol strtoul buffer f
  | .next p => p.yystate=9 ∨ (Traces strtol strtoul p.met p.closings → Sound strtol strtoul buffer p)

variable {strtol strtoul} {buffer beyond : Text} {p : Parser}

lemma StepSound.error (p : Parser) (e : ParseErr) :
    StepSound strtol strtoul buffer (p.finish (.error e)) := by
  intro _ o h
  cases h

lemma StepSound.yynewstate {state : ℕ} (h : state=9 ∨ (Traces strtol strtoul p.met p.closings →
    Sound strtol strtoul buffer {p with yyss := state::p.yyss})) :
    StepSound strtol strtoul buffer (p.yynewstate state) := by
  rw [Parser.yynewstate]
  dsimp only
  split_ifs
  · exact .error _ _
  · exact h

lemma StepSound.yyreduce {state : ℕ} {l : List ℕ} (hpath : Path p.yyss)
    (hp : Traces strtol strtoul p.met p.closings → Sound strtol strtoul buffer p)
    (hstates : p.yyss=state::l) (h0 : state≠0) (h4 : 4≤yydefact.getD state 0)
    (hf : Follows state) :
    StepSound strtol strtoul buffer (p.yyreduce (yydefact.getD state 0)) := by
  rw [Parser.yyreduce,if_neg (by omega),if_neg (by omega),if_neg (by omega)]
  by_cases hforward : yydefact.getD state 0=11 ∧
      retrieveObject (p.yyvs.headD newObject).idref p.tags=none
  · rw [if_pos hforward]
    exact .error _ _
  rw [if_neg hforward]
  dsimp only
  refine .yynewstate (.inr fun htraces => ?_)
  obtain ⟨⟨xs,hconsumed,hcovers⟩,-⟩ := hp htraces
  rw [hstates] at hpath hcovers
  obtain ⟨under,rest,hdrop,hnew⟩ := hcovers.reduce hpath h0 hf rfl rfl rfl
    fun h11 hnone => hforward ⟨h11,hnone⟩
  rw [Parser.yystate]
  dsimp only
  rw [hstates,hdrop,headD_cons]
  exact ⟨⟨xs,hconsumed,hnew⟩,fun h => absurd (congrArg List.length h) (by simp)⟩

lemma StepSound.yydefault_nine (h : p.yystate=9) : StepSound strtol strtoul buffer p.yydefault := by
  rw [Parser.yydefault,h]
  exact .error _ _

lemma StepSound.yydefault (hready : Ready beyond p)
    (hp : Traces strtol strtoul p.met p.closings → Sound strtol strtoul buffer p)
    (hflag : yypact.getD p.yystate 0=YYFLAG) : StepSound strtol strtoul buffer p.yydefault := by
  obtain ⟨state,l,hstates,hstate,hpath⟩ := hready.states
  rw [hstate] at hflag
  rcases follows_all state hpath.lt hflag with rfl | rfl | ⟨h4,hf⟩
  · exact .yydefault_nine hstate
  · -- the input is an object
    rw [Parser.yydefault,hstate]
    change StepSound strtol strtoul buffer (p.finish (.ok (p.yyvs.headD newObject).object))
    intro htraces o ho
    obtain ⟨⟨xs,hconsumed,hcovers⟩,-⟩ := hp htraces
    rw [hstates] at hcovers
    exact ⟨xs,hconsumed,.inl ⟨p.tags,Except.ok.inj ho▸hcovers.object hpath⟩⟩
  · rw [Parser.yydefault,hstate,if_neg (by omega)]
    refine .yyreduce hready.path hp hstates ?_ h4 hf
    rintro rfl
    exact absurd hflag (by decide)

lemma isPlist_of_lexemeOf {t : Token} {v : ObjectT} {x : Lexeme} (h : lexemeOf t v=some x) :
    x.isPlist=false := by
  cases t <;> cases h <;> rfl

lemma filter_plist {ys : List Lexeme} (h : ∀ y∈ys,y.isPlist=true) :
    ys.filter (! Lexeme.isPlist ·)=[] :=
  filter_eq_nil_iff.mpr fun y hy => by rw [h y hy]; decide

lemma Consumed.lex {rest : Text} {xs : List Lexeme} {l : Lexed}
    (h : Consumed strtol strtoul buffer rest xs) (hl : LexSound strtol strtoul rest l) :
    l.token=.endOfInput ∧
        (AtEnd l → Consumed strtol strtoul buffer l.rest xs ∧ currentChar l.rest=0) ∨
      ∃ x,lexemeOf l.token l.yylval=some x ∧ l.yylval.elements=[] ∧
        Consumed strtol strtoul buffer l.rest (xs++[x]) := by
  obtain ⟨u,zs,hbuffer,hlex,hxs⟩ := h
  rcases hl with ⟨htoken,h⟩ | ⟨w,ys,x,hrest,hys,hw,hx,helements⟩
  · refine .inl ⟨htoken,fun hend => ?_⟩
    obtain ⟨w,ys,hrest,hys,hw,hzero⟩ := h hend
    refine ⟨⟨u++w,zs++ys,?_,hlex.append hw,?_⟩,hzero⟩
    · rw [hbuffer,hrest,append_assoc]
    · rw [filter_append,hxs,filter_plist hys,append_nil]
  · refine .inr ⟨x,hx,helements,⟨u++w,zs++(ys++[x]),?_,hlex.append hw,?_⟩⟩
    · rw [hbuffer,hrest,append_assoc]
    · rw [filter_append,filter_append,hxs,filter_plist hys,nil_append,
        filter_cons_of_pos (by rw [isPlist_of_lexemeOf hx]; rfl),filter_nil]

lemma Traces.left {met met' closings closings' : List Text}
    (h : Traces strtol strtoul (met++met') (closings++closings')) :
    Traces strtol strtoul met closings :=
  ⟨fun t ht => h.met t (mem_append_left _ ht),
    fun t ht => h.closings t (mem_append_left _ ht)⟩

lemma Traces.right {met met' closings closings' : List Text}
    (h : Traces strtol strtoul (met++met') (closings++closings')) :
    Traces strtol strtoul met' closings' :=
  ⟨fun t ht => h.met t (mem_append_right _ ht),
    fun t ht => h.closings t (mem_append_right _ ht)⟩

lemma StepSound.act {l : Lexed} {p' : Parser} (hready : Ready beyond p)
    (hp : Traces strtol strtoul p.met p.closings → Sound strtol strtoul buffer p)
    (hflag : yypact.getD p.yystate 0≠YYFLAG) (hlex : yylex strtol strtoul p.rest=some l)
    (hfirst : ∀ l,yylex strtol strtoul buffer=some l → Begins l)
    (hp' : p'={ p with
      yychar := some l.token
      yylval := l.yylval
      rest := l.rest
      opened := p.opened++l.opened
      copied := p.copied++l.copied
      met := p.met++l.met
      closings := p.closings++l.closings}) : StepSound strtol strtoul buffer (p'.act l.token) := by
  obtain ⟨state,below',hstates,hstate,hpath⟩ := hready.states
  have hlt := hpath.lt
  rw [hstate] at hflag
  have hstates' : p'.yyss=state::below' := by rw [hp',←hstates]
  have hstate' : p'.yystate=state := by rw [Parser.yystate,hstates',headD_cons]
  -- the lexemes, with that of the token
  have hnext : Traces strtol strtoul p'.met p'.closings → l.token≠.SYNTAX_ERROR → ∃ xs,
      Covers p.yyss p.yyvs xs p.tags ∧ (p.yyss=[0] → p.rest=buffer) ∧ (l.token=.endOfInput ∧
          (AtEnd l → Consumed strtol strtoul buffer l.rest xs ∧ currentChar l.rest=0) ∨
        ∃ x,lexemeOf l.token l.yylval=some x ∧ l.yylval.elements=[] ∧
          Consumed strtol strtoul buffer l.rest (xs++[x])) := by
    intro htraces htoken
    rw [hp'] at htraces
    obtain ⟨⟨xs,hconsumed,hcovers⟩,hstart⟩ := hp htraces.left
    exact ⟨xs,hcovers,hstart,hconsumed.lex (yylexFrom_sound hlex htoken htraces.right)⟩
  rw [Parser.act,hstate']
  cases haction : actionOf state l.token.translate with
  | none =>
    have hdefault := default_all state hlt hflag
    dsimp only
    rw [Parser.yydefault,hstate']
    split_ifs with h0
    · exact .error _ _
    · have h1 : yydefact.getD state 0=1 := by omega
      obtain rfl := default_start state hlt hflag h1
      rw [h1,Parser.yyreduce,if_pos rfl]
      intro htraces o ho
      obtain rfl := Except.ok.inj ho
      have hempty : p.yyss=[0] := by
        rw [hstates]
        cases hpath with
        | start => rfl
        | push _ hmem => exact absurd hmem not_mem_nil
      have hsyntax : l.token≠.SYNTAX_ERROR := by
        intro h
        rw [h] at haction
        exact absurd haction (by decide)
      obtain ⟨xs,hcovers,hstart,hread⟩ := hnext htraces hsyntax
      rw [hstart hempty] at hlex
      obtain ⟨hnot,hat⟩ := hfirst l hlex
      have hend : l.token=.endOfInput := (action_start l.token haction).resolve_right hnot
      have hxs : xs=[] := by
        rw [hempty] at hcovers
        exact hcovers.nothing
      rcases hread with ⟨-,hread⟩ | ⟨x,hx,-,-⟩
      · obtain ⟨hconsumed,hzero⟩ := hread (hat hend)
        rw [hxs] at hconsumed
        refine ⟨[],?_,.inr ⟨rfl,rfl,?_⟩⟩
        · rw [hp']
          exact hconsumed
        · rw [hp']
          exact hzero
      · rw [hend] at hx
        cases hx
  | some n =>
    have hshift := shift_all state hlt hflag l.token.translate l.token.translate_lt
    have hsymbol := symbolOf_shift l.token state hlt hflag
    rw [haction,all_some,decide_eq_true_iff] at hshift hsymbol
    obtain ⟨hpos,hfinal,-,-,hend,hbad⟩ := hshift
    have htoken : l.token≠.endOfInput := by
      intro h
      rw [h] at hend
      exact hend rfl
    dsimp only
    rw [if_neg (by omega),if_neg (by omega),if_neg hfinal,if_neg htoken]
    refine .yynewstate ?_
    by_cases herror : l.token=.SYNTAX_ERROR
    · refine .inl ?_
      rw [hbad (by rw [herror]; rfl)]
      rfl
    · refine .inr fun htraces => ?_
      obtain ⟨xs,hcovers,-,⟨hend',-⟩ | ⟨x,hx,helements,hconsumed⟩⟩ := hnext htraces herror
      · exact absurd hend' htoken
      · refine ⟨⟨xs++[x],?_,?_⟩,fun h => ?_⟩
        · rw [hp']
          exact hconsumed
        · rw [hp']
          dsimp only
          rw [hstates] at hcovers ⊢
          refine hcovers.push ?_
          rw [hsymbol]
          exact ⟨rfl,helements,x,hx,rfl⟩
        · dsimp only at h
          rw [hstates'] at h
          exact absurd (congrArg List.length h) (by simp)

lemma StepSound.step (hready : Ready beyond p)
    (hp : p.yystate=9 ∨ (Traces strtol strtoul p.met p.closings → Sound strtol strtoul buffer p))
    (hfirst : ∀ l,yylex strtol strtoul buffer=some l → Begins l) {s : Step}
    (h : p.step strtol strtoul=some s) : StepSound strtol strtoul buffer s := by
  rw [Parser.step] at h
  by_cases hflag : yypact.getD p.yystate 0=YYFLAG
  · rw [if_pos hflag] at h
    obtain rfl := some_inj.mp h
    rcases hp with hnine | hp
    · exact .yydefault_nine hnine
    · exact .yydefault hready hp hflag
  · rw [if_neg hflag,Parser.lookahead,hready.empty] at h
    rcases hp with hnine | hp
    · rw [hnine] at hflag
      exact absurd (by decide) hflag
    obtain ⟨⟨token,p'⟩,hlookahead,rfl⟩ := map_eq_some_iff.mp h
    obtain ⟨l,hlex,heq⟩ := map_eq_some_iff.mp hlookahead
    obtain ⟨rfl,hp'⟩ := Prod.mk.inj heq
    exact .act hready hp hflag hlex hfirst hp'.symm

lemma yyparse_outcome (hready : Ready beyond p)
    (hp : p.yystate=9 ∨ (Traces strtol strtoul p.met p.closings → Sound strtol strtoul buffer p))
    (hfirst : ∀ l,yylex strtol strtoul buffer=some l → Begins l) {fuel : ℕ}
    {f : Finished} (h : yyparse strtol strtoul fuel p=some f)
    (htraces : Traces strtol strtoul f.met f.closings) : Outcome strtol strtoul buffer f := by
  induction fuel generalizing p with
  | zero => cases h
  | succ fuel ih =>
    obtain ⟨s,hstep,hspec⟩ := step_spec strtol strtoul hready
    have hsound := StepSound.step hready hp hfirst hstep
    rw [yyparse,hstep] at h
    cases s with
    | done f' =>
      obtain rfl := some_inj.mp h
      exact hsound htraces
    | next p' =>
      cases hspec with
      | next hready' _ => exact ih hready' hsound h

end Steps

/-! ### Short texts -/

section Short
variable {strtol : List UInt8 → ℤ} {strtoul : List UInt8 → ℕ} {w : List UInt8} {x : Lexeme}

lemma TagText.close {tagType : TagType} {name : List UInt8}
    {attributes : List (List UInt8 × List UInt8)} (h : TagText tagType name attributes w) :
    0x3e∈w ∧ name.length+2≤w.length := by
  cases h with
  | opening hname hs => exact ⟨by simp,by simp⟩
  | empty hname hs => exact ⟨by simp,by simp⟩
  | closing hname => exact ⟨by simp,by simp⟩

lemma Spells.close (h : Spells strtol strtoul w x) : 0x3e∈w ∧ 4≤w.length := by
  have hlong : ∀ {tagType : TagType} {name w : List UInt8}
      {attributes : List (List UInt8 × List UInt8)},TagText tagType name attributes w →
      2≤name.length → 0x3e∈w ∧ 4≤w.length :=
    fun htext hname => ⟨htext.close.1,(Nat.add_le_add_right hname 2).trans htext.close.2⟩
  have hfirst : ∀ {a s b : List UInt8},0x3e∈a ∧ 4≤a.length → 0x3e∈a++s++b ∧ 4≤(a++s++b).length := by
    intro a s b h
    refine ⟨mem_append_left _ (mem_append_left _ h.1),h.2.trans ?_⟩
    rw [append_assoc,length_append]
    exact le_add_right _ _
  cases h with
  | plist htext => exact hlong htext (by decide)
  | idref htext =>
    refine ⟨htext.close.1,?_⟩
    cases htext with
    | empty hname hs =>
      have := length_pos_iff.mpr hname.1
      simp only [length_append,length_cons]
      omega
  | empty c htext => exact hlong htext (by cases c <;> decide)
  | opens c htext => exact hlong htext (by cases c <;> decide)
  | closes c htext => exact hlong htext (by cases c <;> decide)
  | boolean b htext => exact hlong htext (by cases b <;> decide)
  | noData htext => exact hlong htext (by decide)
  | data htext => exact hfirst (hlong htext (by decide))
  | noNumber htext => exact hlong htext (by decide)
  | integer htext => exact hfirst (hlong htext (by decide))
  | noString htext => exact hlong htext (by decide)
  | string htext => exact hfirst (hlong htext (by decide))
  | key htext => exact hfirst (hlong htext (by decide))

lemma Lexes.length_le {u : List UInt8} {ys : List Lexeme} (h : Lexes strtol strtoul u ys) :
    ys.length≤u.count 0x3e := by
  induction h with
  | nil => exact zero_le _
  | cons hs hx _ ih =>
    have := count_pos_iff.mpr hx.close.1
    rw [length_cons,count_append,count_append]
    omega

lemma IsObject.ne_nil {ids ids' : Identifiers} {xs : List Lexeme} {o : OSObject}
    (h : IsObject ids xs o ids') : xs≠[] := by
  cases h <;> exact cons_ne_nil _ _

end Short

/-! ### Documents -/

section Documents
variable (strtol : List UInt8 → ℤ) (strtoul : List UInt8 → ℕ)

/-- What is promised of a text, with its NUL and what is behind it in memory: the call comes to an end
with an object only if the text is a document that denotes it, and with an error otherwise. -/
def ReturnsDocument (text beyond : List UInt8) : Prop :=
  ∃ f,Returns strtol strtoul (text++0::beyond) f ∧
    ∀ o,f.result=.ok o → IsDocument strtol strtoul text o

def MeetsTag (buffer t : Text) : Prop := ∃ f,Returns strtol strtoul buffer f ∧ t∈f.met

def MeetsClosing (buffer t : Text) : Prop := ∃ f,Returns strtol strtoul buffer f ∧ t∈f.closings

/-- Blanks are all that is behind an object, or the end of a property list that is begun in front of
it. -/
def Enclosed (ys : List Lexeme) (v : List UInt8) : Prop :=
  (∀ y∈ys,y.isPlist=false) ∧ Blank v ∨ ∃ zs,ys=.plist .TAG_START::zs ∧ (∀ z∈zs,z.isPlist=false) ∧
      Lexes strtol strtoul v [.plist .TAG_END]

/-- What the call comes to is spelled as it should be, or is refused; the text does not begin with a key,
with the end of a collection or with an unknown tag that is taken for the end of the input; and nothing
but the tags of a property list is around the object. -/
structure RegularText (text beyond : List UInt8) : Prop where
  uncut : ∀ value,MeetsValue strtol strtoul (text++0::beyond) value → ¬Cut beyond value
  tags : ∀ t,MeetsTag strtol strtoul (text++0::beyond) t → RegularTag t ∨ Refused strtol strtoul t
  closings : ∀ t,MeetsClosing strtol strtoul (text++0::beyond) t → PlainClosing t
  first : ∀ l,yylex strtol strtoul (text++0::beyond)=some l → Begins l
  enclosed : ∀ u v ys o ids,text=u++v → Lexes strtol strtoul u ys →
    IsObject [] (ys.filter (! Lexeme.isPlist ·)) o ids → Enclosed strtol strtoul ys v
  empty : ∀ ys,Lexes strtol strtoul text ys → (∀ y∈ys,y.isPlist=true) →
    ys=[] ∨ ys=[.plist .TAG_START,.plist .TAG_END]

variable {strtol strtoul} {text beyond : List UInt8}

lemma Enclosed.isDocument {u v : List UInt8} {ys : List Lexeme} {o : OSObject} {ids : Identifiers}
    (h : Enclosed strtol strtoul ys v) (hlex : Lexes strtol strtoul u ys)
    (ho : IsObject [] (ys.filter (! Lexeme.isPlist ·)) o ids) :
    IsDocument strtol strtoul (u++v) o := by
  have hfilter : ∀ {zs : List Lexeme},(∀ z∈zs,z.isPlist=false) →
      zs.filter (! Lexeme.isPlist ·)=zs :=
    fun hzs => filter_eq_self.mpr fun z hz => by rw [hzs z hz]; rfl
  rcases h with ⟨hys,hv⟩ | ⟨zs,rfl,hzs,hv⟩
  · rw [hfilter hys] at ho
    refine ⟨ys,?_,.object ho⟩
    have := hlex.append (.nil hv)
    rwa [append_nil] at this
  · rw [filter_cons_of_neg (by decide),hfilter hzs] at ho
    refine ⟨_,hlex.append hv,?_⟩
    rw [cons_append]
    exact .plist ho

end Documents

def setText : List UInt8 := [0x3c,0x73,0x65,0x74,0x2f,0x3e]

lemma setText_begins {u v : List UInt8} (h : setText=u++v) (hu : 0x3e∈u) : u=setText ∧ v=[] := by
  have hall : ∀ u∈setText.inits,0x3e∈u → u=setText := by decide
  obtain rfl := hall u ((mem_inits _ _).mpr ⟨v,h.symm⟩) hu
  exact ⟨rfl,self_eq_append_right.mp h⟩

lemma regularText_setText : RegularText (fun _ => 0) (fun _ => 0) setText [] := by
  have hrun : (yyparse (fun _ => 0) (fun _ => 0) 4 (startOf (setText++0::[]))).map
      (fun f => (f.opened,f.met,f.closings))=some ([],[setText++0::[]],[]) := by
    decide
  obtain ⟨f,hf,htraces⟩ := map_eq_some_iff.mp hrun
  obtain ⟨hopened,hrest⟩ := Prod.mk.inj htraces
  obtain ⟨hmet,hclosings⟩ := Prod.mk.inj hrest
  have hunique : ∀ f',Returns (fun _ => 0) (fun _ => 0) (setText++0::[]) f' → f'=f :=
    fun f' hf' => Returns.unique _ _ hf' ⟨4,hf⟩
  have hone : ∀ {u ys},u <+: setText → Lexes (fun _ => 0) (fun _ => 0) u ys → ys.length≤1 :=
    fun hu hlex => hlex.length_le.trans ((hu.sublist.count_le _).trans (by decide))
  have hplist : ∀ k,¬Lexes (fun _ => 0) (fun _ => 0) setText [.plist k] := by
    intro k h
    obtain ⟨text,htext⟩ : ∃ text,text=setText := ⟨_,rfl⟩
    rw [←htext] at h
    cases h with
    | cons hs hx =>
      cases hx with
      | plist hx =>
        have hlong := hx.close.2
        have hlength := congrArg List.length htext
        simp only [length_append] at hlength
        rw [show setText.length=6 from rfl] at hlength
        rw [show tagPlist.length=5 from rfl] at hlong
        omega
  refine ⟨?_,?_,?_,?_,?_,?_⟩
  · rintro value ⟨f',hf',hmem⟩
    rw [hunique f' hf',hopened] at hmem
    exact absurd hmem not_mem_nil
  · rintro t ⟨f',hf',hmem⟩
    rw [hunique f' hf',hmet] at hmem
    obtain rfl := mem_singleton.mp hmem
    have hattributes : (getTag (setText++0::[])).attributes=[] := by decide
    have htag : (getTag (setText++0::[])).tag=tagSet := by decide
    refine .inl ⟨⟨?_,fun h => absurd h (by decide)⟩,?_,?_,fun _ _ => ⟨?_,?_,?_,?_,?_⟩⟩
    · rw [hattributes]
      exact fun _ ha => absurd ha not_mem_nil
    · rw [hattributes]
      exact fun _ _ _ h => absurd h.symm (by simp)
    · rw [hattributes]
      exact fun _ _ ha => absurd ha not_mem_nil
    · rw [htag]
      exact fun h => absurd h (by decide)
    · rw [htag]
      exact fun h => absurd h (by decide)
    · rw [htag]
      exact fun h => absurd h (by decide)
    · rw [htag]
      exact fun h => absurd h (by decide)
    · rw [htag]
      exact fun h => absurd h (by decide)
  · rintro t ⟨f',hf',hmem⟩
    rw [hunique f' hf',hclosings] at hmem
    exact absurd hmem not_mem_nil
  · intro l hl
    have htoken : (yylex (fun _ => 0) (fun _ => 0) (setText++0::[])).map Lexed.token =
        some .SET := by
      decide
    rw [hl] at htoken
    have hset : l.token=.SET := some_inj.mp htoken
    exact ⟨by rw [hset]; decide,fun h => absurd (hset.symm.trans h) (by decide)⟩
  · intro u v ys o ids htext hlex ho
    have hlength := hone ⟨v,htext.symm⟩ hlex
    cases ys with
    | nil => exact absurd rfl ho.ne_nil
    | cons y ys =>
      obtain rfl := length_eq_zero_iff.mp (le_zero.mp (le_of_succ_le_succ hlength))
      have hmem : 0x3e∈u := count_pos_iff.mp (lt_of_lt_of_le zero_lt_one hlex.length_le)
      obtain ⟨-,rfl⟩ := setText_begins htext hmem
      refine .inl ⟨fun z hz => ?_,.nil⟩
      rw [mem_singleton.mp hz]
      by_contra hy
      rw [Bool.not_eq_false] at hy
      exact ho.ne_nil (filter_cons_of_neg (by rw [hy]; decide))
  · intro ys hlex hys
    have hlength := hone (prefix_refl _) hlex
    cases ys with
    | nil => exact .inl rfl
    | cons y ys =>
      obtain rfl := length_eq_zero_iff.mp (le_zero.mp (le_of_succ_le_succ hlength))
      have hy := hys y (mem_singleton_self y)
      cases y with
      | plist k => exact absurd hlex (hplist k)
      | _ => cases hy

end Darwin.Libkern.UnserializeXML
