import Darwin.Libkern.XmlDocument

/-! The tags, strings, numbers and data that the scanner reads are spelled as those of documents. -/
open List Option Nat UInt8
namespace Darwin.Libkern.UnserializeXML

/-! ### Tags -/

section Tags
variable {t : Text} {c : UInt8}

lemma eq_cons_of_currentChar (h : currentChar t=c) (h0 : c≠0) : t=c::nextChar t := by
  cases t with
  | nil => exact absurd h.symm h0
  | cons c' t => rw [←h]; rfl

lemma copyTag_eq {length : ℕ} {name : List UInt8} (h : (copyTag length t).1=some name) :
    t=name++(copyTag length t).2 ∧ ∀ c∈name,isAlphaNumeric c := by
  induction t generalizing length name with
  | nil =>
    obtain rfl := some_inj.mp h
    exact ⟨rfl,fun _ hc => absurd hc not_mem_nil⟩
  | cons c t ih =>
    rw [copyTag] at h ⊢
    split_ifs at h ⊢ with hc hfull
    · obtain ⟨name',hname,rfl⟩ := map_eq_some_iff.mp h
      obtain ⟨ht,hall⟩ := ih hname
      exact ⟨congrArg (c :: ·) ht,forall_mem_cons.mpr ⟨hc,hall⟩⟩
    · obtain rfl := some_inj.mp h
      exact ⟨rfl,fun _ hc => absurd hc not_mem_nil⟩

lemma copyAttribute_eq {length : ℕ} {name : List UInt8}
    (h : (copyAttribute length t).1=some name) :
    t=name++(copyAttribute length t).2 ∧ ∀ c∈name,isAlphaNumeric c := by
  induction t generalizing length name with
  | nil =>
    obtain rfl := some_inj.mp h
    exact ⟨rfl,fun _ hc => absurd hc not_mem_nil⟩
  | cons c t ih =>
    rw [copyAttribute] at h ⊢
    split_ifs at h ⊢ with hc hfull
    · obtain ⟨name',hname,rfl⟩ := map_eq_some_iff.mp h
      obtain ⟨ht,hall⟩ := ih hname
      exact ⟨congrArg (c :: ·) ht,forall_mem_cons.mpr ⟨hc,hall⟩⟩
    · obtain rfl := some_inj.mp h
      exact ⟨rfl,fun _ hc => absurd hc not_mem_nil⟩

lemma copyValue_eq {length : ℕ} {value : List UInt8} (h : (copyValue length t).1=some value) :
    t=value++0x22::(copyValue length t).2 ∧ 0x22∉value := by
  induction t generalizing length value with
  | nil => cases h
  | cons c t ih =>
    rw [copyValue] at h ⊢
    split_ifs at h ⊢ with hc hfull
    · obtain rfl := some_inj.mp h
      exact ⟨by rw [hc]; rfl,not_mem_nil⟩
    · obtain ⟨value',hvalue,rfl⟩ := map_eq_some_iff.mp h
      obtain ⟨ht,hnone⟩ := ih hvalue
      refine ⟨congrArg (c :: ·) ht,?_⟩
      rw [mem_cons,not_or]
      exact ⟨fun h => hc h.symm,hnone⟩

lemma spaces_append (t : Text) : ∃ s,t=s++t.dropWhile isSpace ∧ ∀ c∈s,isSpace c :=
  ⟨t.takeWhile isSpace,takeWhile_append_dropWhile.symm,fun _ hc =>
    all_eq_true.mp all_takeWhile _ hc⟩

variable {attributes : List (List UInt8 × List UInt8)}

lemma getAttribute_text {name value : List UInt8} (h : (getAttribute t).value=some (name,value))
    (hname : name≠[]) {s : List UInt8}
    (hs : AttributesText s attributes) {r : Text} (hrest : (getAttribute t).rest=s++r) :
    ∃ s',t=s'++r ∧ AttributesText s' ((name,value)::attributes) := by
  rw [getAttribute] at h hrest
  dsimp only at h hrest
  cases hattr : (copyAttribute 0 (t.dropWhile isSpace)).1 with
  | none =>
    rw [hattr] at h
    cases h
  | some attr =>
    rw [hattr] at h hrest
    dsimp only at h hrest
    obtain ⟨a,ha,haSpace⟩ := spaces_append t
    obtain ⟨hb,hattrName⟩ := copyAttribute_eq hattr
    obtain ⟨b,hbEq,hbSpace⟩ := spaces_append (copyAttribute 0 (t.dropWhile isSpace)).2
    obtain ⟨u,hu⟩ : ∃ u,u=(copyAttribute 0 (t.dropWhile isSpace)).2.dropWhile isSpace := ⟨_,rfl⟩
    rw [←hu] at h hrest hbEq
    split_ifs at h hrest with hequals hquote
    dsimp only at h hrest
    have hu' := eq_cons_of_currentChar (not_not.mp hequals) (by decide)
    obtain ⟨c,hc,hcSpace⟩ := spaces_append (nextChar u)
    have hq := eq_cons_of_currentChar (not_not.mp hquote) (by decide)
    obtain ⟨v,hv,hpair⟩ := map_eq_some_iff.mp h
    obtain ⟨rfl,rfl⟩ := Prod.mk.inj hpair
    obtain ⟨hval,hnone⟩ := copyValue_eq hv
    rw [hrest] at hval
    refine ⟨a++attr++b++0x3d::c++0x22::v++0x22::s,?_,
      .cons haSpace ⟨hname,hattrName⟩ hbSpace hcSpace hnone hs⟩
    calc t=a++t.dropWhile isSpace := ha
      _ = a++(attr++(b++u)) := by rw [←hbEq,←hb]
      _ = a++(attr++(b++(0x3d::(c++(0x22::(v++0x22::(s++r))))))) := by rw [←hval,←hq,←hc,←hu']
      _=_ := by simp only [append_assoc,cons_append]

lemma getAttributes_text {slots : ℕ}
    (h : (getAttributes slots t).value=some attributes) (hnames : ∀ a∈attributes,a.1≠[]) :
    ∃ s,t=s++(getAttributes slots t).rest ∧ AttributesText s attributes := by
  induction slots generalizing t attributes with
  | zero => cases h
  | succ slots ih =>
    rw [getAttributes] at h ⊢
    split_ifs at h ⊢ with hend
    · obtain rfl := some_inj.mp h
      exact ⟨[],rfl,.nil⟩
    · dsimp only at h ⊢
      cases hfirst : (getAttribute t).value with
      | none =>
        rw [hfirst] at h
        cases h
      | some attr =>
        rw [hfirst] at h
        dsimp only at h ⊢
        obtain ⟨others,hothers,rfl⟩ := map_eq_some_iff.mp h
        obtain ⟨hname,hnames⟩ := forall_mem_cons.mp hnames
        obtain ⟨s,hs,htext⟩ := ih hothers hnames
        exact getAttribute_text hfirst hname htext hs

lemma getTagName_text {tagType : TagType} (h : (getTagName tagType t).tagType≠.TAG_BAD)
    (hnames : ∀ a∈(getTagName tagType t).attributes,a.1≠[]) :
    ∃ s e,t=(getTagName tagType t).tag++s++e++(getTagName tagType t).rest ∧
      IsName (getTagName tagType t).tag ∧ AttributesText s (getTagName tagType t).attributes ∧
      (e=[0x3e] ∧ (getTagName tagType t).tagType=tagType ∨
        e=[0x2f,0x3e] ∧ (getTagName tagType t).tagType=.TAG_EMPTY) := by
  rw [getTagName] at h hnames ⊢
  by_cases halpha : (!isAlpha (currentChar t))=true
  · rw [if_pos halpha] at h
    exact absurd rfl h
  rw [if_neg halpha] at h hnames ⊢
  dsimp only at h hnames ⊢
  cases hname : (copyTag 0 t).1 with
  | none =>
    rw [hname] at h
    exact absurd rfl h
  | some tag =>
    rw [hname] at h hnames
    dsimp only at h hnames ⊢
    obtain ⟨ht,htag⟩ := copyTag_eq hname
    have hne : tag≠[] := by
      rintro rfl
      have hlast : (copyTag 0 t).2=t := ht.symm
      cases t with
      | nil => exact halpha (by decide)
      | cons c t =>
        rw [copyTag] at hlast
        split_ifs at hlast with hc hfull
        · exact absurd (congrArg List.length hlast) (by simp)
        · have hle := (copyTag_reads 1 t).length_le
          rw [zero_add] at hlast
          have hlength := congrArg List.length hlast
          rw [length_cons] at hlength
          dsimp only at hlength
          omega
        · refine halpha ?_
          rw [isAlphaNumeric] at hc
          rw [currentChar,headD_cons]
          simp only [Bool.or_eq_true,not_or,Bool.not_eq_true] at hc
          rw [hc.1.1]
          rfl
    obtain ⟨read,hread⟩ : ∃ read,read=getAttributes TAG_MAX_ATTRIBUTES (copyTag 0 t).2 := ⟨_,rfl⟩
    rw [←hread] at h hnames ⊢
    cases hvalues : read.value with
    | none =>
      rw [hvalues] at h
      exact absurd rfl h
    | some values =>
      rw [hvalues] at h hnames
      dsimp only at h hnames ⊢
      by_cases hslash : currentChar read.rest=0x2f
      · rw [if_pos hslash] at h hnames ⊢
        rw [if_pos hslash] at h hnames ⊢
        by_cases hclose : currentChar (nextChar read.rest)=0x3e
        · rw [if_neg (not_not.mpr hclose)] at hnames ⊢
          rw [hread] at hvalues
          obtain ⟨s,hs,htext⟩ := getAttributes_text hvalues hnames
          rw [←hread] at hs
          refine ⟨s,[0x2f,0x3e],?_,⟨hne,htag⟩,htext,.inr ⟨rfl,rfl⟩⟩
          calc t=tag++(copyTag 0 t).2 := ht
            _ = tag++(s++(0x2f::0x3e::nextChar (nextChar read.rest))) := by
              rw [←eq_cons_of_currentChar hclose (by decide),
                ← eq_cons_of_currentChar hslash (by decide),←hs]
            _=_ := by simp only [append_assoc,cons_append,nil_append]
        · rw [if_pos hclose] at h
          exact absurd rfl h
      · rw [if_neg hslash] at h hnames ⊢
        rw [if_neg hslash] at h hnames ⊢
        by_cases hclose : currentChar read.rest=0x3e
        · rw [if_neg (not_not.mpr hclose)] at hnames ⊢
          rw [hread] at hvalues
          obtain ⟨s,hs,htext⟩ := getAttributes_text hvalues hnames
          rw [←hread] at hs
          refine ⟨s,[0x3e],?_,⟨hne,htag⟩,htext,.inl ⟨rfl,rfl⟩⟩
          calc t=tag++(copyTag 0 t).2 := ht
            _ = tag++(s++(0x3e::nextChar read.rest)) := by
              rw [←eq_cons_of_currentChar hclose (by decide),←hs]
            _=_ := by simp only [append_assoc,cons_append,nil_append]
        · rw [if_pos hclose] at h
          exact absurd rfl h

/-- Attributes have names, and a tag that begins as a closing one is one, without attributes. -/
structure PlainTag (t : Text) : Prop where
  names : ∀ a∈(getTag t).attributes,a.1≠[]
  closing : currentChar (nextChar t)=0x2f → (getTag t).tagType=.TAG_END ∧ (getTag t).attributes=[]

lemma lt_of_getTag (h : (getTag t).tagType≠.TAG_BAD) : currentChar t=0x3c := by
  by_contra hne
  rw [getTag,if_pos hne] at h
  exact h rfl

lemma skipComment_eq (h : (skipComment t).1=true) :
    ∃ body,t=body++0x3e::(skipComment t).2 ∧ 0x3e∉body := by
  fun_induction skipComment t with
  | case1 => cases h
  | case2 => cases h
  | case3 t h0 => exact ⟨[],rfl,not_mem_nil⟩
  | case4 c t h0 hc ih =>
    obtain ⟨body,ht,hnone⟩ := ih h
    refine ⟨c::body,congrArg (c :: ·) ht,?_⟩
    rw [mem_cons,not_or]
    exact ⟨fun h => hc h.symm,hnone⟩

lemma getTagName_tagType (tagType : TagType) (t : Text) :
    (getTagName tagType t).tagType=.TAG_BAD ∨ (getTagName tagType t).tagType=tagType ∨
      (getTagName tagType t).tagType=.TAG_EMPTY := by
  rw [getTagName]
  by_cases halpha : (!isAlpha (currentChar t))=true
  · rw [if_pos halpha]
    exact .inl rfl
  rw [if_neg halpha]
  dsimp only
  cases (copyTag 0 t).1 with
  | none => exact .inl rfl
  | some tag =>
    dsimp only
    cases (getAttributes TAG_MAX_ATTRIBUTES (copyTag 0 t).2).value with
    | none => exact .inl rfl
    | some values =>
      dsimp only
      by_cases hslash : currentChar (getAttributes TAG_MAX_ATTRIBUTES (copyTag 0 t).2).rest=0x2f
      · rw [if_pos hslash,if_pos hslash]
        split_ifs
        · exact .inl rfl
        · exact .inr (.inr rfl)
      · rw [if_neg hslash,if_neg hslash]
        split_ifs
        · exact .inl rfl
        · exact .inr (.inl rfl)

lemma getTag_comment (h : (getTag t).tagType=.TAG_COMMENT) :
    ∃ s,t=s++(getTag t).rest ∧ ∀ u,Blank u → Blank (s++u) := by
  have hlt := lt_of_getTag (by rw [h]; decide)
  have ht := eq_cons_of_currentChar hlt (by decide)
  rw [getTag,if_neg (not_not.mpr hlt)] at h ⊢
  dsimp only at h ⊢
  by_cases hcomment : currentChar (nextChar t)=0x3f ∨ currentChar (nextChar t)=0x21
  · rw [if_pos hcomment] at h ⊢
    by_cases hfound : (skipComment (nextChar (nextChar t))).1=true
    · rw [if_pos hfound]
      obtain ⟨body,hbody,hnone⟩ := skipComment_eq hfound
      have hnext := eq_cons_of_currentChar (t := nextChar t) rfl
        (by rcases hcomment with h0 | h0 <;> rw [h0] <;> decide)
      refine ⟨0x3c::currentChar (nextChar t)::body++[0x3e],?_,fun u hu => ?_⟩
      · calc t=0x3c::(currentChar (nextChar t)::nextChar (nextChar t)) := by rw [←hnext,←ht]
          _ = 0x3c::(currentChar (nextChar t)::(body++0x3e ::
              (skipComment (nextChar (nextChar t))).2)) := by rw [←hbody]
          _=_ := by simp only [append_assoc,cons_append,nil_append]
      · rw [append_assoc]
        exact .comment hcomment hnone hu
    · rw [if_neg hfound] at h
      cases h
  · rw [if_neg hcomment] at h
    split_ifs at h
    · rcases getTagName_tagType .TAG_END (nextChar (nextChar t)) with h' | h' | h' <;>
        exact absurd (h.symm.trans h') (by decide)
    · rcases getTagName_tagType .TAG_START (nextChar t) with h' | h' | h' <;>
        exact absurd (h.symm.trans h') (by decide)

lemma getTag_text (hbad : (getTag t).tagType≠.TAG_BAD) (hcomment : (getTag t).tagType≠.TAG_COMMENT)
    (h : PlainTag t) : ∃ w,t=w++(getTag t).rest ∧
      TagText (getTag t).tagType (getTag t).tag (getTag t).attributes w := by
  obtain ⟨hnames,hclosing⟩ := h
  have hlt := lt_of_getTag hbad
  have ht := eq_cons_of_currentChar hlt (by decide)
  rw [getTag,if_neg (not_not.mpr hlt)] at hbad hcomment hnames hclosing ⊢
  dsimp only at hbad hcomment hnames hclosing ⊢
  by_cases hmark : currentChar (nextChar t)=0x3f ∨ currentChar (nextChar t)=0x21
  · rw [if_pos hmark] at hbad hcomment
    split_ifs at hbad hcomment
    · exact absurd rfl hcomment
    · exact absurd rfl hbad
  rw [if_neg hmark] at hbad hnames hclosing ⊢
  by_cases hslash : currentChar (nextChar t)=0x2f
  · rw [if_pos hslash] at hbad hnames hclosing ⊢
    obtain ⟨s,e,hs,hname,htext,he⟩ := getTagName_text hbad hnames
    obtain ⟨htype,hattributes⟩ := hclosing hslash
    rw [hattributes] at htext
    rcases he with ⟨rfl,-⟩ | ⟨rfl,hempty⟩
    · cases htext
      refine ⟨0x3c::0x2f::(getTagName .TAG_END (nextChar (nextChar t))).tag++[0x3e],?_,?_⟩
      · conv_lhs => rw [ht,eq_cons_of_currentChar hslash (by decide),hs]
        simp only [append_assoc,cons_append,nil_append]
      · rw [htype,hattributes]
        exact .closing hname
    · rw [hempty] at htype
      cases htype
  · rw [if_neg hslash] at hbad hnames hclosing ⊢
    obtain ⟨s,e,hs,hname,htext,he⟩ := getTagName_text hbad hnames
    rcases he with ⟨rfl,htype⟩ | ⟨rfl,htype⟩
    · refine ⟨0x3c::(getTagName .TAG_START (nextChar t)).tag++s++[0x3e],?_,?_⟩
      · conv_lhs => rw [ht,hs]
        simp only [append_assoc,cons_append,nil_append]
      · rw [htype]
        exact .opening hname htext
    · refine ⟨0x3c::(getTagName .TAG_START (nextChar t)).tag++s++[0x2f,0x3e],?_,?_⟩
      · conv_lhs => rw [ht,hs]
        simp only [append_assoc,cons_append,nil_append]
      · rw [htype]
        exact .empty hname htext

end Tags

/-! ### Strings -/

section Strings
variable {t r : Text}

lemma exists_three {s : List UInt8} (h : ¬s.length<3) : ∃ x y z u,s=x::y::z::u := by
  cases s with
  | nil => exact absurd (by decide) h
  | cons x s =>
    cases s with
    | nil => exact absurd (by decide : 1<3) h
    | cons y s =>
      cases s with
      | nil => exact absurd (by decide : 2<3) h
      | cons z u => exact ⟨x,y,z,u,rfl⟩

lemma copyString_entity (fuel left : ℕ) (x y z : UInt8) (t : Text) :
    copyString (fuel+1) (left+4) (0x26::x::y::z::t) =
      if x=0x6c ∨ x=0x67 then
        if y≠0x74 then (none,z::t)
        else if z≠0x3b then (none,t)
        else ((copyString fuel left t).1.map (angleOf x :: ·),(copyString fuel left t).2)
      else if left+2<3 then (none,y::z::t)
      else if x=0x61 then
        if y≠0x6d then (none,z::t)
        else if z≠0x70 then (none,t)
        else if currentChar t≠0x3b then (none,nextChar t)
        else ((copyString fuel (left-1) (nextChar t)).1.map (0x26 :: ·),
          (copyString fuel (left-1) (nextChar t)).2)
      else (none,y::z::t) := by
  have hamp : currentChar (0x26::x::y::z::t)=0x26 := rfl
  rw [copyString,if_neg (by omega)]
  dsimp only
  rw [if_neg (not_not.mpr hamp),if_neg (by omega)]
  rfl

lemma copyString_text {fuel : ℕ} {body string : List UInt8} (hfuel : body.length≤fuel)
    (hbody : 0x3c∉body) (h : (copyString fuel body.length (body++r)).1=some string) :
    StringText body string := by
  induction fuel generalizing body string with
  | zero =>
    obtain rfl := length_eq_zero_iff.mp (le_zero.mp hfuel)
    obtain rfl := some_inj.mp h
    exact .nil
  | succ fuel ih =>
    cases body with
    | nil =>
      rw [copyString,length_nil,if_pos rfl] at h
      obtain rfl := some_inj.mp h
      exact .nil
    | cons c body =>
      rw [mem_cons,not_or] at hbody
      rw [length_cons] at hfuel h
      by_cases hc : c=0x26
      · by_cases hshort : body.length<3
        · have hamp : currentChar (0x26::body++r)=0x26 := rfl
          rw [copyString,if_neg (succ_ne_zero _),hc] at h
          dsimp only at h
          rw [if_neg (not_not.mpr hamp),if_pos (by omega)] at h
          cases h
        obtain ⟨x,y,z,body,rfl⟩ := exists_three hshort
        rw [hc,length_cons,length_cons,length_cons,cons_append,cons_append,
          cons_append,cons_append,copyString_entity] at h
        rw [length_cons,length_cons,length_cons] at hfuel
        rw [hc]
        split_ifs at h with hangle ht hsemi hlong ha hm hp hend
        · -- `&lt;` and `&gt;`
          obtain ⟨string,hstring,rfl⟩ := map_eq_some_iff.mp h
          have htext := ih (by omega) (fun hmem => hbody.2 (by simp [hmem])) hstring
          rw [not_not.mp ht,not_not.mp hsemi]
          rcases hangle with rfl | rfl
          · exact .entity (e := [0x26,0x6c,0x74,0x3b]) (by decide) htext
          · exact .entity (e := [0x26,0x67,0x74,0x3b]) (by decide) htext
        · -- `&amp;`
          cases body with
          | nil => exact absurd (by decide : 0+2<3) hlong
          | cons w body =>
            obtain ⟨string,hstring,rfl⟩ := map_eq_some_iff.mp h
            rw [length_cons] at hfuel
            have htext := ih (by omega) (fun hmem => hbody.2 (by simp [hmem])) hstring
            have hw : w=0x3b := not_not.mp hend
            rw [ha,not_not.mp hm,not_not.mp hp,hw]
            exact .entity (e := [0x26,0x61,0x6d,0x70,0x3b]) (by decide) htext
      · have hchar : currentChar (c::body++r)≠0x26 := hc
        rw [copyString,if_neg (succ_ne_zero _)] at h
        dsimp only at h
        rw [if_pos hchar] at h
        obtain ⟨string,hstring,rfl⟩ := map_eq_some_iff.mp h
        exact .char (fun h => hbody.1 h.symm) hc (ih (by omega) hbody.2 hstring)

lemma getString_text {string : List UInt8} (h : (getString t).string=some string) :
    ∃ body,t=body++(getString t).rest ∧ StringText body string := by
  rw [getString] at h ⊢
  dsimp only at h ⊢
  by_cases hend : currentChar (t.dropWhile fun c => c≠0 ∧ c≠0x3c)=0x3c
  · rw [if_neg (not_not.mpr hend)] at h ⊢
    obtain ⟨body,hbody⟩ : ∃ body,body=t.takeWhile fun c => c≠0 ∧ c≠0x3c := ⟨_,rfl⟩
    obtain ⟨r,hr⟩ : ∃ r,r=t.dropWhile fun c => c≠0 ∧ c≠0x3c := ⟨_,rfl⟩
    have ht : t=body++r := by rw [hbody,hr,takeWhile_append_dropWhile]
    rw [←hr] at h ⊢
    refine ⟨body,ht,?_⟩
    have hlength : t.length-r.length=body.length := by rw [ht,length_append,Nat.add_sub_cancel]
    rw [hlength] at h
    conv at h =>
      lhs
      rw [ht]
    refine copyString_text (r := r) (le_refl _) (fun hmem => ?_) h
    rw [hbody] at hmem
    have := all_eq_true.mp all_takeWhile _ hmem
    exact absurd this (by decide)
  · rw [if_pos hend] at h
    cases h

end Strings

/-! ### Numbers -/

section Numbers
variable {t : Text}

def numberDigits (t : Text) : ℕ × List UInt8 :=
  if currentChar t=0x30 ∧ currentChar (nextChar t)=0x78 then
    (16,(nextChar (nextChar t)).takeWhile isHexDigit)
  else (10,t.takeWhile isDigit)

def ShortNumber (t : Text) : Prop :=
  (numberDigits t).2≠[] ∧ ofDigits (numberDigits t).1 (numberDigits t).2<2^64

lemma getDigits_eq (isBaseDigit : UInt8 → Bool) (base n : ℕ) (t : Text) :
    getDigits isBaseDigit base (n%2^64) t =
      ((t.takeWhile isBaseDigit).foldl (fun n c => n*base+digitValue c) n%2^64,
        t.dropWhile isBaseDigit) := by
  induction t generalizing n with
  | nil => rfl
  | cons c t ih =>
    rw [getDigits,takeWhile_cons,dropWhile_cons]
    by_cases hc : isBaseDigit c=true
    · have hmod : (n%2^64*base+digitValue c)%2^64=(n*base+digitValue c)%2^64 :=
        Nat.ModEq.add_right _ (Nat.ModEq.mul_right _ (mod_modEq n _))
      rw [if_pos hc,if_pos hc,if_pos hc,foldl_cons,←ih,←hmod]
      rfl
    · rw [if_neg hc,if_neg hc,if_neg hc]
      rfl

lemma getDigits_zero (isBaseDigit : UInt8 → Bool) (base : ℕ) (t : Text) :
    getDigits isBaseDigit base 0 t =
      (ofDigits base (t.takeWhile isBaseDigit)%2^64,t.dropWhile isBaseDigit) :=
  getDigits_eq isBaseDigit base 0 t

lemma getNumber_text (h : ShortNumber t) :
    ∃ s,t=s++(getNumber t).2 ∧ NumberText s (getNumber t).1 ∧ (getNumber t).1<2^64 := by
  obtain ⟨hdigits,hshort⟩ := h
  rw [numberDigits] at hdigits hshort
  by_cases hhex : currentChar t=0x30 ∧ currentChar (nextChar t)=0x78
  · rw [if_pos hhex] at hdigits hshort
    dsimp only at hdigits hshort
    have ht := eq_cons_of_currentChar hhex.1 (by decide)
    have ht' := eq_cons_of_currentChar hhex.2 (by decide)
    rw [getNumber,if_neg (by rw [hhex.1]; decide),if_pos hhex.1,if_pos hhex.2,getDigits_zero,
      mod_eq_of_lt hshort]
    refine ⟨0x30::0x78::(nextChar (nextChar t)).takeWhile isHexDigit,?_,
      .hexadecimal hdigits fun c hc => all_eq_true.mp all_takeWhile _ hc,hshort⟩
    conv_lhs => rw [ht,ht']
    rw [cons_append,cons_append,takeWhile_append_dropWhile]
  · rw [if_neg hhex] at hdigits hshort
    dsimp only at hdigits hshort
    have hfirst : isDigit (currentChar t)=true := by
      cases t with
      | nil => exact absurd rfl hdigits
      | cons c t =>
        rw [takeWhile_cons] at hdigits
        by_contra hc
        exact hdigits (if_neg hc)
    have hnumber : getNumber t=(ofDigits 10 (t.takeWhile isDigit)%2^64,t.dropWhile isDigit) := by
      rw [getNumber,if_neg (by rw [hfirst]; decide)]
      by_cases hzero : currentChar t=0x30
      · have ht := eq_cons_of_currentChar hzero (by decide)
        rw [if_pos hzero,if_neg fun hx => hhex ⟨hzero,hx⟩,getDigits_zero]
        conv_rhs => rw [ht]
        rfl
      · rw [if_neg hzero,getDigits_zero]
    rw [hnumber,mod_eq_of_lt hshort]
    exact ⟨t.takeWhile isDigit,takeWhile_append_dropWhile.symm,
      .decimal hdigits fun c hc => all_eq_true.mp all_takeWhile _ hc,hshort⟩

end Numbers

/-! ### Data -/

section Data
variable {t r : Text}

lemma nibble_eq {c : UInt8} {n : ℕ} (h : nibble c=some n) : isHexDigit c ∧ n=digitValue c := by
  rw [nibble] at h
  rw [isHexDigit,digitValue]
  split_ifs at h ⊢ with hdigit halpha
  · exact ⟨by rw [hdigit]; rfl,(some_inj.mp h).symm⟩
  · exact ⟨by rw [halpha,Bool.or_true],(some_inj.mp h).symm⟩

lemma hexLoop_text {afterSpace : Bool} {bytes : List UInt8}
    (h : (hexLoop afterSpace t).1=some bytes) :
    ∃ s,t=s++(hexLoop afterSpace t).2 ∧ HexText s bytes := by
  fun_induction hexLoop afterSpace t generalizing bytes with
  | case1 => cases h
  | case2 =>
    obtain rfl := some_inj.mp h
    exact ⟨[],rfl,.nil⟩
  | case3 afterSpace c t hend hspace ih =>
    obtain ⟨s,hs,htext⟩ := ih h
    exact ⟨c::s,congrArg (c :: ·) hs,.blank (.inl hspace) htext⟩
  | case4 afterSpace t hend hspace ih =>
    obtain ⟨s,hs,htext⟩ := ih h
    exact ⟨0x0a::s,congrArg (0x0a :: ·) hs,.blank (.inr rfl) htext⟩
  | case5 => cases h
  | case6 => cases h
  | case7 => cases h
  | case8 afterSpace c hend hspace hline high c' t hhigh low hlow ih =>
    obtain ⟨bytes,hbytes,rfl⟩ := map_eq_some_iff.mp h
    obtain ⟨s,hs,htext⟩ := ih hbytes
    obtain ⟨hc,rfl⟩ := nibble_eq hhigh
    obtain ⟨hc',rfl⟩ := nibble_eq hlow
    exact ⟨c::c'::s,congrArg (fun s => c::c'::s) hs,.byte hc hc' htext⟩

def Adjacent (s : List UInt8) : Prop :=
  ∀ a b c,s=a++0x3d::c::b → isBlankChar c → 0x3d∉b

lemma and_seven_bits {c : UInt8} (h : c<0x80) : c&&&0x7f=c := by
  rw [←UInt8.toNat_inj,UInt8.toNat_and]
  have hmask := and_two_pow_sub_one_eq_mod c.toNat 7
  have hlt : c.toNat<128 := UInt8.lt_iff_toNat_lt.mp h
  rw [mod_eq_of_lt hlt] at hmask
  exact hmask

lemma encodedLoop_blank {bl : List UInt8} (h : ∀ c∈bl,isBlankChar c) (numeq acc cntr : ℕ)
    (t : Text) : encodedLoop numeq acc cntr (bl++t) =
      encodedLoop (if bl=[] then numeq else 0) acc cntr t := by
  induction bl generalizing numeq with
  | nil => rfl
  | cons c bl ih =>
    obtain ⟨hc,hbl⟩ := forall_mem_cons.mp h
    have hstep : encodedLoop numeq acc cntr (c::bl++t)=encodedLoop 0 acc cntr (bl++t) := by
      rw [isBlankChar,isSpace] at hc
      simp only [Bool.or_eq_true,decide_eq_true_iff] at hc
      rcases hc with ((rfl | rfl) | rfl) | rfl <;> rfl
    rw [hstep,ih hbl,ite_self,if_neg (cons_ne_nil _ _)]

lemma encodedLoop_digit {c : UInt8} (h : isBase64 c) (numeq acc cntr : ℕ) (t : Text) :
    encodedLoop numeq acc cntr (c::t) =
      let numeq := if c=0x3d then numeq+1 else 0
      let acc := (acc*64+(decodeTable c).getD 0)%2^32
      let others := encodedLoop numeq acc (cntr+1) t
      if (cntr+1)%4=0 then
        (others.1.map fun l => ofNat (acc/2^16) ::
          ((if numeq<2 then [ofNat (acc/2^8)] else []) ++
            (if numeq<1 then [ofNat acc] else [])++l),others.2)
      else others := by
  rw [isBase64,decide_eq_true_iff] at h
  obtain ⟨hlt,hsome⟩ := h
  obtain ⟨v,hv⟩ := isSome_iff_exists.mp hsome
  have hend : c≠0x3c := by
    rintro rfl
    exact absurd hsome (by decide)
  have hzero : c≠0 := by
    rintro rfl
    exact absurd hsome (by decide)
  rw [encodedLoop,if_neg hend]
  dsimp only
  rw [and_seven_bits hlt,if_neg hzero,hv]
  rfl

lemma decodeTable_lt (c : UInt8) : (decodeTable c).getD 0<64 := by
  have hle : ∀ {a b : UInt8},a≤b → a.toNat≤b.toNat := fun h => le_iff_toNat_le.mp h
  rw [decodeTable]
  split_ifs with h1 h2 h3 h4 h5 h6
  · decide
  · decide
  · rw [isDigit,decide_eq_true_iff] at h3
    have h9 : c.toNat≤0x39 := hle h3.2
    rw [getD_some]
    omega
  · decide
  · have h9 : c.toNat≤0x5a := hle h5.2
    rw [getD_some]
    omega
  · have h9 : c.toNat≤0x7a := hle h6.2
    rw [getD_some]
    omega
  · decide

lemma ofNat_eq_of_mod {m n : ℕ} (h : m%256=n%256) : UInt8.ofNat m=UInt8.ofNat n := by
  rw [←UInt8.toNat_inj,UInt8.toNat_ofNat',UInt8.toNat_ofNat']
  exact h

lemma encodedLoop_group {a b c d : UInt8} (hdigits : ∀ x ∈ [a,b,c,d],isBase64 x)
    (ha : a≠0x3d) (hb : b≠0x3d) {bl₀ bl₁ bl₂ bl₃ : List UInt8} (h₀ : ∀ x∈bl₀,isBlankChar x)
    (h₁ : ∀ x∈bl₁,isBlankChar x) (h₂ : ∀ x∈bl₂,isBlankChar x) (h₃ : ∀ x∈bl₃,isBlankChar x)
    (hc : c=0x3d → d=0x3d → bl₃=[]) (numeq acc : ℕ) {cntr : ℕ} (hcntr : cntr%4=0) (t : Text) :
    ∃ acc',
      encodedLoop numeq acc cntr (bl₀++a::(bl₁++b::(bl₂++c::(bl₃++d::t)))) =
      let numeq' := if d=0x3d then if c=0x3d then 2 else 1 else 0
      let others := encodedLoop numeq' acc' (cntr+4) t
      (others.1.map ((bytesOf a b c d).take (3-numeq') ++ ·),others.2) := by
  simp only [forall_mem_cons] at hdigits
  obtain ⟨hda,hdb,hdc,hdd,-⟩ := hdigits
  have hva := decodeTable_lt a
  have hvb := decodeTable_lt b
  have hvc := decodeTable_lt c
  have hvd := decodeTable_lt d
  rw [encodedLoop_blank h₀,encodedLoop_digit hda]
  dsimp only
  rw [if_neg ha,if_neg (by omega),encodedLoop_blank h₁,ite_self,encodedLoop_digit hdb]
  dsimp only
  rw [if_neg hb,if_neg (by omega),encodedLoop_blank h₂,ite_self,encodedLoop_digit hdc]
  dsimp only
  rw [if_neg (by omega),encodedLoop_blank h₃,encodedLoop_digit hdd]
  dsimp only
  rw [if_pos (by omega)]
  rw [bytesOf]
  dsimp only
  obtain ⟨va,hva'⟩ : ∃ va,va=(decodeTable a).getD 0 := ⟨_,rfl⟩
  obtain ⟨vb,hvb'⟩ : ∃ vb,vb=(decodeTable b).getD 0 := ⟨_,rfl⟩
  obtain ⟨vc,hvc'⟩ : ∃ vc,vc=(decodeTable c).getD 0 := ⟨_,rfl⟩
  obtain ⟨vd,hvd'⟩ : ∃ vd,vd=(decodeTable d).getD 0 := ⟨_,rfl⟩
  rw [←hva'] at hva ⊢
  rw [←hvb'] at hvb ⊢
  rw [←hvc'] at hvc ⊢
  rw [←hvd'] at hvd ⊢
  refine ⟨((((acc*64+va)%2^32*64+vb)%2^32*64+vc)%2^32*64+vd)%2^32,?_⟩
  have hhigh : ofNat (((((acc*64+va)%2^32*64+vb)%2^32*64+vc)%2^32*64+vd) %
      2^32/2^16)=ofNat ((2^18*va+2^12*vb+2^6*vc+vd)/2^16) :=
    ofNat_eq_of_mod (by omega)
  have hmiddle : ofNat (((((acc*64+va)%2^32*64+vb)%2^32*64+vc)%2^32*64 +
      vd)%2^32/2^8)=ofNat ((2^18*va+2^12*vb+2^6*vc+vd)/2^8) :=
    ofNat_eq_of_mod (by omega)
  have hlow : ofNat (((((acc*64+va)%2^32*64+vb)%2^32*64+vc)%2^32*64 +
      vd)%2^32)=ofNat (2^18*va+2^12*vb+2^6*vc+vd) :=
    ofNat_eq_of_mod (by omega)
  rw [hhigh,hmiddle,hlow]
  by_cases hd : d=0x3d
  · by_cases hcd : c=0x3d
    · rw [if_pos hd,if_pos hd,if_pos hcd,if_pos hcd,if_pos (hc hcd hd)]
      rfl
    · rw [if_pos hd,if_pos hd,if_neg hcd,if_neg hcd,ite_self]
      rfl
  · rw [if_neg hd,if_neg hd]
    rfl

lemma exists_of_filter_cons {s f : List UInt8} {x : UInt8}
    (h : s.filter (! isBlankChar ·)=x::f) :
    ∃ bl u,s=bl++x::u ∧ (∀ c∈bl,isBlankChar c) ∧ u.filter (! isBlankChar ·)=f := by
  obtain ⟨bl,u,hs,hbl,-,hu⟩ := filter_eq_cons_iff.mp h
  refine ⟨bl,u,hs,fun c hc => ?_,hu⟩
  have := hbl c hc
  rwa [Bool.not_eq_true',Bool.not_eq_false] at this

lemma encodedLoop_end {s : List UInt8} (h : s.filter (! isBlankChar ·)=[]) (numeq acc cntr : ℕ)
    (r : Text) : encodedLoop numeq acc cntr (s++0x3c::r)=(some [],0x3c::r) := by
  have hblank : ∀ c∈s,isBlankChar c := by
    intro c hc
    have := filter_eq_nil_iff.mp h c hc
    rwa [Bool.not_eq_true',Bool.not_eq_false] at this
  rw [encodedLoop_blank hblank,encodedLoop,if_pos rfl]

lemma encodedLoop_four {s f : List UInt8} {a b c d : UInt8} (hadj : Adjacent s)
    (hs : s.filter (! isBlankChar ·)=a::b::c::d::f) (hdigits : ∀ x ∈ [a,b,c,d],isBase64 x)
    (ha : a≠0x3d) (hb : b≠0x3d) :
    ∃ u,Adjacent u ∧ u.filter (! isBlankChar ·)=f ∧ ∀ numeq acc cntr r,cntr%4=0 → ∃ acc',
      encodedLoop numeq acc cntr (s++r) =
      let numeq' := if d=0x3d then if c=0x3d then 2 else 1 else 0
      let others := encodedLoop numeq' acc' (cntr+4) (u++r)
      (others.1.map ((bytesOf a b c d).take (3-numeq') ++ ·),others.2) := by
  obtain ⟨bl₀,s₁,rfl,h₀,hs₁⟩ := exists_of_filter_cons hs
  obtain ⟨bl₁,s₂,rfl,h₁,hs₂⟩ := exists_of_filter_cons hs₁
  obtain ⟨bl₂,s₃,rfl,h₂,hs₃⟩ := exists_of_filter_cons hs₂
  obtain ⟨bl₃,u,rfl,h₃,hu⟩ := exists_of_filter_cons hs₃
  refine ⟨u,fun x y z hxyz => hadj (bl₀++a::(bl₁++b::(bl₂++c::(bl₃++d::x)))) y z ?_,
    hu,fun numeq acc cntr r hcntr => ?_⟩
  · rw [hxyz]
    simp only [append_assoc,cons_append]
  · have hnone : c=0x3d → d=0x3d → bl₃=[] := by
      rintro rfl rfl
      cases bl₃ with
      | nil => rfl
      | cons x bl₃ =>
        refine absurd ?_ (hadj (bl₀++a::(bl₁++b::bl₂)) (bl₃++0x3d::u) x ?_ (h₃ x mem_cons_self))
        · simp
        · simp only [append_assoc,cons_append]
    obtain ⟨acc',hacc⟩ := encodedLoop_group hdigits ha hb h₀ h₁ h₂ h₃ hnone numeq acc hcntr (u++r)
    refine ⟨acc',?_⟩
    rw [←hacc]
    simp only [append_assoc,cons_append]

lemma encodedLoop_text {s bytes : List UInt8} (h : Base64Text s bytes) (hadj : Adjacent s)
    (numeq acc : ℕ) {cntr : ℕ} (hcntr : cntr%4=0) (r : Text) :
    encodedLoop numeq acc cntr (s++0x3c::r)=(some bytes,0x3c::r) := by
  obtain ⟨f,hf⟩ : ∃ f,s.filter (! isBlankChar ·)=f := ⟨_,rfl⟩
  rw [Base64Text,hf] at h
  induction h generalizing s numeq acc cntr with
  | nil => exact encodedLoop_end hf numeq acc cntr r
  | @three a b c d f bytes hdigits hbase ih =>
    have hd := hdigits d (by simp)
    obtain ⟨u,hu,huf,hrun⟩ := encodedLoop_four hadj hf (fun x hx => (hdigits x hx).1)
      (hdigits a (by simp)).2 (hdigits b (by simp)).2
    obtain ⟨acc',hacc⟩ := hrun numeq acc cntr (0x3c::r) hcntr
    rw [hacc]
    dsimp only
    rw [if_neg hd.2,ih hu 0 acc' (by omega) huf]
    rfl
  | @two a b c hdigits =>
    have hc := hdigits c (by simp)
    obtain ⟨u,-,huf,hrun⟩ := encodedLoop_four hadj hf
      (by simp only [forall_mem_cons] at hdigits ⊢
          exact ⟨hdigits.1.1,hdigits.2.1.1,hdigits.2.2.1.1,by decide,by simp⟩)
      (hdigits a (by simp)).2 (hdigits b (by simp)).2
    obtain ⟨acc',hacc⟩ := hrun numeq acc cntr (0x3c::r) hcntr
    rw [hacc]
    dsimp only
    rw [if_pos rfl,if_neg hc.2,encodedLoop_end huf,map_some,append_nil]
  | @one a b hdigits =>
    obtain ⟨u,-,huf,hrun⟩ := encodedLoop_four hadj hf
      (by simp only [forall_mem_cons] at hdigits ⊢
          exact ⟨hdigits.1.1,hdigits.2.1.1,by decide,by decide,by simp⟩)
      (hdigits a (by simp)).2 (hdigits b (by simp)).2
    obtain ⟨acc',hacc⟩ := hrun numeq acc cntr (0x3c::r) hcntr
    rw [hacc]
    dsimp only
    rw [if_pos rfl,if_pos rfl,encodedLoop_end huf,map_some,append_nil]

end Data

end Darwin.Libkern.UnserializeXML
