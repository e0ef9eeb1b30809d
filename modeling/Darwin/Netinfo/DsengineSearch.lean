import Darwin.Netinfo.DsengineRun

/-! The searches below a record. The two searchers differ in the test of a record only, which is
`dsrecord_match` or `dsfilter_test`. -/
open List
namespace Darwin.Netinfo
open Lib

variable {A P : Type} {s : Dsstore A}

section Source

def noMatch : ℕ := 2^32-1
def unlimited : ℕ := 2^32-1

/-- The array of matches, and `count`, which is their number or the first of them. -/
structure Found where
  matched : List ℕ
  count : ℕ
  deriving DecidableEq

def searchKids (findall : Bool) (f : ℕ → Found → Option (Found × DSStatus)) :
    List ℕ → Found → Option (Found × DSStatus)
  | [],out => some (out,.ok)
  | kid::kids,out => (f kid out).bind fun r =>
      if r.2≠.ok then some r
      else if ¬findall ∧ r.1.count≠noMatch then some r
      else searchKids findall f kids r.1

variable (test : Dsrecord A → Bool) (findall : Bool)

def searcher : ℕ → Dsstore A → ℕ → ℕ → ℕ → Found → Option (Found × DSStatus)
  | 0,_,_,_,_,_ => none
  | depth+1,s,dsid,scopemin,scopemax,out =>
    match s.get dsid with
    | none => some (out,.invalidPath)
    | some r =>
      let out := if findall then out else {out with count := noMatch}
      if scopemin=0 ∧ test r ∧ ¬findall then some ({out with count := dsid},.ok)
      else
        let out := if scopemin=0 ∧ test r then ⟨out.matched.take out.count++[dsid],out.count+1⟩
          else out
        let scopemin := if scopemin=0 then 0 else scopemin-1
        if scopemax=0 then some (out,.ok)
        else
          let x := if scopemax=unlimited then scopemax else scopemax-1
          searchKids findall (fun kid out => searcher depth s kid scopemin x out) r.sub out

/-- `_pattern_searcher`, with what `dsrecord_match` returns. -/
def patternSearcher (dsrecordMatch : Dsrecord A → P → ℕ) (pattern : P) :=
  searcher fun r => dsrecordMatch r pattern=1

/-- `_filter_searcher`, with what `dsfilter_test` returns; `L3True` is 1. -/
def filterSearcher (dsfilterTest : P → Dsrecord A → ℤ) (f : P) := searcher fun r => dsfilterTest f r=1

/-- `dsengine_search_pattern` and `dsengine_search_filter`. -/
def dsengineSearch (depth : ℕ) (s : Dsstore A) (dsid scopemin scopemax : ℕ) :
    Option (Found × DSStatus) := searcher test true depth s dsid scopemin scopemax ⟨[],0⟩

/-- `dsengine_find_pattern` and `dsengine_find_filter`, with what is in `match` before. -/
def dsengineFind (depth : ℕ) (s : Dsstore A) (dsid scopemin scopemax found : ℕ) :
    Option (Found × DSStatus) := searcher test false depth s dsid scopemin scopemax ⟨[],found⟩

end Source

section Preorder

/-- The ids of records and of all below them in preorder, with their depth. -/
inductive Preorder (s : Dsstore A) : ℕ → List ℕ → List (ℕ × ℕ) → Prop
  | nil (k : ℕ) : Preorder s k [] []
  | cons (k d : ℕ) (ds : List ℕ) (r : Dsrecord A) (below rest : List (ℕ × ℕ)) (hd : s.get d=some r)
    (hbelow : Preorder s (k+1) r.sub below) (hrest : Preorder s k ds rest) :
    Preorder s k (d::ds) ((d,k)::below++rest)

variable {k : ℕ} {ds : List ℕ} {l : List (ℕ × ℕ)}

lemma Preorder.le (h : Preorder s k ds l) : ∀ e∈l,k≤e.2 := by
  induction h with
  | nil => simp
  | cons k d ds r below rest hd hbelow hrest ihbelow ihrest =>
    intro e he
    rcases mem_append.mp he with he | he
    · rcases mem_cons.mp he with rfl | he
      · exact le_rfl
      · exact Nat.le_of_succ_le (ihbelow e he)
    · exact ihrest e he

/-- The record is tested, and passes, in a search from depth `k` on. -/
def Hit (test : Dsrecord A → Bool) (s : Dsstore A) (scopemin scopemax k : ℕ) (e : ℕ × ℕ) : Prop :=
  scopemin≤e.2-k ∧ (scopemax=unlimited ∨ e.2-k ≤ scopemax) ∧ (s.get e.1).any test

instance (test : Dsrecord A → Bool) (scopemin scopemax k : ℕ) :
    DecidablePred (Hit test s scopemin scopemax k) := fun _ => inferInstanceAs (Decidable (_ ∧ _))

def hits (test : Dsrecord A → Bool) (s : Dsstore A) (scopemin scopemax k : ℕ) (l : List (ℕ × ℕ)) :
    List ℕ := (l.filter (Hit test s scopemin scopemax k)).map Prod.fst

/-- What is put out for more hits. -/
def Found.add (findall : Bool) (out : Found) (hits : List ℕ) : Found :=
  if findall then ⟨out.matched++hits,out.count+hits.length⟩ else ⟨out.matched,hits.headD noMatch⟩

def Found.Good (findall : Bool) (out : Found) : Prop :=
  if findall then out.count=out.matched.length else out.count=noMatch

variable {test : Dsrecord A → Bool} {findall : Bool} {scopemin scopemax : ℕ}

lemma hits_cons {d : ℕ} {r : Dsrecord A} {below : List (ℕ × ℕ)} (hd : s.get d=some r)
    (hle : ∀ e∈below,k+1≤e.2) (hmax : scopemax<2^32) :
    hits test s scopemin scopemax k ((d,k)::below)=(if scopemin=0 ∧ test r then [d] else [])++
      if scopemax=0 then [] else hits test s (if scopemin=0 then 0 else scopemin-1)
        (if scopemax=unlimited then scopemax else scopemax-1) (k+1) below := by
  have hhead : Hit test s scopemin scopemax k (d,k) ↔ scopemin=0 ∧ test r := by simp [Hit,hd]
  have hbelow : hits test s scopemin scopemax k below=if scopemax=0 then [] else
      hits test s (if scopemin=0 then 0 else scopemin-1)
        (if scopemax=unlimited then scopemax else scopemax-1) (k+1) below := by
    rw [hits,hits]
    split_ifs with hzero
    · rw [map_eq_nil_iff,filter_eq_nil_iff]
      intro e he
      have hdepth := hle e he
      simp only [Hit,hzero,unlimited,decide_eq_true_eq]
      omega
    all_goals
      refine congrArg _ (filter_congr fun e he => decide_eq_decide.mpr ?_)
      have hdepth := hle e he
      simp only [Hit,unlimited] at *
      refine and_congr (by omega) (and_congr_left' (by omega))
  rw [←hbelow,hits,filter_cons,hits]
  by_cases hhit : scopemin=0 ∧ test r
  · rw [if_pos (decide_eq_true (hhead.mpr hhit)),if_pos hhit]
    rfl
  · rw [if_neg (by simpa using mt hhead.mp hhit),if_neg hhit]
    rfl

lemma searcher_record {d m : ℕ} {r : Dsrecord A} {below : List (ℕ × ℕ)} (hd : s.get d=some r)
    (hle : ∀ e∈below,k+1≤e.2) (hkids : ∀ scopemin scopemax out,scopemax<2^32 →
      Found.Good findall out → searchKids findall
        (fun kid out => searcher test findall m s kid scopemin scopemax out) r.sub out =
          some (out.add findall (hits test s scopemin scopemax (k+1) below),.ok))
    (hmax : scopemax<2^32) {out : Found} (hout : findall → out.count=out.matched.length) :
    searcher test findall (m+1) s d scopemin scopemax out =
      some (out.add findall (hits test s scopemin scopemax k ((d,k)::below)),.ok) := by
  have hx : (if scopemax=unlimited then scopemax else scopemax-1)<2^32 := by split_ifs <;> omega
  rw [searcher,hd,hits_cons hd hle hmax]
  dsimp only
  by_cases hhit : scopemin=0 ∧ test r
  · cases findall with
    | false => simp [hhit,Found.add]
    | true =>
      rw [if_neg (by simp),if_pos hhit,if_pos hhit,if_pos rfl,hout rfl,take_length]
      split_ifs with hzero
      · simp [Found.add,hout rfl]
      all_goals
        rw [hkids _ _ _ (by first | exact hx | omega) (by simp [Found.Good])]
        simp [Found.add,hout rfl,Nat.add_assoc,Nat.add_comm 1]
  · rw [if_neg (fun h => hhit ⟨h.1,h.2.1⟩),if_neg hhit,if_neg hhit,nil_append]
    have hgood : Found.Good findall (if findall then out else {out with count := noMatch}) := by
      cases findall with
      | false => rfl
      | true => exact hout rfl
    by_cases hzero : scopemax=0
    · rw [if_pos hzero,if_pos hzero]
      cases findall with
      | false => rfl
      | true => simp [Found.add]
    · rw [if_neg hzero,if_neg hzero,hkids _ _ _ hx hgood]
      cases findall with
      | false => rfl
      | true => rfl

lemma searchKids_cons {f : ℕ → Found → Option (Found × DSStatus)} {d : ℕ} {found more : List ℕ}
    {out : Found} (hfound : ∀ c∈found,c≠noMatch) (hout : Found.Good findall out)
    (hd : f d out=some (out.add findall found,.ok)) (hds : ∀ out,Found.Good findall out →
      searchKids findall f ds out=some (out.add findall more,.ok)) :
    searchKids findall f (d::ds) out=some (out.add findall (found++more),.ok) := by
  rw [searchKids,hd,Option.bind_some,if_neg (by simp)]
  cases findall with
  | true =>
    rw [if_neg (by simp),hds _ (by simpa [Found.Good,Found.add] using hout)]
    simp [Found.add,Nat.add_assoc]
  | false =>
    cases found with
    | nil =>
      rw [if_neg (by simp [Found.add]),hds (out.add false []) rfl]
      rfl
    | cons c cs =>
      have hc := hfound c mem_cons_self
      rw [if_pos (by simpa [Found.add] using hc)]
      rfl

lemma Preorder.get_ne_none (h : Preorder s k ds l) : ∀ e∈l,s.get e.1≠none := by
  induction h with
  | nil => simp
  | cons k d ds r below rest hd hbelow hrest ihbelow ihrest =>
    intro e he
    rcases mem_append.mp he with he | he
    · rcases mem_cons.mp he with rfl | he
      · simp [hd]
      · exact ihbelow e he
    · exact ihrest e he

variable (test findall) in
lemma searcher_preorder (hids : ∀ d,s.get d≠none → d<noMatch) (h : Preorder s k ds l) :
    ∃ n,∀ depth ≥ n,∀ scopemin scopemax out,scopemax<2^32 → Found.Good findall out →
      searchKids findall (fun kid out => searcher test findall depth s kid scopemin scopemax out) ds
        out=some (out.add findall (hits test s scopemin scopemax k l),.ok) := by
  induction h with
  | nil k =>
    refine ⟨0,fun depth _ scopemin scopemax out _ hout => ?_⟩
    cases findall with
    | true => simp [searchKids,hits,Found.add]
    | false => exact congrArg (fun c => some ((⟨out.matched,c⟩ : Found),DSStatus.ok)) hout
  | cons k d ds r below rest hd hbelow hrest ihbelow ihrest =>
    obtain ⟨n₁,h₁⟩ := ihbelow
    obtain ⟨n₂,h₂⟩ := ihrest
    refine ⟨max (n₁+1) n₂,fun depth hdepth scopemin scopemax out hmax hout => ?_⟩
    obtain ⟨m,rfl⟩ : ∃ m,depth=m+1 := ⟨depth-1,by omega⟩
    have hsplit : hits test s scopemin scopemax k ((d,k)::below++rest) =
        hits test s scopemin scopemax k ((d,k)::below)++hits test s scopemin scopemax k rest := by
      rw [hits,filter_append,map_append]
      rfl
    rw [hsplit]
    refine searchKids_cons (fun c hc => ?_) hout ?_ (h₂ (m+1) (by omega) scopemin scopemax · hmax)
    · obtain ⟨e,he,rfl⟩ := mem_map.mp hc
      refine Nat.ne_of_lt (hids _ ?_)
      exact (Preorder.cons k d ds r below rest hd hbelow hrest).get_ne_none e
        (mem_append_left _ (mem_filter.mp he).1)
    · refine searcher_record hd hbelow.le (h₁ m (by omega)) hmax fun hall => ?_
      rw [Found.Good,if_pos hall] at hout
      exact hout

end Preorder

section Trees

variable {k : ℕ} {ds : List ℕ} {l : List (ℕ × ℕ)} {rank : ℕ → ℕ}

lemma exists_preorder_of_forall (h : ∀ d∈ds,∃ l,Preorder s k [d] l) : ∃ l,Preorder s k ds l := by
  induction ds with
  | nil => exact ⟨[],.nil k⟩
  | cons d ds ih =>
    obtain ⟨rest,hrest⟩ := ih fun d hd => h d (mem_cons_of_mem _ hd)
    obtain ⟨l,hl⟩ := h d mem_cons_self
    cases hl with
    | cons _ _ _ r below rest' hd hbelow _ => exact ⟨_,.cons k d ds r below rest hd hbelow hrest⟩

lemma Ranked.exists_preorder (h : Ranked s rank) {b d : ℕ} (hb : Bounded s rank b) (k : ℕ)
    (hd : s.get d≠none) : ∃ l,Preorder s k [d] l := by
  induction hn : b-rank d using Nat.strong_induction_on generalizing k d with
  | _ n ih =>
    obtain ⟨r,hr⟩ := Option.ne_none_iff_exists'.mp hd
    obtain ⟨below,hbelow⟩ : ∃ l,Preorder s (k+1) r.sub l := by
      refine exists_preorder_of_forall fun c hc => ?_
      obtain ⟨hroot,rc,hget,hsuper⟩ := h.child d r c hr hc
      have hc' : s.get c≠none := by simp [hget]
      have hlt := hsuper▸h.lt c rc hget hroot
      have hle := hb c hc'
      exact ih _ (by omega) (k+1) hc' rfl
    exact ⟨_,.cons k d [] r below [] hr hbelow (.nil k)⟩

lemma Preorder.exists_below (h : Linked s) (hl : Preorder s k ds l) :
    ∀ e∈l,∃ d∈ds,Below s d e.1 := by
  induction hl with
  | nil => simp
  | cons k d ds r below rest hd hbelow hrest ihbelow ihrest =>
    intro e he
    rcases mem_append.mp he with he | he
    · refine ⟨d,mem_cons_self,?_⟩
      rcases mem_cons.mp he with rfl | he
      · exact .self r hd
      · obtain ⟨c,hc,hbelow⟩ := ihbelow e he
        obtain ⟨hroot,rc,hget,hsuper⟩ := h.child d r c hd hc
        exact hbelow.of_child hget hroot hd hsuper
    · obtain ⟨d',hd',hbelow⟩ := ihrest e he
      exact ⟨d',mem_cons_of_mem _ hd',hbelow⟩

lemma Preorder.mem_self (hl : Preorder s k ds l) : ∀ d∈ds,d∈l.map Prod.fst := by
  induction hl with
  | nil => simp
  | cons k d ds r below rest hd hbelow hrest ihbelow ihrest =>
    intro d' hd'
    rcases mem_cons.mp hd' with rfl | hd'
    · simp
    · rw [map_append]
      exact mem_append_right _ (ihrest d' hd')

lemma Preorder.closed (hl : Preorder s k ds l) : ∀ d∈l.map Prod.fst,∀ r,s.get d=some r →
    ∀ c∈r.sub,c∈l.map Prod.fst := by
  induction hl with
  | nil => simp
  | cons k d ds r below rest hd hbelow hrest ihbelow ihrest =>
    intro d' hd' r' hr' c hc
    rw [map_append] at hd' ⊢
    rcases mem_append.mp hd' with hd' | hd'
    · refine mem_append_left _ (mem_cons_of_mem _ ?_)
      rcases mem_cons.mp hd' with rfl | hd'
      · obtain rfl := Option.some.inj (hd.symm.trans hr')
        exact hbelow.mem_self c hc
      · exact ihbelow d' hd' r' hr' c hc
    · exact mem_append_right _ (ihrest d' hd' r' hr' c hc)

lemma Preorder.mem_iff (h : Linked s) {d : ℕ} (hl : Preorder s k [d] l) (c : ℕ) :
    c∈l.map Prod.fst ↔ Below s d c := by
  constructor
  · intro hc
    obtain ⟨e,he,rfl⟩ := mem_map.mp hc
    obtain ⟨d',hd',hbelow⟩ := hl.exists_below h e he
    rwa [mem_singleton.mp hd'] at hbelow
  · intro hc
    induction hc with
    | self r hd => exact hl.mem_self d mem_cons_self
    | child c r hc hroot hbelow ih =>
      obtain ⟨rp,hp,hsub⟩ := h.parent c r hc hroot
      exact hl.closed _ ih rp hp c hsub

lemma Below.linear {a b x : ℕ} (ha : Below s a x) (hb : Below s b x) : Below s a b ∨ Below s b a := by
  induction ha with
  | self r hr => exact .inr hb
  | child c r hc hroot ha ih =>
    cases hb with
    | self => exact .inl (.child _ r hc hroot ha)
    | child _ r' hr' _ hb =>
      obtain rfl := Option.some.inj (hc.symm.trans hr')
      exact ih hb

lemma Preorder.nodup (h : Ranked s rank) (hl : Preorder s k ds l) (hds : ds.Nodup)
    (hapart : ∀ d∈ds,∀ d'∈ds,Below s d d' → d=d') : (l.map Prod.fst).Nodup := by
  induction hl with
  | nil => simp
  | cons k d ds r below rest hd hbelow hrest ihbelow ihrest =>
    obtain ⟨hnot,hds⟩ := nodup_cons.mp hds
    have hlt : ∀ c∈r.sub,rank d<rank c := fun c hc => by
      obtain ⟨hroot,rc,hget,hsuper⟩ := h.child d r c hd hc
      exact hsuper▸h.lt c rc hget hroot
    have hkids := ihbelow (h.nodup d r hd) fun c hc c' hc' hcc' => by
      cases hcc' with
      | self => rfl
      | child _ r' hr' hroot hup =>
        obtain ⟨-,rc,hget,hsuper⟩ := h.child d r c' hd hc'
        obtain rfl := Option.some.inj (hget.symm.trans hr')
        have hle := h.rank_le hup
        rw [hsuper] at hle
        exact absurd (hlt c hc) (Nat.not_lt.mpr hle)
    have hself : d∉below.map Prod.fst := fun hmem => by
      obtain ⟨e,he,heq⟩ := mem_map.mp hmem
      obtain ⟨c,hc,hup⟩ := hbelow.exists_below h.toLinked e he
      have hle := h.rank_le hup
      rw [heq] at hle
      exact absurd (hlt c hc) (Nat.not_lt.mpr hle)
    have hrest' := ihrest hds fun a ha b hb =>
      hapart a (mem_cons_of_mem _ ha) b (mem_cons_of_mem _ hb)
    rw [map_append,nodup_append]
    refine ⟨nodup_cons.mpr ⟨hself,hkids⟩,hrest',?_⟩
    rintro c hc _ hc' rfl
    obtain ⟨e,he,rfl⟩ := mem_map.mp hc
    obtain ⟨e',he',heq⟩ := mem_map.mp hc'
    obtain ⟨d₁,hd₁,hup⟩ := (Preorder.cons k d [] r below [] hd hbelow (.nil k)).exists_below h.toLinked e
      (by simpa using he)
    obtain ⟨d₂,hd₂,hup'⟩ := hrest.exists_below h.toLinked e' he'
    rw [mem_singleton.mp hd₁] at hup
    rw [heq] at hup'
    have hd₂' := mem_cons_of_mem d hd₂
    rcases hup.linear hup' with hbb | hbb
    · exact hnot (hapart d mem_cons_self d₂ hd₂' hbb▸hd₂)
    · exact hnot (hapart d₂ hd₂' d mem_cons_self hbb▸hd₂)

variable {test : Dsrecord A → Bool}

lemma newStore_lt : ∀ d,(newStore ()).get d≠none → d<noMatch := by
  intro d hd
  rw [newStore,SortedMap.get_put] at hd
  by_cases h0 : d=0
  · rw [h0]
    decide
  · rw [if_neg h0] at hd
    exact absurd rfl hd

end Trees

end Darwin.Netinfo
