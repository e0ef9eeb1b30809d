import Darwin.Libkern.SymbolPool

/-! Clients that make, share and release symbols. The pool's lock is held from `closeGate` to
`openGate`; retain and release do not take it. -/
open List Function Option Nat
namespace Darwin.Libkern

open SymbolPool

def osIncrement (n : ℤ) : ℤ := (n+1).bmod (2^32)

def osDecrement (n : ℤ) : ℤ := (n-1).bmod (2^32)

/-- A `withCString` that holds the lock, after its `findSymbol`. -/
structure SymbolLookup where
  client : ℕ
  cString : List UInt8
  newSymb : Option ℕ

/-- The symbols made so far are the numbers below `made`. A client and a symbol stand in `held`
once for every reference; `dying` are the symbols in `free` before its `removeSymbol`. -/
structure SymbolState where
  chars : ℕ → List UInt8
  retainCount : ℕ → ℤ
  made : ℕ
  pool : SymbolPool
  gate : Option SymbolLookup
  held : List (ℕ × ℕ)
  dying : List ℕ

inductive SymbolAction
  | closeGate (client : ℕ) (cString : List UInt8)
  | openGate (allocated : Bool)
  | retain (client other sym : ℕ)
  | release (client sym : ℕ)
  | free (sym : ℕ)

namespace SymbolState

def init : SymbolState := ⟨fun _ => [],fun _ => 0,0,.init,none,[],[]⟩

def addReference (s : SymbolState) (client sym : ℕ) : SymbolState :=
  { s with
    retainCount := update s.retainCount sym (osIncrement (s.retainCount sym))
    held := (client,sym)::s.held}

def dropReference (s : SymbolState) (client sym : ℕ) : SymbolState :=
  { s with
    retainCount := update s.retainCount sym (osDecrement (s.retainCount sym))
    held := s.held.erase (client,sym)
    dying := if s.retainCount sym≤1 then sym::s.dying else s.dying}

def newSymbol (s : SymbolState) (client : ℕ) (cString : List UInt8) : SymbolState :=
  let chars := update s.chars s.made cString
  { s with
    chars := chars
    retainCount := update s.retainCount s.made 1
    made := s.made+1
    pool := (insertSymbol chars s.pool s.made).2
    held := (client,s.made)::s.held}

def step (s : SymbolState) : SymbolAction → Option SymbolState
  | .closeGate client cString =>
    if s.gate.isNone then
      some { s with
        gate := some ⟨client,cString,findSymbol s.chars s.retainCount s.pool cString⟩}
    else none
  | .openGate allocated =>
    match s.gate with
    | none => none
    | some ⟨client,_,some newSymb⟩ => some {s.addReference client newSymb with gate := none}
    | some ⟨client,cString,none⟩ =>
      if allocated then some {s.newSymbol client cString with gate := none}
      else some {s with gate := none}
  | .retain client other sym =>
    if (client,sym)∈s.held then some (s.addReference other sym) else none
  | .release client sym =>
    if (client,sym)∈s.held then some (s.dropReference client sym) else none
  | .free sym =>
    if s.gate.isNone ∧ sym∈s.dying then
      some { s with
        pool := removeSymbol s.chars s.pool (s.chars sym)
        dying := s.dying.erase sym}
    else none

/-- One symbol a string in the pool, the symbols that clients hold are there, and clients that
hold symbols for equal strings hold the same one. -/
structure Shared (s : SymbolState) : Prop where
  unique : ∀ x y,s.pool.Mem x → s.pool.Mem y → s.chars x=s.chars y → x=y
  pooled : ∀ r,r∈s.held → s.pool.Mem r.2
  same : ∀ r,r∈s.held → ∀ r',r'∈s.held → s.chars r.2=s.chars r'.2 → r.2=r'.2

/-- When the code keeps its symbols unique: no lookup starts while a symbol of its string is
between its last release and its removal, a symbol that was just found is not dropped before it
is retained, and no reference count overflows. -/
def Careful (s : SymbolState) : SymbolAction → Prop
  | .closeGate _ cString => ∀ x,x∈s.dying → s.chars x≠cString
  | .openGate _ => ∀ l x,s.gate=some l → l.newSymb=some x → s.retainCount x<2^31-1
  | .retain _ _ sym => s.retainCount sym<2^31-1
  | .release _ sym =>
    s.retainCount sym≤1 → ∀ l,s.gate=some l → l.newSymb≠some sym
  | .free _ => True

/-- The states after any sequence of actions, each of which is careful. -/
inductive Run : SymbolState → Prop
  | init : Run init
  | step {s s' : SymbolState} (a : SymbolAction) (hrun : Run s) (hcareful : s.Careful a)
      (hstep : s.step a=some s') : Run s'

/-! ### The invariant -/

def refs (s : SymbolState) (x : ℕ) : ℕ := s.held.countP fun r => r.2 == x

lemma refs_pos {s : SymbolState} {x : ℕ} : 0<s.refs x ↔ ∃ client,(client,x)∈s.held := by
  rw [refs,countP_pos_iff]
  constructor
  · rintro ⟨⟨client,y⟩,hmem,hy⟩
    rw [beq_iff_eq] at hy
    exact ⟨client,hy▸hmem⟩
  · rintro ⟨client,hmem⟩
    exact ⟨_,hmem,beq_self_eq_true _⟩

/-- The pool is the symbols with references and the ones being freed. -/
structure Inv (s : SymbolState) : Prop where
  ok : OK s.chars s.pool
  count : ∀ x,s.retainCount x=s.refs x
  bound : ∀ x,s.refs x<2^31
  mem : ∀ x,s.pool.Mem x ↔ 0<s.refs x ∨ x∈s.dying
  dead : ∀ x,x∈s.dying → s.refs x=0
  nodup : s.dying.Nodup
  made : ∀ x,s.pool.Mem x → x<s.made
  found : ∀ l,s.gate=some l → ∀ x,l.newSymb=some x → 0<s.refs x
  missing : ∀ l,s.gate=some l → l.newSymb=none → ∀ x,s.pool.Mem x → s.chars x≠l.cString

lemma addReference_refs (s : SymbolState) (client sym x : ℕ) :
    (s.addReference client sym).refs x=s.refs x+if sym=x then 1 else 0 := by
  simp only [refs,addReference,countP_cons,beq_iff_eq]

lemma dropReference_refs {s : SymbolState} {client sym : ℕ} (hmem : (client,sym)∈s.held)
    (x : ℕ) : (s.dropReference client sym).refs x=s.refs x-if sym=x then 1 else 0 := by
  simp only [refs,dropReference,countP_erase,hmem,true_and,beq_iff_eq]

lemma osIncrement_eq {n : ℤ} (h0 : 0≤n) (h : n<2^31-1) : osIncrement n=n+1 := by
  rw [osIncrement]
  exact Int.bmod_eq_of_le_mul_two (by omega) (by omega)

lemma osDecrement_eq {n : ℤ} (h0 : 0<n) (h : n<2^31) : osDecrement n=n-1 := by
  rw [osDecrement]
  exact Int.bmod_eq_of_le_mul_two (by omega) (by omega)

namespace Inv

variable {s : SymbolState}

lemma openGate (h : Inv s) : Inv {s with gate := none} :=
  ⟨h.ok,h.count,h.bound,h.mem,h.dead,h.nodup,h.made,fun _ hl => absurd hl (some_ne_none _).symm,
    fun _ hl => absurd hl (some_ne_none _).symm⟩

lemma addReference (h : Inv s) (client : ℕ) {sym : ℕ} (hsym : 0<s.refs sym)
    (hlt : s.retainCount sym<2^31-1) : Inv (s.addReference client sym) := by
  have hrefs := s.addReference_refs client sym
  have hpos : ∀ x,0<(s.addReference client sym).refs x ↔ 0<s.refs x := fun x => by
    rw [hrefs]
    split_ifs with hx
    · exact ⟨fun _ => hx▸hsym,fun _ => succ_pos _⟩
    · exact Iff.rfl
  refine ⟨h.ok,fun x => ?_,fun x => ?_,fun x => ?_,fun x hx => ?_,h.nodup,h.made,fun l hl x hx => ?_,
    h.missing⟩
  · change update s.retainCount sym _ x=_
    rw [hrefs]
    split_ifs with hx
    · rw [←hx,update_self,osIncrement_eq (by rw [h.count]; omega) hlt,h.count]
      omega
    · rw [update_of_ne (Ne.symm hx),h.count]
      rfl
  · have hb := h.bound x
    have hc := h.count x
    rw [hrefs]
    split_ifs with hx
    · subst hx
      omega
    · exact hb
  · rw [hpos]
    exact h.mem x
  · have hzero := h.dead x hx
    have := hpos x
    omega
  · rw [hpos]
    exact h.found l hl x hx

lemma dropReference (h : Inv s) {client sym : ℕ} (hmem : (client,sym)∈s.held)
    (hgate : s.retainCount sym≤1 → ∀ l,s.gate=some l → l.newSymb≠some sym) :
    Inv (s.dropReference client sym) := by
  have hrefs := dropReference_refs hmem
  have hsym : 0<s.refs sym := refs_pos.mpr ⟨client,hmem⟩
  have hcount := h.count sym
  have hold : ∀ x,sym≠x → (s.dropReference client sym).refs x=s.refs x := fun x hx => by
    rw [hrefs,if_neg hx,Nat.sub_zero]
  have hself : (s.dropReference client sym).refs sym=s.refs sym-1 := by rw [hrefs,if_pos rfl]
  have hdying : ∀ x,x∈(s.dropReference client sym).dying ↔ x∈s.dying ∨ x=sym ∧ s.refs sym=1 := by
    intro x
    change x∈(if s.retainCount sym≤1 then sym::s.dying else s.dying) ↔ _
    split_ifs with hle
    · rw [mem_cons]
      have : s.refs sym=1 := by omega
      tauto
    · have : s.refs sym≠1 := by omega
      tauto
  refine ⟨h.ok,fun x => ?_,fun x => ?_,fun x => ?_,fun x hx => ?_,?_,h.made,fun l hl x hx => ?_,
    h.missing⟩
  · change update s.retainCount sym _ x=_
    by_cases hx : sym=x
    · have hb := h.bound sym
      rw [←hx,update_self,osDecrement_eq (by omega) (by omega),hself]
      omega
    · rw [update_of_ne (Ne.symm hx),hold x hx,h.count]
  · have hb := h.bound x
    have hx := hrefs x
    omega
  · change s.pool.Mem x ↔ _
    rw [h.mem,hdying]
    by_cases hx : sym=x
    · subst hx
      rw [hself]
      constructor
      · intro _
        by_cases hone : s.refs sym=1
        · exact Or.inr (Or.inr ⟨rfl,hone⟩)
        · exact Or.inl (by omega)
      · exact fun _ => Or.inl hsym
    · rw [hold x hx]
      exact or_congr_right ⟨Or.inl,fun hd => hd.resolve_right fun hd => hx hd.1.symm⟩
  · rcases (hdying x).mp hx with hx | ⟨rfl,hone⟩
    · have hzero := h.dead x hx
      have := hrefs x
      omega
    · rw [hself,hone]
  · change (if s.retainCount sym≤1 then sym::s.dying else s.dying).Nodup
    split_ifs with hle
    · refine nodup_cons.mpr ⟨fun hd => ?_,h.nodup⟩
      have := h.dead sym hd
      omega
    · exact h.nodup
  · have hpos := h.found l hl x hx
    by_cases hxs : sym=x
    · subst hxs
      have : ¬s.retainCount sym≤1 := fun hle => hgate hle l hl hx
      rw [hself]
      omega
    · rwa [hold x hxs]

lemma newSymbol (h : Inv s) (client : ℕ) {cString : List UInt8}
    (hnew : ∀ x,s.pool.Mem x → s.chars x≠cString) :
    Inv {s.newSymbol client cString with gate := none} := by
  have hfresh : ¬s.pool.Mem s.made := fun hm => lt_irrefl _ (h.made _ hm)
  have hzero : s.refs s.made=0 := by
    by_contra hne
    exact hfresh ((h.mem _).mpr (Or.inl (pos_of_ne_zero hne)))
  have hrefs : ∀ x,(s.newSymbol client cString).refs x=s.refs x+if s.made=x then 1 else 0 :=
    fun x => by simp only [refs,SymbolState.newSymbol,countP_cons,beq_iff_eq]
  have hchars : ∀ x,s.pool.Mem x → update s.chars s.made cString x=s.chars x :=
    fun x hx => update_of_ne (fun hxm : x=s.made => hfresh (hxm▸hx)) _ _
  have hself : update s.chars s.made cString s.made=cString := update_self ..
  have hdiffer : ∀ x,s.pool.Mem x → update s.chars s.made cString x ≠
      update s.chars s.made cString s.made := fun x hx => by
    rw [hchars x hx,hself]
    exact hnew x hx
  obtain ⟨hok,hmem⟩ := (h.ok.congr hchars).insertSymbol_new hdiffer
  refine ⟨hok,fun x => ?_,fun x => ?_,fun x => ?_,fun x hx => ?_,h.nodup,fun x hx => ?_,
    fun _ hl => absurd hl (some_ne_none _).symm,
    fun _ hl => absurd hl (some_ne_none _).symm⟩
  · change update s.retainCount s.made 1 x=((s.newSymbol client cString).refs x : ℤ)
    rw [hrefs]
    split_ifs with hx
    · rw [←hx,update_self,hzero]
      rfl
    · rw [update_of_ne (Ne.symm hx),h.count]
      rfl
  · have hb := h.bound x
    change (s.newSymbol client cString).refs x<_
    rw [hrefs]
    split_ifs with hx
    · rw [←hx,hzero]
      decide
    · exact hb
  · refine (hmem x).trans ?_
    change _ ↔ 0<(s.newSymbol client cString).refs x ∨ x∈s.dying
    rw [h.mem,hrefs]
    split_ifs with hx
    · exact ⟨fun _ => Or.inl (succ_pos _),fun _ => Or.inl hx.symm⟩
    · exact or_iff_right (Ne.symm hx)
  · have hx0 := h.dead x hx
    change (s.newSymbol client cString).refs x=0
    rw [hrefs,hx0,if_neg fun hxm : s.made=x => hfresh ((h.mem _).mpr (Or.inr (hxm▸hx)))]
  · rcases (hmem x).mp hx with rfl | hx
    · exact lt_succ_self _
    · exact lt_succ_of_lt (h.made x hx)

lemma closeGate (h : Inv s) (client : ℕ) {cString : List UInt8}
    (hdying : ∀ x,x∈s.dying → s.chars x≠cString) :
    Inv { s with
      gate := some ⟨client,cString,findSymbol s.chars s.retainCount s.pool cString⟩} := by
  refine ⟨h.ok,h.count,h.bound,h.mem,h.dead,h.nodup,h.made,fun l hl x hx => ?_,
    fun l hl hnone x hx => ?_⟩
  · cases hl
    have hcount := (h.ok.findSymbol_some hx).2.2
    rw [h.count] at hcount
    change 0<s.refs x
    omega
  · cases hl
    intro hchars
    have hcount := h.ok.findSymbol_none hnone hx hchars
    rw [h.count] at hcount
    rcases (h.mem x).mp hx with hpos | hd
    · omega
    · exact hdying x hd hchars

lemma free (h : Inv s) {sym : ℕ} (hgate : s.gate=none) (hsym : sym∈s.dying) :
    Inv { s with
      pool := removeSymbol s.chars s.pool (s.chars sym)
      dying := s.dying.erase sym} := by
  obtain ⟨hok,hmem⟩ := h.ok.removeSymbol_spec (s.chars sym)
  have hpool : s.pool.Mem sym := (h.mem sym).mpr (Or.inr hsym)
  refine ⟨hok,h.count,h.bound,fun x => (hmem x).trans ?_,
    fun x hx => h.dead x (mem_of_mem_erase hx),h.nodup.erase sym,
    fun x hx => h.made x ((hmem x).mp hx).1,fun l hl => ?_,fun l hl => ?_⟩
  · change _ ↔ 0<s.refs x ∨ x∈s.dying.erase sym
    rw [h.nodup.mem_erase_iff]
    constructor
    · rintro ⟨hx,hne⟩
      exact ((h.mem x).mp hx).imp_right fun hd => ⟨fun hxs => hne (by rw [hxs]),hd⟩
    · intro hx
      have hxpool : s.pool.Mem x := (h.mem x).mpr (hx.imp_right And.right)
      refine ⟨hxpool,fun hchars => ?_⟩
      have hxs := h.ok.unique hxpool hpool hchars
      rw [hxs,h.dead sym hsym] at hx
      exact hx.elim (lt_irrefl 0) fun hx => hx.1 rfl
  · change s.gate=_ at hl
    rw [hgate] at hl
    cases hl
  · change s.gate=_ at hl
    rw [hgate] at hl
    cases hl

end Inv

lemma Inv.step {s s' : SymbolState} (h : Inv s) {a : SymbolAction} (hcareful : s.Careful a)
    (hstep : s.step a=some s') : Inv s' := by
  cases a with
  | closeGate client cString =>
    simp only [SymbolState.step,ite_none_right_eq_some,some.injEq] at hstep
    rw [←hstep.2]
    exact h.closeGate client hcareful
  | openGate allocated =>
    rcases hgate : s.gate with _ | ⟨client,cString,newSymb⟩
    · simp only [SymbolState.step,hgate] at hstep
      cases hstep
    · cases newSymb with
      | some sym =>
        simp only [SymbolState.step,hgate,some.injEq] at hstep
        rw [←hstep]
        exact (h.addReference client (h.found _ hgate sym rfl) (hcareful _ sym hgate rfl)).openGate
      | none =>
        simp only [SymbolState.step,hgate] at hstep
        split_ifs at hstep
        · cases hstep
          exact h.newSymbol client (h.missing _ hgate rfl)
        · cases hstep
          exact h.openGate
  | retain client other sym =>
    simp only [SymbolState.step,ite_none_right_eq_some,some.injEq] at hstep
    rw [←hstep.2]
    exact h.addReference other (refs_pos.mpr ⟨client,hstep.1⟩) hcareful
  | release client sym =>
    simp only [SymbolState.step,ite_none_right_eq_some,some.injEq] at hstep
    rw [←hstep.2]
    exact h.dropReference hstep.1 hcareful
  | free sym =>
    simp only [SymbolState.step,ite_none_right_eq_some,some.injEq,isNone_iff_eq_none] at hstep
    rw [←hstep.2]
    exact h.free hstep.1.1 hstep.1.2

lemma Run.inv {s : SymbolState} (h : Run s) : Inv s := by
  induction h with
  | init =>
    refine ⟨OK.init _,fun _ => rfl,fun _ => Nat.two_pow_pos 31,fun x => ?_,
      fun _ hx => absurd hx not_mem_nil,nodup_nil,fun x hx => absurd hx (init_mem x),fun l hl => ?_,fun l hl => ?_⟩
    · refine ⟨fun hx => absurd hx (init_mem x),fun hx => ?_⟩
      exact hx.elim (fun hpos => absurd hpos (lt_irrefl 0)) fun hd => absurd hd not_mem_nil
    · cases hl
    · cases hl
  | step a _ hcareful hstep ih => exact ih.step hcareful hstep

lemma Inv.shared {s : SymbolState} (h : Inv s) : Shared s := by
  have hpooled : ∀ r,r∈s.held → s.pool.Mem r.2 := fun r hr =>
    (h.mem r.2).mpr (Or.inl (refs_pos.mpr ⟨r.1,hr⟩))
  exact ⟨fun _ _ hx hy => h.ok.unique hx hy,hpooled,
    fun r hr r' hr' => h.ok.unique (hpooled r hr) (hpooled r' hr')⟩

/-- As long as the actions are careful, clients share their symbols. -/
theorem run_shared {s : SymbolState} (h : Run s) : Shared s := h.inv.shared

def runActions (actions : List SymbolAction) : Option SymbolState :=
  actions.foldlM step init

/-- A symbol is released, its string is asked for again before it is removed from the pool, and
once more afterwards. -/
def droppedNamesake : List SymbolAction :=
  [.closeGate 0 [97],.openGate true,.release 0 0,.closeGate 1 [97],.openGate true,.free 0,
    .closeGate 2 [97],.openGate true]

/-- Two clients then hold different symbols for one string, and the pool knows one of them. -/
theorem droppedNamesake_not_shared : ∃ s,runActions droppedNamesake=some s ∧ ¬Shared s := by
  refine ⟨_,rfl,fun h => ?_⟩
  exact absurd (h.same (2,2) (by decide) (1,1) (by decide) (by decide)) (by decide)

/-- The same with the removal before the string is asked for again. -/
theorem run_shared_droppedSymbol :
    ∃ s,runActions [.closeGate 0 [97],.openGate true,.release 0 0,.free 0,.closeGate 1 [97],
      .openGate true]=some s ∧ Shared s := by
  have h1 : init.Careful (.closeGate 0 [97]) := fun x hx => absurd hx not_mem_nil
  refine ⟨_,rfl,run_shared ?_⟩
  refine .step (.openGate true) (.step (.closeGate 1 [97]) (.step (.free 0) (.step (.release 0 0)
    (.step (.openGate true) (.step (.closeGate 0 [97]) .init h1 rfl) ?_ rfl) ?_ rfl) ?_ rfl) ?_ rfl)
    ?_ rfl
  · rintro l x hl hx
    cases hl
    cases hx
  · rintro-l hl
    cases hl
  · trivial
  · exact fun x hx => absurd hx not_mem_nil
  · rintro l x hl hx
    cases hl
    cases hx

end SymbolState
end Darwin.Libkern
