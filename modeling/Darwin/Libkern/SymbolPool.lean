import Mathlib.Data.UInt
import Mathlib.Tactic

/-! The pool of `OSSymbol.cpp`. Symbols are numbered; `chars` gives the string of each of them,
without its terminator. -/
open List Function
namespace Darwin.Libkern

/-- A bucket of no symbol, of one that is stored in place of the list, or of a list. -/
inductive Bucket
  | empty
  | single (sym : ℕ)
  | list (syms : List ℕ)

def Bucket.syms : Bucket → List ℕ
  | .empty => []
  | .single sym => [sym]
  | .list syms => syms

def hashLoop : ℕ → BitVec 32 → List UInt8 → BitVec 32
  | _,hash,[] => hash
  | shift,hash,c::s =>
    hashLoop ((shift+8)%32) (hash^^^(c.toBitVec.signExtend 32<<<shift)) s

def hashSymbol (s : List UInt8) : ℕ := (hashLoop 0 0 s).toNat

structure SymbolPool where
  nBuckets : ℕ
  count : ℕ
  buckets : ℕ → Bucket

namespace SymbolPool

def init : SymbolPool := ⟨31,0,fun _ => .empty⟩

def home (p : SymbolPool) (cString : List UInt8) : ℕ := hashSymbol cString%p.nBuckets

/-- The comparison of a probed symbol: lengths with the terminator, then `strcmp`. -/
def sameString (cString probe : List UInt8) : Bool :=
  cString.length+1 == probe.length+1 && probe == cString

section
variable (chars : ℕ → List UInt8)

def findSymbol (retainCount : ℕ → ℤ) (p : SymbolPool) (cString : List UInt8) : Option ℕ :=
  match p.buckets (p.home cString) with
  | .empty => none
  | .single probe =>
    if sameString cString (chars probe) && decide (1≤retainCount probe) then some probe else none
  | .list syms =>
    syms.find? fun probe => sameString cString (chars probe) && decide (1≤retainCount probe)

def setBucket (p : SymbolPool) (i : ℕ) (b : Bucket) (count : ℕ) : SymbolPool :=
  {p with buckets := update p.buckets i b,count := count}

/-- `insertSymbol` up to the test whether the pool has to grow: a namesake that is there
already, the pool, and whether the test is made. -/
def putSymbol (p : SymbolPool) (sym : ℕ) : Option ℕ × SymbolPool × Bool :=
  let cString := chars sym
  let i := p.home cString
  match p.buckets i with
  | .empty => (none,p.setBucket i (.single sym) (p.count+1),false)
  | .single probe =>
    if sameString cString (chars probe) then (some probe,p,false)
    else (none,p.setBucket i (.list [sym,probe]) (p.count+1),true)
  | .list syms =>
    match syms.find? fun probe => sameString cString (chars probe) with
    | some probe => (some probe,p,false)
    | none => (none,p.setBucket i (.list (sym::syms)) (p.count+1),true)

def hashStates (p : SymbolPool) : List ℕ :=
  (range p.nBuckets).reverse.flatMap fun i => (p.buckets i).syms.reverse

/-- All symbols go to about twice as many buckets, which are then more than the symbols. -/
def reconstructSymbols (p : SymbolPool) : SymbolPool :=
  p.hashStates.foldl (fun q sym => (putSymbol chars q sym).2.1)
    ⟨p.nBuckets+(p.nBuckets+1),0,fun _ => .empty⟩

def insertSymbol (p : SymbolPool) (sym : ℕ) : Option ℕ × SymbolPool :=
  match putSymbol chars p sym with
  | (found,p,test) =>
    (found,if test ∧ p.nBuckets<p.count then reconstructSymbols chars p else p)

def removeSymbol (p : SymbolPool) (cString : List UInt8) : SymbolPool :=
  let i := p.home cString
  match p.buckets i with
  | .empty => p
  | .single probe =>
    if sameString cString (chars probe) then p.setBucket i .empty (p.count-1) else p
  | .list [first,second] =>
    if sameString cString (chars first) then p.setBucket i (.single second) (p.count-1)
    else if sameString cString (chars second) then p.setBucket i (.single first) (p.count-1)
    else p
  | .list syms =>
    match syms.findIdx? fun probe => sameString cString (chars probe) with
    | none => p
    | some k => p.setBucket i (.list (syms.eraseIdx k)) (p.count-1)

end

/-! ### What a pool holds -/

def Mem (p : SymbolPool) (sym : ℕ) : Prop := ∃ i,i<p.nBuckets ∧ sym∈(p.buckets i).syms

/-- Every symbol is in the bucket of its string, and no two of a bucket have one string. -/
structure OK (chars : ℕ → List UInt8) (p : SymbolPool) : Prop where
  pos : 0<p.nBuckets
  home : ∀ i,i<p.nBuckets → ∀ sym,sym∈(p.buckets i).syms → p.home (chars sym)=i
  distinct : ∀ i,i<p.nBuckets → ((p.buckets i).syms.map chars).Nodup

lemma sameString_iff {cString probe : List UInt8} :
    sameString cString probe=true ↔ probe=cString := by
  rw [sameString,Bool.and_eq_true,beq_iff_eq,beq_iff_eq]
  exact ⟨fun h => h.2,fun h => ⟨by rw [h],h⟩⟩

lemma init_mem (x : ℕ) : ¬init.Mem x := by
  rintro ⟨i,-,hx⟩
  cases hx

namespace OK

variable {chars : ℕ → List UInt8} {p : SymbolPool}

lemma init (chars : ℕ → List UInt8) : OK chars SymbolPool.init :=
  ⟨by decide,fun _ _ _ hx => absurd hx not_mem_nil,fun _ _ => nodup_nil⟩

lemma home_lt (h : OK chars p) (s : List UInt8) : p.home s<p.nBuckets := Nat.mod_lt _ h.pos

lemma mem_iff (h : OK chars p) (sym : ℕ) :
    p.Mem sym ↔ sym∈(p.buckets (p.home (chars sym))).syms := by
  constructor
  · rintro ⟨i,hi,hmem⟩
    rwa [h.home i hi sym hmem]
  · exact fun hmem => ⟨_,h.home_lt _,hmem⟩

lemma unique (h : OK chars p) {x y : ℕ} (hx : p.Mem x) (hy : p.Mem y) (heq : chars x=chars y) :
    x=y := by
  rw [h.mem_iff] at hx hy
  rw [←heq] at hy
  exact inj_on_of_nodup_map (h.distinct _ (h.home_lt _)) hx hy heq

lemma congr (h : OK chars p) {chars' : ℕ → List UInt8}
    (hchars : ∀ x,p.Mem x → chars' x=chars x) : OK chars' p := by
  refine ⟨h.pos,fun i hi x hx => ?_,fun i hi => ?_⟩
  · rw [hchars x ⟨i,hi,hx⟩]
    exact h.home i hi x hx
  · rw [map_congr_left fun x hx => hchars x ⟨i,hi,hx⟩]
    exact h.distinct i hi

lemma setBucket (h : OK chars p) {i : ℕ} {b : Bucket} (count : ℕ)
    (hhome : ∀ sym,sym∈b.syms → p.home (chars sym)=i) (hdistinct : (b.syms.map chars).Nodup) :
    OK chars (p.setBucket i b count) := by
  refine ⟨h.pos,fun j hj sym hsym => ?_,fun j hj => ?_⟩
  · change sym∈(update p.buckets i b j).syms at hsym
    change p.home (chars sym)=j
    by_cases hji : j=i
    · rw [hji,update_self] at hsym
      rw [hji]
      exact hhome sym hsym
    · rw [update_of_ne hji] at hsym
      exact h.home j hj sym hsym
  · change ((update p.buckets i b j).syms.map chars).Nodup
    by_cases hji : j=i
    · rw [hji,update_self]
      exact hdistinct
    · rw [update_of_ne hji]
      exact h.distinct j hj

lemma mem_setBucket (h : OK chars p) {i : ℕ} {b : Bucket} (count : ℕ)
    (hi : i<p.nBuckets) (sym : ℕ) :
    (p.setBucket i b count).Mem sym ↔ sym∈b.syms ∨ p.Mem sym ∧ p.home (chars sym)≠i := by
  constructor
  · rintro ⟨j,hj,hmem⟩
    change j<p.nBuckets at hj
    change sym∈(update p.buckets i b j).syms at hmem
    by_cases hji : j=i
    · rw [hji,update_self] at hmem
      exact Or.inl hmem
    · rw [update_of_ne hji] at hmem
      exact Or.inr ⟨⟨j,hj,hmem⟩,(h.home j hj sym hmem).trans_ne hji⟩
  · rintro (hmem | ⟨hmem,hne⟩)
    · refine ⟨i,hi,?_⟩
      change sym∈(update p.buckets i b i).syms
      rwa [update_self]
    · rw [h.mem_iff] at hmem
      refine ⟨p.home (chars sym),h.home_lt _,?_⟩
      change sym∈(update p.buckets i b _).syms
      rwa [update_of_ne hne]

lemma findSymbol_some (h : OK chars p) {retainCount : ℕ → ℤ} {s : List UInt8} {sym : ℕ}
    (hfind : findSymbol chars retainCount p s=some sym) :
    p.Mem sym ∧ chars sym=s ∧ 1≤retainCount sym := by
  have hi := h.home_lt s
  rw [findSymbol] at hfind
  rcases hb : p.buckets (p.home s) with _ | probe | syms
  · rw [hb] at hfind
    cases hfind
  · simp only [hb] at hfind
    split_ifs at hfind with hsame
    cases hfind
    rw [Bool.and_eq_true,sameString_iff,decide_eq_true_eq] at hsame
    exact ⟨⟨_,hi,by rw [hb]; exact mem_singleton_self _⟩,hsame⟩
  · simp only [hb] at hfind
    have hsame := find?_some hfind
    rw [Bool.and_eq_true,sameString_iff,decide_eq_true_eq] at hsame
    exact ⟨⟨_,hi,by rw [hb]; exact mem_of_find?_eq_some hfind⟩,hsame⟩

lemma findSymbol_none (h : OK chars p) {retainCount : ℕ → ℤ} {s : List UInt8}
    (hfind : findSymbol chars retainCount p s=none) {sym : ℕ} (hmem : p.Mem sym)
    (hs : chars sym=s) : retainCount sym<1 := by
  rw [h.mem_iff,hs] at hmem
  rw [findSymbol] at hfind
  by_contra hge
  have hsame : (sameString s (chars sym) && decide (1≤retainCount sym))=true := by
    rw [Bool.and_eq_true,sameString_iff,decide_eq_true_eq]
    exact ⟨hs,not_lt.mp hge⟩
  rcases hb : p.buckets (p.home s) with _ | probe | syms
  · rw [hb] at hmem
    cases hmem
  · rw [hb] at hmem
    rw [mem_singleton.mp hmem] at hsame
    simp only [hb,if_pos hsame] at hfind
    cases hfind
  · rw [hb] at hmem
    simp only [hb] at hfind
    exact absurd hsame (find?_eq_none.mp hfind sym hmem)

lemma putSymbol_new (h : OK chars p) {sym : ℕ} (hnew : ∀ x,p.Mem x → chars x≠chars sym) :
    OK chars (putSymbol chars p sym).2.1 ∧
      ∀ x,(putSymbol chars p sym).2.1.Mem x ↔ x=sym ∨ p.Mem x := by
  have hi := h.home_lt (chars sym)
  -- one case for every bucket: the new one holds the symbol in front of the old ones
  have hput : ∀ (b : Bucket) (count : ℕ),
      b.syms=sym::(p.buckets (p.home (chars sym))).syms →
      OK chars (p.setBucket (p.home (chars sym)) b count) ∧
        ∀ x,(p.setBucket (p.home (chars sym)) b count).Mem x ↔ x=sym ∨ p.Mem x := by
    intro b count hb
    refine ⟨h.setBucket count (fun x hx => ?_) ?_,fun x => ?_⟩
    · rw [hb,mem_cons] at hx
      rcases hx with rfl | hx
      · rfl
      · exact h.home _ hi x hx
    · rw [hb,map_cons,nodup_cons]
      refine ⟨fun hmem => ?_,h.distinct _ hi⟩
      obtain ⟨x,hx,hchars⟩ := mem_map.mp hmem
      exact hnew x ⟨_,hi,hx⟩ hchars
    · rw [h.mem_setBucket count hi,hb,mem_cons]
      constructor
      · rintro ((hx | hx) | ⟨hx,-⟩)
        · exact Or.inl hx
        · exact Or.inr ⟨_,hi,hx⟩
        · exact Or.inr hx
      · rintro (hx | hx)
        · exact Or.inl (Or.inl hx)
        · by_cases hhome : p.home (chars x)=p.home (chars sym)
          · rw [h.mem_iff,hhome] at hx
            exact Or.inl (Or.inr hx)
          · exact Or.inr ⟨hx,hhome⟩
  have hdiffer : ∀ x,x∈(p.buckets (p.home (chars sym))).syms →
      ¬sameString (chars sym) (chars x)=true := fun x hx => by
    rw [sameString_iff]
    exact hnew x ⟨_,hi,hx⟩
  rw [putSymbol]
  rcases hb : p.buckets (p.home (chars sym)) with _ | probe | syms
  · exact hput (.single sym) _ (by rw [hb]; rfl)
  · rw [hb] at hdiffer
    simp only [if_neg (hdiffer probe (mem_singleton_self _))]
    exact hput (.list [sym,probe]) _ (by rw [hb]; rfl)
  · rw [hb] at hdiffer
    have hnone : syms.find? (fun probe => sameString (chars sym) (chars probe))=none :=
      find?_eq_none.mpr hdiffer
    simp only [hnone]
    exact hput (.list (sym::syms)) _ (by rw [hb]; rfl)

lemma mem_hashStates (p : SymbolPool) (x : ℕ) : x∈p.hashStates ↔ p.Mem x := by
  simp only [hashStates,mem_flatMap,mem_reverse,mem_range,Mem]

lemma nodup_hashStates (h : OK chars p) : (p.hashStates.map chars).Nodup := by
  refine List.Nodup.map_on (fun x hx y hy => ?_) ?_
  · rw [mem_hashStates] at hx hy
    exact h.unique hx hy
  · rw [hashStates,nodup_flatMap]
    refine ⟨fun i hi => ?_,?_⟩
    · rw [mem_reverse,mem_range] at hi
      exact nodup_reverse.mpr ((h.distinct i hi).of_map _)
    · refine (nodup_reverse.mpr nodup_range).pairwise_of_forall_ne fun i hi j hj hij => ?_
      rw [mem_reverse,mem_range] at hi hj
      intro x hxi hxj
      rw [mem_reverse] at hxi hxj
      exact hij ((h.home i hi x hxi).symm.trans (h.home j hj x hxj))

lemma foldl_putSymbol (syms : List ℕ) : ∀ {p : SymbolPool},OK chars p →
    (syms.map chars).Nodup → (∀ x,p.Mem x → chars x∉syms.map chars) →
    OK chars (syms.foldl (fun q sym => (putSymbol chars q sym).2.1) p) ∧
      ∀ x,(syms.foldl (fun q sym => (putSymbol chars q sym).2.1) p).Mem x ↔ x∈syms ∨ p.Mem x := by
  induction syms with
  | nil =>
    intro p h _ _
    exact ⟨h,fun x => by rw [foldl_nil]; simp only [not_mem_nil,false_or]⟩
  | cons sym syms ih =>
    intro p h hnodup hnew
    rw [map_cons,nodup_cons] at hnodup
    have hput := h.putSymbol_new fun x hx hchars =>
      hnew x hx (by rw [hchars]; exact mem_cons_self)
    have hrest := ih hput.1 hnodup.2 fun x hx hmem => by
      rcases (hput.2 x).mp hx with rfl | hx
      · exact hnodup.1 hmem
      · exact hnew x hx (mem_cons_of_mem _ hmem)
    refine ⟨hrest.1,fun x => ?_⟩
    rw [foldl_cons,hrest.2,hput.2,mem_cons,or_left_comm,or_assoc]

lemma reconstructSymbols_spec (h : OK chars p) : OK chars (reconstructSymbols chars p) ∧
      ∀ x,(reconstructSymbols chars p).Mem x ↔ p.Mem x := by
  have hempty : ∀ x,¬(⟨p.nBuckets+(p.nBuckets+1),0,fun _ => .empty⟩ : SymbolPool).Mem x := by
    rintro x ⟨i,-,hx⟩
    cases hx
  have hOK : OK chars ⟨p.nBuckets+(p.nBuckets+1),0,fun _ => .empty⟩ :=
    ⟨Nat.lt_of_lt_of_le h.pos (Nat.le_add_right _ _),fun _ _ _ hx => absurd hx not_mem_nil,
      fun _ _ => nodup_nil⟩
  have hspec := foldl_putSymbol p.hashStates hOK h.nodup_hashStates
    fun x hx => absurd hx (hempty x)
  refine ⟨hspec.1,fun x => (hspec.2 x).trans ?_⟩
  rw [mem_hashStates]
  exact or_iff_left (hempty x)

lemma insertSymbol_new (h : OK chars p) {sym : ℕ} (hnew : ∀ x,p.Mem x → chars x≠chars sym) :
    OK chars (insertSymbol chars p sym).2 ∧
      ∀ x,(insertSymbol chars p sym).2.Mem x ↔ x=sym ∨ p.Mem x := by
  have hput := h.putSymbol_new hnew
  rw [insertSymbol]
  rcases hq : putSymbol chars p sym with ⟨found,q,test⟩
  rw [hq] at hput
  dsimp only at hput ⊢
  split_ifs with htest
  · have hrec := hput.1.reconstructSymbols_spec
    exact ⟨hrec.1,fun x => (hrec.2 x).trans (hput.2 x)⟩
  · exact hput

lemma removeSymbol_spec (h : OK chars p) (s : List UInt8) : OK chars (removeSymbol chars p s) ∧
      ∀ x,(removeSymbol chars p s).Mem x ↔ p.Mem x ∧ chars x≠s := by
  have hi := h.home_lt s
  have hstay : (∀ x,x∈(p.buckets (p.home s)).syms → ¬sameString s (chars x)=true) →
      OK chars p ∧ ∀ y,p.Mem y ↔ p.Mem y ∧ chars y≠s := by
    refine fun hdiffer => ⟨h,fun y => ⟨fun hy => ⟨hy,fun hs => ?_⟩,fun hy => hy.1⟩⟩
    rw [h.mem_iff,hs] at hy
    exact hdiffer y hy (sameString_iff.mpr hs)
  have hput : ∀ (b : Bucket) (count x : ℕ),x∈(p.buckets (p.home s)).syms →
      sameString s (chars x)=true → b.syms=(p.buckets (p.home s)).syms.erase x →
      OK chars (p.setBucket (p.home s) b count) ∧
        ∀ y,(p.setBucket (p.home s) b count).Mem y ↔ p.Mem y ∧ chars y≠s := by
    intro b count x hmem hx hb
    rw [sameString_iff] at hx
    have hnodup := (h.distinct _ hi).of_map
    refine ⟨h.setBucket count (fun y hy => ?_) ?_,fun y => ?_⟩
    · rw [hb] at hy
      exact h.home _ hi y (mem_of_mem_erase hy)
    · rw [hb]
      exact (h.distinct _ hi).sublist (erase_sublist.map chars)
    · rw [h.mem_setBucket count hi,hb,hnodup.mem_erase_iff]
      constructor
      · rintro (⟨hne,hy⟩ | ⟨hy,hhome⟩)
        · exact ⟨⟨_,hi,hy⟩,fun hs => hne (h.unique ⟨_,hi,hy⟩ ⟨_,hi,hmem⟩ (hs.trans hx.symm))⟩
        · exact ⟨hy,fun hs => hhome (by rw [hs])⟩
      · rintro ⟨hy,hne⟩
        by_cases hhome : p.home (chars y)=p.home s
        · rw [h.mem_iff,hhome] at hy
          exact Or.inl ⟨fun hxy => hne (hxy▸hx),hy⟩
        · exact Or.inr ⟨hy,hhome⟩
  have hlist : ∀ syms : List ℕ,p.buckets (p.home s)=.list syms →
      OK chars (match syms.findIdx? fun probe => sameString s (chars probe) with
        | none => p
        | some k => p.setBucket (p.home s) (.list (syms.eraseIdx k)) (p.count-1)) ∧
      ∀ y,(match syms.findIdx? fun probe => sameString s (chars probe) with
        | none => p
        | some k => p.setBucket (p.home s) (.list (syms.eraseIdx k)) (p.count-1)).Mem y ↔
          p.Mem y ∧ chars y≠s := by
    intro syms hb
    rw [hb] at hstay hput
    rcases hk : syms.findIdx? (fun probe => sameString s (chars probe)) with _ | k
    · exact hstay fun x hx => by rw [findIdx?_eq_none_iff.mp hk x hx]; exact Bool.false_ne_true
    · obtain ⟨hlt,hsame,-⟩ := findIdx?_eq_some_iff_getElem.mp hk
      refine hput _ _ syms[k] (getElem_mem hlt) hsame ?_
      have hnodup := (h.distinct _ hi).of_map
      rw [hb] at hnodup
      exact (List.Nodup.erase_getElem hnodup k hlt).symm
  rw [removeSymbol]
  rcases hb : p.buckets (p.home s) with _ | probe | syms
  · rw [hb] at hstay
    exact hstay fun x hx => absurd hx not_mem_nil
  · rw [hb] at hstay hput
    dsimp only
    split_ifs with hsame
    · refine hput .empty _ probe (mem_singleton_self _) hsame ?_
      exact (erase_cons_head ..).symm
    · exact hstay fun x hx => by rwa [mem_singleton.mp hx]
  · match syms,hb with
    | [first,second],hb =>
      rw [hb] at hstay hput
      dsimp only
      split_ifs with hfirst hsecond
      · refine hput (.single second) _ first mem_cons_self hfirst ?_
        exact (erase_cons_head ..).symm
      · refine hput (.single first) _ second (mem_cons_of_mem _ mem_cons_self) hsecond ?_
        have hne : first≠second := fun hfs => hfirst (hfs▸hsecond)
        change [first]=[first,second].erase second
        rw [erase_cons_tail (by rwa [beq_iff_eq]),erase_cons_head]
      · refine hstay fun x hx => ?_
        rcases mem_cons.mp hx with rfl | hx
        · exact hfirst
        · rwa [mem_singleton.mp hx]
    | [],hb => exact hlist _ hb
    | [x],hb => exact hlist _ hb
    | x::y::z::syms,hb => exact hlist _ hb

end OK
end SymbolPool
end Darwin.Libkern
