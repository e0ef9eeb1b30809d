import Darwin.Netinfo.DsengineIndexOk
import Darwin.Netinfo.DsengineRun

/-! Matching among the children of a record: what reading them finds, the index that is built
meanwhile, and when an index answers the same. -/
open List Function Option
namespace Darwin.Netinfo
open Lib

variable {s : Engine} {store : Dsstore Attributes} {keys : List Dsdata} {key val : Dsdata}
  {x : Dsindex} {p : ℕ}

def childHas (store : Dsstore Attributes) (key val : Dsdata) (c : ℕ) : Bool :=
  (attributesOf store c).any fun at' => hasEqual at'.attributes key val

def firstChild (store : Dsstore Attributes) (sub : List ℕ) (key val : Dsdata) : Option ℕ :=
  sub.find? (childHas store key val)

/-- The children whose values under a key have the bytes of a value come after the first child with
an equal value, if the key is indexed. -/
def MatchFair (s : Engine) (p : ℕ) (key val : Dsdata) : Prop :=
  ∀ r x,s.store.get p=some r → s.index p=some x → HasKey x key →
    ∀ c∈r.sub,∀ at'∈attributesOf s.store c,HasValue at'.attributes key val.bytes →
      ∃ first≤c,firstChild s.store r.sub key val=some first

lemma hasEqual_iff {attributes : List Dsattribute} :
    hasEqual attributes key val=true ↔ ∃ a∈attributes,a.key=key ∧ val∈a.value := by
  simp [hasEqual]

lemma hasValue_of_hasEqual {attributes : List Dsattribute}
    (h : hasEqual attributes key val=true) : HasValue attributes key val.bytes := by
  obtain ⟨a,ha,hkey,hval⟩ := hasEqual_iff.mp h
  exact ⟨a,ha,hkey,val,hval,rfl⟩

lemma insertKeys_spec (h : IndexOk x) (keys : List Dsdata) :
    Extends x (keys.foldl dsindexInsertKey x) (fun k => k∈keys) fun _ _ _ => False := by
  induction keys generalizing x with
  | nil => exact ⟨h,fun k => by simp,fun k b c => by simp⟩
  | cons key keys ih =>
    have hfirst := insertKey_spec h key
    obtain ⟨hok,hkeys,hholds⟩ := hfirst.trans (ih hfirst.ok)
    exact ⟨hok,fun k => (hkeys k).trans (or_congr_right mem_cons.symm),
      fun k b c => (hholds k b c).trans (or_congr_right (or_self_iff))⟩

lemma indexChild_spec (h : IndexOk x) (keys : List Dsdata) (attributes : List Dsattribute) (c : ℕ) :
    Extends x (indexChild keys x attributes c) (fun k => k∈keys ∧ ∃ a∈attributes,a.key=k)
      fun k b c' => k∈keys ∧ HasValue attributes k b ∧ c'=c := by
  induction attributes generalizing x with
  | nil => exact ⟨h,fun k => by simp [indexChild],fun k b c' => by simp [indexChild,HasValue]⟩
  | cons a attributes ih =>
    rw [indexChild,foldl_cons]
    by_cases ha : a.key∈keys
    · rw [if_pos ha]
      have hfirst := insertAttribute_spec h a c
      obtain ⟨hok,hkeys,hholds⟩ := hfirst.trans (ih hfirst.ok)
      refine ⟨hok,fun k => (hkeys k).trans (or_congr_right ?_),
        fun k b c' => (hholds k b c').trans (or_congr_right ?_)⟩
      · rw [exists_mem_cons_iff]
        constructor
        · rintro (rfl | ⟨hk,hrest⟩)
          · exact ⟨ha,.inl rfl⟩
          · exact ⟨hk,.inr hrest⟩
        · rintro ⟨hk,rfl | hrest⟩
          · exact .inl rfl
          · exact .inr ⟨hk,hrest⟩
      · simp only [HasValue,exists_mem_cons_iff]
        constructor
        · rintro (⟨rfl,hv,rfl⟩ | ⟨hk,hrest,rfl⟩)
          · exact ⟨ha,.inl ⟨rfl,hv⟩,rfl⟩
          · exact ⟨hk,.inr hrest,rfl⟩
        · rintro ⟨hk,⟨rfl,hv⟩ | hrest,rfl⟩
          · exact .inl ⟨rfl,hv,rfl⟩
          · exact .inr ⟨hk,hrest,rfl⟩
    · rw [if_neg ha]
      obtain ⟨hok,hkeys,hholds⟩ := ih h
      refine ⟨hok,fun k => (hkeys k).trans (or_congr_right (and_congr_right fun hk => ?_)),
        fun k b c' => (hholds k b c').trans (or_congr_right (and_congr_right fun hk => ?_))⟩
      · rw [exists_mem_cons_iff,or_iff_right fun heq : a.key=k => ha (heq▸hk)]
      · simp only [HasValue,exists_mem_cons_iff]
        rw [or_iff_right (a := a.key=k ∧ _) fun heq => ha (heq.1▸hk)]

lemma matchLoop_spec {cs : List ℕ} (h : IndexOk x) (keys : List Dsdata) (key val : Dsdata)
    (found : Option ℕ)
    (hcs : ∀ c∈cs,attributesOf store c≠none) : ∃ x',matchLoop store keys key val cs x found =
        (x',.ok,found.or (firstChild store cs key val)) ∧
      Extends x x' (fun k => k∈keys ∧ ∃ c∈cs,∃ at'∈attributesOf store c,
          ∃ a∈at'.attributes,a.key=k)
        fun k b c => k∈keys ∧ c∈cs ∧ ∃ at'∈attributesOf store c,
          HasValue at'.attributes k b := by
  induction cs generalizing x found with
  | nil => exact ⟨x,by simp [matchLoop,firstChild],h,fun k => by simp,fun k b c => by simp⟩
  | cons c cs ih =>
    have hpresent := hcs c mem_cons_self
    cases hc : store.get c with
    | none => exact absurd (by rw [attributesOf,hc,map_none]) hpresent
    | some kid =>
      have hat : attributesOf store c=some kid.attributes := attributesOf_eq hc
      have hfirst := indexChild_spec h keys kid.attributes.attributes c
      obtain ⟨x',hrun,hrest⟩ := ih hfirst.ok
        (if found=none ∧ hasEqual kid.attributes.attributes key val then some c else found)
        fun c hc => hcs c (mem_cons_of_mem _ hc)
      obtain ⟨hok,hkeys,hholds⟩ := hfirst.trans hrest
      refine ⟨x',?_,hok,fun k => (hkeys k).trans (or_congr_right ?_),
        fun k b c' => (hholds k b c').trans (or_congr_right ?_)⟩
      · rw [matchLoop,hc]
        dsimp only
        rw [hrun,firstChild,firstChild,find?_cons]
        have hhas : childHas store key val c=hasEqual kid.attributes.attributes key val := by
          rw [childHas,hat,any_some]
        rw [hhas]
        cases found with
        | some f => simp
        | none => cases hasEqual kid.attributes.attributes key val <;> simp
      · rw [exists_mem_cons_iff,hat,and_or_left]
        simp only [mem_some_iff,exists_eq_left']
      · rw [mem_cons,or_and_right,and_or_left]
        refine or_congr_left (and_congr_right fun _ => ⟨?_,?_⟩)
        · rintro ⟨hvalue,rfl⟩
          exact ⟨rfl,kid.attributes,hat,hvalue⟩
        · rintro ⟨rfl,at',hat',hvalue⟩
          rw [hat] at hat'
          cases hat'
          exact ⟨hvalue,rfl⟩

section Answers

variable {r : Dsrecord Attributes}

lemma childHas_iff {c : ℕ} : childHas store key val c=true ↔
    ∃ at'∈attributesOf store c,hasEqual at'.attributes key val=true := by
  rw [childHas,Option.any_eq_true]
  exact Iff.rfl

lemma Good.present (h : Good s) (hp : s.store.get p=some r) :
    ∀ c∈r.sub,attributesOf s.store c≠none := fun c hc hnone => by
  have hsuper := h.child p r c hp hc
  rw [attributesOf,map_eq_none_iff] at hnone
  rw [superOf,hnone,map_none] at hsuper
  cases hsuper

lemma Complete.built {sub : List ℕ}
    (h : Extends (keys.foldl dsindexInsertKey []) x
      (fun k => k∈keys ∧ ∃ c∈sub,∃ at'∈attributesOf store c,
        ∃ a∈at'.attributes,a.key=k)
      fun k b c => k∈keys ∧ c∈sub ∧ ∃ at'∈attributesOf store c,
        HasValue at'.attributes k b) : Complete store sub x := by
  have hnil : IndexOk [] := ⟨nodup_nil,fun _ h => absurd h not_mem_nil⟩
  obtain ⟨-,hkeys,hholds⟩ := insertKeys_spec hnil keys
  have hempty : ∀ k,¬HasKey [] k := fun k hk => by
    obtain ⟨kx,hkx,-⟩ := hk
    cases hkx
  refine ⟨h.ok,fun k hk b c => ?_⟩
  have hin : k∈keys := by
    rcases (h.keys k).mp hk with hk | hk
    · exact ((hkeys k).mp hk).resolve_left (hempty k)
    · exact hk.1
  rw [h.holds,hholds,or_false,and_iff_right hin]
  exact or_iff_right fun hold => hempty k hold.hasKey

lemma dsstoreMatch_scan (h : Good s) (hp : s.store.get p=some r)
    (hnone : (s.index p).bind (fun x => dsindexLookupKey x key)=none) :
    (s.dsstoreMatch p key val).2=(.ok,firstChild s.store r.sub key val) ∧
      Good (s.dsstoreMatch p key val).1 := by
  rw [Engine.dsstoreMatch,hp]
  dsimp only
  by_cases hsub : r.sub=[]
  · rw [if_pos hsub,hsub]
    exact ⟨rfl,h⟩
  rw [if_neg hsub,hnone]
  have hnil : IndexOk [] := ⟨nodup_nil,fun _ h => absurd h not_mem_nil⟩
  obtain ⟨x',hrun,hextends⟩ := matchLoop_spec
    (insertKeys_spec hnil (indexKeys r)).ok (indexKeys r) key val none (h.present hp)
  dsimp only
  rw [hrun]
  refine ⟨by rw [none_or],h.child,h.nodup,fun q x hx => ?_⟩
  change update s.index p (some x') q=some x at hx
  rw [update_apply] at hx
  split_ifs at hx with hqp
  · cases hx
    exact ⟨r,hqp▸hp,.built hextends⟩
  · exact h.index q x hx

lemma Good.dsstoreMatch (h : Good s) (p : ℕ) (key val : Dsdata) :
    Good (s.dsstoreMatch p key val).1 := by
  cases hp : s.store.get p with
  | none =>
    rw [Engine.dsstoreMatch,hp]
    exact h
  | some r =>
    cases hx : (s.index p).bind fun x => dsindexLookupKey x key with
    | none => exact (dsstoreMatch_scan h hp hx).2
    | some kx =>
      rw [Engine.dsstoreMatch,hp]
      dsimp only
      rw [hx]
      split_ifs
      · exact h
      · exact h

lemma Good.evict (h : Good s) (d : ℕ) : Good (s.setIndex d none) := by
  refine ⟨h.child,h.nodup,fun q x hx => ?_⟩
  change update s.index d none q=some x at hx
  rw [update_apply] at hx
  split_ifs at hx
  exact h.index q x hx

lemma answer_iff {sub : List ℕ} {answer : Option ℕ} (h : Complete store sub x)
    (hkey : HasKey x key)
    (hsome : ∀ c,answer=some c → Holds x key val.bytes c ∧ ∀ c',Holds x key val.bytes c' → c≤c')
    (hnone : answer=none → ∀ c,¬Holds x key val.bytes c) :
    (DSStatus.ok,answer)=(DSStatus.ok,firstChild store sub key val) ↔
      ∀ c,Holds x key val.bytes c → ∃ first≤c,firstChild store sub key val=some first := by
  have hfirst : ∀ first,firstChild store sub key val=some first → Holds x key val.bytes first := by
    intro first hf
    obtain ⟨at',hat,heq⟩ := childHas_iff.mp (find?_some hf)
    exact (h.holds key hkey val.bytes first).mpr
      ⟨mem_of_find?_eq_some hf,at',hat,hasValue_of_hasEqual heq⟩
  rw [Prod.mk.injEq,and_iff_right rfl]
  constructor
  · intro heq c hc
    cases hanswer : answer with
    | none => exact absurd hc (hnone hanswer c)
    | some a => exact ⟨a,(hsome a hanswer).2 c hc,heq.symm.trans hanswer⟩
  · intro hfair
    cases hanswer : answer with
    | none =>
      cases hf : firstChild store sub key val with
      | none => rfl
      | some first => exact absurd (hfirst first hf) (hnone hanswer first)
    | some a =>
      obtain ⟨hholds,hleast⟩ := hsome a hanswer
      obtain ⟨first,hle,hf⟩ := hfair a hholds
      rw [hf,le_antisymm (hleast first (hfirst first hf)) hle]

lemma dsstoreMatch_iff (h : Good s) (p : ℕ) (key val : Dsdata) :
    (s.dsstoreMatch p key val).2=((s.setIndex p none).dsstoreMatch p key val).2 ↔
      MatchFair s p key val := by
  cases hp : s.store.get p with
  | none =>
    have hp' : (s.setIndex p none).store.get p=none := hp
    rw [Engine.dsstoreMatch,Engine.dsstoreMatch,hp,hp']
    exact iff_of_true rfl fun r x hr => absurd (hp.symm.trans hr) (some_ne_none r).symm
  | some r =>
    have hscan : ((s.setIndex p none).dsstoreMatch p key val).2 =
        (.ok,firstChild s.store r.sub key val) := by
      refine (dsstoreMatch_scan (h.evict p) hp ?_).1
      have hgone : (s.setIndex p none).index p=none :=
        (update_apply s.index p none p).trans (if_pos rfl)
      rw [hgone,bind_none]
    rw [hscan]
    cases hx : (s.index p).bind fun x => dsindexLookupKey x key with
    | none =>
      refine iff_of_true (dsstoreMatch_scan h hp hx).1 fun r x _ hindex hkey => ?_
      rw [hindex,bind_some,lookupKey_none] at hx
      exact absurd hkey hx
    | some kx =>
      obtain ⟨x,hindex,hkx⟩ := Option.bind_eq_some_iff.mp hx
      obtain ⟨r',hr',hcomplete⟩ := h.index p x hindex
      cases hp.symm.trans hr'
      have hkey : HasKey x key := by
        by_contra hnot
        rw [lookupKey_none.mpr hnot] at hkx
        cases hkx
      have hfair : MatchFair s p key val ↔ ∀ c,Holds x key val.bytes c →
          ∃ first≤c,firstChild s.store r.sub key val=some first := by
        constructor
        · intro hfair c hc
          obtain ⟨hmem,at',hat,hvalue⟩ := (hcomplete.holds key hkey val.bytes c).mp hc
          exact hfair r x hp hindex hkey c hmem at' hat hvalue
        · intro hholds q y hq hy _ c hc at' hat hvalue
          cases hp.symm.trans hq
          cases hindex.symm.trans hy
          exact hholds c ((hcomplete.holds key hkey val.bytes c).mpr ⟨hc,at',hat,hvalue⟩)
      rw [Engine.dsstoreMatch,hp,hfair]
      dsimp only
      rw [hx]
      by_cases hsub : r.sub=[]
      · rw [if_pos hsub,hsub]
        refine iff_of_true rfl fun c hc => ?_
        obtain ⟨hmem,-⟩ := (hcomplete.holds key hkey val.bytes c).mp hc
        rw [hsub] at hmem
        cases hmem
      rw [if_neg hsub]
      obtain ⟨hsome,hnone⟩ := lookup_spec hcomplete.ok hkx val
      exact answer_iff hcomplete hkey hsome hnone

end Answers

end Darwin.Netinfo

/-! Runs of the engine on a store, with matches in between that build indexes, and records that
leave the cache. -/
namespace Darwin.Netinfo
open Lib

/-- An operation, or a record leaves the cache. -/
inductive IndexEvent
  | create (r : Dsrecord Attributes) (p : ℕ)
  | save (d : ℕ) (r : Dsrecord Attributes) (same : Bool)
  | remove (d : ℕ)
  | move (d p : ℕ)
  | dsstoreMatch (p : ℕ) (key val : Dsdata)
  | evict (d : ℕ)

def Engine.Does (s : Engine) : IndexEvent → Engine → Prop
  | .create r p,s' => s'=s.create r p
  | .save d r same,s' => s'=s.save d r same
  | .remove d,s' => ∃ depth removed,Engine.remove depth s d=some removed ∧ s'=removed.1
  | .move d p,s' => s'=s.move d p
  | .dsstoreMatch p key val,s' => s'=(s.dsstoreMatch p key val).1
  | .evict d,s' => s'=s.setIndex d none

/-- The condition on an event. A new record has no children, and a record is saved with its parent
and children; where the parent has an index, it takes the record as a child, and its index takes the
keys. -/
def Engine.Fair (s : Engine) : IndexEvent → Prop
  | .create r p => r.sub=[] ∧ ∀ rp,s.store.get p=some rp → ∀ x∈s.index p,
      TakesSub p rp s.store.fresh ∧ TakesKeys s.store rp.sub x r.attributes.attributes s.store.fresh
  | .save d r same => (∀ rd,s.store.get d=some rd → r.super=rd.super ∧ r.sub=rd.sub) ∧
      ∀ rd rp,s.store.get d=some rd → s.store.get rd.super=some rp →
        ¬(rd.super=d ∧ same=false) → ∀ x∈s.index rd.super,
          d∈rp.sub ∧ TakesKeys s.store rp.sub x r.attributes.attributes d
  | .move d p => ∀ rd rp,s.store.get d=some rd → s.store.get p=some rp → ∀ x∈s.index p,
      TakesSub p rp d ∧ TakesKeys s.store rp.sub x rd.attributes.attributes d
  | .remove _ | .dsstoreMatch _ _ _ | .evict _ => True

/-- The states of runs whose events meet a condition. -/
inductive IndexRun (condition : Engine → IndexEvent → Prop) (start : Engine) : Engine → Prop
  | start : IndexRun condition start start
  | step {s s' : Engine} {e : IndexEvent} (run : IndexRun condition start s)
      (fair : condition s e) (does : s.Does e s') : IndexRun condition start s'

/-- A store whose records name the parents that list them, and no record has an index yet. -/
structure Opened (s : Engine) : Prop where
  child : ∀ q r c,s.store.get q=some r → c∈r.sub → superOf s.store c=some q
  nodup : ∀ q r,s.store.get q=some r → r.sub.Nodup
  index : ∀ q,s.index q=none

lemma Good.step {s s' : Engine} {e : IndexEvent} (h : Good s) (hfair : s.Fair e) (hdoes : s.Does e s') : Good s' := by
  cases e with
  | create r p =>
    cases hdoes
    exact h.create hfair.1 hfair.2
  | save d r same =>
    cases hdoes
    exact h.save hfair.1 hfair.2
  | remove d =>
    obtain ⟨depth,removed,hremoved,rfl⟩ := hdoes
    exact h.remove hremoved
  | move d p =>
    cases hdoes
    exact h.move hfair
  | dsstoreMatch p key val =>
    cases hdoes
    exact h.dsstoreMatch p key val
  | evict d =>
    cases hdoes
    exact h.evict d

lemma IndexRun.good {start s : Engine} (h : IndexRun Engine.Fair start s) (hstart : Opened start) : Good s := by
  induction h with
  | start =>
    refine ⟨hstart.child,hstart.nodup,fun q x hx => ?_⟩
    rw [hstart.index] at hx
    cases hx
  | step run fair does ih => exact ih.step fair does

/-- The call of the engine without indexes, if the event is one. -/
def IndexEvent.call : IndexEvent → Option (EngineCall Attributes)
  | .create r p => some (.create r p)
  | .save d r _ => some (.save d r)
  | .remove d => some (.remove d)
  | .move d p => some (.move d p)
  | .dsstoreMatch _ _ _ | .evict _ => none

lemma Engine.Does.store {s s' : Engine} {e : IndexEvent} (h : s.Does e s') :
    match e.call with
    | some call => ∃ depth status,call.perform true depth s.store=some (s'.store,status)
    | none => s'.store=s.store := by
  cases e with
  | create r p =>
    cases h
    exact ⟨0,_,congrArg some (Prod.ext (create_store r p).symm rfl)⟩
  | save d r same =>
    cases h
    exact ⟨0,_,congrArg some (Prod.ext (save_store d r same).symm rfl)⟩
  | remove d =>
    obtain ⟨depth,removed,hremoved,rfl⟩ := h
    exact ⟨depth,removed.2,(remove_store depth d).symm.trans (congrArg _ hremoved)⟩
  | move d p =>
    cases h
    exact ⟨0,_,congrArg some (Prod.ext (move_store d p).symm rfl)⟩
  | dsstoreMatch p key val =>
    cases h
    simp only [IndexEvent.call,Engine.dsstoreMatch]
    repeat' split
    all_goals rfl
  | evict d =>
    cases h
    rfl

/-- Whatever indexes there are, the store is one that the engine without them reaches. -/
theorem indexed_reached {start s : Engine} (hrun : IndexRun
    (fun s e => ∀ call∈e.call,Allowed true s.store call) start s) :
    Reached true start.store s.store := by
  induction hrun with
  | start => exact .start
  | @step s s' e _ hallowed does ih =>
    have hstore := does.store
    cases hcall : e.call with
    | none =>
      rw [hcall] at hstore
      exact hstore▸ih
    | some call =>
      rw [hcall] at hstore
      obtain ⟨depth,status,hperform⟩ := hstore
      exact ih.call _ call depth _ status (hallowed call hcall) hperform

def rootOnly : Engine := ⟨SortedMap.empty.put 0 ⟨0,[],⟨[],[]⟩⟩,fun _ => none⟩

lemma rootOnly_get {q : ℕ} {r : Dsrecord Attributes} (h : rootOnly.store.get q=some r) :
    r=⟨0,[],⟨[],[]⟩⟩ := by
  have hget := (SortedMap.get_put (SortedMap.empty : Dsstore Attributes) q 0
    ⟨0,[],⟨[],[]⟩⟩).symm.trans h
  split_ifs at hget
  · exact (some.inj hget).symm
  · cases hget

lemma rootOnly_opened : Opened rootOnly := by
  refine ⟨fun q r c hq hc => ?_,fun q r hq => ?_,fun q => rfl⟩
  · rw [rootOnly_get hq] at hc
    cases hc
  · rw [rootOnly_get hq]
    exact nodup_nil

def nameA : Dsdata := ⟨DataTypeCStr,[97,0]⟩

def colorKey : Dsdata := ⟨DataTypeCStr,[99,111,108,111,114,0]⟩

def red : Dsdata := ⟨DataTypeCStr,[114,101,100,0]⟩

def coloredChild : Dsrecord Attributes := ⟨0,[],⟨[⟨NAME_NAME,[nameA]⟩,⟨colorKey,[red]⟩],[]⟩⟩

def coloredOnce : Engine :=
  ((rootOnly.create coloredChild 0).dsstoreMatch 0 NAME_NAME nameA).1

lemma coloredOnce_get : coloredOnce.store.get 0=some ⟨0,[1],⟨[],[]⟩⟩ := rfl

theorem indexed_reached_colored : Reached true rootOnly.store coloredOnce.store := by
  have hnew : ∀ call∈(IndexEvent.create coloredChild 0).call,Allowed true rootOnly.store call := by
    rintro _ ⟨⟩
    rfl
  exact indexed_reached (.step (e := .dsstoreMatch 0 NAME_NAME nameA)
    (.step (e := .create coloredChild 0) .start hnew rfl) nofun rfl)

def coloredTwice : Engine := coloredOnce.create coloredChild 0

end Darwin.Netinfo
