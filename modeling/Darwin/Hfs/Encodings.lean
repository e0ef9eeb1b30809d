import Mathlib.Data.UInt
import Mathlib.Tactic

/-! The list of encoding converters of `bsd/hfs/hfs_encodings.c`. The list's lock is held over each
call's work on it, so that a run is calls one after another. -/
open List
namespace Darwin.Hfs.Encodings

/-- An entry of the list. `gets` is not in the source: the gets that no release has matched. -/
structure HfsEncoding where
  refcount : ℤ
  kmodId : ℤ
  encoding : UInt32
  getUnicodeFunc : ℕ
  getHfsnameFunc : ℕ
  gets : ℕ
  deriving DecidableEq,Repr

def kTextEncodingMacRoman : UInt32 := 0

/-- `SLIST_FOREACH` up to the first entry that is looked for; it is changed, or unlinked and
freed. -/
def atFirst (p : HfsEncoding → Bool) (f : HfsEncoding → Option HfsEncoding) :
    List HfsEncoding → List HfsEncoding
  | [] => []
  | encp::rest => if p encp then (f encp).toList++rest else encp::atFirst p f rest

def hfsAddconverter (list : List HfsEncoding) (id : ℤ) (encoding : UInt32)
    (getUnicode getHfsname : ℕ) : List HfsEncoding :=
  ⟨0,id,encoding,getUnicode,getHfsname,0⟩::list

def HfsEncoding.drop (encp : HfsEncoding) : HfsEncoding :=
  {encp with refcount := encp.refcount-1}

def HfsEncoding.unused (encp : HfsEncoding) : Bool :=
  encp.refcount≤0 ∧ encp.kmodId≠0

def HfsEncoding.release (encp : HfsEncoding) : HfsEncoding :=
  {encp.drop with gets := encp.gets-1}

def HfsEncoding.retain (encp : HfsEncoding) : HfsEncoding :=
  {encp with refcount := encp.refcount+1,gets := encp.gets+1}

def keep (encp : HfsEncoding) : Option HfsEncoding := if encp.unused then none else some encp

def named (id : ℤ) (encoding : UInt32) (encp : HfsEncoding) : Bool :=
  encp.encoding=encoding ∧ encp.kmodId=id

def coded (encoding : UInt32) (encp : HfsEncoding) : Bool := encp.encoding=encoding

def hfsRemconverter (list : List HfsEncoding) (id : ℤ) (encoding : UInt32) :
    List HfsEncoding × Bool :=
  (atFirst (named id encoding) (fun encp => keep encp.drop) list,
    match list.find? (named id encoding) with
    | some encp => !encp.drop.unused
    | none => false)

def hfsGetconverter (list : List HfsEncoding) (encoding : UInt32) :
    List HfsEncoding × Option (ℕ × ℕ) :=
  (atFirst (coded encoding) (fun encp => some encp.retain) list,
    (list.find? (coded encoding)).map fun encp => (encp.getUnicodeFunc,encp.getHfsnameFunc))

/-- The list afterwards, whether an entry was found, and the module that is destroyed. -/
def hfsRelconverter (list : List HfsEncoding) (encoding : UInt32) :
    List HfsEncoding × Bool × Option ℤ :=
  (atFirst (coded encoding) (fun encp => keep encp.release) list,
    match list.find? (coded encoding) with
    | some encp => (true,if encp.release.unused then some encp.kmodId else none)
    | none => (false,none))

def hfsConverterinit (macRomanToUnicode unicodeToMacRoman : ℕ) : List HfsEncoding :=
  atFirst (fun _ => true) (fun encp => some {encp with refcount := encp.refcount+1})
    (hfsAddconverter [] 0 kTextEncodingMacRoman macRomanToUnicode unicodeToMacRoman)

inductive Call
  | addconverter (id : ℤ) (encoding : UInt32) (getUnicode getHfsname : ℕ)
  | remconverter (id : ℤ) (encoding : UInt32)
  | getconverter (encoding : UInt32)
  | relconverter (encoding : UInt32)

def step (list : List HfsEncoding) : Call → List HfsEncoding
  | .addconverter id encoding getUnicode getHfsname =>
    hfsAddconverter list id encoding getUnicode getHfsname
  | .remconverter id encoding => (hfsRemconverter list id encoding).1
  | .getconverter encoding => (hfsGetconverter list encoding).1
  | .relconverter encoding => (hfsRelconverter list encoding).1

def freed (list : List HfsEncoding) : Call → Option HfsEncoding
  | .remconverter id encoding =>
    ((list.find? (named id encoding)).map HfsEncoding.drop).filter HfsEncoding.unused
  | .relconverter encoding =>
    ((list.find? (coded encoding)).map HfsEncoding.release).filter HfsEncoding.unused
  | _ => none

/-- What is promised of a call: no freed entry has outstanding gets, a removal that fails leaves all
counts, and there is one entry at most for an encoding afterwards. -/
structure Safe (list : List HfsEncoding) (call : Call) : Prop where
  unlinks : ∀ encp∈freed list call,encp.gets=0
  fails : ∀ id encoding,call=.remconverter id encoding →
    (hfsRemconverter list id encoding).2=true → step list call=list
  once : ((step list call).map HfsEncoding.encoding).Nodup

/-- A converter is added for an encoding that has none, and removed by a module of its own when no
reference is counted. -/
def Proper (list : List HfsEncoding) : Call → Prop
  | .addconverter _ encoding _ _ => ∀ encp∈list,encp.encoding≠encoding
  | .remconverter id encoding =>
    ∀ encp∈list.find? (named id encoding),encp.kmodId≠0 ∧ encp.refcount=0
  | _ => True

def Always (P : List HfsEncoding → Call → Prop) : List HfsEncoding → List Call → Prop
  | _,[] => True
  | list,call::calls => P list call ∧ Always P (step list call) calls

/-- The entries of modules count the outstanding gets. -/
structure Inv (list : List HfsEncoding) : Prop where
  once : (list.map HfsEncoding.encoding).Nodup
  counts : ∀ encp∈list,encp.kmodId≠0 → encp.refcount=encp.gets

/-! ### The walk -/

variable {p : HfsEncoding → Bool} {f : HfsEncoding → Option HfsEncoding}
variable {list : List HfsEncoding}

lemma atFirst_of_find?_none (h : list.find? p=none) : atFirst p f list=list := by
  induction list with
  | nil => rfl
  | cons encp rest ih =>
    rw [find?_eq_none] at h
    rw [atFirst,if_neg (by simpa using h encp (by simp)),
      ih (by rw [find?_eq_none]; exact fun e he => h e (by simp [he]))]

variable {encp : HfsEncoding}

lemma atFirst_of_find?_some (h : list.find? p=some encp) : ∃ before after,list=before++encp::after ∧
      atFirst p f list=before++(f encp).toList++after := by
  induction list with
  | nil => cases h
  | cons first rest ih =>
    rw [find?_cons] at h
    split at h
    · next hp =>
      cases h
      exact ⟨[],rest,rfl,by rw [atFirst,if_pos hp]; rfl⟩
    · next hp =>
      obtain ⟨before,after,rfl,hlist⟩ := ih h
      refine ⟨first::before,after,rfl,?_⟩
      rw [atFirst,if_neg (by simp [hp]),hlist]
      rfl

lemma Inv.atFirst (h : Inv list)
    (hf : ∀ encp∈list.find? p,∀ encp'∈f encp,encp'.encoding=encp.encoding ∧
      (encp'.kmodId≠0 → encp'.refcount=encp'.gets)) : Inv (atFirst p f list) := by
  cases hfind : list.find? p with
  | none => rwa [atFirst_of_find?_none hfind]
  | some encp =>
    obtain ⟨before,after,rfl,hlist⟩ := atFirst_of_find?_some (f := f) hfind
    rw [hlist]
    have hencp := hf encp hfind
    have honce := h.once
    cases hnew : f encp with
    | none =>
      refine ⟨?_,fun e he hid => h.counts e ?_ hid⟩
      · simp only [map_append,map_cons,Option.toList_none,append_nil] at honce ⊢
        exact honce.sublist (List.Sublist.append (List.Sublist.refl _) (sublist_cons_self _ _))
      · simp only [Option.toList_none,append_nil,mem_append,mem_cons] at he ⊢
        exact he.imp id Or.inr
    | some encp' =>
      obtain ⟨hcode,hcount⟩ := hencp encp' hnew
      refine ⟨?_,fun e he hid => ?_⟩
      · simp only [map_append,map_cons,Option.toList_some,append_assoc,
          singleton_append,hcode] at honce ⊢
        exact honce
      · simp only [Option.toList_some,mem_append,mem_singleton] at he
        rcases he with (he | rfl) | he
        · exact h.counts e (by simp [he]) hid
        · exact hcount hid
        · exact h.counts e (by simp [he]) hid

/-! ### One call -/

lemma Inv.find (h : Inv list) (hfind : list.find? p=some encp)
    (hid : encp.kmodId≠0) : encp.refcount=encp.gets :=
  h.counts encp (mem_of_find?_eq_some hfind) hid

lemma unused_iff : encp.unused=true ↔ encp.refcount≤0 ∧ encp.kmodId≠0 := by
  simp [HfsEncoding.unused]

lemma mem_keep {encp encp' : HfsEncoding} :
    encp'∈keep encp ↔ encp'=encp ∧ ¬(encp.refcount≤0 ∧ encp.kmodId≠0) := by
  rw [←unused_iff,keep]
  by_cases h : encp.unused
  · simp [h]
  · simp [h,eq_comm]

lemma Inv.step (h : Inv list) (call : Call) (hproper : Proper list call) :
    Inv (step list call) := by
  cases call with
  | addconverter id encoding getUnicode getHfsname =>
    refine ⟨?_,fun encp hencp hid => ?_⟩
    · change (encoding::list.map HfsEncoding.encoding).Nodup
      rw [nodup_cons,mem_map]
      refine ⟨?_,h.once⟩
      rintro ⟨encp,hencp,hcode⟩
      exact hproper encp hencp hcode
    · rcases mem_cons.mp hencp with rfl | hencp
      · rfl
      · exact h.counts encp hencp hid
  | remconverter id encoding =>
    refine h.atFirst fun encp hfind encp' hencp' => ?_
    obtain ⟨hid,hcount⟩ := hproper encp hfind
    obtain ⟨-,hused⟩ := mem_keep.mp hencp'
    refine absurd ⟨?_,hid⟩ hused
    simp [HfsEncoding.drop,hcount]
  | getconverter encoding =>
    refine h.atFirst fun encp hfind encp' hencp' => ?_
    obtain rfl := Option.some.inj hencp'
    refine ⟨rfl,fun hid => ?_⟩
    have := h.find hfind hid
    simp only [HfsEncoding.retain,Nat.cast_add,Nat.cast_one]
    omega
  | relconverter encoding =>
    refine h.atFirst fun encp hfind encp' hencp' => ?_
    obtain ⟨rfl,hused⟩ := mem_keep.mp hencp'
    refine ⟨rfl,fun hid => ?_⟩
    have hcount := h.find hfind hid
    have hpositive : ¬encp.refcount-1≤0 := fun hle => hused ⟨hle,hid⟩
    simp only [HfsEncoding.release,HfsEncoding.drop]
    omega

lemma safe_remconverter (h : Inv list) {id : ℤ} {encoding : UInt32}
    (hfind : list.find? (named id encoding)=some encp)
    (hsafe : Safe list (.remconverter id encoding)) : encp.kmodId≠0 ∧ encp.refcount=0 := by
  by_cases hunused : encp.drop.unused
  · obtain ⟨-,hid⟩ := unused_iff.mp hunused
    have hgets := hsafe.unlinks encp.drop (by simp [freed,hfind,hunused])
    refine ⟨hid,?_⟩
    rw [h.find hfind hid]
    exact congrArg Nat.cast hgets
  · exfalso
    obtain ⟨before,after,rfl,hlist⟩ :=
      atFirst_of_find?_some (f := fun encp => keep encp.drop) hfind
    have hsame := hsafe.fails id encoding rfl (by simp [hfsRemconverter,hfind,hunused])
    have hkept : keep encp.drop=some encp.drop := by simp [keep,hunused]
    simp only [step,hfsRemconverter,hlist,hkept,Option.toList_some,append_assoc,
      singleton_append,append_cancel_left_eq,List.cons.injEq,and_true] at hsame
    have := congrArg HfsEncoding.refcount hsame
    simp [HfsEncoding.drop] at this

lemma call_safe_iff (h : Inv list) (call : Call) : Safe list call ↔ Proper list call := by
  constructor
  · intro hsafe
    cases call with
    | addconverter id encoding getUnicode getHfsname =>
      intro encp hencp hcode
      have := hsafe.once
      change (encoding::list.map HfsEncoding.encoding).Nodup at this
      exact (nodup_cons.mp this).1 (mem_map.mpr ⟨encp,hencp,hcode⟩)
    | remconverter id encoding => exact fun encp hfind => safe_remconverter h hfind hsafe
    | getconverter encoding => trivial
    | relconverter encoding => trivial
  · intro hproper
    refine ⟨fun encp' hfreed => ?_,fun id encoding hcall hbusy => ?_,(h.step call hproper).once⟩
    · cases call with
      | addconverter id encoding getUnicode getHfsname => cases hfreed
      | getconverter encoding => cases hfreed
      | remconverter id encoding =>
        obtain ⟨hmap,-⟩ := Option.mem_filter_iff.mp hfreed
        obtain ⟨encp,hfind,rfl⟩ := Option.mem_map.mp hmap
        obtain ⟨hid,hcount⟩ := hproper encp hfind
        have := h.find hfind hid
        simp only [HfsEncoding.drop]
        omega
      | relconverter encoding =>
        obtain ⟨hmap,hunused⟩ := Option.mem_filter_iff.mp hfreed
        obtain ⟨encp,hfind,rfl⟩ := Option.mem_map.mp hmap
        obtain ⟨hle,hid⟩ := unused_iff.mp hunused
        have := h.find hfind hid
        simp only [HfsEncoding.release,HfsEncoding.drop] at hle ⊢
        omega
    · subst hcall
      cases hfind : list.find? (named id encoding) with
      | none => exact atFirst_of_find?_none hfind
      | some encp =>
        obtain ⟨hid,hcount⟩ := hproper encp hfind
        simp [hfsRemconverter,hfind,HfsEncoding.unused,HfsEncoding.drop,hid,hcount] at hbusy

/-! ### Runs -/

lemma always_safe_iff (calls : List Call) (h : Inv list) :
    Always Safe list calls ↔ Always Proper list calls := by
  induction calls generalizing list with
  | nil => rfl
  | cons call calls ih =>
    rw [Always,Always,call_safe_iff h]
    exact and_congr_right fun hproper => ih (h.step call hproper)

lemma hfsConverterinit_inv (macRomanToUnicode unicodeToMacRoman : ℕ) :
    Inv (hfsConverterinit macRomanToUnicode unicodeToMacRoman) := by
  refine ⟨nodup_singleton _,fun encp hencp hid => ?_⟩
  obtain rfl := mem_singleton.mp hencp
  exact absurd rfl hid

/-- `hfsAddconverter` does not look for the encoding, and `hfsRemconverter` drops a reference that
no registration has put in the count. -/
theorem always_safe_hfsConverterinit_iff (macRomanToUnicode unicodeToMacRoman : ℕ)
    (calls : List Call) : Always Safe (hfsConverterinit macRomanToUnicode unicodeToMacRoman) calls ↔
      Always Proper (hfsConverterinit macRomanToUnicode unicodeToMacRoman) calls :=
  always_safe_iff calls (hfsConverterinit_inv _ _)

/-- A module removes its converter while a volume has got it. -/
theorem remconverter_frees_in_use : ¬Always Safe (hfsConverterinit 1 2)
      [.addconverter 5 1 3 4,.getconverter 1,.remconverter 5 1] := by
  rintro ⟨-,-,hsafe,-⟩
  exact absurd (hsafe.unlinks ⟨0,5,1,3,4,1⟩ (by decide)) (by decide)

end Darwin.Hfs.Encodings
