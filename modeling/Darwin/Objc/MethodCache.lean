import Darwin.Lib.Cluster

/-! The cache of a class, from `runtime/objc-class.m`: an open table of methods, in which a new entry
moves those behind it on by one. -/
open Function Nat Finset
namespace Darwin.Objc
open Lib.LinearProbe Lib.Cluster

abbrev SEL := ℕ

/-- What a method does: its code, or `_objc_msgForward`. -/
inductive IMP
  | code (pc : ℕ)
  | msgForward
  deriving DecidableEq

/-- An entry of a method list, or a forwarding entry, which is a block of its own. -/
inductive Method
  | method (method_name : SEL) (pc : ℕ)
  | forward (method_name : SEL) (block : ℕ)
  deriving DecidableEq

def Method.method_name : Method → SEL
  | .method name _ | .forward name _ => name

def Method.method_imp : Method → IMP
  | .method _ pc => .code pc
  | .forward _ _ => .msgForward

def Method.block : Method → Option ℕ
  | .method _ _ => none
  | .forward _ block => some block

/-- `objc_cache` -/
structure Cache where
  mask : ℕ
  occupied : ℕ
  buckets : ℕ → Option Method

def emptyCache : Cache := ⟨0,0,fun _ => none⟩

def newCache (slotCount : ℕ) : Cache := ⟨slotCount-1,0,fun _ => none⟩

def probeCache (cache : Cache) (sel : SEL) : ℕ → ℕ → Option (Option Method)
  | 0,_ => none
  | fuel+1,index =>
    match cache.buckets index with
    | none => some none
    | some entry =>
      if entry.method_name=sel then some (some entry)
      else probeCache cache sel fuel ((index+1)&&&cache.mask)

def lookInCache (cache : Cache) (sel : SEL) : Option (Option Method) :=
  probeCache cache sel (cache.mask+1) (sel&&&cache.mask)

/-- The loop that puts an entry into a bucket, what was there into the next, and so on. -/
def slideEntries (mask : ℕ) : ℕ → (ℕ → Option Method) → ℕ → Method → Option (ℕ → Option Method)
  | 0,_,_,_ => none
  | fuel+1,buckets,index,smt =>
    let moved := update buckets index (some smt)
    match buckets index with
    | none => some moved
    | some saveMethod => slideEntries mask fuel moved ((index+1)&&&mask) saveMethod

def forwards (cache : Cache) : List ℕ :=
  (List.range (cache.mask+1)).filterMap fun index => (cache.buckets index).bind Method.block

section Tables

variable {cache : Cache} {sel : SEL} {smt e : Method}

def Cached (cache : Cache) (e : Method) : Prop := ∃ p,p≤cache.mask ∧ cache.buckets p=some e

/-- Entries are within reach, for different selectors, and a quarter of the buckets is unused. -/
structure CacheOk (cache : Cache) : Prop where
  size : ∃ k,cache.mask+1=2^k
  count : cache.occupied=(occupied (cache.mask+1) cache.buckets).card
  room : cache.occupied*4≤(cache.mask+1)*3
  clustered : Clustered (cache.mask+1) cache.buckets fun e => e.method_name%(cache.mask+1)
  distinct : ∀ p q x y,p≤cache.mask → q≤cache.mask → cache.buckets p=some x →
    cache.buckets q=some y → x.method_name=y.method_name → p=q

lemma and_mask {mask k : ℕ} (h : mask+1=2^k) (x : ℕ) : x&&&mask=x%(mask+1) := by
  rw [h,←Nat.and_two_pow_sub_one_eq_mod,←h,Nat.add_sub_cancel]

lemma occupied_none (n : ℕ) : occupied n (fun _ => (none : Option Method))=∅ :=
  filter_false_of_mem fun _ _ => Bool.false_ne_true

lemma cacheOk_none {mask k : ℕ} (h : mask+1=2^k) : CacheOk ⟨mask,0,fun _ => none⟩ where
  size := ⟨k,h⟩
  count := by rw [occupied_none,card_empty]
  room := by
    dsimp only
    omega
  clustered := Clustered.empty _ _
  distinct := fun _ _ _ _ _ _ hx => by cases hx

lemma CacheOk.exists_empty (h : CacheOk cache) {i : ℕ} (hi : i<cache.mask+1) :
    ∃ k,k<cache.mask+1 ∧ cache.buckets (after (cache.mask+1) i k)=none ∧
      ∀ j,j<k → cache.buckets (after (cache.mask+1) i j)≠none := by
  have hcard : (occupied (cache.mask+1) cache.buckets).card<cache.mask+1 := by
    have hcount := h.count
    have hroom := h.room
    omega
  obtain ⟨p,hp,hnone⟩ := exists_empty_of_card_lt hcard
  have hex : ∃ k,cache.buckets (after (cache.mask+1) i k)=none :=
    ⟨steps (cache.mask+1) i p,by rw [after_steps hi hp,hnone]⟩
  classical
  refine ⟨Nat.find hex,?_,Nat.find_spec hex,fun j hj => Nat.find_min hex hj⟩
  refine lt_of_le_of_lt (Nat.find_min' hex ?_) (steps_lt hi hp)
  rw [after_steps hi hp,hnone]

lemma next_bucket (h : CacheOk cache) (i j : ℕ) :
    (after (cache.mask+1) i j+1)&&&cache.mask=after (cache.mask+1) i (j+1) := by
  obtain ⟨k,hk⟩ := h.size
  rw [and_mask hk,after,after,mod_add_mod,add_assoc]

lemma probeCache_from (h : CacheOk cache) (sel : SEL) {i k : ℕ}
    (hempty : cache.buckets (after (cache.mask+1) i k)=none) (fuel j : ℕ) (hj : j≤k)
    (hfuel : k<fuel+j)
    (hseen : ∀ m,m<j → ∀ e,cache.buckets (after (cache.mask+1) i m)=some e →
      e.method_name≠sel) : ∃ r,probeCache cache sel fuel (after (cache.mask+1) i j)=some r ∧
      (∀ e,r=some e → e.method_name=sel ∧ Cached cache e) ∧
      (r=none → ∃ l,cache.buckets (after (cache.mask+1) i l)=none ∧
        ∀ m,m<l → ∀ e,cache.buckets (after (cache.mask+1) i m)=some e →
          e.method_name≠sel) := by
  induction fuel generalizing j with
  | zero => omega
  | succ fuel ih =>
    rw [probeCache]
    cases hb : cache.buckets (after (cache.mask+1) i j) with
    | none => exact ⟨none,rfl,fun e he => (by cases he),fun _ => ⟨j,hb,hseen⟩⟩
    | some entry =>
      dsimp only
      by_cases hname : entry.method_name=sel
      · rw [if_pos hname]
        refine ⟨some entry,rfl,fun e he => ?_,fun hnone => by cases hnone⟩
        cases he
        exact ⟨hname,_,le_of_lt_succ (after_lt (succ_pos _) i j),hb⟩
      · rw [if_neg hname,next_bucket h]
        have hne : j≠k := fun heq => by
          rw [heq,hempty] at hb
          cases hb
        refine ih (j+1) (by omega) (by omega) fun m hm e he => ?_
        rcases lt_or_eq_of_le (le_of_lt_succ hm) with hm | rfl
        · exact hseen m hm e he
        · rw [hb] at he
          cases he
          exact hname

lemma lookInCache_spec (h : CacheOk cache) (sel : SEL) : ∃ r,lookInCache cache sel=some r ∧
      (∀ e,r=some e → e.method_name=sel ∧ Cached cache e) ∧
      (r=none → ∀ e,Cached cache e → e.method_name≠sel) := by
  obtain ⟨k,hk⟩ := h.size
  have hi : sel%(cache.mask+1)<cache.mask+1 := mod_lt _ (succ_pos _)
  obtain ⟨l,hl,hempty,-⟩ := h.exists_empty hi
  obtain ⟨r,hr,hfound,hmissed⟩ := probeCache_from h sel hempty (cache.mask+1) 0
    (zero_le l) hl fun m hm => absurd hm (not_lt_zero m)
  rw [after_zero hi] at hr
  refine ⟨r,?_,hfound,fun hnone e he hname => ?_⟩
  · rw [lookInCache,and_mask hk]
    exact hr
  · obtain ⟨l,hl,hother⟩ := hmissed hnone
    obtain ⟨p,hp,hbucket⟩ := he
    have hp' : p<cache.mask+1 := Nat.lt_succ_of_le hp
    have hsteps := h.clustered.steps_lt (k := l) hp' hbucket (by rw [hname]; exact hl)
    rw [hname] at hsteps
    exact hother _ hsteps e (by rw [after_steps hi hp']; exact hbucket) hname

lemma slideEntries_spec {mask k : ℕ} (hsize : mask+1=2^k) (l fuel i : ℕ) (smt : Method)
    (buckets : ℕ → Option Method) (hi : i < mask+1) (hl : l < mask+1)
    (hempty : buckets (after (mask+1) i l)=none)
    (hfirst : ∀ j,j<l → buckets (after (mask+1) i j)≠none) (hfuel : l<fuel) :
    ∃ b,slideEntries mask fuel buckets i smt=some b ∧
      ∀ p,p < mask+1 → b p=shifted (mask+1) buckets i l smt p := by
  induction l generalizing fuel i smt buckets with
  | zero =>
    obtain ⟨fuel,rfl⟩ : ∃ f,fuel=f+1 := ⟨fuel-1,by omega⟩
    rw [after_zero hi] at hempty
    refine ⟨update buckets i (some smt),by rw [slideEntries,hempty],fun p hp => ?_⟩
    rw [update_apply,shifted]
    split_ifs with hpi hle
    · rfl
    · exact absurd ((steps_eq_zero hi).mp (le_zero.mp hle)).symm hpi
    · rfl
  | succ l ih =>
    obtain ⟨fuel,rfl⟩ : ∃ f,fuel=f+1 := ⟨fuel-1,by omega⟩
    have hmask : (i+1)&&&mask=next (mask+1) i := by rw [and_mask hsize,←after_one hi,after]
    have h0 := hfirst 0 (succ_pos l)
    rw [after_zero hi] at h0
    obtain ⟨saved,hsaved⟩ := Option.ne_none_iff_exists'.mp h0
    obtain ⟨b,hb,hshifted⟩ := ih fuel (next (mask+1) i) saved
      (update buckets i (some smt)) (next_lt hi) (by omega)
      (by rw [update_after_next hi hl,hempty])
      (fun j hj => by rw [update_after_next hi (by omega)]; exact hfirst (j+1) (by omega))
      (by omega)
    refine ⟨b,?_,fun p hp => ?_⟩
    · rw [slideEntries,hsaved,hmask]
      exact hb
    · rw [hshifted p hp,shifted_succ hi hl hsaved hp]

lemma CacheOk.filled (h : CacheOk cache) (smt : Method)
    (hroom : (cache.occupied+1)*4≤(cache.mask+1)*3)
    (habsent : ∀ e,Cached cache e → e.method_name≠smt.method_name) :
    ∃ b,slideEntries cache.mask (cache.mask+1) cache.buckets
        (smt.method_name&&&cache.mask) smt=some b ∧ CacheOk ⟨cache.mask,cache.occupied+1,b⟩ ∧
      ∀ e,Cached ⟨cache.mask,cache.occupied+1,b⟩ e ↔ e=smt ∨ Cached cache e := by
  obtain ⟨k,hk⟩ := h.size
  have hi : smt.method_name%(cache.mask+1)<cache.mask+1 := mod_lt _ (succ_pos _)
  obtain ⟨l,hl,hempty,hfirst⟩ := h.exists_empty hi
  obtain ⟨b,hb,hshifted⟩ := slideEntries_spec hk l _ _ smt _ hi hl hempty hfirst hl
  have hslots : ∀ e,Cached ⟨cache.mask,cache.occupied+1,b⟩ e ↔ e=smt ∨ Cached cache e := by
    intro e
    have hiff := shifted_eq_some (x := smt) hi hl hempty (y := e)
    simp only [Nat.lt_succ_iff] at hiff
    refine Iff.trans (exists_congr fun p => and_congr_right fun hp => ?_) hiff
    rw [←hshifted p (Nat.lt_succ_of_le hp)]
  have hoccupied : occupied (cache.mask+1) b=insert (after (cache.mask+1)
      (smt.method_name%(cache.mask+1)) l) (occupied (cache.mask+1) cache.buckets) := by
    rw [←occupied_shifted hi hl hfirst]
    exact filter_congr fun p hp => by rw [hshifted p (mem_range.mp hp)]
  refine ⟨b,by rw [and_mask hk,hb],⟨⟨k,hk⟩,?_,hroom,?_,?_⟩,hslots⟩
  · dsimp only
    rw [hoccupied,card_insert_of_notMem,h.count]
    exact fun hmem => (mem_occupied.mp hmem).2 hempty
  · refine ⟨fun p x hp hx => ?_,fun p x hp hx j hj => ?_⟩
    · exact mod_lt _ (succ_pos _)
    · dsimp only at hp hx hj ⊢
      rw [hshifted _ (after_lt (succ_pos _) _ _)]
      rw [hshifted p hp] at hx
      exact (h.clustered.shift rfl hi hl hempty hfirst).path p x hp hx j hj
  · intro p q x y hp hq hx hy hname
    dsimp only at hp hq hx hy
    rw [hshifted p (Nat.lt_succ_of_le hp)] at hx
    rw [hshifted q (Nat.lt_succ_of_le hq)] at hy
    refine shifted_distinct (r := fun x y => x.method_name=y.method_name) hi
      (fun p q x y hp hq hx hy => h.distinct p q x y (le_of_lt_succ hp) (le_of_lt_succ hq)
        hx hy) (fun p y hp hy => ?_) (Nat.lt_succ_of_le hp) (Nat.lt_succ_of_le hq) hx hy hname
    have hne := habsent y ⟨p,le_of_lt_succ hp,hy⟩
    exact ⟨fun heq => hne heq.symm,hne⟩

end Tables

end Darwin.Objc
