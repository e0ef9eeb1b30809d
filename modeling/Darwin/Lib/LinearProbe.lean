import Mathlib.Tactic

/-! Open addressing with linear probing. A slot holds the identity of its occupant, or `0`
when it is empty; `home` is the position at which the search for an occupant starts. -/
open Function Nat Finset
namespace Darwin.Lib.LinearProbe

def after (n p k : ℕ) : ℕ := (p+k)%n

def steps (n p q : ℕ) : ℕ := if p≤q then q-p else q+n-p

def next (n p : ℕ) : ℕ := if p+1=n then 0 else p+1

variable {slot home : ℕ → ℕ} {n : ℕ}

lemma after_lt (hn : 0<n) (p k : ℕ) : after n p k<n := mod_lt _ hn

lemma after_eq {n p k : ℕ} (hp : p<n) (hk : k<n) :
    after n p k=if p+k<n then p+k else p+k-n := by
  rw [after]
  split_ifs with h
  · exact mod_eq_of_lt h
  · rw [mod_eq_sub_mod (by omega),mod_eq_of_lt (by omega)]

@[simp] lemma after_zero {n p : ℕ} (hp : p<n) : after n p 0=p := mod_eq_of_lt hp

lemma steps_lt {n p q : ℕ} (hp : p<n) (hq : q<n) : steps n p q<n := by
  rw [steps]
  split_ifs <;> omega

lemma after_steps {n p q : ℕ} (hp : p<n) (hq : q<n) : after n p (steps n p q)=q := by
  rw [after_eq hp (steps_lt hp hq),steps]
  split_ifs <;> omega

lemma steps_after {n p k : ℕ} (hp : p<n) (hk : k<n) : steps n p (after n p k)=k := by
  rw [after_eq hp hk,steps]
  split_ifs <;> omega

lemma after_after (n p j k : ℕ) : after n (after n p j) k=after n p (j+k) := by
  rw [after,after,after,mod_add_mod,add_assoc]

lemma after_one {n p : ℕ} (hp : p<n) : after n p 1=next n p := by
  rw [after,next]
  split_ifs with h
  · rw [h,mod_self]
  · exact mod_eq_of_lt (by omega)

lemma after_next {n p : ℕ} (hp : p<n) (k : ℕ) : after n (next n p) k=after n p (k+1) := by
  rw [←after_one hp,after_after,add_comm]

lemma next_lt {n p : ℕ} (hp : p<n) : next n p<n := by
  rw [←after_one hp]
  exact after_lt (by omega) _ _

lemma steps_add {n p h q : ℕ} (hp : p<n) (hh : h<n) (hq : q<n)
    (hle : steps n p h ≤ steps n p q) : steps n p q=steps n p h+steps n h q := by
  revert hle
  simp only [steps]
  split_ifs <;> omega

lemma steps_eq_zero {n p q : ℕ} (hp : p<n) : steps n p q=0 ↔ p=q := by
  rw [steps]
  split_ifs <;> omega

/-! ### Scans -/

def scan (n : ℕ) (stop : ℕ → Bool) : ℕ → ℕ → Option ℕ
  | 0,_ => none
  | fuel+1,p => if stop p then some p else scan n stop fuel (next n p)

lemma scan_eq_some {stop : ℕ → Bool} {fuel p k : ℕ} (hp : p<n) (hk : k<fuel)
    (hstop : stop (after n p k)=true) (hfirst : ∀ j,j<k → stop (after n p j)=false) :
    scan n stop fuel p=some (after n p k) := by
  induction k generalizing fuel p with
  | zero =>
    obtain ⟨fuel,rfl⟩ : ∃ f,fuel=f+1 := ⟨fuel-1,by omega⟩
    rw [after_zero hp] at hstop ⊢
    rw [scan,if_pos hstop]
  | succ k ih =>
    obtain ⟨fuel,rfl⟩ : ∃ f,fuel=f+1 := ⟨fuel-1,by omega⟩
    have h0 := hfirst 0 (by omega)
    rw [after_zero hp] at h0
    rw [scan,h0,if_neg Bool.false_ne_true,←after_next hp]
    rw [←after_next hp] at hstop
    refine ih (next_lt hp) (by omega) hstop fun j hj => ?_
    rw [after_next hp]
    exact hfirst (j+1) (by omega)

lemma exists_scan (stop : ℕ → Bool) {p q : ℕ} (hp : p<n) (hq : q<n)
    (hstop : stop q=true) : ∃ k,k ≤ steps n p q ∧ stop (after n p k)=true ∧
      (∀ j,j<k → stop (after n p j)=false) ∧ scan n stop n p=some (after n p k) := by
  have hex : ∃ k,stop (after n p k)=true := ⟨steps n p q,by rwa [after_steps hp hq]⟩
  have hle : Nat.find hex ≤ steps n p q := Nat.find_min' hex (by rwa [after_steps hp hq])
  have hfirst : ∀ j,j<Nat.find hex → stop (after n p j)=false := fun j hj => by
    have := Nat.find_min hex hj
    exact Bool.not_eq_true _ |>.mp this
  exact ⟨Nat.find hex,hle,Nat.find_spec hex,hfirst,
    scan_eq_some hp (hle.trans_lt (steps_lt hp hq)) (Nat.find_spec hex) hfirst⟩

/-! ### Reachable occupants -/

def Path (n : ℕ) (slot home : ℕ → ℕ) (p : ℕ) : Prop :=
  ∀ k,k<steps n (home (slot p)) p → slot (after n (home (slot p)) k)≠0

/-- Every occupant is in one slot and reachable from its home. -/
structure Probed (n : ℕ) (slot home : ℕ → ℕ) : Prop where
  inj : ∀ p q,p<n → q<n → slot p≠0 → slot p=slot q → p=q
  path : ∀ p,p<n → slot p≠0 → Path n slot home p
  gap : ∃ p,p<n ∧ slot p=0

/-- The same with a hole at `h`, whose slot still has its last occupant written in it. -/
structure Holed (n : ℕ) (slot home : ℕ → ℕ) (h : ℕ) : Prop where
  hole : h<n ∧ slot h≠0
  inj : ∀ p q,p<n → q<n → p≠h → q≠h → slot p≠0 → slot p=slot q → p=q
  path : ∀ p,p<n → slot p≠0 → Path n slot home p
  gap : ∃ p,p<n ∧ slot p=0

def Occupant (n : ℕ) (slot : ℕ → ℕ) (i : ℕ) : Prop := i≠0 ∧ ∃ p,p<n ∧ slot p=i

def OtherOccupant (n : ℕ) (slot : ℕ → ℕ) (h i : ℕ) : Prop :=
  i≠0 ∧ ∃ p,p<n ∧ p≠h ∧ slot p=i

lemma Probed.holed (t : Probed n slot home) {h : ℕ} (hh : h<n)
    (hne : slot h≠0) : Holed n slot home h :=
  ⟨⟨hh,hne⟩,fun p q hp hq _ _ => t.inj p q hp hq,t.path,t.gap⟩

lemma Probed.otherOccupant_iff (t : Probed n slot home) {h : ℕ}
    (hh : h<n) (i : ℕ) : OtherOccupant n slot h i ↔ Occupant n slot i ∧ i≠slot h := by
  constructor
  · rintro ⟨hi,p,hp,hne,rfl⟩
    exact ⟨⟨hi,p,hp,rfl⟩,fun heq => hne (t.inj p h hp hh hi heq)⟩
  · rintro ⟨⟨hi,p,hp,rfl⟩,hne⟩
    exact ⟨hi,p,hp,fun heq => hne (heq▸rfl),rfl⟩

lemma exists_empty {slot : ℕ → ℕ} (hn : 0<n)
    (hinj : ∀ p q,p<n → q<n → slot p≠0 → slot p=slot q → p=q)
    (hlt : ∀ p,p<n → slot p<n) : ∃ p,p<n ∧ slot p=0 := by
  by_contra hfull
  push Not at hfull
  have hmaps : ∀ p∈range n,slot p∈Finset.Ico 1 n := fun p hp => by
    rw [mem_range] at hp
    rw [mem_Ico]
    exact ⟨one_le_iff_ne_zero.mpr (hfull p hp),hlt p hp⟩
  have hcard : (Finset.Ico 1 n).card<(range n).card := by
    rw [card_Ico,card_range]
    omega
  obtain ⟨p,hp,q,hq,hne,heq⟩ := exists_ne_map_eq_of_card_lt_of_maps_to hcard hmaps
  rw [mem_range] at hp hq
  exact hne (hinj p q hp hq (hfull p hp) heq)

lemma Probed.steps_le_of_empty (t : Probed n slot home) {p k : ℕ}
    (hp : p<n) (hne : slot p≠0) (hempty : slot (after n (home (slot p)) k)=0) :
    steps n (home (slot p)) p≤k := by
  by_contra hlt
  exact t.path p hp hne k (by omega) hempty

lemma update_ne_zero {slot : ℕ → ℕ} {p q i : ℕ} (hi : i≠0) (h : slot q≠0) :
    update slot p i q≠0 := by
  rw [update_apply]
  split_ifs
  · exact hi
  · exact h

lemma Probed.insert (t : Probed n slot home) {i k : ℕ}
    (hi : i≠0) (hin : i<n) (hhome : home i<n) (hnew : ¬Occupant n slot i)
    (hlt : ∀ p,p<n → slot p<n) (hk : k<n)
    (hfirst : ∀ j,j<k → slot (after n (home i) j)≠0) :
    Probed n (update slot (after n (home i) k) i) home := by
  have hn : 0<n := by omega
  have hinj : ∀ p q,p<n → q<n → update slot (after n (home i) k) i p≠0 →
      update slot (after n (home i) k) i p=update slot (after n (home i) k) i q → p=q := by
    intro p q hp hq
    simp only [update_apply]
    split_ifs with h1 h2 h2 <;> intro hne heq
    · rw [h1,h2]
    · exact absurd ⟨hi,q,hq,heq.symm⟩ hnew
    · exact absurd ⟨hi,p,hp,heq⟩ hnew
    · exact t.inj p q hp hq hne heq
  refine ⟨hinj,fun p hp hne j hj => ?_,exists_empty hn hinj fun p hp => ?_⟩
  · by_cases hpq : p=after n (home i) k
    · have hself : update slot (after n (home i) k) i p=i := by rw [hpq,update_self]
      rw [hself,hpq,steps_after hhome hk] at hj
      rw [hself]
      exact update_ne_zero hi (hfirst j hj)
    · have hother : update slot (after n (home i) k) i p=slot p :=
        update_of_ne hpq _ _
      rw [hother] at hne hj ⊢
      exact update_ne_zero hi (t.path p hp hne j hj)
  · rw [update_apply]
    split_ifs
    · exact hin
    · exact hlt p hp

lemma occupant_update {slot : ℕ → ℕ} {i q : ℕ} (hi : i≠0) (hq : q<n)
    (hempty : slot q=0) (j : ℕ) : Occupant n (update slot q i) j ↔ j=i ∨ Occupant n slot j := by
  constructor
  · rintro ⟨hj,p,hp,rfl⟩
    rw [update_apply] at hj ⊢
    split_ifs at hj ⊢
    · exact Or.inl rfl
    · exact Or.inr ⟨hj,p,hp,rfl⟩
  · rintro (rfl | ⟨hj,p,hp,rfl⟩)
    · exact ⟨hi,q,hq,update_self q _ _⟩
    · exact ⟨hj,p,hp,update_of_ne (fun h => hj (by rw [h,hempty])) _ _⟩

/-! ### Filling a hole -/

lemma Holed.move {h d : ℕ} (t : Holed n slot home h) (hd : d<n)
    (hdh : d≠h) (hne : slot d≠0)
    (hdisplaced : steps n h d ≤ steps n (home (slot d)) d) :
    Holed n (update slot h (slot d)) home d := by
  have hh := t.hole.1
  refine ⟨⟨hd,?_⟩,fun p q hp hq hpd hqd => ?_,fun p hp hpne j hj => ?_,?_⟩
  · rwa [update_of_ne hdh]
  · simp only [update_apply]
    split_ifs with h1 h2 h2 <;> intro hp0 heq
    · rw [h1,h2]
    · exact absurd (t.inj d q hd hq hdh h2 hne heq).symm hqd
    · exact absurd (t.inj p d hp hd h1 hdh hp0 heq) hpd
    · exact t.inj p q hp hq h1 h2 hp0 heq
  · refine update_ne_zero hne ?_
    rw [update_apply] at hpne hj ⊢
    split_ifs at hpne hj ⊢ with h1
    · -- the way to the hole is the first part of the way to `d`
      subst h1
      refine t.path d hd hne j ?_
      have hle : steps n (home (slot d)) p ≤ steps n (home (slot d)) d := by
        revert hdisplaced
        simp only [steps]
        split_ifs <;> omega
      omega
    · exact t.path p hp hpne j hj
  · obtain ⟨p,hp,hp0⟩ := t.gap
    exact ⟨p,hp,by rwa [update_of_ne fun heq => t.hole.2 (by rwa [←heq])]⟩

lemma Holed.otherOccupant_move {h d : ℕ} (t : Holed n slot home h)
    (hd : d<n) (hdh : d≠h) (i : ℕ) :
    OtherOccupant n (update slot h (slot d)) d i ↔ OtherOccupant n slot h i := by
  have hh := t.hole.1
  constructor
  · rintro ⟨hi,p,hp,hpd,rfl⟩
    rw [update_apply] at hi ⊢
    split_ifs at hi ⊢ with h1
    · exact ⟨hi,d,hd,hdh,rfl⟩
    · exact ⟨hi,p,hp,h1,rfl⟩
  · rintro ⟨hi,p,hp,hph,rfl⟩
    by_cases hpd : p=d
    · exact ⟨hi,h,hh,hdh.symm,by rw [update_self,hpd]⟩
    · exact ⟨hi,p,hp,hpd,update_of_ne hph _ _⟩

/-- If no occupant from the hole to the next empty slot has its home before or at the hole,
the hole may be emptied. -/
theorem Holed.clear {h e : ℕ} (t : Holed n slot home h)
    (hhome : ∀ i,home i<n) (hempty : slot (after n h e)=0)
    (hkept : ∀ j,0<j → j<e → steps n (home (slot (after n h j))) (after n h j)<j) :
    Probed n (update slot h 0) home := by
  have hh := t.hole.1
  have hn : 0<n := by omega
  refine ⟨fun p q hp hq => ?_,fun p hp hne j hj => ?_,h,hh,update_self h _ _⟩
  · simp only [update_apply]
    split_ifs with h1 h2 h2 <;> intro hp0 heq
    · exact absurd rfl hp0
    · exact absurd rfl hp0
    · exact absurd heq hp0
    · exact t.inj p q hp hq h1 h2 hp0 heq
  · rw [update_apply] at hne
    split_ifs at hne with hph
    · exact absurd rfl hne
    have hsame : update slot h 0 p=slot p := update_of_ne hph _ _
    rw [hsame] at hj ⊢
    have hpath := t.path p hp hne
    rw [update_apply]
    split_ifs with hthrough
    · -- the way of `p` would lead over the hole
      exfalso
      have hs := hhome (slot p)
      have hlt := steps_lt hs hp
      have hto : steps n (home (slot p)) h=j := by rw [←hthrough,steps_after hs (by omega)]
      have hsplit := steps_add hs hh hp (by omega)
      have hbefore : steps n h p<e := by
        by_contra hge
        have hne' : e≠steps n h p := fun heq => hne (by rwa [heq,after_steps hh hp] at hempty)
        refine hpath (j+e) (by omega) ?_
        rw [←after_after,hthrough]
        exact hempty
      have := hkept (steps n h p) (by omega) hbefore
      rw [after_steps hh hp] at this
      omega
    · exact hpath j hj

lemma occupant_clear {slot : ℕ → ℕ} {h : ℕ} (i : ℕ) :
    Occupant n (update slot h 0) i ↔ OtherOccupant n slot h i := by
  constructor
  · rintro ⟨hi,p,hp,rfl⟩
    rw [update_apply] at hi ⊢
    split_ifs at hi ⊢ with h1
    · exact absurd rfl hi
    · exact ⟨hi,p,hp,h1,rfl⟩
  · rintro ⟨hi,p,hp,hne,rfl⟩
    exact ⟨hi,p,hp,update_of_ne hne _ _⟩

/-- The test for an occupant at `d`, with home `t`, that has been carried past `h`. -/
def displaced (h d t : ℕ) : Bool :=
  if d<h then decide (d<t) && decide (t≤h) else decide (d<t) || decide (t≤h)

lemma displaced_iff {n h d t : ℕ} (hh : h<n) (ht : t<n) :
    displaced h d t=true ↔ steps n h d ≤ steps n t d := by
  simp only [displaced,steps]
  split_ifs <;> simp only [Bool.and_eq_true,Bool.or_eq_true,decide_eq_true_eq] <;> omega

end Darwin.Lib.LinearProbe
