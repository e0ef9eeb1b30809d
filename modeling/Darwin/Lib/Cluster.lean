import Darwin.Lib.LinearProbe

/-! Clusters of an open-addressing table that may be full. A slot holds an occupant or nothing; every
occupant is reached from its home over occupied slots. -/
open Option Nat Finset
namespace Darwin.Lib.Cluster
open LinearProbe

variable {α : Type} {n : ℕ} {slot : ℕ → Option α} {home : α → ℕ}

/-- Every occupant is reached from its home over occupied slots. -/
structure Clustered (n : ℕ) (slot : ℕ → Option α) (home : α → ℕ) : Prop where
  home_lt : ∀ p x,p<n → slot p=some x → home x<n
  path : ∀ p x,p<n → slot p=some x → ∀ k,k<steps n (home x) p → slot (after n (home x) k)≠none

def occupied (n : ℕ) (slot : ℕ → Option α) : Finset ℕ :=
  (range n).filter fun p => (slot p).isSome

lemma mem_occupied {p : ℕ} : p∈occupied n slot ↔ p<n ∧ slot p≠none := by
  rw [occupied,mem_filter,mem_range,Option.isSome_iff_ne_none]

lemma exists_empty_of_card_lt (h : (occupied n slot).card<n) : ∃ p,p<n ∧ slot p=none := by
  by_contra hfull
  push Not at hfull
  have hall : occupied n slot=range n :=
    filter_true_of_mem fun p hp =>
      Option.isSome_iff_ne_none.mpr (hfull p (mem_range.mp hp))
  rw [hall,card_range] at h
  exact Nat.lt_irrefl n h

def occupants (n : ℕ) (slot : ℕ → Option α) : List α := (List.range n).filterMap slot

lemma mem_occupants {x : α} : x∈occupants n slot ↔ ∃ p,p<n ∧ slot p=some x := by simp [occupants]

lemma length_occupants (n : ℕ) (slot : ℕ → Option α) :
    (occupants n slot).length=(occupied n slot).card := by
  induction n with
  | zero => rfl
  | succ n ih =>
    have hsplit : occupied (n+1) slot =
        if (slot n).isSome then insert n (occupied n slot) else occupied n slot := by
      rw [occupied,range_add_one,filter_insert]
      rfl
    have hn : n∉occupied n slot := fun h => Nat.lt_irrefl n (mem_occupied.mp h).1
    rw [occupants,List.range_succ,List.filterMap_append,List.length_append,←occupants,ih,hsplit]
    cases hs : slot n with
    | none => simp [hs]
    | some x => simp [hs,hn]

lemma Clustered.empty (n : ℕ) (home : α → ℕ) : Clustered n (fun _ => none) home :=
  ⟨fun _ _ _ h => (nomatch h),fun _ _ _ h => (nomatch h)⟩

lemma Clustered.steps_lt (h : Clustered n slot home) {p k : ℕ} {x : α} (hp : p<n)
    (hx : slot p=some x) (hk : slot (after n (home x) k)=none) : steps n (home x) p<k := by
  have hhome := h.home_lt p x hp hx
  rcases Nat.lt_trichotomy (steps n (home x) p) k with hlt | heq | hgt
  · exact hlt
  · rw [←heq,after_steps hhome hp,hx] at hk
    cases hk
  · exact absurd hk (h.path p x hp hx k hgt)

lemma steps_next {i p : ℕ} (hi : i<n) :
    steps n i (next n p)=if next n p=i then 0 else steps n i p+1 := by
  simp only [steps,next]
  split_ifs <;> omega

section Shift

variable {i k : ℕ} {x : α}

/-- A new occupant at `i`, with those from there up to the empty slot moved on by one. -/
def shifted (n : ℕ) (slot : ℕ → Option α) (i k : ℕ) (x : α) (p : ℕ) : Option α :=
  if p=i then some x
  else if steps n i p≤k then slot (after n i (steps n i p-1)) else slot p

lemma shifted_after (hi : i<n) {j : ℕ} (hj : j+1<n) (hjk : j<k) :
    shifted n slot i k x (after n i (j+1))=slot (after n i j) := by
  have hsteps := steps_after hi hj
  have hne : after n i (j+1)≠i := fun heq => by
    rw [heq] at hsteps
    have hzero := (steps_eq_zero hi).mpr (Eq.refl i)
    omega
  rw [shifted,if_neg hne,if_pos (by omega),hsteps,Nat.add_sub_cancel]

lemma shifted_of_lt {p : ℕ} (hi : i<n) (hk : k<steps n i p) : shifted n slot i k x p=slot p := by
  have hne : p≠i := fun heq => by
    rw [heq,(steps_eq_zero hi).mpr rfl] at hk
    omega
  rw [shifted,if_neg hne,if_neg (by omega)]

lemma update_after_next (hi : i<n) {j : ℕ} (hj : j+1<n) :
    Function.update slot i (some x) (after n (next n i) j)=slot (after n i (j+1)) := by
  rw [after_next hi]
  refine Function.update_of_ne (fun heq => ?_) ..
  have hsteps := steps_after hi hj
  rw [heq,(steps_eq_zero hi).mpr rfl] at hsteps
  omega

lemma shifted_succ {y : α} (hi : i<n) (hk : k+1<n) (hy : slot i=some y) {p : ℕ} (hp : p<n) :
    shifted n (Function.update slot i (some x)) (next n i) k y p=shifted n slot i (k+1) x p := by
  have hnext := next_lt hi
  by_cases hpi : p=i
  · subst p
    have hback : k<steps n (next n i) i := by
      simp only [steps,next]
      split_ifs <;> omega
    rw [shifted_of_lt hnext hback,Function.update_self,shifted,if_pos rfl]
  · have hsteps : steps n i p=steps n (next n i) p+1 := by
      have hi0 : steps n i p≠0 := fun hz => hpi ((steps_eq_zero hi).mp hz).symm
      revert hi0
      simp only [steps,next]
      split_ifs <;> omega
    have hlt := LinearProbe.steps_lt hi hp
    rw [shifted,shifted,if_neg hpi]
    by_cases hpn : p=next n i
    · rw [if_pos hpn,if_pos (by rw [hsteps,hpn,(steps_eq_zero hnext).mpr rfl]; omega),hsteps,
        hpn,(steps_eq_zero hnext).mpr rfl,after_zero hi,hy]
    · have hpos : steps n (next n i) p≠0 := fun hz =>
        hpn ((steps_eq_zero hnext).mp hz).symm
      obtain ⟨m,hm⟩ := Nat.exists_eq_add_one_of_ne_zero hpos
      rw [if_neg hpn,hsteps,hm]
      by_cases hle : m+1≤k
      · rw [if_pos hle,if_pos (by omega),Nat.add_sub_cancel,Nat.add_sub_cancel,
          update_after_next hi (by omega)]
      · rw [if_neg hle,if_neg (by omega)]
        exact Function.update_of_ne hpi ..

lemma shifted_origin (hi : i<n) {p : ℕ} (hp : p<n) (hpi : p≠i) {y : α}
    (hy : shifted n slot i k x p=some y) : ∃ q,q<n ∧ slot q=some y ∧
      p=if steps n i q<k then after n i (steps n i q+1) else q := by
  have hpos : 0<steps n i p := Nat.pos_of_ne_zero fun hz => hpi ((steps_eq_zero hi).mp hz).symm
  have hlt := LinearProbe.steps_lt hi hp
  rw [shifted,if_neg hpi] at hy
  split_ifs at hy with hle
  · have hsteps := steps_after hi (k := steps n i p-1) (by omega)
    refine ⟨_,after_lt (by omega) _ _,hy,?_⟩
    rw [hsteps,if_pos (by omega),Nat.sub_add_cancel hpos,after_steps hi hp]
  · exact ⟨p,hp,hy,by rw [if_neg (by omega)]⟩

lemma shifted_distinct {r : α → α → Prop} (hi : i<n)
    (hslot : ∀ p q y z,p<n → q<n → slot p=some y → slot q=some z → r y z → p=q)
    (hnew : ∀ p y,p<n → slot p=some y → ¬r x y ∧ ¬r y x) {p q : ℕ} {y z : α} (hp : p<n)
    (hq : q<n) (hy : shifted n slot i k x p=some y) (hz : shifted n slot i k x q=some z)
    (hr : r y z) : p=q := by
  by_cases hpi : p=i
  · by_cases hqi : q=i
    · rw [hpi,hqi]
    · rw [hpi,shifted,if_pos rfl] at hy
      cases hy
      obtain ⟨q',hq',hz',-⟩ := shifted_origin hi hq hqi hz
      exact absurd hr (hnew q' z hq' hz').1
  · obtain ⟨p',hp',hy',hpp⟩ := shifted_origin hi hp hpi hy
    by_cases hqi : q=i
    · rw [hqi,shifted,if_pos rfl] at hz
      cases hz
      exact absurd hr (hnew p' y hp' hy').2
    · obtain ⟨q',hq',hz',hqq⟩ := shifted_origin hi hq hqi hz
      rw [hpp,hqq,hslot p' q' y z hp' hq' hy' hz' hr]

lemma shifted_eq_some (hi : i<n) (hk : k<n) (hempty : slot (after n i k)=none) {y : α} :
    (∃ p,p<n ∧ shifted n slot i k x p=some y) ↔ y=x ∨ ∃ p,p<n ∧ slot p=some y := by
  constructor
  · rintro ⟨p,hp,hy⟩
    rw [shifted] at hy
    split_ifs at hy
    · exact .inl (some.inj hy).symm
    · exact .inr ⟨_,after_lt (by omega) _ _,hy⟩
    · exact .inr ⟨p,hp,hy⟩
  · rintro (rfl | ⟨p,hp,hy⟩)
    · exact ⟨i,hi,by rw [shifted,if_pos rfl]⟩
    · rcases lt_trichotomy (steps n i p) k with hlt | heq | hgt
      · refine ⟨after n i (steps n i p+1),after_lt (by omega) _ _,?_⟩
        rw [shifted_after hi (by omega) hlt,after_steps hi hp,hy]
      · rw [←heq,after_steps hi hp,hy] at hempty
        cases hempty
      · exact ⟨p,hp,by rw [shifted_of_lt hi hgt,hy]⟩

lemma shifted_ne_none (hi : i<n) (hk : k<n)
    (hfirst : ∀ j,j<k → slot (after n i j)≠none) {p : ℕ} (hp : p<n) :
    shifted n slot i k x p≠none ↔ slot p≠none ∨ p=after n i k := by
  by_cases hpi : p=i
  · subst p
    have hzero : steps n i i=0 := (steps_eq_zero hi).mpr rfl
    refine ⟨fun _ => ?_,fun _ => by rw [shifted,if_pos rfl]; exact some_ne_none _⟩
    rcases Nat.eq_zero_or_pos k with rfl | hpos
    · exact .inr (after_zero hi).symm
    · have hfree := hfirst 0 hpos
      rw [after_zero hi] at hfree
      exact .inl hfree
  · have hsteps : steps n i p≠0 := fun hz => hpi ((steps_eq_zero hi).mp hz).symm
    rw [shifted,if_neg hpi]
    split_ifs with hle
    · refine ⟨fun _ => ?_,fun _ => hfirst _ (by omega)⟩
      rcases lt_or_eq_of_le hle with hlt | heq
      · have hfree := hfirst _ hlt
        rw [after_steps hi hp] at hfree
        exact .inl hfree
      · exact .inr (by rw [←heq,after_steps hi hp])
    · refine ⟨.inl,fun h => h.resolve_right fun heq => ?_⟩
      rw [heq,steps_after hi hk] at hle
      exact hle (le_refl k)

lemma occupied_shifted (hi : i<n) (hk : k<n)
    (hfirst : ∀ j,j<k → slot (after n i j)≠none) :
    occupied n (shifted n slot i k x)=insert (after n i k) (occupied n slot) := by
  ext p
  rw [mem_insert,mem_occupied,mem_occupied]
  constructor
  · rintro ⟨hp,hne⟩
    exact ((shifted_ne_none hi hk hfirst hp).mp hne).symm.imp_right fun hs => ⟨hp,hs⟩
  · rintro (rfl | ⟨hp,hs⟩)
    · have hp := after_lt (n := n) (by omega) i k
      exact ⟨hp,(shifted_ne_none hi hk hfirst hp).mpr (.inr rfl)⟩
    · exact ⟨hp,(shifted_ne_none hi hk hfirst hp).mpr (.inl hs)⟩

lemma Clustered.shift (h : Clustered n slot home) (hhome : home x=i) (hi : i<n) (hk : k<n)
    (hempty : slot (after n i k)=none) (hfirst : ∀ j,j<k → slot (after n i j)≠none) :
    Clustered n (shifted n slot i k x) home := by
  have hn : 0<n := by omega
  have hmore : ∀ p,p<n → slot p≠none → shifted n slot i k x p≠none := fun p hp hs =>
    (shifted_ne_none hi hk hfirst hp).mpr (.inl hs)
  refine ⟨fun p y hp hy => ?_,fun p y hp hy j hj => ?_⟩
  · rcases (shifted_eq_some hi hk hempty).mp ⟨p,hp,hy⟩ with rfl | ⟨q,hq,hy⟩
    · rwa [hhome]
    · exact h.home_lt q y hq hy
  · rw [shifted] at hy
    split_ifs at hy with hpi hle
    · -- the new occupant is at its home
      obtain rfl := some.inj hy
      rw [hpi,hhome,(steps_eq_zero hi).mpr rfl] at hj
      exact absurd hj (not_lt_zero j)
    · -- moved on by one, over the slot that it leaves
      have hsteps : steps n i p≠0 := fun hz => hpi ((steps_eq_zero hi).mp hz).symm
      obtain ⟨m,hm⟩ := exists_eq_add_one_of_ne_zero hsteps
      have hplt := LinearProbe.steps_lt hi hp
      rw [hm,Nat.add_sub_cancel] at hy
      have hq := after_lt hn i m
      have hpq : p=next n (after n i m) := by rw [←after_one hq,after_after,←hm,after_steps hi hp]
      have hhy := h.home_lt _ y hq hy
      rw [hpq,steps_next hhy] at hj
      refine hmore _ (after_lt hn _ _) ?_
      split_ifs at hj
      · exact absurd hj (not_lt_zero j)
      · rcases lt_or_eq_of_le (le_of_lt_succ hj) with hlt | rfl
        · exact h.path _ y hq hy j hlt
        · rw [after_steps hhy hq,hy]
          exact some_ne_none y
    · exact hmore _ (after_lt hn _ _) (h.path p y hp hy j hj)

end Shift

section Cleared

variable {i c : ℕ}

def cleared (n : ℕ) (slot : ℕ → Option α) (i c : ℕ) (p : ℕ) : Option α :=
  if steps n i p<c then none else slot p

lemma cleared_eq_some {p : ℕ} {x : α} :
    cleared n slot i c p=some x ↔ slot p=some x ∧ c ≤ steps n i p := by
  rw [cleared]
  split_ifs with h
  · exact ⟨fun hx => (nomatch hx),fun hx => absurd h (by omega)⟩
  · exact ⟨fun hx => ⟨hx,by omega⟩,fun hx => hx.1⟩

lemma Clustered.clear (h : Clustered n slot home) (hi : i<n)
    (hend : c=n ∨ slot (after n i c)=none) : Clustered n (cleared n slot i c) home := by
  refine ⟨fun p x hp hx => h.home_lt p x hp (cleared_eq_some.mp hx).1,fun p x hp hx j hj => ?_⟩
  obtain ⟨hx,hc⟩ := cleared_eq_some.mp hx
  have hhome := h.home_lt p x hp hx
  have hlt := LinearProbe.steps_lt hi hp
  rcases hend with rfl | hend
  · omega
  have hq := after_lt (n := n) (by omega) (home x) j
  have hpath := h.path p x hp hx j hj
  intro hnone
  rw [cleared] at hnone
  split_ifs at hnone with hin
  · -- the way from there to `p` would lead over the empty slot
    have hjs : j<n := hj.trans (LinearProbe.steps_lt hhome hp)
    have hsplit := steps_add hhome hq hp (by rw [steps_after hhome hjs]; omega)
    rw [steps_after hhome hjs] at hsplit
    have hadd := steps_add hi hq hp (by omega)
    have hce : after n (home x) (j+(c-steps n i (after n (home x) j)))=after n i c := by
      rw [←after_after]
      have hback := after_steps hi hq
      calc after n (after n (home x) j) (c-steps n i (after n (home x) j))
          = after n (after n i (steps n i (after n (home x) j)))
              (c-steps n i (after n (home x) j)) := by rw [hback]
        _ = after n i c := by rw [after_after,Nat.add_sub_cancel' (by omega)]
    rcases Nat.lt_or_eq_of_le hc with hcp | hcp
    · have hbusy := h.path p x hp hx (j+(c-steps n i (after n (home x) j))) (by omega)
      rw [hce] at hbusy
      exact hbusy hend
    · rw [hcp,after_steps hi hp,hx] at hend
      cases hend
  · exact hpath hnone

lemma card_cleared (hi : i<n) (hc : c≤n) (hfull : ∀ j,j<c → slot (after n i j)≠none) :
    (occupied n (cleared n slot i c)).card+c=(occupied n slot).card := by
  have hn : 0<n := by omega
  have hsplit : occupied n slot =
      occupied n (cleared n slot i c)∪(range c).image (after n i) := by
    ext p
    simp only [mem_union,mem_occupied,mem_image,mem_range]
    constructor
    · rintro ⟨hp,hs⟩
      by_cases hin : steps n i p<c
      · exact .inr ⟨steps n i p,hin,after_steps hi hp⟩
      · exact .inl ⟨hp,by rwa [cleared,if_neg hin]⟩
    · rintro (⟨hp,hs⟩ | ⟨j,hj,rfl⟩)
      · rw [cleared] at hs
        split_ifs at hs
        · exact absurd rfl hs
        · exact ⟨hp,hs⟩
      · exact ⟨after_lt hn i j,hfull j hj⟩
  have hdisjoint : Disjoint (occupied n (cleared n slot i c))
      ((range c).image (after n i)) := by
    rw [disjoint_right]
    intro p hp hocc
    obtain ⟨j,hj,rfl⟩ := mem_image.mp hp
    have hjc := mem_range.mp hj
    have hne := (mem_occupied.mp hocc).2
    rw [cleared,steps_after hi (by omega),if_pos hjc] at hne
    exact hne rfl
  have hinj : ((range c).image (after n i)).card=c := by
    rw [Finset.card_image_of_injOn,Finset.card_range]
    intro j hj k hk heq
    have hj := mem_range.mp hj
    have hk := mem_range.mp hk
    have hsteps := congrArg (steps n i) heq
    rwa [steps_after hi (by omega),steps_after hi (by omega)] at hsteps
  rw [hsplit,card_union_of_disjoint hdisjoint,hinj]

end Cleared

end Darwin.Lib.Cluster
