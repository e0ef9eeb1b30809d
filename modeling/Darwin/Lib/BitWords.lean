import Mathlib.Tactic

/-! Bitmaps kept in lists of words, numbered from the most significant bit of the first
word on. -/
open Function List Nat
namespace Darwin.Lib.BitWords

section
variable {w : ℕ}

def bitOf (f : ℕ → BitVec w) (i : ℕ) : Bool := (f (i/w)).getMsbD (i%w)

def bitAt (ws : List (BitVec w)) (i : ℕ) : Bool := bitOf (fun j => ws.getD j 0) i

lemma bitOf_update (f : ℕ → BitVec w) (j : ℕ) (x : BitVec w) (i : ℕ) :
    bitOf (update f j x) i=if i/w=j then x.getMsbD (i%w) else bitOf f i := by
  by_cases h : i/w=j
  · rw [bitOf,if_pos h,h,update_self]
  · rw [bitOf,if_neg h,update_of_ne h,bitOf]

def oneBit (w b : ℕ) : BitVec w := 1#w<<<(w-1-b)

lemma getMsbD_oneBit {b i : ℕ} (hb : b<w) : (oneBit w b).getMsbD i=decide (i=b) := by
  rw [oneBit,BitVec.getMsbD_eq_getLsbD,BitVec.getLsbD_shiftLeft,BitVec.getLsbD_one]
  rcases lt_trichotomy i b with hlt | rfl | hgt
  · have h0 : ¬w-1-i-(w-1-b)=0 := by omega
    simp [h0,hlt.ne]
  · simp [hb,show w-1-i<w by omega,show 0<w by omega]
  · by_cases hi : i<w
    · have h0 : w-1-i<w-1-b := by omega
      simp [h0,hgt.ne']
    · simp [hi,hgt.ne']

lemma and_oneBit_eq_zero {b : ℕ} (hb : b<w) (x : BitVec w) :
    x&&&oneBit w b=0 ↔ x.getMsbD b=false := by
  constructor
  · intro h
    have := congrArg (fun y : BitVec w => y.getMsbD b) h
    simpa [getMsbD_oneBit hb] using this
  · intro h
    apply BitVec.eq_of_getMsbD_eq
    intro i _
    rw [BitVec.getMsbD_and,getMsbD_oneBit hb]
    by_cases hi : i=b
    · simp [hi,h]
    · simp [hi]

lemma oneBit_ushiftRight {b : ℕ} (hb : b+1<w) : oneBit w b>>>1=oneBit w (b+1) := by
  apply BitVec.eq_of_getMsbD_eq
  intro i hi
  rw [BitVec.getMsbD_ushiftRight,getMsbD_oneBit hb,getMsbD_oneBit (lt_of_succ_lt hb)]
  rcases i with _ | i
  · simp
  · simp [hi]

lemma oneBit_zero_ushiftRight {b : ℕ} (hb : b<w) : oneBit w 0>>>b=oneBit w b := by
  apply BitVec.eq_of_getMsbD_eq
  intro i hi
  rw [BitVec.getMsbD_ushiftRight,getMsbD_oneBit hb,getMsbD_oneBit (zero_lt_of_lt hb)]
  rcases lt_trichotomy i b with hlt | rfl | hgt
  · simp [hlt,hlt.ne]
  · simp [hb]
  · simp [hi,not_lt.mpr hgt.le,hgt.ne',sub_ne_zero_of_lt hgt]

lemma oneBit_last_ushiftRight : oneBit w (w-1)>>>1=0 := by
  apply BitVec.eq_of_getMsbD_eq
  intro i hi
  rw [BitVec.getMsbD_ushiftRight,getMsbD_oneBit (by omega)]
  rcases i with _ | i
  · simp
  · have : ¬i=w-1 := by omega
    simp [this]

lemma oneBit_shiftLeft {b : ℕ} (hb : b+1<w) : oneBit w (b+1)<<<1=oneBit w b := by
  apply BitVec.eq_of_getMsbD_eq
  intro i hi
  rw [BitVec.getMsbD_shiftLeft,getMsbD_oneBit hb,getMsbD_oneBit (lt_of_succ_lt hb),decide_eq_decide]
  omega

lemma oneBit_zero_shiftLeft : oneBit w 0<<<1=0 := by
  apply BitVec.eq_of_getMsbD_eq
  intro i hi
  rw [BitVec.getMsbD_shiftLeft,getMsbD_oneBit (by omega)]
  simp

lemma oneBit_ne_zero {b : ℕ} (hb : b<w) : oneBit w b≠0 := by
  intro h
  have := congrArg (fun x : BitVec w => x.getMsbD b) h
  simp [getMsbD_oneBit hb] at this

variable {ws : List (BitVec w)}

lemma bitAt_of_allOnes {i : ℕ} (hw : 0<w)
    (h : ws.getD (i/w) 0=BitVec.allOnes w) : bitAt ws i=true := by
  rw [bitAt,bitOf,h,BitVec.getMsbD_allOnes,decide_eq_true (mod_lt i hw)]

lemma bitAt_of_length_le {i : ℕ} (h : w*ws.length ≤ i) (hw : 0<w) : bitAt ws i=false := by
  have hlen : ws.length ≤ i/w := (le_div_iff_mul_le hw).mpr (by rwa [mul_comm])
  rw [bitAt,bitOf,getD_eq_getElem?_getD,getElem?_eq_none hlen]
  simp

lemma bitAt_set {j : ℕ} (hj : j<ws.length) (x : BitVec w) (i : ℕ) :
    bitAt (ws.set j x) i=if i/w=j then x.getMsbD (i%w) else bitAt ws i := by
  simp only [bitAt,bitOf,getD_eq_getElem?_getD,getElem?_set]
  by_cases h : j=i/w
  · rw [if_pos h,if_pos h.symm,if_pos hj,Option.getD_some]
  · rw [if_neg h,if_neg (fun h' => h h'.symm)]

lemma bitAt_append_left {l m : List (BitVec w)} {i : ℕ} (hi : i<w*l.length) :
    bitAt (l++m) i=bitAt l i := by
  have hd : i/w<l.length := Nat.div_lt_of_lt_mul hi
  simp only [bitAt,bitOf,getD_eq_getElem?_getD,getElem?_append_left hd]

lemma bitAt_append_right (hw : 0<w) (l m : List (BitVec w)) (i : ℕ) :
    bitAt (l++m) (w*l.length+i)=bitAt m i := by
  simp only [bitAt,bitOf,mul_add_div hw,mul_add_mod,getD_eq_getElem?_getD]
  rw [getElem?_append_right (Nat.le_add_right _ _),Nat.add_sub_cancel_left]

lemma bitAt_replicate_zero (n i : ℕ) : bitAt (replicate n (0 : BitVec w)) i=false := by
  rw [bitAt,bitOf,getD_eq_getElem?_getD,getElem?_replicate]
  split_ifs <;> simp

lemma bitAt_append_zeros (hw : 0<w) (l : List (BitVec w)) (n i : ℕ) :
    bitAt (l++replicate n 0) i=bitAt l i := by
  rcases lt_or_ge i (w*l.length) with hi | hi
  · exact bitAt_append_left hi
  · obtain ⟨j,rfl⟩ := Nat.exists_eq_add_of_le hi
    rw [bitAt_append_right hw,bitAt_replicate_zero,bitAt_of_length_le hi hw]

lemma bitAt_set_or (hw : 0<w) {n : ℕ} (hn : n<w*ws.length) (i : ℕ) :
    bitAt (ws.set (n/w) (ws.getD (n/w) 0|||oneBit w (n%w))) i=(bitAt ws i || decide (i=n)) := by
  have hm : n%w<w := Nat.mod_lt n hw
  rw [bitAt_set (Nat.div_lt_of_lt_mul hn)]
  split_ifs with hi
  · rw [BitVec.getMsbD_or,getMsbD_oneBit hm,bitAt,bitOf,hi]
    congr 1
    rw [decide_eq_decide]
    constructor
    · intro h
      rw [←Nat.div_add_mod i w,←Nat.div_add_mod n w,hi,h]
    · rintro rfl
      rfl
  · have hne : i≠n := by
      rintro rfl
      exact hi rfl
    simp [hne]

lemma bitAt_set_and (hw : 0<w) {n : ℕ} (hn : n<w*ws.length) (i : ℕ) :
    bitAt (ws.set (n/w) (ws.getD (n/w) 0&&&~~~oneBit w (n%w))) i =
      (bitAt ws i && !decide (i=n)) := by
  have hm : n%w<w := Nat.mod_lt n hw
  rw [bitAt_set (Nat.div_lt_of_lt_mul hn)]
  split_ifs with hi
  · rw [BitVec.getMsbD_and,BitVec.getMsbD_not,getMsbD_oneBit hm,bitAt,bitOf,hi,
      decide_eq_true (Nat.mod_lt i hw),Bool.true_and]
    congr 2
    rw [decide_eq_decide]
    constructor
    · intro h
      rw [←div_add_mod i w,←div_add_mod n w,hi,h]
    · rintro rfl
      rfl
  · have hne : i≠n := by
      rintro rfl
      exact hi rfl
    simp [hne]

end

def clearBelow (f : ℕ → Bool) (n : ℕ) : ℕ := Nat.count (fun i => f i=false) n

lemma clearBelow_eq_card (f : ℕ → Bool) (n : ℕ) :
    clearBelow f n=((Finset.range n).filter fun i => f i=false).card :=
  count_eq_card_filter_range _ _

lemma clearBelow_congr {f g : ℕ → Bool} {n : ℕ} (h : ∀ i<n,f i=g i) :
    clearBelow f n=clearBelow g n := by
  rw [clearBelow_eq_card,clearBelow_eq_card]
  congr 1
  apply Finset.filter_congr
  intro i hi
  rw [h i (Finset.mem_range.mp hi)]

lemma clearBelow_of_clear {f : ℕ → Bool} {a b : ℕ} (hab : a≤b)
    (hf : ∀ i,a ≤ i → i<b → f i=false) : clearBelow f b=clearBelow f a+(b-a) := by
  induction b,hab using le_induction with
  | base => rw [Nat.sub_self,Nat.add_zero]
  | succ b hb ih =>
    rw [clearBelow,count_succ,if_pos (hf b hb (lt_succ_self b)),succ_sub hb,add_succ]
    exact congrArg (· + 1) (ih fun i hi hib => hf i hi (lt_succ_of_lt hib))

lemma clearBelow_add_card {f g : ℕ → Bool} {n : ℕ} {s : Finset ℕ} (hs : ∀ i∈s,i<n)
    (hf : ∀ i∈s,f i=false) (hg : ∀ i∈s,g i=true) (hfg : ∀ i<n,i∉s → g i=f i) :
    clearBelow g n+s.card=clearBelow f n := by
  rw [clearBelow_eq_card,clearBelow_eq_card]
  have hdisj : Disjoint ((Finset.range n).filter fun i => g i=false) s := by
    rw [Finset.disjoint_left]
    intro i hi his
    rw [Finset.mem_filter,hg i his] at hi
    exact absurd hi.2 (by decide)
  rw [←Finset.card_union_of_disjoint hdisj]
  congr 1
  ext i
  simp only [Finset.mem_union,Finset.mem_filter,Finset.mem_range]
  by_cases his : i∈s
  · simp [his,hs i his,hf i his]
  · simp only [his,or_false]
    constructor
    · rintro ⟨hi,h⟩
      exact ⟨hi,hfg i hi his▸h⟩
    · rintro ⟨hi,h⟩
      exact ⟨hi,(hfg i hi his).trans h⟩

lemma clearBelow_of_set {f : ℕ → Bool} {n : ℕ} (h : ∀ i<n,f i=true) : clearBelow f n=0 := by
  rw [clearBelow_eq_card,Finset.card_eq_zero,Finset.filter_eq_empty_iff]
  intro i hi
  rw [h i (Finset.mem_range.mp hi)]
  decide

lemma exists_clear_of_pos {f : ℕ → Bool} {n : ℕ} (h : 0<clearBelow f n) : ∃ i<n,f i=false := by
  rw [clearBelow_eq_card,Finset.card_pos] at h
  obtain ⟨i,hi⟩ := h
  rw [Finset.mem_filter,Finset.mem_range] at hi
  exact ⟨i,hi⟩

end Darwin.Lib.BitWords
