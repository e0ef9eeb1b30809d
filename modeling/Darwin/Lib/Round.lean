import Mathlib.Tactic

/-! Rounding machine words up with a mask: `(x + m) & ~m`. -/
open Nat BitVec
namespace Darwin.Lib.Round

/-- `x` rounded up with mask `m`; for `m = 2^k - 1` this is the next multiple of `2^k`. -/
def roundUp {w : ℕ} (x m : BitVec w) : BitVec w := (x+m)&&&~~~m

def IsMask {w : ℕ} (m : BitVec w) : Prop := ∃ k,m.toNat=2^k-1

variable {w : ℕ}

lemma and_not_add_and (y m : BitVec w) : (y&&&~~~m).toNat+(y&&&m).toNat=y.toNat := by
  have hz : (y&&&~~~m)&&&(y&&&m)=0#w := by
    ext i hi
    simp only [getElem_and,getElem_not,getElem_zero]
    cases y[i] <;> cases m[i] <;> rfl
  have ho : (y&&&~~~m)|||(y&&&m)=y := by
    ext i hi
    simp only [getElem_or,getElem_and,getElem_not]
    cases y[i] <;> cases m[i] <;> rfl
  rw [←toNat_add_of_and_eq_zero hz,add_eq_or_of_and_eq_zero _ _ hz,ho]

lemma and_le_right (y m : BitVec w) : (y&&&m).toNat ≤ m.toNat := by
  rw [toNat_and]
  exact Nat.and_le_right

lemma le_roundUp {x m : BitVec w} (h : x.toNat+m.toNat<2^w) :
    x.toNat≤(roundUp x m).toNat ∧ (roundUp x m).toNat≤x.toNat+m.toNat := by
  have hs := and_not_add_and (x+m) m
  have hm := and_le_right (x+m) m
  rw [toNat_add,mod_eq_of_lt h] at hs
  unfold roundUp
  omega

lemma roundUp_eq_mul_div {m : BitVec w} (hm : IsMask m) (x : BitVec w) :
    (roundUp x m).toNat=(m.toNat+1)*((x+m).toNat/(m.toNat+1)) := by
  obtain ⟨k,hk⟩ := hm
  have hp : 0<2^k := Nat.two_pow_pos k
  have hs := and_not_add_and (x+m) m
  have ha : ((x+m)&&&m).toNat=(x+m).toNat%2^k := by rw [toNat_and,hk,and_two_pow_sub_one_eq_mod]
  have hd := div_add_mod (x+m).toNat (2^k)
  rw [show m.toNat+1=2^k by omega]
  unfold roundUp
  omega

lemma roundUp_mod {m : BitVec w} (hm : IsMask m) (x : BitVec w) :
    (roundUp x m).toNat%(m.toNat+1)=0 := by
  rw [roundUp_eq_mul_div hm]
  exact mul_mod_right _ _

def ceilTo (n m : ℕ) : ℕ := (m+1)*((n+m)/(m+1))

lemma le_ceilTo (n m : ℕ) : n≤ceilTo n m := by
  have h := div_add_mod (n+m) (m+1)
  have hlt : (n+m)%(m+1) < m+1 := mod_lt _ (by omega)
  unfold ceilTo
  omega

lemma IsMask.dvd {m : BitVec w} (hm : IsMask m) : m.toNat+1 ∣ 2^w := by
  obtain ⟨k,hk⟩ := hm
  have hp : 0<2^k := Nat.two_pow_pos k
  have hlt := m.isLt
  rw [hk,Nat.sub_add_cancel hp]
  exact Nat.pow_dvd_pow 2 ((Nat.pow_le_pow_iff_right (a := 2) (by omega)).mp (by omega))

lemma roundUp_toNat {m : BitVec w} (hm : IsMask m) (x : BitVec w) :
    (roundUp x m).toNat=ceilTo x.toNat m.toNat%2^w := by
  obtain ⟨c,hc⟩ := hm.dvd
  rw [roundUp_eq_mul_div hm,toNat_add,ceilTo,hc,mod_mul_right_div_self,mul_mod_mul_left]

end Darwin.Lib.Round
