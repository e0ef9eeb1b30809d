import Mathlib.Data.UInt
import Mathlib.Tactic

/-! Big-endian numbers in byte lists. -/
open List Nat
namespace Darwin.Lib.Bytes

def ofBytes (l : List UInt8) : ℕ := l.foldl (fun n b => n*256+b.toNat) 0

def toBytes : ℕ → ℕ → List UInt8
  | 0,_ => []
  | w+1,n => toBytes w (n/256)++[UInt8.ofNat n]

@[simp] lemma length_toBytes (w n : ℕ) : (toBytes w n).length=w := by
  induction w generalizing n with
  | zero => rfl
  | succ w ih => simp [toBytes,ih]

lemma ofBytes_concat (l : List UInt8) (b : UInt8) : ofBytes (l++[b])=ofBytes l*256+b.toNat := by
  simp [ofBytes]

lemma ofBytes_toBytes (w n : ℕ) : ofBytes (toBytes w n)=n%256^w := by
  induction w generalizing n with
  | zero => simp [toBytes,ofBytes,mod_one]
  | succ w ih =>
    have hb : (UInt8.ofNat n).toNat=n%256 := by simp
    rw [toBytes,ofBytes_concat,ih,hb,pow_succ,mul_comm (256^w),mod_mul]
    ring

lemma ofBytes_lt (l : List UInt8) : ofBytes l<256^l.length := by
  induction l using reverseRecOn with
  | nil => exact one_pos
  | append_singleton l b ih =>
    have hb := b.toNat_lt
    rw [ofBytes_concat,length_append,length_singleton,pow_succ]
    omega

lemma toBytes_ofBytes (l : List UInt8) : toBytes l.length (ofBytes l)=l := by
  induction l using reverseRecOn with
  | nil => rfl
  | append_singleton l b ih =>
    have hb := b.toNat_lt
    have hdiv : (ofBytes l*256+b.toNat)/256=ofBytes l := by omega
    have hlow : UInt8.ofNat (ofBytes l*256+b.toNat)=b := by
      refine UInt8.toNat_inj.mp ?_
      rw [UInt8.toNat_ofNat']
      omega
    rw [length_append,length_singleton,ofBytes_concat,toBytes,hdiv,ih,hlow]

end Darwin.Lib.Bytes
