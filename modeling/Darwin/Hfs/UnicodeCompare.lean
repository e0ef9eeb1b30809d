import Mathlib.Data.UInt
import Mathlib.Tactic

/-! The order of the names in an HFS Plus catalog: `FastUnicodeCompare` of
`bsd/hfs/hfscommon/Unicode/UnicodeWrappers.c`. -/
open List Nat
namespace Darwin.Hfs.UnicodeCompare

def gLatinCaseFold : List UInt16 := [
  0xffff,0x01,0x02,0x03,0x04,0x05,0x06,0x07,0x08,0x09,0x0a,0x0b,0x0c,0x0d,0x0e,0x0f,
  0x10,0x11,0x12,0x13,0x14,0x15,0x16,0x17,0x18,0x19,0x1a,0x1b,0x1c,0x1d,0x1e,0x1f,
  0x20,0x21,0x22,0x23,0x24,0x25,0x26,0x27,0x28,0x29,0x2a,0x2b,0x2c,0x2d,0x2e,0x2f,
  0x30,0x31,0x32,0x33,0x34,0x35,0x36,0x37,0x38,0x39,0x3a,0x3b,0x3c,0x3d,0x3e,0x3f,
  0x40,0x61,0x62,0x63,0x64,0x65,0x66,0x67,0x68,0x69,0x6a,0x6b,0x6c,0x6d,0x6e,0x6f,
  0x70,0x71,0x72,0x73,0x74,0x75,0x76,0x77,0x78,0x79,0x7a,0x5b,0x5c,0x5d,0x5e,0x5f,
  0x60,0x61,0x62,0x63,0x64,0x65,0x66,0x67,0x68,0x69,0x6a,0x6b,0x6c,0x6d,0x6e,0x6f,
  0x70,0x71,0x72,0x73,0x74,0x75,0x76,0x77,0x78,0x79,0x7a,0x7b,0x7c,0x7d,0x7e,0x7f,
  0x80,0x81,0x82,0x83,0x84,0x85,0x86,0x87,0x88,0x89,0x8a,0x8b,0x8c,0x8d,0x8e,0x8f,
  0x90,0x91,0x92,0x93,0x94,0x95,0x96,0x97,0x98,0x99,0x9a,0x9b,0x9c,0x9d,0x9e,0x9f,
  0xa0,0xa1,0xa2,0xa3,0xa4,0xa5,0xa6,0xa7,0xa8,0xa9,0xaa,0xab,0xac,0xad,0xae,0xaf,
  0xb0,0xb1,0xb2,0xb3,0xb4,0xb5,0xb6,0xb7,0xb8,0xb9,0xba,0xbb,0xbc,0xbd,0xbe,0xbf,
  0xc0,0xc1,0xc2,0xc3,0xc4,0xc5,0xe6,0xc7,0xc8,0xc9,0xca,0xcb,0xcc,0xcd,0xce,0xcf,
  0xf0,0xd1,0xd2,0xd3,0xd4,0xd5,0xd6,0xd7,0xf8,0xd9,0xda,0xdb,0xdc,0xdd,0xfe,0xdf,
  0xe0,0xe1,0xe2,0xe3,0xe4,0xe5,0xe6,0xe7,0xe8,0xe9,0xea,0xeb,0xec,0xed,0xee,0xef,
  0xf0,0xf1,0xf2,0xf3,0xf4,0xf5,0xf6,0xf7,0xf8,0xf9,0xfa,0xfb,0xfc,0xfd,0xfe,0xff]

/-- What a character is folded to, or 0 for one that is ignored. The table begins with an offset for
every high byte, which is 0 if no character with that high byte is folded or ignored. -/
def caseFold (lowerCaseTable : ℕ → UInt16) (c : UInt16) : UInt16 :=
  if c<0x0100 then gLatinCaseFold.getD c.toNat 0
  else
    let temp := lowerCaseTable (c>>>8).toNat
    if temp≠0 then lowerCaseTable (temp.toNat+(c&&&0x00ff).toNat) else c

section
variable (lowerCaseTable : ℕ → UInt16)

/-- The next character that is not ignored, or 0 if there is none, and what comes after it. A
character of basic Latin ends the search, whatever it is folded to. -/
def nextChar : List UInt16 → UInt16 × List UInt16
  | [] => (0,[])
  | c::str =>
    if c<0x0100 then (caseFold lowerCaseTable c,str)
    else if caseFold lowerCaseTable c=0 then nextChar str
    else (caseFold lowerCaseTable c,str)

lemma nextChar_length_lt {str : List UInt16} (h : (nextChar lowerCaseTable str).1≠0) :
    (nextChar lowerCaseTable str).2.length<str.length := by
  induction str with
  | nil => exact absurd rfl h
  | cons c str ih =>
    rw [nextChar] at h ⊢
    split_ifs at h ⊢
    · exact lt_succ_self _
    · exact (ih h).trans (lt_succ_self _)
    · exact lt_succ_self _

def fastUnicodeCompare (str1 str2 : List UInt16) : ℤ :=
  if (nextChar lowerCaseTable str1).1=(nextChar lowerCaseTable str2).1 then
    if _h : (nextChar lowerCaseTable str1).1=0 then 0
    else
      fastUnicodeCompare (nextChar lowerCaseTable str1).2 (nextChar lowerCaseTable str2).2
  else if (nextChar lowerCaseTable str1).1<(nextChar lowerCaseTable str2).1 then -1 else 1
termination_by str1.length
decreasing_by exact nextChar_length_lt lowerCaseTable _h

def folded (str : List UInt16) : List UInt16 :=
  (str.map (caseFold lowerCaseTable)).filter (·≠0)

end

lemma gLatinCaseFold_ne_zero : ∀ i<256,gLatinCaseFold.getD i 0≠0 := by decide +kernel

lemma caseFold_latin {lowerCaseTable : ℕ → UInt16} {c : UInt16} (h : c<0x0100) :
    caseFold lowerCaseTable c≠0 := by
  rw [caseFold,if_pos h]
  exact gLatinCaseFold_ne_zero c.toNat (UInt16.lt_iff_toNat_lt.mp h)

section
variable {lowerCaseTable : ℕ → UInt16}

lemma folded_cons_of_eq {c : UInt16} {str : List UInt16} (h : caseFold lowerCaseTable c=0) :
    folded lowerCaseTable (c::str)=folded lowerCaseTable str := by
  rw [folded,map_cons,filter_cons_of_neg (by simpa using h)]
  rfl

lemma folded_cons_of_ne {c : UInt16} {str : List UInt16} (h : caseFold lowerCaseTable c≠0) :
    folded lowerCaseTable (c::str)=caseFold lowerCaseTable c::folded lowerCaseTable str := by
  rw [folded,map_cons,filter_cons_of_pos (by simpa using h)]
  rfl

lemma nextChar_cases (str : List UInt16) :
    (folded lowerCaseTable str=[] ∧ (nextChar lowerCaseTable str).1=0) ∨
    ((nextChar lowerCaseTable str).1≠0 ∧ folded lowerCaseTable str =
      (nextChar lowerCaseTable str).1::folded lowerCaseTable (nextChar lowerCaseTable str).2) := by
  induction str with
  | nil => exact .inl ⟨rfl,rfl⟩
  | cons c str ih =>
    rw [nextChar]
    split_ifs with hlatin h
    · exact .inr ⟨caseFold_latin hlatin,folded_cons_of_ne (caseFold_latin hlatin)⟩
    · rw [folded_cons_of_eq h]
      exact ih
    · exact .inr ⟨h,folded_cons_of_ne h⟩

def sign : Ordering → ℤ
  | .lt => -1
  | .eq => 0
  | .gt => 1

lemma compare_cons_cons {x y : UInt16} {xs ys : List UInt16} :
    compare (x::xs) (y::ys)=(compare x y).then (compare xs ys) := by
  rw [List.compare_eq_compareLex,List.compareLex_cons_cons]

lemma fastUnicodeCompare_eq (str1 str2 : List UInt16) :
    fastUnicodeCompare lowerCaseTable str1 str2 =
      sign (compare (folded lowerCaseTable str1) (folded lowerCaseTable str2)) := by
  induction hn : str1.length using Nat.strong_induction_on generalizing str1 str2 with
  | _ n ih =>
    rw [fastUnicodeCompare]
    rcases @nextChar_cases lowerCaseTable str1 with ⟨h1,hc1⟩ | ⟨hc1,h1⟩ <;>
      rcases @nextChar_cases lowerCaseTable str2 with ⟨h2,hc2⟩ | ⟨hc2,h2⟩
    · rw [h1,h2,hc1,hc2,if_pos rfl,dif_pos rfl]
      rfl
    · rw [h1,h2,hc1,if_neg hc2.symm,if_pos (UInt16.pos_iff_ne_zero.mpr hc2)]
      rfl
    · rw [h1,h2,hc2,if_neg hc1,if_neg UInt16.not_lt_zero]
      rfl
    · rw [h1,h2,compare_cons_cons]
      split_ifs with heq hlt
      · rw [ih _ (hn▸nextChar_length_lt lowerCaseTable hc1) _ _ rfl,heq,Std.ReflOrd.compare_self]
        rfl
      · rw [Std.compare_eq_lt.mpr hlt]
        rfl
      · rw [Std.compare_eq_gt.mpr (UInt16.lt_of_le_of_ne (UInt16.not_lt.mp hlt) (Ne.symm heq))]
        rfl

/-- A total preorder on the names, in which those are equal that agree in the characters that
count. -/
theorem fastUnicodeCompare_preorder (lowerCaseTable : ℕ → UInt16) :
    (∀ a b,fastUnicodeCompare lowerCaseTable a b=- fastUnicodeCompare lowerCaseTable b a) ∧
    (∀ a b c,fastUnicodeCompare lowerCaseTable a b≤0 → fastUnicodeCompare lowerCaseTable b c≤0 →
      fastUnicodeCompare lowerCaseTable a c≤0) ∧
    (∀ a b,fastUnicodeCompare lowerCaseTable a b≤0 ∨ fastUnicodeCompare lowerCaseTable b a≤0) ∧
    ∀ a b,fastUnicodeCompare lowerCaseTable a b=0 ↔
      folded lowerCaseTable a=folded lowerCaseTable b := by
  have hle : ∀ o : Ordering,sign o≤0 ↔ o.isLE := by decide
  have hswap : ∀ o : Ordering,sign o.swap=- sign o := by decide
  have hzero : ∀ o : Ordering,sign o=0 ↔ o=.eq := by decide
  have hanti : ∀ a b,fastUnicodeCompare lowerCaseTable a b =
      - fastUnicodeCompare lowerCaseTable b a := by
    intro a b
    rw [fastUnicodeCompare_eq,fastUnicodeCompare_eq,Std.OrientedOrd.eq_swap,hswap]
  refine ⟨hanti,fun a b c => ?_,fun a b => ?_,fun a b => ?_⟩
  · rw [fastUnicodeCompare_eq,fastUnicodeCompare_eq,fastUnicodeCompare_eq,hle,hle,hle]
    exact Std.TransOrd.isLE_trans
  · rw [hanti b a]
    omega
  · rw [fastUnicodeCompare_eq,hzero]
    exact Std.LawfulEqCmp.compare_eq_iff_eq

end

end Darwin.Hfs.UnicodeCompare
