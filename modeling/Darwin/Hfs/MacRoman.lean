import Mathlib.Data.UInt
import Mathlib.Tactic

/-! File names in MacRoman, as HFS volumes keep them, and in decomposed Unicode: the two
conversions of `bsd/hfs/hfs_encodings.c`. -/
open List
namespace Darwin.Hfs.MacRoman

inductive OSErr
  | noErr
  | kTECUsedFallbacksStatus
  | ENAMETOOLONG
  deriving DecidableEq,Repr

/-- A Pascal string of at most 31 bytes; its length byte is the length of `chars`. -/
@[ext] structure Str31 where
  chars : List UInt8
  length_le : chars.length≤31
  deriving DecidableEq

def fallback : UInt8 := 0x3f

def gLatin1Table : List UInt8 := [
  0xca,0xc1,0xa2,0xa3,0xdb,0xb4,0x3f,0xa4,0xac,0xa9,0xbb,0xc7,0xc2,0x3f,0xa8,0xf8,
  0xa1,0xb1,0x3f,0x3f,0xab,0xb5,0xa6,0xe1,0xfc,0x3f,0xbc,0xc8,0x3f,0x3f,0x3f,0xc0,
  0x3f,0x3f,0x3f,0x3f,0x3f,0x3f,0xae,0x3f,0x3f,0x3f,0x3f,0x3f,0x3f,0x3f,0x3f,0x3f,
  0x3f,0x3f,0x3f,0x3f,0x3f,0x3f,0x3f,0x3f,0xaf,0x3f,0x3f,0x3f,0x3f,0x3f,0x3f,0xa7,
  0x3f,0x3f,0x3f,0x3f,0x3f,0x3f,0xbe,0x3f,0x3f,0x3f,0x3f,0x3f,0x3f,0x3f,0x3f,0x3f,
  0x3f,0x3f,0x3f,0x3f,0x3f,0x3f,0x3f,0xd6,0xbf,0x3f,0x3f,0x3f,0x3f,0x3f,0x3f,0x3f]

def gSpaceModsTable : List UInt8 := [
  0x3f,0x3f,0x3f,0x3f,0x3f,0x3f,0xf6,0xff,0x3f,0x3f,0x3f,0x3f,0x3f,0x3f,0x3f,0x3f,
  0x3f,0x3f,0x3f,0x3f,0x3f,0x3f,0x3f,0x3f,0xf9,0xfa,0xfb,0xfe,0xf7,0xfd,0x3f,0x3f]

def gPunctTable : List UInt8 := [
  0x3f,0x3f,0x3f,0xd0,0xd1,0x3f,0x3f,0x3f,0xd4,0xd5,0xe2,0x3f,0xd2,0xd3,0xe3,0x3f,
  0xa0,0xe0,0xa5,0x3f,0x3f,0x3f,0xc9,0x3f,0x3f,0x3f,0x3f,0x3f,0x3f,0x3f,0x3f,0x3f,
  0xe4,0x3f,0x3f,0x3f,0x3f,0x3f,0x3f,0x3f,0x3f,0xdc,0xdd,0x3f,0x3f,0x3f,0x3f,0x3f,
  0x3f,0x3f,0x3f,0x3f,0xda,0x3f,0x3f,0x3f,0x3f,0x3f,0x3f,0x3f,0x3f,0x3f,0x3f,0x3f,
  0x3f,0x3f,0x3f,0x3f,0x3f,0x3f,0x3f,0x3f,0x3f,0x3f,0x3f,0x3f,0x3f,0x3f,0x3f,0x3f,
  0x3f,0x3f,0x3f,0x3f,0x3f,0x3f,0x3f,0x3f,0x3f,0x3f,0x3f,0x3f,0x3f,0x3f,0x3f,0x3f,
  0x3f,0x3f,0x3f,0x3f,0x3f,0x3f,0x3f,0x3f,0x3f,0x3f,0x3f,0x3f,0x3f,0x3f,0x3f,0x3f,
  0x3f,0x3f,0x3f,0x3f,0x3f,0x3f,0x3f,0x3f,0x3f,0x3f,0x3f,0x3f,0x3f,0x3f,0x3f,0x3f,
  0x3f,0x3f,0x3f,0x3f,0x3f,0x3f,0x3f,0x3f,0x3f,0x3f,0x3f,0x3f,0x3f,0x3f,0x3f,0x3f,
  0x3f,0x3f,0x3f,0x3f,0x3f,0x3f,0x3f,0x3f,0x3f,0x3f,0x3f,0x3f,0xdb,0x3f,0x3f,0x3f]

def gMathTable : List UInt8 := [
  0x3f,0x3f,0xb6,0x3f,0x3f,0x3f,0xc6,0x3f,0x3f,0x3f,0x3f,0x3f,0x3f,0x3f,0x3f,0xb8,
  0x3f,0xb7,0x3f,0x3f,0x3f,0x3f,0x3f,0x3f,0x3f,0x3f,0xc3,0x3f,0x3f,0x3f,0xb0,0x3f,
  0x3f,0x3f,0x3f,0x3f,0x3f,0x3f,0x3f,0x3f,0x3f,0x3f,0x3f,0xba,0x3f,0x3f,0x3f,0x3f,
  0x3f,0x3f,0x3f,0x3f,0x3f,0x3f,0x3f,0x3f,0x3f,0x3f,0x3f,0x3f,0x3f,0x3f,0x3f,0x3f,
  0x3f,0x3f,0x3f,0x3f,0x3f,0x3f,0x3f,0x3f,0xc5,0x3f,0x3f,0x3f,0x3f,0x3f,0x3f,0x3f,
  0x3f,0x3f,0x3f,0x3f,0x3f,0x3f,0x3f,0x3f,0x3f,0x3f,0x3f,0x3f,0x3f,0x3f,0x3f,0x3f,
  0xad,0x3f,0x3f,0x3f,0xb2,0xb3,0x3f,0x3f]

/-- For every base character from 0x40 on where its row begins, then the rows of the marks
0x0300 - 0x030A. -/
def gReverseCombTable : List UInt8 := [
  0xda,0x40,0xda,0xda,0xda,0x56,0xda,0xda,0xda,0x6c,0xda,0xda,0xda,0xda,0x82,0x98,
  0xda,0xda,0xda,0xda,0xda,0xae,0xda,0xda,0xda,0xc4,0xda,0xda,0xda,0xda,0xda,0xda,
  0xda,0x4b,0xda,0xda,0xda,0x61,0xda,0xda,0xda,0x77,0xda,0xda,0xda,0xda,0x8d,0xa3,
  0xda,0xda,0xda,0xda,0xda,0xb9,0xda,0xda,0xda,0xcf,0xda,0xda,0xda,0xda,0xda,0xda,
  0xcb,0xe7,0xe5,0xcc,0x3f,0x3f,0x3f,0x3f,0x80,0x3f,0x81,0x88,0x87,0x89,0x8b,0x3f,
  0x3f,0x3f,0x3f,0x8a,0x3f,0x8c,0xe9,0x83,0xe6,0x3f,0x3f,0x3f,0x3f,0x3f,0xe8,0x3f,
  0x3f,0x8f,0x8e,0x90,0x3f,0x3f,0x3f,0x3f,0x3f,0x91,0x3f,0x3f,0xed,0xea,0xeb,0x3f,
  0x3f,0x3f,0x3f,0x3f,0xec,0x3f,0x3f,0x93,0x92,0x94,0x3f,0x3f,0x3f,0x3f,0x3f,0x95,
  0x3f,0x3f,0x3f,0x3f,0x3f,0x84,0x3f,0x3f,0x3f,0x3f,0x3f,0x3f,0x3f,0x3f,0x3f,0x3f,
  0x96,0x3f,0x3f,0x3f,0x3f,0x3f,0x3f,0x3f,0xf1,0xee,0xef,0xcd,0x3f,0x3f,0x3f,0x3f,
  0x85,0x3f,0x3f,0x98,0x97,0x99,0x9b,0x3f,0x3f,0x3f,0x3f,0x9a,0x3f,0x3f,0xf4,0xf2,
  0xf3,0x3f,0x3f,0x3f,0x3f,0x3f,0x86,0x3f,0x3f,0x9d,0x9c,0x9e,0x3f,0x3f,0x3f,0x3f,
  0x3f,0x9f,0x3f,0x3f,0x3f,0x3f,0x3f,0x3f,0x3f,0x3f,0x3f,0x3f,0xd9,0x3f,0x3f,0x3f,
  0x3f,0x3f,0x3f,0x3f,0x3f,0x3f,0x3f,0xd8,0x3f,0x3f,0x3f,0x3f,0x3f,0x3f,0x3f,0x3f,
  0x3f,0x3f,0x3f,0x3f,0x3f]

def gHiBitBaseUnicode : List UInt16 := [0x0041,0x0041,0x0043,0x0045,0x004e,0x004f,0x0055,0x0061,
  0x0061,0x0061,0x0061,0x0061,0x0061,0x0063,0x0065,0x0065,
  0x0065,0x0065,0x0069,0x0069,0x0069,0x0069,0x006e,0x006f,
  0x006f,0x006f,0x006f,0x006f,0x0075,0x0075,0x0075,0x0075,
  0x2020,0x00b0,0x00a2,0x00a3,0x00a7,0x2022,0x00b6,0x00df,
  0x00ae,0x00a9,0x2122,0x00b4,0x00a8,0x2260,0x00c6,0x00d8,
  0x221e,0x00b1,0x2264,0x2265,0x00a5,0x00b5,0x2202,0x2211,
  0x220f,0x03c0,0x222b,0x00aa,0x00ba,0x03a9,0x00e6,0x00f8,
  0x00bf,0x00a1,0x00ac,0x221a,0x0192,0x2248,0x2206,0x00ab,
  0x00bb,0x2026,0x00a0,0x0041,0x0041,0x004f,0x0152,0x0153,
  0x2013,0x2014,0x201c,0x201d,0x2018,0x2019,0x00f7,0x25ca,
  0x0079,0x0059,0x2044,0x20ac,0x2039,0x203a,0xfb01,0xfb02,
  0x2021,0x00b7,0x201a,0x201e,0x2030,0x0041,0x0045,0x0041,
  0x0045,0x0045,0x0049,0x0049,0x0049,0x0049,0x004f,0x004f,
  0xf8ff,0x004f,0x0055,0x0055,0x0055,0x0131,0x02c6,0x02dc,
  0x00af,0x02d8,0x02d9,0x02da,0x00b8,0x02dd,0x02db,0x02c7]

def gHiBitCombUnicode : List UInt16 := [0x0308,0x030a,0x0327,0x0301,0x0303,0x0308,0x0308,0x0301,
  0x0300,0x0302,0x0308,0x0303,0x030a,0x0327,0x0301,0x0300,
  0x0302,0x0308,0x0301,0x0300,0x0302,0x0308,0x0303,0x0301,
  0x0300,0x0302,0x0308,0x0303,0x0301,0x0300,0x0302,0x0308,
  0x0000,0x0000,0x0000,0x0000,0x0000,0x0000,0x0000,0x0000,
  0x0000,0x0000,0x0000,0x0000,0x0000,0x0000,0x0000,0x0000,
  0x0000,0x0000,0x0000,0x0000,0x0000,0x0000,0x0000,0x0000,
  0x0000,0x0000,0x0000,0x0000,0x0000,0x0000,0x0000,0x0000,
  0x0000,0x0000,0x0000,0x0000,0x0000,0x0000,0x0000,0x0000,
  0x0000,0x0000,0x0000,0x0300,0x0303,0x0303,0x0000,0x0000,
  0x0000,0x0000,0x0000,0x0000,0x0000,0x0000,0x0000,0x0000,
  0x0308,0x0308,0x0000,0x0000,0x0000,0x0000,0x0000,0x0000,
  0x0000,0x0000,0x0000,0x0000,0x0000,0x0302,0x0302,0x0301,
  0x0308,0x0300,0x0301,0x0302,0x0308,0x0300,0x0301,0x0302,
  0x0000,0x0300,0x0301,0x0302,0x0300,0x0000,0x0000,0x0000,
  0x0000,0x0000,0x0000,0x0000,0x0000,0x0000,0x0000,0x0000]

def reverseComb (prevChar lsb : UInt8) : UInt8 :=
  gReverseCombTable.getD ((gReverseCombTable.getD (prevChar-0x40).toNat 0).toNat+lsb.toNat) 0

/-- The switch over a character that is not ASCII: what it is mapped to, and whether that takes the
place of the base character before it. -/
def mapped (c : UInt16) (prevChar : UInt8) : UInt8 × Bool :=
  let lsb := c.toUInt8
  if c&&&0xff00=0x0000 then
    (if 0xa0≤lsb then gLatin1Table.getD (lsb-0xa0).toNat fallback else fallback,false)
  else if c&&&0xff00=0x0200 then
    (if 0xc0≤lsb ∧ lsb≤0xdf then gSpaceModsTable.getD (lsb-0xc0).toNat fallback
      else fallback,false)
  else if c&&&0xff00=0x2000 then
    (if 0x10≤lsb ∧ lsb≤0xaf then gPunctTable.getD (lsb-0x10).toNat fallback
      else fallback,false)
  else if c&&&0xff00=0x2200 then
    (if lsb≤0x68 then gMathTable.getD lsb.toNat fallback else fallback,false)
  else if c&&&0xff00=0x0300 then
    if c≤0x030a then
      if 0x41≤prevChar ∧ prevChar<0x7a then (reverseComb prevChar lsb,true)
      else (fallback,false)
    else if c=0x0327 then
      if prevChar=0x43 then (0x82,true)
      else if prevChar=0x63 then (0x8d,true)
      else (fallback,false)
    else if c=0x03a9 then (0xbd,false)
    else if c=0x03c0 then (0xb9,false)
    else (fallback,false)
  else if c=0x0131 then (0xf5,false)
  else if c=0x0152 then (0xce,false)
  else if c=0x0153 then (0xcf,false)
  else if c=0x0192 then (0xc4,false)
  else if c=0x2122 then (0xaa,false)
  else if c=0x25ca then (0xd7,false)
  else if c=0xf8ff then (0xf0,false)
  else if c=0xfb01 then (0xde,false)
  else if c=0xfb02 then (0xdf,false)
  else (fallback,false)

def fromUnicode : List UInt16 → Str31 → UInt8 → OSErr → OSErr × Str31
  | [],hfsStr,_,result => (result,hfsStr)
  | c::uniStr,hfsStr,prevChar,result =>
    if c&&&0xff80=0 then
      if h : hfsStr.chars.length<31 then
        fromUnicode uniStr ⟨hfsStr.chars++[c.toUInt8],by simpa using h⟩ c.toUInt8 result
      else (.ENAMETOOLONG,hfsStr)
    else
      let mc := mapped c prevChar
      let chars := if mc.2 then hfsStr.chars.dropLast else hfsStr.chars
      let result := if mc.1=fallback then .kTECUsedFallbacksStatus else result
      if h : chars.length<31 then
        fromUnicode uniStr ⟨chars++[mc.1],by simpa using h⟩ 0 result
      else (.ENAMETOOLONG,⟨chars,by
        have := hfsStr.length_le
        grind⟩)

def unicodeToMacRoman (uniStr : List UInt16) : OSErr × Str31 :=
  fromUnicode (uniStr.take (uniStr.length%2^16)) ⟨[],Nat.zero_le 31⟩ 0 .noErr

/-- The code units of one character: a letter with a mark, or a character alone. -/
def unicodeChars (c : UInt8) : List UInt16 :=
  if c<0x80 then [c.toUInt16]
  else
    let uc := gHiBitBaseUnicode.getD (c&&&0x7f).toNat 0
    if uc≤0x7a ∧ 0x41≤uc then [uc,gHiBitCombUnicode.getD (c&&&0x7f).toNat 0] else [uc]

def macRomanToUnicode (hfsStr : Str31) : List UInt16 := hfsStr.chars.flatMap unicodeChars

lemma unicodeChars_ascii {c : UInt8} (h : c<0x80) : unicodeChars c=[c.toUInt16] := if_pos h

lemma mapped_alone {c : UInt16} (hmark : ¬c≤0x030a ∧ c≠0x0327 ∨ c&&&0xff00≠0x0300)
    (prevChar : UInt8) : mapped c prevChar=mapped c 0 := by
  unfold mapped
  grind

lemma ascii_low : ∀ i<128,(UInt8.ofNat i).toUInt16&&&0xff80=0 ∧
    (UInt8.ofNat i).toUInt16.toUInt8=UInt8.ofNat i := by
  decide

/-- A high character of the tables: a letter with a mark that is mapped back to it after the
letter, or a character alone that is mapped back wherever it stands. -/
def TablesMatch (c : UInt8) (units : List UInt16) : Prop :=
  (∃ b m,units=[b,m] ∧ b&&&0xff80=0 ∧ m&&&0xff80≠0 ∧ mapped m b.toUInt8=(c,true)) ∨
  ∃ u,units=[u] ∧ u&&&0xff80≠0 ∧ ∀ prevChar,mapped u prevChar=(c,false)

lemma high_tables : ∀ i<128,let c := UInt8.ofNat (128+i)
    let b := gHiBitBaseUnicode.getD i 0
    let m := gHiBitCombUnicode.getD i 0
    (c&&&0x7f).toNat=i ∧ ¬c<0x80 ∧ c≠fallback ∧
    if b≤0x7a ∧ 0x41≤b then
      b&&&0xff80=0 ∧ m&&&0xff80≠0 ∧ mapped m b.toUInt8=(c,true)
    else b&&&0xff80≠0 ∧ mapped b 0=(c,false) ∧ (¬b≤0x030a ∧ b≠0x0327 ∨ b&&&0xff00≠0x0300) := by
  decide +kernel

lemma unicodeChars_high {c : UInt8} (h : ¬c<0x80) :
    c≠fallback ∧ TablesMatch c (unicodeChars c) := by
  obtain ⟨i,hi,rfl⟩ : ∃ i<128,c=UInt8.ofNat (128+i) := by
    have hc : 128≤c.toNat := by simpa [UInt8.lt_iff_toNat_lt] using h
    refine ⟨c.toNat-128,by have := c.toNat_lt; omega,?_⟩
    rw [Nat.add_sub_cancel' hc,UInt8.ofNat_toNat]
  obtain ⟨hindex,hhigh,hne,hmatch⟩ := high_tables i hi
  refine ⟨hne,?_⟩
  simp only [unicodeChars,if_neg hhigh,hindex]
  split_ifs at hmatch ⊢ with hletter
  · exact .inl ⟨_,_,rfl,hmatch⟩
  · obtain ⟨hunit,hmapped,halone⟩ := hmatch
    exact .inr ⟨_,rfl,hunit,fun prevChar => (mapped_alone halone prevChar).trans hmapped⟩

lemma fromUnicode_unicodeChars (c : UInt8) (uniStr : List UInt16) {chars : List UInt8}
    (hlen : chars.length<31) (prevChar : UInt8) (result : OSErr) :
    ∃ prevChar',fromUnicode (unicodeChars c++uniStr) ⟨chars,hlen.le⟩ prevChar result =
      fromUnicode uniStr ⟨chars++[c],by simpa using hlen⟩ prevChar' result := by
  by_cases hascii : c<0x80
  · obtain ⟨hlow,hbyte⟩ : c.toUInt16&&&0xff80=0 ∧ c.toUInt16.toUInt8=c := by
      have hc : c.toNat<128 := by simpa [UInt8.lt_iff_toNat_lt] using hascii
      simpa [UInt8.ofNat_toNat] using ascii_low c.toNat hc
    refine ⟨c,?_⟩
    rw [unicodeChars_ascii hascii,singleton_append,fromUnicode]
    simp only [hlow,hbyte,if_true,dif_pos hlen]
  · obtain ⟨hne,⟨b,m,hunits,hb,hm,hmapped⟩ | ⟨u,hunits,hu,hmapped⟩⟩ := unicodeChars_high hascii
    · refine ⟨0,?_⟩
      rw [hunits]
      simp only [cons_append,nil_append,fromUnicode,hb,if_true,dif_pos hlen,
        if_neg hm,hmapped,if_neg hne,dropLast_concat]
    · refine ⟨0,?_⟩
      rw [hunits]
      simp only [cons_append,nil_append,fromUnicode,if_neg hu,hmapped,if_neg hne,
        dif_pos hlen,Bool.false_eq_true,if_false]

lemma fromUnicode_flatMap (s chars : List UInt8) (hlen : (chars++s).length≤31)
    (prevChar : UInt8) (result : OSErr) :
    fromUnicode (s.flatMap unicodeChars) ⟨chars,by simp at hlen; omega⟩ prevChar result =
      (result,⟨chars++s,hlen⟩) := by
  induction s generalizing chars prevChar with
  | nil => simp [fromUnicode]
  | cons c s ih =>
    have hroom : chars.length<31 := by
      rw [length_append,length_cons] at hlen
      omega
    obtain ⟨prevChar',hone⟩ :=
      fromUnicode_unicodeChars c (s.flatMap unicodeChars) hroom prevChar result
    rw [flatMap_cons,hone,ih (chars++[c]) (by simpa using hlen)]
    simp

lemma unicodeChars_length_le (c : UInt8) : (unicodeChars c).length≤2 := by
  simp only [unicodeChars]
  split_ifs <;> simp

lemma macRomanToUnicode_length_le (hfsStr : Str31) : (macRomanToUnicode hfsStr).length≤62 := by
  have hle : ∀ s : List UInt8,(s.flatMap unicodeChars).length≤2*s.length := by
    intro s
    induction s with
    | nil => simp
    | cons c s ih =>
      have := unicodeChars_length_le c
      rw [flatMap_cons,length_append,length_cons]
      omega
  have := hle hfsStr.chars
  have := hfsStr.length_le
  rw [macRomanToUnicode]
  omega

/-- Every MacRoman name comes back from decomposed Unicode as it was, without an error. -/
theorem unicodeToMacRoman_macRomanToUnicode (hfsStr : Str31) :
    unicodeToMacRoman (macRomanToUnicode hfsStr)=(.noErr,hfsStr) := by
  have hlen := macRomanToUnicode_length_le hfsStr
  rw [unicodeToMacRoman,Nat.mod_eq_of_lt (by omega),take_length]
  exact fromUnicode_flatMap hfsStr.chars [] hfsStr.length_le 0 .noErr

end Darwin.Hfs.MacRoman
