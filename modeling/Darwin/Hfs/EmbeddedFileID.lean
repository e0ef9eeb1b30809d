import Darwin.Hfs.MangledName
import Darwin.Vfs.UtfRoundTrip

/-! Which mangled names give their file ID back. The formatter drops zeros that come right
after the first digit. -/
open List Nat
namespace Darwin.Hfs
open Vfs

/-! ### The digits of a file ID -/

lemma translate_spec {d : ℕ} (h : d<16) :
    translate.getD d 0≠0 ∧ translate.getD d 0≠hash ∧ isHexDigit (translate.getD d 0)=true ∧
      extensionChar (translate.getD d 0)=true ∧ translate.getD d 0≠dot ∧
      (translate.getD d 0=0x30 ↔ d=0) := by
  have hall : ∀ d,d<16 → translate.getD d 0≠0 ∧ translate.getD d 0≠hash ∧
      isHexDigit (translate.getD d 0)=true ∧ extensionChar (translate.getD d 0)=true ∧
      translate.getD d 0≠dot ∧ (translate.getD d 0=0x30 ↔ d=0) := by decide
  exact hall d h

lemma hexStringLoop_translate {d : ℕ} (h : d<16) (value : ℕ) (p : List ℕ) :
    hexStringLoop value (translate.getD d 0::p)=hexStringLoop ((value*16+d)%2^32) p := by
  have hall : ∀ d,d<16 →
      (0x30≤translate.getD d 0 ∧ translate.getD d 0≤0x39 ∧ translate.getD d 0-0x30=d) ∨
      (¬(0x30≤translate.getD d 0 ∧ translate.getD d 0≤0x39) ∧ 0x41≤translate.getD d 0 ∧
        translate.getD d 0≤0x46 ∧ 10+(translate.getD d 0-0x41)=d) := by decide
  rw [hexStringLoop,shiftLeft_eq]
  obtain ⟨h1,h2,h3⟩ | ⟨h1,h2,h3,h4⟩ := hall d h
  · rw [if_pos ⟨h1,h2⟩,h3]
  · rw [if_neg h1,if_pos ⟨h2,h3⟩,h4]

lemma nibble_eq (fileID k : ℕ) : (fileID>>>(4*k))&&&0xf=fileID/16^k%16 := by
  rw [show 0xf=2^4-1 from rfl,and_low,shiftRight_eq_div_pow,pow_mul]
  rfl

lemma fileIDDigits_succ (fileID k i : ℕ) : fileIDDigits fileID (k+1) i =
      if fileID/16^k%16≠0 ∨ 1 < i ∨ k=0 then
        translate.getD (fileID/16^k%16) 0::fileIDDigits fileID k (i+1)
      else fileIDDigits fileID k i := by
  have hd : fileID/16^k%16<16 := mod_lt _ (by decide)
  simp only [fileIDDigits,nibble_eq,ne_eq,(translate_spec hd).2.2.2.2.2]

lemma mem_fileIDDigits {fileID k i c : ℕ} (h : c∈fileIDDigits fileID k i) :
    ∃ d,d<16 ∧ c=translate.getD d 0 := by
  induction k generalizing i with
  | zero => cases h
  | succ k ih =>
    rw [fileIDDigits_succ] at h
    split_ifs at h
    · rcases mem_cons.mp h with rfl | h
      · exact ⟨_,mod_lt _ (by decide),rfl⟩
      · exact ih h
    · exact ih h

lemma fileIDDigits_length_le (fileID k i : ℕ) : (fileIDDigits fileID k i).length≤k := by
  induction k generalizing i with
  | zero => exact le_rfl
  | succ k ih =>
    rw [fileIDDigits_succ]
    split_ifs
    · rw [length_cons]
      exact succ_le_succ (ih _)
    · exact (ih i).trans (le_succ k)

lemma fileIDDigits_pos (fileID k i : ℕ) : 0<(fileIDDigits fileID (k+1) i).length := by
  induction k generalizing i with
  | zero =>
    rw [fileIDDigits_succ,if_pos (Or.inr (Or.inr rfl))]
    exact succ_pos _
  | succ k ih =>
    rw [fileIDDigits_succ]
    by_cases hc : fileID/16^(k+1)%16≠0 ∨ 1 < i ∨ k+1=0
    · rw [if_pos hc]
      exact succ_pos _
    · rw [if_neg hc]
      exact ih i

lemma hexStringLoop_fileIDDigits {fileID k i value : ℕ} (hi : 1 < i)
    (h : value*16^k+fileID%16^k<2^32) :
    hexStringLoop value (fileIDDigits fileID k i)=value*16^k+fileID%16^k := by
  induction k generalizing i value with
  | zero => simp [fileIDDigits,hexStringLoop,mod_one]
  | succ k ih =>
    have hd : fileID/16^k%16<16 := mod_lt _ (by decide)
    have hsplit : value*16^(k+1)+fileID%16^(k+1)=(value*16+fileID/16^k%16)*16^k+fileID%16^k := by
      rw [pow_succ,mod_mul]
      ring
    rw [hsplit] at h ⊢
    have hpos : 0<16^k := Nat.pow_pos (by decide)
    have hlt : value*16+fileID/16^k%16<2^32 :=
      (Nat.le_mul_of_pos_right _ hpos).trans_lt (by omega)
    rw [fileIDDigits_succ,if_pos (Or.inr (Or.inl hi)),hexStringLoop_translate hd,
      mod_eq_of_lt hlt,ih (by omega) h]

lemma hexStringLoop_lt {l : List ℕ} (h : ∀ c,c∈l → ∃ d,d<16 ∧ c=translate.getD d 0)
    (value : ℕ) : hexStringLoop value l<(value+1)*16^l.length := by
  induction l generalizing value with
  | nil => simp [hexStringLoop]
  | cons c l ih =>
    obtain ⟨d,hd,rfl⟩ := h c mem_cons_self
    rw [hexStringLoop_translate hd,length_cons,pow_succ]
    have hrest := ih (fun c hc => h c (mem_cons_of_mem _ hc)) ((value*16+d)%2^32)
    have hmod : (value*16+d)%2^32+1≤(value+1)*16 := by
      have := mod_le (value*16+d) (2^32)
      omega
    calc hexStringLoop ((value*16+d)%2^32) l
        < ((value*16+d)%2^32+1)*16^l.length := hrest
      _≤((value+1)*16)*16^l.length := mul_le_mul_right _ hmod
      _ = (value+1)*(16^l.length*16) := by ring

lemma fileIDDigits_leading {fileID L k : ℕ} (h : fileID<16^(L+1)) (hk : L+1≤k) :
    fileIDDigits fileID k 0=fileIDDigits fileID (L+1) 0 := by
  induction k,hk using le_induction with
  | base => rfl
  | succ k hk ih =>
    have hlt : fileID<16^k := h.trans_le (Nat.pow_le_pow_right (by decide) hk)
    rw [fileIDDigits_succ,div_eq_of_lt hlt,if_neg (by omega),ih]

/-- All digits of the file ID are printed: it has two, or its second one is not zero. -/
def AllDigitsShown (fileID : ℕ) : Prop :=
  fileID<16^2 ∨ fileID/16^(log 16 fileID-1)%16≠0

instance (fileID : ℕ) : Decidable (AllDigitsShown fileID) := instDecidableOr

lemma fileIDDigits_first {fileID : ℕ} (h16 : 16≤fileID) (h32 : fileID<2^32) :
    ∃ L,log 16 fileID=L+1 ∧ 16^(L+1)≤fileID ∧ fileID<16^(L+2) ∧ fileIDDigits fileID 8 0 =
        translate.getD (fileID/16^(L+1)) 0::fileIDDigits fileID (L+1) 1 := by
  obtain ⟨L,hL⟩ : ∃ L,log 16 fileID=L+1 :=
    ⟨_,(Nat.sub_add_cancel (Nat.log_pos (by decide) h16)).symm⟩
  have hlow : 16^(L+1)≤fileID := hL▸pow_log_le_self 16 (by omega)
  have hhigh : fileID<16^(L+2) := by
    have := lt_pow_succ_log_self (show 1<16 by decide) fileID
    rwa [hL] at this
  have hL7 : L+2≤8 := by
    by_contra hlt
    have : 16^8≤16^(L+1) := Nat.pow_le_pow_right (by decide) (by omega)
    omega
  have hdigit : fileID/16^(L+1)<16 := by
    rw [Nat.div_lt_iff_lt_mul (Nat.pow_pos (by decide)),Nat.mul_comm]
    exact hhigh
  have hpos : 0<fileID/16^(L+1) := Nat.div_pos hlow (Nat.pow_pos (by decide))
  refine ⟨L,hL,hlow,hhigh,?_⟩
  rw [fileIDDigits_leading hhigh hL7,fileIDDigits_succ,mod_eq_of_lt hdigit,if_pos (Or.inl hpos.ne')]

lemma fileIDDigits_two {fileID : ℕ} (h16 : 16≤fileID) (h32 : fileID<2^32) :
    2≤(fileIDDigits fileID 8 0).length := by
  obtain ⟨L,-,-,-,hfirst⟩ := fileIDDigits_first h16 h32
  rw [hfirst,length_cons]
  exact succ_le_succ (fileIDDigits_pos fileID L 1)

lemma hexStringToInteger_fileIDDigits {fileID : ℕ} (h16 : 16≤fileID) (h32 : fileID<2^32) :
    hexStringToInteger (fileIDDigits fileID 8 0)=fileID ↔ AllDigitsShown fileID := by
  obtain ⟨L,hL,hlow,hhigh,hfirst⟩ := fileIDDigits_first h16 h32
  have hdigit : fileID/16^(L+1)<16 := by
    rw [Nat.div_lt_iff_lt_mul (Nat.pow_pos (by decide)),Nat.mul_comm]
    exact hhigh
  have hfirst32 : fileID/16^(L+1)<2^32 := by omega
  rw [hfirst,hexStringToInteger,hexStringLoop_translate hdigit,zero_mul,zero_add,
    Nat.mod_eq_of_lt hfirst32,AllDigitsShown,hL,Nat.add_sub_cancel,fileIDDigits_succ]
  by_cases hshown : fileID/16^L%16≠0 ∨ L=0
  · have hsecond : fileID/16^(L+1)*16+fileID/16^L%16=fileID/16^L := by
      rw [Nat.pow_succ,←Nat.div_div_eq_div_mul]
      omega
    have hvalue : fileID/16^L*16^L+fileID%16^L=fileID := by
      rw [mul_comm]
      exact div_add_mod _ _
    have hle : fileID/16^L<2^32 := (Nat.div_le_self _ _).trans_lt h32
    rw [if_pos (by tauto),hexStringLoop_translate (mod_lt _ (by decide)),hsecond,
      mod_eq_of_lt hle,hexStringLoop_fileIDDigits (by decide) (by omega)]
    refine iff_of_true hvalue ?_
    rcases hshown with hs | rfl
    · exact Or.inr hs
    · exact Or.inl hhigh
  · push Not at hshown
    rw [if_neg (by omega)]
    -- one digit fewer than the file ID has
    have hlt := hexStringLoop_lt (fun c hc => mem_fileIDDigits hc) (fileID/16^(L+1))
      (l := fileIDDigits fileID L 1)
    have hlen : 16^(fileIDDigits fileID L 1).length≤16^L :=
      Nat.pow_le_pow_right (by decide) (fileIDDigits_length_le _ _ _)
    have hbound : (fileID/16^(L+1)+1)*16^(fileIDDigits fileID L 1).length≤16^(L+1) := by
      calc (fileID/16^(L+1)+1)*16^(fileIDDigits fileID L 1).length
          ≤ 16*16^L := Nat.mul_le_mul (by omega) hlen
        _ = 16^(L+1) := by ring
    refine iff_of_false (hlt.trans_le (hbound.trans hlow)).ne ?_
    rintro (hsmall | hs)
    · have : 16^2≤16^(L+1) := Nat.pow_le_pow_right (by decide) (by omega)
      omega
    · exact hs hshown.1

/-! ### Extensions -/

/-- A dot and one to five extension characters, or nothing. -/
inductive IsExtension : List ℕ → Prop
  | none : IsExtension []
  | dot (e : List ℕ) (hpos : 0<e.length) (hle : e.length≤5)
      (hchars : ∀ c,c∈e → extensionChar c=true) : IsExtension (dot::e)

lemma extensionChar_spec {c : ℕ} (h : extensionChar c=true) :
    c<0x80 ∧ c≠0 ∧ c≠dot ∧ c≠slash ∧ c≠hash := by
  simp only [extensionChar,Bool.or_eq_true,Bool.and_eq_true,decide_eq_true_eq] at h
  simp only [dot,slash,hash]
  omega

lemma scanExtension_dot {e rest : List ℕ} {left k : ℕ}
    (h : ∀ c,c∈e → extensionChar c=true) (hleft : e.length<left) :
    scanExtension (e++dot::rest) left k=e.length+k := by
  induction e generalizing left k with
  | nil =>
    obtain ⟨left,rfl⟩ : ∃ l,left=l+1 := ⟨left-1,by rw [length_nil] at hleft; omega⟩
    simp [scanExtension]
  | cons c e ih =>
    rw [length_cons] at hleft ⊢
    obtain ⟨left,rfl⟩ : ∃ l,left=l+1 := ⟨left-1,by omega⟩
    have hc := h c mem_cons_self
    rw [cons_append,scanExtension,if_neg (extensionChar_spec hc).2.2.1,if_pos hc,
      ih (fun c hc => h c (mem_cons_of_mem _ hc)) (by omega)]
    omega

lemma scanExtension_hash {e rest : List ℕ} {left k : ℕ}
    (h : ∀ c,c∈e → extensionChar c=true) : scanExtension (e++hash::rest) left k=0 := by
  induction e generalizing left k with
  | nil =>
    cases left with
    | zero => rfl
    | succ left => rfl
  | cons c e ih =>
    have hc := h c mem_cons_self
    cases left with
    | zero => rfl
    | succ left =>
      rw [cons_append,scanExtension,if_neg (extensionChar_spec hc).2.2.1,if_pos hc,
        ih fun c hc => h c (mem_cons_of_mem _ hc)]

lemma scanExtension_found {r : List ℕ} {left k : ℕ} (h : scanExtension r left k≠0) :
    ∃ e rest,r=e++dot::rest ∧ (∀ c,c∈e → extensionChar c=true) ∧ e.length<left ∧
      scanExtension r left k=e.length+k := by
  induction r generalizing left k with
  | nil => cases left <;> exact absurd rfl h
  | cons c r ih =>
    cases left with
    | zero => exact absurd rfl h
    | succ left =>
      rw [scanExtension] at h ⊢
      split_ifs at h ⊢ with hdot hchar
      · exact ⟨[],r,by rw [hdot]; rfl,fun c hc => (not_mem_nil hc).elim,succ_pos _,
          (zero_add k).symm⟩
      · obtain ⟨e,rest,rfl,he,hlt,hn⟩ := ih h
        refine ⟨c::e,rest,rfl,fun x hx => ?_,succ_lt_succ hlt,?_⟩
        · rcases mem_cons.mp hx with rfl | hx
          · exact hchar
          · exact he x hx
        · rw [hn,length_cons]
          omega
      · exact absurd rfl h

lemma maxExtChars_le (length : ℕ) : maxExtChars length≤5 := by
  rw [maxExtChars,maxFileExtensionChars]
  split_ifs <;> omega

lemma getFilenameExtension_spec (unicodeStr : List ℕ) :
    IsExtension (getFilenameExtension unicodeStr) ∧
      unicodeStr.take (unicodeStr.length-(getFilenameExtension unicodeStr).length) ++
        getFilenameExtension unicodeStr=unicodeStr := by
  rw [getFilenameExtension]
  split_ifs with hshort
  · exact ⟨.none,by simp⟩
  dsimp only
  split_ifs with hnone
  · exact ⟨.none,by simp⟩
  obtain ⟨e,rest,hr,he,hlt,hn⟩ := scanExtension_found hnone
  have hstr : unicodeStr=rest.reverse++dot::e.reverse := by
    rw [←reverse_reverse unicodeStr,hr]
    simp
  have hlen : unicodeStr.length-(e.length+1)=rest.reverse.length := by
    rw [hstr]
    simp
  rw [add_zero] at hn
  have hdrop : unicodeStr.drop (unicodeStr.length-(e.length+1))=dot::e.reverse := by
    rw [hlen]
    conv_lhs => rw [hstr]
    exact drop_left
  have hmap : (dot::e.reverse).map (· % 2^8)=dot::e.reverse := by
    refine (map_congr_left fun c hc => ?_).trans (map_id _)
    rcases mem_cons.mp hc with rfl | hc
    · rfl
    · have := (extensionChar_spec (he c (mem_reverse.mp hc))).1
      exact mod_eq_of_lt (by omega)
  rw [hn] at hnone ⊢
  rw [hdrop,hmap]
  have hle := maxExtChars_le unicodeStr.length
  refine ⟨.dot _ (by rw [length_reverse]; omega) (by rw [length_reverse]; omega)
    fun c hc => he c (mem_reverse.mp hc),?_⟩
  rw [length_cons,length_reverse,hlen]
  conv_lhs => rw [hstr]
  rw [take_left]
  exact hstr.symm

lemma IsExtension.length_le {ext : List ℕ} (h : IsExtension ext) : ext.length≤6 := by
  cases h with
  | none => decide
  | dot e hpos hle hchars => exact succ_le_succ hle

lemma IsExtension.mem {ext : List ℕ} (h : IsExtension ext) {c : ℕ} (hc : c∈ext) :
    c<0x80 ∧ c≠0 ∧ c≠slash := by
  cases h with
  | none => cases hc
  | dot e hpos hle hchars =>
    rcases mem_cons.mp hc with rfl | hc
    · decide
    · have hspec := extensionChar_spec (hchars c hc)
      exact ⟨hspec.1,hspec.2.1,hspec.2.2.2.1⟩

lemma IsExtension.encoded_length {ext : List ℕ} (h : ∀ c,c∈ext → c<0x80 ∧ c≠0 ∧ c≠slash) :
    (encoded colon noFlags ext).length=ext.length := by
  induction ext with
  | nil => rfl
  | cons c ext ih =>
    obtain ⟨hlt,h0,hs⟩ := h c mem_cons_self
    have hunit : unitToEncode colon noFlags c=c := if_neg fun hc => hs hc.2
    rw [encoded_cons,hunit,encodeUnit_one hlt h0,length_append,
      ih fun c hc => h c (mem_cons_of_mem _ hc),show (c::ext).length=ext.length+1 from rfl,
      length_singleton,add_comm]

/-! ### Mangled names -/

lemma encodeLoop_initial {altslash limit : ℕ} {flags : UtfFlags} (n : ℕ) (ucs : List ℕ) :
    (encodeLoop altslash flags limit n ucs).2 <+: encoded altslash flags ucs := by
  induction ucs generalizing n with
  | nil => exact nil_prefix
  | cons ch ucs ih =>
    simp only [encodeLoop]
    split_ifs
    · exact nil_prefix
    · exact (prefix_append_right_inj _).mpr (ih _)

lemma takeWhile_terminated {l : List ℕ} (h : ∀ c,c∈l → c≠0) :
    (l++[0]).takeWhile (·≠0)=l := by
  rw [takeWhile_append_of_pos fun c hc => decide_eq_true (h c hc)]
  simp

lemma scanFileID_hash {r rest digits : List ℕ}
    (h : ∀ c,c∈r → c≠hash ∧ isHexDigit c=true) : scanFileID (r++hash::rest) digits =
      if r.length+digits.length+1<3 then (0,0)
      else (hexStringToInteger (r.reverse++digits),rest.length) := by
  induction r generalizing digits with
  | nil => simp [scanFileID]
  | cons c r ih =>
    obtain ⟨hne,hhex⟩ := h c mem_cons_self
    rw [cons_append,scanFileID,if_neg hne,if_pos hhex,
      ih fun c hc => h c (mem_cons_of_mem _ hc)]
    simp only [length_cons,reverse_cons,append_assoc,singleton_append]
    congr 1
    rw [eq_iff_iff]
    omega

lemma getEmbeddedFileID_mangled {stem digits ext tail : List ℕ}
    (hdigits : ∀ c,c∈digits → c≠hash ∧ isHexDigit c=true ∧ extensionChar c=true)
    (hext : IsExtension ext) (htwo : 2≤digits.length)
    (h28 : 28≤(stem++hash::digits++ext).length)
    (hshort : (stem++hash::digits++ext).length≤2^15) :
    getEmbeddedFileID (stem++hash::digits++ext++tail)
      (stem++hash::digits++ext).length=(hexStringToInteger digits,stem.length) := by
  obtain ⟨n,hn⟩ : ∃ n,n=(stem++hash::digits++ext).length := ⟨_,rfl⟩
  have hcut : n-ext.length=(stem++hash::digits).length := by
    rw [hn,length_append,Nat.add_sub_cancel]
  have hcount : countFilenameExtensionChars (stem++hash::digits++ext++tail) n=ext.length-1 := by
    rw [countFilenameExtensionChars,if_neg (by omega),hn,take_left]
    have hdigits' : ∀ c,c∈digits.reverse → extensionChar c=true := fun c hc =>
      (hdigits c (mem_reverse.mp hc)).2.2
    cases hext with
    | none =>
      have hr : (stem++hash::digits++[]).reverse=digits.reverse++hash::stem.reverse := by simp
      rw [hr,scanExtension_hash hdigits']
      rfl
    | dot e hpos hle hchars =>
      have hr : (stem++hash::digits++dot::e).reverse =
          e.reverse++dot::(stem++hash::digits).reverse := by simp
      have hmax : maxExtChars (stem++hash::digits++dot::e).length=5 :=
        if_neg (by rw [maxFileExtensionChars]; omega)
      rw [hr,hmax,scanExtension_dot (fun c hc => hchars c (mem_reverse.mp hc)) (by
        rw [length_reverse]
        omega)]
      simp
  have hstem : (stem++hash::digits).length=stem.length+digits.length+1 := by
    simp only [length_append,length_cons]
    omega
  have htake : (stem++hash::digits++ext++tail).take (stem++hash::digits).length =
      stem++hash::digits := by
    rw [append_assoc,take_left]
  have hr : (stem++hash::digits).reverse=digits.reverse++hash::stem.reverse := by simp
  rw [←hn] at h28 hshort ⊢
  have hlength : (if 0<ext.length-1 then n-(ext.length-1+1) else n) =
      (stem++hash::digits).length := by
    rw [←hcut]
    cases hext with
    | none => rfl
    | dot e hpos hle hchars => rw [length_cons,Nat.add_sub_cancel,if_pos hpos]
  have hn0 : n≠0 := by omega
  have h5 : 5<n := by omega
  simp only [getEmbeddedFileID,if_neg hn0,if_pos h5,hcount,hlength]
  rw [if_neg (by omega)]
  have hmod : ((stem++hash::digits).length-1)%2^16=(stem++hash::digits).length-1 :=
    mod_eq_of_lt (by omega)
  rw [hmod,if_neg (by omega),Nat.sub_add_cancel (by omega),htake,hr,
    scanFileID_hash (fun c hc => ⟨(hdigits c (mem_reverse.mp hc)).1,
      (hdigits c (mem_reverse.mp hc)).2.1⟩),length_reverse,if_neg (by simp; omega)]
  simp

/-- A mangled name is a cut name, a marker with digits and an extension. It is as long as the
buffer allows, but for three bytes, if the whole name does not fit. -/
lemma convertUnicodeToUTF8Mangled_spec {srcStr : List ℕ} (hunits : ∀ ch,ch∈srcStr → ch<2^16)
    {maxDstLen : ℕ} (hmin : 16 ≤ maxDstLen) (hmax : maxDstLen<2^32) (cnid : ℕ) :
    ∃ stem ext,IsExtension ext ∧ (∀ c∈stem,c≠0) ∧ stem <+: encoded colon noFlags srcStr ∧
      convertUnicodeToUTF8Mangled srcStr maxDstLen cnid =
        (stem++hash::fileIDDigits cnid 8 0++ext++[0],
          (stem++hash::fileIDDigits cnid 8 0++ext).length,stem.length) ∧
      (stem++hash::fileIDDigits cnid 8 0++ext).length ≤ maxDstLen-1 ∧
      ((utf8Encodestr srcStr maxDstLen colon noFlags).1≠none →
        maxDstLen≤(stem++hash::fileIDDigits cnid 8 0++ext).length+3) := by
  obtain ⟨hext,hsplit⟩ := getFilenameExtension_spec srcStr
  obtain ⟨ext,hextdef⟩ : ∃ ext,ext=getFilenameExtension srcStr := ⟨_,rfl⟩
  obtain ⟨src,hsrc⟩ : ∃ src,src=srcStr.take (srcStr.length-ext.length) := ⟨_,rfl⟩
  obtain ⟨digits,hdigits⟩ : ∃ digits,digits=fileIDDigits cnid 8 0 := ⟨_,rfl⟩
  rw [←hextdef] at hext hsplit
  rw [←hsrc] at hsplit
  rw [←hdigits]
  have hdlen : digits.length≤8 := hdigits▸fileIDDigits_length_le cnid 8 0
  have helen := hext.length_le
  have hroom : (2^32+maxDstLen-(ext.length+(hash::digits).length))%2^32 =
      maxDstLen-(ext.length+(digits.length+1)) := by
    rw [length_cons]
    omega
  obtain ⟨limit,hlimit⟩ : ∃ limit,limit=maxDstLen-(ext.length+(digits.length+1))-1 :=
    ⟨_,rfl⟩
  obtain ⟨stem,hstem⟩ : ∃ stem,stem=(encodeLoop colon noFlags limit 0 src).2 := ⟨_,rfl⟩
  have hunits' : ∀ ch,ch∈src → ch<2^16 := fun ch hch =>
    hunits ch (mem_of_mem_take (hsrc▸hch))
  have hstem0 : ∀ c,c∈stem → c≠0 := fun c hc =>
    mem_encodeLoop_ne_zero (by decide) hunits' (hstem▸hc)
  have hboth0 : ∀ c,c∈stem++hash::digits → c≠0 := by
    intro c hc
    rcases mem_append.mp hc with hc | hc
    · exact hstem0 c hc
    rcases mem_cons.mp hc with rfl | hc
    · decide
    · obtain ⟨d,hd,rfl⟩ := mem_fileIDDigits (hdigits▸hc)
      exact (translate_spec hd).1
  have hlen : (stem++hash::digits++ext).length=stem.length+(ext.length+(digits.length+1)) := by
    simp only [length_append,length_cons]
    omega
  have hinit : stem <+: encoded colon noFlags srcStr := by
    rw [hstem,←hsplit,encoded,flatMap_append]
    exact (encodeLoop_initial 0 src).trans (prefix_append _ _)
  refine ⟨stem,ext,hext,hstem0,hinit,?_,?_,fun hlong => ?_⟩
  · have hutf8 : (utf8Encodestr src (maxDstLen-(ext.length+(digits.length+1))) colon
        noFlags).2=stem := by
      rw [hstem,hlimit]
      rfl
    rw [convertUnicodeToUTF8Mangled,getFileIDString,←hextdef,←hsrc,←hdigits]
    simp only [hroom,hutf8]
    rw [strcat,strcat,takeWhile_terminated hstem0,takeWhile_terminated hboth0,hlen,length_cons]
  · have hle := encodeLoop_length_le colon noFlags src (zero_le limit)
    rw [←hstem] at hle
    omega
  · -- the whole name and its part before the extension are too long
    have hwhole : maxDstLen-1<(encoded colon noFlags srcStr).length := by
      by_contra hle
      exact hlong (congrArg Prod.fst (utf8Encodestr_fits (by omega)))
    have hparts : (encoded colon noFlags srcStr).length =
        (encoded colon noFlags src).length+ext.length := by
      rw [←IsExtension.encoded_length fun c hc => hext.mem hc]
      conv_lhs => rw [←hsplit]
      rw [encoded,flatMap_append,length_append]
      rfl
    have hcut := encodeLoop_cut colon noFlags src (show limit<0+_ by omega)
    rw [←hstem] at hcut
    omega

/-- The file ID and the length of the cut name come back from a mangled name exactly if all
digits of the file ID are shown and the name has 28 bytes, as the names that do not fit into a
directory entry all have. -/
theorem getEmbeddedFileID_iff {srcStr : List ℕ} (hunits : ∀ ch,ch∈srcStr → ch<2^16)
    {maxDstLen cnid : ℕ} (hmin : 31 ≤ maxDstLen) (hmax : maxDstLen≤2^15) (h16 : 16≤cnid)
    (h32 : cnid<2^32) : (getEmbeddedFileID (convertUnicodeToUTF8Mangled srcStr maxDstLen cnid).1
        (convertUnicodeToUTF8Mangled srcStr maxDstLen cnid).2.1 =
      (cnid,(convertUnicodeToUTF8Mangled srcStr maxDstLen cnid).2.2) ↔
        AllDigitsShown cnid ∧ 28≤(convertUnicodeToUTF8Mangled srcStr maxDstLen cnid).2.1) ∧
    ((utf8Encodestr srcStr maxDstLen colon noFlags).1≠none →
      28≤(convertUnicodeToUTF8Mangled srcStr maxDstLen cnid).2.1) := by
  obtain ⟨stem,ext,hext,-,-,hmangled,hle,hlong⟩ :=
    convertUnicodeToUTF8Mangled_spec hunits (show 16 ≤ maxDstLen by omega) (by omega) cnid
  have htwo := fileIDDigits_two h16 h32
  rw [hmangled]
  dsimp only
  refine ⟨?_,fun h => by have := hlong h; omega⟩
  by_cases h28 : 28≤(stem++hash::fileIDDigits cnid 8 0++ext).length
  · rw [getEmbeddedFileID_mangled (fun c hc => ?_) hext htwo h28 (by omega),Prod.mk.injEq,
      hexStringToInteger_fileIDDigits h16 h32]
    · exact ⟨fun h => ⟨h.1,h28⟩,fun h => ⟨h.1,rfl⟩⟩
    · obtain ⟨d,hd,rfl⟩ := mem_fileIDDigits hc
      have hspec := translate_spec hd
      exact ⟨hspec.2.1,hspec.2.2.1,hspec.2.2.2.1⟩
  · refine iff_of_false (fun h => ?_) fun h => h28 h.2
    have hne : (stem++hash::fileIDDigits cnid 8 0++ext).length≠0 := by
      rw [length_append,length_append,length_cons]
      omega
    rw [getEmbeddedFileID] at h
    simp only [if_neg hne,if_pos (not_le.mp h28)] at h
    have := congrArg Prod.fst h
    dsimp only at this
    omega

def longName : List ℕ := replicate 253 0x61++[dot,0x74,0x78,0x74]

lemma longName_lt : ∀ ch∈longName,ch<2^16 := by
  simp only [longName,mem_append,mem_replicate]
  rintro ch (⟨-,rfl⟩ | h)
  · decide
  · exact (by decide : ∀ ch ∈ [dot,0x74,0x78,0x74],ch<2^16) ch h

theorem getEmbeddedFileID_iff_longName :
    (getEmbeddedFileID (convertUnicodeToUTF8Mangled longName (direntMaxNameBytes+1) 0x1a0).1
        (convertUnicodeToUTF8Mangled longName (direntMaxNameBytes+1) 0x1a0).2.1 =
      (0x1a0,(convertUnicodeToUTF8Mangled longName (direntMaxNameBytes+1) 0x1a0).2.2) ↔
        AllDigitsShown 0x1a0 ∧
          28≤(convertUnicodeToUTF8Mangled longName (direntMaxNameBytes+1) 0x1a0).2.1) ∧
    ((utf8Encodestr longName (direntMaxNameBytes+1) colon noFlags).1≠none →
      28≤(convertUnicodeToUTF8Mangled longName (direntMaxNameBytes+1) 0x1a0).2.1) :=
  getEmbeddedFileID_iff longName_lt (by decide) (by decide) (by decide) (by decide)

/-- The name of file 256 is read back as that of file 16. -/
theorem longName_wrong_file :
    (utf8Encodestr longName (direntMaxNameBytes+1) colon noFlags).1=some .nameTooLong ∧
      getEmbeddedFileID (convertUnicodeToUTF8Mangled longName (direntMaxNameBytes+1) 0x100).1
        (convertUnicodeToUTF8Mangled longName (direntMaxNameBytes+1) 0x100).2.1=(0x10,248) ∧
      (convertUnicodeToUTF8Mangled longName (direntMaxNameBytes+1) 0x100).2.2=248 := by
  decide +kernel

end Darwin.Hfs
