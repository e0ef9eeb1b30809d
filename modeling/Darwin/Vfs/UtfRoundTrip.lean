import Darwin.Vfs.UtfConv
import Mathlib.Tactic

/-! Decoding inverts encoding, and the length computed beforehand is the number of bytes
encoded and one more for every NUL. -/
open List Nat
namespace Darwin.Vfs

lemma or_eq_add {i a b : ℕ} (h : b<2^i) : b|||2^i*a=b+2^i*a := by
  rw [lor_comm,←two_pow_add_eq_or_of_lt h,add_comm]

lemma and_low (x i : ℕ) : x&&&(2^i-1)=x%2^i := and_two_pow_sub_one_eq_mod x i

lemma nxSwapShort_eq {x : ℕ} (h : x<2^16) : nxSwapShort x=x%2^8*2^8+x/2^8 := by
  rw [nxSwapShort,shiftRight_eq_div_pow,shiftLeft_eq,lor_comm,mul_comm x,
    or_eq_add (by omega)]
  omega

lemma nxSwapShort_lt (x : ℕ) : nxSwapShort x<2^16 := mod_lt _ (by decide)

lemma nxSwapShort_nxSwapShort {x : ℕ} (h : x<2^16) : nxSwapShort (nxSwapShort x)=x := by
  rw [nxSwapShort_eq (nxSwapShort_lt x),nxSwapShort_eq h]
  omega

variable {flags : UtfFlags} {mem : ℕ → ℕ} {ucs : List ℕ} {ch : ℕ} {altslash : ℕ} {u : ℕ}

lemma swapUnit_lt (h : ch<2^16) : swapUnit flags ch<2^16 := by
  rw [swapUnit]
  split_ifs
  · exact nxSwapShort_lt ch
  · exact h

@[simp] lemma swapUnit_swapUnit (h : ch<2^16) : swapUnit flags (swapUnit flags ch)=ch := by
  rw [swapUnit,swapUnit]
  split_ifs
  · exact nxSwapShort_nxSwapShort h
  · rfl

lemma swapUnit_eq_zero (h : ch<2^16) : swapUnit flags ch=0 ↔ ch=0 := by
  rw [swapUnit]
  split_ifs
  · rw [nxSwapShort_eq h]
    omega
  · rfl

lemma unitToEncode_lt (halt : altslash<2^16)
    (h : ch<2^16) : unitToEncode altslash flags ch<2^16 := by
  simp only [unitToEncode]
  split_ifs
  · exact halt
  · exact swapUnit_lt h

lemma unitToEncode_eq_zero (h : ch<2^16) : unitToEncode altslash flags ch=0 ↔ ch=0 := by
  simp only [unitToEncode]
  split_ifs with hs
  · refine ⟨fun h0 => absurd h0 hs.1,fun h0 => ?_⟩
    rw [(swapUnit_eq_zero h).mpr h0] at hs
    exact absurd hs.2 (by decide)
  · exact swapUnit_eq_zero h

lemma storedUnit_unitToEncode (h : ch<2^16)
    (hslash : swapUnit flags ch≠altslash) :
    storedUnit altslash flags (unitToEncode altslash flags ch)=ch := by
  by_cases hs : altslash≠0 ∧ swapUnit flags ch=slash
  · have hunit : unitToEncode altslash flags ch=altslash := if_pos hs
    rw [hunit,storedUnit,if_pos rfl,←hs.2,swapUnit_swapUnit h]
  · have hunit : unitToEncode altslash flags ch=swapUnit flags ch := if_neg hs
    rw [hunit,storedUnit,if_neg hslash,swapUnit_swapUnit h]

/-! ### The three forms of a code unit -/

lemma encodeUnit_one (h : u<0x80) (h0 : u≠0) : encodeUnit u=[u] := by
  rw [encodeUnit,if_pos ⟨h,h0⟩,mod_eq_of_lt (by omega)]

lemma lead_two (h : u<0x800) : ((u>>>6)|||0xc0)%2^8=u/64+0xc0 := by
  rw [shiftRight_eq_div_pow,show 0xc0=2^6*3 from rfl,or_eq_add (by omega)]
  omega

lemma tail_byte (x : ℕ) : ((x&&&0x3f)|||0x80)%2^8=x%64+0x80 := by
  rw [show 0x3f=2^6-1 from rfl,and_low,show 0x80=2^7*1 from rfl,or_eq_add (by omega)]
  omega

lemma lead_three (h : u<2^16) : ((u>>>12)|||0xe0)%2^8=u/4096+0xe0 := by
  rw [shiftRight_eq_div_pow,show 0xe0=2^5*7 from rfl,or_eq_add (by omega)]
  omega

lemma encodeUnit_two (h : u<0x800) (h1 : ¬(u<0x80 ∧ u≠0)) : encodeUnit u=[u/64+0xc0,u%64+0x80] := by
  rw [encodeUnit,if_neg h1,if_pos h,lead_two h,tail_byte]

lemma encodeUnit_three (h : u<2^16) (h2 : ¬u<0x800) :
    encodeUnit u=[u/4096+0xe0,u/64%64+0x80,u%64+0x80] := by
  rw [encodeUnit,if_neg (by omega),if_neg h2,lead_three h,tail_byte,tail_byte,shiftRight_eq_div_pow]

lemma high_masks : ∀ b<2^8,b&&&0xf0=b/16*16 ∧ b&&&0xc0=b/64*64 := by decide +kernel

lemma high_bits {b : ℕ} (h : b<2^8) : b&&&0xf0=b/16*16 := (high_masks b h).1

lemma tail_mark {x : ℕ} (h : x<64) : (x+0x80)&&&0xc0=0x80 := by
  have hall : ∀ x,x<64 → (x+0x80)&&&0xc0=0x80 := by decide
  exact hall x h

lemma decodeFinal_tail {ch x pos n : ℕ} (hx : x<64) (hmem : mem pos=x+0x80) :
    decodeFinal mem ch pos (n+1)=some ((ch+x)%2^16,pos+1,n) := by
  simp only [decodeFinal,hmem]
  rw [if_neg (not_not.mpr (tail_mark hx)),show 0x3f=2^6-1 from rfl,and_low,pred32,
    if_neg (Nat.succ_ne_zero n),Nat.add_sub_cancel,show (x+0x80)%2^6=x by omega]

lemma decodeSequence_two {u pos n : ℕ} (h : u<0x800) (h1 : ¬(u<0x80 ∧ u≠0))
    (hmem : mem pos=u%64+0x80) : decodeSequence mem (u/64+0xc0) pos (n+1)=some (u,pos+1,n) := by
  have hhigh : (u/64+0xc0)&&&0xf0=0xc0 ∨ (u/64+0xc0)&&&0xf0=0xd0 := by
    rw [high_bits (by omega)]
    omega
  have hch : ((u/64+0xc0)&&&0x1f)<<<6=u/64*64 := by
    rw [show 0x1f=2^5-1 from rfl,and_low,shiftLeft_eq]
    omega
  simp only [decodeSequence,if_pos hhigh,hch]
  rw [if_neg (by rw [hmem]; omega),decodeFinal_tail (by omega) hmem,
    show (u/64*64+u%64)%2^16=u by omega]

lemma decodeSequence_three {u pos n : ℕ} (h : u<2^16) (h2 : ¬u<0x800)
    (hmem : mem pos=u/64%64+0x80) (hmem' : mem (pos+1)=u%64+0x80) :
    decodeSequence mem (u/4096+0xe0) pos (n+2)=some (u,pos+2,n) := by
  have hhigh : (u/4096+0xe0)&&&0xf0=0xe0 := by
    rw [high_bits (by omega)]
    omega
  have hch : ((u/4096+0xe0)&&&0x0f)<<<6=u/4096*64 := by
    rw [show 0x0f=2^4-1 from rfl,and_low,shiftLeft_eq]
    omega
  have hch' : ((u/4096*64+((u/64%64+0x80)&&&0x3f))<<<6)%2^16=u/64*64 := by
    rw [show 0x3f=2^6-1 from rfl,and_low,shiftLeft_eq]
    omega
  have hpred : pred32 (n+2)=n+1 := by
    rw [pred32,if_neg (by omega)]
    rfl
  simp only [decodeSequence,hhigh,hch,hmem,hch']
  rw [if_neg (by decide),if_pos trivial,if_neg (not_not.mpr (tail_mark (by omega))),
    if_neg (by omega),hpred,decodeFinal_tail (by omega) hmem',
    show (u/64*64+u%64)%2^16=u by omega]

/-! ### Whole names -/

def encoded (altslash : ℕ) (flags : UtfFlags) (ucs : List ℕ) : List ℕ :=
  ucs.flatMap fun ch => encodeUnit (unitToEncode altslash flags ch)

@[simp] lemma encoded_cons (altslash : ℕ) (flags : UtfFlags) (ch : ℕ) (ucs : List ℕ) :
    encoded altslash flags (ch::ucs) =
      encodeUnit (unitToEncode altslash flags ch)++encoded altslash flags ucs := rfl

lemma encodeUnit_length_le (u : ℕ) : (encodeUnit u).length≤3 := by
  rw [encodeUnit]
  split_ifs <;> simp

lemma encodeUnit_length_pos (u : ℕ) : 0<(encodeUnit u).length := by
  rw [encodeUnit]
  split_ifs <;> simp

lemma encodeLoop_bytes {altslash limit : ℕ} (n : ℕ) (ucs : List ℕ)
    (h : (encodeLoop altslash flags limit n ucs).1=none) :
    (encodeLoop altslash flags limit n ucs).2=encoded altslash flags ucs := by
  induction ucs generalizing n with
  | nil => rfl
  | cons ch ucs ih =>
    simp only [encodeLoop] at h ⊢
    split_ifs at h ⊢
    rw [encoded_cons,←ih _ h]

lemma encodeLoop_fits {altslash limit : ℕ} (n : ℕ) (ucs : List ℕ)
    (h : n+(encoded altslash flags ucs).length≤limit) :
    encodeLoop altslash flags limit n ucs=(none,encoded altslash flags ucs) := by
  induction ucs generalizing n with
  | nil => rfl
  | cons ch ucs ih =>
    rw [encoded_cons,length_append] at h
    have hpos := encodeUnit_length_pos (unitToEncode altslash flags ch)
    simp only [encodeLoop]
    rw [if_neg (by omega),ih _ (by omega),encoded_cons]

lemma mem_encodeUnit_ne_zero {u c : ℕ} (hu : u<2^16) (h : c∈encodeUnit u) : c≠0 := by
  by_cases h1 : u<0x80 ∧ u≠0
  · rw [encodeUnit_one h1.1 h1.2,mem_singleton] at h
    exact h▸h1.2
  by_cases h2 : u<0x800
  · rw [encodeUnit_two h2 h1] at h
    simp only [mem_cons,not_mem_nil,or_false] at h
    omega
  · rw [encodeUnit_three hu h2] at h
    simp only [mem_cons,not_mem_nil,or_false] at h
    omega

lemma mem_encodeLoop_ne_zero {altslash limit n c : ℕ}
    (halt : altslash<2^16) (hunits : ∀ ch,ch∈ucs → ch<2^16)
    (h : c∈(encodeLoop altslash flags limit n ucs).2) : c≠0 := by
  induction ucs generalizing n with
  | nil => cases h
  | cons ch ucs ih =>
    simp only [encodeLoop] at h
    split_ifs at h
    · cases h
    · rcases mem_append.mp h with h | h
      · exact mem_encodeUnit_ne_zero (unitToEncode_lt halt (hunits ch mem_cons_self)) h
      · exact ih (fun ch hch => hunits ch (mem_cons_of_mem _ hch)) h

lemma encodeLoop_length_le (altslash : ℕ) (flags : UtfFlags) (ucs : List ℕ) {limit n : ℕ}
    (hn : n≤limit) : n+(encodeLoop altslash flags limit n ucs).2.length≤limit := by
  induction ucs generalizing n with
  | nil => exact hn
  | cons ch ucs ih =>
    have hpos := encodeUnit_length_pos (unitToEncode altslash flags ch)
    simp only [encodeLoop]
    split_ifs with hfull
    · exact hn
    · rw [length_append,←add_assoc]
      exact ih (by omega)

lemma encodeLoop_cut (altslash : ℕ) (flags : UtfFlags) (ucs : List ℕ) {limit n : ℕ}
    (h : limit<n+(encoded altslash flags ucs).length) :
    limit≤n+(encodeLoop altslash flags limit n ucs).2.length+2 := by
  induction ucs generalizing n with
  | nil =>
    change limit<n+0 at h
    omega
  | cons ch ucs ih =>
    have hle := encodeUnit_length_le (unitToEncode altslash flags ch)
    rw [encoded_cons,length_append,←add_assoc] at h
    simp only [encodeLoop]
    split_ifs with hfull
    · rw [length_nil]
      omega
    · rw [length_append,←add_assoc]
      exact ih h

lemma utf8Encodestr_fits {buflen altslash : ℕ}
    (h : (encoded altslash flags ucs).length+1≤buflen) :
    utf8Encodestr ucs buflen altslash flags=(none,encoded altslash flags ucs) := by
  refine encodeLoop_fits 0 ucs ?_
  split_ifs <;> omega

lemma decodeSequence_encodeUnit {pos m u : ℕ} (hu : u<2^16) (h1 : ¬(u<0x80 ∧ u≠0))
    (hmem : ∀ i (hi : i<(encodeUnit u).length),mem (pos+i)=(encodeUnit u)[i]) :
    ∃ n,(encodeUnit u).length+m=n+1 ∧ 0x80 ≤ mem pos ∧
      decodeSequence mem (mem pos) (pos+1) n=some (u,pos+(encodeUnit u).length,m) := by
  by_cases h2 : u<0x800
  · rw [encodeUnit_two h2 h1] at hmem ⊢
    have h0 : mem pos=u/64+0xc0 := hmem 0 (by simp)
    have h1' : mem (pos+1)=u%64+0x80 := hmem 1 (by simp)
    refine ⟨m+1,by simp only [length_cons,length_nil]; omega,by omega,?_⟩
    rw [h0,decodeSequence_two h2 h1 h1']
    rfl
  · rw [encodeUnit_three hu h2] at hmem ⊢
    have h0 : mem pos=u/4096+0xe0 := hmem 0 (by simp)
    have h1' : mem (pos+1)=u/64%64+0x80 := hmem 1 (by simp)
    have h2' : mem (pos+1+1)=u%64+0x80 := hmem 2 (by simp)
    refine ⟨m+2,by simp only [length_cons,length_nil]; omega,by omega,?_⟩
    rw [h0,decodeSequence_three hu h2 h1' h2']
    rfl

lemma decodeLoop_encodeUnit {altslash room pos m u : ℕ}
    (hflags : flags.decomposed=false) (hu : u<2^16)
    (hmem : ∀ i (hi : i<(encodeUnit u).length),mem (pos+i)=(encodeUnit u)[i]) :
    decodeLoop mem altslash flags (room+1) pos ((encodeUnit u).length+m) =
      ((decodeLoop mem altslash flags room (pos+(encodeUnit u).length) m).1,
        storedUnit altslash flags u ::
          (decodeLoop mem altslash flags room (pos+(encodeUnit u).length) m).2) := by
  by_cases h1 : u<0x80 ∧ u≠0
  · rw [encodeUnit_one h1.1 h1.2] at hmem ⊢
    have h0 : mem pos=u := hmem 0 (zero_lt_one)
    rw [length_singleton,decodeLoop,h0,if_neg (by omega),if_pos h1.1,Nat.add_sub_cancel_left]
  obtain ⟨n,hn,hpos,hread⟩ := decodeSequence_encodeUnit (m := m) hu h1 hmem
  rw [hn,decodeLoop,if_neg (by omega),if_neg (by omega),Nat.add_sub_cancel,hread]
  simp [hflags]

lemma decodeLoop_encoded {altslash room : ℕ} (pos : ℕ)
    (hflags : flags.decomposed=false) (halt : altslash<2^16)
    (hunits : ∀ ch,ch∈ucs → ch<2^16) (hroom : ucs.length≤room)
    (hmem : ∀ i (hi : i<(encoded altslash flags ucs).length),
      mem (pos+i)=(encoded altslash flags ucs)[i]) :
    decodeLoop mem altslash flags room pos (encoded altslash flags ucs).length =
      (none,ucs.map fun ch => storedUnit altslash flags (unitToEncode altslash flags ch)) := by
  induction ucs generalizing pos room with
  | nil => cases room <;> simp [decodeLoop,encoded]
  | cons ch ucs ih =>
    obtain ⟨room,rfl⟩ : ∃ r,room=r+1 := ⟨room-1,by rw [length_cons] at hroom; omega⟩
    simp only [encoded_cons,length_append] at hmem ⊢
    rw [decodeLoop_encodeUnit hflags (unitToEncode_lt halt (hunits ch mem_cons_self)) fun i hi => by
      rw [hmem i (by omega),getElem_append_left hi]]
    rw [ih _ (fun c hc => hunits c (mem_cons_of_mem ch hc)) (by simpa using hroom) fun i hi => by
      rw [add_assoc,hmem _ (by omega),getElem_append_right (by omega)]
      simp only [Nat.add_sub_cancel_left]]
    rfl

lemma utf8Decodestr_encoded {altslash room : ℕ}
    (hflags : flags.decomposed=false) (halt : altslash<2^16)
    (hunits : ∀ ch,ch∈ucs → ch<2^16)
    (hslash : ∀ ch,ch∈ucs → swapUnit flags ch≠altslash) (hroom : 2*ucs.length≤room)
    (hmem : ∀ i (hi : i<(encoded altslash flags ucs).length),
      mem i=(encoded altslash flags ucs)[i]) :
    utf8Decodestr mem (encoded altslash flags ucs).length room altslash flags=(none,ucs) := by
  rw [utf8Decodestr,decodeLoop_encoded 0 hflags halt hunits (by omega) fun i hi => by
    rw [zero_add,hmem i hi]]
  congr 1
  refine (map_congr_left fun ch hch => ?_).trans (map_id ucs)
  exact storedUnit_unitToEncode (hunits ch hch) (hslash ch hch)

lemma ucsToUtfLen_unit :
    ucsToUtfLen (if u=0 then 0xc080 else u)=(encodeUnit u).length+if u=0 then 1 else 0 := by
  by_cases h0 : u=0
  · rw [h0]
    rfl
  · rw [if_neg h0,if_neg h0,ucsToUtfLen,encodeUnit]
    split_ifs <;> first | rfl | omega

lemma utf8Encodelen_eq
    (hunits : ∀ ch,ch∈ucs → ch<2^16) :
    utf8Encodelen altslash flags ucs=(encoded altslash flags ucs).length+ucs.count 0 := by
  induction ucs with
  | nil => rfl
  | cons ch ucs ih =>
    simp only [utf8Encodelen,encoded_cons,length_append,count_cons,beq_iff_eq]
    rw [ucsToUtfLen_unit,ih fun c hc => hunits c (mem_cons_of_mem ch hc)]
    simp only [unitToEncode_eq_zero (hunits ch mem_cons_self)]
    omega

/-- The three functions agree exactly on the names without NULs. -/
theorem utf8_agree_iff {ucs bytes : List ℕ} {mem : ℕ → ℕ} {altslash room : ℕ} (buflen : ℕ)
    (flags : UtfFlags) (hflags : flags.decomposed=false) (halt : altslash<2^16)
    (hunits : ∀ ch,ch∈ucs → ch<2^16)
    (hslash : altslash≠0 → ∀ ch,ch∈ucs → swapUnit flags ch≠altslash)
    (hencode : utf8Encodestr ucs buflen altslash flags=(none,bytes))
    (hmem : ∀ i (hi : i<bytes.length),mem i=bytes[i]) (hroom : 2*ucs.length≤room) :
    utf8Decodestr mem bytes.length room altslash flags=(none,ucs) ∧
      utf8Encodelen altslash flags ucs=bytes.length ↔ 0∉ucs := by
  have hbytes : bytes=encoded altslash flags ucs := by
    rw [←encodeLoop_bytes 0 ucs (congrArg Prod.fst hencode)]
    exact (congrArg Prod.snd hencode).symm
  subst hbytes
  rw [utf8Encodelen_eq hunits,add_eq_left,count_eq_zero]
  refine ⟨fun h => h.2,fun h => ⟨?_,h⟩⟩
  refine utf8Decodestr_encoded hflags halt hunits (fun ch hch heq => ?_) hroom hmem
  by_cases h0 : altslash=0
  · rw [h0,swapUnit_eq_zero (hunits ch hch)] at heq
    exact h (heq▸hch)
  · exact hslash h0 ch hch heq

theorem utf8_agree_iff_slash :
    utf8Decodestr (fun i => [0x3a,0xc3,0xa9,0xe4,0xb8,0xad].getD i 0)
        [0x3a,0xc3,0xa9,0xe4,0xb8,0xad].length 6 0x3a noFlags=(none,[0x2f,0xe9,0x4e2d]) ∧
      utf8Encodelen 0x3a noFlags [0x2f,0xe9,0x4e2d] =
        [0x3a,0xc3,0xa9,0xe4,0xb8,0xad].length ↔ 0∉[0x2f,0xe9,0x4e2d] :=
  utf8_agree_iff 7 noFlags rfl (by decide) (by decide) (by decide) (by decide) (by decide)
    (by decide)

/-- A name of one NUL is announced with three bytes and encoded in two. -/
theorem nul_encodelen : utf8Encodestr [0] 3 0x3a noFlags=(none,[0xc0,0x80]) ∧
      utf8Encodelen 0x3a noFlags [0]=3 ∧
      ¬utf8Encodelen 0x3a noFlags [0]=(utf8Encodestr [0] 3 0x3a noFlags).2.length := by
  decide

end Darwin.Vfs
