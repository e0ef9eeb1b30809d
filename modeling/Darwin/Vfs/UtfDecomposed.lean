import Darwin.Vfs.UtfRoundTrip

/-! Names in decomposed form: decomposing is done in one step, and a name that has been decoded so
is decoded to itself again. -/
open List Nat
namespace Darwin.Vfs

/-! ### One character -/

lemma ucsDecompose_latin : ∀ i<64,(ucsDecompose (0xc0+i)).1<2^16 ∧ (ucsDecompose (0xc0+i)).2<2^16 ∧
    ucsDecompose (ucsDecompose (0xc0+i)).1=((ucsDecompose (0xc0+i)).1,0) ∧
    ucsDecompose (ucsDecompose (0xc0+i)).2=((ucsDecompose (0xc0+i)).2,0) := by
  decide

lemma ucsDecompose_kana : ∀ i<256,0x41≤(ucsDecompose (0x3000+i)).1 ∧
    (ucsDecompose (0x3000+i)).1<2^16 ∧ (ucsDecompose (0x3000+i)).2<2^16 ∧
    ucsDecompose (ucsDecompose (0x3000+i)).1=((ucsDecompose (0x3000+i)).1,0) ∧
    ucsDecompose (ucsDecompose (0x3000+i)).2=((ucsDecompose (0x3000+i)).2,0) := by
  decide +kernel

lemma ucsDecompose_other {ch : ℕ} (hlatin : ¬(ch≤0xff ∧ 0xc0≤ch))
    (hkana : ¬(0x3000<ch ∧ ch<0x3100)) : ucsDecompose ch=(ch,0) := by
  unfold ucsDecompose
  rw [if_neg hlatin,if_neg fun h => hkana ⟨h.1,h.2.1⟩]

lemma ucsDecompose_small {ch : ℕ} (h : ch<0xc0) : ucsDecompose ch=(ch,0) :=
  ucsDecompose_other (by omega) (by omega)

lemma ucsDecompose_settled {ch : ℕ} (h : ch<2^16) :
    (ucsDecompose ch).1<2^16 ∧ (ucsDecompose ch).2<2^16 ∧
      ucsDecompose (ucsDecompose ch).1=((ucsDecompose ch).1,0) ∧
      ucsDecompose (ucsDecompose ch).2=((ucsDecompose ch).2,0) := by
  by_cases hlatin : ch≤0xff ∧ 0xc0≤ch
  · obtain ⟨i,rfl⟩ : ∃ i,ch=0xc0+i := ⟨ch-0xc0,by omega⟩
    exact ucsDecompose_latin i (by omega)
  by_cases hkana : 0x3000<ch ∧ ch<0x3100
  · obtain ⟨i,rfl⟩ : ∃ i,ch=0x3000+i := ⟨ch-0x3000,by omega⟩
    exact (ucsDecompose_kana i (by omega)).2
  · rw [ucsDecompose_other hlatin hkana,ucsDecompose_other hlatin hkana]
    exact ⟨h,Nat.two_pow_pos 16,rfl,rfl⟩

/-- An alternate slash that is neither decomposed nor what another character is decomposed to. -/
structure PlainSlash (altslash : ℕ) : Prop where
  lt : altslash<2^16
  alone : ucsDecompose altslash=(altslash,0)
  base : ∀ ch,(ucsDecompose ch).2≠0 → (ucsDecompose ch).1≠altslash

lemma ucsDecompose_base_letter {ch : ℕ} (h : (ucsDecompose ch).2≠0) : 0x41≤(ucsDecompose ch).1 := by
  by_cases hlatin : ch≤0xff ∧ 0xc0≤ch
  · have hall : ∀ i<64,0x41≤(ucsDecompose (0xc0+i)).1 := by decide
    simpa [Nat.add_sub_cancel' hlatin.2] using hall (ch-0xc0) (by omega)
  by_cases hkana : 0x3000<ch ∧ ch<0x3100
  · simpa [Nat.add_sub_cancel' hkana.1.le] using (ucsDecompose_kana (ch-0x3000) (by omega)).1
  · rw [ucsDecompose_other hlatin hkana] at h
    exact absurd rfl h

lemma plainSlash_of_lt {altslash : ℕ} (h : altslash<0x41) : PlainSlash altslash where
  lt := by omega
  alone := ucsDecompose_small (by omega)
  base _ hmark := by
    have := ucsDecompose_base_letter hmark
    omega

def decomposedUnits (altslash : ℕ) (flags : UtfFlags) (ch : ℕ) : List ℕ :=
  if (ucsDecompose ch).2≠0 then
    [swapUnit flags (ucsDecompose ch).1,storedUnit altslash flags (ucsDecompose ch).2]
  else [storedUnit altslash flags (ucsDecompose ch).1]

def decomposed (altslash : ℕ) (flags : UtfFlags) (ucs : List ℕ) : List ℕ :=
  ucs.flatMap fun ch => decomposedUnits altslash flags (unitToEncode altslash flags ch)

/-- A code unit that comes back alone when it is encoded and decoded. -/
structure Settled (altslash : ℕ) (flags : UtfFlags) (v : ℕ) : Prop where
  lt : v<2^16
  units : decomposedUnits altslash flags (unitToEncode altslash flags v)=[v]

section Settled
variable {altslash : ℕ} {flags : UtfFlags} (halt : PlainSlash altslash)

lemma decomposedUnits_alone {ch : ℕ} (h : ucsDecompose ch=(ch,0)) :
    decomposedUnits altslash flags ch=[storedUnit altslash flags ch] := by
  rw [decomposedUnits,h]
  exact if_neg (not_not.mpr rfl)

include halt

lemma settled_swapUnit {ch : ℕ} (hlt : ch<2^16) (h : ucsDecompose ch=(ch,0))
    (hslash : ch=altslash → ch=slash) : Settled altslash flags (swapUnit flags ch) := by
  refine ⟨swapUnit_lt hlt,?_⟩
  rw [unitToEncode,swapUnit_swapUnit hlt]
  by_cases hs : altslash≠0 ∧ ch=slash
  · rw [if_pos hs,decomposedUnits_alone halt.alone,storedUnit,if_pos rfl,hs.2]
  · rw [if_neg hs,decomposedUnits_alone h,storedUnit]
    by_cases heq : ch=altslash
    · rw [if_pos heq,hslash heq]
    · rw [if_neg heq]

lemma settled_storedUnit {ch : ℕ} (hlt : ch<2^16) (h : ucsDecompose ch=(ch,0)) :
    Settled altslash flags (storedUnit altslash flags ch) := by
  rw [storedUnit]
  split_ifs with heq
  · exact settled_swapUnit halt (by decide) (ucsDecompose_small (by decide)) fun _ => rfl
  · exact settled_swapUnit halt hlt h fun h => absurd h heq

lemma settled_of_mem_decomposedUnits {ch v : ℕ} (hlt : ch<2^16)
    (hv : v∈decomposedUnits altslash flags ch) : Settled altslash flags v := by
  obtain ⟨h1,h2,hbase,hmark⟩ := ucsDecompose_settled hlt
  rw [decomposedUnits] at hv
  split_ifs at hv with hc
  · simp only [mem_cons,not_mem_nil,or_false] at hv
    rcases hv with rfl | rfl
    · exact settled_swapUnit halt h1 hbase fun heq => absurd heq (halt.base ch hc)
    · exact settled_storedUnit halt h2 hmark
  · rw [mem_singleton.mp hv]
    exact settled_storedUnit halt h1 hbase

end Settled

variable {mem : ℕ → ℕ} {flags : UtfFlags}

lemma decomposed_eq_self {altslash : ℕ} {ucs : List ℕ}
    (h : ∀ v∈ucs,Settled altslash flags v) : decomposed altslash flags ucs=ucs := by
  induction ucs with
  | nil => rfl
  | cons v ucs ih =>
    rw [decomposed,flatMap_cons,(h v mem_cons_self).units]
    exact congrArg (v :: ·) (ih fun w hw => h w (mem_cons_of_mem v hw))

/-! ### Whole names -/

lemma decodeLoop_ascii {altslash room pos n : ℕ}
    (h0 : mem pos≠0) (h : mem pos<0x80) : decodeLoop mem altslash flags (room+1) pos (n+1) =
      ((decodeLoop mem altslash flags room (pos+1) n).1,storedUnit altslash flags (mem pos) ::
          (decodeLoop mem altslash flags room (pos+1) n).2) := by
  rw [decodeLoop,if_neg (by omega),if_pos h,Nat.add_sub_cancel]

lemma decodeLoop_sequence {altslash room pos pos' n n' u : ℕ}
    (hflags : flags.decomposed=true) (h : 0x80 ≤ mem pos)
    (hread : decodeSequence mem (mem pos) (pos+1) n=some (u,pos',n')) :
    decodeLoop mem altslash flags (room+(decomposedUnits altslash flags u).length) pos (n+1) =
      ((decodeLoop mem altslash flags room pos' n').1,
        decomposedUnits altslash flags u++(decodeLoop mem altslash flags room pos' n').2) := by
  by_cases hc : (ucsDecompose u).2≠0
  · rw [decomposedUnits,if_pos hc,length_cons,length_singleton,decodeLoop,
      if_neg (by omega),if_neg (by omega),Nat.add_sub_cancel,hread]
    simp [hflags,hc]
  · rw [decomposedUnits,if_neg hc,length_singleton,decodeLoop,if_neg (by omega),
      if_neg (by omega),Nat.add_sub_cancel,hread]
    simp [hflags,hc]

lemma decodeLoop_encodeUnit_decomposed {altslash room pos m u : ℕ}
    (hflags : flags.decomposed=true) (hu : u<2^16)
    (hmem : ∀ i (hi : i<(encodeUnit u).length),mem (pos+i)=(encodeUnit u)[i]) :
    decodeLoop mem altslash flags (room+(decomposedUnits altslash flags u).length) pos
        ((encodeUnit u).length+m) =
      ((decodeLoop mem altslash flags room (pos+(encodeUnit u).length) m).1,
        decomposedUnits altslash flags u ++
          (decodeLoop mem altslash flags room (pos+(encodeUnit u).length) m).2) := by
  by_cases h1 : u<0x80 ∧ u≠0
  · rw [encodeUnit_one h1.1 h1.2] at hmem ⊢
    have h0 : mem pos=u := hmem 0 zero_lt_one
    rw [decomposedUnits_alone (ucsDecompose_small (by omega)),length_singleton,
      length_singleton,add_comm 1 m,decodeLoop_ascii (by omega) (by omega),h0]
    rfl
  obtain ⟨n,hn,hpos,hread⟩ := decodeSequence_encodeUnit (m := m) hu h1 hmem
  rw [hn]
  exact decodeLoop_sequence hflags hpos hread

def Holds (mem : ℕ → ℕ) (pos : ℕ) (bytes : List ℕ) : Prop :=
  ∀ i (hi : i<bytes.length),mem (pos+i)=bytes[i]

lemma holds_append {pos : ℕ} {xs ys : List ℕ} (h : Holds mem pos (xs++ys)) :
    Holds mem pos xs ∧ Holds mem (pos+xs.length) ys := by
  refine ⟨fun i hi => ?_,fun i hi => ?_⟩
  · rw [h i (by rw [length_append]; omega),getElem_append_left hi]
  · rw [add_assoc,h _ (by rw [length_append]; omega),getElem_append_right (le_add_right _ _)]
    simp only [Nat.add_sub_cancel_left]

lemma decodeLoop_decomposed {altslash room pos : ℕ} {ucs : List ℕ}
    (hflags : flags.decomposed=true) (halt : altslash<2^16)
    (hunits : ∀ ch,ch∈ucs → ch<2^16)
    (hroom : (decomposed altslash flags ucs).length≤room)
    (hmem : Holds mem pos (encoded altslash flags ucs)) :
    decodeLoop mem altslash flags room pos (encoded altslash flags ucs).length =
      (none,decomposed altslash flags ucs) := by
  induction ucs generalizing pos room with
  | nil => cases room <;> simp [decodeLoop,encoded,decomposed]
  | cons ch ucs ih =>
    obtain ⟨hone,hrest⟩ := holds_append hmem
    have hsplit : decomposed altslash flags (ch::ucs) =
      decomposedUnits altslash flags (unitToEncode altslash flags ch) ++
        decomposed altslash flags ucs := rfl
    rw [hsplit,length_append] at hroom
    obtain ⟨room,rfl⟩ : ∃ r,room =
        r+(decomposedUnits altslash flags (unitToEncode altslash flags ch)).length :=
      ⟨_,(Nat.sub_add_cancel (by omega)).symm⟩
    have hlt : unitToEncode altslash flags ch<2^16 :=
      unitToEncode_lt halt (hunits ch mem_cons_self)
    rw [encoded_cons,length_append,decodeLoop_encodeUnit_decomposed hflags hlt hone,
      ih (fun c hc => hunits c (mem_cons_of_mem ch hc)) (by omega) hrest,hsplit]

lemma decodeSequence_lt {byte pos n u pos' n' : ℕ}
    (h : decodeSequence mem byte pos n=some (u,pos',n')) : u<2^16 := by
  have hfinal : ∀ ch p m,decodeFinal mem ch p m=some (u,pos',n') → u<2^16 := by
    intro ch p m hf
    simp only [decodeFinal] at hf
    split_ifs at hf
    simp only [Option.some.injEq,Prod.mk.injEq] at hf
    rw [←hf.1]
    exact Nat.mod_lt _ (Nat.two_pow_pos 16)
  simp only [decodeSequence] at h
  split_ifs at h
  · exact hfinal _ _ _ h
  · exact hfinal _ _ _ h

lemma mem_decodeLoop {altslash v : ℕ}
    (hflags : flags.decomposed=true) (room pos n : ℕ)
    (hv : v∈(decodeLoop mem altslash flags room pos n).2) :
    ∃ u<2^16,v∈decomposedUnits altslash flags u := by
  fun_induction decodeLoop mem altslash flags room pos n with
  | case1 => cases hv
  | case2 => cases hv
  | case3 => cases hv
  | case4 room pos n byte hmore hascii rest ih => 
    rcases mem_cons.mp hv with rfl | hv
    · refine ⟨byte,by omega,?_⟩
      rw [decomposedUnits_alone (ucsDecompose_small (by omega))]
      exact mem_singleton_self _
    · exact ih hv
  | case5 => cases hv
  | case6 pos n byte hmore hascii u pos' n' hread hc =>
    refine ⟨u,decodeSequence_lt hread,?_⟩
    rw [decomposedUnits,if_pos hc.2,mem_singleton.mp hv]
    exact mem_cons_self
  | case7 pos n byte hmore hascii u pos' n' hread hc room rest ih =>
    rcases mem_cons.mp hv with rfl | hv
    · refine ⟨u,decodeSequence_lt hread,?_⟩
      rw [decomposedUnits,if_pos hc.2]
      exact mem_cons_self
    rcases mem_cons.mp hv with rfl | hv
    · refine ⟨u,decodeSequence_lt hread,?_⟩
      rw [decomposedUnits,if_pos hc.2]
      exact mem_cons_of_mem _ mem_cons_self
    · exact ih hv
  | case8 room pos n byte hmore hascii u pos' n' hread hc ch rest ih =>
    rcases mem_cons.mp hv with rfl | hv
    · refine ⟨u,decodeSequence_lt hread,?_⟩
      rw [decomposedUnits,if_neg fun h => hc ⟨hflags,h⟩,show ch=(ucsDecompose u).1 from if_pos hflags]
      exact mem_cons_self
    · exact ih hv

def Encodes (altslash : ℕ) (flags : UtfFlags) (ucs bytes : List ℕ) : Prop :=
  ∀ buflen,bytes.length+1≤buflen → utf8Encodestr ucs buflen altslash flags=(none,bytes)

/-- The name of bytes that are anywhere in memory, in a buffer that is large enough. -/
def Decodes (altslash : ℕ) (flags : UtfFlags) (bytes ucs : List ℕ) : Prop :=
  ∀ mem buflen,Holds mem 0 bytes → 2*ucs.length≤buflen →
    utf8Decodestr mem bytes.length buflen altslash flags=(none,ucs)

def Stored (altslash : ℕ) (flags : UtfFlags) (name : List ℕ) : Prop :=
  ∃ mem utf8len buflen,utf8Decodestr mem utf8len buflen altslash flags=(none,name)

section Names
variable {altslash : ℕ} {flags : UtfFlags} (hflags : flags.decomposed=true)
  (halt : PlainSlash altslash)
include hflags halt

lemma decodes_decomposed {ucs : List ℕ} (hunits : ∀ ch,ch∈ucs → ch<2^16) :
    Decodes altslash flags (encoded altslash flags ucs) (decomposed altslash flags ucs) :=
  fun _ _ hmem hroom => decodeLoop_decomposed hflags halt.lt hunits (by omega) hmem

lemma decodes_of_settled {name : List ℕ} (h : ∀ v∈name,Settled altslash flags v) :
    Decodes altslash flags (encoded altslash flags name) name := by
  have hself := decodes_decomposed hflags halt fun v hv => (h v hv).lt
  rwa [decomposed_eq_self h] at hself

lemma settled_of_stored {name : List ℕ} (h : Stored altslash flags name) :
    ∀ v∈name,Settled altslash flags v := by
  obtain ⟨mem,utf8len,buflen,hdecode⟩ := h
  intro v hv
  have hmem : v∈(utf8Decodestr mem utf8len buflen altslash flags).2 := by rwa [hdecode]
  obtain ⟨u,hu,hmem⟩ := mem_decodeLoop hflags _ _ _ hmem
  exact settled_of_mem_decomposedUnits halt hu hmem

end Names

end Darwin.Vfs
