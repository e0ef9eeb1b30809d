import Darwin.Vfs.UtfDecomposed

/-! What `utf8_decodestr` reads, and what it meets at the first byte of a sequence. -/
open List Nat
namespace Darwin.Vfs

/-! ### The bytes that are read -/

def sequenceReads (mem : ℕ → ℕ) (byte pos : ℕ) : List ℕ :=
  if byte&&&0xf0=0xc0 ∨ byte&&&0xf0=0xd0 then [pos]
  else if byte&&&0xf0=0xe0 then
    if mem pos&&&0xc0≠0x80 then [pos]
    else if (((byte&&&0x0f)<<<6)+(mem pos&&&0x3f))<<<6%2^16<0x800 then [pos]
    else [pos,pos+1]
  else []

def decodeReads (mem : ℕ → ℕ) (flags : UtfFlags) : ℕ → ℕ → ℕ → List ℕ
  | 0,pos,utf8len => if utf8len=0 then [] else [pos]
  | room+1,pos,utf8len =>
    let byte := mem pos
    if utf8len=0 then []
    else if byte=0 then [pos]
    else if byte<0x80 then pos::decodeReads mem flags room (pos+1) (utf8len-1)
    else
      pos::sequenceReads mem byte (pos+1) ++
        match decodeSequence mem byte (pos+1) (utf8len-1) with
        | none => []
        | some (ch,pos,utf8len) =>
          if flags.decomposed ∧ (ucsDecompose ch).2≠0 then
            match room with
            | 0 => []
            | room+1 => decodeReads mem flags room pos utf8len
          else decodeReads mem flags room pos utf8len

/-! ### The strings -/

def utf8String (mem : ℕ → ℕ) : ℕ → ℕ → List ℕ
  | 0,_ => []
  | utf8len+1,pos => if mem pos=0 then [] else mem pos::utf8String mem utf8len (pos+1)

def Shortest (c : List ℕ) (u : ℕ) : Prop := u<2^16 ∧ c=encodeUnit u

def Taken (c : List ℕ) (u : ℕ) : Prop := Shortest c u ∨ c=[0xc1,0x80] ∧ u=0x40

def unitCount (flags : UtfFlags) (u : ℕ) : ℕ :=
  if flags.decomposed ∧ (ucsDecompose u).2≠0 then 2 else 1

/-- A string of such sequences, and how many code units are stored for it. -/
inductive Text (P : List ℕ → ℕ → Prop) (flags : UtfFlags) : List ℕ → ℕ → Prop
  | nil : Text P flags [] 0
  | cons {c bytes : List ℕ} {u k : ℕ} (hc : P c u) (h : Text P flags bytes k) :
      Text P flags (c++bytes) (unitCount flags u+k)

/-- A sequence of which the last byte or more are missing, with nothing wrong in what is there. -/
inductive Cut : List ℕ → Prop
  | lead {a : ℕ} (h : 0xc0≤a) (h' : a<0xf0) : Cut [a]
  | second {a b : ℕ} (h : 0xe0≤a) (h' : a<0xf0) (hb : 0x80≤b) (hb' : b<0xc0)
      (hmin : a=0xe0 → 0xa0≤b) : Cut [a,b]

/-- The string ends with its declared length in the middle of a sequence that is reached before
there are `room` code units. -/
def EndsInside (flags : UtfFlags) (bytes : List ℕ) (utf8len room : ℕ) : Prop :=
  bytes.length=utf8len ∧ ∃ pre suf k,bytes=pre++suf ∧ Text Taken flags pre k ∧ k<room ∧ Cut suf

/-! ### One sequence -/

/-- The three forms of the sequences that are taken. -/
inductive Form : List ℕ → ℕ → Prop
  | one {a : ℕ} (h : 0<a) (h' : a<0x80) : Form [a] a
  | two {a b : ℕ} (h : 0xc0≤a) (h' : a<0xe0) (hb : 0x80≤b) (hb' : b<0xc0)
      (hmin : a<0xc2 → b=0x80) : Form [a,b] ((a-0xc0)*64+(b-0x80))
  | three {a b c : ℕ} (h : 0xe0≤a) (h' : a<0xf0) (hb : 0x80≤b) (hb' : b<0xc0)
      (hmin : a=0xe0 → 0xa0≤b) (hc : 0x80≤c) (hc' : c<0xc0) :
      Form [a,b,c] ((a-0xe0)*4096+(b-0x80)*64+(c-0x80))

lemma taken_iff_form {c : List ℕ} {u : ℕ} : Taken c u ↔ Form c u := by
  constructor
  · rintro (⟨hu,rfl⟩ | ⟨rfl,rfl⟩)
    · by_cases h1 : u<0x80 ∧ u≠0
      · rw [encodeUnit_one h1.1 h1.2]
        exact .one (pos_of_ne_zero h1.2) h1.1
      by_cases h2 : u<0x800
      · rw [encodeUnit_two h2 h1]
        convert Form.two (a := u/64+0xc0) (b := u%64+0x80) (by omega) (by omega) (by omega)
          (by omega) (by omega) using 1
        omega
      · rw [encodeUnit_three hu h2]
        convert Form.three (a := u/4096+0xe0) (b := u/64%64+0x80) (c := u%64+0x80)
          (by omega) (by omega) (by omega) (by omega) (by omega) (by omega) (by omega) using 1
        omega
    · exact .two (a := 0xc1) (b := 0x80) (by decide) (by decide) (by decide) (by decide)
        (fun _ => rfl)
  · intro h
    cases h with
    | one h h' => exact .inl ⟨by omega,(encodeUnit_one h' (by omega)).symm⟩
    | two h h' hb hb' hmin =>
      rename_i a b
      by_cases hat : a=0xc1
      · subst hat
        rw [hmin (by decide)]
        exact .inr ⟨rfl,rfl⟩
      · refine .inl ⟨by omega,?_⟩
        rw [encodeUnit_two (by omega) (by omega)]
        congr <;> omega
    | three h h' hb hb' hmin hc hc' =>
      refine .inl ⟨by omega,?_⟩
      rw [encodeUnit_three (by omega) (by omega)]
      congr <;> omega

lemma Form.prefix_free {c c' rest rest' : List ℕ} {u u' : ℕ} (h : Form c u) (h' : Form c' u')
    (heq : c++rest=c'++rest') : c=c' ∧ u=u' ∧ rest=rest' := by
  cases h <;> cases h' <;> simp only [cons_append,nil_append,List.cons.injEq] at heq <;>
    obtain ⟨rfl,heq⟩ := heq
  all_goals first | omega | skip
  · exact ⟨rfl,rfl,heq⟩
  · obtain ⟨rfl,heq⟩ := heq
    exact ⟨rfl,rfl,heq⟩
  · obtain ⟨rfl,rfl,heq⟩ := heq
    exact ⟨rfl,rfl,heq⟩

lemma Form.not_cut {c rest : List ℕ} {u : ℕ} (h : Form c u) : ¬Cut (c++rest) := by
  intro hcut
  cases h <;> simp only [cons_append,nil_append] at hcut <;> cases hcut <;> omega

section Text
variable {flags : UtfFlags} {c bytes : List ℕ} {u k : ℕ}

lemma text_nil_iff : Text Taken flags [] k ↔ k=0 := by
  constructor
  · intro h
    generalize hb : ([] : List ℕ)=bytes at h
    cases h with
    | nil => rfl
    | cons hc h =>
      cases taken_iff_form.mp hc <;> simp at hb
  · rintro rfl
    exact .nil

lemma text_append_iff (hc : Form c u) : Text Taken flags (c++bytes) k ↔
      unitCount flags u≤k ∧ Text Taken flags bytes (k-unitCount flags u) := by
  constructor
  · intro h
    generalize hb : c++bytes=all at h
    cases h with
    | nil => cases hc <;> simp at hb
    | cons hc' h =>
      obtain ⟨rfl,rfl,rfl⟩ := hc.prefix_free (taken_iff_form.mp hc') hb
      rw [Nat.add_sub_cancel_left]
      exact ⟨Nat.le_add_right _ _,h⟩
  · rintro ⟨hle,h⟩
    have := Text.cons (P := Taken) (taken_iff_form.mpr hc) h
    rwa [Nat.add_sub_cancel' hle] at this

lemma text_eq_nil (hnone : ∀ c u rest,Form c u → bytes≠c++rest)
    (h : Text Taken flags bytes k) : bytes=[] := by
  cases h with
  | nil => rfl
  | cons hc h => exact absurd rfl (hnone _ _ _ (taken_iff_form.mp hc))

end Text

/-! ### What the decoder does at the first byte of a sequence -/

lemma tail_iff {b : ℕ} (h : b<2^8) : b&&&0xc0=0x80 ↔ 0x80≤b ∧ b<0xc0 := by
  rw [(high_masks b h).2]
  omega

section Lead
variable {mem : ℕ → ℕ} (hbyte : ∀ i,mem i<2^8) {b pos n : ℕ}
include hbyte

lemma decodeFinal_eq (ch : ℕ) : decodeFinal mem ch pos n =
    if 0x80 ≤ mem pos ∧ mem pos<0xc0 then
      some ((ch+(mem pos-0x80))%2^16,pos+1,pred32 n) else none := by
  by_cases ht : 0x80 ≤ mem pos ∧ mem pos<0xc0
  · have hlow : mem pos&&&0x3f=mem pos-0x80 := by
      rw [show 0x3f=2^6-1 from rfl,and_low]
      omega
    simp only [decodeFinal,(tail_iff (hbyte pos)).mpr ht,hlow]
    rw [if_neg (not_not.mpr rfl),if_pos ht]
  · simp only [decodeFinal]
    rw [if_pos fun h => ht ((tail_iff (hbyte pos)).mp h),if_neg ht]

lemma decodeSequence_lead_two (h : 0xc0≤b) (h' : b<0xe0) : sequenceReads mem b pos=[pos] ∧
    decodeSequence mem b pos n =
      if (0x80 ≤ mem pos ∧ mem pos<0xc0) ∧ (b<0xc2 → mem pos=0x80) then
        some ((b-0xc0)*64+(mem pos-0x80),pos+1,pred32 n) else none := by
  have hhigh : b&&&0xf0=0xc0 ∨ b&&&0xf0=0xd0 := by
    rw [high_bits (by omega)]
    omega
  have hch : (b&&&0x1f)<<<6=(b-0xc0)*64 := by
    rw [show 0x1f=2^5-1 from rfl,and_low,shiftLeft_eq]
    omega
  refine ⟨if_pos hhigh,?_⟩
  simp only [decodeSequence,if_pos hhigh,hch,decodeFinal_eq hbyte]
  by_cases hmin : b<0xc2 ∧ mem pos≠0x80
  · rw [if_pos (by omega),if_neg fun h => hmin.2 (h.2 hmin.1)]
  · rw [if_neg (by omega)]
    refine if_congr (iff_self_and.mpr fun _ => by omega) ?_ rfl
    rw [mod_eq_of_lt (by have := hbyte pos; omega)]

lemma decodeSequence_lead_three (h : 0xe0≤b) (h' : b<0xf0) : (sequenceReads mem b pos =
      if (0x80 ≤ mem pos ∧ mem pos<0xc0) ∧ (b=0xe0 → 0xa0 ≤ mem pos) then [pos,pos+1]
      else [pos]) ∧ decodeSequence mem b pos n =
      if (0x80 ≤ mem pos ∧ mem pos<0xc0) ∧ (b=0xe0 → 0xa0 ≤ mem pos) then
        if 0x80 ≤ mem (pos+1) ∧ mem (pos+1)<0xc0 then
          some ((b-0xe0)*4096+(mem pos-0x80)*64+(mem (pos+1)-0x80),pos+2,pred32 (pred32 n))
        else none
      else none := by
  have hhigh : b&&&0xf0=0xe0 := by
    rw [high_bits (by omega)]
    omega
  have hch : (b&&&0x0f)<<<6=(b-0xe0)*64 := by
    rw [show 0x0f=2^4-1 from rfl,and_low,shiftLeft_eq]
    omega
  have htwo : ¬(b&&&0xf0=0xc0 ∨ b&&&0xf0=0xd0) := by
    rw [hhigh]
    decide
  simp only [sequenceReads,decodeSequence,if_neg htwo,if_pos hhigh,hch]
  by_cases ht : 0x80 ≤ mem pos ∧ mem pos<0xc0
  · have hlow : mem pos&&&0x3f=mem pos-0x80 := by
      rw [show 0x3f=2^6-1 from rfl,and_low]
      omega
    have hvalue : ((b-0xe0)*64+(mem pos-0x80))<<<6%2^16=(b-0xe0)*4096+(mem pos-0x80)*64 := by
      rw [shiftLeft_eq]
      omega
    rw [if_neg (not_not.mpr ((tail_iff (hbyte pos)).mpr ht)),
      if_neg (not_not.mpr ((tail_iff (hbyte pos)).mpr ht)),hlow,hvalue]
    have hsmall : (b-0xe0)*4096+(mem pos-0x80)*64<0x800 ↔ ¬(b=0xe0 → 0xa0 ≤ mem pos) := by
      constructor
      · intro hlt hmin
        by_cases hb : b=0xe0
        · have := hmin hb
          omega
        · omega
      · intro hmin
        obtain ⟨hb,hlt⟩ := Classical.not_imp.mp hmin
        omega
    simp only [hsmall]
    by_cases hmin : b=0xe0 → 0xa0 ≤ mem pos
    · rw [if_neg (not_not.mpr hmin),if_neg (not_not.mpr hmin),if_pos ⟨ht,hmin⟩,if_pos ⟨ht,hmin⟩,
        decodeFinal_eq hbyte]
      refine ⟨rfl,?_⟩
      by_cases ht' : 0x80 ≤ mem (pos+1) ∧ mem (pos+1)<0xc0
      · rw [if_pos ht',if_pos ht',mod_eq_of_lt (by omega)]
      · rw [if_neg ht',if_neg ht']
    · rw [if_pos hmin,if_pos hmin,if_neg fun h => hmin h.2,if_neg fun h => hmin h.2]
      exact ⟨rfl,rfl⟩
  · have hnot : mem pos&&&0xc0≠0x80 := fun h => ht ((tail_iff (hbyte pos)).mp h)
    rw [if_pos hnot,if_pos hnot,if_neg fun h => ht h.1,if_neg fun h => ht h.1]
    exact ⟨rfl,rfl⟩

omit hbyte in
lemma decodeSequence_lead_none (hb : b<2^8) (h : ¬(0xc0≤b ∧ b<0xf0)) :
    sequenceReads mem b pos=[] ∧ decodeSequence mem b pos n=none := by
  have hhigh : b&&&0xf0≠0xc0 ∧ b&&&0xf0≠0xd0 ∧ b&&&0xf0≠0xe0 := by
    rw [high_bits hb]
    omega
  have htwo : ¬(b&&&0xf0=0xc0 ∨ b&&&0xf0=0xd0) := by
    rw [not_or]
    exact ⟨hhigh.1,hhigh.2.1⟩
  simp only [sequenceReads,decodeSequence,if_neg htwo,if_neg hhigh.2.2,and_self]

end Lead

/-! ### One turn of the decoder -/

section Turn
variable {mem : ℕ → ℕ} {pos n : ℕ}

lemma pred32_succ (n : ℕ) : pred32 (n+1)=n := by
  rw [pred32,if_neg (Nat.succ_ne_zero n),Nat.add_sub_cancel]

lemma utf8String_cons {n : ℕ} (h : mem pos≠0) :
    utf8String mem (n+1) pos=mem pos::utf8String mem n (pos+1) := if_neg h

lemma utf8String_eq_cons {n a : ℕ} {rest : List ℕ} (h : utf8String mem n pos=a::rest) :
    ∃ m,n=m+1 ∧ mem pos=a ∧ a≠0 ∧ rest=utf8String mem m (pos+1) := by
  cases n with
  | zero => cases h
  | succ m =>
    rw [utf8String] at h
    split_ifs at h with h0
    simp only [List.cons.injEq] at h
    exact ⟨m,rfl,h.1,h.1▸h0,h.2.symm⟩

/-- What the decoder can meet at a byte from 0x80 on: the end of the string inside a sequence,
something that is no sequence, or a sequence. -/
inductive Meets (mem : ℕ → ℕ) (pos n : ℕ) : Prop
  | cut (hcut : Cut (utf8String mem (n+1) pos))
      (hlen : (utf8String mem (n+1) pos).length=n+1)
      (hread : ∃ p∈sequenceReads mem (mem pos) (pos+1),pos+(n+1)≤p)
  | wrong (hform : ∀ c u rest,Form c u → utf8String mem (n+1) pos≠c++rest)
      (hcut : ¬(Cut (utf8String mem (n+1) pos) ∧ (utf8String mem (n+1) pos).length=n+1))
      (hread : ∀ p∈sequenceReads mem (mem pos) (pos+1),p<pos+(n+1))
      (hnone : decodeSequence mem (mem pos) (pos+1) n=none)
  | sequence (c : List ℕ) (u m : ℕ) (hc : Form c u) (hlen : n+1=c.length+m)
      (hstring : utf8String mem (n+1) pos=c++utf8String mem m (pos+c.length))
      (hread : ∀ p∈sequenceReads mem (mem pos) (pos+1),p<pos+(n+1))
      (hsome : decodeSequence mem (mem pos) (pos+1) n=some (u,pos+c.length,m))

variable (hbyte : ∀ i,mem i<2^8)
include hbyte

lemma meets_other (hhigh : 0x80 ≤ mem pos) (h : ¬(0xc0 ≤ mem pos ∧ mem pos<0xf0)) :
    Meets mem pos n := by
  obtain ⟨hreads,hnone⟩ := @decodeSequence_lead_none mem (mem pos) (pos+1) n (hbyte pos) h
  refine .wrong ?_ ?_ ?_ hnone
  · intro c u rest hc heq
    rw [utf8String_cons (by omega)] at heq
    cases hc <;> simp only [cons_append,List.cons.injEq] at heq <;> omega
  · rintro ⟨hcut,-⟩
    rw [utf8String_cons (by omega)] at hcut
    generalize utf8String mem n (pos+1)=rest at hcut
    cases hcut <;> omega
  · rw [hreads]
    simp

lemma meets_lead_two (h : 0xc0 ≤ mem pos) (h' : mem pos<0xe0) : Meets mem pos n := by
  have hcons := utf8String_cons (n := n) (show mem pos≠0 by omega)
  obtain ⟨hreads,hseq⟩ := @decodeSequence_lead_two mem hbyte (mem pos) (pos+1) n h h'
  cases n with
  | zero =>
    refine .cut ?_ ?_ ⟨pos+1,?_,le_refl _⟩
    · rw [hcons]
      exact .lead h (by omega)
    · rw [hcons]
      rfl
    · rw [hreads]
      exact mem_singleton_self _
  | succ m =>
    have hread : ∀ p∈sequenceReads mem (mem pos) (pos+1),p<pos+(m+1+1) := by
      rw [hreads]
      intro p hp
      have := mem_singleton.mp hp
      omega
    by_cases hok : (0x80 ≤ mem (pos+1) ∧ mem (pos+1)<0xc0) ∧ (mem pos<0xc2 → mem (pos+1)=0x80)
    · rw [if_pos hok,pred32_succ] at hseq
      refine .sequence [mem pos,mem (pos+1)] _ m (.two h h' hok.1.1 hok.1.2 hok.2) (by simp; omega)
        ?_ hread hseq
      rw [hcons,utf8String_cons (by omega)]
      rfl
    · rw [if_neg hok] at hseq
      refine .wrong ?_ ?_ hread hseq
      · intro c u rest hc heq
        rw [hcons] at heq
        cases hc <;> simp only [cons_append,nil_append,List.cons.injEq] at heq
        · omega
        · obtain ⟨m',hm,hsecond,-,-⟩ := utf8String_eq_cons heq.2
          refine hok ⟨by omega,fun hlt => ?_⟩
          rename_i hmin
          rw [hsecond]
          exact hmin (by omega)
        · omega
      · rintro ⟨hcut,hlen⟩
        rw [hcons] at hcut hlen
        generalize utf8String mem (m+1) (pos+1)=rest at hcut hlen
        cases hcut
        · simp at hlen
        · omega

lemma meets_lead_three (h : 0xe0 ≤ mem pos) (h' : mem pos<0xf0) : Meets mem pos n := by
  have hcons := utf8String_cons (n := n) (show mem pos≠0 by omega)
  obtain ⟨hreads,hseq⟩ := @decodeSequence_lead_three mem hbyte (mem pos) (pos+1) n h h'
  cases n with
  | zero =>
    refine .cut ?_ ?_ ⟨pos+1,?_,le_refl _⟩
    · rw [hcons]
      exact .lead (by omega) h'
    · rw [hcons]
      rfl
    · rw [hreads]
      split_ifs <;> simp
  | succ n =>
    by_cases hok : (0x80 ≤ mem (pos+1) ∧ mem (pos+1)<0xc0) ∧ (mem pos=0xe0 → 0xa0 ≤ mem (pos+1))
    · have hcons' := @utf8String_cons mem (pos+1) n (show mem (pos+1)≠0 by omega)
      rw [if_pos hok] at hreads hseq
      rw [hcons'] at hcons
      cases n with
      | zero =>
        refine .cut ?_ ?_ ⟨pos+1+1,?_,le_refl _⟩
        · rw [hcons]
          exact .second h h' hok.1.1 hok.1.2 hok.2
        · rw [hcons]
          rfl
        · rw [hreads]
          simp
      | succ m =>
        have hread : ∀ p∈sequenceReads mem (mem pos) (pos+1),p<pos+(m+1+1+1) := by
          rw [hreads]
          intro p hp
          simp only [mem_cons,not_mem_nil,or_false] at hp
          omega
        by_cases hlast : 0x80 ≤ mem (pos+1+1) ∧ mem (pos+1+1)<0xc0
        · rw [if_pos hlast,pred32_succ,pred32_succ] at hseq
          refine .sequence [mem pos,mem (pos+1),mem (pos+1+1)] _ m
            (.three h h' hok.1.1 hok.1.2 hok.2 hlast.1 hlast.2) (by simp; omega) ?_ hread hseq
          rw [hcons,utf8String_cons (by omega)]
          rfl
        · rw [if_neg hlast] at hseq
          refine .wrong ?_ ?_ hread hseq
          · intro c u rest hc heq
            rw [hcons] at heq
            cases hc <;> simp only [cons_append,nil_append,List.cons.injEq] at heq
            · omega
            · omega
            · obtain ⟨m',hm,hthird,-,-⟩ := utf8String_eq_cons heq.2.2
              omega
          · rintro ⟨hcut,hlen⟩
            rw [hcons] at hcut hlen
            generalize utf8String mem (m+1) (pos+1+1)=rest at hcut hlen
            cases hcut
            simp at hlen
    · rw [if_neg hok] at hreads hseq
      refine .wrong ?_ ?_ ?_ hseq
      · intro c u rest hc heq
        rw [hcons] at heq
        cases hc <;> simp only [cons_append,nil_append,List.cons.injEq] at heq
        · omega
        · omega
        · obtain ⟨m',hm,hsecond,-,-⟩ := utf8String_eq_cons heq.2
          rename_i hmin _ _
          refine hok ⟨by omega,fun hlead => ?_⟩
          rw [hsecond]
          exact hmin (by omega)
      · rintro ⟨hcut,hlen⟩
        rw [hcons] at hcut hlen
        generalize hs : utf8String mem (n+1) (pos+1)=rest at hcut hlen
        cases hcut with
        | lead => simp at hlen
        | second _ _ hb hb' hmin =>
          obtain ⟨m',hm,hsecond,-,-⟩ := utf8String_eq_cons hs
          refine hok ⟨by omega,fun hlead => ?_⟩
          rw [hsecond]
          exact hmin hlead
      · rw [hreads]
        intro p hp
        have := mem_singleton.mp hp
        omega

lemma meets (hhigh : 0x80 ≤ mem pos) : Meets mem pos n := by
  rcases lt_or_ge (mem pos) 0xc0 with h | h
  · exact meets_other hbyte hhigh (by omega)
  rcases lt_or_ge (mem pos) 0xe0 with h' | h'
  · exact meets_lead_two hbyte h h'
  rcases lt_or_ge (mem pos) 0xf0 with h'' | h''
  · exact meets_lead_three hbyte h' h''
  · exact meets_other hbyte hhigh (by omega)

end Turn

end Darwin.Vfs
