import Darwin.Vfs.UtfSequence

/-! What `utf8_decodestr` reads, what it writes, and which strings it accepts. -/
open List Nat
namespace Darwin.Vfs

section Stored
variable {mem : ℕ → ℕ} {altslash room pos pos' n n' u : ℕ} {flags : UtfFlags}

lemma unitCount_cases (flags : UtfFlags) (u : ℕ) : unitCount flags u=1 ∨ unitCount flags u=2 := by
  rw [unitCount]
  split_ifs
  · exact .inr rfl
  · exact .inl rfl

lemma unitCount_ascii (h : u<0x80) : unitCount flags u=1 := by
  rw [unitCount,ucsDecompose_small (by omega)]
  exact if_neg fun hc => hc.2 rfl

lemma decodeLoop_taken (h : 0x80 ≤ mem pos)
    (hread : decodeSequence mem (mem pos) (pos+1) n=some (u,pos',n')) :
    ∃ units : List ℕ,units.length=unitCount flags u ∧
      decodeLoop mem altslash flags (room+unitCount flags u) pos (n+1) =
        ((decodeLoop mem altslash flags room pos' n').1,
          units++(decodeLoop mem altslash flags room pos' n').2) := by
  by_cases hc : flags.decomposed ∧ (ucsDecompose u).2≠0
  · refine ⟨[swapUnit flags (ucsDecompose u).1,storedUnit altslash flags (ucsDecompose u).2],?_,?_⟩
    · rw [unitCount,if_pos hc]
      rfl
    · rw [unitCount,if_pos hc,decodeLoop,if_neg (by omega),if_neg (by omega),Nat.add_sub_cancel,
        hread]
      simp [hc]
  · refine ⟨[storedUnit altslash flags (if flags.decomposed then (ucsDecompose u).1 else u)],?_,?_⟩
    · rw [unitCount,if_neg hc]
      rfl
    · rw [unitCount,if_neg hc,decodeLoop,if_neg (by omega),if_neg (by omega),Nat.add_sub_cancel,
        hread]
      simp only [if_neg hc]
      rfl

lemma decodeReads_taken (h : 0x80 ≤ mem pos)
    (hread : decodeSequence mem (mem pos) (pos+1) n=some (u,pos',n')) :
    decodeReads mem flags (room+unitCount flags u) pos (n+1) =
      pos::sequenceReads mem (mem pos) (pos+1)++decodeReads mem flags room pos' n' := by
  by_cases hc : flags.decomposed ∧ (ucsDecompose u).2≠0
  · rw [unitCount,if_pos hc,decodeReads,if_neg (by omega),if_neg (by omega),if_neg (by omega),
      Nat.add_sub_cancel,hread]
    simp only [if_pos hc]
  · rw [unitCount,if_neg hc,decodeReads,if_neg (by omega),if_neg (by omega),if_neg (by omega),
      Nat.add_sub_cancel,hread]
    simp only [if_neg hc]

lemma decodeLoop_half (h : 0x80 ≤ mem pos)
    (hread : decodeSequence mem (mem pos) (pos+1) n=some (u,pos',n'))
    (hcount : unitCount flags u=2) : decodeLoop mem altslash flags 1 pos (n+1) =
        (some .nameTooLong,[swapUnit flags (ucsDecompose u).1]) ∧
      decodeReads mem flags 1 pos (n+1)=pos::sequenceReads mem (mem pos) (pos+1) := by
  have hc : flags.decomposed ∧ (ucsDecompose u).2≠0 := by
    by_contra hc
    rw [unitCount,if_neg hc] at hcount
    cases hcount
  constructor
  · rw [decodeLoop,if_neg (by omega),if_neg (by omega),Nat.add_sub_cancel,hread]
    simp only [if_pos hc]
  · rw [decodeReads,if_neg (by omega),if_neg (by omega),if_neg (by omega),Nat.add_sub_cancel,hread]
    simp only [if_pos hc,append_nil]

lemma decodeLoop_wrong (h : 0x80 ≤ mem pos)
    (hread : decodeSequence mem (mem pos) (pos+1) n=none) :
    decodeLoop mem altslash flags (room+1) pos (n+1)=(some .inval,[]) ∧
      decodeReads mem flags (room+1) pos (n+1)=pos::sequenceReads mem (mem pos) (pos+1) := by
  constructor
  · rw [decodeLoop,if_neg (by omega),if_neg (by omega),Nat.add_sub_cancel,hread]
  · rw [decodeReads,if_neg (by omega),if_neg (by omega),if_neg (by omega),Nat.add_sub_cancel,hread,
      append_nil]

lemma sequenceReads_subset (h : 0x80 ≤ mem pos) {p : ℕ}
    (hp : p∈sequenceReads mem (mem pos) (pos+1)) : p∈decodeReads mem flags (room+1) pos (n+1) := by
  rw [decodeReads,if_neg (by omega),if_neg (by omega),if_neg (by omega)]
  exact mem_append_left _ (mem_cons_of_mem _ hp)

lemma decodeReads_ascii (h0 : mem pos≠0) (h : mem pos<0x80) :
    decodeReads mem flags (room+1) pos (n+1)=pos::decodeReads mem flags room (pos+1) n := by
  rw [decodeReads,if_neg (Nat.succ_ne_zero n),if_neg h0,if_pos h,Nat.add_sub_cancel]

end Stored

/-! ### The whole string -/

def Fills (flags : UtfFlags) (bytes : List ℕ) (room : ℕ) : Prop :=
  ∃ pre suf k,bytes=pre++suf ∧ Text Taken flags pre k ∧ room≤k

section Strings
variable {flags : UtfFlags} {c bytes : List ℕ} {u m room : ℕ}

lemma append_split (hc : Form c u) (Q : List ℕ → ℕ → Prop) :
    (∃ pre suf k,c++bytes=pre++suf ∧ Text Taken flags pre k ∧ Q suf k) ↔
      Q (c++bytes) 0 ∨ ∃ pre suf k,bytes=pre++suf ∧ Text Taken flags pre k ∧
        Q suf (unitCount flags u+k) := by
  constructor
  · rintro ⟨pre,suf,k,heq,htext,hq⟩
    cases htext with
    | nil =>
      rw [nil_append] at heq
      exact .inl (heq▸hq)
    | cons hc' h =>
      rw [append_assoc] at heq
      obtain ⟨rfl,rfl,hrest⟩ := hc.prefix_free (taken_iff_form.mp hc') heq
      exact .inr ⟨_,suf,_,hrest,h,hq⟩
  · rintro (hq | ⟨pre,suf,k,rfl,htext,hq⟩)
    · exact ⟨[],_,0,rfl,.nil,hq⟩
    · exact ⟨c++pre,suf,_,(append_assoc _ _ _).symm,.cons (taken_iff_form.mpr hc) htext,hq⟩

lemma endsInside_append (hc : Form c u) : EndsInside flags (c++bytes) (c.length+m) room ↔
    EndsInside flags bytes m (room-unitCount flags u) := by
  rw [EndsInside,EndsInside,length_append,add_left_cancel_iff]
  refine and_congr Iff.rfl ((append_split hc fun suf k => k<room ∧ Cut suf).trans ?_)
  rw [or_iff_right fun h => hc.not_cut h.2]
  simp only [Nat.lt_sub_iff_add_lt']

lemma fills_append (hc : Form c u) :
    Fills flags (c++bytes) room ↔ Fills flags bytes (room-unitCount flags u) := by
  refine (append_split hc fun _ k => room≤k).trans ?_
  simp only [Fills,Nat.sub_le_iff_le_add']
  refine or_iff_right_of_imp fun h0 => ⟨[],bytes,0,rfl,.nil,by omega⟩

lemma accepts_append (hc : Form c u) : (∃ k≤room,Text Taken flags (c++bytes) k) ↔
    unitCount flags u≤room ∧ ∃ k≤room-unitCount flags u,Text Taken flags bytes k := by
  simp only [text_append_iff hc]
  constructor
  · rintro ⟨k,hk,hle,h⟩
    exact ⟨by omega,_,by omega,h⟩
  · rintro ⟨hle,k,hk,h⟩
    refine ⟨unitCount flags u+k,by omega,by omega,?_⟩
    rwa [Nat.add_sub_cancel_left]

lemma fills_of_no_form (hnone : ∀ c u rest,Form c u → bytes≠c++rest) :
    Fills flags bytes room ↔ room=0 := by
  constructor
  · rintro ⟨pre,suf,k,rfl,htext,hle⟩
    cases htext with
    | nil => omega
    | cons hc h =>
      exact absurd (append_assoc _ _ _) (hnone _ _ _ (taken_iff_form.mp hc))
  · rintro rfl
    exact ⟨[],bytes,0,rfl,.nil,le_refl 0⟩

lemma endsInside_of_no_form (hnone : ∀ c u rest,Form c u → bytes≠c++rest) :
    EndsInside flags bytes m room ↔ bytes.length=m ∧ 0<room ∧ Cut bytes := by
  refine and_congr Iff.rfl ⟨?_,fun h => ⟨[],bytes,0,rfl,.nil,h⟩⟩
  rintro ⟨pre,suf,k,rfl,htext,hk,hcut⟩
  cases htext with
  | nil => exact ⟨hk,hcut⟩
  | cons hc h => exact absurd (append_assoc _ _ _) (hnone _ _ _ (taken_iff_form.mp hc))

lemma no_form_nil : ∀ c u rest,Form c u → ([] : List ℕ)≠c++rest := by
  intro c u rest hc heq
  cases hc <;> simp at heq

end Strings

/-- What a run of the decoder does, from a position on, in terms of the string from there on. -/
structure Decoded (mem : ℕ → ℕ) (altslash : ℕ) (flags : UtfFlags) (room pos n : ℕ) : Prop where
  reads : (∀ p∈decodeReads mem flags room pos n,p<pos+n) ↔
    ¬EndsInside flags (utf8String mem n pos) n room
  accepts : ¬EndsInside flags (utf8String mem n pos) n room →
    ((decodeLoop mem altslash flags room pos n).1=none ↔
      ∃ k≤room,Text Taken flags (utf8String mem n pos) k)
  fills : ¬EndsInside flags (utf8String mem n pos) n room →
    ((decodeLoop mem altslash flags room pos n).2.length=room ↔
      Fills flags (utf8String mem n pos) room)

section Run
variable {mem : ℕ → ℕ} {altslash room pos pos' n n' u : ℕ} {flags : UtfFlags}

lemma decoded_end (hloop : decodeLoop mem altslash flags room pos n=(none,[]))
    (hreads : ∀ p∈decodeReads mem flags room pos n,p<pos+n)
    (hstring : utf8String mem n pos=[]) : Decoded mem altslash flags room pos n where
  reads := by
    rw [hstring,endsInside_of_no_form no_form_nil]
    refine iff_of_true hreads ?_
    rintro ⟨-,-,hcut⟩
    cases hcut
  accepts _ := by
    rw [hloop,hstring]
    exact iff_of_true rfl ⟨0,zero_le _,.nil⟩
  fills _ := by
    rw [hloop,hstring,fills_of_no_form no_form_nil]
    exact eq_comm

lemma decoded_append {c units rest : List ℕ} (hc : Form c u) (hlen : n=c.length+n')
    (hstring : utf8String mem n pos=c++utf8String mem n' (pos+c.length))
    (hunits : units.length=unitCount flags u)
    (hloop : decodeLoop mem altslash flags (room+unitCount flags u) pos n =
      ((decodeLoop mem altslash flags room (pos+c.length) n').1,
        units++(decodeLoop mem altslash flags room (pos+c.length) n').2))
    (hreads : decodeReads mem flags (room+unitCount flags u) pos n =
      rest++decodeReads mem flags room (pos+c.length) n')
    (hrest : ∀ p∈rest,p<pos+n)
    (ih : Decoded mem altslash flags room (pos+c.length) n') :
    Decoded mem altslash flags (room+unitCount flags u) pos n := by
  have hinside : EndsInside flags (utf8String mem n pos) n (room+unitCount flags u) ↔
      EndsInside flags (utf8String mem n' (pos+c.length)) n' room := by
    rw [hstring,hlen,endsInside_append hc,Nat.add_sub_cancel]
  refine ⟨?_,fun h => ?_,fun h => ?_⟩
  · rw [hinside,←ih.reads,hreads]
    simp only [mem_append,or_imp,forall_and]
    rw [and_iff_right hrest]
    refine forall₂_congr fun p _ => ?_
    omega
  · rw [hloop,hstring,accepts_append hc,ih.accepts (hinside.not.mp h),Nat.add_sub_cancel,
      and_iff_right (le_add_left _ _)]
  · rw [hloop,hstring,fills_append hc,Nat.add_sub_cancel,←ih.fills (hinside.not.mp h),
      length_append,hunits,add_comm room,add_left_cancel_iff]

lemma text_pos {bytes : List ℕ} {k : ℕ} (h : Text Taken flags bytes k) (hk : k≤0) : bytes=[] := by
  cases h with
  | nil => rfl
  | cons hc h =>
    rename_i c bytes u k
    have := unitCount_cases flags u
    omega

lemma decoded_full (h0 : mem pos≠0) : Decoded mem altslash flags 0 pos (n+1) where
  reads := by
    rw [decodeReads,if_neg (succ_ne_zero n)]
    refine iff_of_true (by simp) ?_
    rintro ⟨-,pre,suf,k,-,-,hk,-⟩
    exact not_lt_zero k hk
  accepts _ := by
    rw [decodeLoop,if_neg (not_or.mpr ⟨succ_ne_zero n,h0⟩)]
    refine iff_of_false (by simp) ?_
    rintro ⟨k,hk,htext⟩
    rw [utf8String_cons h0] at htext
    exact absurd (text_pos htext hk) (cons_ne_nil _ _)
  fills _ := by
    rw [decodeLoop,if_neg (not_or.mpr ⟨succ_ne_zero n,h0⟩)]
    exact iff_of_true rfl ⟨[],_,0,rfl,.nil,le_refl 0⟩

variable (hbyte : ∀ i,mem i<2^8)
include hbyte

lemma decoded_high (hhigh : 0x80 ≤ mem pos)
    (ih : ∀ r≤room,∀ pos n,Decoded mem altslash flags r pos n) :
    Decoded mem altslash flags (room+1) pos (n+1) := by
  cases meets hbyte hhigh (n := n) with
  | cut hcut hlen hread =>
    have hinside : EndsInside flags (utf8String mem (n+1) pos) (n+1) (room+1) :=
      ⟨hlen,[],_,0,rfl,.nil,succ_pos _,hcut⟩
    refine ⟨?_,fun h => absurd hinside h,fun h => absurd hinside h⟩
    refine iff_of_false (fun hall => ?_) (not_not.mpr hinside)
    obtain ⟨p,hp,hbeyond⟩ := hread
    have := hall p (sequenceReads_subset hhigh hp)
    omega
  | wrong hform hcut hread hnone =>
    obtain ⟨hloop,hreads⟩ := @decodeLoop_wrong mem altslash room pos n flags hhigh hnone
    have hne : utf8String mem (n+1) pos≠[] := by
      rw [utf8String_cons (by omega)]
      exact cons_ne_nil _ _
    refine ⟨?_,fun h => ?_,fun h => ?_⟩
    · rw [endsInside_of_no_form hform,hreads]
      refine iff_of_true ?_ fun h => hcut ⟨h.2.2,h.1⟩
      intro p hp
      rcases mem_cons.mp hp with rfl | hp
      · omega
      · exact hread p hp
    · rw [hloop]
      refine iff_of_false (by simp) ?_
      rintro ⟨k,-,htext⟩
      exact hne (text_eq_nil hform htext)
    · rw [hloop,fills_of_no_form hform]
      simp
  | sequence c u m hc hlen hstring hread hsome =>
    have hreach : ∀ p∈pos::sequenceReads mem (mem pos) (pos+1),p<pos+(n+1) := by
      intro p hp
      rcases mem_cons.mp hp with rfl | hp
      · omega
      · exact hread p hp
    by_cases hfit : unitCount flags u≤room+1
    · obtain ⟨r,hr⟩ : ∃ r,room+1=r+unitCount flags u := ⟨_,(Nat.sub_add_cancel hfit).symm⟩
      obtain ⟨units,hunits,hloop⟩ := @decodeLoop_taken mem altslash r pos _ n _ u flags hhigh hsome
      have hpos := unitCount_cases flags u
      rw [hr]
      exact decoded_append hc hlen hstring hunits hloop (decodeReads_taken hhigh hsome) hreach
        (ih r (by omega) _ _)
    · obtain ⟨rfl,hcount⟩ : room=0 ∧ unitCount flags u=2 := by
        have := unitCount_cases flags u
        omega
      obtain ⟨hloop,hreads⟩ := @decodeLoop_half mem altslash pos _ n _ u flags hhigh hsome hcount
      refine ⟨?_,fun h => ?_,fun h => ?_⟩
      · rw [hreads,hstring,hlen,endsInside_append hc,hcount,←hlen]
        refine iff_of_true hreach ?_
        rintro ⟨-,pre,suf,k,-,-,hk,-⟩
        exact not_lt_zero k hk
      · rw [hloop,hstring,accepts_append hc,hcount]
        exact iff_of_false (by simp) fun h => absurd h.1 (by decide)
      · rw [hloop,hstring,fills_append hc,hcount]
        exact iff_of_true rfl ⟨[],_,0,rfl,.nil,le_refl 0⟩

lemma decoded (room pos n : ℕ) : Decoded mem altslash flags room pos n := by
  induction room using Nat.strong_induction_on generalizing pos n with
  | _ room ih =>
    cases n with
    | zero =>
      refine decoded_end ?_ ?_ rfl
      · cases room <;> simp [decodeLoop]
      · cases room <;> simp [decodeReads]
    | succ n =>
      by_cases h0 : mem pos=0
      · refine decoded_end ?_ ?_ (if_pos h0)
        · cases room <;> simp [decodeLoop,h0]
        · cases room <;> simp [decodeReads,h0]
      cases room with
      | zero => exact decoded_full h0
      | succ room =>
        by_cases hascii : mem pos<0x80
        · have hcount : unitCount flags (mem pos)=1 := unitCount_ascii hascii
          have hloop := @decodeLoop_ascii mem flags altslash room pos n h0 hascii
          have hreads : decodeReads mem flags (room+1) pos (n+1) =
            [pos]++decodeReads mem flags room (pos+1) n := decodeReads_ascii h0 hascii
          have hunits : [storedUnit altslash flags (mem pos)].length=unitCount flags (mem pos) :=
            hcount.symm
          have happend : Decoded mem altslash flags (room+unitCount flags (mem pos)) pos (n+1) := by
            refine decoded_append (.one (pos_of_ne_zero h0) hascii) (add_comm n 1)
              (utf8String_cons h0) hunits (by rw [hcount]; exact hloop)
              (by rw [hcount]; exact hreads) (by simp) (ih room (lt_succ_self room) _ n)
          rwa [hcount] at happend
        · exact decoded_high hbyte (by omega) fun r hr => ih r (Nat.lt_succ_of_le hr)

end Run

lemma decodeLoop_length_le (mem : ℕ → ℕ) (altslash : ℕ) (flags : UtfFlags) (room pos n : ℕ) :
    (decodeLoop mem altslash flags room pos n).2.length≤room := by
  fun_induction decodeLoop mem altslash flags room pos n with
  | case1 => exact zero_le _
  | case2 => exact zero_le _
  | case3 => exact zero_le _
  | case4 room pos n byte hmore hascii rest ih => exact succ_le_succ ih
  | case5 => exact zero_le _
  | case6 => exact le_refl 1
  | case7 pos n byte hmore hascii u pos' n' hread hc room rest ih =>
    exact succ_le_succ (succ_le_succ ih)
  | case8 room pos n byte hmore hascii u pos' n' hread hc ch rest ih => exact succ_le_succ ih

lemma Text.taken {flags : UtfFlags} {bytes : List ℕ} {k : ℕ} (h : Text Shortest flags bytes k) :
    Text Taken flags bytes k := by
  induction h with
  | nil => exact .nil
  | cons hc h ih => exact .cons (.inl hc) ih

lemma Text.unique {flags : UtfFlags} {bytes : List ℕ} {k k' : ℕ} (h : Text Taken flags bytes k)
    (h' : Text Taken flags bytes k') : k'=k := by
  induction h generalizing k' with
  | nil => exact text_nil_iff.mp h'
  | cons hc h ih =>
    obtain ⟨hle,hrest⟩ := (text_append_iff (taken_iff_form.mp hc)).mp h'
    have := ih hrest
    omega

/-- What is promised of a call: no byte beyond the declared length is read, nothing is stored beyond
the buffer, and there is no error exactly for encoded names for which there is room. -/
structure DecodesSafely (mem : ℕ → ℕ) (utf8len buflen altslash : ℕ) (flags : UtfFlags) : Prop where
  reads : ∀ p∈decodeReads mem flags ((buflen+1)/2) 0 utf8len,p<utf8len
  writes : 2*(utf8Decodestr mem utf8len buflen altslash flags).2.length≤buflen
  accepts : (utf8Decodestr mem utf8len buflen altslash flags).1=none ↔
    ∃ k,2*k≤buflen ∧ Text Shortest flags (utf8String mem utf8len 0) k

/-- A call keeps what is promised exactly if the string does not end inside a sequence that is
reached, it does not fill the last half of a code unit of a buffer of an odd size, and it is not one
that fits and that only C1 80 keeps from being an encoded name. -/
theorem utf8Decodestr_decodesSafely_iff (mem : ℕ → UInt8) (utf8len buflen altslash : ℕ)
    (flags : UtfFlags) {bytes : List ℕ} (hbytes : bytes=utf8String (fun i => (mem i).toNat) utf8len 0) :
    DecodesSafely (fun i => (mem i).toNat) utf8len buflen altslash flags ↔
      ¬EndsInside flags bytes utf8len ((buflen+1)/2) ∧
      ¬(buflen%2=1 ∧ Fills flags bytes ((buflen+1)/2)) ∧
      ¬∃ k,2*k≤buflen ∧ Text Taken flags bytes k ∧ ¬Text Shortest flags bytes k := by
  have hrun : Decoded (fun i => (mem i).toNat) altslash flags ((buflen+1)/2) 0 utf8len :=
    decoded (fun i => (mem i).toNat_lt) _ 0 utf8len
  have hle := decodeLoop_length_le (fun i => (mem i).toNat) altslash flags ((buflen+1)/2) 0 utf8len
  have hreads := hrun.reads
  rw [zero_add,←hbytes] at hreads
  by_cases hinside : EndsInside flags bytes utf8len ((buflen+1)/2)
  · exact iff_of_false (fun h => hreads.mp h.reads hinside) fun h => h.1 hinside
  have haccepts := hrun.accepts (hbytes▸hinside)
  have hfills := hrun.fills (hbytes▸hinside)
  rw [←hbytes] at haccepts hfills
  have hwrites : 2*(utf8Decodestr (fun i => (mem i).toNat) utf8len buflen altslash flags).2.length ≤
      buflen ↔ ¬(buflen%2=1 ∧ Fills flags bytes ((buflen+1)/2)) := by
    rw [←hfills,utf8Decodestr]
    omega
  rw [and_iff_right hinside,←hwrites]
  constructor
  · rintro ⟨-,hw,ha⟩
    refine ⟨hw,?_⟩
    rintro ⟨k,hk,htaken,hnot⟩
    obtain ⟨k',-,hshort⟩ := ha.mp (haccepts.mpr ⟨k,by omega,htaken⟩)
    rw [←hbytes] at hshort
    exact hnot (htaken.unique hshort.taken▸hshort)
  · rintro ⟨hw,hclean⟩
    refine ⟨hreads.mpr hinside,hw,?_⟩
    rw [←hbytes,utf8Decodestr,haccepts]
    constructor
    · rintro ⟨k,hk,htaken⟩
      have hroom : 2*k≤buflen := by
        by_contra hbeyond
        exact hwrites.mp hw ⟨by omega,bytes,[],k,(append_nil _).symm,htaken,by omega⟩
      by_contra hnone
      exact hclean ⟨k,hroom,htaken,fun hshort => hnone ⟨k,hroom,hshort⟩⟩
    · rintro ⟨k,hk,hshort⟩
      exact ⟨k,by omega,hshort.taken⟩

theorem utf8Decodestr_decodesSafely_iff_ascii :
    DecodesSafely (fun i => (([0x61,0x62].getD i 0 : UInt8)).toNat) 2 8 0x3a noFlags ↔
      ¬EndsInside noFlags [0x61,0x62] 2 ((8+1)/2) ∧ ¬(8%2=1 ∧ Fills noFlags [0x61,0x62] ((8+1)/2)) ∧
      ¬∃ k,2*k≤8 ∧ Text Taken noFlags [0x61,0x62] k ∧ ¬Text Shortest noFlags [0x61,0x62] k :=
  utf8Decodestr_decodesSafely_iff (fun i => [0x61,0x62].getD i 0) 2 8 0x3a noFlags (by decide)

/-- The one byte C3 makes the decoder read a second one, which belongs to what comes after it. -/
theorem lead_byte_reads_beyond :
    decodeReads (fun i => (([0xc3,0xa9].getD i 0 : UInt8)).toNat) noFlags ((8+1)/2) 0 1=[0,1,2] ∧
      ¬DecodesSafely (fun i => (([0xc3,0xa9].getD i 0 : UInt8)).toNat) 1 8 0x3a noFlags := by
  have hreads : decodeReads (fun i => (([0xc3,0xa9].getD i 0 : UInt8)).toNat) noFlags
      ((8+1)/2) 0 1=[0,1,2] := by
    decide +kernel
  refine ⟨hreads,fun h => ?_⟩
  have := h.reads 1 (by rw [hreads]; decide)
  omega

end Darwin.Vfs
