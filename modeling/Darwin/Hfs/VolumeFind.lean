import Darwin.Hfs.VolumeBits

/-! `BlockFindContiguous`: the backward search for a run of clear bits, and its growth. -/
open Option
namespace Darwin.Hfs
open Lib.BitWords
namespace ExtendedVCB

def Found (v : ExtendedVCB) (startingBlock endingBlock minBlocks : ℕ) (s : FindState) : Prop :=
  s.countedFreeBlocks ≤ s.stopBlock ∧ startingBlock ≤ s.stopBlock-s.countedFreeBlocks ∧
    s.stopBlock-s.countedFreeBlocks+minBlocks≤endingBlock ∧
    ∀ i,s.stopBlock-s.countedFreeBlocks ≤ i → i<s.stopBlock-s.countedFreeBlocks+minBlocks →
      v.bit i=false

/-- The search looks for `minBlocks` clear bits from `q` on; the bits before `stopBlock`
and those from `a` on are known to be clear, and the next one to look at is `a - 1`. -/
structure FindAt (v : ExtendedVCB) (startingBlock endingBlock minBlocks : ℕ) (s : FindState)
    (q a : ℕ) : Prop where
  start : startingBlock≤q
  room : q+minBlocks≤endingBlock
  stop : s.stopBlock=q+s.countedFreeBlocks
  stopLe : s.stopBlock≤a
  current : s.currentBlock=(2^32+a-1)%2^32
  free : s.freeBlocks+a=q+minBlocks
  below : ∀ i,q ≤ i → i<s.stopBlock → v.bit i=false
  above : ∀ i,a ≤ i → i<q+minBlocks → v.bit i=false

/-- The registers agree with the block number. -/
structure FindState.At (v : ExtendedVCB) (s : FindState) : Prop where
  word : s.word=s.currentBlock/32
  tempWord : s.tempWord=v.bitmap s.word
  bitMask : s.bitMask=oneBit 32 (s.currentBlock%32)
  wordsLeft : s.wordsLeft=s.currentBlock%4096/32

section
variable {v : ExtendedVCB} {startingBlock endingBlock minBlocks : ℕ}

lemma FindAt.found {s : FindState} {q a : ℕ} (h : FindAt v startingBlock endingBlock minBlocks s q a)
    {s' : FindState} (hstop : s'.stopBlock=s.stopBlock)
    (hcount : s'.countedFreeBlocks=s.countedFreeBlocks) {b : ℕ} (hb : b ≤ s.stopBlock)
    (habove : ∀ i,b ≤ i → i<q+minBlocks → v.bit i=false) :
    Found v startingBlock endingBlock minBlocks s' := by
  have hq : s'.stopBlock-s'.countedFreeBlocks=q := by
    rw [hstop,hcount,h.stop]
    omega
  refine ⟨by rw [hstop,hcount,h.stop]; omega,by rw [hq]; exact h.start,by rw [hq]; exact h.room,?_⟩
  rw [hq]
  intro i h1 h2
  rcases Nat.lt_or_ge i s.stopBlock with hlt | hge
  · exact h.below i h1 hlt
  · exact habove i (by omega) h2

variable {read : ℕ → Bool}

lemma previousWord_spec {s s' : FindState}
    (h : s.previousWord v read=some s') : s'.stopBlock=s.stopBlock ∧
      s'.countedFreeBlocks=s.countedFreeBlocks ∧ s'.freeBlocks=s.freeBlocks ∧
      s'.currentBlock=s.currentBlock ∧ s'.bitMask=s.bitMask := by
  rw [FindState.previousWord] at h
  split_ifs at h
  · obtain rfl := some.inj h
    exact ⟨rfl,rfl,rfl,rfl,rfl⟩
  · obtain rfl := some.inj h
    exact ⟨rfl,rfl,rfl,rfl,rfl⟩

lemma previousWord_of_reads {s s' : FindState} (h : s.previousWord v read=some s') :
    s.previousWord v (fun _ => true)=some s' := by
  rw [FindState.previousWord] at h ⊢
  by_cases hleft : s.wordsLeft≠0
  · rwa [if_pos hleft] at h ⊢
  · rw [if_neg hleft] at h ⊢
    split_ifs at h
    exact h

lemma previousWord_at {s s' : FindState} {a : ℕ} (ha : 1≤a) (ha32 : a%32=0)
    (hcur : s.currentBlock=a-1) (hword : s.word=a/32) (hleft : s.wordsLeft=a%4096/32)
    (h : s.previousWord v read=some s') : s'.word=(a-1)/32 ∧
      s'.tempWord=v.bitmap ((a-1)/32) ∧ s'.wordsLeft=(a-1)%4096/32 := by
  rw [FindState.previousWord] at h
  split_ifs at h with hempty hread
  · obtain rfl := some.inj h
    have hprev : s.word-1=(a-1)/32 := by omega
    exact ⟨hprev,congrArg v.bitmap hprev,by simp only; omega⟩
  · obtain rfl := some.inj h
    have hprev : readBitmapBlock s.currentBlock+kWordsPerBlock-1=(a-1)/32 := by
      rw [hcur,readBitmapBlock,kBitsPerBlock,kWordsPerBlock]
      omega
    exact ⟨hprev,congrArg v.bitmap hprev,by simp only [kWordsPerBlock]; omega⟩

lemma bit_of_word_zero {a : ℕ} (ha : 1≤a) (ha32 : a%32=0) (h : v.bitmap ((a-1)/32)=0)
    {i : ℕ} (h1 : a-32 ≤ i) (h2 : i<a) : v.bit i=false := by
  rw [bit,bitOf,show i/32=(a-1)/32 by omega,h]
  exact BitVec.getMsbD_zero

lemma nextWord_of_reads (n : ℕ) (s : FindState) : nextWord v read minBlocks n s=.failed ∨
      nextWord v read minBlocks n s=nextWord v (fun _ => true) minBlocks n s := by
  induction n generalizing s with
  | zero => exact .inr rfl
  | succ n ih =>
    rw [nextWord,nextWord]
    rcases hprev : s.previousWord v read with _ | s1
    · exact .inl rfl
    · rw [previousWord_of_reads hprev]
      dsimp only
      split_ifs
      · exact .inr rfl
      · exact ih _
      · exact .inr rfl

lemma findLoop_of_reads (n : ℕ) (s s' : FindState)
    (h : findLoop v read endingBlock minBlocks n s=some s') :
    findLoop v (fun _ => true) endingBlock minBlocks n s=some s' := by
  induction n generalizing s with
  | zero => exact h
  | succ n ih =>
    rw [findLoop] at h ⊢
    by_cases hstop : s.stopBlock ≤ s.currentBlock
    swap
    · rwa [if_neg hstop] at h ⊢
    rw [if_pos hstop] at h ⊢
    by_cases hclear : s.tempWord&&&s.bitMask=0
    · rw [if_pos hclear] at h ⊢
      dsimp only at h ⊢
      by_cases hmask : s.bitMask<<<1=0
      · rw [if_pos hmask] at h ⊢
        rcases nextWord_of_reads (2^32) _ with hword | hword
        · rw [hword] at h
          cases h
        · rw [hword] at h
          revert h
          split
          · exact id
          · exact id
          · exact ih _
      · rw [if_neg hmask] at h ⊢
        exact ih _ h
    rw [if_neg hclear] at h ⊢
    by_cases henough : minBlocks ≤ s.freeBlocks+s.countedFreeBlocks
    · rwa [if_pos henough] at h ⊢
    rw [if_neg henough] at h ⊢
    dsimp only at h ⊢
    by_cases hpast : endingBlock≤(s.currentBlock+minBlocks)%2^32
    · rwa [if_pos hpast] at h ⊢
    rw [if_neg hpast] at h ⊢
    rw [if_neg fun hfail => Bool.noConfusion hfail.2]
    by_cases hfail : s.currentSector≠(s.currentBlock+minBlocks)%2^32/kBitsPerBlock ∧
        read s.reads=false
    · rw [if_pos hfail] at h
      cases h
    · rw [if_neg hfail] at h
      exact ih _ h

lemma next_of_reads {c c' : Cursor} (h : c.next v read=some c') :
    c.next v (fun _ => true)=some c' := by
  rw [Cursor.next] at h ⊢
  dsimp only at h ⊢
  by_cases hmask : c.bitMask>>>1=0
  · rw [if_pos hmask,Cursor.nextWord] at h ⊢
    dsimp only at h ⊢
    by_cases hleft : c.wordsLeft-1=0
    · rw [if_pos hleft] at h ⊢
      split_ifs at h
      exact h
    · rwa [if_neg hleft] at h ⊢
  · rwa [if_neg hmask] at h ⊢

lemma growLoop_of_reads {maxBlocks : ℕ} (n : ℕ) (c : Cursor) (num num' : ℕ)
    (h : growLoop v read maxBlocks n c num=some num') :
    growLoop v (fun _ => true) maxBlocks n c num=some num' := by
  induction n generalizing c num with
  | zero => exact h
  | succ n ih =>
    rw [growLoop] at h ⊢
    by_cases hfree : c.currentWord&&&c.bitMask=0
    · rw [if_pos hfree] at h ⊢
      by_cases hmax : num+1=maxBlocks
      · rwa [if_pos hmax] at h ⊢
      · rw [if_neg hmax] at h ⊢
        rcases hnext : c.next v read with _ | c1
        · rw [hnext] at h
          cases h
        · rw [hnext] at h
          rw [next_of_reads hnext]
          exact ih _ _ h
    · rwa [if_neg hfree] at h ⊢

end

end ExtendedVCB
end Darwin.Hfs
