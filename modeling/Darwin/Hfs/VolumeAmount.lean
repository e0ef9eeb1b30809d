import Darwin.Hfs.VolumeRun

/-! How much a call of `BlockAllocate` that succeeds gives, whichever reads of the bitmap fail. -/
open Option Nat
namespace Darwin.Hfs
open Lib.BitWords

namespace ExtendedVCB

section Reads
variable {v v' : ExtendedVCB} {read : ℕ → Bool}

lemma allReads : ∀ k,1≤k → (fun _ : ℕ => true) k=true := fun _ _ => rfl

lemma Cursor.nextWord_all {c c' : Cursor} (h : c.nextWord v read=some c') :
    c.nextWord v (fun _ => true)=some c' := by
  rw [Cursor.nextWord] at h ⊢
  by_cases hblock : c.wordsLeft-1=0
  · by_cases hread : read c.reads=false
    · rw [if_pos hblock,if_pos hread] at h
      cases h
    · rw [if_pos hblock,if_neg hread] at h
      rw [if_pos hblock,if_neg Bool.false_ne_true.symm]
      exact h
  · rw [if_neg hblock] at h ⊢
    exact h

lemma Cursor.next_all {c c' : Cursor} (h : c.next v read=some c') :
    c.next v (fun _ => true)=some c' := by
  rw [Cursor.next] at h ⊢
  dsimp only at h ⊢
  split_ifs at h ⊢ with hword
  · exact nextWord_all h
  · exact h

lemma allocateFree_all {endingBlock b : ℕ} (n : ℕ) (v : ExtendedVCB) (c : Cursor)
    (h : allocateFree read endingBlock n v c=(some b,v')) :
    allocateFree (fun _ => true) endingBlock n v c=(some b,v') := by
  induction n generalizing v c with
  | zero => exact h
  | succ n ih =>
    rw [allocateFree] at h ⊢
    by_cases hfree : c.currentWord&&&c.bitMask=0
    · rw [if_pos hfree] at h ⊢
      dsimp only at h ⊢
      by_cases hend : (c.block+1)%2^32=endingBlock
      · rw [if_pos hend] at h ⊢
        exact h
      · rw [if_neg hend] at h ⊢
        split at h
        · cases h
        · rename_i c' hnext
          rw [Cursor.next_all hnext]
          exact ih _ c' h
    · rw [if_neg hfree] at h ⊢
      exact h

lemma markWords_all {allocate : Bool} (n : ℕ) (v : ExtendedVCB) (s : MarkState) (numBlocks : ℕ)
    (h : markWords allocate read n v s numBlocks=(none,v')) :
    markWords allocate (fun _ => true) n v s numBlocks=(none,v') := by
  have hrefill : ∀ s s' : MarkState,s.refill read=some s' →
      s.refill (fun _ => true)=some s' := by
    intro s s' h
    rw [MarkState.refill] at h ⊢
    by_cases hend : s.wordsLeft=0
    · by_cases hread : read s.reads=false
      · simp only [if_pos hend,if_pos hread] at h
        cases h
      · simp only [if_pos hend,if_neg hread] at h
        simp only [if_pos hend,Bool.true_eq_false,if_false]
        exact h
    · rw [if_neg hend] at h ⊢
      exact h
  induction n generalizing v s numBlocks with
  | zero =>
    rw [markWords] at h ⊢
    split_ifs at h ⊢
    · split at h
      · cases h
      · rename_i s' hs
        rw [hrefill s s' hs]
        exact h
    · exact h
  | succ n ih =>
    rw [markWords] at h ⊢
    split at h
    · cases h
    · rename_i s' hs
      rw [hrefill s s' hs]
      exact ih _ _ _ h

end Reads

section Amount
variable {v v' : ExtendedVCB}

variable {read : ℕ → Bool} {reads : BitmapReads} {startingBlock endingBlock maxBlocks : ℕ}

lemma growLoop_le {maxBlocks num' : ℕ} (n : ℕ) (c : Cursor) (num : ℕ)
    (hle : num < maxBlocks) (h : growLoop v read maxBlocks n c num=some num') : num' ≤ maxBlocks := by
  induction n generalizing c num with
  | zero =>
    obtain rfl := some.inj h
    exact hle.le
  | succ n ih =>
    rw [growLoop] at h
    by_cases hfree : c.currentWord&&&c.bitMask=0
    · rw [if_pos hfree] at h
      by_cases hmax : num+1=maxBlocks
      · rw [if_pos hmax] at h
        exact (some.inj h).ge
      · rw [if_neg hmax] at h
        split at h
        · cases h
        · exact ih _ _ (by omega) h
    · rw [if_neg hfree] at h
      obtain rfl := some.inj h
      exact hle.le

lemma blockFindContiguous_le {startingBlock endingBlock minBlocks maxBlocks : ℕ}
    {start num : ℕ} (h : v.blockFindContiguous read startingBlock endingBlock minBlocks maxBlocks =
      .ok (start,num)) : num ≤ max minBlocks maxBlocks := by
  rw [blockFindContiguous] at h
  by_cases hroom : (2^32+endingBlock-startingBlock)%2^32 < minBlocks
  · rw [if_pos hroom] at h
    cases h
  rw [if_neg hroom] at h
  by_cases hread : read 0=false
  · simp only [if_pos hread] at h
    cases h
  simp only [if_neg hread] at h
  split at h
  · cases h
  rename_i s hloop
  by_cases hfew : s.freeBlocks+s.countedFreeBlocks < minBlocks
  · simp only [if_pos hfew] at h
    cases h
  simp only [if_neg hfew] at h
  by_cases hsector : s.currentSector ≠
      (s.stopBlock-s.countedFreeBlocks+minBlocks)/kBitsPerBlock ∧ read s.reads=false
  · rw [if_pos hsector] at h
    cases h
    exact le_max_left _ _
  rw [if_neg hsector] at h
  by_cases hmax : minBlocks < maxBlocks
  · rw [if_pos hmax] at h
    split at h
    · cases h
    · rename_i num' hgrow
      cases h
      exact (growLoop_le _ _ _ hmax hgrow).trans (le_max_right _ _)
  · rw [if_neg hmax] at h
    cases h
    exact le_max_left _ _

lemma findContiguous_le {startingBlock minBlocks maxBlocks start num : ℕ}
    (h : v.findContiguous reads startingBlock minBlocks maxBlocks=.ok (start,num)) :
    num ≤ max minBlocks maxBlocks := by
  rw [findContiguous] at h
  split at h
  · rename_i found hfound
    cases h
    exact blockFindContiguous_le hfound
  · split_ifs at h
    exact blockFindContiguous_le h

lemma blockMark_all {allocate : Bool} {startingBlock numBlocks : ℕ}
    (h : v.blockMark allocate read startingBlock numBlocks=(none,v')) :
    v.blockMark allocate (fun _ => true) startingBlock numBlocks=(none,v') := by
  rw [blockMark] at h ⊢
  by_cases hread : read 0=false
  · rw [if_pos hread] at h
    cases h
  rw [if_neg hread] at h
  rw [if_neg Bool.false_ne_true.symm]
  dsimp only at h ⊢
  by_cases hfirst : startingBlock%kBitsPerWord≠0
  · rw [if_pos hfirst] at h ⊢
    exact markWords_all _ _ _ _ h
  · rw [if_neg hfirst] at h ⊢
    exact markWords_all _ _ _ _ h

lemma markWords_err {allocate : Bool} {e : OSErr} (n : ℕ) (v : ExtendedVCB)
    (s : MarkState) (numBlocks : ℕ) (h : markWords allocate read n v s numBlocks=(some e,v')) :
    e=.ioErr := by
  induction n generalizing v s numBlocks with
  | zero =>
    rw [markWords] at h
    split_ifs at h
    · split at h
      · exact (some.inj (Prod.mk.inj h).1).symm
      · cases h
    · cases h
  | succ n ih =>
    rw [markWords] at h
    split at h
    · exact (some.inj (Prod.mk.inj h).1).symm
    · exact ih _ _ _ h

lemma blockMark_err {allocate : Bool} {startingBlock numBlocks : ℕ} {e : OSErr}
    (h : v.blockMark allocate read startingBlock numBlocks=(some e,v')) : e=.ioErr := by
  rw [blockMark] at h
  by_cases hread : read 0=false
  · rw [if_pos hread] at h
    exact (some.inj (Prod.mk.inj h).1).symm
  rw [if_neg hread] at h
  dsimp only at h
  by_cases hfirst : startingBlock%kBitsPerWord≠0
  · rw [if_pos hfirst] at h
    exact markWords_err _ _ _ _ h
  · rw [if_neg hfirst] at h
    exact markWords_err _ _ _ _ h

lemma blockAllocateAny_all {search change : ℕ → Bool}
    {found : ℕ × ℕ}
    (h : v.blockAllocateAny search change startingBlock endingBlock maxBlocks=(.ok found,v')) :
    v.blockAllocateAny search (fun _ => true) startingBlock endingBlock maxBlocks =
      (.ok found,v') := by
  rw [blockAllocateAny] at h ⊢
  by_cases hsearch : search 0=false
  · simp only [if_pos hsearch] at h
    cases h
  simp only [if_neg hsearch] at h ⊢
  split at h
  · cases h
  rename_i c hfree
  by_cases hfull : c.block=endingBlock
  · rw [if_pos hfull] at h
    cases h
  rw [if_neg hfull] at h ⊢
  split at h
  · cases h
  rename_i hall
  rw [allocateFree_all _ _ _ hall]
  exact h

lemma blockAllocateAny_unchanged {search change : ℕ → Bool}
    (h : v.blockAllocateAny search change startingBlock endingBlock maxBlocks =
      (.error .dskFulErr,v')) : v'=v := by
  rw [blockAllocateAny] at h
  by_cases hsearch : search 0=false
  · simp only [if_pos hsearch] at h
    cases h
  simp only [if_neg hsearch] at h
  split at h
  · cases h
  rename_i c hfree
  by_cases hfull : c.block=endingBlock
  · rw [if_pos hfull] at h
    exact (Prod.mk.inj h).2.symm
  rw [if_neg hfull] at h
  split at h
  · cases h
  · cases h

lemma blockAllocate_amount {startingBlock : ℕ}
    {bytesRequested bytesMaximum : ℤ} {forceContiguous : Bool} {start num : ℕ}
    (hsize : v.totalBlocks+32≤2^32)
    (hnext : startingBlock=0 → v.nextAllocation≤v.totalBlocks)
    (hle : startingBlock≤v.totalBlocks)
    (hmin : 0<fileBytesToBlocks bytesRequested v.blockSize)
    (hmax : fileBytesToBlocks bytesRequested v.blockSize ≤
      fileBytesToBlocks bytesMaximum v.blockSize)
    (h : v.blockAllocate reads startingBlock bytesRequested bytesMaximum forceContiguous =
      (.ok (start,num),v')) : start+num≤v.totalBlocks ∧ 0<num ∧
      (forceContiguous=true → fileBytesToBlocks bytesRequested v.blockSize≤num) ∧
      num≤fileBytesToBlocks bytesMaximum v.blockSize ∧
      v'.blockSize=v.blockSize ∧ v'.totalBlocks=v.totalBlocks := by
  rw [blockAllocate] at h
  by_cases hnone : v.freeBlocks=0
  · simp only [if_pos hnone] at h
    cases h
  simp only [if_neg hnone] at h
  by_cases hfew : forceContiguous=true ∧ v.freeBlocks<fileBytesToBlocks bytesRequested v.blockSize
  · simp only [if_pos hfew] at h
    cases h
  simp only [if_neg hfew] at h
  obtain ⟨s,hs,hsle⟩ : ∃ s,s=(if startingBlock=0 then v.nextAllocation else startingBlock) ∧
      s≤v.totalBlocks := by
    refine ⟨_,rfl,?_⟩
    split_ifs with hzero
    · exact hnext hzero
    · exact hle
  rw [←hs] at h
  split at h
  · cases h
  rename_i start' num' v1 hgiven
  obtain ⟨hfound,rfl⟩ := Prod.mk.inj h
  obtain ⟨rfl,rfl⟩ := Prod.mk.inj (Except.ok.inj hfound)
  dsimp only
  cases forceContiguous with
  | true =>
    rw [if_pos rfl,blockAllocateContig] at hgiven
    split at hgiven
    · cases hgiven
    rename_i start' num' hfind
    obtain ⟨hnum,hfit,-⟩ := findContiguous_spec hsize hsle hmin hfind
    split at hgiven
    · cases hgiven
    rename_i v2 hmark
    obtain ⟨hfound,rfl⟩ := Prod.mk.inj hgiven
    obtain ⟨rfl,rfl⟩ := Prod.mk.inj (Except.ok.inj hfound)
    obtain ⟨hread,-⟩ | ⟨v3,hok,hm⟩ := blockMark_spec true v allReads
      (show start'+num'+32≤2^32 by omega)
    · cases hread
    obtain rfl := (Prod.mk.inj (hok.symm.trans (blockMark_all hmark))).2
    refine ⟨hfit,by omega,fun _ => hnum,?_,?_,?_⟩
    · exact (findContiguous_le hfind).trans (max_le hmax le_rfl)
    · rw [hm.same]
    · rw [hm.same]
  | false =>
    rw [if_neg Bool.false_ne_true,allocateAny] at hgiven
    have hrun : ∀ {search : ℕ → Bool} {a z : ℕ},a≤z → z≤v.totalBlocks →
        v.blockAllocateAny search reads.change a z (fileBytesToBlocks bytesMaximum v.blockSize) =
          (.ok (start',num'),v1) → start'+num'≤v.totalBlocks ∧ 0<num' ∧
          num'≤fileBytesToBlocks bytesMaximum v.blockSize ∧
          v1.blockSize=v.blockSize ∧ v1.totalBlocks=v.totalBlocks := by
      intro search a z haz hz hany
      have hspec := blockAllocateAny_run_le v search allReads haz (show z<2^32 by omega)
        (hmin.trans_le hmax)
      rw [blockAllocateAny_all hany] at hspec
      obtain ⟨⟨hfit,hnum,-,hm⟩,hle⟩ := hspec
      refine ⟨hfit.trans hz,hnum,hle _ _ rfl,?_,?_⟩
      · rw [hm.same]
      · rw [hm.same]
    have hall : start'+num'≤v.totalBlocks ∧ 0<num' ∧
        num'≤fileBytesToBlocks bytesMaximum v.blockSize ∧
        v1.blockSize=v.blockSize ∧ v1.totalBlocks=v.totalBlocks := by
      split at hgiven
      · rename_i hfirst
        rw [hgiven] at hfirst
        exact hrun hsle le_rfl hfirst
      · rename_i e v2 hfirst
        split_ifs at hgiven with hfull
        · rw [hfull] at hfirst
          rw [blockAllocateAny_unchanged hfirst] at hgiven
          exact hrun (zero_le _) hsle hgiven
        · cases hgiven
    exact ⟨hall.1,hall.2.1,fun h => absurd h Bool.false_ne_true,hall.2.2⟩

lemma blockAllocate_unchanged {startingBlock : ℕ}
    {bytesRequested bytesMaximum : ℤ}
    (h : v.blockAllocate reads startingBlock bytesRequested bytesMaximum true =
      (.error .dskFulErr,v')) : v'=v := by
  rw [blockAllocate] at h
  by_cases hnone : v.freeBlocks=0
  · rw [if_pos hnone] at h
    exact (Prod.mk.inj h).2.symm
  rw [if_neg hnone] at h
  by_cases hfew : true=true ∧ v.freeBlocks<fileBytesToBlocks bytesRequested v.blockSize
  · rw [if_pos hfew] at h
    exact (Prod.mk.inj h).2.symm
  rw [if_neg hfew] at h
  dsimp only at h
  rw [if_pos rfl,blockAllocateContig] at h
  cases hfind : v.findContiguous reads
      (if startingBlock=0 then v.nextAllocation else startingBlock)
      (fileBytesToBlocks bytesRequested v.blockSize)
      (fileBytesToBlocks bytesMaximum v.blockSize) with
  | error e =>
    rw [hfind] at h
    exact (Prod.mk.inj h).2.symm
  | ok found =>
    obtain ⟨start,num⟩ := found
    rw [hfind] at h
    dsimp only at h
    rcases hmark : v.blockMarkAllocated reads.change start num with ⟨- | e,v1⟩
    · rw [hmark] at h
      cases h
    · rw [hmark] at h
      have := blockMark_err hmark
      subst this
      cases h

end Amount

section Rounding
variable {m n d k : ℕ}

lemma fileBytesToBlocks_cases (h : n/d+1<2^32) : fileBytesToBlocks n d=n/d ∧ n=n/d*d ∧ n<2^32 ∨
      fileBytesToBlocks n d=n/d+1 ∧ (n=n/d*d → 2^32≤n) := by
  have hquotient : (((n/d : ℕ) : ℤ)%2^32).toNat=n/d := by
    generalize n/d=q at *
    omega
  rw [fileBytesToBlocks,←Int.ofNat_tdiv,hquotient]
  have hle := div_mul_le_self n d
  generalize hp : n/d*d=p at *
  split_ifs with hrest
  · rw [mod_eq_of_lt h]
    exact .inr ⟨rfl,fun heq => by omega⟩
  · exact .inl ⟨rfl,by omega,by omega⟩

variable (h : n/d+1<2^32)
include h

lemma fileBytesToBlocks_le : fileBytesToBlocks n d≤n/d+1 := by
  rcases fileBytesToBlocks_cases h with ⟨hb,-⟩ | ⟨hb,-⟩ <;> omega

lemma fileBytesToBlocks_mono (hm : m≤n) : fileBytesToBlocks m d≤fileBytesToBlocks n d := by
  have hdiv := Nat.div_le_div_right (c := d) hm
  have hle := Nat.div_mul_le_self m d
  rcases fileBytesToBlocks_cases (n := m) (d := d) (by omega) with ⟨hbm,-⟩ | ⟨hbm,hlarge⟩
  · rcases fileBytesToBlocks_cases h with ⟨hb,-⟩ | ⟨hb,-⟩ <;> omega
  · rcases fileBytesToBlocks_cases h with ⟨hb,heq,hsmall⟩ | ⟨hb,-⟩
    · -- a shorter length with the same quotient would be the same
      rcases eq_or_lt_of_le hdiv with hsame | hlt
      · rw [hsame] at hle hlarge
        have := hlarge (by omega)
        omega
      · omega
    · omega

variable (hd : 0<d)
include hd

lemma le_fileBytesToBlocks : n≤fileBytesToBlocks n d*d := by
  rcases fileBytesToBlocks_cases h with ⟨hb,heq,-⟩ | ⟨hb,-⟩
  · rw [hb]
    exact heq.le
  · rw [hb]
    exact (lt_div_mul_add hd).le.trans (succ_mul _ _).ge

lemma fileBytesToBlocks_pos (hn : 0<n) : 0<fileBytesToBlocks n d := by
  refine pos_of_ne_zero fun hzero => ?_
  have := le_fileBytesToBlocks h hd
  rw [hzero] at this
  omega

lemma fileBytesToBlocks_sub (hk : k*d≤n) :
    fileBytesToBlocks ((n-k*d : ℕ) : ℤ) d+k≤fileBytesToBlocks n d := by
  have hkd : k≤n/d := (le_div_iff_mul_le hd).mpr hk
  have hquot : (n-k*d)/d=n/d-k := by rw [mul_comm,sub_mul_div]
  have hle := fileBytesToBlocks_le (n := n-k*d) (d := d) (by omega)
  rcases fileBytesToBlocks_cases h with ⟨hb,heq,hsmall⟩ | ⟨hb,-⟩
  · rcases fileBytesToBlocks_cases (n := n-k*d) (d := d) (by omega) with ⟨hb',-⟩ | ⟨-,hlarge⟩
    · omega
    · have := hlarge (by rw [hquot,Nat.sub_mul,←heq])
      omega
  · omega

end Rounding
end ExtendedVCB
end Darwin.Hfs
