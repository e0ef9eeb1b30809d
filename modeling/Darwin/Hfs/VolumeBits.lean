import Darwin.Hfs.VolumeAllocation
import Darwin.Lib.BitWords

/-! The bits of the volume bitmap under a forward walk, and the run that `BlockAllocateAny`
takes. -/
open Nat BitVec
namespace Darwin.Hfs
open Lib.BitWords
namespace ExtendedVCB

def bit (v : ExtendedVCB) (i : ℕ) : Bool := bitOf v.bitmap i

lemma bit_store (v : ExtendedVCB) (word : ℕ) (x : BitVec 32) (i : ℕ) :
    (v.store word x).bit i=if i/32=word then x.getMsbD (i%32) else v.bit i :=
  bitOf_update v.bitmap word x i

lemma store_bitmap (v : ExtendedVCB) (word : ℕ) : v.store word (v.bitmap word)=v := by
  rw [store,Function.update_eq_self]

lemma highBit_ushiftRight {b : ℕ} (hb : b<32) : kHighBitInWordMask>>>b=oneBit 32 b :=
  oneBit_zero_ushiftRight hb

/-- `v'` has the bits `f` and is otherwise `v`. -/
structure Marked (v v' : ExtendedVCB) (f : ℕ → Bool) : Prop where
  same : v'={v with bitmap := v'.bitmap}
  bits : ∀ i,v'.bit i=f i

lemma Marked.restore {v0 v : ExtendedVCB} {word : ℕ} {x : BitVec 32} {f g : ℕ → Bool}
    (h : Marked v0 (v.store word x) f) (y : BitVec 32)
    (hg : ∀ i,(v.store word y).bit i=g i) : Marked v0 (v.store word y) g where
  same := by
    have hsame : v.store word y={v.store word x with bitmap := (v.store word y).bitmap} := rfl
    rw [h.same] at hsame
    exact hsame
  bits := hg

/-- The registers agree with the block number. -/
structure Cursor.At (c : Cursor) : Prop where
  small : c.block<2^32
  word : c.word=c.block/32
  bitMask : c.bitMask=oneBit 32 (c.block%32)
  wordsLeft : c.wordsLeft=128-c.block%4096/32

lemma cursorAt_at (v : ExtendedVCB) {block : ℕ} (hb : block<2^32) (reads : ℕ) :
    (v.cursorAt block reads).At := by
  refine ⟨hb,?_,highBit_ushiftRight (mod_lt block (by decide)),rfl⟩
  simp only [cursorAt,readBitmapBlock,kBitsPerBlock,kWordsPerBlock,kBitsPerWord]
  omega

lemma cursorAt_currentWord (v : ExtendedVCB) (block reads : ℕ) :
    (v.cursorAt block reads).currentWord=v.bitmap (block/32) := by
  simp only [cursorAt,readBitmapBlock,kBitsPerBlock,kWordsPerBlock,kBitsPerWord]
  congr 1
  omega

variable {c : Cursor}

lemma Cursor.At.free_iff (hc : c.At) :
    c.currentWord&&&c.bitMask=0 ↔ c.currentWord.getMsbD (c.block%32)=false := by
  rw [hc.bitMask]
  exact and_oneBit_eq_zero (mod_lt _ (by decide)) _

lemma Cursor.At.ushiftRight_eq_zero (hc : c.At) : c.bitMask>>>1=0 ↔ (c.block+1)%32=0 := by
  rw [hc.bitMask]
  by_cases hlast : c.block%32=31
  · have : oneBit 32 31>>>1=0 := oneBit_last_ushiftRight
    rw [hlast]
    exact ⟨fun _ => by omega,fun _ => this⟩
  · rw [oneBit_ushiftRight (by omega)]
    exact ⟨fun h => absurd h (oneBit_ne_zero (by omega)),fun h => by omega⟩

def Cursor.moved (v : ExtendedVCB) (c : Cursor) : Cursor where
  block := c.block+1
  word := (c.block+1)/32
  currentWord := if (c.block+1)%32=0 then v.bitmap ((c.block+1)/32) else c.currentWord
  bitMask := oneBit 32 ((c.block+1)%32)
  wordsLeft := 128-(c.block+1)%4096/32
  reads := if (c.block+1)%4096=0 then c.reads+1 else c.reads

lemma Cursor.moved_at (hb : c.block+1<2^32) (v : ExtendedVCB) : (c.moved v).At :=
  ⟨hb,rfl,rfl,rfl⟩

lemma Cursor.moved_currentWord {v : ExtendedVCB}
    (hword : c.currentWord=v.bitmap (c.block/32)) :
    (c.moved v).currentWord=v.bitmap ((c.moved v).block/32) := by
  rw [Cursor.moved]
  dsimp only
  split_ifs with h32
  · rfl
  · rw [hword,show (c.block+1)/32=c.block/32 by omega]

lemma Cursor.At.next_eq (hc : c.At) (hb : c.block+1<2^32) (v : ExtendedVCB)
    (read : ℕ → Bool) : c.next v read =
      if (c.block+1)%4096=0 ∧ read c.reads=false then none else some (c.moved v) := by
  have hword := hc.word
  have hleft := hc.wordsLeft
  rw [Cursor.next]
  simp only [hc.ushiftRight_eq_zero,mod_eq_of_lt hb]
  by_cases hwrap : (c.block+1)%32=0
  · rw [if_pos hwrap,Cursor.nextWord]
    simp only [readBitmapBlock,kBitsPerBlock,kWordsPerBlock]
    have hmask : kHighBitInWordMask=oneBit 32 ((c.block+1)%32) := by
      rw [hwrap]
      rfl
    by_cases hblock : (c.block+1)%4096=0
    · have hstart : (c.block+1)/4096*128=(c.block+1)/32 := by omega
      rw [if_pos (show c.wordsLeft-1=0 by omega)]
      by_cases hread : read c.reads=false
      · rw [if_pos hread,if_pos ⟨hblock,hread⟩]
      · rw [if_neg hread,if_neg (fun h => hread h.2),moved,if_pos hwrap,if_pos hblock,hstart,hmask,
          hblock]
    · have hnext : c.word+1=(c.block+1)/32 := by omega
      rw [if_neg (show c.wordsLeft-1≠0 by omega),if_neg (fun h => hblock h.1),moved,if_pos hwrap,
        if_neg hblock,hnext,hmask]
      congr 2
      omega
  · have hblock : ¬(c.block+1)%4096=0 := fun h => hwrap (by omega)
    rw [if_neg hwrap,if_neg (fun h => hblock h.1),moved,if_neg hwrap,if_neg hblock,hc.bitMask,
      oneBit_ushiftRight (by omega)]
    congr 2
    · omega
    · congr 1
      omega
    · omega

lemma Cursor.At.next_spec (hc : c.At) (hb : c.block+1<2^32) (v : ExtendedVCB)
    (read : ℕ → Bool) : (c.next v read=none ∧ read c.reads=false) ∨
    ∃ c',c.next v read=some c' ∧ c'.At ∧ c'.block=c.block+1 ∧ c.reads≤c'.reads ∧ c'.currentWord =
        if (c.block+1)%32=0 then v.bitmap ((c.block+1)/32) else c.currentWord := by
  rw [hc.next_eq hb]
  by_cases hfail : (c.block+1)%4096=0 ∧ read c.reads=false
  · exact .inl ⟨if_pos hfail,hfail.2⟩
  · refine .inr ⟨_,if_neg hfail,Cursor.moved_at hb v,rfl,?_,rfl⟩
    rw [Cursor.moved]
    dsimp only
    split_ifs <;> omega

lemma findFree_spec {v : ExtendedVCB} (read : ℕ → Bool) (n : ℕ) (c : Cursor) (hc : c.At)
    (hword : c.currentWord=v.bitmap (c.block/32)) (hn : c.block+n<2^32) : findFree v read n c=none ∨
    ∃ c',findFree v read n c=some c' ∧ c'.At ∧ c'.currentWord=v.bitmap (c'.block/32) ∧
      c.block≤c'.block ∧ c'.block≤c.block+n ∧ (c'.block<c.block+n → v.bit c'.block=false) := by
  induction n generalizing c with
  | zero => exact Or.inr ⟨c,rfl,hc,hword,le_rfl,le_rfl,fun h => absurd h (by omega)⟩
  | succ n ih =>
    rw [findFree]
    by_cases hfree : c.currentWord&&&c.bitMask=0
    · rw [if_pos hfree]
      refine Or.inr ⟨c,rfl,hc,hword,le_rfl,by omega,fun _ => ?_⟩
      rw [hc.free_iff,hword] at hfree
      exact hfree
    · rw [if_neg hfree]
      obtain ⟨hnone,_⟩ | ⟨c1,hsome,hc1,hb1,_,hw1⟩ := hc.next_spec (by omega) v read
      · rw [hnone]
        exact Or.inl rfl
      · rw [hsome]
        have hword1 : c1.currentWord=v.bitmap (c1.block/32) := by
          rw [hw1,hb1]
          split_ifs with h32
          · rfl
          · rw [hword,show (c.block+1)/32=c.block/32 by omega]
        obtain hnone | ⟨c2,hsome2,hc2,hw2,hle,hle',hfree2⟩ := ih c1 hc1 hword1 (by omega)
        · exact Or.inl hnone
        · exact Or.inr ⟨c2,hsome2,hc2,hw2,by omega,by omega,fun h => hfree2 (by omega)⟩

/-- The volume so far, once the current word is stored: the blocks from `s` up to the
cursor have been taken. -/
def Cursor.Takes (v0 v : ExtendedVCB) (s : ℕ) (c : Cursor) : Prop :=
  Marked v0 (v.store c.word c.currentWord) fun i => v0.bit i || decide (s ≤ i ∧ i<c.block)

section Takes
variable {v0 v : ExtendedVCB} {s : ℕ} {c : Cursor}

lemma Cursor.Takes.free_iff (h : c.Takes v0 v s) (hc : c.At) :
    c.currentWord&&&c.bitMask=0 ↔ v0.bit c.block=false := by
  have hbit := h.bits c.block
  rw [bit_store,if_pos hc.word.symm,decide_eq_false (by omega),Bool.or_false] at hbit
  rw [hc.free_iff,hbit]

lemma Cursor.Takes.set (h : c.Takes v0 v s) (hc : c.At) (hs : s≤c.block) :
    Marked v0 (v.store c.word (c.currentWord|||c.bitMask))
      fun i => v0.bit i || decide (s ≤ i ∧ i<c.block+1) := by
  refine h.restore _ fun i => ?_
  have hbit := h.bits i
  rw [bit_store] at hbit ⊢
  have hwordc := hc.word
  by_cases hi : i/32=c.word
  · rw [if_pos hi] at hbit ⊢
    rw [getMsbD_or,hbit,hc.bitMask,getMsbD_oneBit (mod_lt _ (by decide)),Bool.or_assoc]
    congr 1
    rw [←Bool.decide_or,decide_eq_decide]
    omega
  · rw [if_neg hi] at hbit ⊢
    rw [hbit]
    congr 1
    rw [decide_eq_decide]
    constructor
    · omega
    · rintro ⟨h1,h2⟩
      refine ⟨h1,lt_of_le_of_ne (by omega) ?_⟩
      rintro rfl
      exact hi hwordc.symm

lemma Cursor.Takes.moved (h : c.Takes v0 v s) (hc : c.At) (hs : s≤c.block) :
    let v' := if c.bitMask>>>1=0 then v.store c.word (c.currentWord|||c.bitMask) else v
    (Cursor.moved v' {c with currentWord := c.currentWord|||c.bitMask}).Takes v0 v' s := by
  have hset := h.set hc hs
  have hwordc := hc.word
  simp only [hc.ushiftRight_eq_zero]
  rw [Takes,Cursor.moved]
  dsimp only
  by_cases h32 : (c.block+1)%32=0
  · rw [if_pos h32,if_pos h32,store_bitmap]
    exact hset
  · rw [if_neg h32,if_neg h32,show (c.block+1)/32=c.word by omega]
    exact hset

end Takes

lemma allocateFree_spec {v0 : ExtendedVCB} {read : ℕ → Bool} (hread : ∀ k,1≤k → read k=true)
    {s endingBlock : ℕ} (hend : endingBlock<2^32) (n : ℕ) (v : ExtendedVCB) (c : Cursor)
    (hc : c.At) (hreads : 1≤c.reads) (hs : s≤c.block) (hlt : c.block<endingBlock)
    (hn : endingBlock≤c.block+n) (hv : c.Takes v0 v s) :
    ∃ b v',allocateFree read endingBlock n v c=(some b,v') ∧ c.block≤b ∧ b≤endingBlock ∧
      (∀ i,c.block ≤ i → i<b → v0.bit i=false) ∧ (v0.bit c.block=false → c.block<b) ∧
      Marked v0 v' fun i => v0.bit i || decide (s ≤ i ∧ i<b) := by
  induction n generalizing v c with
  | zero => omega
  | succ n ih =>
    rw [allocateFree]
    by_cases hfree : c.currentWord&&&c.bitMask=0
    · rw [if_pos hfree]
      rw [hv.free_iff hc] at hfree
      by_cases hlast : (c.block+1)%2^32=endingBlock
      · have hb : endingBlock=c.block+1 := by omega
        refine ⟨endingBlock,v.store c.word (c.currentWord|||c.bitMask),?_,by omega,le_rfl,?_,
          fun _ => hlt,?_⟩
        · simp only [if_pos hlast]
        · intro i h1 h2
          rwa [show i=c.block by omega]
        · rw [hb]
          exact hv.set hc hs
      · simp only [if_neg hlast]
        have hc1 : ({c with currentWord := c.currentWord|||c.bitMask} : Cursor).At :=
          ⟨hc.small,hc.word,hc.bitMask,hc.wordsLeft⟩
        have hmoved := hv.moved hc hs
        obtain ⟨v1,hv1⟩ : ∃ v1,v1 =
          if c.bitMask>>>1=0 then v.store c.word (c.currentWord|||c.bitMask) else v := ⟨_,rfl⟩
        rw [←hv1] at hmoved ⊢
        rw [hc1.next_eq (by simp only; omega),if_neg (by simp only [hread c.reads hreads]; simp)]
        have hreads1 : 1≤(Cursor.moved v1 {c with currentWord := c.currentWord|||c.bitMask}).reads := by
          simp only [Cursor.moved]
          split_ifs <;> omega
        obtain ⟨b,v',hres,hle,hbe,hfree',_,hm⟩ := ih v1 _ (Cursor.moved_at (by simp only; omega) v1)
          hreads1 (show s≤c.block+1 by omega) (show c.block+1<endingBlock by omega)
          (show endingBlock≤c.block+1+n by omega) hmoved
        simp only [Cursor.moved] at hle hfree'
        refine ⟨b,v',hres,by omega,hbe,fun i h1 h2 => ?_,fun _ => by omega,hm⟩
        rcases eq_or_lt_of_le h1 with rfl | hgt
        · exact hfree
        · exact hfree' i (by omega) h2
    · rw [if_neg hfree]
      rw [hv.free_iff hc,Bool.not_eq_false] at hfree
      exact ⟨c.block,_,rfl,le_rfl,hlt.le,fun i h1 h2 => absurd h1 (by omega),
        fun h => absurd (h.symm.trans hfree) (by decide),hv⟩

/-- What a call does that allocates: on success it sets exactly one run of bits that were
clear and reports it; on an error it leaves the volume as it was. -/
def AllocatesRun (v : ExtendedVCB) (limit : ℕ) : Except OSErr (ℕ × ℕ) × ExtendedVCB → Prop
  | (.error _,v') => v'=v
  | (.ok (start,num),v') => start+num≤limit ∧ 0<num ∧
      (∀ i,start ≤ i → i<start+num → v.bit i=false) ∧
      Marked v v' fun i => v.bit i || decide (start ≤ i ∧ i<start+num)

variable {startingBlock endingBlock maxBlocks : ℕ}

lemma blockAllocateAny_run_le (v : ExtendedVCB) (search : ℕ → Bool) {change : ℕ → Bool}
    (hchange : ∀ k,1≤k → change k=true)
    (hle : startingBlock≤endingBlock) (hend : endingBlock<2^32) (hmax : 0 < maxBlocks) :
    AllocatesRun v endingBlock
        (v.blockAllocateAny search change startingBlock endingBlock maxBlocks) ∧
      ∀ start num,(v.blockAllocateAny search change startingBlock endingBlock maxBlocks).1 =
        .ok (start,num) → num ≤ maxBlocks := by
  have hnone : ∀ {e : OSErr},AllocatesRun v endingBlock (.error e,v) ∧
      ∀ start num,(.error e : Except OSErr (ℕ × ℕ))=.ok (start,num) → num ≤ maxBlocks :=
    ⟨rfl,fun _ _ h => by cases h⟩
  rw [blockAllocateAny]
  by_cases hsearch : search 0=false
  · simp only [if_pos hsearch]
    exact hnone
  simp only [if_neg hsearch]
  obtain hfail | ⟨c,hsome,hc,hword,hge,hcle,hfree⟩ := findFree_spec search
    (endingBlock-startingBlock) _ (cursorAt_at v (show startingBlock<2^32 by omega) 1)
    (cursorAt_currentWord v _ _) (show startingBlock+(endingBlock-startingBlock)<2^32 by omega)
  · rw [hfail]
    exact hnone
  rw [hsome]
  change startingBlock≤c.block at hge
  change c.block ≤ startingBlock+(endingBlock-startingBlock) at hcle
  change c.block<startingBlock+(endingBlock-startingBlock) → _ at hfree
  by_cases hfull : c.block=endingBlock
  · simp only [if_pos hfull]
    exact hnone
  simp only [if_neg hfull]
  have hclear : v.bit c.block=false := hfree (by omega)
  obtain ⟨e,he,hce,hee,hem⟩ : ∃ e,
      e=(if c.block<(2^32+endingBlock -
          (if (2^32+endingBlock-startingBlock)%2^32 < maxBlocks then
            (2^32+endingBlock-startingBlock)%2^32 else maxBlocks))%2^32 then
        (c.block+(if (2^32+endingBlock-startingBlock)%2^32 < maxBlocks then
          (2^32+endingBlock-startingBlock)%2^32 else maxBlocks))%2^32
      else endingBlock) ∧ c.block<e ∧ e≤endingBlock ∧ e≤c.block+maxBlocks := by
    refine ⟨_,rfl,?_⟩
    split_ifs <;> omega
  rw [←he]
  have hc1 : ({c with reads := 1} : Cursor).At := ⟨hc.small,hc.word,hc.bitMask,hc.wordsLeft⟩
  have hstart : Marked v (v.store c.word c.currentWord)
      fun i => v.bit i || decide (c.block ≤ i ∧ i<c.block) := by
    rw [hword,hc.word,store_bitmap]
    exact ⟨rfl,fun i => by rw [decide_eq_false (by omega),Bool.or_false]⟩
  obtain ⟨b,v',hres,hcb,hbe,hrun,hpos,hm⟩ := allocateFree_spec hchange (show e<2^32 by omega)
    (2^32+e-c.block) v {c with reads := 1} hc1 le_rfl le_rfl hce (by simp only; omega) hstart
  rw [hres]
  have hnum : (2^32+b-c.block)%2^32=b-c.block := by
    simp only at hcb
    omega
  have hlt := hpos hclear
  simp only at hlt
  simp only [AllocatesRun,hnum,Nat.add_sub_cancel' hlt.le]
  refine ⟨⟨by omega,by omega,hrun,hm⟩,fun start num h => ?_⟩
  obtain ⟨-,rfl⟩ := Prod.mk.inj (Except.ok.inj h)
  omega

lemma blockAllocateAny_spec (v : ExtendedVCB) (search : ℕ → Bool) {change : ℕ → Bool}
    (hchange : ∀ k,1≤k → change k=true)
    (hle : startingBlock≤endingBlock) (hend : endingBlock<2^32) (hmax : 0 < maxBlocks) :
    AllocatesRun v endingBlock
      (v.blockAllocateAny search change startingBlock endingBlock maxBlocks) :=
  (blockAllocateAny_run_le v search hchange hle hend hmax).1

end ExtendedVCB
end Darwin.Hfs

/-! `BlockMarkAllocated` and `BlockMarkFree`: a partial word, whole words, a partial word. -/
namespace Darwin.Hfs
open Lib.BitWords
namespace ExtendedVCB

lemma Marked.store {v0 v : ExtendedVCB} {f g : ℕ → Bool} (h : Marked v0 v f) (word : ℕ)
    (x : BitVec 32) (hg : ∀ i,(if i/32=word then x.getMsbD (i%32) else f i)=g i) :
    Marked v0 (v.store word x) g where
  same := by
    have hsame : ∀ b : ℕ → BitVec 32,({v with bitmap := b} : ExtendedVCB) =
        {v0 with bitmap := b} := by
      intro b
      rw [h.same]
    exact hsame _
  bits i := by rw [bit_store,h.bits,hg]

def withRun (allocate : Bool) (f : ℕ → Bool) (p n i : ℕ) : Bool :=
  if p ≤ i ∧ i<p+n then allocate else f i

lemma withRun_zero (allocate : Bool) (f : ℕ → Bool) (p : ℕ) : withRun allocate f p 0=f := by
  funext i
  rw [withRun,if_neg (by omega)]

lemma withRun_append (allocate : Bool) (f : ℕ → Bool) (p m n : ℕ) :
    withRun allocate (withRun allocate f p m) (p+m) n=withRun allocate f p (m+n) := by
  funext i
  simp only [withRun]
  split_ifs <;> first | rfl | omega

lemma getMsbD_markBits (allocate : Bool) (x m : BitVec 32) {b : ℕ} (hb : b<32) :
    (markBits allocate x m).getMsbD b=if m.getMsbD b=true then allocate else x.getMsbD b := by
  cases allocate <;> cases hm : m.getMsbD b <;> simp [markBits,hm,hb]

lemma getMsbD_ushiftRight_all (k : ℕ) {b : ℕ} (hb : b<32) :
    (kAllBitsSetInWord>>>k).getMsbD b=decide (k≤b) := by
  rw [show kAllBitsSetInWord=allOnes 32 from rfl,getMsbD_ushiftRight,getMsbD_allOnes]
  by_cases hk : b<k
  · simp [hk,hb]
  · simp [hk,hb,show b-k<32 by omega,not_lt.mp hk]

lemma getMsbD_not_ushiftRight_all (k : ℕ) {b : ℕ} (hb : b<32) :
    (~~~(kAllBitsSetInWord>>>k)).getMsbD b=decide (b<k) := by
  rw [getMsbD_not,getMsbD_ushiftRight_all k hb,decide_eq_true hb,Bool.true_and]
  by_cases hk : b<k
  · simp [hk,not_le.mpr hk]
  · simp [hk,not_lt.mp hk]

lemma Marked.storeMask (allocate : Bool) {v0 v : ExtendedVCB} {f : ℕ → Bool} (h : Marked v0 v f)
    {p m : ℕ} (bitMask : BitVec 32) (hm : p%32+m≤32)
    (hmask : ∀ b<32,bitMask.getMsbD b=decide (p%32≤b ∧ b<p%32+m)) :
    Marked v0 (v.store (p/32) (markBits allocate (v.bitmap (p/32)) bitMask))
      (withRun allocate f p m) := by
  refine h.store _ _ fun i => ?_
  by_cases hi : i/32=p/32
  · have hib : i%32<32 := mod_lt _ (by decide)
    have hold : (v.bitmap (p/32)).getMsbD (i%32)=f i := by
      rw [←hi]
      exact h.bits i
    rw [if_pos hi,getMsbD_markBits _ _ _ hib,hmask _ hib,hold,withRun]
    simp only [decide_eq_true_eq]
    congr 1
    rw [eq_iff_iff]
    omega
  · rw [if_neg hi,withRun,if_neg (by omega)]

/-- The state of a marking loop that has come to block `p`, the first of a word. -/
structure MarkState.At (s : MarkState) (p : ℕ) : Prop where
  aligned : p%32=0
  word : s.word=p/32
  wordsLeft : p+32*s.wordsLeft=(s.startingBlock/4096+1)*4096

variable {read : ℕ → Bool}

lemma MarkState.At.refill_spec {s : MarkState} {p : ℕ} (hs : s.At p) (hp : p<2^32)
    (hread : ∀ k,1≤k → read k=true) (hreads : 1 ≤ s.reads) :
    ∃ s',s.refill read=some s' ∧ s'.At p ∧ 0<s'.wordsLeft ∧ 1 ≤ s'.reads := by
  have hleft := hs.wordsLeft
  rw [refill]
  by_cases hempty : s.wordsLeft=0
  · rw [if_pos hempty]
    simp only [hread s.reads hreads,Bool.true_eq_false,if_false]
    rw [hempty] at hleft
    have hnext : (s.startingBlock+kBitsPerBlock)%2^32=s.startingBlock+4096 := by
      rw [kBitsPerBlock]
      omega
    rw [hnext]
    refine ⟨_,rfl,⟨hs.aligned,?_,?_⟩,zero_lt_succ 127,le_add_left _ _⟩
    · simp only [readBitmapBlock,kBitsPerBlock,kWordsPerBlock]
      omega
    · simp only [kWordsPerBlock]
      omega
  · rw [if_neg hempty]
    exact ⟨s,rfl,hs,pos_of_ne_zero hempty,hreads⟩

lemma markWords_spec {allocate : Bool} {v0 : ExtendedVCB}
    (hread : ∀ k,1≤k → read k=true) (n : ℕ) {f : ℕ → Bool} (v : ExtendedVCB) (s : MarkState)
    (p numBlocks : ℕ) (hs : s.At p) (hreads : 1 ≤ s.reads) (hn : numBlocks/32=n)
    (hp : p+numBlocks<2^32) (hv : Marked v0 v f) :
    ∃ v',markWords allocate read n v s numBlocks=(none,v') ∧
      Marked v0 v' (withRun allocate f p numBlocks) := by
  induction n generalizing v s p numBlocks f with
  | zero =>
    rw [markWords]
    by_cases hnone : numBlocks=0
    · rw [if_neg (not_not.mpr hnone),hnone,withRun_zero]
      exact ⟨v,rfl,hv⟩
    · rw [if_pos hnone]
      obtain ⟨s',hrefill,hs',_,_⟩ := hs.refill_spec (by omega) hread hreads
      rw [hrefill]
      have halign := hs'.aligned
      refine ⟨_,rfl,?_⟩
      rw [hs'.word]
      refine hv.storeMask _ _ (by omega) fun b hb => ?_
      rw [getMsbD_not_ushiftRight_all _ hb,decide_eq_decide]
      omega
  | succ n ih =>
    rw [markWords]
    obtain ⟨s',hrefill,hs',hpos,hreads'⟩ := hs.refill_spec (by omega) hread hreads
    rw [hrefill]
    have halign := hs'.aligned
    have hleft := hs'.wordsLeft
    have hword : Marked v0 (v.store s'.word (if allocate then kAllBitsSetInWord else 0))
        (withRun allocate f p 32) := by
      refine hv.store _ _ fun i => ?_
      rw [hs'.word,withRun]
      by_cases hi : i/32=p/32
      · rw [if_pos hi,if_pos (show p ≤ i ∧ i<p+32 by omega)]
        have hib : i%32<32 := mod_lt _ (by decide)
        cases allocate with
        | false => exact getMsbD_zero
        | true =>
          rw [if_pos rfl,←ushiftRight_zero kAllBitsSetInWord,getMsbD_ushiftRight_all 0 hib]
          exact decide_eq_true (zero_le _)
      · rw [if_neg hi,if_neg (by omega)]
    obtain ⟨v',hres,hm⟩ := ih (v.store s'.word (if allocate then kAllBitsSetInWord else 0))
      {s' with word := s'.word+1,wordsLeft := s'.wordsLeft-1} (p+32)
      (numBlocks-kBitsPerWord)
      ⟨by omega,by simp only [hs'.word]; omega,by simp only; omega⟩ hreads'
      (by rw [kBitsPerWord]; omega) (by rw [kBitsPerWord]; omega) hword
    refine ⟨v',hres,?_⟩
    rw [withRun_append] at hm
    rwa [show 32+(numBlocks-kBitsPerWord)=numBlocks by rw [kBitsPerWord]; omega] at hm

/-- If only the first read may fail, a marking call changes exactly the bits of its range,
or nothing. -/
theorem blockMark_spec (allocate : Bool) (v : ExtendedVCB)
    (hread : ∀ k,1≤k → read k=true) {startingBlock numBlocks : ℕ}
    (hend : startingBlock+numBlocks+32≤2^32) :
    (read 0=false ∧ v.blockMark allocate read startingBlock numBlocks=(some .ioErr,v)) ∨
    ∃ v',v.blockMark allocate read startingBlock numBlocks=(none,v') ∧
      Marked v v' (withRun allocate v.bit startingBlock numBlocks) := by
  rw [blockMark]
  by_cases h0 : read 0=false
  · exact Or.inl ⟨h0,by rw [if_pos h0]⟩
  rw [if_neg h0]
  refine Or.inr ?_
  have hv : Marked v v v.bit := ⟨rfl,fun _ => rfl⟩
  have hword : startingBlock/4096*128+startingBlock%4096/32=startingBlock/32 := by omega
  by_cases hfirst : startingBlock%kBitsPerWord≠0
  · simp only [if_pos hfirst]
    by_cases hshort : numBlocks<kBitsPerWord-startingBlock%kBitsPerWord
    · simp only [if_pos hshort]
      simp only [readBitmapBlock,kBitsPerBlock,kWordsPerBlock,kBitsPerWord,hword]
        at hfirst hshort ⊢
      rw [Nat.sub_self,Nat.zero_div,markWords,if_neg (by omega)]
      refine ⟨_,rfl,hv.storeMask _ _ (by omega) fun b hb => ?_⟩
      rw [getMsbD_and,getMsbD_ushiftRight_all _ hb,getMsbD_not_ushiftRight_all _ hb,Bool.decide_and]
    · simp only [if_neg hshort]
      simp only [readBitmapBlock,kBitsPerBlock,kWordsPerBlock,kBitsPerWord,hword]
        at hfirst hshort ⊢
      have hpart := hv.storeMask allocate (p := startingBlock) (m := 32-startingBlock%32)
        (kAllBitsSetInWord>>>(startingBlock%32)) (by omega) fun b hb => by
          rw [getMsbD_ushiftRight_all _ hb,decide_eq_decide]
          omega
      obtain ⟨v',hres,hmarked⟩ := markWords_spec hread _ _
        ⟨startingBlock,startingBlock/32+1,128-startingBlock%4096/32-1,1⟩
        (startingBlock+(32-startingBlock%32)) (numBlocks-(32-startingBlock%32))
        ⟨by omega,by simp only; omega,by simp only; omega⟩ le_rfl rfl (by omega) hpart
      refine ⟨v',hres,?_⟩
      rw [withRun_append] at hmarked
      rwa [show 32-startingBlock%32+(numBlocks-(32-startingBlock%32))=numBlocks by
        omega] at hmarked
  · simp only [if_neg hfirst]
    simp only [readBitmapBlock,kBitsPerBlock,kWordsPerBlock,kBitsPerWord,hword] at hfirst ⊢
    exact markWords_spec hread (numBlocks/32) v _ startingBlock numBlocks
      ⟨by omega,rfl,by simp only; omega⟩ le_rfl rfl (by omega) hv

end ExtendedVCB
end Darwin.Hfs
