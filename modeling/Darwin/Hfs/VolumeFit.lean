import Darwin.Hfs.VolumeFind

/-! Whether `BlockFindContiguous` finds a free run where there is one, when the bitmap
blocks of the volume can be read and those behind it perhaps not. -/
open Nat BitVec
namespace Darwin.Hfs
open Lib.BitWords
namespace ExtendedVCB

def nextWordOn (v : ExtendedVCB) (readable : ℕ → Bool) (minBlocks : ℕ) : ℕ → FindState → FindStep
  | 0,s => .more s
  | n+1,s =>
    match s.previousWord v fun _ => readable (s.currentBlock/kBitsPerBlock) with
    | none => .failed
    | some s =>
      if s.tempWord=0 then
        let s : FindState := { s with
          freeBlocks := s.freeBlocks+kBitsPerWord
          currentBlock := (2^32+s.currentBlock-kBitsPerWord)%2^32}
        if minBlocks ≤ s.freeBlocks+s.countedFreeBlocks then .enough s
        else nextWordOn v readable minBlocks n s
      else .more s

def findLoopOn (v : ExtendedVCB) (readable : ℕ → Bool) (endingBlock minBlocks : ℕ) :
    ℕ → FindState → Option FindState
  | 0,s => some s
  | n+1,s =>
    if s.stopBlock ≤ s.currentBlock then
      if s.tempWord&&&s.bitMask=0 then
        let s : FindState := { s with
          freeBlocks := s.freeBlocks+1
          currentBlock := (2^32+s.currentBlock-1)%2^32
          bitMask := s.bitMask<<<1}
        if s.bitMask=0 then
          match nextWordOn v readable minBlocks (2^32) {s with bitMask := kLowBitInWordMask} with
          | .failed => none
          | .enough s => some s
          | .more s => findLoopOn v readable endingBlock minBlocks n s
        else findLoopOn v readable endingBlock minBlocks n s
      else if minBlocks ≤ s.freeBlocks+s.countedFreeBlocks then some s
      else
        let s : FindState := { s with
          stopBlock := s.currentBlock+1+s.freeBlocks
          currentBlock := (s.currentBlock+minBlocks)%2^32}
        if endingBlock ≤ s.currentBlock then some s
        else
          let s : FindState := {s with countedFreeBlocks := s.freeBlocks,freeBlocks := 0}
          let newSector := s.currentBlock/kBitsPerBlock
          if s.currentSector≠newSector ∧ readable newSector=false then none
          else
            let wordsLeft := s.currentBlock%kBitsPerBlock/kBitsPerWord
            let word := readBitmapBlock s.currentBlock+wordsLeft
            findLoopOn v readable endingBlock minBlocks n { s with
              reads := if s.currentSector≠newSector then s.reads+1 else s.reads
              currentSector := newSector
              wordsLeft := wordsLeft
              word := word
              tempWord := v.bitmap word
              bitMask := kHighBitInWordMask>>>(s.currentBlock%kBitsPerWord)}
    else some s

def growLoopOn (v : ExtendedVCB) (readable : ℕ → Bool) (maxBlocks : ℕ) : ℕ → Cursor → ℕ → Option ℕ
  | 0,_,actualNumBlocks => some actualNumBlocks
  | n+1,c,actualNumBlocks =>
    if c.currentWord&&&c.bitMask=0 then
      if actualNumBlocks+1=maxBlocks then some maxBlocks
      else
        match c.next v fun _ => readable ((c.block+1)%2^32/kBitsPerBlock) with
        | none => none
        | some c => growLoopOn v readable maxBlocks n c (actualNumBlocks+1)
    else some actualNumBlocks

/-- `blockFindContiguous` where it depends on the bitmap block whether it can be read. -/
def blockFindContiguousOn (v : ExtendedVCB) (readable : ℕ → Bool)
    (startingBlock endingBlock minBlocks maxBlocks : ℕ) : Except OSErr (ℕ × ℕ) :=
  if (2^32+endingBlock-startingBlock)%2^32 < minBlocks then .error .dskFulErr
  else
    let currentBlock := (2^32+(startingBlock+minBlocks)-1)%2^32
    if readable (currentBlock/kBitsPerBlock)=false then .error .ioErr
    else
      let wordsLeft := currentBlock%kBitsPerBlock/kBitsPerWord
      let word := readBitmapBlock currentBlock+wordsLeft
      match findLoopOn v readable endingBlock minBlocks (2*kBitsPerWord+endingBlock)
        { currentBlock := currentBlock
          stopBlock := startingBlock
          freeBlocks := 0
          countedFreeBlocks := 0
          word := word
          tempWord := v.bitmap word
          bitMask := kHighBitInWordMask>>>(currentBlock%kBitsPerWord)
          wordsLeft := wordsLeft
          currentSector := currentBlock/kBitsPerBlock
          reads := 1} with
      | none => .error .ioErr
      | some s =>
        if s.freeBlocks+s.countedFreeBlocks < minBlocks then .error .dskFulErr
        else
          let actualStartBlock := s.stopBlock-s.countedFreeBlocks
          let currentBlock := actualStartBlock+minBlocks
          if s.currentSector≠currentBlock/kBitsPerBlock ∧
              readable (currentBlock/kBitsPerBlock)=false then
            .ok (actualStartBlock,minBlocks)
          else if minBlocks < maxBlocks then
            let reads := if s.currentSector≠currentBlock/kBitsPerBlock then s.reads+1 else s.reads
            match growLoopOn v readable maxBlocks (endingBlock-currentBlock)
              (v.cursorAt currentBlock reads) minBlocks with
            | none => .error .ioErr
            | some actualNumBlocks => .ok (actualStartBlock,actualNumBlocks)
          else .ok (actualStartBlock,minBlocks)

def Fits (v : ExtendedVCB) (startingBlock endingBlock minBlocks q : ℕ) : Prop :=
  startingBlock≤q ∧ q+minBlocks≤endingBlock ∧ ∀ i,q ≤ i → i<q+minBlocks → v.bit i=false

def FirstFit (v : ExtendedVCB) (startingBlock endingBlock minBlocks q : ℕ) : Prop :=
  v.Fits startingBlock endingBlock minBlocks q ∧ ∀ p<q,¬v.Fits startingBlock endingBlock minBlocks p

/-- The search goes bit by bit to block 0 and reads the bitmap block of the block before it,
whose number has wrapped. -/
def ReadsBefore (readable : ℕ → Bool) (minBlocks q : ℕ) : Prop :=
  q=0 ∧ minBlocks≤32 ∧ readable ((2^32-1)/kBitsPerBlock)=false

/-- The run grows up to the end of the interval and could grow on, and the bitmap block
behind it cannot be read. -/
def ReadsBehind (v : ExtendedVCB) (readable : ℕ → Bool) (endingBlock minBlocks maxBlocks q : ℕ) :
    Prop :=
  endingBlock%kBitsPerBlock=0 ∧ readable (endingBlock/kBitsPerBlock)=false ∧
    q+minBlocks<endingBlock ∧ endingBlock<q+maxBlocks ∧ ∀ i,q ≤ i → i<endingBlock → v.bit i=false

/-- What the search owes its caller. -/
structure FindsRun (v : ExtendedVCB) (startingBlock endingBlock minBlocks maxBlocks : ℕ)
    (r : Except OSErr (ℕ × ℕ)) : Prop where
  finds : (∃ q,v.Fits startingBlock endingBlock minBlocks q) →
    ∃ start num,r=.ok (start,num) ∧ minBlocks≤num ∧ num ≤ maxBlocks ∧
      v.Fits startingBlock endingBlock num start
  full : r=.error .dskFulErr → ∀ q,¬v.Fits startingBlock endingBlock minBlocks q

/-- The search has passed over every candidate before `q`. At `q = 0` it has counted
nothing yet, and it looks at a word bit by bit if that is the first one or holds a used
block. -/
structure FirstAt (v : ExtendedVCB) (startingBlock endingBlock minBlocks : ℕ) (s : FindState)
    (q a : ℕ) : Prop extends FindAt v startingBlock endingBlock minBlocks s q a where
  pos : 1≤a
  regs : s.At v
  skipped : ∀ p,startingBlock≤p → p<q → ∃ i,p ≤ i ∧ i<p+minBlocks ∧ v.bit i=true
  first : q=0 → s.countedFreeBlocks=0 ∧ (a≤32 → minBlocks≤32 ∨ ∃ i<a,v.bit i=true)

section
variable {v : ExtendedVCB}

lemma nextWordOn_true (minBlocks n : ℕ) (s : FindState) :
    nextWordOn v (fun _ => true) minBlocks n s=nextWord v (fun _ => true) minBlocks n s := by
  induction n generalizing s with
  | zero => rfl
  | succ n ih =>
    rw [nextWordOn,nextWord]
    simp only [ih]
    all_goals rfl

lemma findLoopOn_true (endingBlock minBlocks n : ℕ) (s : FindState) :
    findLoopOn v (fun _ => true) endingBlock minBlocks n s =
      findLoop v (fun _ => true) endingBlock minBlocks n s := by
  induction n generalizing s with
  | zero => rfl
  | succ n ih =>
    rw [findLoopOn,findLoop]
    simp only [ih,nextWordOn_true]
    all_goals rfl

lemma growLoopOn_true (maxBlocks n : ℕ) (c : Cursor) (num : ℕ) :
    growLoopOn v (fun _ => true) maxBlocks n c num=growLoop v (fun _ => true) maxBlocks n c num := by
  induction n generalizing c num with
  | zero => rfl
  | succ n ih =>
    rw [growLoopOn,growLoop]
    simp only [ih]
    all_goals rfl

/-- Where every bitmap block can be read both models agree. -/
theorem blockFindContiguousOn_true (startingBlock endingBlock minBlocks maxBlocks : ℕ) :
    v.blockFindContiguousOn (fun _ => true) startingBlock endingBlock minBlocks maxBlocks =
      v.blockFindContiguous (fun _ => true) startingBlock endingBlock minBlocks maxBlocks := by
  rw [blockFindContiguousOn,blockFindContiguous]
  simp only [findLoopOn_true,growLoopOn_true]
  all_goals rfl

variable {readable : ℕ → Bool} {startingBlock endingBlock minBlocks maxBlocks : ℕ}

lemma not_fits_of_skipped {q p : ℕ}
    (h : ∀ p,startingBlock≤p → p<q → ∃ i,p ≤ i ∧ i<p+minBlocks ∧ v.bit i=true)
    (hp : p<q) : ¬v.Fits startingBlock endingBlock minBlocks p := by
  rintro ⟨hstart,-,hclear⟩
  obtain ⟨i,h1,h2,hset⟩ := h p hstart hp
  rw [hclear i h1 h2] at hset
  cases hset

lemma exists_bit_of_word_ne_zero {a : ℕ} (ha : 1≤a) (ha32 : a%32=0)
    (h : v.bitmap ((a-1)/32)≠0) : ∃ i,a-32 ≤ i ∧ i<a ∧ v.bit i=true := by
  by_contra hnone
  push Not at hnone
  refine h (eq_of_getMsbD_eq fun b hb => ?_)
  have hbit := hnone (a-32+b) (by omega) (by omega)
  rw [bit,bitOf,show (a-32+b)/32=(a-1)/32 by omega,
    show (a-32+b)%32=b by omega,ne_eq,Bool.not_eq_true] at hbit
  rw [hbit]
  exact getMsbD_zero.symm

lemma nextWordOn_spec (hread : ∀ i<endingBlock,readable (i/4096)=true)
    (hend : endingBlock<2^32) (n : ℕ) {q : ℕ} (s : FindState) (a : ℕ)
    (h : FindAt v startingBlock endingBlock minBlocks s q a) (ha : 1≤a) (ha32 : a%32=0)
    (han : a≤32*n) (hword : s.word=a/32) (hleft : s.wordsLeft=a%4096/32)
    (hmask : s.bitMask=oneBit 32 31) : (∃ s',nextWordOn v readable minBlocks n s=.enough s' ∧
      minBlocks ≤ s'.freeBlocks+s'.countedFreeBlocks ∧
      s'.stopBlock-s'.countedFreeBlocks=q ∧ v.Fits startingBlock endingBlock minBlocks q) ∨
    ∃ s' a',nextWordOn v readable minBlocks n s=.more s' ∧ 1≤a' ∧ a'≤a ∧
      s'.stopBlock=s.stopBlock ∧ s'.countedFreeBlocks=s.countedFreeBlocks ∧
      FindAt v startingBlock endingBlock minBlocks s' q a' ∧ s'.At v ∧
      ∃ i,a'-32 ≤ i ∧ i<a' ∧ v.bit i=true := by
  induction n generalizing s a with
  | zero => omega
  | succ n ih =>
    have hroom := h.room
    have hfree := h.free
    have hstop := h.stop
    have hstopLe := h.stopLe
    have hcur : s.currentBlock=a-1 := by
      rw [h.current]
      omega
    rw [nextWordOn]
    obtain ⟨s1,hprev⟩ : ∃ s1,s.previousWord v (fun _ => readable (s.currentBlock/kBitsPerBlock)) =
        some s1 := by
      rw [FindState.previousWord,hcur,kBitsPerBlock,hread (a-1) (by omega)]
      simp only [Bool.true_eq_false,if_false]
      split_ifs
      · exact ⟨_,rfl⟩
      · exact ⟨_,rfl⟩
    obtain ⟨hstop1,hcount1,hfree1,hcur1,hmask1⟩ := previousWord_spec hprev
    obtain ⟨hword1,htemp1,hleft1⟩ := previousWord_at ha ha32 hcur hword hleft hprev
    simp only [hprev]
    by_cases hzero : s1.tempWord=0
    · rw [if_pos hzero]
      rw [htemp1] at hzero
      have habove : ∀ i,a-32 ≤ i → i<q+minBlocks → v.bit i=false := by
        intro i h1 h2
        rcases lt_or_ge i a with hlt | hge
        · exact bit_of_word_zero ha ha32 hzero h1 hlt
        · exact h.above i hge h2
      by_cases henough : minBlocks ≤ s1.freeBlocks+kBitsPerWord+s1.countedFreeBlocks
      · rw [if_pos henough]
        have hfound := h.found hstop1 hcount1 (b := a-32)
          (by rw [kBitsPerWord] at henough; omega) habove
        have hq : s1.stopBlock-s1.countedFreeBlocks=q := by omega
        refine .inl ⟨_,rfl,henough,hq,?_⟩
        obtain ⟨-,hfits⟩ := hfound
        rw [hq] at hfits
        exact hfits
      · rw [if_neg henough]
        rw [kBitsPerWord] at henough
        have hnext : FindAt v startingBlock endingBlock minBlocks { s1 with
            freeBlocks := s1.freeBlocks+kBitsPerWord
            currentBlock := (2^32+s1.currentBlock-kBitsPerWord)%2^32} q (a-32) := by
          refine ⟨h.start,h.room,?_,?_,?_,?_,?_,habove⟩
          · simp only
            omega
          · simp only
            omega
          · simp only [hcur1,hcur,kBitsPerWord]
            omega
          · simp only [kBitsPerWord]
            omega
          · simp only [hstop1]
            exact h.below
        rcases ih _ (a-32) hnext (by omega) (by omega) (by omega) (by simp only; omega)
          (by simp only; omega) (hmask1.trans hmask) with hdone | ⟨s2,a2,hmore,h1,h2,h3,h4,hrest⟩
        · exact .inl hdone
        · exact .inr ⟨s2,a2,hmore,h1,by omega,h3.trans hstop1,h4.trans hcount1,hrest⟩
    · rw [if_neg hzero]
      rw [htemp1] at hzero
      refine .inr ⟨s1,a,rfl,ha,le_rfl,hstop1,hcount1,
        ⟨h.start,h.room,by omega,by omega,?_,by omega,?_,h.above⟩,⟨?_,?_,?_,?_⟩,
        exists_bit_of_word_ne_zero ha ha32 hzero⟩
      · rw [hcur1,h.current]
      · rw [hstop1]
        exact h.below
      · rw [hword1,hcur1,hcur]
      · rw [htemp1,hword1]
      · rw [hmask1,hmask,hcur1,hcur]
        congr 1
        omega
      · rw [hleft1,hcur1,hcur]

lemma findLoopOn_enough (n : ℕ) (s : FindState) {b : ℕ} (hb : b<32)
    (hmask : s.bitMask=oneBit 32 b) (hset : ∃ j≤b,s.tempWord.getMsbD j=true)
    (henough : minBlocks ≤ s.freeBlocks+s.countedFreeBlocks) :
    ∃ s',findLoopOn v readable endingBlock minBlocks n s=some s' ∧
      minBlocks ≤ s'.freeBlocks+s'.countedFreeBlocks ∧
      s'.stopBlock=s.stopBlock ∧ s'.countedFreeBlocks=s.countedFreeBlocks := by
  induction n generalizing s b with
  | zero => exact ⟨s,rfl,henough,rfl,rfl⟩
  | succ n ih =>
    rw [findLoopOn]
    split_ifs with hstop hclear
    · obtain ⟨j,hj,hset⟩ := hset
      rw [hmask,and_oneBit_eq_zero hb] at hclear
      have hne : j≠b := by
        rintro rfl
        rw [hset] at hclear
        cases hclear
      obtain ⟨b,rfl⟩ := exists_eq_succ_of_ne_zero (show b≠0 by omega)
      have hmask' : s.bitMask<<<1=oneBit 32 b := by rw [hmask,oneBit_shiftLeft hb]
      simp only [hmask',if_neg (oneBit_ne_zero (show b<32 by omega))]
      obtain ⟨s',hres,hen,hs,hc⟩ := ih { s with
          freeBlocks := s.freeBlocks+1
          currentBlock := (2^32+s.currentBlock-1)%2^32
          bitMask := oneBit 32 b} (show b<32 by omega) rfl ⟨j,by omega,hset⟩
        (by simp only; omega)
      exact ⟨s',hres,hen,hs,hc⟩
    · exact ⟨s,rfl,henough,rfl,rfl⟩
    · exact ⟨s,rfl,henough,rfl,rfl⟩

lemma findLoopOn_before (readable : ℕ → Bool) (endingBlock minBlocks : ℕ) {k : ℕ} (hk : 0<k)
    (n : ℕ) (s : FindState) (hword : s.wordsLeft=0)
    (hcur : s.currentBlock=2^32-1) (hmask : s.bitMask=oneBit 32 31)
    (henough : minBlocks ≤ s.freeBlocks+s.countedFreeBlocks) :
    let r := match nextWordOn v readable minBlocks k s with
      | .failed => none
      | .enough s => some s
      | .more s => findLoopOn v readable endingBlock minBlocks n s
    (readable ((2^32-1)/kBitsPerBlock)=false ∧ r=none) ∨
    (readable ((2^32-1)/kBitsPerBlock)≠false ∧ ∃ s',r=some s' ∧
      minBlocks ≤ s'.freeBlocks+s'.countedFreeBlocks ∧
      s'.stopBlock=s.stopBlock ∧ s'.countedFreeBlocks=s.countedFreeBlocks) := by
  obtain ⟨k,rfl⟩ := exists_eq_succ_of_ne_zero hk.ne'
  rw [nextWordOn,FindState.previousWord,hword,hcur]
  by_cases hread : readable ((2^32-1)/kBitsPerBlock)=false
  · simp only [hread]
    exact .inl ⟨trivial,rfl⟩
  · refine .inr ⟨hread,?_⟩
    simp only [ne_eq,not_true,if_false,if_neg hread]
    by_cases hzero : v.bitmap (readBitmapBlock (2^32-1)+kWordsPerBlock-1)=0
    · rw [if_pos hzero,if_pos (by omega)]
      exact ⟨_,rfl,by simp only; omega,rfl,rfl⟩
    · rw [if_neg hzero]
      obtain ⟨j,hj⟩ : ∃ j,(v.bitmap (readBitmapBlock (2^32-1)+kWordsPerBlock-1)).getMsbD j =
          true := by
        by_contra hnone
        refine hzero (eq_of_getMsbD_eq fun j _ => ?_)
        rw [Bool.eq_false_iff.mpr fun h => hnone ⟨j,h⟩]
        exact getMsbD_zero.symm
      have hlt : j<32 := lt_of_getMsbD hj
      exact findLoopOn_enough n _ (show 31<32 by omega) hmask ⟨j,by omega,hj⟩ henough

def FindLoopEnds (v : ExtendedVCB) (readable : ℕ → Bool) (startingBlock endingBlock minBlocks : ℕ)
    (r : Option FindState) : Prop :=
  (∃ s,r=some s ∧ s.freeBlocks+s.countedFreeBlocks < minBlocks ∧
    ∀ p,¬v.Fits startingBlock endingBlock minBlocks p) ∨
  ∃ q,v.FirstFit startingBlock endingBlock minBlocks q ∧
    ((ReadsBefore readable minBlocks q ∧ r=none) ∨
    (¬ReadsBefore readable minBlocks q ∧ ∃ s,r=some s ∧
      minBlocks ≤ s.freeBlocks+s.countedFreeBlocks ∧ s.stopBlock-s.countedFreeBlocks=q))

variable {s : FindState}

lemma FirstAt.firstFit {q a : ℕ}
    (h : FirstAt v startingBlock endingBlock minBlocks s q a)
    (hclear : ∀ i,q ≤ i → i<q+minBlocks → v.bit i=false) :
    v.FirstFit startingBlock endingBlock minBlocks q :=
  ⟨⟨h.start,h.room,hclear⟩,fun _ hp => not_fits_of_skipped h.skipped hp⟩

lemma FirstAt.done {q a : ℕ}
    (h : FirstAt v startingBlock endingBlock minBlocks s q a) (hdone : ¬s.stopBlock ≤ s.currentBlock)
    (hend : endingBlock<2^32) : FindLoopEnds v readable startingBlock endingBlock minBlocks (some s) := by
  have hroom := h.room
  have hfree := h.free
  have hstop := h.stop
  have hstopLe := h.stopLe
  have hpos := h.pos
  have hcur := h.current
  have hclear : ∀ i,q ≤ i → i<q+minBlocks → v.bit i=false := by
    intro i h1 h2
    rcases lt_or_ge i s.stopBlock with hlt | hge
    · exact h.below i h1 hlt
    · exact h.above i (by omega) h2
  refine .inr ⟨q,h.firstFit hclear,.inr ⟨?_,s,rfl,by omega,by omega⟩⟩
  rintro ⟨hq,-⟩
  have hcount := (h.first hq).1
  omega

lemma FirstAt.full {q a : ℕ}
    (h : FirstAt v startingBlock endingBlock minBlocks s q a) (hused : v.bit (a-1)=true)
    (hlt : a-1<q+minBlocks) (hpast : endingBlock<a+minBlocks) (p : ℕ) :
    ¬v.Fits startingBlock endingBlock minBlocks p := by
  rintro ⟨hstart,hroom,hclear⟩
  rcases lt_or_ge p q with hpq | hqp
  · exact not_fits_of_skipped h.skipped hpq ⟨hstart,hroom,hclear⟩
  · rw [hclear (a-1) (by omega) (by omega)] at hused
    cases hused

lemma FirstAt.first_of_clear {q a : ℕ}
    (h : FirstAt v startingBlock endingBlock minBlocks s q a) (hclear : v.bit (a-1)=false)
    (hq : q=0) : s.countedFreeBlocks=0 ∧ (a≤32 → minBlocks≤32 ∨ ∃ i<a-1,v.bit i=true) := by
  refine ⟨(h.first hq).1,fun h32 => ((h.first hq).2 h32).imp_right ?_⟩
  rintro ⟨i,hi,hset⟩
  refine ⟨i,lt_of_le_of_ne (by omega) ?_,hset⟩
  rintro rfl
  rw [hclear] at hset
  cases hset

lemma findLoopOn_spec (hread : ∀ i<endingBlock,readable (i/4096)=true)
    (hend : endingBlock<2^32) (n : ℕ) (s : FindState) (q a : ℕ)
    (h : FirstAt v startingBlock endingBlock minBlocks s q a)
    (hn : a-s.stopBlock+(endingBlock-(q+minBlocks))≤n) :
    FindLoopEnds v readable startingBlock endingBlock minBlocks
      (findLoopOn v readable endingBlock minBlocks n s) := by
  induction n generalizing s q a with
  | zero =>
    have hpos := h.pos
    have hcur := h.current
    have hfree := h.free
    have hroom := h.room
    exact h.done (by omega) hend
  | succ n ih =>
    have hroom := h.room
    have hstop := h.stop
    have hstopLe := h.stopLe
    have hfree := h.free
    have ha := h.pos
    have hs := h.regs
    have hcur : s.currentBlock=a-1 := by
      rw [h.current]
      omega
    have hbit : s.tempWord&&&s.bitMask=0 ↔ v.bit (a-1)=false := by
      rw [hs.bitMask,and_oneBit_eq_zero (mod_lt _ (by decide)),hs.tempWord,hs.word,hcur]
      rfl
    rw [findLoopOn]
    by_cases hdone : s.stopBlock ≤ s.currentBlock
    swap
    · rw [if_neg hdone]
      exact h.done hdone hend
    rw [if_pos hdone]
    by_cases hclear : s.tempWord&&&s.bitMask=0
    · rw [if_pos hclear]
      rw [hbit] at hclear
      have habove : ∀ i,a-1 ≤ i → i<q+minBlocks → v.bit i=false := by
        intro i h1 h2
        rcases lt_or_ge i a with hlt | hge
        · rwa [show i=a-1 by omega]
        · exact h.above i hge h2
      have hmask : s.bitMask<<<1=0 ↔ (a-1)%32=0 := by
        rw [hs.bitMask,hcur]
        rcases Nat.eq_zero_or_pos ((a-1)%32) with h0 | hpos
        · rw [h0]
          exact ⟨fun _ => rfl,fun _ => oneBit_zero_shiftLeft⟩
        · obtain ⟨b,hb⟩ := exists_eq_succ_of_ne_zero hpos.ne'
          rw [hb,oneBit_shiftLeft (by omega)]
          exact ⟨fun h => absurd h (oneBit_ne_zero (by omega)),fun h => by omega⟩
      have hword := hs.word
      have hleft := hs.wordsLeft
      rcases lt_or_ge 1 a with hmore | hlast
      · have hat : ∀ mask : BitVec 32,FindAt v startingBlock endingBlock minBlocks
            { s with
              freeBlocks := s.freeBlocks+1
              currentBlock := (2^32+s.currentBlock-1)%2^32
              bitMask := mask} q (a-1) := by
          intro mask
          refine ⟨h.start,h.room,h.stop,by simp only; omega,?_,by simp only; omega,h.below,habove⟩
          simp only
          omega
        have hcur1 : (2^32+s.currentBlock-1)%2^32=a-2 := by omega
        by_cases hwrap : (a-1)%32=0
        · simp only [if_pos (hmask.mpr hwrap)]
          obtain ⟨s1,henough,hcount,hq,hfits⟩ | ⟨s1,a1,hnext,ha1,hle,hstop1,hcount1,hat1,hs1,hused⟩ :=
            nextWordOn_spec hread hend (2^32) _ (a-1) (hat kLowBitInWordMask) (by omega) hwrap
              (by omega) (by simp only; omega) (by simp only; omega) rfl
          · rw [henough]
            refine .inr ⟨q,h.firstFit hfits.2.2,.inr ⟨?_,s1,rfl,hcount,hq⟩⟩
            rintro ⟨hq0,hmin,-⟩
            omega
          · rw [hnext]
            obtain ⟨i,-,hi,hset⟩ := hused
            refine ih s1 q a1 ⟨hat1,ha1,hs1,h.skipped,fun hq => ?_⟩ (by simp only at hstop1; omega)
            exact ⟨hcount1.trans (h.first hq).1,fun _ => .inr ⟨i,hi,hset⟩⟩
        · simp only [if_neg (fun h => hwrap (hmask.mp h))]
          have hat1 := hat (s.bitMask<<<1)
          rw [hcur1] at hat1 ⊢
          refine ih _ q (a-1) ⟨hat1,by omega,⟨?_,hs.tempWord,?_,?_⟩,h.skipped,fun hq => ?_⟩
            (by simp only; omega)
          · simp only
            omega
          · simp only
            rw [hs.bitMask,hcur,show (a-1)%32=(a-2)%32+1 by omega,
              oneBit_shiftLeft (by omega)]
          · simp only
            omega
          · obtain ⟨hcount,hfirst⟩ := h.first_of_clear hclear hq
            exact ⟨hcount,fun h32 => hfirst (by clear hfirst; omega)⟩
      · -- block 0 was the last one of the run
        have ha1 : a=1 := by omega
        have hq : q=0 := by omega
        subst ha1 hq
        have hfits := h.firstFit fun i h1 h2 => habove i (by omega) h2
        have hmin : minBlocks≤32 := by
          rcases (h.first_of_clear hclear rfl).2 (by omega) with hmin | ⟨i,hi,-⟩
          · exact hmin
          · omega
        simp only [if_pos (hmask.mpr (show (1-1)%32=0 by omega))]
        rcases findLoopOn_before (v := v) readable endingBlock minBlocks
          (show 0<2^32 by omega) n
          { s with
            freeBlocks := s.freeBlocks+1
            currentBlock := (2^32+s.currentBlock-1)%2^32
            bitMask := kLowBitInWordMask} (by simp only; omega) (by simp only; omega) rfl
          (by simp only; omega) with ⟨hbehind,hnone⟩ | ⟨hbehind,s',hsome,henough,hstop',hcount'⟩
        · exact .inr ⟨0,hfits,.inl ⟨⟨rfl,hmin,hbehind⟩,hnone⟩⟩
        · refine .inr ⟨0,hfits,.inr ⟨fun hbefore => hbehind hbefore.2.2,s',hsome,henough,?_⟩⟩
          rw [hstop',hcount']
          simp only
          omega
    · rw [if_neg hclear]
      rw [hbit,Bool.not_eq_false] at hclear
      have hless : ¬minBlocks ≤ s.freeBlocks+s.countedFreeBlocks := by omega
      simp only [if_neg hless]
      by_cases hpast : endingBlock≤(s.currentBlock+minBlocks)%2^32
      · rw [if_pos hpast]
        refine .inl ⟨_,rfl,by simp only; omega,h.full hclear (by omega) ?_⟩
        rw [hcur] at hpast
        have := mod_le (a-1+minBlocks) (2^32)
        omega
      rw [if_neg hpast]
      have hnew : readable ((s.currentBlock+minBlocks)%2^32/kBitsPerBlock)=true :=
        hread _ (by omega)
      rw [if_neg fun hfail => by rw [hnew] at hfail; cases hfail.2]
      rcases lt_or_ge (a-1+minBlocks) (2^32) with hsmall | hbig
      · -- the next candidate starts at `a`
        have hcur1 : (s.currentBlock+minBlocks)%2^32=a-1+minBlocks := by omega
        have hstart := h.start
        rw [hcur1] at hpast ⊢
        refine ih _ a (a+minBlocks) ⟨⟨by omega,by omega,?_,?_,?_,?_,?_,?_⟩,by omega,
          ⟨?_,rfl,?_,rfl⟩,?_,fun h0 => by omega⟩ ?_
        · simp only
          omega
        · simp only
          omega
        · simp only
          omega
        · simp only
          omega
        · simp only
          exact fun i h1 h2 => h.above i h1 (by omega)
        · exact fun i h1 h2 => absurd h1 (by omega)
        · simp only [readBitmapBlock,kBitsPerBlock,kWordsPerBlock,kBitsPerWord]
          omega
        · exact oneBit_zero_ushiftRight (mod_lt _ (by decide))
        · intro p hp hpa
          rcases lt_or_ge p q with hpq | hqp
          · exact h.skipped p hp hpq
          · exact ⟨a-1,by omega,by omega,hclear⟩
        · simp only
          omega
      · -- the block number has wrapped: the loop ends at its test
        have hnone := h.full hclear (by omega) (by omega)
        cases n with
        | zero => exact .inl ⟨_,rfl,by simp only; omega,hnone⟩
        | succ n =>
          have htest : ¬s.currentBlock+1+s.freeBlocks≤(s.currentBlock+minBlocks)%2^32 := by omega
          rw [findLoopOn,if_neg htest]
          exact .inl ⟨_,rfl,by simp only; omega,hnone⟩

variable (readable) in
lemma findLoopOn_start (hread : ∀ i<endingBlock,readable (i/4096)=true)
    (hend : endingBlock<2^32) (hroom : startingBlock+minBlocks≤endingBlock)
    (hmin : 0 < minBlocks) : FindLoopEnds v readable startingBlock endingBlock minBlocks
      (findLoopOn v readable endingBlock minBlocks (2*kBitsPerWord+endingBlock)
        { currentBlock := startingBlock+minBlocks-1
          stopBlock := startingBlock
          freeBlocks := 0
          countedFreeBlocks := 0
          word := readBitmapBlock (startingBlock+minBlocks-1) +
            (startingBlock+minBlocks-1)%kBitsPerBlock/kBitsPerWord
          tempWord := v.bitmap (readBitmapBlock (startingBlock+minBlocks-1) +
            (startingBlock+minBlocks-1)%kBitsPerBlock/kBitsPerWord)
          bitMask := kHighBitInWordMask>>>((startingBlock+minBlocks-1)%kBitsPerWord)
          wordsLeft := (startingBlock+minBlocks-1)%kBitsPerBlock/kBitsPerWord
          currentSector := (startingBlock+minBlocks-1)/kBitsPerBlock
          reads := 1}) := by
  refine findLoopOn_spec hread hend _ _ startingBlock (startingBlock+minBlocks)
    ⟨⟨le_rfl,hroom,rfl,le_add_right _ _,by simp only; omega,zero_add _,
      fun i h1 h2 => absurd h1 (by simp only at h2; omega),fun i h1 h2 => absurd h1 (by omega)⟩,
      by omega,⟨?_,rfl,oneBit_zero_ushiftRight (mod_lt _ (by decide)),rfl⟩,
      fun p h1 h2 => absurd h1 (by omega),fun h0 => ⟨rfl,fun h32 => .inl (by omega)⟩⟩
    (by simp only; omega)
  simp only [readBitmapBlock,kBitsPerBlock,kWordsPerBlock,kBitsPerWord]
  omega

variable (readable) in
lemma growLoopOn_spec (hread : ∀ i<endingBlock,readable (i/4096)=true)
    (hend : endingBlock<2^32) {q : ℕ} (n : ℕ) (c : Cursor) (num : ℕ) (hc : c.At)
    (hword : c.currentWord=v.bitmap (c.block/32)) (hblock : c.block=q+num)
    (hn : c.block+n=endingBlock) (hmax : num < maxBlocks)
    (hclear : ∀ i,q ≤ i → i<q+num → v.bit i=false) :
    (v.ReadsBehind readable endingBlock num maxBlocks q ∧
      growLoopOn v readable maxBlocks n c num=none) ∨
    (¬v.ReadsBehind readable endingBlock num maxBlocks q ∧
      ∃ num',growLoopOn v readable maxBlocks n c num=some num' ∧ num≤num' ∧
        num' ≤ maxBlocks ∧ q+num'≤endingBlock ∧
        ∀ i,q ≤ i → i<q+num' → v.bit i=false) := by
  induction n generalizing c num with
  | zero =>
    refine .inr ⟨?_,num,rfl,le_rfl,hmax.le,by omega,hclear⟩
    rintro ⟨-,-,hroom,-⟩
    omega
  | succ n ih =>
    have hfree_iff : c.currentWord&&&c.bitMask=0 ↔ v.bit c.block=false := by
      rw [hc.free_iff,hword]
      rfl
    rw [growLoopOn]
    by_cases hfree : c.currentWord&&&c.bitMask=0
    swap
    · rw [if_neg hfree]
      rw [hfree_iff] at hfree
      refine .inr ⟨?_,num,rfl,le_rfl,hmax.le,by omega,hclear⟩
      rintro ⟨-,-,-,-,hall⟩
      exact hfree (hall c.block (by omega) (by omega))
    rw [if_pos hfree]
    rw [hfree_iff] at hfree
    have hclear' : ∀ i,q ≤ i → i<q+(num+1) → v.bit i=false := by
      intro i h1 h2
      rcases lt_or_ge i (q+num) with hlt | hge
      · exact hclear i h1 hlt
      · rwa [show i=c.block by omega]
    by_cases hbound : num+1=maxBlocks
    · rw [if_pos hbound]
      refine .inr ⟨?_,maxBlocks,rfl,by omega,le_rfl,by omega,?_⟩
      · rintro ⟨-,-,-,hroom,-⟩
        omega
      · rw [←hbound]
        exact hclear'
    rw [if_neg hbound,hc.next_eq (by omega),mod_eq_of_lt (show c.block+1<2^32 by omega)]
    by_cases hfail : (c.block+1)%4096=0 ∧ readable ((c.block+1)/kBitsPerBlock)=false
    · have hlast : c.block+1=endingBlock := by
        by_contra hne
        rw [kBitsPerBlock,hread (c.block+1) (by omega)] at hfail
        cases hfail.2
      rw [if_pos hfail]
      rw [hlast] at hfail
      exact .inl ⟨⟨hfail.1,hfail.2,by omega,by omega,fun i h1 h2 => hclear' i h1 (by omega)⟩,rfl⟩
    · rw [if_neg hfail]
      have hiff : v.ReadsBehind readable endingBlock (num+1) maxBlocks q ↔
          v.ReadsBehind readable endingBlock num maxBlocks q := by
        constructor
        · rintro ⟨h1,h2,h3,h4⟩
          exact ⟨h1,h2,by omega,h4⟩
        · rintro ⟨h1,h2,h3,h4⟩
          refine ⟨h1,h2,lt_of_le_of_ne (by omega) fun hlast => hfail ?_,h4⟩
          rw [hblock,add_assoc,hlast]
          exact ⟨h1,h2⟩
      rw [←hiff]
      rcases ih (c.moved v) (num+1) (Cursor.moved_at (by omega) v)
        (Cursor.moved_currentWord hword) (show c.block+1=q+(num+1) by omega)
        (show c.block+1+n=endingBlock by omega)
        (by omega) hclear' with hnone | ⟨hgo,num',hsome,hle,hrest⟩
      · exact .inl hnone
      · exact .inr ⟨hgo,num',hsome,by omega,hrest⟩

lemma blockFindContiguous_spec {read : ℕ → Bool} (hmin : 0 < minBlocks)
    (hle : startingBlock≤endingBlock) (hend : endingBlock<2^32) {start num : ℕ}
    (h : v.blockFindContiguous read startingBlock endingBlock minBlocks maxBlocks =
      .ok (start,num)) : minBlocks≤num ∧ start+num≤endingBlock ∧
      ∀ i,start ≤ i → i<start+num → v.bit i=false := by
  rw [blockFindContiguous] at h
  by_cases hroom : (2^32+endingBlock-startingBlock)%2^32 < minBlocks
  · rw [if_pos hroom] at h
    cases h
  rw [if_neg hroom] at h
  by_cases hread : read 0=false
  · simp only [if_pos hread] at h
    cases h
  simp only [if_neg hread] at h
  have hroom' : startingBlock+minBlocks≤endingBlock := by omega
  have hcur : (2^32+(startingBlock+minBlocks)-1)%2^32=startingBlock+minBlocks-1 := by omega
  rw [hcur] at h
  split at h
  · cases h
  rename_i s hloop
  have hends := findLoopOn_start (v := v) (fun _ => true) (fun _ _ => rfl) hend
    hroom' hmin
  rw [findLoopOn_true,findLoop_of_reads _ _ _ hloop] at hends
  by_cases hfew : s.freeBlocks+s.countedFreeBlocks < minBlocks
  · rw [if_pos hfew] at h
    cases h
  rw [if_neg hfew] at h
  obtain ⟨s',hs,hfew',-⟩ | ⟨q,hfirst,⟨-,hnone⟩ | ⟨-,s',hs,-,hq⟩⟩ := hends
  · exact absurd (Option.some.inj hs▸hfew') hfew
  · cases hnone
  obtain rfl := Option.some.inj hs
  obtain ⟨⟨hstart,hfits,hclear⟩,-⟩ := hfirst
  subst hq
  have hdone : ∀ {num' : ℕ},num'=minBlocks → minBlocks≤num' ∧
      s.stopBlock-s.countedFreeBlocks+num'≤endingBlock ∧ ∀ i,s.stopBlock-s.countedFreeBlocks ≤ i →
        i<s.stopBlock-s.countedFreeBlocks+num' → v.bit i=false := by
    rintro _ rfl
    exact ⟨le_rfl,hfits,hclear⟩
  by_cases hsector : s.currentSector ≠
      (s.stopBlock-s.countedFreeBlocks+minBlocks)/kBitsPerBlock ∧ read s.reads=false
  · rw [if_pos hsector] at h
    simp only [Except.ok.injEq,Prod.mk.injEq] at h
    rw [←h.1]
    exact hdone h.2.symm
  rw [if_neg hsector] at h
  by_cases hmax : minBlocks < maxBlocks
  swap
  · rw [if_neg hmax] at h
    simp only [Except.ok.injEq,Prod.mk.injEq] at h
    rw [←h.1]
    exact hdone h.2.symm
  rw [if_pos hmax] at h
  split at h
  · cases h
  rename_i num' hgrow
  simp only [Except.ok.injEq,Prod.mk.injEq] at h
  rw [←h.1,←h.2]
  have hgrows := growLoopOn_spec (fun _ => true) (fun _ _ => rfl) hend
    (endingBlock-(s.stopBlock-s.countedFreeBlocks+minBlocks))
    (v.cursorAt (s.stopBlock-s.countedFreeBlocks+minBlocks) _) minBlocks
    (cursorAt_at v (by omega) (if s.currentSector≠(s.stopBlock-s.countedFreeBlocks +
      minBlocks)/kBitsPerBlock then s.reads+1 else s.reads))
    (cursorAt_currentWord v _ _) rfl (Nat.add_sub_cancel' hfits) hmax hclear
  rw [growLoopOn_true,growLoop_of_reads _ _ _ _ hgrow] at hgrows
  obtain ⟨-,hnone⟩ | ⟨-,n,hsome,hge,-,hroom,hmore⟩ := hgrows
  · cases hnone
  · obtain rfl := Option.some.inj hsome
    exact ⟨hge,hroom,hmore⟩

lemma blockFindContiguousOn_ends (hread : ∀ i<endingBlock,readable (i/4096)=true)
    (hle : startingBlock≤endingBlock) (hend : endingBlock<2^32) (hmin : 0 < minBlocks)
    (hmax : minBlocks ≤ maxBlocks) :
    let r := v.blockFindContiguousOn readable startingBlock endingBlock minBlocks maxBlocks
    (r=.error .dskFulErr ∧ ∀ p,¬v.Fits startingBlock endingBlock minBlocks p) ∨
    ∃ q,v.FirstFit startingBlock endingBlock minBlocks q ∧ ((¬(¬ReadsBefore readable minBlocks q ∧
          ¬v.ReadsBehind readable endingBlock minBlocks maxBlocks q) ∧ r=.error .ioErr) ∨
      ((¬ReadsBefore readable minBlocks q ∧
          ¬v.ReadsBehind readable endingBlock minBlocks maxBlocks q) ∧
        ∃ num,r=.ok (q,num) ∧ minBlocks≤num ∧ num ≤ maxBlocks ∧
          v.Fits startingBlock endingBlock num q)) := by
  intro r
  obtain ⟨r',hr⟩ : ∃ r',r'=r := ⟨_,rfl⟩
  rw [←hr]
  simp only [r] at hr
  clear r
  rw [blockFindContiguousOn] at hr
  by_cases hroom : (2^32+endingBlock-startingBlock)%2^32 < minBlocks
  · rw [if_pos hroom] at hr
    refine .inl ⟨hr,?_⟩
    rintro p ⟨h1,h2,-⟩
    omega
  rw [if_neg hroom] at hr
  have hcur : (2^32+(startingBlock+minBlocks)-1)%2^32=startingBlock+minBlocks-1 := by omega
  rw [hcur] at hr
  have hfirst : readable ((startingBlock+minBlocks-1)/kBitsPerBlock)=true :=
    hread _ (by omega)
  simp only [hfirst,Bool.true_eq_false,if_false] at hr
  have hends := findLoopOn_start (v := v) readable hread hend (show startingBlock+minBlocks≤endingBlock by omega)
    hmin
  generalize findLoopOn v readable endingBlock minBlocks _ _=loop at hr hends
  rcases hends with ⟨s,rfl,hfew,hnone⟩ | ⟨q,hfits,⟨hbefore,rfl⟩ | ⟨hbefore,s,rfl,henough,hq⟩⟩
  · simp only [if_pos hfew] at hr
    exact .inl ⟨hr,hnone⟩
  · exact .inr ⟨q,hfits,.inl ⟨fun h => h.1 hbefore,hr⟩⟩
  have hfit := hfits.1
  refine .inr ⟨q,hfits,?_⟩
  simp only [if_neg (not_lt.mpr henough),hq] at hr
  by_cases hsector : s.currentSector≠(q+minBlocks)/kBitsPerBlock ∧
      readable ((q+minBlocks)/kBitsPerBlock)=false
  · rw [if_pos hsector] at hr
    refine .inr ⟨⟨hbefore,?_⟩,minBlocks,hr,le_rfl,hmax,hfit⟩
    rintro ⟨-,-,hlt,-⟩
    rw [kBitsPerBlock,hread (q+minBlocks) hlt] at hsector
    cases hsector.2
  rw [if_neg hsector] at hr
  by_cases hgrow : minBlocks < maxBlocks
  swap
  · rw [if_neg hgrow] at hr
    refine .inr ⟨⟨hbefore,?_⟩,minBlocks,hr,le_rfl,hmax,hfit⟩
    rintro ⟨-,-,h1,h2,-⟩
    omega
  rw [if_pos hgrow] at hr
  have hroomq := hfit.2.1
  rcases growLoopOn_spec readable hread hend (endingBlock-(q+minBlocks)) (v.cursorAt (q+minBlocks)
      (if s.currentSector≠(q+minBlocks)/kBitsPerBlock then s.reads+1 else s.reads)) minBlocks
    (cursorAt_at v (by omega) _) (cursorAt_currentWord v _ _) rfl
    (show q+minBlocks+(endingBlock-(q+minBlocks))=endingBlock by omega) hgrow hfit.2.2
    with ⟨hbehind,hnone⟩ | ⟨hbehind,num,hsome,hge,hbound,hfitsnum,hclear⟩
  · rw [hnone] at hr
    exact .inl ⟨fun h => h.2 hbehind,hr⟩
  · rw [hsome] at hr
    exact .inr ⟨⟨hbefore,hbehind⟩,num,hr,hge,hbound,hfit.1,hfitsnum,hclear⟩

/-- The search takes the first fit exactly if, on its way, it reads no bitmap block before
or behind the volume that cannot be read. -/
theorem blockFindContiguousOn_finds_iff
    (hread : ∀ i<v.totalBlocks,readable (i/kBitsPerBlock)=true)
    (htotal : v.totalBlocks<2^32) (hle : startingBlock≤endingBlock)
    (hend : endingBlock≤v.totalBlocks) (hmin : 0 < minBlocks) (hmax : minBlocks ≤ maxBlocks) :
    v.FindsRun startingBlock endingBlock minBlocks maxBlocks
        (v.blockFindContiguousOn readable startingBlock endingBlock minBlocks maxBlocks) ↔
      ∀ q,v.FirstFit startingBlock endingBlock minBlocks q → ¬ReadsBefore readable minBlocks q ∧
        ¬v.ReadsBehind readable endingBlock minBlocks maxBlocks q := by
  rcases blockFindContiguousOn_ends (fun i hi => hread i (by omega)) hle (by omega) hmin hmax with
    ⟨hr,hnone⟩ | ⟨q,hfits,⟨hbad,hr⟩ | ⟨hgood,num,hr,hrun⟩⟩
  · refine iff_of_true ⟨?_,fun _ => hnone⟩ fun q hq => absurd hq.1 (hnone q)
    rintro ⟨p,hp⟩
    exact absurd hp (hnone p)
  · refine iff_of_false (fun h => ?_) fun h => hbad (h q hfits)
    obtain ⟨start,num,hok,-⟩ := h.finds ⟨q,hfits.1⟩
    rw [hr] at hok
    cases hok
  · refine iff_of_true ⟨fun _ => ⟨q,num,hr,hrun⟩,fun hfull => ?_⟩ fun p hp => ?_
    · rw [hr] at hfull
      cases hfull
    · have hpq : p=q := by
        rcases Nat.lt_trichotomy p q with hlt | heq | hgt
        · exact absurd hp.1 (hfits.2 p hlt)
        · exact heq
        · exact absurd hfits.1 (hp.2 q hgt)
      rw [hpq]
      exact hgood

end

def emptyTail : ExtendedVCB := ⟨512,4096,96,0,fun j => if j<125 then 0xFFFFFFFF else 0⟩

def onlyBlock (j : ℕ) : Bool := decide (j=0)

theorem blockFindContiguousOn_finds_iff_emptyTail :
    emptyTail.FindsRun 16 4090 8 20 (emptyTail.blockFindContiguousOn onlyBlock 16 4090 8 20) ↔
      ∀ q,emptyTail.FirstFit 16 4090 8 q → ¬ReadsBefore onlyBlock 8 q ∧
        ¬emptyTail.ReadsBehind onlyBlock 4090 8 20 q :=
  blockFindContiguousOn_finds_iff (fun _ hi => decide_eq_true (div_eq_of_lt hi)) (by decide)
    (by decide) (by decide) (by decide) (by decide)

/-- The 96 free blocks at the end are enough for 64 but fewer than 128; the growing run comes
to the end of the volume, and the read behind it fails the call. -/
theorem emptyTail_not_found :
    emptyTail.blockFindContiguousOn onlyBlock 0 4096 64 128=.error .ioErr ∧
      ¬emptyTail.FindsRun 0 4096 64 128
        (emptyTail.blockFindContiguousOn onlyBlock 0 4096 64 128) := by
  have hfits : emptyTail.Fits 0 4096 64 4000 := by
    refine ⟨by decide,by decide,fun i h1 h2 => ?_⟩
    rw [bit,bitOf]
    have hword : emptyTail.bitmap (i/32)=0 := if_neg (by omega)
    rw [hword]
    exact getMsbD_zero
  have hfail : emptyTail.blockFindContiguousOn onlyBlock 0 4096 64 128=.error .ioErr := by
    decide +kernel
  refine ⟨hfail,fun h => ?_⟩
  obtain ⟨start,num,hok,-⟩ := h.finds ⟨4000,hfits⟩
  rw [hfail] at hok
  cases hok

end ExtendedVCB
end Darwin.Hfs
