import Darwin.Hfs.VolumeRun

/-! Whether `BlockAllocate` finds a free block where there is one, when the bitmap blocks of
the volume can be read and those behind it perhaps not. -/
open List Nat
namespace Darwin.Hfs
open Lib.BitWords
namespace ExtendedVCB

def scanOrder (v : ExtendedVCB) (startingBlock : ℕ) : List ℕ :=
  range' startingBlock (v.totalBlocks-startingBlock) ++ List.range (min startingBlock v.totalBlocks)

def firstFree (v : ExtendedVCB) (startingBlock : ℕ) : Option ℕ :=
  (v.scanOrder startingBlock).find? fun i => !v.bit i

/-- The reads of a call where it depends on the bitmap block whether it can be read. -/
def readsFrom (readable : ℕ → Bool) (startingBlock found : ℕ) : BitmapReads where
  first k := readable (startingBlock/kBitsPerBlock+k)
  second k := readable k
  change k := readable (found/kBitsPerBlock+k)

def hint (v : ExtendedVCB) (startingBlock : ℕ) : ℕ :=
  if startingBlock=0 then v.nextAllocation else startingBlock

def blocksOf (bytes : ℤ) (blockSize : ℕ) : ℕ := ((bytes+blockSize-1)/blockSize).toNat

section
variable {v : ExtendedVCB} {readable : ℕ → Bool}

lemma least_of_find? {l : List ℕ} (hl : l.Pairwise (· < ·)) {p : ℕ → Bool} {f : ℕ}
    (h : l.find? p=some f) : f∈l ∧ p f=true ∧ ∀ i∈l,i<f → p i=false := by
  obtain ⟨hf,as,bs,rfl,has⟩ := find?_eq_some_iff_append.mp h
  obtain ⟨-,hbs,-⟩ := pairwise_append.mp hl
  refine ⟨by simp,hf,fun i hi hif => ?_⟩
  rcases mem_append.mp hi with hi | hi
  · simpa using has i hi
  · rcases mem_cons.mp hi with rfl | hi
    · exact absurd hif (lt_irrefl i)
    · exact absurd hif (lt_asymm (rel_of_pairwise_cons hbs hi))

lemma firstFree_spec {s f : ℕ} (h : v.firstFree s=some f) : v.bit f=false ∧ f<v.totalBlocks ∧
    ((s≤f ∧ ∀ i,s ≤ i → i<f → v.bit i=true) ∨
      (f<s ∧ (∀ i,s ≤ i → i<v.totalBlocks → v.bit i=true) ∧ ∀ i<f,v.bit i=true)) := by
  rw [firstFree,scanOrder,find?_append,Option.or_eq_some_iff] at h
  rcases h with h | ⟨hnone,h⟩
  · obtain ⟨hmem,hf,hleast⟩ := least_of_find? pairwise_lt_range' h
    obtain ⟨hle,hlt⟩ := mem_range'_1.mp hmem
    refine ⟨by simpa using hf,by omega,.inl ⟨hle,fun i hi hif => ?_⟩⟩
    simpa using hleast i (mem_range'_1.mpr ⟨hi,by omega⟩) hif
  · obtain ⟨hmem,hf,hleast⟩ := least_of_find? pairwise_lt_range h
    have hlt := mem_range.mp hmem
    refine ⟨by simpa using hf,by omega,.inr ⟨by omega,fun i hi hit => ?_,fun i hif => ?_⟩⟩
    · have hset := find?_eq_none.mp hnone i (mem_range'_1.mpr ⟨hi,by omega⟩)
      simpa using hset
    · simpa using hleast i (mem_range.mpr (by omega)) hif

lemma exists_firstFree (s : ℕ) {i : ℕ} (hi : i<v.totalBlocks) (hfree : v.bit i=false) :
    ∃ f,v.firstFree s=some f := by
  refine Option.isSome_iff_exists.mp (find?_isSome.mpr ⟨i,?_,by rw [hfree]; rfl⟩)
  rw [scanOrder,mem_append]
  rcases lt_or_ge i s with his | hsi
  · exact .inr (mem_range.mpr (by omega))
  · exact .inl (mem_range'_1.mpr ⟨hsi,by omega⟩)

/-- The `k`-th bitmap block read is the one `k` behind the first. -/
structure Cursor.Reads (c : Cursor) (readable : ℕ → Bool) (read : ℕ → Bool) : Prop where
  next : ∀ k,read (c.reads+k)=readable (c.block/4096+1+k)

variable {read : ℕ → Bool}

lemma Cursor.Reads.moved {c : Cursor} (h : c.Reads readable read) :
    (c.moved v).Reads readable read := by
  refine ⟨fun k => ?_⟩
  rw [Cursor.moved]
  dsimp only
  split_ifs with hblock
  · rw [show c.reads+1+k=c.reads+(1+k) by omega,h.next]
    congr 1
    omega
  · rw [h.next]
    congr 1
    omega

lemma Cursor.At.next_reads {c : Cursor} (hc : c.At) (hb : c.block+1<2^32)
    (h : c.Reads readable read) (v : ExtendedVCB) : c.next v read =
      if (c.block+1)%4096=0 ∧ readable ((c.block+1)/4096)=false then none
      else some (c.moved v) := by
  rw [hc.next_eq hb]
  have hread := h.next 0
  rw [add_zero,add_zero] at hread
  by_cases hblock : (c.block+1)%4096=0
  · rw [hread,show (c.block+1)/4096=c.block/4096+1 by omega]
  · rw [if_neg fun h => hblock h.1,if_neg fun h => hblock h.1]

lemma findFree_eq (n : ℕ) (c : Cursor) (hc : c.At) (hreads : c.Reads readable read)
    (hword : c.currentWord=v.bitmap (c.block/32)) (hn : c.block+n<2^32) {t : ℕ}
    (hle : c.block≤t) (htn : t≤c.block+n) (hset : ∀ i,c.block ≤ i → i<t → v.bit i=true)
    (hfree : t<c.block+n → v.bit t=false)
    (hreadable : ∀ q,c.block<q → q<t → readable (q/4096)=true) :
    ((c.block<t ∧ t%4096=0 ∧ readable (t/4096)=false) ∧ findFree v read n c=none) ∨
    (¬(c.block<t ∧ t%4096=0 ∧ readable (t/4096)=false) ∧
      ∃ c',findFree v read n c=some c' ∧ c'.At ∧ c'.block=t ∧
        c'.currentWord=v.bitmap (c'.block/32)) := by
  induction n generalizing c with
  | zero =>
    exact .inr ⟨by omega,c,rfl,hc,by omega,hword⟩
  | succ n ih =>
    have hfree_iff : c.currentWord&&&c.bitMask=0 ↔ v.bit c.block=false := by
      rw [hc.free_iff,hword]
      rfl
    rw [findFree]
    rcases eq_or_lt_of_le hle with rfl | hlt
    · rw [if_pos (hfree_iff.mpr (hfree (by omega)))]
      exact .inr ⟨by omega,c,rfl,hc,rfl,hword⟩
    · have hused : ¬c.currentWord&&&c.bitMask=0 := by
        rw [hfree_iff,hset _ (le_refl _) hlt]
        decide
      rw [if_neg hused,hc.next_reads (by omega) hreads]
      by_cases hfail : (c.block+1)%4096=0 ∧ readable ((c.block+1)/4096)=false
      · have ht : t=c.block+1 := by
          by_contra hne
          rw [hreadable (c.block+1) (by omega) (by omega)] at hfail
          exact absurd hfail.2 (by decide)
        subst ht
        rw [if_pos hfail]
        exact .inl ⟨⟨hlt,hfail⟩,rfl⟩
      · rw [if_neg hfail]
        have hrest := ih (c.moved v) (Cursor.moved_at (by omega) v) hreads.moved
          (Cursor.moved_currentWord hword) (show c.block+1+n<2^32 by omega) hlt
          (show t≤c.block+1+n by omega)
          (fun i hi => hset i (show c.block ≤ i from le_of_succ_le hi))
          (fun h => hfree (show t<c.block+(n+1) by simp only [Cursor.moved] at h; omega))
          (fun q hq => hreadable q (lt_of_succ_lt hq))
        rcases hrest with ⟨⟨hlt',hstop⟩,hnone⟩ | ⟨hgo,c',hsome⟩
        · exact .inl ⟨⟨hlt,hstop⟩,hnone⟩
        · refine .inr ⟨fun h => ?_,c',hsome⟩
          have hne : c.block+1≠t := fun heq => hfail (heq▸h.2)
          exact hgo ⟨lt_of_le_of_ne hlt hne,h.2⟩

lemma allocateFree_walk {v0 : ExtendedVCB} {s z : ℕ} (endingBlock n : ℕ)
    (v : ExtendedVCB) (c : Cursor) (hc : c.At) (hreads : c.Reads readable read) (hs : s≤c.block)
    (hv : c.Takes v0 v s) (hz : c.block≤z) (hz32 : z<2^32) (hn : z≤c.block+n)
    (hclear : ∀ i,c.block ≤ i → i<z → v0.bit i=false)
    (hne : ∀ i,c.block < i → i≤z → i≠endingBlock) : ((allocateFree read endingBlock n v c).1=none ∧
      ∃ q,c.block<q ∧ q≤z ∧ q%4096=0 ∧ readable (q/4096)=false) ∨
    ∃ v' c',allocateFree read endingBlock n v c =
        allocateFree read endingBlock (n-(z-c.block)) v' c' ∧ c'.At ∧
      c'.Reads readable read ∧ c'.block=z ∧ c'.Takes v0 v' s ∧
      ∀ q,c.block<q → q≤z → q%4096=0 → readable (q/4096)=true := by
  induction n generalizing v c with
  | zero =>
    have heq : c.block=z := by omega
    exact .inr ⟨v,c,by rw [Nat.zero_sub],hc,hreads,heq,hv,fun q h1 h2 => by omega⟩
  | succ n ih =>
    rcases eq_or_lt_of_le hz with rfl | hlt
    · exact .inr ⟨v,c,by rw [Nat.sub_self,Nat.sub_zero],hc,hreads,rfl,hv,fun q h1 h2 => by omega⟩
    have hfree := (hv.free_iff hc).mpr (hclear _ (Nat.le_refl _) hlt)
    have hmore : ¬(c.block+1)%2^32=endingBlock := by
      rw [mod_eq_of_lt (by omega)]
      exact hne _ (by omega) hlt
    have hmoved := hv.moved hc hs
    rw [allocateFree,if_pos hfree]
    simp only [if_neg hmore]
    obtain ⟨v1,hv1⟩ : ∃ v1,v1 =
      if c.bitMask>>>1=0 then v.store c.word (c.currentWord|||c.bitMask) else v := ⟨_,rfl⟩
    obtain ⟨c1,hc1⟩ : ∃ c1 : Cursor,c1={c with currentWord := c.currentWord|||c.bitMask} :=
      ⟨_,rfl⟩
    rw [←hv1,←hc1] at hmoved ⊢
    have hat1 : c1.At := hc1▸⟨hc.small,hc.word,hc.bitMask,hc.wordsLeft⟩
    have hreads1 : c1.Reads readable read := hc1▸⟨hreads.next⟩
    have hblock1 : c1.block=c.block := by rw [hc1]
    have hblock : (c1.moved v1).block=c.block+1 := by rw [Cursor.moved,hblock1]
    rw [hat1.next_reads (by omega) hreads1,hblock1]
    by_cases hfail : (c.block+1)%4096=0 ∧ readable ((c.block+1)/4096)=false
    · rw [if_pos hfail]
      exact .inl ⟨rfl,c.block+1,by omega,hlt,hfail⟩
    · rw [if_neg hfail]
      have hrest := ih v1 (c1.moved v1) (Cursor.moved_at (by omega) v1) hreads1.moved
        (by omega) hmoved (by omega) (by omega) (fun i hi => hclear i (by omega))
        (fun i hi => hne i (by omega))
      rw [hblock] at hrest
      rcases hrest with ⟨hnone,q,h1,h2,h3⟩ | ⟨v',c',heq,hat,hr,hb,ht,hq⟩
      · exact .inl ⟨hnone,q,by omega,h2,h3⟩
      · refine .inr ⟨v',c',?_,hat,hr,hb,ht,fun q h1 h2 h3 => ?_⟩
        · rw [show n+1-(z-c.block)=n-(z-(c.block+1)) by omega]
          exact heq
        · rcases eq_or_lt_of_le (show c.block+1≤q from h1) with rfl | h1
          · by_contra hr'
            exact hfail ⟨h3,Bool.eq_false_iff.mpr hr'⟩
          · exact hq q h1 h2 h3

lemma allocateFree_used {v0 : ExtendedVCB} {s endingBlock : ℕ} (n : ℕ)
    (v : ExtendedVCB) (c : Cursor) (hc : c.At) (hv : c.Takes v0 v s)
    (hused : v0.bit c.block=true) : (allocateFree read endingBlock n v c).1=some c.block := by
  cases n with
  | zero => rfl
  | succ n =>
    have hset : ¬c.currentWord&&&c.bitMask=0 := by
      rw [hv.free_iff hc,hused]
      decide
    rw [allocateFree,if_neg hset]

lemma allocateFree_last {v0 : ExtendedVCB} {s endingBlock : ℕ} (n : ℕ)
    (v : ExtendedVCB) (c : Cursor) (hc : c.At) (hv : c.Takes v0 v s)
    (hfree : v0.bit c.block=false) (hend : (c.block+1)%2^32=endingBlock) :
    (allocateFree read endingBlock (n+1) v c).1=some endingBlock := by
  rw [allocateFree,if_pos ((hv.free_iff hc).mpr hfree)]
  simp only [if_pos hend]

lemma nextWord_block {v : ExtendedVCB} {c c' : Cursor}
    (h : c.nextWord v read=some c') : c'.block=c.block := by
  rw [Cursor.nextWord] at h
  split_ifs at h
  · cases h
    rfl
  · cases h
    rfl

lemma allocateFree_range {endingBlock b : ℕ} (n : ℕ) (v : ExtendedVCB)
    (c : Cursor) (hc : c.block<2^32) (h : (allocateFree read endingBlock n v c).1=some b) :
    ∃ j≤n,b=(c.block+j)%2^32 ∧ (0<n → c.currentWord&&&c.bitMask=0 → 0<j) := by
  induction n generalizing v c with
  | zero =>
    cases h
    exact ⟨0,le_refl _,(mod_eq_of_lt hc).symm,fun h => absurd h (lt_irrefl 0)⟩
  | succ n ih =>
    rw [allocateFree] at h
    split_ifs at h with hfree
    · by_cases hend : (c.block+1)%2^32=endingBlock
      · simp only [if_pos hend] at h
        cases h
        exact ⟨1,by omega,hend.symm,fun _ _ => one_pos⟩
      · simp only [if_neg hend] at h
        split at h
        · cases h
        · rename_i c' hnext
          have hblock : c'.block=(c.block+1)%2^32 := by
            rw [Cursor.next] at hnext
            dsimp only at hnext
            split_ifs at hnext
            · exact nextWord_block hnext
            · cases hnext
              rfl
          obtain ⟨j,hj,rfl,-⟩ := ih _ c' (by omega) h
          exact ⟨j+1,by omega,by rw [hblock]; omega,fun _ _ => succ_pos j⟩
    · cases h
      exact ⟨0,zero_le _,(mod_eq_of_lt hc).symm,fun _ h => absurd h hfree⟩

section Attempt
variable {search change : ℕ → Bool} {a E M f : ℕ}

lemma blockAllocateAny_full (change : ℕ → Bool) (M : ℕ)
    (hsearch : ∀ k,search k=readable (a/4096+k)) (hle : a≤E)
    (hE : E<2^32) (hset : ∀ i,a ≤ i → i<E → v.bit i=true)
    (hreadable : ∀ q<E,readable (q/4096)=true) : v.blockAllocateAny search change a E M =
      if E%4096=0 ∧ readable (E/4096)=false then (.error .ioErr,v)
      else (.error .dskFulErr,v) := by
  have hfirst : search 0=readable (a/4096) := hsearch 0
  have hscan := findFree_eq (E-a) (v.cursorAt a 1) (cursorAt_at v (by omega) 1)
    ⟨fun k => (hsearch (1+k)).trans (congrArg readable (show a/4096+(1+k)=a/4096+1+k by omega))⟩
    (cursorAt_currentWord v a 1) (show a+(E-a)<2^32 by omega) hle
    (show E≤a+(E-a) by omega) hset (fun h => absurd h (by change ¬E<a+(E-a); omega))
    (fun q _ => hreadable q)
  rw [blockAllocateAny,hfirst]
  by_cases hread : readable (a/4096)=false
  · have heq : a=E := by
      by_contra hne
      rw [hreadable a (by omega)] at hread
      cases hread
    have hboundary : E%4096=0 := by
      by_contra hne
      rw [show a/4096=(E-1)/4096 by omega,hreadable (E-1) (by omega)] at hread
      cases hread
    rw [if_pos hread,if_pos ⟨hboundary,heq▸hread⟩]
  · simp only [if_neg hread]
    rcases hscan with ⟨⟨-,hfail⟩,hnone⟩ | ⟨hgo,c,hc,-,hblock,-⟩
    · rw [if_pos hfail]
      simp only [hnone]
    · have hgo' : ¬(E%4096=0 ∧ readable (E/4096)=false) := fun h => by
        refine hgo ⟨lt_of_le_of_ne hle fun heq => ?_,h⟩
        rw [←show a=E from heq] at h
        exact hread h.2
      rw [if_neg hgo']
      simp only [hc,hblock,if_true]

lemma blockAllocateAny_found (change : ℕ → Bool) (M : ℕ)
    (hsearch : ∀ k,search k=readable (a/4096+k)) (hle : a≤f)
    (hlt : f<E) (hE : E<2^32) (hset : ∀ i,a ≤ i → i<f → v.bit i=true)
    (hfree : v.bit f=false) (hreadable : ∀ q<E,readable (q/4096)=true) :
    ∃ c : Cursor,c.At ∧ c.block=f ∧ c.reads=1 ∧ c.Takes v v f ∧
      v.blockAllocateAny search change a E M =
        match allocateFree change (if M=0 then f else min (f+M) E)
          (2^32+(if M=0 then f else min (f+M) E)-f) v c with
        | (none,v') => (.error .ioErr,v')
        | (some b,v') => (.ok (f,(2^32+b-f)%2^32),v') := by
  have hfirst : search 0=readable (a/4096) := hsearch 0
  have hscan := findFree_eq (E-a) (v.cursorAt a 1) (cursorAt_at v (by omega) 1)
    ⟨fun k => (hsearch (1+k)).trans (congrArg readable (show a/4096+(1+k)=a/4096+1+k by omega))⟩
    (cursorAt_currentWord v a 1) (show a+(E-a)<2^32 by omega) hle
    (show f≤a+(E-a) by omega) hset (fun _ => hfree)
    (fun q _ hq => hreadable q (by omega))
  have hread : ¬readable (a/4096)=false := by
    rw [hreadable a (by omega)]
    decide
  obtain ⟨⟨-,-,hfail⟩,-⟩ | ⟨-,c,hc,hat,hblock,hword⟩ := hscan
  · rw [hreadable f hlt] at hfail
    cases hfail
  refine ⟨{c with reads := 1},⟨hat.small,hat.word,hat.bitMask,hat.wordsLeft⟩,hblock,rfl,?_,?_⟩
  · rw [Cursor.Takes]
    dsimp only
    rw [hword,hat.word,store_bitmap]
    exact ⟨rfl,fun i => by rw [decide_eq_false (by omega),Bool.or_false]⟩
  · have hending : (if f<(2^32+E-(if (2^32+E-a)%2^32<M then (2^32+E-a)%2^32
          else M))%2^32
        then (f+(if (2^32+E-a)%2^32<M then (2^32+E-a)%2^32 else M))%2^32
        else E)=if M=0 then f else min (f+M) E := by
      split_ifs <;> omega
    rw [blockAllocateAny,hfirst]
    simp only [if_neg hread,hc,hblock,if_neg hlt.ne]
    rw [hending]
    all_goals rfl

lemma exists_run {w : ℕ} (hf : f<w) : ∃ z,f<z ∧ z≤w ∧
    (∀ i,f < i → i<z → v.bit i=false) ∧ (z=w ∨ v.bit z=true) := by
  obtain ⟨z,hz,hleast⟩ : ∃ z,(f<z ∧ (z=w ∨ v.bit z=true)) ∧
      ∀ i<z,¬(f < i ∧ (i=w ∨ v.bit i=true)) := by
    classical
    have hex : ∃ z,f<z ∧ (z=w ∨ v.bit z=true) := ⟨w,hf,.inl rfl⟩
    exact ⟨Nat.find hex,Nat.find_spec hex,fun i hi => Nat.find_min hex hi⟩
  refine ⟨z,hz.1,?_,fun i h1 h2 => ?_,hz.2⟩
  · by_contra hlt
    exact hleast w (Nat.lt_of_not_le hlt) ⟨hf,.inl rfl⟩
  · have := hleast i h2
    rw [not_and_or,not_or] at this
    rcases this with h | ⟨-,h⟩
    · exact absurd h1 h
    · exact Bool.eq_false_iff.mpr h

lemma blockAllocateAny_run (hsearch : ∀ k,search k=readable (a/4096+k))
    (hchange : ∀ k,change k=readable (f/4096+k)) (hle : a≤f) (hlt : f<E) (hE : E<2^32)
    (hset : ∀ i,a ≤ i → i<f → v.bit i=true) (hfree : v.bit f=false)
    (hreadable : ∀ q<E,readable (q/4096)=true) (hM : 0<M) :
    ∃ z,f<z ∧ z ≤ min (f+M) E ∧ (∀ i,f ≤ i → i<z → v.bit i=false) ∧ (z=min (f+M) E ∨ v.bit z=true) ∧
      (v.blockAllocateAny search change a E M).1=.ok (f,z-f) := by
  obtain ⟨c,hat,rfl,hone,htakes,heq⟩ := blockAllocateAny_found change M hsearch
    hle hlt hE hset hfree hreadable
  rw [if_neg hM.ne'] at heq
  obtain ⟨z,hfz,hz,hclear,hstop⟩ := exists_run (v := v) (show c.block < min (c.block+M) E by omega)
  have hclear : ∀ i,c.block ≤ i → i<z → v.bit i=false := fun i h1 h2 => by
    rcases eq_or_lt_of_le h1 with rfl | h1
    · exact hfree
    · exact hclear i h1 h2
  have hreads : c.Reads readable change := ⟨fun k => by
    rw [hone,hchange]
    congr 1
    omega⟩
  refine ⟨z,hfz,hz,hclear,hstop,?_⟩
  obtain ⟨e,he⟩ : ∃ e,e=min (c.block+M) E := ⟨_,rfl⟩
  rw [←he] at hz hstop heq
  have hresult : (allocateFree change e (2^32+e-c.block) v c).1=some z := by
    by_cases hlast : z=e
    · subst hlast
      rcases allocateFree_walk z (2^32+z-c.block) v c hat hreads
        (le_refl _) htakes (show c.block≤z-1 by omega) (by omega) (by omega)
        (fun i h1 h2 => hclear i h1 (by omega)) (fun i h1 h2 => by omega) with
        ⟨-,q,h1,h2,h3,hq⟩ | ⟨v',c',hsame,hat',-,hblock,htakes',-⟩
      · rw [hreadable q (by omega)] at hq
        cases hq
      · rw [hsame,show 2^32+z-c.block-(z-1-c.block)=2^32+1 by omega]
        refine allocateFree_last _ v' c' hat' htakes' ?_ (by omega)
        rw [hblock]
        exact hclear _ (by omega) (by omega)
    · have hused : v.bit z=true := hstop.resolve_left hlast
      rcases allocateFree_walk e (2^32+e-c.block) v c hat hreads
        (le_refl _) htakes hfz.le (by omega) (by omega) hclear (fun i h1 h2 => by omega) with
        ⟨-,q,h1,h2,h3,hq⟩ | ⟨v',c',hsame,hat',-,hblock,htakes',-⟩
      · rw [hreadable q (by omega)] at hq
        cases hq
      · rw [hsame,←hblock]
        exact allocateFree_used _ v' c' hat' htakes' (hblock▸hused)
  rw [heq]
  rcases hr : allocateFree change e (2^32+e-c.block) v c with ⟨r,v'⟩
  rw [hr] at hresult
  cases hresult
  dsimp only
  rw [show (2^32+z-c.block)%2^32=z-c.block by omega]

lemma blockAllocateAny_endless (hsearch : ∀ k,search k=readable (a/4096+k))
    (hchange : ∀ k,change k=readable (f/4096+k)) (hle : a≤f) (hlt : f<E) (hE : E<2^32)
    (hset : ∀ i,a ≤ i → i<f → v.bit i=true) (hfree : v.bit f=false)
    (hreadable : ∀ q<E,readable (q/4096)=true) {z : ℕ} (hfz : f<z) (hz : z<2^32)
    (hclear : ∀ i,f ≤ i → i<z → v.bit i=false) :
    (v.blockAllocateAny search change a E 0).1=.ok (f,z-f) ↔
      v.bit z=true ∧ ∀ q,f<q → q≤z → q%4096=0 → readable (q/4096)=true := by
  obtain ⟨c,hat,rfl,hone,htakes,heq⟩ := blockAllocateAny_found change 0 hsearch
    hle hlt hE hset hfree hreadable
  rw [if_pos rfl] at heq
  have hreads : c.Reads readable change := ⟨fun k => by
    rw [hone,hchange]
    congr 1
    omega⟩
  obtain ⟨n,hn⟩ : ∃ n,n=2^32+c.block-c.block := ⟨_,rfl⟩
  have hresult : (v.blockAllocateAny search change a E 0).1=.ok (c.block,z-c.block) ↔
      ∃ b,(allocateFree change c.block n v c).1=some b ∧ (2^32+b-c.block)%2^32=z-c.block := by
    rw [heq,←hn]
    rcases allocateFree change c.block n v c with ⟨r,v'⟩
    cases r with
    | none => exact ⟨fun h => (by cases h),fun ⟨_,hb,_⟩ => (by cases hb)⟩
    | some b =>
      constructor
      · intro h
        exact ⟨b,rfl,congrArg Prod.snd (Except.ok.inj h)⟩
      · rintro ⟨b',hb',hz'⟩
        cases hb'
        dsimp only
        rw [hz']
  rw [hresult]
  clear hresult
  rcases allocateFree_walk c.block n v c hat hreads (le_refl _) htakes hfz.le hz
    (by omega) hclear (fun i h1 h2 => by omega) with
    ⟨hnone,q,h1,h2,h3,hq⟩ | ⟨v',c',hsame,hat',-,hblock,htakes',hread⟩
  · rw [hnone]
    refine ⟨fun ⟨_,hb,_⟩ => (by cases hb),fun ⟨_,hall⟩ => ?_⟩
    rw [hall q h1 h2 h3] at hq
    cases hq
  rw [hsame]
  constructor
  · rintro ⟨b,hb,hdistance⟩
    refine ⟨?_,hread⟩
    by_contra hclear'
    obtain ⟨j,hj,rfl,hpos⟩ := allocateFree_range _ v' c' hat'.small hb
    have hj0 := hpos (by omega)
      ((htakes'.free_iff hat').mpr (by rw [hblock]; exact Bool.eq_false_iff.mpr hclear'))
    omega
  · rintro ⟨hused,-⟩
    have hstops : (allocateFree change c.block (n-(z-c.block)) v' c').1=some z := by
      rw [←hblock]
      exact allocateFree_used _ v' c' hat' htakes' (hblock▸hused)
    exact ⟨z,hstops,by omega⟩

end Attempt

/-- A success with a non-empty run of free blocks of the volume, not longer than the limit. -/
def FindsFree (v : ExtendedVCB) (limit : ℕ) : Except OSErr (ℕ × ℕ) → Prop
  | .error _ => False
  | .ok (start,num) => 0<num ∧ num≤limit ∧ start+num≤v.totalBlocks ∧
      ∀ i,start ≤ i → i<start+num → v.bit i=false

/-- When a request finds the free block `f`. The block behind the volume begins a bitmap
block that cannot be read only if it is none that is read; and the 32-bit number of blocks
is right, or the run at `f` is as short as it should be. -/
structure AnyFreeOK (v : ExtendedVCB) (readable : ℕ → Bool) (s limit maxBlocks f : ℕ) : Prop where
  near : s≤v.totalBlocks
  behind : f<s → v.totalBlocks%kBitsPerBlock=0 → readable (v.totalBlocks/kBitsPerBlock)=true
  run : (0 < maxBlocks ∧ maxBlocks≤limit) ∨ ∃ z≤v.totalBlocks,f<z ∧ z≤f+limit ∧
    (∀ i,f ≤ i → i<z → v.bit i=false) ∧ (0 < maxBlocks ∧ (v.bit z=true ∨ z=v.totalBlocks) ∨
      v.bit z=true ∧ (z=v.totalBlocks → z%kBitsPerBlock=0 → readable (z/kBitsPerBlock)=true))

lemma attempt_iff {search change : ℕ → Bool} {a E f : ℕ} (M limit : ℕ)
    (hsearch : ∀ k,search k=readable (a/4096+k))
    (hchange : ∀ k,change k=readable (f/4096+k)) (hle : a≤f) (hlt : f<E)
    (hE : E≤v.totalBlocks) (htotal : v.totalBlocks<2^32)
    (hedge : E<v.totalBlocks → v.bit E=true)
    (hset : ∀ i,a ≤ i → i<f → v.bit i=true) (hfree : v.bit f=false)
    (hreadable : ∀ q<v.totalBlocks,readable (q/4096)=true) :
    FindsFree v limit (v.blockAllocateAny search change a E M).1 ↔
      (0<M ∧ M≤limit) ∨ ∃ z≤v.totalBlocks,f<z ∧ z≤f+limit ∧
        (∀ i,f ≤ i → i<z → v.bit i=false) ∧ (0<M ∧ (v.bit z=true ∨ z=v.totalBlocks) ∨
          v.bit z=true ∧ (z=v.totalBlocks → z%4096=0 → readable (z/4096)=true)) := by
  have hreadable' : ∀ q<E,readable (q/4096)=true := fun q hq => hreadable q (by omega)
  rcases Nat.eq_zero_or_pos M with rfl | hM
  · constructor
    · intro h
      obtain ⟨c,hat,hblock,-,-,heq⟩ := blockAllocateAny_found change 0 hsearch hle hlt (by omega) hset
        hfree hreadable'
      rcases hr : (v.blockAllocateAny search change a E 0).1 with e | ⟨p,n⟩
      · rw [hr] at h
        cases h
      rw [hr] at h
      obtain ⟨hpos,hlimit,hin,hclear⟩ := h
      have hp : p=f := by
        rw [heq] at hr
        split at hr
        · cases hr
        · cases hr
          rfl
      subst hp
      have hends := (blockAllocateAny_endless hsearch hchange hle hlt (by omega)
        hset hfree hreadable' (show p<p+n by omega) (by omega) hclear).mp
        (by rw [hr,Nat.add_sub_cancel_left])
      refine .inr ⟨p+n,hin,by omega,by omega,hclear,.inr ⟨hends.1,fun _ => ?_⟩⟩
      exact hends.2 (p+n) (by omega) (Nat.le_refl _)
    · rintro (⟨h0,-⟩ | ⟨z,hz,hfz,hlimit,hclear,⟨h0,-⟩ | ⟨hused,hbehind⟩⟩)
      · exact absurd h0 (Nat.lt_irrefl 0)
      · exact absurd h0 (lt_irrefl 0)
      · have hok := (blockAllocateAny_endless hsearch hchange hle hlt (by omega)
          hset hfree hreadable' hfz (by omega) hclear).mpr ⟨hused,fun q _ hq h4096 => by
            rcases lt_or_ge q v.totalBlocks with hlt | hge
            · exact hreadable q hlt
            · have heq : q=z := by omega
              subst heq
              exact hbehind (by omega) h4096⟩
        rw [hok]
        refine ⟨by omega,by omega,by omega,fun i h1 h2 => hclear i h1 (by omega)⟩
  · obtain ⟨z,hfz,hz,hclear,hstop,hok⟩ := blockAllocateAny_run hsearch hchange hle hlt (by omega) hset
      hfree hreadable' hM
    rw [hok]
    have hiff : FindsFree v limit (.ok (f,z-f)) ↔ z≤f+limit := by
      refine ⟨fun h => ?_,fun h => ⟨by omega,by omega,by omega,fun i h1 h2 => hclear i h1 (by omega)⟩⟩
      have := h.2.1
      omega
    rw [hiff]
    constructor
    · intro hlimit
      rcases lt_or_ge limit M with hmore | hless
      · refine .inr ⟨z,by omega,hfz,hlimit,hclear,.inl ⟨hM,?_⟩⟩
        rcases hstop with hend | hused
        · rcases lt_or_ge E v.totalBlocks with hin | hall
          · have hzE : z=E := by omega
            exact .inl (hzE▸hedge hin)
          · exact .inr (by omega)
        · exact .inl hused
      · exact .inl ⟨hM,hless⟩
    · rintro (⟨-,hless⟩ | ⟨y,hy,hfy,hlimit,hclear',hends⟩)
      · omega
      · by_contra hlong
        rcases hends with ⟨-,hused | hall⟩ | ⟨hused,-⟩
        · rw [hclear y (by omega) (by omega)] at hused
          cases hused
        · omega
        · rw [hclear y (by omega) (by omega)] at hused
          cases hused

lemma blockAllocate_fst {reads : BitmapReads} {startingBlock : ℕ} {bytesRequested bytesMaximum : ℤ}
    (hsome : v.freeBlocks≠0) :
    (v.blockAllocate reads startingBlock bytesRequested bytesMaximum false).1 =
      (v.allocateAny reads (v.hint startingBlock) (fileBytesToBlocks bytesMaximum v.blockSize)).1 := by
  rw [blockAllocate]
  simp only [if_neg hsome,Bool.false_eq_true,false_and,if_false]
  rw [←hint]
  rcases v.allocateAny reads (v.hint startingBlock) (fileBytesToBlocks bytesMaximum v.blockSize)
    with ⟨e | found,v'⟩
  · rfl
  · rfl

lemma blockAllocateAny_beyond (v : ExtendedVCB) (search change : ℕ → Bool) {a E : ℕ} (M : ℕ)
    (h : E<a) : (v.blockAllocateAny search change a E M).1=.error .ioErr ∨
      ∃ n,(v.blockAllocateAny search change a E M).1=.ok (a,n) := by
  rw [blockAllocateAny,Nat.sub_eq_zero_of_le h.le]
  by_cases hread : search 0=false
  · rw [if_pos hread]
    exact .inl rfl
  · simp only [if_neg hread,findFree]
    rw [if_neg (show (v.cursorAt a 1).block≠E from h.ne')]
    split
    · exact .inl rfl
    · exact .inr ⟨_,rfl⟩

lemma attempt_error {search change : ℕ → Bool} {a E M f : ℕ}
    (hsearch : ∀ k,search k=readable (a/4096+k)) (hle : a≤f) (hlt : f<E) (hE : E<2^32)
    (hset : ∀ i,a ≤ i → i<f → v.bit i=true) (hfree : v.bit f=false)
    (hreadable : ∀ q<E,readable (q/4096)=true) :
    (v.blockAllocateAny search change a E M).1≠.error .dskFulErr := by
  obtain ⟨c,-,-,-,-,heq⟩ := blockAllocateAny_found change M hsearch hle hlt hE hset hfree hreadable
  rw [heq]
  split
  · exact fun h => by cases h
  · exact fun h => by cases h

lemma allocateAny_of_ne {reads : BitmapReads} {s M : ℕ}
    (h : (v.blockAllocateAny reads.first reads.change s v.totalBlocks M).1≠.error .dskFulErr) :
    (v.allocateAny reads s M).1 =
      (v.blockAllocateAny reads.first reads.change s v.totalBlocks M).1 := by
  rw [allocateAny]
  rcases hr : v.blockAllocateAny reads.first reads.change s v.totalBlocks M with ⟨e | found,v'⟩
  · dsimp only
    rw [if_neg fun he => h (by rw [hr,he])]
  · rfl

/-- A request that need not be contiguous finds a free block of a volume that has one, and
takes no more than it is to have, just if it starts to look in the volume, does not need the
bitmap block behind the volume, and its number of blocks is right. -/
theorem blockAllocate_finds_iff (v : ExtendedVCB) (readable : ℕ → Bool) (startingBlock : ℕ)
    (bytesRequested bytesMaximum : ℤ) (htotal : v.totalBlocks<2^32)
    (hcount : v.freeBlocks=clearBelow v.bit v.totalBlocks)
    (hfree : ∃ i<v.totalBlocks,v.bit i=false)
    (hreadable : ∀ q<v.totalBlocks,readable (q/kBitsPerBlock)=true) :
    ∃ f,v.firstFree (v.hint startingBlock)=some f ∧ (FindsFree v (blocksOf bytesMaximum v.blockSize)
        (v.blockAllocate (readsFrom readable (v.hint startingBlock) f) startingBlock bytesRequested
          bytesMaximum false).1 ↔
      v.AnyFreeOK readable (v.hint startingBlock) (blocksOf bytesMaximum v.blockSize)
        (fileBytesToBlocks bytesMaximum v.blockSize) f) := by
  obtain ⟨i,hi,hclear⟩ := hfree
  obtain ⟨f,hf⟩ := exists_firstFree (v.hint startingBlock) hi hclear
  refine ⟨f,hf,?_⟩
  obtain ⟨hfree,hft,hscan⟩ := firstFree_spec hf
  have hsome : v.freeBlocks≠0 := by
    rw [hcount]
    rw [clearBelow_eq_card]
    exact Finset.card_ne_zero_of_mem (Finset.mem_filter.mpr ⟨Finset.mem_range.mpr hft,hfree⟩)
  rw [blockAllocate_fst hsome]
  obtain ⟨s,hs⟩ : ∃ s,s=v.hint startingBlock := ⟨_,rfl⟩
  rw [←hs] at hscan ⊢
  have hfirst : ∀ k,(readsFrom readable s f).first k=readable (s/4096+k) := fun k => rfl
  have hsecond : ∀ k,(readsFrom readable s f).second k=readable (0/4096+k) := fun k => by
    rw [Nat.zero_div,Nat.zero_add]
    rfl
  have hchange : ∀ k,(readsFrom readable s f).change k=readable (f/4096+k) := fun k => rfl
  rcases lt_or_ge v.totalBlocks s with hfar | hnear
  · refine iff_of_false (fun h => ?_) fun h => absurd h.near (not_le.mpr hfar)
    rcases blockAllocateAny_beyond v (readsFrom readable s f).first (readsFrom readable s f).change
      (fileBytesToBlocks bytesMaximum v.blockSize) hfar with hio | ⟨n,hok⟩
    · rw [allocateAny_of_ne (by rw [hio]; exact fun h => by cases h),hio] at h
      exact h
    · rw [allocateAny_of_ne (by rw [hok]; exact fun h => by cases h),hok] at h
      have := h.2.2.1
      omega
  rcases hscan with ⟨hsf,hset⟩ | ⟨hfs,hset,hset'⟩
  · rw [allocateAny_of_ne (attempt_error hfirst hsf hft htotal hset hfree hreadable),
      attempt_iff _ _ hfirst hchange hsf hft (le_refl _) htotal
        (fun h => absurd h (lt_irrefl _)) hset hfree hreadable]
    exact ⟨fun h => ⟨hnear,fun hlt => absurd hsf (not_le.mpr hlt),h⟩,fun h => h.run⟩
  · have hfull := blockAllocateAny_full (readsFrom readable s f).change
      (fileBytesToBlocks bytesMaximum v.blockSize) hfirst hnear htotal hset hreadable
    have hiff := attempt_iff (fileBytesToBlocks bytesMaximum v.blockSize)
      (blocksOf bytesMaximum v.blockSize) hsecond hchange (zero_le f) hfs hnear
      htotal (fun h => hset s (le_refl s) h) (fun i _ hi => hset' i hi) hfree hreadable
    by_cases hbehind : v.totalBlocks%4096=0 ∧ readable (v.totalBlocks/4096)=false
    · rw [if_pos hbehind] at hfull
      refine iff_of_false (fun h => ?_) fun h => ?_
      · rw [allocateAny_of_ne (by rw [hfull]; exact fun h => by cases h),hfull] at h
        exact h
      · have := h.behind hfs hbehind.1
        rw [show v.totalBlocks/kBitsPerBlock=v.totalBlocks/4096 from rfl,hbehind.2] at this
        cases this
    · rw [if_neg hbehind] at hfull
      rw [allocateAny,hfull]
      dsimp only
      rw [if_pos rfl,hiff]
      refine ⟨fun h => ⟨hnear,fun _ h4096 => ?_,h⟩,fun h => h.run⟩
      by_contra hno
      exact hbehind ⟨h4096,Bool.eq_false_iff.mpr hno⟩

end

def nearlyFull : ExtendedVCB := ⟨512,4096,1,0,fun j => if j=0 then 0xFBFFFFFF else 0xFFFFFFFF⟩

def firstBlockOnly (j : ℕ) : Bool := decide (j=0)

lemma nearlyFull_count : nearlyFull.freeBlocks=clearBelow nearlyFull.bit nearlyFull.totalBlocks := by
  decide +kernel

lemma nearlyFull_readable (q : ℕ) (hq : q<nearlyFull.totalBlocks) :
    firstBlockOnly (q/kBitsPerBlock)=true :=
  decide_eq_true (div_eq_of_lt hq)

theorem blockAllocate_finds_iff_nearlyFull : ∃ f,nearlyFull.firstFree (nearlyFull.hint 3)=some f ∧
      (FindsFree nearlyFull (blocksOf 512 512)
        (nearlyFull.blockAllocate (readsFrom firstBlockOnly (nearlyFull.hint 3) f) 3 512 512 false).1 ↔
      nearlyFull.AnyFreeOK firstBlockOnly (nearlyFull.hint 3) (blocksOf 512 512)
        (fileBytesToBlocks 512 512) f) :=
  blockAllocate_finds_iff nearlyFull firstBlockOnly 3 512 512 (by decide) nearlyFull_count
    ⟨5,by decide,by decide⟩ nearlyFull_readable

/-- From block 4090 on everything is in use; the scan reads the bitmap block behind the only
one, and the request fails though block 5 is free. -/
theorem nearlyFull_not_found : nearlyFull.bit 5=false ∧
    nearlyFull.firstFree (nearlyFull.hint 4090)=some 5 ∧
    (nearlyFull.blockAllocate (readsFrom firstBlockOnly (nearlyFull.hint 4090) 5) 4090 512 512
      false).1=.error .ioErr := by
  refine ⟨by decide,by decide +kernel,?_⟩
  rw [blockAllocate_fst (by decide),allocateAny_of_ne (by decide)]
  decide

end ExtendedVCB
end Darwin.Hfs
