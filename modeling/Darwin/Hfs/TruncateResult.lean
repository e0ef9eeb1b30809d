import Darwin.Hfs.MapFileBlock

/-! What `TruncateFileC` leaves of a fork, and when its physical length is that of its extents. -/
open List Nat
namespace Darwin.Hfs.Extents
open Lib Catalog

def Consistent (v : Volume) (fcb : FCB) : Prop :=
  fcb.fcbPLen=blocks (extentList v fcb)*v.blockSize

def ceilBlocks (length blockSize : ℕ) : ℕ := (length+blockSize-1)/blockSize

/-- The fork has been cut: its first `n` blocks are where they were, and exactly the volume blocks
of the others have been freed. -/
structure CutAt (v : Volume) (fcb : FCB) (v' : Volume) (fcb' : FCB) (n : ℕ) : Prop where
  blocks : blocks (extentList v' fcb')=n
  kept : ∀ b<n,physicalBlock (extentList v' fcb') b=physicalBlock (extentList v fcb) b
  freed : ∀ i,v'.bit i=true ↔ v.bit i=true ∧ ¬∃ b,n≤b ∧ physicalBlock (extentList v fcb) b=some i
  length : fcb'.fcbPLen=n*v.blockSize

/-- A call either cuts the fork where it has to, or fails with a fork whose physical length is that
of its extents. -/
def Truncates (v : Volume) (fcb : FCB) (peof : ℕ) : Option OSErr × Volume × FCB → Prop
  | (none,v',fcb') => CutAt v fcb v' fcb' (ceilBlocks peof v.blockSize)
  | (some _,v',fcb') => fcb'.fcbPLen=blocks (extentList v' fcb')*v.blockSize

/-- Every access that is needed to cut a fork after `n` blocks succeeds. -/
structure Cuttable (io : DiskAccess) (v : Volume) (fcb : FCB) (n : ℕ) : Prop where
  bitmap : Freeable io v (runsFrom n (extentList v fcb))
  search : blocks fcb.fcbExtents<n → io.find (n-1)=true
  update : ∀ x∈overflowRecords v fcb,x.1<n → n<x.1+blocks x.2 → io.update=true
  records : ∀ x∈overflowRecords v fcb,n≤x.1 → io.find x.1=true ∧ io.delete x.1=true
  last : n=0 → Full fcb.fcbExtents → io.find (blocks (extentList v fcb))=true

def EndsExtent (es : List ExtentDescriptor) (n : ℕ) : Prop :=
  ∃ before after,es=before++after ∧ blocks before=n

/-- The extents file cannot be read at a point where the fork is as it should be: before anything
has changed, or when there are no more records. -/
def LookupFails (io : DiskAccess) (v : Volume) (fcb : FCB) (n : ℕ) : Prop :=
  0<n ∧ (n=blocks (extentList v fcb) ∧ blocks fcb.fcbExtents<n ∧ io.find (n-1)=false ∨
    n<blocks (extentList v fcb) ∧ (∃ x∈overflowRecords v fcb,n≤x.1) ∧
      io.find (blocks (extentList v fcb))=false)

section Dealloc
variable {v : Volume} {fcb : FCB} {io : DiskAccess}

lemma WellFormed.pos_of_full (h : WellFormed v fcb) (hfull : Full fcb.fcbExtents) :
    0<blocks fcb.fcbExtents := by
  have hlength := h.length.1
  cases hes : fcb.fcbExtents with
  | nil =>
    rw [hes] at hlength
    cases hsig : v.vcbSigWord with
    | kHFSSigWord =>
      rw [hsig] at hlength
      cases hlength
    | kHFSPlusSigWord =>
      rw [hsig] at hlength
      cases hlength
  | cons d ds =>
    have := hfull d (by rw [hes]; exact mem_cons_self)
    rw [blocks_cons]
    omega

lemma Chain.pos {n : ℕ} {rs : List (ℕ × ExtentRecord)} (h : Chain n rs) {x : ℕ × ExtentRecord}
    (hx : x∈rs) : 0<blocks x.2 := by
  induction rs generalizing n with
  | nil => cases hx
  | cons a rs ih =>
    obtain ⟨-,-,hpos,-,hrest⟩ := h
    rcases mem_cons.mp hx with rfl | hx
    · exact hpos
    · exact ih hrest hx

lemma WellFormed.record_le (h : WellFormed v fcb) {x : ℕ × ExtentRecord}
    (hx : x∈overflowRecords v fcb) : x.1<blocks (extentList v fcb) := by
  have hpos := h.chain.pos hx
  have hend := h.chain.end_le hx
  rw [blocks_extentList]
  omega

lemma WellFormed.cuttable_of_empty (h : WellFormed v fcb) (hempty : blocks (extentList v fcb)=0) :
    Cuttable io v fcb 0 := by
  have hnone : ∀ x,x∉overflowRecords v fcb := by
    intro x hx
    have := h.record_le hx
    omega
  refine ⟨?_,fun hlt => absurd hlt (not_lt_zero _),fun x hx => absurd hx (hnone x),
    fun x hx => absurd hx (hnone x),fun _ hfull => ?_⟩
  · rw [runsFrom_zero]
    intro d hd
    rw [sum_eq_zero_iff.mp hempty _ (mem_map.mpr ⟨d,hd,rfl⟩),ExtendedVCB.blockDeallocate,if_pos rfl]
  · have := h.pos_of_full hfull
    rw [blocks_extentList] at hempty
    omega

variable (io) in
lemma deallocateFork_spec (h : WellFormed v fcb) (hin : ∀ d∈extentList v fcb,Inside d)
    {r : Option OSErr × Volume} (hr : r=io.DeallocateFork v fcb) :
    (Cuttable io v fcb 0 → ∃ v',r=(none,v') ∧ overflowRecords v' fcb=[] ∧
      Frees v v' (extentList v fcb)) ∧
    (¬Cuttable io v fcb 0 → ∃ err v',r=(some err,v') ∧ 0<blocks fcb.fcbExtents) := by
  have hlimit := fabnLimit_le v.vcbSigWord
  have hsmall := h.small
  have htotal : blocks (extentList v fcb)=_ := blocks_extentList
  have hinfcb : ∀ d∈fcb.fcbExtents,Inside d := fun d hd =>
    hin d (mem_append_left _ hd)
  have hinover : ∀ x∈overflowRecords v fcb,∀ d∈x.2,Inside d := fun x hx d hd =>
    hin d (mem_append_right _ (mem_flatMap.mpr ⟨x,hx,hd⟩))
  have hfreeable : Freeable io v (runsFrom 0 (extentList v fcb)) ↔
      Freeable io v fcb.fcbExtents ∧ Freeable io v ((overflowRecords v fcb).flatMap Prod.snd) := by
    rw [runsFrom_zero,extentList,freeable_append]
  have hpos := h.pos_of_full
  obtain ⟨hgood,hbad⟩ := releaseExtents_spec io v h.packed hinfcb v 0 (by omega)
  rw [DiskAccess.DeallocateFork] at hr
  by_cases hfree : Freeable io v fcb.fcbExtents
  swap
  · obtain ⟨n,b,v1,hv1,-⟩ := hbad hfree
    rw [hv1] at hr
    refine ⟨fun hcut => absurd (hfreeable.mp hcut.bitmap).1 hfree,fun _ => ⟨_,v1,hr,?_⟩⟩
    exact pos_of_ne_zero fun hzero => hfree (freeable_of_blocks hzero)
  obtain ⟨b,v1,hv1,hb,hsame1,hfrees1⟩ := hgood hfree
  rw [hv1,zero_add] at hr
  dsimp only at hr
  by_cases hfull : Full fcb.fcbExtents
  swap
  · have hnil : overflowRecords v fcb=[] := by
      by_contra hne
      exact hfull (h.full hne)
    rw [if_pos (by rw [←Bool.not_eq_false]; exact fun hf => hfull (hb.mp hf))] at hr
    refine ⟨fun _ => ⟨v1,hr,hsame1.overflowRecords.trans hnil,?_⟩,fun hnot => ?_⟩
    · rw [extentList,hnil,flatMap_nil,append_nil]
      exact hfrees1
    · refine absurd ⟨?_,fun hlt => absurd hlt (not_lt_zero _),fun x hx => ?_,fun x hx => ?_,
        fun _ hf => absurd hf hfull⟩ hnot
      · rw [hfreeable,hnil]
        exact ⟨hfree,forall_mem_nil _⟩
      · rw [hnil] at hx
        cases hx
      · rw [hnil] at hx
        cases hx
  rw [hb.mpr hfull,if_neg Bool.false_ne_true,DiskAccess.TruncateExtents] at hr
  have hsig1 : v1.vcbSigWord=v.vcbSigWord := by
    obtain ⟨w,rfl⟩ := hsame1
    rfl
  have hfuel : (overflowRecords v fcb).length<v1.extents.entries.length+1 := by
    rw [←hsame1.overflowRecords,overflowRecords,length_map]
    exact Nat.lt_succ_of_le (length_filter_le _ _)
  obtain ⟨hgood',hbad'⟩ := truncateLoop_spec io v [] (overflowRecords v fcb)
    (v1.extents.entries.length+1) v1 (blocks fcb.fcbExtents) hsame1.overflowRecords
    (forall_mem_nil _) h.chain (by rw [hsig1]; omega) hinover hfuel
  rw [←hr,←htotal] at hgood'
  rw [←hr] at hbad'
  by_cases hremove : Removable io v (overflowRecords v fcb)
  · obtain ⟨hrecords,hfree'⟩ := removable_iff.mp hremove
    obtain ⟨err,v2,hv2,herr,hnil,hfrees2⟩ := hgood' hremove
    by_cases hlast : io.find (blocks (extentList v fcb))=true
    · rw [herr.mpr hlast] at hv2
      refine ⟨fun _ => ⟨v2,hv2,hnil,?_⟩,fun hnot => absurd ⟨hfreeable.mpr ⟨hfree,hfree'⟩,
        fun hlt => absurd hlt (not_lt_zero _),fun x _ hlt => absurd hlt (not_lt_zero _),
        fun x hx _ => hrecords x hx,fun _ _ => hlast⟩ hnot⟩
      rw [extentList]
      exact hfrees1.trans hfrees2
    · refine ⟨fun hcut => absurd (hcut.last rfl hfull) hlast,fun _ => ?_⟩
      cases err with
      | none => exact absurd (herr.mp rfl) hlast
      | some err => exact ⟨err,v2,hv2,hpos hfull⟩
  · obtain ⟨v2,rs,hv2,-,-⟩ := hbad' hremove
    refine ⟨fun hcut => absurd (removable_iff.mpr ⟨fun x hx => hcut.records x hx (zero_le _),
      (hfreeable.mp hcut.bitmap).2⟩) hremove,fun _ => ⟨_,v2,hv2,hpos hfull⟩⟩

end Dealloc

section Truncate
variable {v : Volume} {fcb : FCB} {b : ℕ} {io : DiskAccess} {key : Option ExtentKey}
variable {first xs ys : List ExtentDescriptor} {e : ExtentDescriptor}
variable {post : List (ℕ × ExtentRecord)}

lemma Chain.end_le_of_lt {n : ℕ} {rs : List (ℕ × ExtentRecord)} (h : Chain n rs)
    {x y : ℕ × ExtentRecord} (hx : x∈rs) (hy : y∈rs) (hlt : x.1<y.1) : x.1+blocks x.2≤y.1 := by
  rcases h.apart hx hy hlt.le with rfl | hle
  · exact absurd hlt (lt_irrefl _)
  · exact hle

lemma Located.mem_post_iff (h : Located v fcb b key first xs ys e post) (hwf : WellFormed v fcb)
    {n : ℕ} (hn : b<n) (hend : n≤blocks (first++(xs++e::ys))) {x : ℕ × ExtentRecord} :
    x∈post ↔ x∈overflowRecords v fcb ∧ n≤x.1 := by
  obtain ⟨pre,hpre,hbefore,-⟩ := h.ends
  constructor
  · intro hx
    exact ⟨hpre▸mem_append_right _ hx,hend.trans (h.chain.le_of_mem hx)⟩
  · rintro ⟨hx,hge⟩
    rw [hpre] at hx
    rcases mem_append.mp hx with hx | hx
    · have := hbefore x hx
      rcases h.key_eq with ⟨-,hfcb,rfl⟩ | ⟨-,pre',hrecords,-,hbefore'⟩
      · have hchain := hwf.chain
        rw [hpre] at hchain
        have hle := hchain.le_of_mem (mem_append_left _ hx)
        rw [hfcb] at hle
        rw [nil_append] at this
        omega
      · have hsplit : pre=pre'++[(blocks first,xs++e::ys)] := by
          rw [hrecords] at hpre
          have heq : pre++post=(pre'++[(blocks first,xs++e::ys)])++post := by
            rw [←hpre,append_assoc]
            rfl
          exact append_cancel_right heq
        have hfirst := h.le
        rw [blocks_append] at hfirst
        rw [hsplit] at hx
        rcases mem_append.mp hx with hx | hx
        · have := hbefore' x hx
          omega
        · rw [mem_singleton.mp hx] at hge
          dsimp only at hge
          omega
    · exact hx

lemma Located.cutOK_iff (h : Located v fcb b key first xs ys e post) (hwf : WellFormed v fcb)
    {n : ℕ} (hn : b<n) (hend : n≤blocks (first++(xs++e::ys))) :
    CutOK io v fcb n key (blocks (first++(xs++e::ys))) post ∧
        (blocks fcb.fcbExtents<n → io.find (n-1)=true) ↔ Cuttable io v fcb n := by
  have hfirst := h.le
  rw [blocks_append] at hfirst
  have hpos : n≠0 := by omega
  constructor
  · rintro ⟨⟨hbitmap,hupdate,hrecords⟩,hsearch⟩
    refine ⟨hbitmap,hsearch,fun x hx hlt hgt => ?_,
      fun x hx hge => hrecords x ((h.mem_post_iff hwf hn hend).mpr ⟨hx,hge⟩),
      fun hzero => absurd hzero hpos⟩
    rcases h.key_eq with ⟨-,hfcb,rfl⟩ | ⟨rfl,pre,hrecs,-,hbefore⟩
    · have hle := hwf.chain.le_of_mem hx
      rw [hfcb] at hle
      rw [nil_append] at hend
      omega
    · have hmem : (blocks first,xs++e::ys)∈overflowRecords v fcb := by
        rw [hrecs]
        exact mem_append_right _ mem_cons_self
      have hx' := hx
      rw [hrecs] at hx'
      rcases mem_append.mp hx' with hx' | hx'
      · have hle := hwf.chain.end_le_of_lt hx hmem (hbefore x hx')
        dsimp only at hle
        omega
      · rcases mem_cons.mp hx' with rfl | hx'
        · rw [←blocks_append] at hgt
          exact (hupdate hgt).resolve_left (by simp)
        · have hle := h.chain.le_of_mem hx'
          omega
  · rintro ⟨hbitmap,hsearch,hupdate,hrecords,-⟩
    refine ⟨⟨hbitmap,fun hlt => ?_,fun x hx => ?_⟩,hsearch⟩
    · rcases h.key_eq with ⟨rfl,-,-⟩ | ⟨-,pre,hrecs,-,-⟩
      · exact .inl rfl
      · refine .inr (hupdate (blocks first,xs++e::ys) ?_ ?_ ?_)
        · rw [hrecs]
          exact mem_append_right _ mem_cons_self
        · dsimp only
          omega
        · dsimp only
          rw [←blocks_append]
          exact hlt
    · obtain ⟨hmem,hge⟩ := (h.mem_post_iff hwf hn hend).mp hx
      exact hrecords x hmem hge

lemma Located.endsExtent_iff (h : Located v fcb b key first xs ys e post) :
    EndsExtent (extentList v fcb) (b+1) ↔ b+1=blocks (first++xs)+e.blockCount := by
  have hle := h.le
  have hlt := h.lt
  have hL : extentList v fcb=(first++xs)++(e::(ys++post.flatMap Prod.snd)) := by
    rw [h.ends.extentList]
    simp
  constructor
  · rintro ⟨before,after,heq,hblocks⟩
    rw [hL] at heq
    rcases append_eq_append_iff.mp heq with ⟨mid,hmid,htail⟩ | ⟨mid,hmid,htail⟩
    · cases mid with
      | nil =>
        rw [append_nil] at hmid
        rw [hmid] at hblocks
        omega
      | cons d mid =>
        obtain ⟨rfl,-⟩ := List.cons.inj htail
        rw [hmid,blocks_append,blocks_cons] at hblocks
        omega
    · have hsum : blocks (first++xs)=blocks before+blocks mid := by rw [hmid,blocks_append]
      omega
  · intro heq
    refine ⟨(first++xs)++[e],ys++post.flatMap Prod.snd,?_,?_⟩
    · rw [hL]
      simp
    · rw [blocks_append,blocks_cons,blocks_nil,heq]
      omega

variable {r : Option OSErr × Volume × FCB}

lemma CutDone.truncates_iff {n N peof : ℕ}
    (h : CutDone io v {fcb with fcbPLen := N*v.blockSize} n post r) (hbs : 0<v.blockSize) :
    Truncates v fcb peof r ↔ (post=[] ∨ io.find (blocks (extentList v fcb))=true) ∧
        n=ceilBlocks peof v.blockSize ∧ N=n ∨
      ¬(post=[] ∨ io.find (blocks (extentList v fcb))=true) ∧ N=n := by
  obtain ⟨err,v',fcb',rfl,⟨es,rfl⟩,hblocks,hkept,hfrees,herr⟩ := h
  change err=none ↔ post=[] ∨ io.find (blocks (extentList v fcb))=true at herr
  cases err with
  | none =>
    have hknown := herr.mp rfl
    rw [Truncates]
    constructor
    · rintro ⟨hb,-,-,hlen⟩
      refine .inl ⟨hknown,hblocks.symm.trans hb,?_⟩
      have := eq_of_mul_eq_mul_right hbs hlen
      exact this.trans (hb.symm.trans hblocks)
    · rintro (⟨-,rfl,rfl⟩ | ⟨hnot,-⟩)
      · refine ⟨hblocks,hkept,fun i => ?_,rfl⟩
        rw [hfrees.bits,mem_blockSet_runsFrom]
        rfl
      · exact absurd hknown hnot
  | some err =>
    have hunknown : ¬(post=[] ∨ io.find (blocks (extentList v fcb))=true) := fun hk => by
      cases herr.mpr hk
    rw [Truncates,hblocks]
    constructor
    · exact fun hlen => .inr ⟨hunknown,eq_of_mul_eq_mul_right hbs hlen⟩
    · rintro (⟨hknown,-⟩ | ⟨-,rfl⟩)
      · exact absurd hknown hunknown
      · rfl

lemma WellFormed.withLength (h : WellFormed v fcb) {length : ℕ}
    (hle : length≤blocks (extentList v fcb)*v.blockSize) :
    WellFormed v {fcb with fcbPLen := length} :=
  ⟨h.sector,h.length,h.packed,h.full,h.chain,h.small,hle,h.fits⟩

lemma cuttable_withLength {length n : ℕ} :
    Cuttable io v {fcb with fcbPLen := length} n ↔ Cuttable io v fcb n :=
  ⟨fun h => ⟨h.bitmap,h.search,h.update,h.records,h.last⟩,
    fun h => ⟨h.bitmap,h.search,h.update,h.records,h.last⟩⟩

lemma truncates_zero_iff (h : WellFormed v fcb) (hin : ∀ d∈extentList v fcb,Inside d)
    (peof : ℕ)
    (hr : r=match io.DeallocateFork v {fcb with fcbPLen := 0} with
      | (some err,v) => (some err,v,{fcb with fcbPLen := 0})
      | (none,v) => (none,v,{ fcb with
        fcbPLen := 0
        fcbExtents := fcb.fcbExtents.map fun _ => ⟨0,0⟩})) :
    Truncates v fcb peof r ↔ ceilBlocks peof v.blockSize=0 ∧ Cuttable io v fcb 0 := by
  obtain ⟨hgood,hbad⟩ := deallocateFork_spec io (h.withLength (zero_le _)) hin rfl
  rw [cuttable_withLength] at hgood hbad
  by_cases hcut : Cuttable io v fcb 0
  · obtain ⟨v',hv',hnil,hfrees⟩ := hgood hcut
    rw [hv'] at hr
    have hzero : blocks (extentList v' { fcb with
        fcbPLen := 0
        fcbExtents := fcb.fcbExtents.map fun _ => ⟨0,0⟩})=0 := by
      rw [blocks_extentList]
      have hrecords : overflowRecords v' { fcb with
          fcbPLen := 0
          fcbExtents := fcb.fcbExtents.map fun _ => ⟨0,0⟩}=[] := hnil
      rw [hrecords,flatMap_nil,blocks_nil,add_zero]
      refine blocks_of_empty fun d hd => ?_
      obtain ⟨_,-,rfl⟩ := mem_map.mp hd
      rfl
    rw [hr,Truncates,and_iff_left hcut]
    constructor
    · exact fun hat => hat.blocks.symm.trans hzero
    · intro hceil
      rw [hceil]
      refine ⟨hzero,fun b hb => absurd hb (not_lt_zero b),fun i => ?_,(zero_mul _).symm⟩
      rw [hfrees.bits]
      refine and_congr Iff.rfl (not_congr ?_)
      rw [←runsFrom_zero (extentList v _),mem_blockSet_runsFrom]
      rfl
  · obtain ⟨err,v',hv',hpos⟩ := hbad hcut
    rw [hv'] at hr
    rw [hr,Truncates]
    refine iff_of_false (fun hlen => ?_) fun hand => hcut hand.2
    have hsum : blocks (extentList v' {fcb with fcbPLen := 0})=_ := blocks_extentList
    rcases Nat.mul_eq_zero.mp hlen.symm with hb | hb
    · rw [hb] at hsum
      dsimp only at hsum hpos
      omega
    · exact absurd h.sector.1 (by omega)

lemma CutFailed.not_truncates {n nextBlock peof : ℕ}
    (h : CutFailed {fcb with fcbPLen := nextBlock*v.blockSize} n r) (hbs : 0<v.blockSize)
    (hge : nextBlock≤n) : ¬Truncates v fcb peof r := by
  obtain ⟨err,v',fcb',rfl,⟨es,rfl⟩,hmore⟩ := h
  intro htrunc
  have := eq_of_mul_eq_mul_right hbs htrunc
  omega

variable (io) in
lemma Located.lookupFails_iff {nextBlock length : ℕ} (h : WellFormed v fcb)
    (h1 : WellFormed v {fcb with fcbPLen := length})
    (hloc : Located v {fcb with fcbPLen := length} b key first xs ys e post) (hb : b<nextBlock)
    (hend : nextBlock≤blocks (first++(xs++e::ys)))
    (hread : blocks fcb.fcbExtents<nextBlock → io.find (nextBlock-1)=true) :
    LookupFails io v fcb nextBlock ↔ ¬(post=[] ∨ io.find (blocks (extentList v fcb))=true) := by
  constructor
  · rintro ⟨-,⟨-,hneed,hnot⟩ | ⟨-,⟨x,hx,hge⟩,hnot⟩⟩
    · rw [hread hneed] at hnot
      cases hnot
    · rintro (hnil | hfound)
      · have hmem := (hloc.mem_post_iff h1 hb hend).mpr ⟨hx,hge⟩
        rw [hnil] at hmem
        cases hmem
      · rw [hfound] at hnot
        cases hnot
  · intro hnot
    obtain ⟨hne,hnot⟩ := not_or.mp hnot
    obtain ⟨x,hx⟩ := exists_mem_of_ne_nil post hne
    obtain ⟨hmem,hge⟩ := (hloc.mem_post_iff h1 hb hend).mp hx
    have hlt := h.record_le hmem
    exact ⟨by omega,.inr ⟨by omega,⟨x,hmem,hge⟩,by simpa using hnot⟩⟩

lemma Located.truncates_iff {nextBlock peof : ℕ} (h : WellFormed v fcb)
    (hin : ∀ d∈extentList v fcb,Inside d) (hzero : nextBlock≠0)
    (hle : nextBlock≤blocks (extentList v fcb))
    (hloc : Located v {fcb with fcbPLen := nextBlock*v.blockSize} (nextBlock-1) key first xs
      ys e post)
    (hread : blocks fcb.fcbExtents<nextBlock → io.find (nextBlock-1)=true)
    (truncateToExtent : Bool) {r : Option OSErr × Volume × FCB}
    (hr : r=io.cutRecord v {fcb with fcbPLen := nextBlock*v.blockSize}
      ⟨none,key,xs++e::ys,xs.length,blocks (first++xs)+e.blockCount⟩ nextBlock
      (blocks (extentList v fcb)) truncateToExtent) : Truncates v fcb peof r ↔
      (nextBlock=ceilBlocks peof v.blockSize ∨ LookupFails io v fcb nextBlock) ∧
        (nextBlock=blocks (extentList v fcb) ∨
          nextBlock<blocks (extentList v fcb) ∧ Cuttable io v fcb nextBlock ∧
            (truncateToExtent=true → EndsExtent (extentList v fcb) nextBlock)) := by
  have hbs : 0<v.blockSize := h.sector.1
  have hlimit := fabnLimit_le v.vcbSigWord
  have hsmall := h.small
  have hone : nextBlock-1+1=nextBlock := succ_pred_eq_of_ne_zero hzero
  have h1 := h.withLength (mul_le_mul_right v.blockSize hle)
  have hfirst := hloc.le
  have hbelow := hloc.lt
  have hend : blocks (first++(xs++e::ys))=blocks (first++xs)+e.blockCount+blocks ys := by
    rw [←append_assoc,blocks_append,blocks_cons]
    omega
  have htotal : blocks (extentList v fcb) =
      blocks (first++(xs++e::ys))+blocks (post.flatMap Prod.snd) := by
    rw [←blocks_append]
    exact congrArg blocks hloc.ends.extentList
  -- how many blocks of the extent stay
  obtain ⟨m,hm⟩ : ∃ m,m=if truncateToExtent then e.blockCount else
    nextBlock-blocks (first++xs) := ⟨_,rfl⟩
  have hmle : 0 < m ∧ m≤e.blockCount := by
    rw [hm]
    split_ifs <;> omega
  have hnum : (if truncateToExtent then 0 else
      (2^32+(blocks (first++xs)+e.blockCount)-nextBlock)%2^32)=e.blockCount-m := by
    rw [hm]
    split_ifs <;> omega
  have hends : nextBlock=blocks (first++xs)+m ↔
      (truncateToExtent=true → EndsExtent (extentList v fcb) nextBlock) := by
    have hiff := hloc.endsExtent_iff
    rw [hone] at hiff
    rw [hm]
    split_ifs with hte
    · exact ⟨fun heq _ => hiff.mpr heq,fun himp => hiff.mp (himp hte)⟩
    · exact iff_of_true (by omega) fun htrue => absurd htrue hte
  have hge : nextBlock≤blocks (first++xs)+m := by
    rw [hm]
    split_ifs <;> omega
  obtain ⟨hgood,hbad⟩ := cutRecord_spec hloc hin hsmall hmle.1 hmle.2 truncateToExtent hnum hr
  by_cases hsame : nextBlock=blocks (first++xs)+m
  swap
  · -- a whole extent is kept, of which the cut is not the end
    refine iff_of_false (fun htrunc => ?_) ?_
    · by_cases hok : CutOK io v {fcb with fcbPLen := nextBlock*v.blockSize}
        (blocks (first++xs)+m) key (blocks (first++(xs++e::ys))) post
      · rcases ((hgood hok).truncates_iff hbs).mp htrunc with ⟨-,-,heq⟩ | ⟨-,heq⟩
        · exact hsame heq
        · exact hsame heq
      · exact (hbad hok).not_truncates hbs hge htrunc
    · rintro ⟨-,heq | ⟨-,-,hte⟩⟩
      · omega
      · exact hsame (hends.mpr hte)
  rw [←hsame] at hgood hbad
  have hcut : CutOK io v {fcb with fcbPLen := nextBlock*v.blockSize} nextBlock key
      (blocks (first++(xs++e::ys))) post ↔ Cuttable io v fcb nextBlock := by
    rw [←cuttable_withLength,←hloc.cutOK_iff h1 (by omega) (by omega)]
    exact (and_iff_left hread).symm
  by_cases hok : CutOK io v {fcb with fcbPLen := nextBlock*v.blockSize} nextBlock key
    (blocks (first++(xs++e::ys))) post
  · have hall : nextBlock=blocks (extentList v fcb) ∨
        nextBlock<blocks (extentList v fcb) ∧ Cuttable io v fcb nextBlock ∧
          (truncateToExtent=true → EndsExtent (extentList v fcb) nextBlock) := by
      rcases eq_or_lt_of_le hle with heq | hlt'
      · exact .inl heq
      · exact .inr ⟨hlt',hcut.mp hok,hends.mp hsame⟩
    have hlook := hloc.lookupFails_iff io h h1 (by omega) (by omega) hread
    rw [(hgood hok).truncates_iff hbs,and_iff_left hall,hlook]
    by_cases hknown : post=[] ∨ io.find (blocks (extentList v fcb))=true
    · simp only [hknown,true_and,not_true_eq_false,or_false,and_true]
    · simp only [hknown,false_and,not_false_eq_true,and_self,or_true]
  · refine iff_of_false ((hbad hok).not_truncates hbs (le_refl _)) ?_
    · rintro ⟨-,heq | ⟨-,hcut',-⟩⟩
      · refine hok ⟨?_,fun hlt' => ?_,fun x hx => ?_⟩
        · exact freeable_of_empty (blockCount_runsFrom heq.ge)
        · omega
        · obtain ⟨hmem,hge'⟩ := (hloc.mem_post_iff h1 (by omega) (by omega)).mp hx
          have := h.record_le hmem
          omega
      · exact hok (hcut.mpr hcut')

end Truncate

lemma fileBytesToBlocks_mul_add {q d r : ℕ} (hq : q<2^32) (hr : r<d) :
    ExtendedVCB.fileBytesToBlocks ((q*d+r : ℕ) : ℤ) d =
      if r=0 ∧ q*d<2^32 then q else (q+1)%2^32 := by
  have hdiv : (q*d+r)/d=q := by
    rw [add_comm,add_mul_div_right _ _ (zero_lt_of_lt hr),div_eq_of_lt hr,zero_add]
  have hquotient : ((q : ℤ)%2^32).toNat=q := by omega
  rw [ExtendedVCB.fileBytesToBlocks,←Int.ofNat_tdiv,hdiv,hquotient]
  generalize q*d=p
  split_ifs with hne h h <;> first | rfl | omega

lemma ceilBlocks_mul_add {q d r : ℕ} (hr : r<d) :
    ceilBlocks (q*d+r) d=if r=0 then q else q+1 := by
  have hd : 0<d := zero_lt_of_lt hr
  rw [ceilBlocks,show q*d+r+d-1=r+d-1+q*d by omega,add_mul_div_right _ _ hd]
  split_ifs with h0
  · rw [h0,zero_add,div_eq_of_lt (by omega),zero_add]
  · rw [show r+d-1=r-1+1*d by omega,add_mul_div_right _ _ hd,
      div_eq_of_lt (by omega),zero_add,add_comm]

lemma ceilBlocks_le {n d m : ℕ} (hd : 0<d) (h : n ≤ m*d) : ceilBlocks n d ≤ m := by
  refine le_of_lt_succ ((div_lt_iff_lt_mul hd).mpr ?_)
  rw [succ_mul]
  omega

/-- The number of blocks is rounded up wrongly exactly for whole numbers of blocks from 4 GB on:
the product that is to show a remainder has 32 bits only. -/
lemma fileBytesToBlocks_eq_iff {n d : ℕ} (hd : 0<d) (hfits : ceilBlocks n d<2^32) :
    ExtendedVCB.fileBytesToBlocks n d=ceilBlocks n d ↔ ¬(2^32≤n ∧ d ∣ n) := by
  obtain ⟨q,r,hr,rfl⟩ : ∃ q r,r<d ∧ n=q*d+r :=
    ⟨n/d,n%d,mod_lt n hd,(div_add_mod' n d).symm⟩
  rw [ceilBlocks_mul_add hr] at hfits
  have hq : q<2^32 := by split_ifs at hfits <;> omega
  have hdvd : d ∣ q*d+r ↔ r=0 := by
    rw [Nat.dvd_add_right (Nat.dvd_mul_left d q)]
    exact ⟨fun h => Nat.eq_zero_of_dvd_of_lt h hr,fun h => h▸Nat.dvd_zero d⟩
  rw [ceilBlocks_mul_add hr,fileBytesToBlocks_mul_add hq hr,hdvd]
  split_ifs at hfits ⊢ <;> omega

lemma truncateFileC_truncates {v : Volume} {fcb : FCB} (h : WellFormed v fcb)
    (hc : Consistent v fcb) (hin : ∀ d∈extentList v fcb,Inside d) (io : DiskAccess) (peof : ℕ)
    (truncateToExtent : Bool) {nextBlock : ℕ}
    (hnext : nextBlock=ExtendedVCB.fileBytesToBlocks peof v.blockSize) :
    Truncates v fcb peof (io.TruncateFileC v fcb peof truncateToExtent) ↔
      v.vcbSigWord=.kHFSSigWord ∧ 2^31≤nextBlock*v.blockSize ∨
      (nextBlock=ceilBlocks peof v.blockSize ∨ LookupFails io v fcb nextBlock) ∧
        (nextBlock=blocks (extentList v fcb) ∨
          nextBlock<blocks (extentList v fcb) ∧ Cuttable io v fcb nextBlock ∧
            (truncateToExtent=true → EndsExtent (extentList v fcb) nextBlock)) := by
  have hbs : 0<v.blockSize := h.sector.1
  have hlimit := fabnLimit_le v.vcbSigWord
  have hsmall := h.small
  have hlt : nextBlock<2^32 := by
    rw [hnext,ExtendedVCB.fileBytesToBlocks]
    split_ifs <;> omega
  have hphys : fcb.fcbPLen/v.blockSize%2^32=blocks (extentList v fcb) := by
    rw [hc,Nat.mul_div_cancel _ hbs,Nat.mod_eq_of_lt (by omega)]
  obtain ⟨r,hr⟩ : ∃ r,r=io.TruncateFileC v fcb peof truncateToExtent := ⟨_,rfl⟩
  rw [←hr]
  rw [DiskAccess.TruncateFileC,hphys,←hnext] at hr
  by_cases hbound : v.vcbSigWord=.kHFSSigWord ∧ 2^31≤nextBlock*v.blockSize
  · rw [if_pos hbound] at hr
    rw [hr]
    exact iff_of_true hc (.inl hbound)
  rw [if_neg hbound] at hr
  rw [or_iff_right hbound]
  by_cases hzero : nextBlock=0
  · rw [hzero,zero_mul,if_pos rfl] at hr
    rw [truncates_zero_iff h hin peof hr,hzero,or_iff_left fun hlook => lt_irrefl 0 hlook.1,
      eq_comm]
    refine and_congr Iff.rfl ⟨fun hcut => ?_,?_⟩
    · rcases Nat.eq_zero_or_pos (blocks (extentList v fcb)) with heq | hlt'
      · exact .inl heq.symm
      · exact .inr ⟨hlt',hcut,fun _ => ⟨[],_,rfl,rfl⟩⟩
    · rintro (heq | ⟨-,hcut,-⟩)
      · exact h.cuttable_of_empty heq.symm
      · exact hcut
  have hpos : nextBlock*v.blockSize≠0 := mul_ne_zero hzero (ne_of_gt hbs)
  have hblock : (nextBlock*v.blockSize-1)/v.blockSize%2^32=nextBlock-1 := by
    obtain ⟨k,rfl⟩ := exists_eq_succ_of_ne_zero hzero
    rw [Nat.succ_mul,Nat.add_sub_assoc hbs,Nat.add_comm,Nat.add_mul_div_right _ _ hbs,
      Nat.div_eq_of_lt (by omega),Nat.zero_add,Nat.mod_eq_of_lt (by omega)]
    rfl
  rw [if_neg hpos] at hr
  dsimp only at hr
  rw [hblock] at hr
  -- the fork is unchanged and its length is not
  have hfailed : ∀ err,r=(some err,v,{fcb with fcbPLen := nextBlock*v.blockSize}) →
      (Truncates v fcb peof r ↔ nextBlock=blocks (extentList v fcb)) := by
    intro err hfail
    rw [hfail,Truncates]
    exact ⟨fun hlen => eq_of_mul_eq_mul_right hbs hlen,
      fun heq => congrArg (fun n => n*v.blockSize) heq⟩
  rcases lt_or_ge (blocks (extentList v fcb)) nextBlock with hbeyond | hle
  · have hnot : (SearchExtentFile v {fcb with fcbPLen := nextBlock*v.blockSize}
        (nextBlock*v.blockSize-1)).err=some .fxRangeErr :=
      searchExtentFile_not_found h (by rw [hblock]; omega)
    have hfail : ∃ err,r=(some err,v,{fcb with fcbPLen := nextBlock*v.blockSize}) := by
      split_ifs at hr
      · exact ⟨_,hr⟩
      · rw [hnot] at hr
        exact ⟨_,hr⟩
    obtain ⟨err,hfail⟩ := hfail
    rw [hfailed err hfail]
    refine iff_of_false (by omega) ?_
    rintro ⟨-,heq | ⟨hlt',-⟩⟩ <;> omega
  obtain ⟨key,first,xs,ys,e,post,hloc,hsearch,hneeds⟩ :=
    searchExtentFile_located (h.withLength (mul_le_mul_right _ hle)) hblock
      (show nextBlock-1<blocks (extentList v fcb) by omega)
  change DiskAccess.needsRecord _ _=true ↔ blocks fcb.fcbExtents≤nextBlock-1 at hneeds
  by_cases hfind : DiskAccess.needsRecord {fcb with fcbPLen := nextBlock*v.blockSize}
      (nextBlock-1)=true ∧ io.find (nextBlock-1)=false
  · have hneed : blocks fcb.fcbExtents<nextBlock := by
      have := hneeds.mp hfind.1
      omega
    rw [if_pos hfind] at hr
    rw [hfailed _ hr]
    refine ⟨fun heq => ⟨.inr ⟨by omega,.inl ⟨heq,hneed,hfind.2⟩⟩,.inl heq⟩,?_⟩
    rintro ⟨-,heq | ⟨-,hcut,-⟩⟩
    · exact heq
    · have hread := hcut.search hneed
      rw [hfind.2] at hread
      cases hread
  have hread : blocks fcb.fcbExtents<nextBlock → io.find (nextBlock-1)=true := by
    intro hneed
    by_contra hnot
    exact hfind ⟨hneeds.mpr (by omega),by simpa using hnot⟩
  rw [if_neg hfind,hsearch] at hr
  dsimp only at hr
  exact hloc.truncates_iff h hin hzero hle hread truncateToExtent hr

/-- `TruncateFileC` on a fork whose physical length is that of its extents, for a length not beyond
it, with any reads of the bitmap and any accesses to the extents file failing. It cuts the fork
where it has to, or fails with a fork whose physical length is that of its extents, exactly if: it
refuses a length of 2 GB on an HFS volume; or the length is not a whole number of blocks from 4 GB
on (or a look-up fails while the fork is as it should be), and there is nothing to cut off, or
else every access that is needed succeeds and, where whole extents are kept, the cut is at the end
of one. -/
theorem truncateFileC_truncates_iff {v : Volume} {fcb : FCB} (h : WellFormed v fcb)
    (hc : Consistent v fcb) (hin : ∀ d∈extentList v fcb,Inside d) (io : DiskAccess) {peof : ℕ}
    (hpeof : peof≤fcb.fcbPLen) (truncateToExtent : Bool) {nextBlock : ℕ}
    (hnext : nextBlock=ExtendedVCB.fileBytesToBlocks peof v.blockSize) :
    Truncates v fcb peof (io.TruncateFileC v fcb peof truncateToExtent) ↔
      v.vcbSigWord=.kHFSSigWord ∧ 2^31≤nextBlock*v.blockSize ∨
      (¬(2^32≤peof ∧ v.blockSize ∣ peof) ∨ LookupFails io v fcb nextBlock) ∧
        (nextBlock=blocks (extentList v fcb) ∨
          nextBlock<blocks (extentList v fcb) ∧ Cuttable io v fcb nextBlock ∧
            (truncateToExtent=true → EndsExtent (extentList v fcb) nextBlock)) := by
  have hceil : ceilBlocks peof v.blockSize≤blocks (extentList v fcb) :=
    ceilBlocks_le h.sector.1 (hpeof.trans h.pLen)
  rw [truncateFileC_truncates h hc hin io peof truncateToExtent hnext,hnext,
    fileBytesToBlocks_eq_iff h.sector.1
      (hceil.trans_lt (h.small.trans_le (fabnLimit_le v.vcbSigWord)))]

def DiskAccess.all (ok : Bool) : DiskAccess := ⟨fun _ => ok,ok,fun _ => ok,fun _ _ => ok⟩

theorem oneBlockFile_truncates : Truncates smallVolume oneBlockFile 100
    ((DiskAccess.all true).TruncateFileC smallVolume oneBlockFile 100 false) := by
  refine (truncateFileC_truncates_iff oneBlockFile_wellFormed rfl ?_ _ ?_ _ rfl).mpr
    (.inr ⟨.inl ?_,.inl ?_⟩)
  · rintro d hd
    rw [show extentList smallVolume oneBlockFile=⟨7,1⟩::replicate 7 ⟨0,0⟩ from rfl] at hd
    rcases mem_cons.mp hd with rfl | hd
    · rw [Inside]
      decide
    · rw [eq_of_mem_replicate hd,Inside]
      decide
  · decide
  · decide
  · decide

/-- The bitmap cannot be read, so that the block of the file is not freed: the length is 0 then,
and the extents still have the block. -/
theorem oneBlockFile_not_truncates : ¬Truncates smallVolume oneBlockFile 0
    ((DiskAccess.all false).TruncateFileC smallVolume oneBlockFile 0 false) := by
  intro h
  have hlength : 0=1*512 := h
  omega

end Darwin.Hfs.Extents
