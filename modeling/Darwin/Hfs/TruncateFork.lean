import Darwin.Hfs.TruncateFile

/-! How `TruncateFileC` cuts a fork: the record with the last block to keep is found, cut and
written, and the records behind it are removed. -/
open List Nat
namespace Darwin.Hfs.Extents
open Lib Catalog

/-- The extents of a fork are `es` and then those of the records `post`, which begin with file
block `next`. -/
def Ends (v : Volume) (fcb : FCB) (es : List ExtentDescriptor) (post : List (ℕ × ExtentRecord))
    (next : ℕ) : Prop :=
  ∃ pre,overflowRecords v fcb=pre++post ∧ (∀ x∈pre,x.1<next) ∧
    fcb.fcbExtents++pre.flatMap Prod.snd=es

def SameFork (fcb fcb' : FCB) : Prop := ∃ es,fcb'={fcb with fcbExtents := es}

/-- `SearchExtentFile` has found a block: in the extent `e` of a record, with `xs` before and `ys`
behind it in that record, `first` in the records before and `post` in those behind. -/
structure Located (v : Volume) (fcb : FCB) (b : ℕ) (key : Option ExtentKey)
    (first xs ys : List ExtentDescriptor) (e : ExtentDescriptor)
    (post : List (ℕ × ExtentRecord)) : Prop where
  ends : Ends v fcb (first++(xs++e::ys)) post (blocks (first++(xs++e::ys)))
  le : blocks (first++xs)≤b
  lt : b<blocks (first++xs)+e.blockCount
  packed : Packed (xs++e::ys)
  chain : Chain (blocks (first++(xs++e::ys))) post
  key_eq : key=none ∧ fcb.fcbExtents=xs++e::ys ∧ first=[] ∨
    key=some (overflowKey fcb (blocks first)) ∧ ∃ pre,
      overflowRecords v fcb=pre++(blocks first,xs++e::ys)::post ∧
      first=fcb.fcbExtents++pre.flatMap Prod.snd ∧ ∀ x∈pre,x.1<blocks first

section Located
variable {v v' : Volume} {fcb : FCB} {b : ℕ} {io : DiskAccess}

lemma Ends.extentList {es : List ExtentDescriptor} {post : List (ℕ × ExtentRecord)} {next : ℕ}
    (h : Ends v fcb es post next) : extentList v fcb=es++post.flatMap Prod.snd := by
  obtain ⟨pre,hrecords,-,hes⟩ := h
  rw [Extents.extentList,hrecords,flatMap_append,←append_assoc,hes]

lemma searchExtentFile_located (h : WellFormed v fcb) {filePosition : ℕ}
    (hb : filePosition/v.blockSize%2^32=b) (hlt : b<blocks (extentList v fcb)) :
    ∃ key first xs ys e post,Located v fcb b key first xs ys e post ∧
      SearchExtentFile v fcb filePosition =
        ⟨none,key,xs++e::ys,xs.length,blocks (first++xs)+e.blockCount⟩ ∧
      (DiskAccess.needsRecord fcb b=true ↔ blocks fcb.fcbExtents≤b) := by
  have hsmall := h.small.trans_le (fabnLimit_le v.vcbSigWord)
  have htotal : blocks (extentList v fcb)=_ := blocks_extentList
  rw [SearchExtentFile,hb,DiskAccess.needsRecord]
  dsimp only
  rw [SearchExtentRecord]
  rcases lt_or_ge b (blocks fcb.fcbExtents) with hfcb | hover
  · obtain ⟨xs,e,ys,heq,hle,hlt',hres⟩ := searchLoop_found h.packed 0 0 (by omega)
      (zero_le b) (by omega)
    rw [hres]
    refine ⟨none,[],xs,ys,e,overflowRecords v fcb,⟨⟨[],rfl,forall_mem_nil _,?_⟩,?_,?_,?_,?_,
      .inl ⟨rfl,heq,rfl⟩⟩,?_,iff_of_false (by simp) (by omega)⟩
    · rw [heq]
      simp
    · simpa using hle
    · simpa using hlt'
    · rw [←heq]
      exact h.packed
    · rw [nil_append,←heq]
      exact h.chain
    · simp [heq,RecordSearch.err]
  · obtain ⟨hfound,-,hmore⟩ := searchLoop_not_found h.packed 0 0 (b := b) (by omega) (by omega)
    have hfull : Full fcb.fcbExtents := by
      by_contra hnot
      rw [h.blocks_of_not_full hnot] at hlt
      omega
    rw [hfound,hmore.mpr hfull]
    obtain ⟨pre,k,r,post,hrs,hk,hkb,hbk⟩ := h.chain.find hover (by omega)
    have hmem : (k,r)∈overflowRecords v fcb := by
      rw [hrs]
      exact mem_append_right _ mem_cons_self
    have hend := h.chain.end_le hmem
    rw [find_eq h.chain hmem hkb hbk (hlt.trans h.small)]
    obtain ⟨xs,e,ys,heq,hle,hlt',hres⟩ := searchLoop_found (h.chain.packed hmem) 0 k
      (by dsimp only at hend ⊢; omega) hkb hbk
    dsimp only at heq hres
    have hchain := h.chain
    rw [hrs] at hchain
    obtain ⟨-,hbefore,hbehind,hpacked,hpos,-,hpost⟩ := hchain.sides
    have hfirst : blocks (fcb.fcbExtents++pre.flatMap Prod.snd)=k := by rw [blocks_append,hk]
    refine ⟨some (overflowKey fcb k),fcb.fcbExtents++pre.flatMap Prod.snd,xs,ys,e,post,
      ⟨⟨pre++[(k,r)],?_,?_,?_⟩,?_,?_,?_,?_,.inr ⟨by rw [hfirst],pre,?_,rfl,?_⟩⟩,?_,
      iff_of_true rfl hover⟩
    · rw [hrs,append_assoc]
      rfl
    · intro x hx
      rw [blocks_append,hfirst,←heq]
      rcases mem_append.mp hx with hx | hx
      · have := hbefore x hx
        omega
      · rw [mem_singleton.mp hx]
        dsimp only
        omega
    · rw [flatMap_append,heq]
      simp
    · rw [blocks_append,hfirst]
      exact hle
    · rw [blocks_append,hfirst]
      exact hlt'
    · rw [←heq]
      exact hpacked
    · rw [blocks_append,hfirst,←heq]
      exact hpost
    · rw [hfirst,←heq]
      exact hrs
    · rw [hfirst]
      exact hbefore
    · simp only [Bool.false_eq_true,or_self,if_false,ExtentKey.startBlock,ofLex_toLex,hres,
        SearchExtentRecord,blocks_append]
      rw [←blocks_append,hfirst,←heq]
      simp [RecordSearch.err,overflowKey]

lemma searchExtentFile_found (h : WellFormed v fcb) {filePosition : ℕ}
    (hb : filePosition/v.blockSize%2^32=b) (hlt : b<blocks (extentList v fcb)) :
    ∃ before e behind,extentList v fcb=before++e::behind ∧ blocks before≤b ∧
      b<blocks before+e.blockCount ∧ (SearchExtentFile v fcb filePosition).err=none ∧
      (SearchExtentFile v fcb filePosition).foundExtentData[
        (SearchExtentFile v fcb filePosition).foundExtentIndex]?=some e ∧
      (SearchExtentFile v fcb filePosition).endingFABNPlusOne=blocks before+e.blockCount := by
  obtain ⟨key,first,xs,ys,e,post,hloc,hsearch,-⟩ := searchExtentFile_located h hb hlt
  rw [hsearch]
  refine ⟨first++xs,e,ys++post.flatMap Prod.snd,?_,hloc.le,hloc.lt,rfl,?_,rfl⟩
  · simp [hloc.ends.extentList]
  · simp

variable (io) in
lemma Located.update {key : Option ExtentKey} {first xs ys : List ExtentDescriptor}
    {e : ExtentDescriptor} {post : List (ℕ × ExtentRecord)}
    (h : Located v fcb b key first xs ys e post) (hsame : SameExtents v v')
    (data : ExtentRecord) :
    (key=none ∨ io.update=true → ∃ v2 fcb',io.UpdateExtentRecord v' fcb key data =
      (none,v2,fcb') ∧ v2.toExtendedVCB=v'.toExtendedVCB ∧ v2.vcbSigWord=v.vcbSigWord ∧
      SameFork fcb fcb' ∧ Ends v2 fcb' (first++data) post (blocks (first++(xs++e::ys)))) ∧
    (¬(key=none ∨ io.update=true) →
      io.UpdateExtentRecord v' fcb key data=(some .ioErr,v',fcb)) := by
  rcases h.key_eq with ⟨rfl,hfcb,rfl⟩ | ⟨rfl,pre,hrecords,hfirst,hbefore⟩
  · refine ⟨fun _ => ⟨v',_,rfl,rfl,?_,⟨data,rfl⟩,?_⟩,fun hnot => absurd (.inl rfl) hnot⟩
    · obtain ⟨w,rfl⟩ := hsame
      rfl
    · obtain ⟨pre,hpre,hlt,hes⟩ := h.ends
      have hnil : pre.flatMap Prod.snd=[] := by
        rw [hfcb] at hes
        exact append_right_eq_self.mp hes
      refine ⟨pre,?_,hlt,?_⟩
      · rw [←hpre,←hsame.overflowRecords]
        rfl
      · rw [hnil]
        simp
  · rw [DiskAccess.UpdateExtentRecord]
    by_cases hupdate : io.update=true
    · refine ⟨fun _ => ?_,fun hnot => absurd (.inr hupdate) hnot⟩
      rw [if_neg (by simp [hupdate])]
      have hrecords' : overflowRecords v' fcb=pre++(blocks first,xs++e::ys)::post := by
        rw [hsame.overflowRecords,hrecords]
      refine ⟨_,fcb,rfl,rfl,?_,⟨_,rfl⟩,pre++[(blocks first,data)],?_,?_,?_⟩
      · obtain ⟨w,rfl⟩ := hsame
        rfl
      · rw [overflowRecords_put (r := xs++e::ys)
          (by rw [hrecords']; exact mem_append_right _ mem_cons_self),hrecords',
          map_sides hbefore,append_assoc]
        · rfl
        · intro x hx
          have hge := h.chain.le_of_mem hx
          have hpos : 0<blocks (xs++e::ys) := by
            have h1 := h.le
            have h2 := h.lt
            rw [blocks_append,blocks_cons]
            omega
          rw [blocks_append] at hge
          omega
      · intro x hx
        have h1 := h.le
        have h2 := h.lt
        rw [blocks_append,blocks_append,blocks_cons]
        rcases mem_append.mp hx with hx | hx
        · have := hbefore x hx
          omega
        · rw [mem_singleton.mp hx]
          dsimp only
          omega
      · rw [flatMap_append,hfirst]
        simp
    · refine ⟨fun hor => hor.elim (fun hnone => by cases hnone) fun h => absurd h hupdate,
        fun _ => ?_⟩
      rw [if_pos (by simpa using hupdate)]

end Located

section Cut
variable {v v' : Volume} {fcb : FCB} {b : ℕ} {io : DiskAccess} {e : ExtentDescriptor}
variable {es es' : List ExtentDescriptor} {post : List (ℕ × ExtentRecord)}

lemma freeable_append : Freeable io v (es++es') ↔ Freeable io v es ∧ Freeable io v es' :=
  forall_mem_append

lemma removable_iff : Removable io v post ↔ (∀ x∈post,io.find x.1=true ∧ io.delete x.1=true) ∧
      Freeable io v (post.flatMap Prod.snd) := by
  constructor
  · refine fun h => ⟨fun x hx => ⟨(h x hx).1,(h x hx).2.1⟩,fun d hd => ?_⟩
    obtain ⟨x,hx,hd⟩ := mem_flatMap.mp hd
    exact (h x hx).2.2 d hd
  · exact fun h x hx => ⟨(h.1 x hx).1,(h.1 x hx).2,fun d hd =>
      h.2 d (mem_flatMap.mpr ⟨x,hx,hd⟩)⟩

variable (io) in
lemma shorten_spec {m : ℕ} (hm : 0 < m) (hle : m≤e.blockCount) (hin : Inside e) (v0 v : Volume) :
    ((v0.blockDeallocate (io.bitmap (e.startBlock+m)) (e.startBlock+m) (e.blockCount-m)).1=none →
      ∃ v',io.shorten v e (e.blockCount-m)=(none,⟨e.startBlock,m⟩,v') ∧ SameExtents v v' ∧
        Frees v v' [⟨e.startBlock+m,e.blockCount-m⟩]) ∧
    ((v0.blockDeallocate (io.bitmap (e.startBlock+m)) (e.startBlock+m) (e.blockCount-m)).1≠none →
      ∃ e' v',io.shorten v e (e.blockCount-m)=(some .ioErr,e',v') ∧ SameExtents v v') := by
  rw [DiskAccess.shorten]
  rw [Inside] at hin
  by_cases hzero : e.blockCount-m=0
  · have hcount : e.blockCount=m := by omega
    rw [if_pos hzero]
    refine ⟨fun _ => ⟨v,?_,⟨_,rfl⟩,Frees.refl v fun d hd => ?_⟩,fun hnot => absurd ?_ hnot⟩
    · rw [←hcount]
    · rw [mem_singleton.mp hd,hzero]
    · rw [ExtendedVCB.blockDeallocate,if_pos hzero]
  rw [if_neg hzero,
    show e.startBlock+e.blockCount-(e.blockCount-m)=e.startBlock+m by omega]
  refine ⟨fun h => ?_,fun h => ?_⟩
  · obtain ⟨v',hv',hsame,hfrees⟩ := blockDeallocate_frees (v := v)
      (show e.startBlock+m+(e.blockCount-m)+32≤2^32 by omega) v0 h
    refine ⟨v',?_,hsame,hfrees⟩
    rw [hv']
    dsimp only
    rw [show e.blockCount-(e.blockCount-m)=m by omega,if_neg (ne_of_gt hm)]
  · obtain ⟨w,hw⟩ := blockDeallocate_fails (v := v) v0 h
    rw [hw]
    exact ⟨e,_,rfl,w,rfl⟩

lemma physicalBlock_cut {first xs ys zs : List ExtentDescriptor} {m : ℕ} (hle : m≤e.blockCount)
    (hb : b<blocks (first++xs)+m) : physicalBlock (first++(xs++⟨e.startBlock,m⟩::zs)) b =
      physicalBlock (first++(xs++e::ys)) b := by
  rw [←append_assoc,←append_assoc]
  rcases lt_or_ge b (blocks (first++xs)) with hlt | hge
  · rw [physicalBlock_append_left hlt,physicalBlock_append_left hlt]
  · rw [physicalBlock_extent hge hb,physicalBlock_extent hge (by omega)]

lemma runsFrom_cut (first xs ys : List ExtentDescriptor) {m : ℕ} (hle : m≤e.blockCount)
    (zs : List ExtentDescriptor) : ∃ empty,(∀ d∈empty,d.blockCount=0) ∧
      runsFrom (blocks (first++xs)+m) (first++(xs++e::ys)++zs) =
        empty++([⟨e.startBlock+m,e.blockCount-m⟩]++(ys++zs)) := by
  refine ⟨runsFrom (blocks (first++xs)+m) (first++xs),blockCount_runsFrom (by omega),?_⟩
  rw [show first++(xs++e::ys)++zs=first++xs++(e::(ys++zs)) by simp,runsFrom_append,
    Nat.add_sub_cancel_left,runsFrom,Nat.min_eq_left hle,Nat.sub_eq_zero_of_le hle,runsFrom_zero]
  rfl

/-- The steps of a cut after `n` blocks succeed: the bitmap can be read, the record with the cut
be written, and those behind it be found and deleted. -/
structure CutOK (io : DiskAccess) (v : Volume) (fcb : FCB) (n : ℕ) (key : Option ExtentKey)
    (recordEnd : ℕ) (post : List (ℕ × ExtentRecord)) : Prop where
  bitmap : Freeable io v (runsFrom n (extentList v fcb))
  update : n<recordEnd → key=none ∨ io.update=true
  records : ∀ x∈post,io.find x.1=true ∧ io.delete x.1=true

/-- A call that has cut a fork after `n` blocks, and that perhaps did not get to know that there are
no more records. -/
def CutDone (io : DiskAccess) (v : Volume) (fcb : FCB) (n : ℕ) (post : List (ℕ × ExtentRecord))
    (r : Option OSErr × Volume × FCB) : Prop :=
  ∃ err v' fcb',r=(err,v',fcb') ∧ SameFork fcb fcb' ∧ blocks (extentList v' fcb')=n ∧
    (∀ b<n,physicalBlock (extentList v' fcb') b=physicalBlock (extentList v fcb) b) ∧
    Frees v v' (runsFrom n (extentList v fcb)) ∧
    (err=none ↔ post=[] ∨ io.find (blocks (extentList v fcb))=true)

def CutFailed (fcb : FCB) (n : ℕ) (r : Option OSErr × Volume × FCB) : Prop :=
  ∃ err v' fcb',r=(some err,v',fcb') ∧ SameFork fcb fcb' ∧ n<blocks (extentList v' fcb')

lemma removeFollowing_spec {next total : ℕ} (v0 : Volume) (hends : Ends v fcb es post next)
    (hchain : Chain next post) (htotal : next+blocks (post.flatMap Prod.snd)=total)
    (hsmall : total<v.vcbSigWord.fabnLimit) (hin : ∀ x∈post,∀ d∈x.2,Inside d)
    {r : Option OSErr × Volume × FCB}
    (hr : r=if next<total then
      ((io.TruncateExtents v fcb.forkType fcb.fileID next).1,
        (io.TruncateExtents v fcb.forkType fcb.fileID next).2,fcb) else (none,v,fcb)) :
    (Removable io v0 post → ∃ err v',r=(err,v',fcb) ∧ extentList v' fcb=es ∧
      Frees v v' (post.flatMap Prod.snd) ∧ (err=none ↔ post=[] ∨ io.find total=true)) ∧
    (¬Removable io v0 post → ∃ v',r=(some .ioErr,v',fcb) ∧
      blocks es<blocks (extentList v' fcb)) := by
  obtain ⟨pre,hrecords,hbefore,hes⟩ := hends
  rcases post with - | ⟨⟨k,d⟩,post⟩
  · rw [flatMap_nil,blocks_nil,add_zero] at htotal
    rw [if_neg (by omega)] at hr
    refine ⟨fun _ => ⟨none,v,hr,?_,Frees.refl v (forall_mem_nil _),
      iff_of_true rfl (.inl rfl)⟩,fun hnot => absurd (forall_mem_nil _) hnot⟩
    rw [extentList,hrecords,append_nil,hes]
  · have hpos : 0<blocks d := hchain.2.2.1
    rw [if_pos (by rw [flatMap_cons,blocks_append] at htotal; dsimp only at htotal; omega),
      DiskAccess.TruncateExtents] at hr
    have hfuel : ((k,d)::post).length<v.extents.entries.length+1 := by
      have hlen : (overflowRecords v fcb).length≤v.extents.entries.length := by
        rw [overflowRecords,length_map]
        exact length_filter_le _ _
      rw [hrecords,length_append] at hlen
      omega
    obtain ⟨hgood,hbad⟩ := truncateLoop_spec io v0 pre ((k,d)::post)
      (v.extents.entries.length+1) v next hrecords hbefore hchain (by omega) hin hfuel
    refine ⟨fun h => ?_,fun hnot => ?_⟩
    · obtain ⟨err,v',hv',herr,hrecords',hfrees⟩ := hgood h
      rw [hv'] at hr
      refine ⟨err,v',hr,?_,hfrees,?_⟩
      · rw [extentList,hrecords',hes]
      · rw [herr,htotal]
        simp
    · obtain ⟨v',rs,hv',hrecords',hstay⟩ := hbad hnot
      rw [hv'] at hr
      refine ⟨v',hr,?_⟩
      rw [extentList,hrecords',flatMap_append,←append_assoc,hes,blocks_append]
      omega

lemma Frees.of_vcb {v2 : Volume} (h : Frees v v' es) (hvcb : v.toExtendedVCB=v2.toExtendedVCB) :
    Frees v2 v' es := by
  obtain ⟨hsame,hbits⟩ := h
  rw [hvcb] at hsame hbits
  exact ⟨hsame,hbits⟩

lemma SameExtents.extentList (h : SameExtents v v') :
    extentList v' fcb=Extents.extentList v fcb := by
  rw [Extents.extentList,h.overflowRecords,Extents.extentList]

lemma freeable_of_blocks (h : blocks es=0) : Freeable io v es :=
  freeable_of_empty fun d hd =>
    sum_eq_zero_iff.mp h _ (mem_map.mpr ⟨d,hd,rfl⟩)

lemma cutRecord_spec {key : Option ExtentKey} {first xs ys : List ExtentDescriptor}
    (h : Located v fcb b key first xs ys e post) (hin : ∀ d∈extentList v fcb,Inside d)
    (hsmall : blocks (extentList v fcb)<v.vcbSigWord.fabnLimit) {m : ℕ} (hm : 0 < m)
    (hle : m≤e.blockCount) (truncateToExtent : Bool) {nextBlock : ℕ}
    (hnum : (if truncateToExtent then 0 else
      (2^32+(blocks (first++xs)+e.blockCount)-nextBlock)%2^32)=e.blockCount-m)
    {r : Option OSErr × Volume × FCB}
    (hr : r=io.cutRecord v fcb
      ⟨none,key,xs++e::ys,xs.length,blocks (first++xs)+e.blockCount⟩ nextBlock
      (blocks (extentList v fcb)) truncateToExtent) :
    (CutOK io v fcb (blocks (first++xs)+m) key (blocks (first++(xs++e::ys))) post →
      CutDone io v fcb (blocks (first++xs)+m) post r) ∧
    (¬CutOK io v fcb (blocks (first++xs)+m) key (blocks (first++(xs++e::ys))) post →
      CutFailed fcb (blocks (first++xs)+m) r) := by
  have hL := h.ends.extentList
  obtain ⟨empty,hempty,hruns⟩ := runsFrom_cut first xs ys hle (post.flatMap Prod.snd)
  rw [←hL] at hruns
  have hlimit := fabnLimit_le v.vcbSigWord
  have hend : blocks (first++(xs++e::ys))=blocks (first++xs)+e.blockCount+blocks ys := by
    rw [←append_assoc,blocks_append,blocks_cons]
    omega
  have htotal : blocks (extentList v fcb) =
      blocks (first++xs)+e.blockCount+blocks ys+blocks (post.flatMap Prod.snd) := by
    rw [hL,blocks_append,hend]
  have hfreeable : Freeable io v (runsFrom (blocks (first++xs)+m) (extentList v fcb)) ↔
      (v.blockDeallocate (io.bitmap (e.startBlock+m)) (e.startBlock+m)
        (e.blockCount-m)).1=none ∧ Freeable io v ys ∧ Freeable io v (post.flatMap Prod.snd) := by
    rw [hruns,freeable_append,freeable_append,freeable_append,
      and_iff_right (freeable_of_empty hempty)]
    exact and_congr forall_mem_singleton Iff.rfl
  have hine : Inside e := hin e (by rw [hL]; simp)
  have hinys : ∀ d∈ys,Inside d := fun d hd => hin d (by rw [hL]; simp [hd])
  have hinpost : ∀ x∈post,∀ d∈x.2,Inside d := fun x hx d hd => hin d (by
    rw [hL]
    exact mem_append_right _ (mem_flatMap.mpr ⟨x,hx,hd⟩))
  have hpys : Packed ys := ((pairwise_append.mp h.packed).2.1).tail
  rw [DiskAccess.cutRecord] at hr
  have hget : (xs++e::ys).getD xs.length ⟨0,0⟩=e := by simp
  have hdrop : (xs++e::ys).drop (xs.length+1)=ys := by simp
  have htake : (xs++e::ys).take xs.length=xs := take_left
  simp only [hget,hdrop,htake,hnum] at hr
  obtain ⟨hshorten,hshorten'⟩ := shorten_spec io hm hle hine v v
  by_cases hfirst : (v.blockDeallocate (io.bitmap (e.startBlock+m)) (e.startBlock+m)
    (e.blockCount-m)).1=none
  swap
  · obtain ⟨e',v1,hv1,hsame1⟩ := hshorten' hfirst
    simp only [hv1] at hr
    refine ⟨fun hcut => absurd (hfreeable.mp hcut.bitmap).1 hfirst,fun _ =>
      ⟨_,v1,fcb,hr,⟨_,rfl⟩,?_⟩⟩
    have hne : e.blockCount-m≠0 := by
      intro hzero
      rw [ExtendedVCB.blockDeallocate,if_pos hzero] at hfirst
      exact hfirst rfl
    rw [hsame1.extentList,htotal]
    omega
  obtain ⟨v1,hv1,hsame1,hfrees1⟩ := hshorten hfirst
  simp only [hv1] at hr
  obtain ⟨hfollow,hfollow'⟩ := releaseFollowing_spec io v hpys hinys v1
    (blocks (first++xs)+e.blockCount) (by omega)
  by_cases hys : Freeable io v ys
  swap
  · obtain ⟨zs,k,v2,hv2,hsame2⟩ := hfollow' hys
    simp only [hv2] at hr
    refine ⟨fun hcut => absurd (hfreeable.mp hcut.bitmap).2.1 hys,fun _ =>
      ⟨_,v2,fcb,hr,⟨_,rfl⟩,?_⟩⟩
    have hne : blocks ys≠0 := fun hzero => hys (freeable_of_blocks hzero)
    rw [(hsame1.trans hsame2).extentList,htotal]
    omega
  obtain ⟨zs,v2,hv2,hlength,hzs,hsame2,hfrees2⟩ := hfollow hys
  have hsame := hsame1.trans hsame2
  simp only [hv2] at hr
  rw [←hend] at hr
  have hsig2 : v2.vcbSigWord=v.vcbSigWord := by
    obtain ⟨w,rfl⟩ := hsame
    rfl
  -- from where the record has been cut and the records behind it are still there
  have hfinish : ∀ v3 fcb3 es,SameFork fcb fcb3 → v3.toExtendedVCB=v2.toExtendedVCB →
      v3.vcbSigWord=v.vcbSigWord → Ends v3 fcb3 es post (blocks (first++(xs++e::ys))) →
      blocks es=blocks (first++xs)+m → (∀ c<blocks (first++xs)+m,
        physicalBlock es c=physicalBlock (first++(xs++e::ys)) c) →
      (blocks (first++xs)+m<blocks (first++(xs++e::ys)) → key=none ∨ io.update=true) →
      (r=if blocks (first++(xs++e::ys))<blocks (extentList v fcb) then
        ((io.TruncateExtents v3 fcb3.forkType fcb3.fileID (blocks (first++(xs++e::ys)))).1,
          (io.TruncateExtents v3 fcb3.forkType fcb3.fileID (blocks (first++(xs++e::ys)))).2,
          fcb3) else (none,v3,fcb3)) →
      (CutOK io v fcb (blocks (first++xs)+m) key (blocks (first++(xs++e::ys))) post →
        CutDone io v fcb (blocks (first++xs)+m) post r) ∧
      (¬CutOK io v fcb (blocks (first++xs)+m) key (blocks (first++(xs++e::ys))) post →
        CutFailed fcb (blocks (first++xs)+m) r) := by
    intro v3 fcb3 es hfork hvcb hsig3 hends hblocks hphys hupdate hr
    obtain ⟨hgood,hbad⟩ := removeFollowing_spec v hends h.chain (by rw [htotal,hend])
      (hsig3▸hsmall) hinpost hr
    refine ⟨fun hcut => ?_,fun hnot => ?_⟩
    · obtain ⟨err,v4,hr4,hext,hfrees4,herr⟩ :=
        hgood (removable_iff.mpr ⟨hcut.records,(hfreeable.mp hcut.bitmap).2.2⟩)
      refine ⟨err,v4,fcb3,hr4,hfork,by rw [hext,hblocks],fun c hc => ?_,?_,herr⟩
      · rw [hext,hphys c hc,hL,
          physicalBlock_append_left (show c<blocks (first++(xs++e::ys)) by omega)]
      · rw [hruns]
        exact (Frees.refl v hempty).trans (hfrees1.trans (hfrees2.trans (hfrees4.of_vcb hvcb)))
    · have hstay : ¬Removable io v post := fun hremove =>
        hnot ⟨hfreeable.mpr ⟨hfirst,hys,(removable_iff.mp hremove).2⟩,hupdate,
          (removable_iff.mp hremove).1⟩
      obtain ⟨v4,hr4,hlt⟩ := hbad hstay
      exact ⟨_,v4,fcb3,hr4,hfork,hblocks▸hlt⟩
  by_cases hchanged : blocks (first++xs)+m<blocks (first++(xs++e::ys))
  · have hdec : decide (e.blockCount-m≠0 ∨
        blocks (first++(xs++e::ys))≠blocks (first++xs)+e.blockCount)=true :=
      decide_eq_true (by omega)
    simp only [hdec,if_true] at hr
    obtain ⟨hwrite,hwrite'⟩ := h.update io hsame (xs++⟨e.startBlock,m⟩::zs)
    by_cases hupdate : key=none ∨ io.update=true
    · obtain ⟨v3,fcb3,hv3,hvcb,hsig,hfork,hends⟩ := hwrite hupdate
      simp only [hv3] at hr
      refine hfinish v3 fcb3 _ hfork hvcb hsig hends ?_ (fun c hc => physicalBlock_cut hle hc)
        (fun _ => hupdate) hr
      rw [←append_assoc,blocks_append,blocks_cons,blocks_of_empty hzs]
      rfl
    · simp only [hwrite' hupdate] at hr
      refine ⟨fun hcut => absurd (hcut.update hchanged) hupdate,fun _ =>
        ⟨_,v2,fcb,hr,⟨_,rfl⟩,?_⟩⟩
      rw [hsame.extentList,htotal]
      omega
  · have hdec : decide (e.blockCount-m≠0 ∨
        blocks (first++(xs++e::ys))≠blocks (first++xs)+e.blockCount)=false :=
      decide_eq_false (by omega)
    simp only [hdec,Bool.false_eq_true,if_false] at hr
    refine hfinish v2 fcb _ ⟨_,rfl⟩ rfl hsig2 ?_ (by omega) (fun c _ => rfl)
      (fun hlt => absurd hlt hchanged) hr
    obtain ⟨pre,hpre,hbefore,hes⟩ := h.ends
    exact ⟨pre,hsame.overflowRecords.trans hpre,hbefore,hes⟩

end Cut

end Darwin.Hfs.Extents
