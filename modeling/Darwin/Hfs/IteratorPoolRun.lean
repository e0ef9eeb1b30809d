import Darwin.Hfs.IteratorPool
import Mathlib.Data.List.Induction

/-! Runs of calls on the pool of catalog iterators: the order of the iterators, and who has the
buffer for a long name. -/
open Option List
namespace Darwin.Hfs.IteratorPool
open Function Darwin.Lib DoubleList CatalogCacheGlobals

variable {V : Type} {isHFSPlus : V → Bool} {g g' : CatalogCacheGlobals V}
  {d : DoubleList ℕ} {i : ℕ}

/-- One list through the pool in both directions, from `mru` to `lru`. -/
def InOrder (d : DoubleList ℕ) : Prop :=
  ∃ l,d.Holds l ∧ l.Perm (range kCatalogIteratorCount)

/-- At most one valid iterator has its name in the buffer. -/
def OneLong (g : CatalogCacheGlobals V) : Prop :=
  ∀ i j,(g.iterators i).ownsLong=true → (g.iterators j).ownsLong=true → i=j

/-- The positions saved in the other valid iterators stay. -/
def Keeps (g : CatalogCacheGlobals V) (x : Option ℕ) (g' : CatalogCacheGlobals V) : Prop :=
  ∀ j,x≠some j → (g'.iterators j).volume≠none → g'.UpdateBtreeIterator j=g.UpdateBtreeIterator j

/-- The valid iterator that has the buffer, if there is one, is the first with a long name where
one is looked for, and no other is written to. -/
def Spares (g : CatalogCacheGlobals V) : Call V → Prop
  | .update bt i =>
    if needsLong bt (g.iterators i) then
      ∀ j,(g.iterators j).ownsLong=true →
        g.findIterator (fun k => (g.iterators k).isLong)=some (some j)
    else (g.iterators i).isLong=true → ∀ j,(g.iterators j).ownsLong=true → j=i
  | _ => True

namespace InOrder

lemma mem_iff {l : List ℕ} (h : l.Perm (range kCatalogIteratorCount)) :
    i∈l ↔ i<kCatalogIteratorCount := h.mem_iff.trans mem_range

lemma mru (h : InOrder g.order) (hi : i<kCatalogIteratorCount) :
    ∃ order,g.InsertCatalogIteratorAsMRU i=some {g with order := order} ∧
      InOrder order ∧ order.first=some i := by
  obtain ⟨l,hl,hperm⟩ := h
  obtain ⟨pre,post,rfl⟩ := append_of_mem ((mem_iff hperm).mpr hi)
  obtain ⟨order,hmove,horder⟩ := hl.moveFirst
  exact ⟨order,by rw [InsertCatalogIteratorAsMRU,hmove]; rfl,
    ⟨_,horder,perm_middle.symm.trans hperm⟩,horder.first⟩

lemma lru (h : InOrder g.order) (hi : i<kCatalogIteratorCount) :
    ∃ order,g.InsertCatalogIteratorAsLRU i=some {g with order := order} ∧ InOrder order := by
  obtain ⟨l,hl,hperm⟩ := h
  obtain ⟨pre,post,rfl⟩ := append_of_mem ((mem_iff hperm).mpr hi)
  obtain ⟨order,hmove,horder⟩ := hl.moveLast
  refine ⟨order.mirror,by rw [InsertCatalogIteratorAsLRU,hmove]; rfl,
    _,horder,?_⟩
  exact (perm_append_singleton i _).trans (perm_middle.symm.trans hperm)

lemma last (h : InOrder d) : ∃ i,d.last=some i ∧ i<kCatalogIteratorCount := by
  obtain ⟨l,hl,hperm⟩ := h
  cases hlast : l.getLast? with
  | none =>
    rw [getLast?_eq_none_iff.mp hlast] at hperm
    exact absurd hperm.length_eq (by decide)
  | some i => exact ⟨i,hl.last.trans hlast,(mem_iff hperm).mp (mem_of_getLast? hlast)⟩

lemma walk (h : InOrder g.order) : ∃ l : List ℕ,(∀ i∈l,i<kCatalogIteratorCount) ∧
    ∀ {σ : Type} (step : σ → ℕ → σ × Bool) (s : σ),g.walk step s=some (scan step l s) := by
  obtain ⟨l,hl,hperm⟩ := h
  refine ⟨l,fun i => (mem_iff hperm).mp,fun step s => ?_⟩
  rw [CatalogCacheGlobals.walk,hl.first]
  exact Holds.loop step s [] hl (by simp [hperm.length_eq])

lemma findIterator (h : InOrder g.order) (p : ℕ → Bool) : ∃ o,g.findIterator p=some o ∧
    ∀ i∈o,i<kCatalogIteratorCount ∧ p i=true := by
  obtain ⟨l,hl,hwalk⟩ := h.walk
  refine ⟨l.find? p,?_,fun i hi => ?_⟩
  · rw [CatalogCacheGlobals.findIterator,hwalk]
    exact congrArg some (scan_find p)
  · exact ⟨hl i (mem_of_find?_eq_some hi),find?_some hi⟩

end InOrder

/-- What a call does that puts no name in the buffer, with the iterator it is about. -/
structure Apart (g : CatalogCacheGlobals V) (x : Option ℕ) (g' : CatalogCacheGlobals V) :
    Prop where
  others : ∀ j,x≠some j → g'.iterators j=g.iterators j ∨ g'.iterators j=(g.iterators j).trash
  owner : ∀ j,x=some j → (g'.iterators j).ownsLong=true → (g.iterators j).ownsLong=true
  longName : g'.longName=g.longName

/-- What a call does that puts the name of iterator `i` in the buffer. -/
structure Claims (g : CatalogCacheGlobals V) (i : ℕ) (g' : CatalogCacheGlobals V) : Prop where
  others : ∀ j,j≠i → g'.iterators j=g.iterators j ∨ g'.iterators j=(g.iterators j).trash
  free : ∀ j,j≠i → (g'.iterators j).ownsLong=false

lemma btreeIterator_congr {j : ℕ} (h : g'.iterators j=g.iterators j)
    (hname : (g.iterators j).isLong=true → g'.longName=g.longName) :
    g'.UpdateBtreeIterator j=g.UpdateBtreeIterator j := by
  simp only [UpdateBtreeIterator,h]
  cases hf : (g.iterators j).folderName with
  | pascalName name => rfl
  | unicodeName name => rfl
  | longNamePtr => rw [hname (by simp [CatalogIterator.isLong,hf])]

lemma same_of_valid {c c' : CatalogIterator V} (h : c'=c ∨ c'=c.trash)
    (hv : c'.volume≠none) : c'=c := by
  rcases h with h | rfl
  · exact h
  · exact absurd rfl hv

lemma valid_of_owns {c : CatalogIterator V} (h : c.ownsLong=true) : c.volume≠none := by
  intro hv
  simp [CatalogIterator.ownsLong,hv] at h

namespace Apart

lemma oneLong {x : Option ℕ} (h : Apart g x g') (hone : OneLong g) : OneLong g' := by
  have hback : ∀ j,(g'.iterators j).ownsLong=true → (g.iterators j).ownsLong=true := by
    intro j hj
    by_cases hx : x=some j
    · exact h.owner j hx hj
    · rwa [same_of_valid (h.others j hx) (valid_of_owns hj)] at hj
  exact fun i j hi hj => hone i j (hback i hi) (hback j hj)

lemma keeps {x : Option ℕ} (h : Apart g x g') : Keeps g x g' := fun j hx hv =>
  btreeIterator_congr (same_of_valid (h.others j hx) hv) fun _ => h.longName

lemma kept {x : Option ℕ} (h : Apart g x g') (hone : OneLong g) : OneLong g' ∧ Keeps g x g' :=
  ⟨h.oneLong hone,h.keeps⟩

end Apart

namespace Claims

lemma oneLong (h : Claims g i g') : OneLong g' := by
  have honly : ∀ j,(g'.iterators j).ownsLong=true → j=i := by
    intro j hj
    by_contra hne
    simp [h.free j hne] at hj
  exact fun j k hj hk => (honly j hj).trans (honly k hk).symm

lemma keeps (h : Claims g i g') : Keeps g (some i) g' := by
  intro j hx hv
  have hne : j≠i := fun he => hx (congrArg some he.symm)
  have hsame := same_of_valid (h.others j hne) hv
  refine btreeIterator_congr hsame fun hlong => ?_
  have hfree := h.free j hne
  rw [CatalogIterator.ownsLong,isSome_iff_ne_none.mpr hv,hsame,hlong] at hfree
  cases hfree

end Claims

lemma front_spec (h : InOrder g.order) {i : ℕ} (hi : i<kCatalogIteratorCount)
    {c : CatalogIterator V} (hc : c.ownsLong=true → (g.iterators i).ownsLong=true) :
    ∃ g',(g.setIterator i fun _ => c).InsertCatalogIteratorAsMRU i=some g' ∧ InOrder g'.order ∧
      Apart g g'.order.first g' := by
  obtain ⟨order,heq,hin,hfirst⟩ := InOrder.mru (g := g.setIterator i fun _ => c) h hi
  refine ⟨_,heq,hin,fun j hj => .inl ?_,fun j hj => ?_,rfl⟩
  · exact update_of_ne (fun he => hj (hfirst.trans (congrArg some he.symm))) _ _
  · obtain rfl : i=j := some.inj (hfirst.symm.trans hj)
    simpa [setIterator] using hc

lemma recycle_free (hfsPlus : Bool) (volume : V) (folderID a b c : ℕ) :
    (CatalogIterator.recycle hfsPlus volume folderID a b c).ownsLong=false := by
  cases hfsPlus <;> rfl

lemma setIterator_same (i : ℕ) : (g.setIterator i fun _ => g.iterators i)=g := by simp [setIterator]

lemma setIterator_others (f : CatalogIterator V → CatalogIterator V) (j : ℕ) (h : some i≠some j) :
    (g.setIterator i f).iterators j=g.iterators j :=
  update_of_ne (fun he => h (congrArg some he.symm)) _ _

lemma prepare_spec (h : InOrder g.order) {i : ℕ} (hi : (g.iterators i).isLong=false) :
    ∃ g',g.PrepareForLongName i=some g' ∧ InOrder g'.order ∧
      (∀ j,j≠i → g'.iterators j=g.iterators j ∨ g'.iterators j=(g.iterators j).trash) ∧
      ((∀ j,(g.iterators j).ownsLong=true →
        g.findIterator (fun k => (g.iterators k).isLong)=some (some j)) →
        ∀ j,j≠i → (g'.iterators j).ownsLong=false) := by
  obtain ⟨o,ho,hpool⟩ := h.findIterator fun k => (g.iterators k).isLong
  rw [PrepareForLongName,ho]
  cases o with
  | none =>
    refine ⟨_,rfl,h,fun j hj => .inl (update_of_ne hj _ _),fun howner j hj => ?_⟩
    simp only [setIterator,update_of_ne hj]
    by_contra hown
    cases howner j ((Bool.not_eq_false _).mp hown)
  | some iter =>
    obtain ⟨hiter,hlong⟩ := hpool iter rfl
    have hne : iter≠i := by
      rintro rfl
      rw [hi] at hlong
      cases hlong
    obtain ⟨order,heq,horder⟩ : ∃ order,
        (if (g.order.next iter).isSome then g.InsertCatalogIteratorAsLRU iter else some g) =
          some {g with order := order} ∧ InOrder order := by
      split_ifs
      · exact h.lru hiter
      · exact ⟨g.order,rfl,h⟩
    simp only [bind_some,heq,map_some]
    refine ⟨_,rfl,horder,fun j hj => ?_,fun howner j hj => ?_⟩
    · simp only [setIterator,update_of_ne hj]
      by_cases hji : j=iter
      · subst j
        exact .inr (update_self _ _ _)
      · exact .inl (update_of_ne hji _ _)
    · simp only [setIterator,update_of_ne hj]
      by_cases hji : j=iter
      · subst j
        rw [update_self]
        rfl
      · rw [update_of_ne hji]
        by_contra hown
        have hfirst := howner j ((Bool.not_eq_false _).mp hown)
        exact hji (some.inj (some.inj hfirst)).symm

lemma init_inOrder : InOrder (InitCatalogCache (V := V)).order := by
  have hat : ∀ pre x post,range kCatalogIteratorCount=pre++x::post →
      x=pre.length ∧ x<kCatalogIteratorCount := by
    intro pre x post hl
    have hx : (range kCatalogIteratorCount)[pre.length]?=some x := by rw [hl]; simp
    rw [getElem?_eq_some_iff] at hx
    obtain ⟨hlt,hx⟩ := hx
    rw [getElem_range] at hx
    rw [length_range] at hlt
    omega
  refine ⟨_,⟨nodup_range,rfl,rfl,fun pre x post hl => ?_,fun pre x post hl => ?_⟩,.refl _⟩
  · have hpost : post.head?=(range kCatalogIteratorCount)[pre.length+1]? := by
      rw [hl,getElem?_append_right (by omega),head?_eq_getElem?]
      simp
    obtain ⟨rfl,hlt⟩ := hat pre x post hl
    rw [hpost]
    by_cases h : pre.length+1<kCatalogIteratorCount
    · simp [InitCatalogCache,h]
    · simp [InitCatalogCache,h]
  · obtain ⟨rfl,hlt⟩ := hat pre x post hl
    rcases eq_nil_or_concat' pre with rfl | ⟨front,y,rfl⟩
    · rfl
    · obtain ⟨rfl,-⟩ := hat front y ((front++[y]).length::post) (by simpa using hl)
      simp [InitCatalogCache]

lemma init_oneLong : OneLong (InitCatalogCache (V := V)) := by
  intro i j hi
  cases hi

lemma update_spec (h : InOrder g.order) (bt : BTreeIterator) (i : ℕ) :
    ∃ g',g.UpdateCatalogIterator bt i=some g' ∧ InOrder g'.order ∧
      (Spares g (.update bt i) → Apart g (some i) g' ∨ Claims g i g') := by
  rw [UpdateCatalogIterator]
  simp only [Spares]
  by_cases hlong : needsLong bt (g.iterators i)=true
  · have hshort : (g.iterators i).isLong=false := by
      cases hf : (g.iterators i).folderName <;>
        simp_all [needsLong,CatalogIterator.isLong]
    obtain ⟨g',hg',hin,hothers,hfree⟩ := prepare_spec h hshort
    rw [if_pos hlong,if_pos hlong,hg']
    refine ⟨_,rfl,hin,fun hs => .inr ⟨fun j hj => ?_,fun j hj => ?_⟩⟩
    · simpa only [setIterator,update_of_ne hj] using hothers j hj
    · simpa only [setIterator,update_of_ne hj] using hfree hs j hj
  · rw [if_neg hlong,if_neg hlong]
    refine ⟨_,rfl,?_,fun hs => ?_⟩
    · split <;> exact h
    · split
      · refine .inl ⟨fun j hj => .inl (setIterator_others _ j hj),
          fun j hj hown => ?_,rfl⟩
        obtain rfl := some.inj hj
        simp [setIterator,CatalogIterator.ownsLong,CatalogIterator.isLong] at hown
      · refine .inl ⟨fun j hj => .inl (setIterator_others _ j hj),
          fun j hj hown => ?_,rfl⟩
        obtain rfl := some.inj hj
        simp [setIterator,CatalogIterator.ownsLong,CatalogIterator.isLong] at hown
      · rename_i hf
        refine .inr ⟨fun j hj => .inl (update_of_ne hj _ _),fun j hj => ?_⟩
        simp only [setIterator,update_of_ne hj]
        by_contra hown
        exact hj (hs (by simp [CatalogIterator.isLong,hf]) j ((Bool.not_eq_false _).mp hown))

variable [DecidableEq V]

lemma trashLoop_spec (volume : V) (folderID : ℕ) (n : ℕ) {g : CatalogCacheGlobals V}
    (pre l : List ℕ) (h : g.order.Holds (pre++l))
    (hperm : (pre++l).Perm (range kCatalogIteratorCount))
    (hn : l.length+l.countP (fun i => trashes volume folderID (g.iterators i))<n) :
    ∃ g',trashLoop volume folderID n l.head? g=some g' ∧ InOrder g'.order ∧ Apart g none g' := by
  induction n generalizing g pre l with
  | zero => exact absurd hn (Nat.not_lt_zero _)
  | succ n ih =>
    cases l with
    | nil => exact ⟨g,rfl,⟨_,h,hperm⟩,fun _ _ => .inl rfl,nofun,rfl⟩
    | cons i l =>
      rw [head?_cons,trashLoop,h.next pre i l rfl]
      rw [countP_cons,length_cons] at hn
      by_cases htr : trashes volume folderID (g.iterators i)=true
      · rw [if_pos htr]
        rw [if_pos htr] at hn
        cases l with
        | nil =>
          obtain ⟨m,rfl⟩ : ∃ m,n=m+1 := ⟨n-1,by simp at hn; omega⟩
          refine ⟨g.setIterator i .trash,rfl,⟨_,h,hperm⟩,fun j _ => ?_,nofun,rfl⟩
          by_cases hj : j=i
          · exact .inr (by simp [setIterator,hj])
          · exact .inl (update_of_ne hj _ _)
        | cons next l =>
          obtain ⟨order,hmove,horder⟩ := h.moveLast
          have hi : i∉next::l := (nodup_cons.mp (nodup_append.mp h.nodup).2.1).1
          rw [append_assoc] at horder
          -- the iterator comes once more, at the end, and is not matched again
          obtain ⟨g',hg',hin,hapart⟩ := ih (g := ⟨order.mirror,(g.setIterator i .trash).iterators,
            g.longName⟩) pre (next::l++[i]) horder
            ((perm_append_singleton i _).append_left pre |>.trans hperm) (by
              have hcount : (next::l).countP (fun j => trashes volume folderID
                  ((g.setIterator i .trash).iterators j))=(next::l).countP fun j =>
                  trashes volume folderID (g.iterators j) := by
                refine countP_congr fun j hj => ?_
                have hne : j≠i := fun he => hi (he▸hj)
                simp only [setIterator,update_of_ne hne]
              rw [countP_append,length_append,hcount]
              simp [setIterator,trashes,CatalogIterator.trash]
                at hn ⊢
              omega)
          refine ⟨g',?_,hin,fun j hj => ?_,nofun,hapart.longName⟩
          · have hlru : (g.setIterator i .trash).InsertCatalogIteratorAsLRU i =
                some ⟨order.mirror,(g.setIterator i .trash).iterators,g.longName⟩ := by
              rw [InsertCatalogIteratorAsLRU]
              exact congrArg (Option.map _) hmove
            rw [head?_cons]
            dsimp only
            rw [hlru]
            exact hg'
          · have hj' := hapart.others j hj
            by_cases he : j=i
            · subst j
              simp only [setIterator,update_self] at hj'
              exact .inr (hj'.elim id id)
            · simpa only [setIterator,update_of_ne he] using hj'
      · rw [if_neg htr]
        rw [if_neg htr] at hn
        exact ih (pre++[i]) l (by simpa using h) (by simpa using hperm) (by omega)

lemma trash_spec (h : InOrder g.order) (volume : V) (folderID : ℕ) :
    ∃ g',g.TrashCatalogIterator volume folderID=some g' ∧ InOrder g'.order ∧ Apart g none g' := by
  obtain ⟨l,hl,hperm⟩ := h
  rw [TrashCatalogIterator,hl.first]
  refine trashLoop_spec volume folderID _ [] l hl hperm ?_
  have hlen : l.length=kCatalogIteratorCount := by rw [hperm.length_eq,length_range]
  have hcount := countP_le_length (l := l)
    (p := fun i => trashes volume folderID (g.iterators i))
  omega

variable (isHFSPlus) in
lemma get_spec (h : InOrder g.order) (busy : ℕ → Bool) (volume : V) (folderID offset : ℕ) :
    ∃ g',g.GetCatalogIterator isHFSPlus busy volume folderID offset=some g' ∧
      InOrder g'.order ∧ Apart g g'.order.first g' := by
  obtain ⟨o,ho,hpool⟩ := h.findIterator fun i =>
    !busy i && scores volume folderID offset (g.iterators i)
  rw [GetCatalogIterator,ho]
  cases o with
  | some i =>
    have hfront := front_spec h (hpool i rfl).1 (c := g.iterators i) id
    rwa [setIterator_same] at hfront
  | none =>
    obtain ⟨i,hlast,hi⟩ := h.last
    simp only [bind_some,hlast]
    exact front_spec h hi fun hc => by rw [recycle_free] at hc; cases hc

variable (isHFSPlus) in
lemma oGet_spec (h : InOrder g.order) (busy : ℕ → Bool) (volume : V) (folderID index : ℕ) :
    ∃ g',g.oGetCatalogIterator isHFSPlus busy volume folderID index=some g' ∧
      InOrder g'.order ∧ Apart g g'.order.first g' := by
  obtain ⟨l,hl,hwalk⟩ := h.walk
  have hbest : ∀ i∈(scan (g.nearer busy volume folderID index) l (0xFFFF,none)).2,
      i<kCatalogIteratorCount := by
    refine scan_induct (P := fun best : ℕ × Option ℕ => ∀ i∈best.2,i<kCatalogIteratorCount)
      nofun fun best i hi hb => ?_
    simp only [nearer]
    split_ifs <;> first | exact hb | exact fun j hj => some.inj hj▸hl i hi
  rw [oGetCatalogIterator,hwalk,bind_some]
  split
  · rename_i i hi _
    have hfront := front_spec h (hbest i hi) (c := g.iterators i) id
    rwa [setIterator_same] at hfront
  · obtain ⟨i,hlast,hi⟩ := h.last
    simp only [hlast,bind_some]
    exact front_spec h hi fun hc => by rw [recycle_free] at hc; cases hc

variable (isHFSPlus) in
lemma perform_spec (h : InOrder g.order) {call : Call V} (hpool : call.InPool) :
    ∃ g',call.perform isHFSPlus g=some g' ∧ InOrder g'.order ∧
      (Spares g call → OneLong g → OneLong g' ∧ Keeps g (call.operand g') g') := by
  cases call with
  | get busy volume folderID offset =>
    obtain ⟨g',hg',hin,ha⟩ := get_spec isHFSPlus h busy volume folderID offset
    exact ⟨g',hg',hin,fun _ => ha.kept⟩
  | oGet busy volume folderID index =>
    obtain ⟨g',hg',hin,ha⟩ := oGet_spec isHFSPlus h busy volume folderID index
    exact ⟨g',hg',hin,fun _ => ha.kept⟩
  | update bt i =>
    obtain ⟨g',hg',hin,hs⟩ := update_spec h bt i
    refine ⟨g',hg',hin,fun hsp hone => ?_⟩
    rcases hs hsp with ha | hc
    · exact ha.kept hone
    · exact ⟨hc.oneLong,hc.keeps⟩
  | age i =>
    obtain ⟨order,hg',hin⟩ := InOrder.lru h hpool
    have ha : Apart g (some i) {g with order := order} := ⟨fun _ _ => .inl rfl,fun _ _ => id,rfl⟩
    exact ⟨_,hg',hin,fun _ => ha.kept⟩
  | trash volume folderID =>
    obtain ⟨g',hg',hin,ha⟩ := trash_spec h volume folderID
    exact ⟨g',hg',hin,fun _ => ha.kept⟩
  | mark i currentIndex currentOffset nextOffset =>
    refine ⟨_,rfl,h,fun _ hone => ?_⟩
    have ha : Apart g (some i) (g.setIterator i fun c =>
        { c with
          currentIndex := currentIndex
          currentOffset := currentOffset
          nextOffset := nextOffset}) := by
      refine ⟨fun j hj => .inl (setIterator_others _ j hj),fun j hj hown => ?_,rfl⟩
      obtain rfl := some.inj hj
      simpa [setIterator,CatalogIterator.ownsLong,CatalogIterator.isLong] using hown
    exact ha.kept hone

/-- Something holds of each call of a run, with the states before and after it. -/
def AtEach (isHFSPlus : V → Bool)
    (P : CatalogCacheGlobals V → Call V → CatalogCacheGlobals V → Prop) (calls : List (Call V)) :
    Prop :=
  ∀ before call after g g',calls=before++call::after → run isHFSPlus before=some g →
    call.perform isHFSPlus g=some g' → P g call g'

lemma run_append (calls : List (Call V)) (call : Call V) :
    run isHFSPlus (calls++[call])=(run isHFSPlus calls).bind (call.perform isHFSPlus) := by
  rw [run,foldl_append]
  rfl

variable (isHFSPlus) in
lemma run_spec (calls : List (Call V)) (hpool : ∀ call∈calls,call.InPool) :
    ∃ g,run isHFSPlus calls=some g ∧ InOrder g.order ∧
      (AtEach isHFSPlus (fun g call _ => Spares g call) calls → OneLong g) := by
  induction calls using reverseRecOn with
  | nil => exact ⟨_,rfl,init_inOrder,fun _ => init_oneLong⟩
  | append_singleton calls call ih =>
    obtain ⟨g,hrun,hin,hone⟩ := ih fun c hc => hpool c (mem_append_left _ hc)
    obtain ⟨g',hg',hin',hkeep⟩ :=
      perform_spec isHFSPlus hin (hpool call (by simp))
    refine ⟨g',by rw [run_append,hrun]; exact hg',hin',fun hs => ?_⟩
    refine (hkeep (hs calls call [] g g' rfl hrun hg') (hone ?_)).1
    intro before c after g₁ g₂ heq
    exact hs before c (after++[call]) g₁ g₂ (by rw [heq]; simp)

/-- The position behind a record with a name of 64 characters in a folder. -/
def longPosition (folderID : ℕ) : BTreeIterator := ⟨1,0,folderID,replicate 64 folderID⟩

def free : ℕ → Bool := fun _ => false

/-- The iterator with the buffer is aged behind one that has lost it. -/
def agedRun : List (Call Unit) :=
  [.get free () 21 1,.update (longPosition 21) 15,.get free () 22 1,.get free () 23 1,
    .mark 13 0 1 1,.update (longPosition 22) 14,.age 14,.get free () 23 1,
    .update (longPosition 23) 13]

lemma agedRun_inPool : ∀ call∈agedRun,call.InPool := by
  simp [agedRun,Call.InPool,kCatalogIteratorCount]

end Darwin.Hfs.IteratorPool
