import Darwin.Hfs.Readdir

/-! The offsets of directory entries, and the places where an iteration stops. -/
open List
namespace Darwin.Hfs.Readdir
open Lib

variable {N : Type} {vcb : ExtendedVCB N} {dirID : ℕ}

section Entries

def Shown (vcb : ExtendedVCB N) (dirID : ℕ) (e : CatalogKey N × CatalogRecord) : Prop :=
  ∃ ent,catent vcb e.1 e.2=some ent ∧ isHidden vcb dirID ent=false

def Hidden (vcb : ExtendedVCB N) (dirID : ℕ) (e : CatalogKey N × CatalogRecord) : Prop :=
  ∃ ent,catent vcb e.1 e.2=some ent ∧ isHidden vcb dirID ent=true

variable {e : CatalogKey N × CatalogRecord}

lemma shown_or_hidden (h : e.2≠.thread) : Shown vcb dirID e ∨ Hidden vcb dirID e := by
  obtain ⟨key,record⟩ := e
  have hent : ∃ ent,catent vcb key record=some ent := by
    cases record with
    | folder id => exact ⟨_,rfl⟩
    | file id => exact ⟨_,rfl⟩
    | thread => exact absurd rfl h
  obtain ⟨ent,hent⟩ := hent
  cases hhidden : isHidden vcb dirID ent with
  | false => exact .inl ⟨ent,hent,hhidden⟩
  | true => exact .inr ⟨ent,hent,hhidden⟩

lemma Hidden.not_shown (h : Hidden vcb dirID e) : ¬Shown vcb dirID e := by
  rintro ⟨ent,hent,hshown⟩
  obtain ⟨ent',hent',hhidden⟩ := h
  rw [hent,Option.some.injEq] at hent'
  subst hent'
  rw [hshown] at hhidden
  cases hhidden

def entrySize (vcb : ExtendedVCB N) (e : CatalogKey N × CatalogRecord) : ℕ :=
  ((catent vcb e.1 e.2).map Dirent.d_reclen).getD 0

def offsetBehind (vcb : ExtendedVCB N) (pre : List (CatalogKey N × CatalogRecord)) : ℕ :=
  CAT_START_OFFSET+(pre.map (entrySize vcb)).sum

def direntsOf (vcb : ExtendedVCB N) (pre : List (CatalogKey N × CatalogRecord)) : List Dirent :=
  pre.filterMap fun e => catent vcb e.1 e.2

lemma direntsOf_cons {ent : Dirent}
    (h : catent vcb e.1 e.2=some ent) (l : List (CatalogKey N × CatalogRecord)) :
    direntsOf vcb (e::l)=ent::direntsOf vcb l := by
  rw [direntsOf,filterMap_cons,h]
  rfl

lemma direntsOf_append (l l' : List (CatalogKey N × CatalogRecord)) :
    direntsOf vcb (l++l')=direntsOf vcb l++direntsOf vcb l' := filterMap_append

lemma filter_shown {l : List (CatalogKey N × CatalogRecord)} (h : ∀ x∈l,Shown vcb dirID x) :
    (direntsOf vcb l).filter (fun ent => !isHidden vcb dirID ent)=direntsOf vcb l := by
  refine filter_eq_self.mpr fun ent hent => ?_
  obtain ⟨x,hx,heq⟩ := mem_filterMap.mp hent
  obtain ⟨ent',hent',hshown⟩ := h x hx
  rw [heq,Option.some.injEq] at hent'
  rw [hent',hshown]
  rfl

lemma filter_hidden {l : List (CatalogKey N × CatalogRecord)} (h : ∀ x∈l,Hidden vcb dirID x) :
    (direntsOf vcb l).filter (fun ent => !isHidden vcb dirID ent)=[] := by
  refine filter_eq_nil_iff.mpr fun ent hent => ?_
  obtain ⟨x,hx,heq⟩ := mem_filterMap.mp hent
  obtain ⟨ent',hent',hhidden⟩ := h x hx
  rw [heq,Option.some.injEq] at hent'
  simp [hent',hhidden]

lemma offsetBehind_append (pre more : List (CatalogKey N × CatalogRecord)) :
    offsetBehind vcb (pre++more)=offsetBehind vcb pre+(more.map (entrySize vcb)).sum := by
  rw [offsetBehind,offsetBehind,map_append,sum_append,Nat.add_assoc]

lemma entrySize_pos (h : Shown vcb dirID e) : 0<entrySize vcb e := by
  obtain ⟨ent,hent,-⟩ := h
  obtain ⟨key,record⟩ := e
  rw [entrySize,hent]
  cases record with
  | folder id =>
    cases hent
    exact Nat.lt_of_lt_of_le (by decide) (Nat.le_add_right 8 _)
  | file id =>
    cases hent
    exact Nat.lt_of_lt_of_le (by decide) (Nat.le_add_right 8 _)
  | thread => cases hent

lemma prefix_unique {pre pre' post post' l : List (CatalogKey N × CatalogRecord)}
    (hl : l=pre++post) (hl' : l=pre'++post') (hshown : ∀ e∈pre,Shown vcb dirID e)
    (hshown' : ∀ e∈pre',Shown vcb dirID e)
    (hoff : offsetBehind vcb pre=offsetBehind vcb pre') : pre=pre' ∧ post=post' := by
  have hzero : ∀ more : List (CatalogKey N × CatalogRecord),(∀ e∈more,Shown vcb dirID e) →
      (more.map (entrySize vcb)).sum=0 → more=[] := by
    intro more hmore hsum
    cases more with
    | nil => rfl
    | cons e more =>
      have hpos := entrySize_pos (hmore e mem_cons_self)
      rw [map_cons,sum_cons] at hsum
      omega
  rcases append_eq_append_iff.mp (hl.symm.trans hl') with ⟨more,rfl,rfl⟩ | ⟨more,rfl,rfl⟩
  · rw [offsetBehind_append] at hoff
    have hnil := hzero more (fun e he => hshown' e (mem_append_right _ he)) (by omega)
    subst hnil
    exact ⟨(append_nil _).symm,rfl⟩
  · rw [offsetBehind_append] at hoff
    have hnil := hzero more (fun e he => hshown e (mem_append_right _ he)) (by omega)
    subst hnil
    exact ⟨append_nil _,rfl⟩

end Entries

section Folder

variable [LinearOrder N] [OrderBot N] {tree : SortedMap (CatalogKey N) CatalogRecord}

def children (tree : SortedMap (CatalogKey N) CatalogRecord) (dirID : ℕ) :
    List (CatalogKey N × CatalogRecord) :=
  tree.entries.filter fun e => (ofLex e.1).1=dirID ∧ (ofLex e.1).2≠⊥

def later (tree : SortedMap (CatalogKey N) CatalogRecord) (dirID : ℕ) :
    List (CatalogKey N × CatalogRecord) :=
  tree.entries.filter fun e => dirID<(ofLex e.1).1

/-- A folder as in a catalog: it has a thread record, and its children are folders and files, of
which only the last may be the hidden one. -/
structure FolderOk (vcb : ExtendedVCB N) (tree : SortedMap (CatalogKey N) CatalogRecord)
    (dirID : ℕ) : Prop where
  thread : tree.get (toLex (dirID,⊥))=some .thread
  nodes : ∀ e∈children tree dirID,e.2≠.thread
  hiddenLast : ∀ pre e post,children tree dirID=pre++e::post → Hidden vcb dirID e → post=[]

lemma filter_split {α : Type} {r : α → α → Prop} {p q : α → Prop} [DecidablePred p]
    [DecidablePred q] {l : List α} (hsorted : l.Pairwise r) (h : ∀ x y,r x y → q x → ¬p y)
    (hpq : ∀ x,p x → ¬q x) :
    l.filter (fun x => p x ∨ q x)=l.filter (fun x => p x)++l.filter fun x => q x := by
  induction l with
  | nil => rfl
  | cons x l ih =>
    obtain ⟨hx,hl⟩ := pairwise_cons.mp hsorted
    rw [filter_cons,filter_cons,filter_cons,ih hl]
    by_cases hp : p x
    · simp [hp,hpq x hp]
    · by_cases hq : q x
      · have hnil : l.filter (fun x => p x)=[] :=
          filter_eq_nil_iff.mpr fun y hy => by simpa using h x y (hx y hy) hq
        simp [hp,hq,hnil]
      · simp [hp,hq]

lemma startKey_lt (k : CatalogKey N) :
    toLex (dirID,⊥)<k ↔ (ofLex k).1=dirID ∧ (ofLex k).2≠⊥ ∨ dirID<(ofLex k).1 := by
  rw [Prod.Lex.lt_iff]
  constructor
  · rintro (hlt | ⟨heq,hlt⟩)
    · exact .inr hlt
    · exact .inl ⟨heq.symm,ne_of_gt hlt⟩
  · rintro (⟨heq,hne⟩ | hlt)
    · exact .inr ⟨heq.symm,bot_lt_iff_ne_bot.mpr hne⟩
    · exact .inl hlt

lemma recordsFrom_start (tree : SortedMap (CatalogKey N) CatalogRecord) (dirID : ℕ) :
    recordsFrom tree (toLex (dirID,⊥)) .next=children tree dirID++later tree dirID := by
  rw [children,later,←filter_split tree.sorted]
  · exact filter_congr fun e _ => decide_eq_decide.mpr (startKey_lt e.1)
  · rintro x y hlt hx ⟨hy,-⟩
    rcases Prod.Lex.lt_iff.mp hlt with hlt | ⟨heq,-⟩
    · omega
    · omega
  · rintro x ⟨hx,-⟩ hlt
    omega

lemma sorted_behind (tree : SortedMap (CatalogKey N) CatalogRecord) (dirID : ℕ) :
    (children tree dirID++later tree dirID).Pairwise fun x y => x.1<y.1 := by
  rw [←recordsFrom_start]
  exact tree.sorted.filter _

variable {pre post : List (CatalogKey N × CatalogRecord)} {e : CatalogKey N × CatalogRecord}

lemma child_parent (h : children tree dirID=pre++e::post) : (ofLex e.1).1=dirID := by
  have hmem : e∈children tree dirID := h▸mem_append_right pre mem_cons_self
  exact (of_decide_eq_true (mem_filter.mp hmem).2).1

lemma startKey_lt_child (h : children tree dirID=pre++e::post) : toLex (dirID,⊥)<e.1 := by
  have hmem : e∈children tree dirID := h▸mem_append_right pre mem_cons_self
  exact (startKey_lt e.1).mpr (.inl (of_decide_eq_true (mem_filter.mp hmem).2))

omit [OrderBot N] in
lemma later_parent (h : e∈later tree dirID) : dirID≠(ofLex e.1).1 :=
  Nat.ne_of_lt (of_decide_eq_true (mem_filter.mp h).2)

lemma recordsFrom_next (h : children tree dirID=pre++e::post) :
    recordsFrom tree e.1 .next=post++later tree dirID := by
  have hstart := startKey_lt_child h
  have hsub : recordsFrom tree e.1 .next =
      (recordsFrom tree (toLex (dirID,⊥)) .next).filter fun x => e.1<x.1 := by
    rw [recordsFrom,recordsFrom,filter_filter]
    refine filter_congr fun x _ => ?_
    by_cases hlt : e.1<x.1
    · simp [hlt,hstart.trans hlt]
    · simp [hlt]
  have hsorted := sorted_behind tree dirID
  rw [hsub,recordsFrom_start]
  rw [h,append_assoc,cons_append] at hsorted ⊢
  rw [pairwise_append,pairwise_cons] at hsorted
  obtain ⟨-,⟨hbehind,-⟩,hbefore⟩ := hsorted
  rw [filter_append,filter_cons,if_neg (by simp)]
  have hnil : pre.filter (fun x => e.1<x.1)=[] :=
    filter_eq_nil_iff.mpr fun x hx => by
      have hle := le_of_lt (hbefore x hx e mem_cons_self)
      simpa using hle
  rw [hnil,nil_append,filter_eq_self.mpr fun x hx => by simpa using hbehind x hx]

lemma recordsFrom_current (h : children tree dirID=pre++e::post) :
    recordsFrom tree e.1 .current=e::post++later tree dirID := by
  have hstart := startKey_lt_child h
  have hsub : recordsFrom tree e.1 .current =
      (recordsFrom tree (toLex (dirID,⊥)) .next).filter fun x => e.1≤x.1 := by
    rw [recordsFrom,recordsFrom,filter_filter]
    refine filter_congr fun x _ => ?_
    by_cases hle : e.1≤x.1
    · simp [hle,hstart.trans_le hle]
    · simp [hle]
  have hsorted := sorted_behind tree dirID
  rw [hsub,recordsFrom_start]
  rw [h,append_assoc,cons_append] at hsorted ⊢
  rw [pairwise_append,pairwise_cons] at hsorted
  obtain ⟨-,⟨hbehind,-⟩,hbefore⟩ := hsorted
  rw [filter_append,filter_cons,if_pos (by simp)]
  have hnil : pre.filter (fun x => e.1≤x.1)=[] :=
    filter_eq_nil_iff.mpr fun x hx => by
      have hlt := hbefore x hx e mem_cons_self
      simpa using hlt
  rw [hnil,nil_append,filter_eq_self.mpr fun x hx => by
    simpa using le_of_lt (hbehind x hx)]

end Folder

section Process

variable {key : CatalogKey N} {record : CatalogRecord} {state : Callbackstate} {ent : Dirent}

lemma process_other (h : dirID≠(ofLex key).1) : ProcessCatalogEntry vcb dirID key record state =
      (⟨state.uioOffset,state.uioOffset,state.uioResid,state.moved,true⟩,false) := by
  rw [ProcessCatalogEntry]
  exact if_pos h

lemma process_hidden (h : (ofLex key).1=dirID) (hent : catent vcb key record=some ent)
    (hhidden : isHidden vcb dirID ent=true) : ProcessCatalogEntry vcb dirID key record state =
      (⟨state.uioOffset,state.uioOffset,state.uioResid,state.moved,true⟩,false) := by
  rw [ProcessCatalogEntry,hent,h]
  exact (if_neg (not_not.mpr rfl)).trans (if_pos hhidden)

lemma process_full (h : (ofLex key).1=dirID) (hent : catent vcb key record=some ent)
    (hshown : isHidden vcb dirID ent=false) (hfull : state.uioResid<ent.d_reclen) :
    ProcessCatalogEntry vcb dirID key record state =
      ({state with lastoffset := state.uioOffset},false) := by
  rw [ProcessCatalogEntry,hent,h]
  dsimp only
  rw [if_neg (not_not.mpr rfl),if_neg (by simp [hshown]),if_pos hfull]

lemma process_moves (h : (ofLex key).1=dirID) (hent : catent vcb key record=some ent)
    (hshown : isHidden vcb dirID ent=false) (hroom : ¬state.uioResid<ent.d_reclen) :
    ProcessCatalogEntry vcb dirID key record state =
      (⟨state.uioOffset,state.uioOffset+ent.d_reclen,state.uioResid-ent.d_reclen,
          state.moved++[ent],state.noent⟩,
        decide (averageDirentrySize ≤ state.uioResid-ent.d_reclen)) := by
  rw [ProcessCatalogEntry,hent,h]
  dsimp only
  rw [if_neg (not_not.mpr rfl),if_neg (by simp [hshown]),if_neg hroom]

end Process

section Places

variable [LinearOrder N] [OrderBot N] {tree : SortedMap (CatalogKey N) CatalogRecord}

/-- Where an iterator with this key and these two offsets stands in the folder: on its thread
record, on a child whose entry is not moved or moved, or behind the folder. -/
inductive Place (vcb : ExtendedVCB N) (tree : SortedMap (CatalogKey N) CatalogRecord)
    (dirID : ℕ) : CatalogKey N → ℕ → ℕ → Prop
  | start (next : ℕ) (h : next=noOffset ∨ next=CAT_START_OFFSET) :
    Place vcb tree dirID (toLex (dirID,⊥)) noOffset next
  | before (pre : List (CatalogKey N × CatalogRecord)) (e : CatalogKey N × CatalogRecord)
    (post : List (CatalogKey N × CatalogRecord)) (hsplit : children tree dirID=pre++e::post)
    (hshown : ∀ x∈pre,Shown vcb dirID x) :
    Place vcb tree dirID e.1 (offsetBehind vcb pre) (offsetBehind vcb pre)
  | behind (pre : List (CatalogKey N × CatalogRecord)) (e : CatalogKey N × CatalogRecord)
    (post : List (CatalogKey N × CatalogRecord)) (hsplit : children tree dirID=pre++e::post)
    (hshown : ∀ x∈pre++[e],Shown vcb dirID x) :
    Place vcb tree dirID e.1 (offsetBehind vcb pre) (offsetBehind vcb (pre++[e]))
  | ended (key : CatalogKey N) (pre post : List (CatalogKey N × CatalogRecord)) (next : ℕ)
    (hsplit : children tree dirID=pre++post) (hshown : ∀ x∈pre,Shown vcb dirID x)
    (hhidden : ∀ x∈post,Hidden vcb dirID x) (hkey : dirID≠(ofLex key).1) :
    Place vcb tree dirID key (offsetBehind vcb pre) next

/-- How the iteration stops that has moved the entries of `done` when it begins. -/
structure Stopped (vcb : ExtendedVCB N) (tree : SortedMap (CatalogKey N) CatalogRecord)
    (dirID : ℕ) (done rest more rest' : List (CatalogKey N × CatalogRecord))
    (key : CatalogKey N) (state : Callbackstate) (r : Callbackstate × CatalogKey N × Bool) :
    Prop where
  split : rest=more++rest'
  shown : ∀ x∈more,Shown vcb dirID x
  offset : r.1.uioOffset=offsetBehind vcb (done++more)
  moved : r.1.moved=state.moved++direntsOf vcb more
  complete : (r.1.noent || r.2.2)=true → ∀ x∈rest',Hidden vcb dirID x
  progress : more=[] → (r.1.noent || r.2.2)=true ∨
    ∃ e∈rest.head?,Shown vcb dirID e ∧ state.uioResid<entrySize vcb e
  place : Place vcb tree dirID r.2.1 r.1.lastoffset r.1.uioOffset ∨ rest=[] ∧ r=(state,key,true)

lemma iterateLoop_spec (h : FolderOk vcb tree dirID)
    (rest : List (CatalogKey N × CatalogRecord)) :
    ∀ (done : List (CatalogKey N × CatalogRecord)) (key : CatalogKey N) (state : Callbackstate),
      children tree dirID=done++rest → (∀ x∈done,Shown vcb dirID x) →
      state.uioOffset=offsetBehind vcb done → state.noent=false →
      ∃ more rest',Stopped vcb tree dirID done rest more rest' key state
        (iterateLoop vcb dirID (rest++later tree dirID) key state) := by
  induction rest with
  | nil =>
    intro done key state hsplit hdone hoff hnoent
    rw [nil_append]
    cases hlater : later tree dirID with
    | nil =>
      exact ⟨[],[],rfl,fun x hx => absurd hx not_mem_nil,by rw [append_nil]; exact hoff,
        (append_nil _).symm,fun _ x hx => absurd hx not_mem_nil,
        fun _ => .inl (Bool.or_true _),.inr ⟨rfl,rfl⟩⟩
    | cons e l =>
      have hother : dirID≠(ofLex e.1).1 := later_parent (hlater▸mem_cons_self)
      have hstop : iterateLoop vcb dirID (e::l) key state =
          (⟨state.uioOffset,state.uioOffset,state.uioResid,state.moved,true⟩,e.1,false) := by
        rw [iterateLoop,process_other hother]
        rfl
      rw [hstop]
      refine ⟨[],[],rfl,fun x hx => absurd hx not_mem_nil,by rw [append_nil]; exact hoff,
        (append_nil _).symm,fun _ x hx => absurd hx not_mem_nil,fun _ => .inl rfl,
        .inl ?_⟩
      dsimp only
      rw [hoff]
      exact .ended e.1 done [] _ hsplit hdone (fun x hx => absurd hx not_mem_nil) hother
  | cons e rest ih =>
    intro done key state hsplit hdone hoff hnoent
    have hparent := child_parent hsplit
    have hnode : e.2≠.thread :=
      h.nodes e (hsplit▸mem_append_right done mem_cons_self)
    rw [cons_append]
    rcases shown_or_hidden hnode with ⟨ent,hent,hshown⟩ | ⟨ent,hent,hhidden⟩
    · have hsize : entrySize vcb e=ent.d_reclen := by rw [entrySize,hent]; rfl
      have hshown' : ∀ x∈done++[e],Shown vcb dirID x := by
        intro x hx
        rcases mem_append.mp hx with hx | hx
        · exact hdone x hx
        · exact (mem_singleton.mp hx)▸⟨ent,hent,hshown⟩
      have hoff' : offsetBehind vcb (done++[e])=state.uioOffset+ent.d_reclen := by
        rw [offsetBehind_append,hoff,map_singleton,sum_singleton,hsize]
      by_cases hfull : state.uioResid<ent.d_reclen
      · have hstop : iterateLoop vcb dirID (e::(rest++later tree dirID)) key state =
            ({state with lastoffset := state.uioOffset},e.1,false) := by
          rw [iterateLoop,process_full hparent hent hshown hfull]
          rfl
        rw [hstop]
        refine ⟨[],e::rest,rfl,fun x hx => absurd hx not_mem_nil,
          by rw [append_nil]; exact hoff,(append_nil _).symm,fun heof => ?_,
          fun _ => .inr ⟨e,rfl,⟨ent,hent,hshown⟩,hsize▸hfull⟩,.inl ?_⟩
        · rw [hnoent] at heof
          cases heof
        · dsimp only
          rw [hoff]
          exact .before done e rest hsplit hdone
      · by_cases hroom : averageDirentrySize ≤ state.uioResid-ent.d_reclen
        · -- the iteration goes on behind this entry
          have hgo : iterateLoop vcb dirID (e::(rest++later tree dirID)) key state =
              iterateLoop vcb dirID (rest++later tree dirID) e.1
                ⟨state.uioOffset,state.uioOffset+ent.d_reclen,state.uioResid-ent.d_reclen,
                  state.moved++[ent],state.noent⟩ := by
            rw [iterateLoop,process_moves hparent hent hshown hfull]
            exact if_pos (decide_eq_true hroom)
          rw [hgo]
          obtain ⟨more,rest',hs⟩ := ih (done++[e]) e.1
            ⟨state.uioOffset,state.uioOffset+ent.d_reclen,state.uioResid-ent.d_reclen,
              state.moved++[ent],state.noent⟩
            (by rw [hsplit,append_assoc,singleton_append]) hshown' hoff'.symm hnoent
          refine ⟨e::more,rest',by rw [hs.split,cons_append],fun x hx => ?_,?_,?_,hs.complete,
            fun hnil => (by cases hnil),.inl ?_⟩
          · rcases mem_cons.mp hx with rfl | hx
            · exact ⟨ent,hent,hshown⟩
            · exact hs.shown x hx
          · rw [hs.offset,append_assoc,singleton_append]
          · rw [hs.moved,append_assoc,direntsOf_cons hent,singleton_append]
          · rcases hs.place with hplace | ⟨rfl,hsame⟩
            · exact hplace
            · rw [hsame]
              dsimp only
              rw [←hoff',hoff]
              exact .behind done e [] hsplit hshown'
        · have hstop : iterateLoop vcb dirID (e::(rest++later tree dirID)) key state =
              (⟨state.uioOffset,state.uioOffset+ent.d_reclen,state.uioResid-ent.d_reclen,
                state.moved++[ent],state.noent⟩,e.1,false) := by
            rw [iterateLoop,process_moves hparent hent hshown hfull]
            exact if_neg (by simpa using hroom)
          rw [hstop]
          refine ⟨[e],rest,rfl,fun x hx => ?_,hoff'.symm,?_,fun heof => ?_,
            fun hnil => (by cases hnil),.inl ?_⟩
          · exact (mem_singleton.mp hx)▸⟨ent,hent,hshown⟩
          · rw [direntsOf_cons hent]
            rfl
          · rw [hnoent] at heof
            cases heof
          · dsimp only
            rw [←hoff',hoff]
            exact .behind done e rest hsplit hshown'
    · have hlast : rest=[] := h.hiddenLast done e rest hsplit ⟨ent,hent,hhidden⟩
      subst hlast
      have hstop : iterateLoop vcb dirID (e::([]++later tree dirID)) key state =
          (⟨state.uioOffset,state.uioOffset,state.uioResid,state.moved,true⟩,e.1,false) := by
        rw [iterateLoop,process_hidden hparent hent hhidden]
        rfl
      rw [hstop]
      refine ⟨[],[e],rfl,fun x hx => absurd hx not_mem_nil,
        by rw [append_nil]; exact hoff,(append_nil _).symm,fun _ x hx => ?_,
        fun _ => .inl rfl,.inl ?_⟩
      · exact (mem_singleton.mp hx)▸⟨ent,hent,hhidden⟩
      · dsimp only
        rw [hoff]
        exact .before done e [] hsplit hdone

end Places

end Darwin.Hfs.Readdir

/-! The iterators in the cache stand at places in their folders, and the one that owns the buffer
for a long name is the first of those that may. -/
namespace Darwin.Hfs.Readdir
open Lib

variable {V N : Type} {cip : CatalogIterator V N} {t : Taken V N} {length : N → ℕ}
variable {cache : CatalogCacheGlobals V N}

def CatalogIterator.LiveLong (cip : CatalogIterator V N) : Prop :=
  cip.volume≠none ∧ cip.parentID=cip.folderID ∧ cip.isLong=true

def Owned (iterators : List (CatalogIterator V N)) : Prop :=
  iterators.Pairwise fun a b => b.LiveLong → a.isLong=false

lemma not_liveLong_trash (cip : CatalogIterator V N) : ¬cip.trash.LiveLong := fun h => h.1 rfl

lemma Owned.sublist {l l' : List (CatalogIterator V N)} (h : Owned l) (hsub : l'.Sublist l) :
    Owned l' := List.Pairwise.sublist hsub h

lemma Owned.alone {pre post : List (CatalogIterator V N)} (h : Owned (pre++cip::post))
    (hlong : cip.isLong=true) : ∀ o∈post,¬o.LiveLong := by
  intro o ho hlive
  have hafter := (pairwise_cons.mp (pairwise_append.mp h).2.1).1 o ho hlive
  rw [hlong] at hafter
  cases hafter

lemma Owned.append_trashed {l l' : List (CatalogIterator V N)} (h : Owned l)
    (htrashed : ∀ o∈l',¬o.LiveLong) : Owned (l++l') := by
  refine pairwise_append.mpr ⟨h,?_,fun a _ b hb hlive => absurd hlive (htrashed b hb)⟩
  exact List.Pairwise.imp_of_mem (fun _ hb _ hlive => absurd hlive (htrashed _ hb))
    (pairwise_of_forall fun _ _ => trivial)

section Long

lemma prepare_spec {others : List (CatalogIterator V N)} (h : Owned others) :
    Owned (PrepareForLongName others) ∧ (∀ o∈PrepareForLongName others,¬o.LiveLong) ∧
      ∀ o∈PrepareForLongName others,o.volume=none ∨ o∈others := by
  rw [PrepareForLongName]
  cases hfind : others.find? CatalogIterator.isLong with
  | none =>
    refine ⟨h,fun o ho hlive => ?_,fun o ho => .inr ho⟩
    exact find?_eq_none.mp hfind o ho hlive.2.2
  | some cip =>
    obtain ⟨hlong,pre,post,rfl,hpre⟩ := find?_eq_some_iff_append.mp hfind
    have hpre' : ∀ o∈pre,¬o.isLong=true := fun o ho => by simpa using hpre o ho
    have herase : (pre++cip::post).eraseP CatalogIterator.isLong=pre++post := by
      rw [eraseP_append_right _ hpre',eraseP_cons_of_pos hlong]
    have hsub : (pre++post).Sublist (pre++cip::post) :=
      (List.Sublist.refl pre).append (sublist_cons_self cip post)
    have hnone : ∀ o∈pre++post,¬o.LiveLong := by
      intro o ho
      rcases mem_append.mp ho with ho | ho
      · exact fun hlive => hpre' o ho hlive.2.2
      · exact h.alone hlong o ho
    dsimp only
    rw [herase]
    have htrash : ∀ o ∈ [cip.trash],¬o.LiveLong := fun o ho =>
      mem_singleton.mp ho▸not_liveLong_trash cip
    refine ⟨(h.sublist hsub).append_trashed htrash,fun o ho => ?_,fun o ho => ?_⟩
    · rcases mem_append.mp ho with ho | ho
      · exact hnone o ho
      · exact htrash o ho
    · rcases mem_append.mp ho with ho | ho
      · exact .inr (hsub.subset ho)
      · exact .inl (mem_singleton.mp ho▸rfl)

/-- What holds of the other iterators while one is taken. -/
structure TakenOk (Good : N → CatalogIterator V N → Prop) (t : Taken V N) : Prop where
  good : ∀ o∈t.others,Good t.longName o
  owned : Owned t.others
  alone : t.cip.isLong=true → ∀ o∈t.others,¬o.LiveLong

/-- What holds of the cache. -/
structure CacheOk (Good : N → CatalogIterator V N → Prop) (cache : CatalogCacheGlobals V N) :
    Prop where
  good : ∀ cip∈cache.iterators,Good cache.longName cip
  owned : Owned cache.iterators

/-- A condition on iterators that depends on the buffer only where the name in it matters. -/
structure Buffered (Good : N → CatalogIterator V N → Prop) : Prop where
  trashed : ∀ name (cip : CatalogIterator V N),cip.volume=none → Good name cip
  overwritten : ∀ name name' (cip : CatalogIterator V N),¬cip.LiveLong → Good name cip →
    Good name' cip

variable {Good : N → CatalogIterator V N → Prop}

lemma TakenOk.release (h : TakenOk Good t) (hcip : Good t.longName t.cip) :
    CacheOk Good t.release := by
  refine ⟨fun cip hmem => ?_,pairwise_cons.mpr ⟨fun o ho hlive => ?_,h.owned⟩⟩
  · rcases mem_cons.mp hmem with rfl | hmem
    · exact hcip
    · exact h.good cip hmem
  · exact Bool.eq_false_iff.mpr fun hlong => h.alone hlong o ho hlive

lemma cacheOk_age (hgood : ∀ o∈t.others,Good t.longName o) (howned : Owned t.others)
    (hcip : Good t.longName t.cip) (hlive : ¬t.cip.LiveLong) : CacheOk Good t.age := by
  refine ⟨fun cip hmem => ?_,howned.append_trashed fun o ho => mem_singleton.mp ho▸hlive⟩
  rcases mem_append.mp hmem with hmem | hmem
  · exact hgood cip hmem
  · exact (mem_singleton.mp hmem)▸hcip

lemma update_cip (length : N → ℕ) (key : CatalogKey N) (t : Taken V N) :
    (UpdateCatalogIterator length key t).cip.volume=t.cip.volume ∧
      (UpdateCatalogIterator length key t).cip.folderID=t.cip.folderID ∧
      (UpdateCatalogIterator length key t).cip.currentOffset=t.cip.currentOffset ∧
      (UpdateCatalogIterator length key t).cip.nextOffset =
        (if (ofLex key).1≠t.cip.folderID then noOffset else t.cip.nextOffset) ∧
      (UpdateCatalogIterator length key t).cip.key (UpdateCatalogIterator length key t).longName =
        key := by
  rw [UpdateCatalogIterator]
  cases hname : t.cip.folderName with
  | short name =>
    dsimp only
    by_cases hlong : 63<length (ofLex key).2
    · rw [if_pos hlong]
      exact ⟨rfl,rfl,rfl,rfl,rfl⟩
    · rw [if_neg hlong]
      exact ⟨rfl,rfl,rfl,rfl,rfl⟩
  | long =>
    refine ⟨rfl,rfl,rfl,rfl,?_⟩
    dsimp only
    rw [CatalogIterator.key,CatalogIterator.name,CatalogIterator.setParent,hname]
    rfl

lemma TakenOk.update (hbuffered : Buffered Good) (h : TakenOk Good t) (length : N → ℕ)
    (key : CatalogKey N) : TakenOk Good (UpdateCatalogIterator length key t) := by
  rw [UpdateCatalogIterator]
  cases hname : t.cip.folderName with
  | short name =>
    dsimp only
    split_ifs
    · obtain ⟨howned,hlive,hmem⟩ := prepare_spec h.owned
      refine ⟨fun o ho => ?_,howned,fun _ => hlive⟩
      rcases hmem o ho with hnone | hin
      · exact hbuffered.trashed _ o hnone
      · exact hbuffered.overwritten _ _ o (hlive o ho) (h.good o hin)
    · refine ⟨h.good,h.owned,fun hlong => ?_⟩
      cases hlong
  | long =>
    have hlong : t.cip.isLong=true := by rw [CatalogIterator.isLong,hname]
    exact ⟨fun o ho => hbuffered.overwritten _ _ o (h.alone hlong o ho) (h.good o ho),h.owned,
      fun _ => h.alone hlong⟩

end Long

section Taking

variable [DecidableEq V] [Bot N] {Good : N → CatalogIterator V N → Prop}

lemma getCatalogIterator_spec (h : CacheOk Good cache) (volume : V) (folderID offset : ℕ) :
    let t := GetCatalogIterator cache volume folderID offset
    t.longName=cache.longName ∧ (∀ o∈t.others,Good t.longName o) ∧ Owned t.others ∧
      (t.cip∈cache.iterators ∧ t.cip.scores volume folderID offset=true ∧
          (t.cip.LiveLong → ∀ o∈t.others,¬o.LiveLong) ∨
        (∀ cip∈cache.iterators,cip.scores volume folderID offset=false) ∧
          t.cip=⟨some volume,folderID,noOffset,noOffset,folderID,.short ⊥⟩) := by
  intro t
  cases hfind : cache.iterators.find? (CatalogIterator.scores volume folderID offset) with
  | none =>
    have ht : t=⟨⟨some volume,folderID,noOffset,noOffset,folderID,.short ⊥⟩,
        cache.iterators.dropLast,cache.longName⟩ := by
      simp only [t,GetCatalogIterator,hfind]
    rw [ht]
    refine ⟨rfl,fun o ho => h.good o (dropLast_subset _ ho),
      h.owned.sublist (dropLast_sublist _),.inr ⟨fun cip hcip => ?_,rfl⟩⟩
    exact Bool.eq_false_iff.mpr (find?_eq_none.mp hfind cip hcip)
  | some cip =>
    have ht : t=⟨cip,cache.iterators.eraseP (CatalogIterator.scores volume folderID offset),
        cache.longName⟩ := by
      simp only [t,GetCatalogIterator,hfind]
    rw [ht]
    obtain ⟨hscores,pre,post,heq,hpre⟩ := find?_eq_some_iff_append.mp hfind
    have hpre' : ∀ o∈pre,¬o.scores volume folderID offset=true :=
      fun o ho => by simpa using hpre o ho
    have herase : cache.iterators.eraseP (CatalogIterator.scores volume folderID offset) =
        pre++post := by
      rw [heq,eraseP_append_right _ hpre',eraseP_cons_of_pos hscores]
    have howned := h.owned
    rw [heq] at howned
    have hsub : (pre++post).Sublist cache.iterators := by
      rw [heq]
      exact (List.Sublist.refl pre).append (sublist_cons_self cip post)
    rw [herase]
    refine ⟨rfl,fun o ho => h.good o (hsub.subset ho),h.owned.sublist hsub,.inl ⟨?_,hscores,?_⟩⟩
    · rw [heq]
      exact mem_append_right pre mem_cons_self
    · intro hlive o ho hlive'
      rcases mem_append.mp ho with ho | ho
      · have hshort := (pairwise_append.mp howned).2.2 o ho cip mem_cons_self hlive
        rw [hlive'.2.2] at hshort
        cases hshort
      · exact howned.alone hlive.2.2 o ho hlive'

end Taking

section Trash

variable [DecidableEq V] {volume' : V} {folderID : ℕ}

lemma cacheOk_trash {Good Good' : N → CatalogIterator V N → Prop} (hbuffered : Buffered Good')
    (hcache : CacheOk Good cache)
    (hgood : ∀ longName (cip : CatalogIterator V N),
      ¬(cip.volume=some volume' ∧ (folderID=0 ∨ cip.folderID=folderID)) →
        Good longName cip → Good' longName cip) :
    CacheOk Good' (TrashCatalogIterator cache volume' folderID) := by
  rw [TrashCatalogIterator]
  refine ⟨fun cip hmem => ?_,?_⟩
  · rcases mem_append.mp hmem with hmem | hmem
    · obtain ⟨hmem,hkept⟩ := mem_filter.mp hmem
      refine hgood _ cip (fun htrashed => ?_) (hcache.good cip hmem)
      have hnot : ¬folderID=0 ∧ ¬cip.folderID=folderID := by simpa [htrashed.1] using hkept
      exact htrashed.2.elim hnot.1 hnot.2
    · obtain ⟨o,-,rfl⟩ := mem_map.mp hmem
      exact hbuffered.trashed _ _ rfl
  · refine Owned.append_trashed (hcache.owned.sublist filter_sublist) fun o ho => ?_
    obtain ⟨o,-,rfl⟩ := mem_map.mp ho
    exact not_liveLong_trash o

end Trash

end Darwin.Hfs.Readdir
