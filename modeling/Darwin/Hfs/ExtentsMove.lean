import Darwin.Hfs.ExchangeFileIDs

/-! `MoveExtents` and `DeleteExtents`, in terms of the extent records of each file. -/
open List Nat
namespace Darwin.Hfs.Catalog
open Lib

variable {fails : ℕ → Option InsertFailure} {x : ExtentsFile}
variable {tree : SortedMap ExtentKey ExtentRecord} {id srcFileID destFileID : ℕ}

lemma ExtentKey.lt_iff (k j : ExtentKey) :
    k<j ↔ k.fileID<j.fileID ∨ k.fileID=j.fileID ∧ (ofLex k).2<(ofLex j).2 :=
  Prod.Lex.lt_iff

lemma ExtentKey.ext_iff (k j : ExtentKey) : k=j ↔ k.fileID=j.fileID ∧ (ofLex k).2=(ofLex j).2 := by
  constructor
  · rintro rfl
    exact ⟨rfl,rfl⟩
  · rintro ⟨hid,hrest⟩
    exact ofLex_inj.mp (Prod.ext hid hrest)

@[simp] lemma ExtentKey.fileID_first (id : ℕ) : (ExtentKey.first id).fileID=id := rfl

lemma ExtentKey.withFileID_inj {k j : ExtentKey} (hid : k.fileID=j.fileID)
    (h : k.withFileID id=j.withFileID id) : k=j :=
  (ExtentKey.ext_iff k j).mpr ⟨hid,((ExtentKey.ext_iff _ _).mp h).2⟩

lemma ExtentKey.withFileID_self (k : ExtentKey) : k.withFileID k.fileID=k :=
  (ExtentKey.ext_iff _ _).mpr ⟨rfl,rfl⟩

lemma ExtentKey.not_lt_first (k : ExtentKey) : ¬k<ExtentKey.first k.fileID := by
  rw [ExtentKey.lt_iff]
  rintro (hlt | ⟨-,hlt⟩)
  · exact lt_irrefl _ hlt
  · rcases Prod.Lex.lt_iff.mp hlt with hlt | ⟨-,hlt⟩
    · exact not_lt_zero _ hlt
    · exact not_lt_zero _ hlt

def restOf (tree : SortedMap ExtentKey ExtentRecord) (id : ℕ) (key : ExtentKey) :
    List (ExtentKey × ExtentRecord) :=
  tree.entries.filter fun e => key<e.1 ∧ e.1.fileID=id

def under (tree : SortedMap ExtentKey ExtentRecord) (id : ℕ) : List (ExtentKey × ExtentRecord) :=
  tree.entries.filter fun e => e.1.fileID=id

lemma restOf_none {key : ExtentKey} (h : tree.next key=none) : restOf tree id key=[] :=
  filter_eq_nil_iff.mpr fun e he => by
    have hnot := SortedMap.next_eq_none h e he
    simp [hnot]

lemma restOf_some {key : ExtentKey} {e : ExtentKey × ExtentRecord} (h : tree.next key=some e)
    (hid : e.1.fileID=id) : restOf tree id key=e::restOf tree id e.1 := by
  obtain ⟨hlt,before,behind,heq,hnot,hbefore,hbehind⟩ := SortedMap.next_eq_some h
  rw [restOf,restOf,heq,filter_append,filter_append,filter_cons,filter_cons]
  have hnil : (before.filter fun x => key<x.1 ∧ x.1.fileID=id)=[] :=
    filter_eq_nil_iff.mpr fun x hx => by simp [hnot x hx]
  have hnil' : (before.filter fun x => e.1<x.1 ∧ x.1.fileID=id)=[] :=
    filter_eq_nil_iff.mpr fun x hx => by
      have hle := not_lt.mpr (le_of_lt (hbefore x hx))
      simp [hle]
  have hsame : (behind.filter fun x => key<x.1 ∧ x.1.fileID=id) =
      behind.filter fun x => e.1<x.1 ∧ x.1.fileID=id :=
    filter_congr fun x hx => by simp [hbehind x hx,hlt.trans (hbehind x hx)]
  rw [hnil,hnil',hsame,if_pos (by simp [hlt,hid]),if_neg (by simp)]
  rfl

lemma restOf_other {key : ExtentKey} {e : ExtentKey × ExtentRecord} (h : tree.next key=some e)
    (hkey : key.fileID=id) (hid : e.1.fileID≠id) : restOf tree id key=[] := by
  obtain ⟨hlt,before,behind,heq,hnot,hbefore,hbehind⟩ := SortedMap.next_eq_some h
  -- the next record belongs to a later file, and so do all behind it
  have hlater : id<e.1.fileID := by
    rcases (ExtentKey.lt_iff _ _).mp hlt with hlt | ⟨hsame,-⟩
    · omega
    · exact absurd (hsame.symm.trans hkey) hid
  refine filter_eq_nil_iff.mpr fun x hx => ?_
  rw [heq,mem_append,mem_cons] at hx
  rcases hx with hx | rfl | hx
  · simp [hnot x hx]
  · simp [hid]
  · have hle : e.1.fileID≤x.1.fileID := by
      rcases (ExtentKey.lt_iff _ _).mp (hbehind x hx) with hlt | ⟨hsame,-⟩
      · exact le_of_lt hlt
      · exact le_of_eq hsame
    have hne : x.1.fileID≠id := by omega
    simp [hne]

lemma restOf_put {key j : ExtentKey} {v : ExtentRecord} (hj : j.fileID≠id) :
    restOf (tree.put j v) id key=restOf tree id key := by
  exact SortedMap.filter_putEntry (p := fun k => key<k ∧ k.fileID=id) (fun h => hj h.2)
    tree.entries

lemma restOf_first (h : tree.get (ExtentKey.first id)=none) :
    restOf tree id (ExtentKey.first id)=under tree id := by
  refine filter_congr fun e he => ?_
  by_cases hid : e.1.fileID=id
  · have hne : e.1≠ExtentKey.first id := fun heq => by
      have hget := SortedMap.get_eq_some_iff.mpr (show (e.1,e.2)∈tree.entries from he)
      rw [heq,h] at hget
      cases hget
    have hge := ExtentKey.not_lt_first e.1
    rw [hid] at hge
    have hlt : ExtentKey.first id<e.1 := lt_of_le_of_ne (not_lt.mp hge) hne.symm
    simp [hid,hlt]
  · simp [hid]

lemma collect_spec (tree : SortedMap ExtentKey ExtentRecord) (n : ℕ) (key : ExtentKey)
    (hkey : key.fileID=id) : (collectExtents tree id n key).1=(restOf tree id key).take n ∧
      ((collectExtents tree id n key).1.length=n → (collectExtents tree id n key).2.fileID=id ∧
        restOf tree id (collectExtents tree id n key).2=(restOf tree id key).drop n) := by
  induction n generalizing key with
  | zero => exact ⟨rfl,fun _ => ⟨hkey,rfl⟩⟩
  | succ n ih =>
    rw [collectExtents]
    cases hnext : tree.next key with
    | none =>
      dsimp only
      rw [restOf_none hnext]
      exact ⟨rfl,fun hlen => by cases hlen⟩
    | some e =>
      obtain ⟨j,data⟩ := e
      dsimp only
      split_ifs with hid
      · obtain ⟨htake,hdrop⟩ := ih j hid
        rw [restOf_some hnext hid]
        refine ⟨by rw [htake]; rfl,fun hlen => ?_⟩
        exact hdrop (succ.inj hlen)
      · rw [restOf_other hnext hkey hid]
        exact ⟨rfl,fun hlen => by cases hlen⟩

def NoFirst (tree : SortedMap ExtentKey ExtentRecord) : Prop :=
  ∀ id,tree.get (ExtentKey.first id)=none

lemma restOf_erase {key j : ExtentKey} (h : ¬key<j) :
    restOf (tree.erase j) id key=restOf tree id key := by
  rw [restOf,SortedMap.erase,filter_filter]
  refine filter_congr fun e _ => ?_
  by_cases hej : e.1=j
  · simp [hej,h]
  · simp [hej]

lemma deleteLoop_spec (fuel : ℕ) (tree : SortedMap ExtentKey ExtentRecord) (key : ExtentKey)
    (hkey : key.fileID=id) (hfuel : (restOf tree id key).length<fuel) :
    ∃ tree',deleteLoop id fuel tree key=some tree' ∧
      ∀ j,tree'.get j=if j.fileID=id ∧ key<j then none else tree.get j := by
  induction fuel generalizing tree key with
  | zero => exact absurd hfuel (not_lt_zero _)
  | succ fuel ih =>
    rw [deleteLoop]
    have habsent : ∀ {R : List (ExtentKey × ExtentRecord)},restOf tree id key=R →
        ∀ j,j.fileID=id → key<j → (∀ e∈R,e.1≠j) → tree.get j=none := by
      intro R hR j hid hlt hnot
      cases hget : tree.get j with
      | none => rfl
      | some v =>
        have hmem : (j,v)∈restOf tree id key :=
          mem_filter.mpr ⟨SortedMap.get_eq_some_iff.mp hget,by simp [hid,hlt]⟩
        rw [hR] at hmem
        exact absurd rfl (hnot _ hmem)
    cases hnext : tree.next key with
    | none =>
      refine ⟨tree,rfl,fun j => ?_⟩
      split_ifs with hj
      · exact habsent (restOf_none hnext) j hj.1 hj.2 fun e he => by cases he
      · rfl
    | some e =>
      obtain ⟨k,data⟩ := e
      dsimp only
      split_ifs with hid
      · refine ⟨tree,rfl,fun j => ?_⟩
        split_ifs with hj
        · exact habsent (restOf_other hnext hkey hid) j hj.1 hj.2 fun e he => by cases he
        · rfl
      · have hid : k.fileID=id := not_not.mp hid
        have hrest := restOf_some hnext hid
        have hsame : restOf (tree.erase k) id k=restOf tree id k := restOf_erase (lt_irrefl k)
        have hlen : (restOf (tree.erase k) id k).length<fuel := by
          rw [hsame]
          rw [hrest,length_cons] at hfuel
          exact lt_of_succ_lt_succ hfuel
        obtain ⟨tree',hloop,hget⟩ := ih (tree.erase k) k hid hlen
        refine ⟨tree',hloop,fun j => ?_⟩
        have hkk : key<k := (SortedMap.next_eq_some hnext).1
        rw [hget,SortedMap.get_erase]
        by_cases hj : j.fileID=id ∧ key<j
        · rw [if_pos hj]
          split_ifs with hjk hjk'
          · rfl
          · rfl
          · refine habsent hrest j hj.1 hj.2 fun e he => ?_
            rcases mem_cons.mp he with rfl | he
            · exact fun heq => hjk' heq.symm
            · have hlt := (mem_filter.mp he).2
              simp only [decide_eq_true_eq] at hlt
              rintro rfl
              exact hjk ⟨hj.1,hlt.1⟩
        · rw [if_neg hj,if_neg fun h => hj ⟨h.1,hkk.trans h.2⟩]
          split_ifs with hjk
          · subst j
            exact absurd ⟨hid,hkk⟩ hj
          · rfl

lemma delete_spec (h : NoFirst x.tree) (id : ℕ) :
    ∃ tree',DeleteExtents x id=some ({x with tree := tree'},.noErr) ∧
      ∀ j,tree'.get j=if j.fileID=id then none else x.tree.get j := by
  have hfuel : (restOf x.tree id (ExtentKey.first id)).length<x.tree.entries.length+1 :=
    Nat.lt_succ_of_le (length_filter_le _ _)
  obtain ⟨tree',hloop,hget⟩ := deleteLoop_spec _ x.tree (ExtentKey.first id)
    (ExtentKey.fileID_first id) hfuel
  refine ⟨tree',?_,fun j => ?_⟩
  · rw [DeleteExtents,if_neg (by simp [h id]),hloop]
    rfl
  · rw [hget]
    by_cases hid : j.fileID=id
    · rw [if_pos hid]
      split_ifs with hj
      · rfl
      · have hge := ExtentKey.not_lt_first j
        rw [hid] at hge
        have heq : j=ExtentKey.first id :=
          le_antisymm (not_lt.mp fun hlt => hj ⟨hid,hlt⟩) (not_lt.mp hge)
        rw [heq,h id]
    · rw [if_neg hid,if_neg fun hj => hid hj.1]

lemma insertExtents_append (xs ys : List (ExtentKey × ExtentRecord)) (x : ExtentsFile) :
    insertExtents fails destFileID (xs++ys) x =
      if (insertExtents fails destFileID xs x).2=.noErr then
        insertExtents fails destFileID ys (insertExtents fails destFileID xs x).1
      else insertExtents fails destFileID xs x := by
  induction xs generalizing x with
  | nil => rw [nil_append,insertExtents,if_pos rfl]
  | cons e xs ih =>
    obtain ⟨key,data⟩ := e
    rw [cons_append,insertExtents,insertExtents]
    by_cases hok : (BTInsertRecord fails x (key.withFileID destFileID) data).2=.noErr
    · rw [if_pos hok,if_pos hok]
      exact ih _
    · rw [if_neg hok,if_neg hok]
      by_cases hexists : (BTInsertRecord fails x (key.withFileID destFileID) data).2=.btExists
      · rw [if_pos hexists,if_neg (by simp)]
      · rw [if_neg hexists,if_neg hok]

lemma restOf_insertExtents (fails : ℕ → Option InsertFailure) (key : ExtentKey)
    (hne : destFileID≠id) (xs : List (ExtentKey × ExtentRecord)) (x : ExtentsFile) :
    restOf (insertExtents fails destFileID xs x).1.tree id key=restOf x.tree id key := by
  induction xs generalizing x with
  | nil => rfl
  | cons e xs ih =>
    obtain ⟨k,data⟩ := e
    have hone : restOf (BTInsertRecord fails x (k.withFileID destFileID) data).1.tree id key =
        restOf x.tree id key := by
      unfold BTInsertRecord
      dsimp only
      split_ifs
      · rfl
      · cases fails x.tried with
        | some failure => rfl
        | none => exact restOf_put hne
    rw [insertExtents]
    split_ifs
    · rw [ih,hone]
    · exact hone
    · exact hone

lemma moveLoop_spec (hne : destFileID≠srcFileID) (fuel : ℕ) (x : ExtentsFile) (key : ExtentKey)
    (hkey : key.fileID=srcFileID) (hfuel : (restOf x.tree srcFileID key).length<fuel) :
    moveLoop fails srcFileID destFileID fuel x key =
      let inserted := insertExtents fails destFileID (restOf x.tree srcFileID key) x
      if inserted.2≠.noErr then some inserted else DeleteExtents inserted.1 srcFileID := by
  induction fuel generalizing x key with
  | zero => exact absurd hfuel (not_lt_zero _)
  | succ fuel ih =>
    obtain ⟨htake,hdrop⟩ := collect_spec x.tree kNumExtentsToCache key hkey
    rw [moveLoop]
    dsimp only
    by_cases hlen : (collectExtents x.tree srcFileID kNumExtentsToCache key).1.length =
        kNumExtentsToCache
    · obtain ⟨hid,hrest⟩ := hdrop hlen
      have hsplit : restOf x.tree srcFileID key =
          (collectExtents x.tree srcFileID kNumExtentsToCache key).1++
            restOf x.tree srcFileID (collectExtents x.tree srcFileID kNumExtentsToCache key).2 := by
        rw [htake,hrest,take_append_drop]
      rw [hsplit,insertExtents_append]
      by_cases herr : (insertExtents fails destFileID
          (collectExtents x.tree srcFileID kNumExtentsToCache key).1 x).2=.noErr
      · have hkeep := restOf_insertExtents fails
          (collectExtents x.tree srcFileID kNumExtentsToCache key).2 hne
          (collectExtents x.tree srcFileID kNumExtentsToCache key).1 x
        have hshort : (restOf (insertExtents fails destFileID
            (collectExtents x.tree srcFileID kNumExtentsToCache key).1 x).1.tree srcFileID
            (collectExtents x.tree srcFileID kNumExtentsToCache key).2).length<fuel := by
          have hlong := congrArg List.length hsplit
          have hfour : kNumExtentsToCache=4 := rfl
          rw [length_append,hlen] at hlong
          rw [hkeep]
          omega
        rw [if_neg (not_not.mpr herr),if_neg (not_not.mpr hlen),if_pos herr,ih _ _ hid hshort,hkeep]
      · rw [if_pos herr,if_neg herr,if_pos herr]
    · have hall : (collectExtents x.tree srcFileID kNumExtentsToCache key).1 =
          restOf x.tree srcFileID key := by
        rw [htake,take_of_length_le]
        rw [htake,length_take] at hlen
        omega
      rw [hall] at hlen ⊢
      rw [if_pos hlen]

lemma MoveExtents_eq (h : NoFirst x.tree) (hne : destFileID≠srcFileID) :
    MoveExtents fails x srcFileID destFileID =
      let inserted := insertExtents fails destFileID (under x.tree srcFileID) x
      if inserted.2≠.noErr then some inserted else DeleteExtents inserted.1 srcFileID := by
  have hfirst := restOf_first (h srcFileID)
  have hfuel : (restOf x.tree srcFileID (ExtentKey.first srcFileID)).length <
      x.tree.entries.length+1 := Nat.lt_succ_of_le (length_filter_le _ _)
  rw [MoveExtents,if_neg (by simp [h srcFileID]),moveLoop_spec hne _ x _ rfl hfuel,hfirst]

end Darwin.Hfs.Catalog
