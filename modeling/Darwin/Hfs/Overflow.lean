import Darwin.Hfs.ExtentsMove
import Mathlib.Data.List.Sort

/-! The overflow records of every file, and what deleting and moving them does. -/
open List Function Nat
namespace Darwin.Hfs.Catalog
open Lib

variable {fails : ℕ → Option InsertFailure} {x : ExtentsFile}
variable {tree tree' : SortedMap ExtentKey ExtentRecord} {id src dest : ℕ}
variable {T : ℕ → List ((ℕ ×ₗ ℕ) × ExtentRecord)}

def overflow (tree : SortedMap ExtentKey ExtentRecord) (id : ℕ) : List ((ℕ ×ₗ ℕ) × ExtentRecord) :=
  (under tree id).map fun e => ((ofLex e.1).2,e.2)

lemma mem_overflow {k : ℕ ×ₗ ℕ} {v : ExtentRecord} :
    (k,v)∈overflow tree id ↔ tree.get (toLex (id,k))=some v := by
  rw [overflow,mem_map]
  constructor
  · rintro ⟨⟨j,w⟩,hmem,heq⟩
    obtain ⟨hmem,hid⟩ := mem_filter.mp hmem
    have hid : j.fileID=id := of_decide_eq_true hid
    obtain ⟨rfl,rfl⟩ := Prod.mk.inj heq
    have hj : toLex (id,(ofLex j).2)=j := hid▸ExtentKey.withFileID_self j
    rw [hj]
    exact SortedMap.get_eq_some_iff.mpr hmem
  · intro hget
    refine ⟨(toLex (id,k),v),mem_filter.mpr ⟨SortedMap.get_eq_some_iff.mp hget,?_⟩,rfl⟩
    exact decide_eq_true rfl

lemma sorted_overflow (tree : SortedMap ExtentKey ExtentRecord) (id : ℕ) :
    (overflow tree id).Pairwise fun e f => e.1<f.1 := by
  refine pairwise_map.mpr ((tree.sorted.filter _).imp_of_mem fun {e f} he hf hlt => ?_)
  have he : e.1.fileID=id := of_decide_eq_true (mem_filter.mp he).2
  have hf : f.1.fileID=id := of_decide_eq_true (mem_filter.mp hf).2
  rcases (ExtentKey.lt_iff _ _).mp hlt with hlt | ⟨-,hlt⟩
  · omega
  · exact hlt

lemma eq_of_sorted {xs ys : List ((ℕ ×ₗ ℕ) × ExtentRecord)}
    (hxs : xs.Pairwise fun e f => e.1<f.1) (hys : ys.Pairwise fun e f => e.1<f.1)
    (h : ∀ e,e∈xs ↔ e∈ys) : xs=ys := by
  have hirrefl : Std.Irrefl fun e f : (ℕ ×ₗ ℕ) × ExtentRecord => e.1<f.1 :=
    ⟨fun e => lt_irrefl e.1⟩
  have hantisymm : Std.Antisymm fun e f : (ℕ ×ₗ ℕ) × ExtentRecord => e.1<f.1 :=
    ⟨fun e f hlt hgt => absurd hlt (not_lt_of_gt hgt)⟩
  exact hxs.eq_of_mem_iff hys h

lemma overflow_congr (h : ∀ k,tree'.get (toLex (id,k))=tree.get (toLex (id,k))) :
    overflow tree' id=overflow tree id :=
  eq_of_sorted (sorted_overflow tree' id) (sorted_overflow tree id) fun e => by
    rw [mem_overflow,mem_overflow,h]

lemma overflow_eq_nil_iff : overflow tree id=[] ↔ ∀ k,tree.get (toLex (id,k))=none := by
  constructor
  · intro hnil k
    cases hget : tree.get (toLex (id,k)) with
    | none => rfl
    | some v =>
      have hmem := mem_overflow.mpr hget
      rw [hnil] at hmem
      cases hmem
  · intro hnone
    refine eq_nil_iff_forall_not_mem.mpr fun e he => ?_
    have hget := mem_overflow.mp (show (e.1,e.2)∈overflow tree id from he)
    rw [hnone] at hget
    cases hget

lemma length_under : (under tree id).length=(overflow tree id).length :=
  (length_map _).symm

lemma delete_overflow (h : NoFirst x.tree) (hT : overflow x.tree=T) (id : ℕ) :
    ∃ tree',DeleteExtents x id=some (⟨tree',x.tried⟩,.noErr) ∧ NoFirst tree' ∧
      overflow tree'=update T id [] := by
  subst hT
  obtain ⟨tree',hdelete,hget⟩ := delete_spec h id
  refine ⟨tree',hdelete,fun j => ?_,?_⟩
  · rw [hget]
    split_ifs
    · rfl
    · exact h j
  · funext j
    rw [update_apply]
    split_ifs with hj
    · subst j
      exact overflow_eq_nil_iff.mpr fun k => by rw [hget]; exact if_pos rfl
    · exact overflow_congr fun k => by rw [hget]; exact if_neg hj

def NoFailure (fails : ℕ → Option InsertFailure) (n count : ℕ) : Prop :=
  ∀ i<count,fails (n+i)=none

lemma noFailure_or_first (fails : ℕ → Option InsertFailure) (n count : ℕ) :
    NoFailure fails n count ∨
      ∃ j<count,NoFailure fails n j ∧ ∃ failure,fails (n+j)=some failure := by
  induction count with
  | zero => exact .inl fun i hi => absurd hi (not_lt_zero i)
  | succ count ih =>
    rcases ih with hall | ⟨j,hj,hfirst⟩
    · cases hfail : fails (n+count) with
      | none =>
        refine .inl fun i hi => ?_
        rcases Nat.lt_succ_iff_lt_or_eq.mp hi with hi | rfl
        · exact hall i hi
        · exact hfail
      | some failure => exact .inr ⟨count,lt_succ_self count,hall,failure,hfail⟩
    · exact .inr ⟨j,hj.trans (lt_succ_self count),hfirst⟩

lemma BTInsertRecord_other {k key : ExtentKey} (x : ExtentsFile) (data : ExtentRecord)
    (hk : key≠k) : (BTInsertRecord fails x key data).1.tree.get k=x.tree.get k := by
  rw [BTInsertRecord]
  dsimp only
  split_ifs
  · rfl
  · cases fails x.tried with
    | some failure => rfl
    | none => exact (SortedMap.get_put _ _ _ _).trans (if_neg hk.symm)

lemma insertExtents_other {k : ExtentKey} (xs : List (ExtentKey × ExtentRecord)) (x : ExtentsFile)
    (hk : ∀ e∈xs,e.1.withFileID dest≠k) :
    (insertExtents fails dest xs x).1.tree.get k=x.tree.get k := by
  induction xs generalizing x with
  | nil => rfl
  | cons e xs ih =>
    obtain ⟨key,data⟩ := e
    have hone : (BTInsertRecord fails x (key.withFileID dest) data).1.tree.get k=x.tree.get k :=
      BTInsertRecord_other x data (hk _ mem_cons_self)
    rw [insertExtents]
    split_ifs
    · rw [ih _ fun e he => hk e (mem_cons_of_mem _ he),hone]
    · exact hone
    · exact hone

lemma insertExtents_ok (fails : ℕ → Option InsertFailure)
    (xs : List (ExtentKey × ExtentRecord)) (x : ExtentsFile)
    (hnone : ∀ e∈xs,x.tree.get (e.1.withFileID dest)=none)
    (hdistinct : xs.Pairwise fun e f => e.1.withFileID dest≠f.1.withFileID dest)
    (hfails : NoFailure fails x.tried xs.length) : (insertExtents fails dest xs x).2=.noErr ∧
      (insertExtents fails dest xs x).1.tried=x.tried+xs.length ∧
      ∀ e∈xs,(insertExtents fails dest xs x).1.tree.get (e.1.withFileID dest)=some e.2 := by
  induction xs generalizing x with
  | nil => exact ⟨rfl,rfl,fun e he => absurd he not_mem_nil⟩
  | cons e xs ih =>
    obtain ⟨key,data⟩ := e
    obtain ⟨hhead,htail⟩ := pairwise_cons.mp hdistinct
    have hinsert : BTInsertRecord fails x (key.withFileID dest) data =
        (⟨x.tree.put (key.withFileID dest) data,x.tried+1⟩,.noErr) := by
      have hfail := hfails 0 (succ_pos _)
      rw [add_zero] at hfail
      rw [BTInsertRecord]
      dsimp only
      rw [if_neg (by simp [hnone _ mem_cons_self]),hfail]
    obtain ⟨hok,htried,hin⟩ := ih ⟨x.tree.put (key.withFileID dest) data,x.tried+1⟩
      (fun f hf => by
        rw [SortedMap.get_put,if_neg (hhead f hf).symm]
        exact hnone f (mem_cons_of_mem _ hf))
      htail
      (fun i hi => by
        have hfail := hfails (i+1) (succ_lt_succ hi)
        rwa [←add_assoc,add_right_comm] at hfail)
    rw [insertExtents,hinsert]
    dsimp only
    rw [if_pos rfl]
    refine ⟨hok,?_,fun f hf => ?_⟩
    · rw [htried,length_cons]
      dsimp only
      omega
    · rcases mem_cons.mp hf with rfl | hf
      · rw [insertExtents_other _ _ fun f hf => (hhead f hf).symm,SortedMap.get_put,if_pos rfl]
      · exact hin f hf

lemma insertExtents_fails {j : ℕ} {failure : InsertFailure}
    (xs : List (ExtentKey × ExtentRecord)) (x : ExtentsFile) (hj : j<xs.length)
    (hnone : ∀ e∈xs,x.tree.get (e.1.withFileID dest)=none)
    (hdistinct : xs.Pairwise fun e f => e.1.withFileID dest≠f.1.withFileID dest)
    (hfails : NoFailure fails x.tried j) (hfail : fails (x.tried+j)=some failure) :
    insertExtents fails dest xs x =
      (⟨(insertExtents fails dest (xs.take j) x).1.tree,x.tried+j+1⟩,failure.err) := by
  have hsplit : xs.take j++xs[j]::xs.drop (j+1)=xs := by
    rw [←drop_eq_getElem_cons hj,take_append_drop]
  have hlen : (xs.take j).length=j := length_take_of_le (le_of_lt hj)
  obtain ⟨hok,htried,-⟩ := insertExtents_ok fails (xs.take j) x
    (fun e he => hnone e (mem_of_mem_take he)) (hdistinct.sublist (take_sublist j xs))
    (hlen.symm▸hfails)
  have hnone' : (insertExtents fails dest (xs.take j) x).1.tree.get
      ((xs[j]).1.withFileID dest)=none := by
    rw [insertExtents_other,hnone _ (getElem_mem hj)]
    intro e he
    rw [←hsplit,pairwise_append] at hdistinct
    exact hdistinct.2.2 e he _ mem_cons_self
  have herr : failure.err≠.noErr ∧ failure.err≠.btExists := by
    cases failure with
    | diskFull => exact ⟨by decide,by decide⟩
    | other => exact ⟨by decide,by decide⟩
  have hinsert : BTInsertRecord fails (insertExtents fails dest (xs.take j) x).1
      ((xs[j]).1.withFileID dest) (xs[j]).2 =
      (⟨(insertExtents fails dest (xs.take j) x).1.tree,x.tried+j+1⟩,failure.err) := by
    rw [BTInsertRecord]
    dsimp only
    rw [if_neg (by simp [hnone']),htried,hlen,hfail]
  have happend : insertExtents fails dest (xs.take j++xs[j]::xs.drop (j+1)) x=_ :=
    insertExtents_append _ _ _
  rw [hsplit,if_pos hok,insertExtents,hinsert] at happend
  dsimp only at happend
  rw [happend,if_neg herr.1,if_neg herr.2]

lemma insertExtents_keeps {k : ExtentKey} (xs : List (ExtentKey × ExtentRecord)) (x : ExtentsFile)
    (h : x.tree.get k≠none) : (insertExtents fails dest xs x).1.tree.get k≠none := by
  induction xs generalizing x with
  | nil => exact h
  | cons e xs ih =>
    obtain ⟨key,data⟩ := e
    have hone : (BTInsertRecord fails x (key.withFileID dest) data).1.tree.get k≠none := by
      rw [BTInsertRecord]
      dsimp only
      split_ifs
      · exact h
      · cases fails x.tried with
        | some failure => exact h
        | none =>
          dsimp only
          rw [SortedMap.get_put]
          split_ifs
          · exact Option.some_ne_none _
          · exact h
    rw [insertExtents]
    split_ifs
    · exact ih _ hone
    · exact hone
    · exact hone

lemma under_ne_first (h : NoFirst tree) {e : ExtentKey × ExtentRecord} (he : e∈under tree src)
    (id : ℕ) : e.1.withFileID dest≠ExtentKey.first id := by
  intro heq
  have hrest := ((ExtentKey.ext_iff _ _).mp heq).2
  have hfirst : e.1=ExtentKey.first e.1.fileID := (ExtentKey.ext_iff _ _).mpr ⟨rfl,hrest⟩
  have hget := SortedMap.get_eq_some_iff.mpr
    (show (e.1,e.2)∈tree.entries from (mem_filter.mp he).1)
  rw [hfirst,h] at hget
  cases hget

lemma under_distinct (tree : SortedMap ExtentKey ExtentRecord) (src dest : ℕ) :
    (under tree src).Pairwise fun e f => e.1.withFileID dest≠f.1.withFileID dest := by
  refine (tree.sorted.filter _).imp_of_mem fun {e f} he hf hlt heq => ?_
  have he : e.1.fileID=src := of_decide_eq_true (mem_filter.mp he).2
  have hf : f.1.fileID=src := of_decide_eq_true (mem_filter.mp hf).2
  exact ne_of_lt hlt (ExtentKey.withFileID_inj (he.trans hf.symm) heq)

lemma get_of_empty (hempty : overflow tree dest=[]) (k : ExtentKey) :
    tree.get (k.withFileID dest)=none :=
  overflow_eq_nil_iff.mp hempty _

lemma NoFirst.inserted (h : NoFirst x.tree) (fails : ℕ → Option InsertFailure) (dest src n : ℕ) :
    NoFirst (insertExtents fails dest ((under x.tree src).take n) x).1.tree := by
  intro id
  rw [insertExtents_other _ _ fun e he => under_ne_first h (mem_of_mem_take he) id]
  exact h id

lemma overflow_inserted (src n : ℕ) (hempty : overflow x.tree dest=[])
    (hfails : NoFailure fails x.tried ((under x.tree src).take n).length) :
    overflow (insertExtents fails dest ((under x.tree src).take n) x).1.tree =
      update (overflow x.tree) dest ((overflow x.tree src).take n) := by
  obtain ⟨-,-,hin⟩ := insertExtents_ok fails ((under x.tree src).take n) x
    (fun e _ => get_of_empty hempty e.1)
    ((under_distinct x.tree src dest).sublist (take_sublist n _)) hfails
  funext id
  rw [update_apply]
  split_ifs with hid
  · subst id
    refine eq_of_sorted (sorted_overflow _ _)
      ((sorted_overflow x.tree src).sublist (take_sublist n _)) fun e => ?_
    obtain ⟨k,v⟩ := e
    rw [mem_overflow,overflow,←map_take,mem_map]
    constructor
    · intro hget
      by_contra hnot
      rw [insertExtents_other,overflow_eq_nil_iff.mp hempty] at hget
      · cases hget
      · intro e he heq
        rw [←heq,hin e he] at hget
        refine hnot ⟨e,he,Prod.ext ((ExtentKey.ext_iff _ _).mp heq).2 ?_⟩
        exact Option.some.inj hget
    · rintro ⟨e,he,heq⟩
      obtain ⟨rfl,rfl⟩ := Prod.mk.inj heq
      exact hin e he
  · exact overflow_congr fun k =>
      insertExtents_other _ _ fun e _ heq => hid (congrArg ExtentKey.fileID heq).symm

lemma move_whole (fails : ℕ → Option InsertFailure) (src : ℕ) (hfirst : NoFirst x.tree)
    (hne : dest≠src) (hT : overflow x.tree=T)
    (hempty : T dest=[]) (hfails : NoFailure fails x.tried (T src).length) :
    ∃ tree',MoveExtents fails x src dest=some (⟨tree',x.tried+(T src).length⟩,.noErr) ∧
      NoFirst tree' ∧ overflow tree'=update (update T dest (T src)) src [] := by
  subst hT
  have hall : (under x.tree src).take (under x.tree src).length=under x.tree src :=
    take_length
  obtain ⟨hok,htried,-⟩ := insertExtents_ok fails (under x.tree src) x
    (fun e _ => get_of_empty hempty e.1) (under_distinct x.tree src dest)
    (by rwa [length_under])
  have hkept := hfirst.inserted fails dest src (under x.tree src).length
  have hmoved := overflow_inserted src (under x.tree src).length hempty
    (show NoFailure fails x.tried _ by rw [hall,length_under]; exact hfails)
  rw [hall] at hmoved hkept
  rw [length_under,take_length] at hmoved
  obtain ⟨tree',hdelete,hfirst',hcleared⟩ := delete_overflow hkept hmoved src
  refine ⟨tree',?_,hfirst',hcleared⟩
  rw [MoveExtents_eq hfirst hne]
  dsimp only
  rw [if_neg (not_not.mpr hok),hdelete,htried,length_under]

lemma move_part {j : ℕ} {failure : InsertFailure} (src : ℕ) (hfirst : NoFirst x.tree)
    (hne : dest≠src)
    (hT : overflow x.tree=T) (hempty : T dest=[]) (hj : j<(T src).length)
    (hfails : NoFailure fails x.tried j) (hfail : fails (x.tried+j)=some failure) :
    ∃ tree',MoveExtents fails x src dest=some (⟨tree',x.tried+j+1⟩,failure.err) ∧
      NoFirst tree' ∧ overflow tree'=update T dest ((T src).take j) := by
  subst hT
  rw [←length_under] at hj
  refine ⟨(insertExtents fails dest ((under x.tree src).take j) x).1.tree,?_,
    hfirst.inserted fails dest src j,overflow_inserted src j hempty ?_⟩
  · rw [MoveExtents_eq hfirst hne,insertExtents_fails _ x hj (fun e _ => get_of_empty hempty e.1)
      (under_distinct x.tree src dest) hfails hfail]
    dsimp only
    rw [if_pos]
    cases failure with
    | diskFull => exact fun h => by cases h
    | other => exact fun h => by cases h
  · rwa [length_take_of_le (le_of_lt hj)]

end Darwin.Hfs.Catalog
