import Darwin.Hfs.Overflow

/-! When an exchange of two files does all or nothing. -/
open List Function Nat
namespace Darwin.Hfs.Catalog
open Lib

variable {fails : ℕ → Option InsertFailure} {x : ExtentsFile} {src dest n : ℕ}
variable {T : ℕ → List ((ℕ ×ₗ ℕ) × ExtentRecord)}

lemma NoFailure.mono {a b : ℕ} (h : NoFailure fails n a) (hle : b≤a) : NoFailure fails n b :=
  fun i hi => h i (hi.trans_le hle)

lemma NoFailure.behind {a b : ℕ} (h : NoFailure fails n (a+b)) : NoFailure fails (n+a) b := by
  intro i hi
  rw [add_assoc]
  exact h (a+i) (by omega)

lemma NoFailure.append {a b : ℕ} (h : NoFailure fails n a) (h' : NoFailure fails (n+a) b) :
    NoFailure fails n (a+b) := by
  intro i hi
  by_cases hlt : i<a
  · exact h i hlt
  · have hfail := h' (i-a) (by omega)
    rwa [Nat.add_assoc,Nat.add_sub_cancel' (Nat.le_of_not_lt hlt)] at hfail

lemma first_unique {j j' : ℕ} (hj : NoFailure fails n j) (hj' : NoFailure fails n j')
    (hfail : fails (n+j)≠none) (hfail' : fails (n+j')≠none) : j=j' := by
  rcases lt_trichotomy j j' with hlt | heq | hlt
  · exact absurd (hj' j hlt) hfail
  · exact heq
  · exact absurd (hj j' hlt) hfail'

/-- When the exchange of two files which both seem to have overflow records, `s` and `d` of them,
does all or nothing: no insertion fails, or the very first one does, or the disk is full at one
and none fails of those that take back what was done. -/
def BothHold (fails : ℕ → Option InsertFailure) (n s d : ℕ) : Prop :=
  NoFailure fails n (s+d+s) ∨ ∃ j<s+d+s,NoFailure fails n j ∧
    (fails (n+j)=some .other ∧ j=0 ∨ fails (n+j)=some .diskFull ∧
      (j<s ∨ j<s+d ∧ NoFailure fails (n+j+1) s ∨ s+d≤j ∧ NoFailure fails (n+j+1) (d+s)))

lemma bothHold_iff {s d j : ℕ} {failure : InsertFailure} (hj : j<s+d+s)
    (hfirst : NoFailure fails n j) (hfail : fails (n+j)=some failure) :
    BothHold fails n s d ↔ failure=.other ∧ j=0 ∨ failure=.diskFull ∧
      (j<s ∨ j<s+d ∧ NoFailure fails (n+j+1) s ∨
        s+d≤j ∧ NoFailure fails (n+j+1) (d+s)) := by
  constructor
  · rintro (hall | ⟨i,hi,hfirst',hcases⟩)
    · rw [hall j hj] at hfail
      cases hfail
    · have hsome : fails (n+i)≠none := by rcases hcases with ⟨h,-⟩ | ⟨h,-⟩ <;> simp [h]
      obtain rfl := first_unique hfirst' hfirst hsome (by simp [hfail])
      rw [hfail,Option.some.injEq,Option.some.injEq] at hcases
      exact hcases
  · intro hcases
    refine .inr ⟨j,hj,hfirst,?_⟩
    rw [hfail,Option.some.injEq,Option.some.injEq]
    exact hcases

lemma err_ne_noErr (failure : InsertFailure) : failure.err≠.noErr := by
  cases failure <;> decide

lemma exUndo1a_spec (hfirst : NoFirst x.tree) (hT : overflow x.tree=T) :
    ∃ tree',exUndo1a x=some (⟨tree',x.tried⟩,.dskFulErr) ∧ NoFirst tree' ∧
      overflow tree'=update T kHFSBogusExtentFileID [] := by
  obtain ⟨tree',hdelete,hfirst',hover⟩ := delete_overflow hfirst hT kHFSBogusExtentFileID
  refine ⟨tree',?_,hfirst',hover⟩
  rw [exUndo1a,hdelete]
  rfl

lemma exUndo2a_spec (fails : ℕ → Option InsertFailure) (hfirst : NoFirst x.tree) (hT : overflow x.tree=T)
    (hsrc : src≠kHFSBogusExtentFileID)
    (hfails : NoFailure fails x.tried (T kHFSBogusExtentFileID).length) :
    ∃ y,exUndo2a fails x src=some (y,.dskFulErr) ∧
      overflow y.tree=update (update T src (T kHFSBogusExtentFileID))
        kHFSBogusExtentFileID [] := by
  obtain ⟨tree₁,hdelete,hfirst₁,hover₁⟩ := delete_overflow hfirst hT src
  have hbogus : update T src [] kHFSBogusExtentFileID=T kHFSBogusExtentFileID :=
    update_of_ne hsrc.symm _ _
  obtain ⟨tree₂,hmove,hfirst₂,hover₂⟩ := move_whole fails kHFSBogusExtentFileID
    (x := ⟨tree₁,x.tried⟩) hfirst₁ hsrc hover₁
    (update_self _ _ _) (by rwa [hbogus])
  obtain ⟨tree₃,hundo,-,hover₃⟩ := exUndo1a_spec (x := ⟨tree₂,_⟩) hfirst₂ hover₂
  refine ⟨⟨tree₃,x.tried+(update T src [] kHFSBogusExtentFileID).length⟩,?_,hover₃.trans ?_⟩
  · rw [exUndo2a,hdelete,Option.bind_some]
    dsimp only
    rw [if_neg (not_not.mpr rfl),hmove,Option.bind_some]
    dsimp only
    rw [if_neg (not_not.mpr rfl)]
    exact hundo
  · rw [hbogus,update_idem,update_idem]

lemma exUndo2a_stuck {j : ℕ} {failure : InsertFailure} (hfirst : NoFirst x.tree)
    (hT : overflow x.tree=T) (hsrc : src≠kHFSBogusExtentFileID)
    (hj : j<(T kHFSBogusExtentFileID).length) (hfails : NoFailure fails x.tried j)
    (hfail : fails (x.tried+j)=some failure) :
    ∃ y err,exUndo2a fails x src=some (y,err) ∧ err≠.noErr ∧
      overflow y.tree kHFSBogusExtentFileID≠[] := by
  obtain ⟨tree₁,hdelete,hfirst₁,hover₁⟩ := delete_overflow hfirst hT src
  have hbogus : update T src [] kHFSBogusExtentFileID=T kHFSBogusExtentFileID :=
    update_of_ne hsrc.symm _ _
  obtain ⟨tree₂,hmove,-,hover₂⟩ := move_part kHFSBogusExtentFileID
    (x := ⟨tree₁,x.tried⟩) hfirst₁ hsrc hover₁
    (update_self _ _ _) (by rwa [hbogus]) hfails hfail
  refine ⟨⟨tree₂,x.tried+j+1⟩,failure.err,?_,err_ne_noErr failure,?_⟩
  · rw [exUndo2a,hdelete,Option.bind_some]
    dsimp only
    rw [if_neg (not_not.mpr rfl),hmove,Option.bind_some]
    exact if_pos (err_ne_noErr failure)
  · rw [hover₂,update_of_ne hsrc.symm,hbogus]
    exact ne_nil_of_length_pos (zero_lt_of_lt hj)

section Both

/-- The overflow records are exchanged, or there is an error and they are as before. -/
def AllOrNothing (T T' : ℕ → List ((ℕ ×ₗ ℕ) × ExtentRecord)) (src dest : ℕ) (err : OSErr) : Prop :=
  err=.noErr ∧ T'=update (update T src (T dest)) dest (T src) ∨ err≠.noErr ∧ T'=T

/-- There is an error, but records are under the temporary id or those of the source are not as
before. -/
def Mangled (T T' : ℕ → List ((ℕ ×ₗ ℕ) × ExtentRecord)) (src : ℕ) (err : OSErr) : Prop :=
  err≠.noErr ∧ (T' kHFSBogusExtentFileID≠[] ∨ T' src≠T src)

variable (hfirst : NoFirst x.tree) (hT : overflow x.tree=T) (hbogus : T kHFSBogusExtentFileID=[])
variable (hsrc : src≠kHFSBogusExtentFileID) (hne : src≠dest)
variable (hdest : dest≠kHFSBogusExtentFileID)
include hfirst hT hbogus hsrc

variable (fails) in
omit hfirst hT in
lemma undo_both {tree : SortedMap ExtentKey ExtentRecord} {m : ℕ} (dest : ℕ) (hfirst' : NoFirst tree)
    (hbogus' : overflow tree kHFSBogusExtentFileID=T src)
    (hother : ∀ id,id≠src → id≠kHFSBogusExtentFileID → overflow tree id=T id) :
    ∃ y err,exUndo2a fails ⟨tree,m⟩ src=some (y,err) ∧
      (NoFailure fails m (T src).length → AllOrNothing T (overflow y.tree) src dest err) ∧
      (¬NoFailure fails m (T src).length → Mangled T (overflow y.tree) src err) := by
  rcases noFailure_or_first fails m (T src).length with hall | ⟨k,hk,hfails,failure,hfail⟩
  · obtain ⟨y,hundo,hover⟩ := exUndo2a_spec fails (x := ⟨tree,m⟩) hfirst' rfl hsrc
      (by rwa [hbogus'])
    refine ⟨y,_,hundo,fun _ => .inr ⟨by decide,?_⟩,fun h => absurd hall h⟩
    rw [hover]
    funext id
    by_cases hid' : id=kHFSBogusExtentFileID
    · rw [hid',update_self,hbogus]
    · rw [update_of_ne hid']
      by_cases hid : id=src
      · rw [hid,update_self,hbogus']
      · rw [update_of_ne hid,hother id hid hid']
  · obtain ⟨y,err,hundo,herr,hover⟩ := exUndo2a_stuck (x := ⟨tree,m⟩) hfirst' rfl hsrc
      (by rwa [hbogus']) hfails hfail
    refine ⟨y,err,hundo,fun h => ?_,fun _ => ⟨herr,.inl hover⟩⟩
    rw [h k hk] at hfail
    cases hfail

lemma both_first {j : ℕ} {failure : InsertFailure} (dest : ℕ) (hj : j<(T src).length)
    (hfails : NoFailure fails x.tried j) (hfail : fails (x.tried+j)=some failure) :
    ∃ y err,exchangeBoth fails x src dest=some (y,err) ∧
      (failure=.other ∧ j=0 ∨ failure=.diskFull → AllOrNothing T (overflow y.tree) src dest err) ∧
      (failure=.other ∧ j≠0 → Mangled T (overflow y.tree) src err) := by
  obtain ⟨tree₁,hmove,hfirst₁,hover₁⟩ := move_part src hfirst hsrc.symm hT hbogus hj hfails hfail
  cases failure with
  | diskFull =>
    obtain ⟨tree₂,hundo,-,hover₂⟩ := exUndo1a_spec (x := ⟨tree₁,x.tried+j+1⟩) hfirst₁ hover₁
    refine ⟨⟨tree₂,x.tried+j+1⟩,.dskFulErr,?_,fun _ => .inr ⟨by decide,?_⟩,fun h => by cases h.1⟩
    · rw [exchangeBoth,hmove,Option.bind_some]
      dsimp only
      rw [if_pos (by decide),if_neg (by decide),hundo]
    · rw [hover₂,update_idem,←hbogus,update_eq_self]
  | other =>
    refine ⟨⟨tree₁,x.tried+j+1⟩,.ioErr,?_,fun h => .inr ⟨by decide,?_⟩,fun h => ⟨by decide,.inl ?_⟩⟩
    · rw [exchangeBoth,hmove,Option.bind_some]
      dsimp only
      rw [if_pos (by decide),if_pos (by decide)]
      rfl
    · rcases h with ⟨-,rfl⟩ | h
      · rw [hover₁,take_zero,←hbogus,update_eq_self]
      · cases h
    · rw [hover₁,update_self]
      refine ne_nil_of_length_pos ?_
      rw [length_take]
      exact Nat.lt_min.mpr ⟨Nat.pos_of_ne_zero h.2,Nat.zero_lt_of_lt hj⟩

include hne hdest

lemma both_second {j : ℕ} {failure : InsertFailure} (hlow : (T src).length≤j)
    (hj : j<(T src).length+(T dest).length) (hfails : NoFailure fails x.tried j)
    (hfail : fails (x.tried+j)=some failure) :
    ∃ y err,exchangeBoth fails x src dest=some (y,err) ∧ (failure=.other ∧ j=0 ∨
        failure=.diskFull ∧ NoFailure fails (x.tried+j+1) (T src).length →
          AllOrNothing T (overflow y.tree) src dest err) ∧ (failure=.other ∧ j≠0 ∨
        failure=.diskFull ∧ ¬NoFailure fails (x.tried+j+1) (T src).length →
          Mangled T (overflow y.tree) src err) := by
  obtain ⟨i,rfl⟩ := Nat.exists_eq_add_of_le hlow
  obtain ⟨tree₁,hmove₁,hfirst₁,hover₁⟩ := move_whole fails src hfirst hsrc.symm hT hbogus
    (hfails.mono hlow)
  -- all records of the source are under the temporary id
  have hdest₁ : update (update T kHFSBogusExtentFileID (T src)) src [] dest=T dest := by
    rw [update_of_ne hne.symm,update_of_ne hdest]
  obtain ⟨tree₂,hmove₂,hfirst₂,hover₂⟩ := move_part (x := ⟨tree₁,x.tried+(T src).length⟩) (j := i)
    dest hfirst₁ hne hover₁ (update_self _ _ _) (by rw [hdest₁]; omega) hfails.behind
    (by rw [←hfail]; exact congrArg fails (add_assoc _ _ _))
  have hbogus₂ : overflow tree₂ kHFSBogusExtentFileID=T src := by
    rw [hover₂,update_of_ne hsrc.symm,update_of_ne hsrc.symm,update_self]
  have hsrc₂ : overflow tree₂ src=(T dest).take i := by rw [hover₂,update_self,hdest₁]
  have hother₂ : ∀ id,id≠src → id≠kHFSBogusExtentFileID → overflow tree₂ id=T id := by
    intro id hid hid'
    rw [hover₂,update_of_ne hid,update_of_ne hid,update_of_ne hid']
  have hnext : x.tried+(T src).length+i+1=x.tried+((T src).length+i)+1 := by omega
  rw [hnext] at hmove₂
  cases failure with
  | other =>
    refine ⟨⟨tree₂,x.tried+((T src).length+i)+1⟩,.ioErr,?_,fun h => .inr ⟨by decide,?_⟩,
      fun h => ⟨by decide,?_⟩⟩
    · rw [exchangeBoth,hmove₁,Option.bind_some]
      dsimp only
      rw [if_neg (by decide),hmove₂,Option.bind_some]
      dsimp only
      rw [if_pos (by decide),if_pos (by decide)]
      rfl
    · rcases h with ⟨-,hzero⟩ | ⟨h,-⟩
      · have hnil : T src=[] := eq_nil_of_length_eq_zero (by omega)
        have hi : i=0 := by omega
        funext id
        by_cases hid : id=src
        · rw [hid,hsrc₂,hi,take_zero,hnil]
        · by_cases hid' : id=kHFSBogusExtentFileID
          · rw [hid',hbogus₂,hbogus,hnil]
          · exact hother₂ id hid hid'
      · cases h
    · by_cases hnil : T src=[]
      · right
        rw [hsrc₂,hnil]
        rw [hnil,length_nil] at hj h
        refine ne_nil_of_length_pos ?_
        rw [length_take]
        rcases h with ⟨-,hpos⟩ | ⟨h,-⟩
        · omega
        · cases h
      · left
        rwa [hbogus₂]
  | diskFull =>
    have hback : exchangeBoth fails x src dest =
        exUndo2a fails ⟨tree₂,x.tried+((T src).length+i)+1⟩ src := by
      rw [exchangeBoth,hmove₁,Option.bind_some]
      dsimp only
      rw [if_neg (by decide),hmove₂,Option.bind_some]
      dsimp only
      rw [if_pos (by decide),if_neg (by decide)]
    rw [hback]
    obtain ⟨y,err,hundo,hok,hbad⟩ := undo_both fails hbogus hsrc
      (m := x.tried+((T src).length+i)+1) dest hfirst₂ hbogus₂ hother₂
    refine ⟨y,err,hundo,fun h => hok ?_,fun h => hbad ?_⟩
    all_goals simpa using h

lemma both_moved (hfails : NoFailure fails x.tried ((T src).length+(T dest).length)) :
    ∃ tree₁ tree₂,MoveExtents fails x src kHFSBogusExtentFileID =
        some (⟨tree₁,x.tried+(T src).length⟩,.noErr) ∧
      MoveExtents fails ⟨tree₁,x.tried+(T src).length⟩ dest src =
        some (⟨tree₂,x.tried+(T src).length+(T dest).length⟩,.noErr) ∧
      NoFirst tree₂ ∧ overflow tree₂ kHFSBogusExtentFileID=T src ∧
      overflow tree₂ src=T dest ∧ overflow tree₂ dest=[] ∧
      ∀ id,id≠src → id≠dest → id≠kHFSBogusExtentFileID → overflow tree₂ id=T id := by
  obtain ⟨tree₁,hmove₁,hfirst₁,hover₁⟩ := move_whole fails src hfirst hsrc.symm hT hbogus
    (hfails.mono (le_add_right _ _))
  have hdest₁ : update (update T kHFSBogusExtentFileID (T src)) src [] dest=T dest := by
    rw [update_of_ne hne.symm,update_of_ne hdest]
  obtain ⟨tree₂,hmove₂,hfirst₂,hover₂⟩ := move_whole fails dest
    (x := ⟨tree₁,x.tried+(T src).length⟩) hfirst₁ hne hover₁ (update_self _ _ _) (by rw [hdest₁]; exact hfails.behind)
  rw [hdest₁] at hmove₂ hover₂
  refine ⟨tree₁,tree₂,hmove₁,hmove₂,hfirst₂,?_,?_,?_,fun id hid hid' hid'' => ?_⟩
  · rw [hover₂,update_of_ne hdest.symm,update_of_ne hsrc.symm,update_of_ne hsrc.symm,update_self]
  · rw [hover₂,update_of_ne hne,update_self]
  · rw [hover₂,update_self]
  · rw [hover₂,update_of_ne hid',update_of_ne hid,update_of_ne hid,update_of_ne hid'']

lemma both_third {j : ℕ} {failure : InsertFailure}
    (hlow : (T src).length+(T dest).length≤j)
    (hj : j<(T src).length+(T dest).length+(T src).length) (hfails : NoFailure fails x.tried j)
    (hfail : fails (x.tried+j)=some failure) : ∃ y err,exchangeBoth fails x src dest=some (y,err) ∧
      (failure=.diskFull ∧ NoFailure fails (x.tried+j+1) ((T dest).length+(T src).length) →
        AllOrNothing T (overflow y.tree) src dest err) ∧ (failure=.other ∨
        failure=.diskFull ∧ ¬NoFailure fails (x.tried+j+1) ((T dest).length+(T src).length) →
          Mangled T (overflow y.tree) src err) := by
  obtain ⟨i,rfl⟩ := Nat.exists_eq_add_of_le hlow
  obtain ⟨tree₁,tree₂,hmove₁,hmove₂,hfirst₂,hbogus₂,hsrc₂,hdest₂,hother₂⟩ :=
    both_moved hfirst hT hbogus hsrc hne hdest (hfails.mono hlow)
  have hfails' := hfails.behind
  rw [←add_assoc] at hfails'
  obtain ⟨tree₃,hmove₃,hfirst₃,hover₃⟩ := move_part kHFSBogusExtentFileID
    (x := ⟨tree₂,x.tried+(T src).length+(T dest).length⟩) (j := i) hfirst₂ hdest rfl hdest₂
    (by rw [hbogus₂]; omega) hfails'
    (by rw [←hfail]; exact congrArg fails (by dsimp only; omega))
  have hnext : x.tried+(T src).length+(T dest).length+i+1 =
      x.tried+((T src).length+(T dest).length+i)+1 := by omega
  rw [hnext] at hmove₃
  have hfull : T src≠[] := ne_nil_of_length_pos (by omega)
  have hbogus₃ : overflow tree₃ kHFSBogusExtentFileID=T src := by
    rw [hover₃,update_of_ne hdest.symm,hbogus₂]
  cases failure with
  | other =>
    refine ⟨⟨tree₃,x.tried+((T src).length+(T dest).length+i)+1⟩,.ioErr,?_,
      fun h => (by cases h.1),fun _ => ⟨by decide,.inl ?_⟩⟩
    · rw [exchangeBoth,hmove₁,Option.bind_some]
      dsimp only
      rw [if_neg (by decide),hmove₂,Option.bind_some]
      dsimp only
      rw [if_neg (by decide),hmove₃,Option.bind_some]
      dsimp only
      rw [if_neg (by decide),if_pos (by decide)]
      rfl
    · rwa [hbogus₃]
  | diskFull =>
    -- the records of the destination go back to it, then those of the source
    obtain ⟨tree₄,hdelete,hfirst₄,hover₄⟩ := delete_overflow
      (x := ⟨tree₃,x.tried+((T src).length+(T dest).length+i)+1⟩) hfirst₃ rfl dest
    have hsrc₄ : overflow tree₄ src=T dest := by
      rw [hover₄,update_of_ne hne,hover₃,update_of_ne hne,hsrc₂]
    have hdest₄ : overflow tree₄ dest=[] := by rw [hover₄,update_self]
    have hbogus₄ : overflow tree₄ kHFSBogusExtentFileID=T src := by
      rw [hover₄,update_of_ne hdest.symm,hbogus₃]
    have hother₄ : ∀ id,id≠src → id≠dest → id≠kHFSBogusExtentFileID → overflow tree₄ id=T id := by
      intro id hid hid' hid''
      rw [hover₄,update_of_ne hid',hover₃,update_of_ne hid',hother₂ id hid hid' hid'']
    have hback : exchangeBoth fails x src dest =
        (MoveExtents fails ⟨tree₄,x.tried+((T src).length+(T dest).length+i)+1⟩ src dest).bind
          fun r => if r.2≠.noErr then some r else exUndo2a fails r.1 src := by
      rw [exchangeBoth,hmove₁,Option.bind_some]
      dsimp only
      rw [if_neg (by decide),hmove₂,Option.bind_some]
      dsimp only
      rw [if_neg (by decide),hmove₃,Option.bind_some]
      dsimp only
      rw [if_neg (by decide),if_neg (by decide),hdelete,Option.bind_some]
      dsimp only
      rw [if_neg (by decide)]
    rw [hback]
    generalize x.tried+((T src).length+(T dest).length+i)+1=m at *
    rcases noFailure_or_first fails m (T dest).length with hall | ⟨k,hk,hfails',failure,hfail'⟩
    · obtain ⟨tree₅,hmove₅,hfirst₅,hover₅⟩ := move_whole fails src (x := ⟨tree₄,m⟩)
        hfirst₄ hne.symm rfl hdest₄ (by rwa [hsrc₄])
      have hbogus₅ : overflow tree₅ kHFSBogusExtentFileID=T src := by
        rw [hover₅,update_of_ne hsrc.symm,update_of_ne hdest.symm,hbogus₄]
      rw [hmove₅,Option.bind_some]
      dsimp only
      rw [if_neg (by decide),hsrc₄]
      have hother₅ : ∀ id,id≠src → id≠kHFSBogusExtentFileID → overflow tree₅ id=T id := by
        intro id hid hid''
        rw [hover₅,update_of_ne hid]
        by_cases hid' : id=dest
        · rw [hid',update_self,hsrc₄]
        · rw [update_of_ne hid',hother₄ id hid hid' hid'']
      obtain ⟨y,err,hundo,hok,hbad⟩ := undo_both fails hbogus hsrc
        (m := m+(T dest).length) dest hfirst₅ hbogus₅ hother₅
      refine ⟨y,err,hundo,fun h => hok h.2.behind,fun h => hbad fun hall' => ?_⟩
      rcases h with h | ⟨-,h⟩
      · cases h
      · exact h (hall.append hall')
    · obtain ⟨tree₅,hmove₅,-,hover₅⟩ := move_part src (x := ⟨tree₄,m⟩) hfirst₄ hne.symm
        rfl hdest₄ (by rwa [hsrc₄]) hfails' hfail'
      refine ⟨⟨tree₅,m+k+1⟩,failure.err,?_,fun h => ?_,fun _ => ⟨err_ne_noErr failure,.inl ?_⟩⟩
      · rw [hmove₅,Option.bind_some]
        exact if_pos (err_ne_noErr failure)
      · rw [h.2 k (hk.trans_le (le_add_right _ _))] at hfail'
        cases hfail'
      · rwa [hover₅,update_of_ne hdest.symm,hbogus₄]

lemma both_all
    (hfails : NoFailure fails x.tried ((T src).length+(T dest).length+(T src).length)) :
    ∃ y err,exchangeBoth fails x src dest=some (y,err) ∧
      AllOrNothing T (overflow y.tree) src dest err := by
  obtain ⟨tree₁,tree₂,hmove₁,hmove₂,hfirst₂,hbogus₂,hsrc₂,hdest₂,hother₂⟩ :=
    both_moved hfirst hT hbogus hsrc hne hdest (hfails.mono (le_add_right _ _))
  have hfails' := hfails.behind
  rw [←add_assoc] at hfails'
  obtain ⟨tree₃,hmove₃,hfirst₃,hover₃⟩ := move_whole fails kHFSBogusExtentFileID
    (x := ⟨tree₂,x.tried+(T src).length+(T dest).length⟩) hfirst₂ hdest rfl hdest₂ (by rwa [hbogus₂])
  refine ⟨⟨tree₃,x.tried+(T src).length+(T dest).length+(T src).length⟩,.noErr,?_,.inl ⟨rfl,?_⟩⟩
  · rw [exchangeBoth,hmove₁,Option.bind_some]
    dsimp only
    rw [if_neg (by decide),hmove₂,Option.bind_some]
    dsimp only
    rw [if_neg (by decide),hmove₃,Option.bind_some,hbogus₂]
    dsimp only
    rw [if_pos rfl]
  · rw [hover₃]
    funext id
    by_cases hid'' : id=kHFSBogusExtentFileID
    · rw [hid'',update_self,update_of_ne hdest.symm,update_of_ne hsrc.symm,hbogus]
    · rw [update_of_ne hid'']
      by_cases hid' : id=dest
      · rw [hid',update_self,update_self,hbogus₂]
      · rw [update_of_ne hid',update_of_ne hid']
        by_cases hid : id=src
        · rw [hid,update_self,hsrc₂]
        · rw [update_of_ne hid,hother₂ id hid hid' hid'']

lemma exchangeBoth_spec (fails : ℕ → Option InsertFailure) :
    ∃ y err,exchangeBoth fails x src dest=some (y,err) ∧
      (BothHold fails x.tried (T src).length (T dest).length →
        AllOrNothing T (overflow y.tree) src dest err) ∧
      (¬BothHold fails x.tried (T src).length (T dest).length →
        Mangled T (overflow y.tree) src err) := by
  rcases noFailure_or_first fails x.tried ((T src).length+(T dest).length+(T src).length) with
    hall | ⟨j,hj,hfails,failure,hfail⟩
  · obtain ⟨y,err,hrun,hok⟩ := both_all hfirst hT hbogus hsrc hne hdest hall
    exact ⟨y,err,hrun,fun _ => hok,fun h => absurd (.inl hall) h⟩
  · rw [bothHold_iff hj hfails hfail]
    by_cases hlow : j<(T src).length
    · obtain ⟨y,err,hrun,hok,hbad⟩ := both_first hfirst hT hbogus hsrc dest hlow
        hfails hfail
      refine ⟨y,err,hrun,fun h => hok (h.imp_right And.left),fun h => hbad ?_⟩
      cases failure with
      | diskFull => exact absurd (.inr ⟨rfl,.inl hlow⟩) h
      | other => exact ⟨rfl,fun hzero => h (.inl ⟨rfl,hzero⟩)⟩
    · by_cases hmid : j<(T src).length+(T dest).length
      · obtain ⟨y,err,hrun,hok,hbad⟩ := both_second hfirst hT hbogus hsrc hne hdest
          (Nat.le_of_not_lt hlow) hmid hfails hfail
        refine ⟨y,err,hrun,fun h => hok (h.imp_right fun h => ⟨h.1,?_⟩),fun h => hbad ?_⟩
        · rcases h.2 with hlt | ⟨-,hnone⟩ | ⟨hge,-⟩
          · exact absurd hlt hlow
          · exact hnone
          · exact absurd hmid (not_lt.mpr hge)
        · cases failure with
          | diskFull => exact .inr ⟨rfl,fun hnone => h (.inr ⟨rfl,.inr (.inl ⟨hmid,hnone⟩)⟩)⟩
          | other => exact .inl ⟨rfl,fun hzero => h (.inl ⟨rfl,hzero⟩)⟩
      · obtain ⟨y,err,hrun,hok,hbad⟩ := both_third hfirst hT hbogus hsrc hne hdest
          (Nat.le_of_not_lt hmid) hj hfails hfail
        refine ⟨y,err,hrun,fun h => hok ?_,fun h => hbad ?_⟩
        · rcases h with ⟨-,hzero⟩ | ⟨hfull,hlt | ⟨hlt,-⟩ | ⟨-,hnone⟩⟩
          · omega
          · exact absurd hlt hlow
          · exact absurd hlt hmid
          · exact ⟨hfull,hnone⟩
        · cases failure with
          | diskFull =>
            exact .inr ⟨rfl,fun hnone =>
              h (.inr ⟨rfl,.inr (.inr ⟨Nat.le_of_not_lt hmid,hnone⟩)⟩)⟩
          | other => exact .inl rfl

end Both

section One

/-- When the exchange of two files does all or nothing, if just one of them seems to have overflow
records: the other has none and no insertion fails, or already the first is refused. -/
def OneHolds (fails : ℕ → Option InsertFailure) (n : ℕ)
    (records target : List ((ℕ ×ₗ ℕ) × ExtentRecord)) : Prop :=
  target=[] ∧ NoFailure fails n records.length ∨
    ∃ e∈records.head?,e.1∈target.map Prod.fst ∨ fails n=some .other

variable {a b : ℕ} (hT : overflow x.tree=T) (hfirst : NoFirst x.tree) (hne : a≠b)
include hT

lemma under_cons {e : (ℕ ×ₗ ℕ) × ExtentRecord} (he : e∈(T a).head?) :
    ∃ rest,under x.tree a=(toLex (a,e.1),e.2)::rest := by
  subst hT
  cases hunder : under x.tree a with
  | nil => simp [overflow,hunder] at he
  | cons f rest =>
    have hmem : f∈under x.tree a := hunder▸mem_cons_self
    have hid : f.1.fileID=a := of_decide_eq_true (mem_filter.mp hmem).2
    simp only [overflow,hunder,map_cons,List.head?_cons,Option.mem_some_iff] at he
    subst he
    refine ⟨rest,congrArg (List.cons · rest) (Prod.ext ?_ rfl)⟩
    exact (ExtentKey.ext_iff _ _).mpr ⟨hid,rfl⟩

lemma mem_keys {k : ℕ ×ₗ ℕ} : k∈(T b).map Prod.fst ↔ x.tree.get (toLex (b,k))≠none := by
  subst hT
  rw [mem_map,Option.ne_none_iff_exists']
  constructor
  · rintro ⟨⟨j,v⟩,hmem,rfl⟩
    exact ⟨v,mem_overflow.mp hmem⟩
  · rintro ⟨v,hget⟩
    exact ⟨(k,v),mem_overflow.mpr hget,rfl⟩

include hfirst hne

lemma one_holds (h : OneHolds fails x.tried (T a) (T b)) :
    ∃ y e,exchangeOne fails x a b=some (y,e) ∧
      (e=none ∧ overflow y.tree=update (update T b (T a)) a (T b) ∨
        ∃ err,e=some err ∧ err≠.noErr ∧ overflow y.tree=T) := by
  rcases h with ⟨hnil,hfails⟩ | ⟨e,he,hrefused⟩
  · obtain ⟨tree',hmove,-,hover⟩ := move_whole fails a hfirst hne.symm hT hnil hfails
    refine ⟨⟨tree',x.tried+(T a).length⟩,none,?_,.inl ⟨rfl,by rw [hover,hnil]⟩⟩
    rw [exchangeOne,hmove,Option.bind_some]
    exact if_pos rfl
  · obtain ⟨rest,hunder⟩ := under_cons hT he
    have hkey : ExtentKey.withFileID (toLex (a,e.1)) b=toLex (b,e.1) := rfl
    have hinsert : ∃ err,BTInsertRecord fails x (toLex (b,e.1)) e.2 =
        (⟨x.tree,x.tried+1⟩,err) ∧ err≠.noErr ∧ err≠.dskFulErr := by
      rw [BTInsertRecord]
      dsimp only
      by_cases hget : x.tree.get (toLex (b,e.1))=none
      · have hfail : fails x.tried=some .other :=
          hrefused.resolve_left fun hmem => (mem_keys hT).mp hmem hget
        rw [if_neg (not_not.mpr hget),hfail]
        exact ⟨.ioErr,rfl,by decide,by decide⟩
      · rw [if_pos hget]
        exact ⟨.btExists,rfl,by decide,by decide⟩
    have hmoved : ∃ err,MoveExtents fails x a b=some (⟨x.tree,x.tried+1⟩,err) ∧
        err≠.noErr ∧ err≠.dskFulErr := by
      obtain ⟨err,hinsert,herr,hdisk⟩ := hinsert
      rw [MoveExtents_eq hfirst hne.symm,hunder,insertExtents,hkey,hinsert]
      dsimp only
      rw [if_neg herr]
      by_cases hexists : err=.btExists
      · rw [if_pos hexists]
        exact ⟨.cmBadNews,rfl,by decide,by decide⟩
      · rw [if_neg hexists]
        exact ⟨err,if_pos herr,herr,hdisk⟩
    obtain ⟨err,hmove,herr,hdisk⟩ := hmoved
    refine ⟨⟨x.tree,x.tried+1⟩,some err,?_,.inr ⟨err,rfl,herr,hT⟩⟩
    rw [exchangeOne,hmove,Option.bind_some]
    dsimp only
    rw [if_neg herr,if_pos hdisk]

lemma one_fails (h : ¬OneHolds fails x.tried (T a) (T b)) :
    ∃ y e,exchangeOne fails x a b=some (y,e) ∧ (e=none ∧ overflow y.tree a≠T b ∨ e=some .noErr ∨
        ∃ err,e=some err ∧ err≠.noErr ∧ overflow y.tree b≠T b) := by
  have hkept : NoFirst (insertExtents fails b (under x.tree a) x).1.tree := by
    have hkept := hfirst.inserted fails b a (under x.tree a).length
    rwa [take_length] at hkept
  obtain ⟨tree',hdelete,-,hover⟩ := delete_overflow hkept rfl a
  by_cases hok : (insertExtents fails b (under x.tree a) x).2=.noErr
  · refine ⟨⟨tree',(insertExtents fails b (under x.tree a) x).1.tried⟩,none,?_,.inl ⟨rfl,?_⟩⟩
    · rw [exchangeOne,MoveExtents_eq hfirst hne.symm]
      dsimp only
      rw [if_neg (not_not.mpr hok),hdelete,Option.bind_some]
      exact if_pos rfl
    · rw [hover,update_self]
      intro hnil
      refine h (.inl ⟨hnil.symm,?_⟩)
      rcases noFailure_or_first fails x.tried (T a).length with
        hall | ⟨j,hj,hfails,failure,hfail⟩
      · exact hall
      · subst hT
        rw [←length_under] at hj
        rw [insertExtents_fails _ x hj (fun e _ => get_of_empty hnil.symm e.1)
          (under_distinct x.tree a b) hfails hfail] at hok
        exact absurd hok (err_ne_noErr failure)
  · have hmove : MoveExtents fails x a b=some (insertExtents fails b (under x.tree a) x) := by
      rw [MoveExtents_eq hfirst hne.symm]
      exact if_pos hok
    by_cases hdisk : (insertExtents fails b (under x.tree a) x).2=.dskFulErr
    · refine ⟨⟨tree',(insertExtents fails b (under x.tree a) x).1.tried⟩,some .noErr,?_,
        .inr (.inl rfl)⟩
      rw [exchangeOne,hmove,Option.bind_some,if_neg hok,if_neg (not_not.mpr hdisk),hdelete]
      rfl
    · refine ⟨(insertExtents fails b (under x.tree a) x).1,
        some (insertExtents fails b (under x.tree a) x).2,?_,.inr (.inr ⟨_,rfl,hok,?_⟩)⟩
      · rw [exchangeOne,hmove,Option.bind_some,if_neg hok,if_pos hdisk]
      · -- the first record was inserted and is still there
        cases hhead : (T a).head? with
        | none =>
          subst hT
          have hnil : under x.tree a=[] := by
            rw [List.head?_eq_none_iff] at hhead
            exact map_eq_nil_iff.mp hhead
          rw [hnil] at hok
          exact absurd rfl hok
        | some e =>
          obtain ⟨rest,hunder⟩ := under_cons hT hhead
          have hnone : x.tree.get (toLex (b,e.1))=none := by
            by_contra hget
            exact h (.inr ⟨e,hhead,.inl ((mem_keys hT).mpr hget)⟩)
          have hnot : e.1∉(T b).map Prod.fst := fun hmem => (mem_keys hT).mp hmem hnone
          have hin : (insertExtents fails b (under x.tree a) x).1.tree.get
              (toLex (b,e.1))≠none := by
            rw [hunder,insertExtents]
            have hkey : ExtentKey.withFileID (toLex (a,e.1)) b=toLex (b,e.1) := rfl
            cases hfail : fails x.tried with
            | some failure =>
              cases failure with
              | other => exact absurd (.inr ⟨e,hhead,.inr hfail⟩) h
              | diskFull =>
                refine absurd ?_ hdisk
                rw [hunder,insertExtents,BTInsertRecord]
                dsimp only
                rw [hkey,if_neg (not_not.mpr hnone),hfail]
                rfl
            | none =>
              have hinsert : BTInsertRecord fails x (toLex (b,e.1)) e.2 =
                  (⟨x.tree.put (toLex (b,e.1)) e.2,x.tried+1⟩,.noErr) := by
                rw [BTInsertRecord]
                dsimp only
                rw [if_neg (not_not.mpr hnone),hfail]
              rw [hkey,hinsert]
              dsimp only
              rw [if_pos rfl]
              refine insertExtents_keeps rest _ ?_
              rw [SortedMap.get_put,if_pos rfl]
              exact Option.some_ne_none _
          intro heq
          refine hnot ?_
          rw [←heq]
          exact (mem_keys rfl).mpr hin

end One

end Darwin.Hfs.Catalog
