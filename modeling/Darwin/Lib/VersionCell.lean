import Mathlib.Data.BitVec

/-! A cell with a version number of `w` bits. A write adds one to the version, a removal forgets
it, and a reader that remembers a version tries to find out whether the cell has changed. -/
namespace Darwin.VersionCell

inductive CellEvent
  | write
  | removal
  deriving DecidableEq,Repr

variable {w : ℕ}

def replayEvent (v : Option (BitVec w)) : CellEvent → Option (BitVec w)
  | .write => some (v.getD 0+1)
  | .removal => none

def replay (v : Option (BitVec w)) (es : List CellEvent) : Option (BitVec w) :=
  es.foldl replayEvent v

def lateWrites (es : List CellEvent) : ℕ :=
  es.foldl (fun n e => match e with
    | .write => n+1
    | .removal => 0) 0

/-- The events after which the cell holds a version other than `i`: rewrites alone, unless they
bring the counter round, or a removal followed by a number of writes that `i` does not stand for. -/
def Detectable (i : BitVec w) (es : List CellEvent) : Prop :=
  if .removal∈es then lateWrites es≠0 ∧ BitVec.ofNat w (lateWrites es)≠i
  else BitVec.ofNat w es.length≠0

@[simp] lemma replay_nil (v : Option (BitVec w)) : replay v []=v := rfl

lemma replay_append (v : Option (BitVec w)) (es fs : List CellEvent) :
    replay v (es++fs)=replay (replay v es) fs := List.foldl_append

lemma lateWrites_write (es : List CellEvent) : lateWrites (es++[.write])=lateWrites es+1 := by
  simp [lateWrites]

lemma lateWrites_removal (es : List CellEvent) : lateWrites (es++[.removal])=0 := by
  simp [lateWrites]

lemma replay_some (i : BitVec w) (es : List CellEvent) : replay (some i) es =
      if .removal∈es then
        if lateWrites es=0 then none else some (BitVec.ofNat w (lateWrites es))
      else some (i+BitVec.ofNat w es.length) := by
  induction es using List.reverseRecOn with
  | nil => simp [BitVec.ofNat]
  | append_singleton es e ih =>
    rw [replay_append,ih]
    cases e with
    | removal => simp [replay,replayEvent,lateWrites_removal]
    | write =>
      rw [lateWrites_write]
      by_cases hr : .removal∈es
      · by_cases hn : lateWrites es=0
        · simp [replay,replayEvent,hr,hn]
        · simp [replay,replayEvent,hr,hn,BitVec.ofNat_add]
      · simp [replay,replayEvent,hr,BitVec.ofNat_add,BitVec.add_assoc]

/-- A reader that remembers version `i` sees a change exactly after the detectable events. -/
theorem replay_detects_iff (i : BitVec w) (es : List CellEvent) :
    (∃ v,replay (some i) es=some v ∧ v≠i) ↔ Detectable i es := by
  rw [replay_some,Detectable]
  by_cases hr : .removal∈es
  · by_cases hn : lateWrites es=0
    · simp [hr,hn]
    · simp [hr,hn]
  · simp only [hr,if_false,Option.some.injEq,exists_eq_left']
    rw [not_iff_not]
    exact add_eq_left

end Darwin.VersionCell
