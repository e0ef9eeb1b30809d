import Mathlib.Tactic

/-! A text taken line by line: a line ends behind its end mark, or when it has as many characters
as the reader has room for. -/
open List
namespace Darwin.Lib.Lines

variable {α : Type} [DecidableEq α] (mark : α) (room : ℕ)

def linesFrom : List α → List α → List (List α)
  | line,[] => if line=[] then [] else [line]
  | line,c::rest =>
    if c=mark ∨ room≤line.length+1 then (line++[c])::linesFrom [] rest
    else linesFrom (line++[c]) rest

def lines (text : List α) : List (List α) := linesFrom mark room [] text

variable {mark room}

lemma linesFrom_line {body : List α} (hbody : mark∉body) (line rest : List α)
    (hroom : line.length+body.length<room) : linesFrom mark room line (body++mark::rest) =
      (line++body++[mark])::linesFrom mark room [] rest := by
  induction body generalizing line with
  | nil =>
    rw [nil_append,linesFrom,if_pos (.inl rfl),append_nil]
  | cons c body ih =>
    have hc : c≠mark := fun h => hbody (h▸mem_cons_self)
    have hlen : ¬room≤line.length+1 := by
      rw [length_cons] at hroom
      omega
    rw [cons_append,linesFrom,if_neg (not_or.mpr ⟨hc,hlen⟩),
      ih (fun h => hbody (mem_cons_of_mem c h)) (line++[c])]
    · rw [append_assoc line [c] body,singleton_append]
    · rw [length_append,length_singleton]
      rw [length_cons] at hroom
      omega

lemma lines_flatMap (bodies : List (List α))
    (h : ∀ body∈bodies,mark∉body ∧ body.length<room) :
    lines mark room (bodies.flatMap fun body => body++[mark]) =
      bodies.map fun body => body++[mark] := by
  induction bodies with
  | nil => rfl
  | cons body bodies ih =>
    obtain ⟨hbody,hroom⟩ := h body mem_cons_self
    rw [flatMap_cons,append_assoc,singleton_append,map_cons,lines,
      linesFrom_line hbody [] _ (by rwa [length_nil,Nat.zero_add]),nil_append]
    exact congrArg _ (ih fun b hb => h b (mem_cons_of_mem body hb))

lemma notMem_linesFrom {line text : List α} (hline : mark∉line) {l : List α}
    (hl : l∈linesFrom mark room line text) : mark∉l.dropLast := by
  induction text generalizing line with
  | nil =>
    rw [linesFrom] at hl
    split_ifs at hl with hnil
    · exact absurd hl not_mem_nil
    · rw [mem_singleton.mp hl]
      exact fun hm => hline (mem_of_mem_dropLast hm)
  | cons c rest ih =>
    rw [linesFrom] at hl
    split_ifs at hl with hend
    · rcases mem_cons.mp hl with rfl | hrest
      · rwa [dropLast_concat]
      · exact ih not_mem_nil hrest
    · have hc : mark≠c := fun h => hend (.inl h.symm)
      refine ih ?_ hl
      rw [mem_append,mem_singleton]
      exact not_or.mpr ⟨hline,hc⟩

lemma notMem_lines {text l : List α} (hl : l∈lines mark room text) : mark∉l.dropLast :=
  notMem_linesFrom not_mem_nil hl

end Darwin.Lib.Lines
