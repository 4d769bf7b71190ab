import Mathlib.Data.List.Induction

/-! Cutting a stream, cell by cell, into the lines that a newline cell ends and the
unfinished rest. -/
namespace Libsme.Lines

variable {α β : Type} [DecidableEq α] [DecidableEq β]

def feed (newline : α) (state : List (List α) × List α) (cell : α) : List (List α) × List α :=
  if cell = newline then (state.1 ++ [state.2 ++ [cell]],[]) else (state.1,state.2 ++ [cell])

def split (newline : α) (cells : List α) : List (List α) × List α := cells.foldl (feed newline) ([],[])

def lines (newline : α) (cells : List α) : List (List α) := (split newline cells).1

def unfinished (newline : α) (cells : List α) : List α := (split newline cells).2

variable {newline : α}

private theorem split_concat (cells : List α) (cell : α) :
    split newline (cells ++ [cell]) = feed newline (split newline cells) cell := by
  simp [split]

theorem lines_newline (cells : List α) :
    lines newline (cells ++ [newline]) = lines newline cells ++ [unfinished newline cells ++ [newline]] := by
  simp [lines,unfinished,split_concat,feed]

theorem unfinished_newline (cells : List α) : unfinished newline (cells ++ [newline]) = [] := by
  simp [unfinished,split_concat,feed]

theorem lines_other (cells : List α) {cell : α} (other : cell ≠ newline) :
    lines newline (cells ++ [cell]) = lines newline cells := by
  simp [lines,split_concat,feed,other]

theorem unfinished_other (cells : List α) {cell : α} (other : cell ≠ newline) :
    unfinished newline (cells ++ [cell]) = unfinished newline cells ++ [cell] := by
  simp [unfinished,split_concat,feed,other]

theorem flatten_lines (newline : α) (cells : List α) : (lines newline cells).flatten ++ unfinished newline cells = cells := by
  induction cells using List.reverseRecOn with
  | nil => rfl
  | append_singleton cells cell ih =>
    by_cases same : cell = newline
    · subst same
      rw [lines_newline,unfinished_newline,List.flatten_append,List.flatten_singleton,List.append_nil,
        ← List.append_assoc,ih]
    · rw [lines_other cells same,unfinished_other cells same,← List.append_assoc,ih]

theorem mem_of_mem_unfinished {cells : List α} {cell : α} (member : cell ∈ unfinished newline cells) :
    cell ∈ cells := by
  rw [← flatten_lines newline cells]
  exact List.mem_append_right _ member

theorem lines_prefix (newline : α) (cells more : List α) : lines newline cells <+: lines newline (cells ++ more) := by
  induction more using List.reverseRecOn with
  | nil => simp
  | append_singleton more cell ih =>
    rw [← List.append_assoc]
    by_cases same : cell = newline
    · subst same
      rw [lines_newline]
      exact ih.trans (List.prefix_append _ _)
    · rw [lines_other _ same]
      exact ih

/-- What is unfinished on the way is part of a line or of the rest. -/
theorem unfinished_length_le {bound : Nat} (cells more : List α)
    (short : ∀ line ∈ lines newline (cells ++ more), line.length ≤ bound)
    (rest : (unfinished newline (cells ++ more)).length ≤ bound) :
    (unfinished newline cells).length ≤ bound := by
  induction more generalizing cells with
  | nil => simpa using rest
  | cons cell more ih =>
    have step := ih (cells ++ [cell]) (by simpa using short) (by simpa using rest)
    by_cases same : cell = newline
    · subst same
      have member : unfinished cell cells ++ [cell] ∈ lines cell (cells ++ cell::more) := by
        have earlier := lines_prefix cell (cells ++ [cell]) more
        rw [List.append_assoc,List.singleton_append] at earlier
        apply earlier.subset
        simp [lines_newline]
      have size := short _ member
      rw [List.length_append] at size
      omega
    · rw [unfinished_other cells same,List.length_append] at step
      omega

theorem split_map (f : α → β) {newline' : β} (same : ∀ cell, f cell = newline' ↔ cell = newline)
    (cells : List α) : split newline' (cells.map f) =
      ((lines newline cells).map (List.map f),(unfinished newline cells).map f) := by
  induction cells using List.reverseRecOn with
  | nil => rfl
  | append_singleton cells cell ih =>
    rw [List.map_append,List.map_singleton,split_concat,ih,feed]
    by_cases ends : cell = newline
    · subst ends
      rw [if_pos ((same cell).mpr rfl),lines_newline,unfinished_newline]
      simp
    · rw [if_neg (mt (same cell).mp ends),lines_other cells ends,unfinished_other cells ends]
      simp

end Libsme.Lines
