import Mathlib.Data.List.Infix

/-! The receiver of the DATA phase of SMTP: lines end in CRLF, the line of a single dot ends
the message, other lines lose one leading dot. -/
namespace Libsme.Semantics.Rfc5321

def crlf : List UInt8 := [13,10]

def dot : UInt8 := 46

def stream (lines : List (List UInt8)) : List UInt8 := lines.flatMap (· ++ crlf)

/-- The line up to the first CRLF, and what follows it. -/
def nextLine : List UInt8 → Option (List UInt8 × List UInt8)
  | [] => none
  | [_] => none
  | first::second::rest =>
    if first = 13 ∧ second = 10 then some ([],rest)
    else (nextLine (second::rest)).map fun found => (first::found.1,found.2)

theorem nextLine_length {bytes line rest : List UInt8} (found : nextLine bytes = some (line,rest)) :
    rest.length < bytes.length := by
  induction bytes generalizing line with
  | nil => simp [nextLine] at found
  | cons first bytes ih =>
    cases bytes with
    | nil => simp [nextLine] at found
    | cons second bytes =>
      rw [nextLine] at found
      split at found
      · obtain ⟨_,rfl⟩ := Prod.mk.inj (Option.some.inj found)
        simp only [List.length_cons]
        omega
      · obtain ⟨later,next,same⟩ := Option.map_eq_some_iff.mp found
        have shorter : nextLine (second::bytes) = some (later.1,rest) := by
          rw [next,← (Prod.mk.inj same).2]
        have less := ih shorter
        exact Nat.lt_succ_of_lt less

def unstuff : List UInt8 → List UInt8
  | [] => []
  | first::rest => if first = dot then rest else first::rest

/-- The message, and what is left over for the next command; none if the end never comes. -/
def receiveData (bytes : List UInt8) : Option (List UInt8 × List UInt8) :=
  match _found : nextLine bytes with
  | none => none
  | some (line,rest) =>
    if line = [dot] then some ([],rest)
    else (receiveData rest).map fun received => (unstuff line ++ crlf ++ received.1,received.2)
termination_by bytes.length
decreasing_by exact nextLine_length _found

theorem nextLine_line {line : List UInt8} (whole : ¬crlf <:+: line) (rest : List UInt8) :
    nextLine (line ++ crlf ++ rest) = some (line,rest) := by
  induction line with
  | nil => simp [crlf,nextLine]
  | cons first line ih =>
    have later : ¬crlf <:+: line := fun inside => whole (inside.trans (List.suffix_cons first line).isInfix)
    have next := ih later
    cases line with
    | nil =>
      have other : ¬(first = 13 ∧ (13 : UInt8) = 10) := fun both => absurd both.2 (by decide)
      simp only [List.nil_append,crlf,List.cons_append] at next ⊢
      rw [nextLine,if_neg other,next]
      rfl
    | cons second line =>
      have other : ¬(first = 13 ∧ second = 10) := by
        rintro ⟨rfl,rfl⟩
        exact whole ⟨[],line,rfl⟩
      simp only [List.cons_append] at next ⊢
      rw [nextLine,if_neg other,next]
      rfl

theorem receiveData_line {line : List UInt8} (whole : ¬crlf <:+: line) (rest : List UInt8) :
    receiveData (line ++ crlf ++ rest) =
      if line = [dot] then some ([],rest)
      else (receiveData rest).map fun received => (unstuff line ++ crlf ++ received.1,received.2) := by
  rw [receiveData]
  split
  · rename_i missing
    rw [nextLine_line whole rest] at missing
    exact absurd missing (Option.some_ne_none _)
  · rename_i found
    rw [nextLine_line whole rest] at found
    obtain ⟨rfl,rfl⟩ := Prod.mk.inj (Option.some.inj found)
    rfl

theorem unstuff_of_plain {line : List UInt8} (plain : line.head? ≠ some dot) : unstuff line = line := by
  cases line with
  | nil => rfl
  | cons first rest => rw [unstuff,if_neg fun same => plain (congrArg some same)]

theorem unstuff_length (line : List UInt8) : (unstuff line).length ≤ line.length := by
  cases line with
  | nil => exact Nat.le_refl _
  | cons first rest =>
    rw [unstuff]
    split
    · exact Nat.le_succ _
    · exact Nat.le_refl _

section Lines
variable {lines : List (List UInt8)} {rest text left : List UInt8}

theorem stream_cons (line : List UInt8) (lines : List (List UInt8)) (rest : List UInt8) :
    stream (line::lines) ++ rest = line ++ crlf ++ (stream lines ++ rest) := by
  simp only [stream,List.flatMap_cons,List.append_assoc]

theorem receiveData_length (whole : ∀ line ∈ lines, ¬crlf <:+: line) (ends : receiveData rest = some (text,left))
    {received left' : List UInt8} (result : receiveData (stream lines ++ rest) = some (received,left')) :
    received.length ≤ (stream lines ++ text).length := by
  induction lines generalizing received with
  | nil =>
    rw [stream,List.flatMap_nil,List.nil_append,ends] at result
    rw [← (Prod.mk.inj (Option.some.inj result)).1]
    exact Nat.le_refl _
  | cons line lines ih =>
    have here := whole line List.mem_cons_self
    have later : ∀ other ∈ lines, ¬crlf <:+: other := fun other member => whole other (List.mem_cons_of_mem _ member)
    rw [stream_cons,receiveData_line here] at result
    split at result
    · rw [← (Prod.mk.inj (Option.some.inj result)).1]
      exact Nat.zero_le _
    · obtain ⟨next,found,same⟩ := Option.map_eq_some_iff.mp result
      obtain ⟨rfl,rfl⟩ := Prod.mk.inj same
      have less := ih later found
      have short := unstuff_length line
      rw [stream_cons]
      simp only [List.length_append] at less ⊢
      omega

/-- Lines pass through unchanged just when none begins with a dot. -/
theorem receiveData_stream_iff (whole : ∀ line ∈ lines, ¬crlf <:+: line)
    (ends : receiveData rest = some (text,left)) :
    receiveData (stream lines ++ rest) = some (stream lines ++ text,left) ↔
      ∀ line ∈ lines, line.head? ≠ some dot := by
  induction lines with
  | nil => exact iff_of_true ends fun _ member => absurd member List.not_mem_nil
  | cons line lines ih =>
    have here := whole line List.mem_cons_self
    have later : ∀ other ∈ lines, ¬crlf <:+: other := fun other member => whole other (List.mem_cons_of_mem _ member)
    rw [stream_cons,stream_cons,receiveData_line here,List.forall_mem_cons]
    by_cases plain : line.head? ≠ some dot
    · have other : line ≠ [dot] := fun same => plain (by rw [same]; rfl)
      rw [if_neg other,unstuff_of_plain plain]
      simp only [plain,ne_eq,not_false_eq_true,true_and]
      rw [← ih later,Option.map_eq_some_iff]
      constructor
      · rintro ⟨next,found,same⟩
        obtain ⟨texts,lefts⟩ := Prod.mk.inj same
        rw [found,← List.append_cancel_left texts,← lefts]
      · intro found
        exact ⟨_,found,rfl⟩
    · refine iff_of_false ?_ fun both => plain both.1
      intro result
      obtain ⟨tail,rfl⟩ : ∃ tail, line = dot::tail := by
        cases line with
        | nil => exact absurd (by simp) plain
        | cons first tail => exact ⟨tail,by rw [Option.some.inj (not_not.mp plain)]⟩
      split at result
      · have empty := (Prod.mk.inj (Option.some.inj result)).1
        simp at empty
      · obtain ⟨next,found,same⟩ := Option.map_eq_some_iff.mp result
        have bound := receiveData_length later ends found
        have size := congrArg List.length (Prod.mk.inj same).1
        rw [unstuff,if_pos rfl] at size
        simp only [List.length_append,List.length_cons] at bound size
        omega

end Lines

/-- The lines that the receiver of commands reads, and what is left without an end. -/
def linesOf (bytes : List UInt8) : List (List UInt8) × List UInt8 :=
  match _found : nextLine bytes with
  | none => ([],bytes)
  | some (line,rest) => (line::(linesOf rest).1,(linesOf rest).2)
termination_by bytes.length
decreasing_by all_goals exact nextLine_length _found

theorem nextLine_split {bytes line rest : List UInt8} (found : nextLine bytes = some (line,rest)) :
    bytes = line ++ crlf ++ rest := by
  induction bytes generalizing line with
  | nil => simp [nextLine] at found
  | cons first bytes ih =>
    cases bytes with
    | nil => simp [nextLine] at found
    | cons second bytes =>
      rw [nextLine] at found
      split at found
      · rename_i ends
        obtain ⟨rfl,rfl⟩ := Prod.mk.inj (Option.some.inj found)
        rw [ends.1,ends.2]
        rfl
      · obtain ⟨later,next,same⟩ := Option.map_eq_some_iff.mp found
        obtain ⟨rfl,rfl⟩ := Prod.mk.inj same
        rw [ih next]
        rfl

theorem linesOf_line {line : List UInt8} (whole : ¬crlf <:+: line) (rest : List UInt8) :
    linesOf (line ++ crlf ++ rest) = (line::(linesOf rest).1,(linesOf rest).2) := by
  rw [linesOf]
  split
  · rename_i missing
    rw [nextLine_line whole rest] at missing
    exact absurd missing (Option.some_ne_none _)
  · rename_i found
    rw [nextLine_line whole rest] at found
    obtain ⟨rfl,rfl⟩ := Prod.mk.inj (Option.some.inj found)
    rfl

theorem linesOf_nil : linesOf [] = ([],[]) := by
  rw [linesOf]
  split
  · rfl
  · rename_i found
    exact absurd found (by simp [nextLine])

theorem linesOf_stream {lines : List (List UInt8)} (whole : ∀ line ∈ lines, ¬crlf <:+: line) :
    linesOf (stream lines) = (lines,[]) := by
  induction lines with
  | nil => exact linesOf_nil
  | cons line lines ih =>
    obtain ⟨here,later⟩ := List.forall_mem_cons.mp whole
    have first := linesOf_line here (stream lines)
    rwa [ih later] at first

theorem stream_linesOf (bytes : List UInt8) : stream (linesOf bytes).1 ++ (linesOf bytes).2 = bytes := by
  induction size : bytes.length using Nat.strongRecOn generalizing bytes with
  | ind length ih =>
    rw [linesOf]
    split
    · rfl
    · rename_i line rest found
      have less := nextLine_length found
      have later := ih rest.length (by omega) rest rfl
      rw [stream_cons,later]
      exact (nextLine_split found).symm

end Libsme.Semantics.Rfc5321
