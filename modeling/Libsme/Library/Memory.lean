import Mathlib.Data.List.Infix
import Mathlib.Data.List.TakeWhile

/-! Flat memory as a list of cells: block reads, block writes, terminated strings
and substring search. A read past the list yields the default cell, so that an
access outside an object has a value; whether it stays inside is a separate
question about the access, not about the value. -/
namespace Libsme.Memory

variable {α : Type}

section Blocks
variable [Inhabited α]

def fetch (memory : List α) (start count : Nat) : List α :=
  (List.range count).map fun i => memory.getD (start+i) default

@[simp] theorem fetch_length (memory : List α) (start count : Nat) :
    (fetch memory start count).length = count := by simp [fetch]

theorem fetch_eq_take_drop (memory : List α) (start count : Nat) (inside : start+count ≤ memory.length) :
    fetch memory start count = (memory.drop start).take count := by
  apply List.ext_getElem
  · simp only [fetch_length,List.length_take,List.length_drop]
    omega
  · intro i left right
    have bound : i < count := by simpa using left
    simp [fetch,List.getElem?_eq_getElem (by omega : start+i < memory.length)]

theorem fetch_append (front block rest : List α) :
    fetch (front ++ (block ++ rest)) front.length block.length = block := by
  apply List.ext_getElem
  · simp
  · intro i left right
    simp [fetch,List.getElem?_append_right,List.getElem?_append_left right,right]

theorem fetch_prefix (memory rest : List α) (start count : Nat) (inside : start+count ≤ memory.length) :
    fetch (memory ++ rest) start count = fetch memory start count := by
  apply List.map_congr_left
  intro i member
  have bound := List.mem_range.mp member
  simp only [List.getD_eq_getElem?_getD]
  rw [List.getElem?_append_left (by omega)]

theorem fetch_take (memory : List α) {start count size : Nat} (inside : start+count ≤ size) :
    fetch (memory.take size) start count = fetch memory start count := by
  apply List.map_congr_left
  intro i member
  have bound := List.mem_range.mp member
  simp only [List.getD_eq_getElem?_getD]
  rw [List.getElem?_take_of_lt (by omega)]

theorem fetch_of_split {memory front block rest : List α} {start count : Nat}
    (split : memory = front ++ (block ++ rest)) (begins : front.length = start)
    (size : block.length = count) : fetch memory start count = block := by
  subst split begins size
  exact fetch_append front block rest

end Blocks

def overwrite (memory : List α) (start : Nat) (block : List α) : List α :=
  memory.take start ++ block ++ memory.drop (start+block.length)

theorem overwrite_length (memory : List α) (start : Nat) (block : List α)
    (inside : start+block.length ≤ memory.length) :
    (overwrite memory start block).length = memory.length := by
  simp only [overwrite,List.length_append,List.length_take,List.length_drop]
  omega

theorem overwrite_take (memory : List α) (start : Nat) (block : List α)
    (inside : start ≤ memory.length) :
    (overwrite memory start block).take (start+block.length) = memory.take start ++ block := by
  have size : (memory.take start ++ block).length = start+block.length := by
    simp [List.length_take,inside]
  rw [overwrite,← size,List.take_left]

theorem overwrite_overwrite (memory first second : List α) {start : Nat} (inside : start ≤ memory.length) :
    overwrite (overwrite memory start first) (start+first.length) second = overwrite memory start (first ++ second) := by
  have size : (memory.take start ++ first).length = start+first.length := by
    simp [List.length_take,inside]
  have behind : (overwrite memory start first).drop (start+first.length+second.length) =
      memory.drop (start+(first ++ second).length) := by
    rw [← List.drop_drop,overwrite,List.drop_left' size,List.drop_drop,List.length_append,Nat.add_assoc]
  rw [overwrite,overwrite_take memory start first inside,behind,overwrite]
  simp only [List.append_assoc]

theorem overwrite_start (memory block : List α) :
    overwrite memory 0 block = block ++ memory.drop block.length := by
  simp [overwrite]

theorem overwrite_getD (memory block : List α) {start : Nat} (inside : start+block.length ≤ memory.length)
    (i : Nat) (cell : α) : (overwrite memory start block).getD i cell =
      if start ≤ i ∧ i < start+block.length then block.getD (i-start) cell else memory.getD i cell := by
  have front : (memory.take start).length = start := by
    rw [List.length_take]
    omega
  simp only [overwrite,List.getD_eq_getElem?_getD]
  split
  · rename_i within
    rw [List.getElem?_append_left (by rw [List.length_append]; omega),List.getElem?_append_right (by omega),front]
  · rename_i outside
    congr 1
    rcases Nat.lt_or_ge i start with before | after
    · rw [List.getElem?_append_left (by rw [List.length_append]; omega),List.getElem?_append_left (by omega),
        List.getElem?_take_of_lt before]
    · rw [List.getElem?_append_right (by rw [List.length_append]; omega),List.getElem?_drop,List.length_append,front]
      congr 1
      omega

/-- `needle` follows `front` in `haystack` and starts nowhere before it. -/
structure FirstOccurrence (needle haystack front rest : List α) : Prop where
  split : haystack = front ++ (needle ++ rest)
  first : ∀ shorter other, haystack = shorter ++ (needle ++ other) → front.length ≤ shorter.length

theorem FirstOccurrence.tail {needle haystack front rest : List α} {cell : α}
    (found : FirstOccurrence needle (cell::haystack) (cell::front) rest) :
    FirstOccurrence needle haystack front rest := by
  refine ⟨(List.cons.inj found.split).2,?_⟩
  intro shorter other split
  have bound := found.first (cell::shorter) other (by simp [split])
  simpa using bound

private theorem prefix_stop_iff {needle : List α} {stop : α} (absent : stop ∉ needle) (cells rest : List α) :
    needle <+: cells ++ stop::rest ↔ needle <+: cells := by
  constructor
  · intro starts
    rcases Nat.le_total needle.length cells.length with short | long
    · exact List.prefix_of_prefix_length_le starts (List.prefix_append _ _) short
    · have front : cells <+: needle := List.prefix_of_prefix_length_le (List.prefix_append _ _) starts long
      obtain ⟨more,rfl⟩ := front
      cases more with
      | nil => simp
      | cons head more =>
        have same := (List.cons_prefix_cons.mp ((List.prefix_append_right_inj cells).mp starts)).1
        exact absurd (by simp [same]) absent
  · exact fun starts => starts.trans (List.prefix_append _ _)

section Strings
variable [DecidableEq α]

/-- The string that starts the memory: its cells before the first terminator. -/
def text (terminator : α) (memory : List α) : List α :=
  memory.takeWhile (· ≠ terminator)

theorem terminator_not_mem_text (terminator : α) (memory : List α) :
    terminator ∉ text terminator memory := by
  intro member
  simpa using List.mem_takeWhile_imp member

theorem text_of_not_mem {terminator : α} {memory : List α} (absent : terminator ∉ memory) :
    text terminator memory = memory := by
  apply List.takeWhile_eq_self_iff.mpr
  intro cell member
  simpa using fun same : cell = terminator => absent (same ▸ member)

theorem text_append {terminator : α} {string : List α} (absent : terminator ∉ string) (rest : List α) :
    text terminator (string ++ rest) = string ++ text terminator rest := by
  apply List.takeWhile_append_of_pos
  intro cell member
  simpa using fun same : cell = terminator => absent (same ▸ member)

theorem text_terminated {terminator : α} {string : List α} (absent : terminator ∉ string) (rest : List α) :
    text terminator (string ++ terminator::rest) = string := by
  rw [text_append absent]
  simp [text]

theorem text_append_eq_iff {terminator : α} {string : List α} (absent : terminator ∉ string) (rest : List α) :
    text terminator (string ++ rest) = string ↔ rest = [] ∨ rest.head? = some terminator := by
  rw [text_append absent,List.append_right_eq_self]
  cases rest with
  | nil => simp [text]
  | cons cell rest => by_cases ends : cell = terminator <;> simp [text,ends]

theorem text_overwrite_terminated {terminator : α} {memory block : List α} {start : Nat}
    (inside : start ≤ memory.length) (clean : terminator ∉ memory.take start ++ block) :
    text terminator (overwrite (overwrite memory start block) (start+block.length) [terminator]) =
      memory.take start ++ block := by
  rw [overwrite,overwrite_take memory start block inside,List.append_assoc,List.singleton_append]
  exact text_terminated clean _

theorem text_split (terminator : α) (memory : List α) :
    ∃ rest, memory = text terminator memory ++ rest ∧ (rest = [] ∨ rest.head? = some terminator) := by
  refine ⟨memory.dropWhile (· ≠ terminator),List.takeWhile_append_dropWhile.symm,?_⟩
  cases remaining : memory.dropWhile (· ≠ terminator) with
  | nil => exact Or.inl rfl
  | cons cell rest =>
    have stop := List.head?_dropWhile_not (· ≠ terminator) memory
    rw [remaining] at stop
    simpa using stop

theorem text_concat (terminator : α) (memory : List α) :
    text terminator (memory ++ [terminator]) = text terminator memory := by
  by_cases absent : terminator ∉ memory
  · rw [text_terminated absent,text_of_not_mem absent]
  · obtain ⟨front,rest,split,clean⟩ := List.eq_append_cons_of_mem (not_not.mp absent)
    rw [split,List.append_assoc,List.cons_append,text_terminated clean,text_terminated clean]

theorem take_text (terminator : α) (memory : List α) :
    memory.take (text terminator memory).length = text terminator memory :=
  (List.prefix_iff_eq_take.mp (List.takeWhile_prefix _)).symm

def occurrence (needle : List α) : List α → Option Nat
  | [] => if needle = [] then some 0 else none
  | cell::rest =>
    if needle <+: cell::rest then some 0 else (occurrence needle rest).map (·+1)

theorem occurrence_eq_none_iff (needle haystack : List α) :
    occurrence needle haystack = none ↔ ¬needle <:+: haystack := by
  induction haystack with
  | nil => by_cases empty : needle = [] <;> simp [occurrence,empty]
  | cons cell rest ih =>
    by_cases here : needle <+: cell::rest
    · simp [occurrence,here,here.isInfix]
    · simp [occurrence,here,ih,List.infix_cons_iff]

theorem occurrence_le {needle haystack shorter other : List α} {offset : Nat}
    (found : occurrence needle haystack = some offset) (split : haystack = shorter ++ (needle ++ other)) :
    offset ≤ shorter.length := by
  induction haystack generalizing shorter offset with
  | nil =>
    have empty := List.append_eq_nil_iff.mp split.symm
    simp [occurrence,(List.append_eq_nil_iff.mp empty.2).1] at found
    omega
  | cons cell haystack ih =>
    by_cases here : needle <+: cell::haystack
    · simp [occurrence,here] at found
      omega
    · simp only [occurrence,here,if_false,Option.map_eq_some_iff] at found
      obtain ⟨earlier,located,rfl⟩ := found
      cases shorter with
      | nil => exact absurd ⟨other,split.symm⟩ here
      | cons head shorter =>
        have bound := ih located (List.cons.inj split).2
        simpa using bound

theorem FirstOccurrence.of_occurrence {needle haystack front rest : List α}
    (split : haystack = front ++ (needle ++ rest)) (found : occurrence needle haystack = some front.length) :
    FirstOccurrence needle haystack front rest :=
  ⟨split,fun _ _ other => occurrence_le found other⟩

theorem occurrence_of_first {needle haystack front rest : List α}
    (found : FirstOccurrence needle haystack front rest) :
    occurrence needle haystack = some front.length := by
  induction haystack generalizing front with
  | nil =>
    have empty := List.append_eq_nil_iff.mp found.split.symm
    simp [occurrence,empty.1,(List.append_eq_nil_iff.mp empty.2).1]
  | cons cell haystack ih =>
    cases front with
    | nil =>
      have here : needle <+: cell::haystack := ⟨rest,found.split.symm⟩
      simp [occurrence,here]
    | cons head front =>
      have same : cell = head := (List.cons.inj found.split).1
      subst same
      have absent : ¬needle <+: cell::haystack := by
        rintro ⟨other,split⟩
        have bound := found.first [] other split.symm
        simp at bound
      simp [occurrence,absent,ih found.tail]

theorem occurrence_split {needle haystack : List α} {offset : Nat}
    (found : occurrence needle haystack = some offset) :
    ∃ front rest, FirstOccurrence needle haystack front rest ∧ front.length = offset := by
  have split : ∃ front rest, haystack = front ++ (needle ++ rest) ∧ front.length = offset := by
    induction haystack generalizing offset with
    | nil =>
      by_cases empty : needle = []
      · simp only [occurrence,empty,if_true,Option.some_inj] at found
        exact ⟨[],[],by simp [empty],found⟩
      · simp [occurrence,empty] at found
    | cons cell haystack ih =>
      by_cases here : needle <+: cell::haystack
      · obtain ⟨rest,same⟩ := here
        simp only [occurrence,← same,List.prefix_append,if_true,Option.some_inj] at found
        exact ⟨[],rest,same.symm,found⟩
      · simp only [occurrence,here,if_false,Option.map_eq_some_iff] at found
        obtain ⟨earlier,located,rfl⟩ := found
        obtain ⟨front,rest,same,length⟩ := ih located
        exact ⟨cell::front,rest,by rw [same]; rfl,by rw [List.length_cons,length]⟩
  obtain ⟨front,rest,same,rfl⟩ := split
  exact ⟨front,rest,.of_occurrence same found,rfl⟩

/-- No occurrence spans a cell that the needle does not have. -/
theorem occurrence_stop {needle : List α} {stop : α} (absent : stop ∉ needle) (nonempty : needle ≠ [])
    (cells rest : List α) : occurrence needle (cells ++ stop::rest) =
      (occurrence needle cells).or ((occurrence needle rest).map (·+(cells.length+1))) := by
  induction cells with
  | nil =>
    have here : ¬needle <+: stop::rest := fun starts =>
      nonempty (List.prefix_nil.mp ((prefix_stop_iff absent [] rest).mp starts))
    simp [occurrence,here,nonempty]
  | cons cell cells ih =>
    have same := prefix_stop_iff absent (cell::cells) rest
    rw [List.cons_append] at same
    by_cases here : needle <+: cell::cells
    · simp [occurrence,here,same]
    · simp only [List.cons_append,occurrence,here,same,if_false,ih]
      cases occurrence needle cells <;> cases occurrence needle rest <;> simp [Nat.add_assoc]

end Strings

abbrev cstr (memory : List UInt8) : List UInt8 := text 0 memory

theorem cstr_append {string : List UInt8} (absent : 0 ∉ string) (rest : List UInt8) :
    cstr (string ++ rest) = string ++ cstr rest := text_append absent rest

theorem cstr_terminated {string : List UInt8} (absent : 0 ∉ string) (rest : List UInt8) :
    cstr (string ++ 0::rest) = string := text_terminated absent rest

end Libsme.Memory
