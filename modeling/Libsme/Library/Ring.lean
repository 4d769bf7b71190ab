import Mathlib.Data.List.Basic

/-! Cyclic arrays. A ring of `size` slots is used from a start index up to a finish
index; the two are equal when it is empty, so that one slot always stays free. -/
namespace Libsme.Ring

def next (size index : Nat) : Nat := if index+1 = size then 0 else index+1

/-- The slot `offset` places after `start`, at most once around. -/
def slot (size start offset : Nat) : Nat :=
  if start+offset < size then start+offset else start+offset-size

def used (size start finish : Nat) : Nat :=
  if start ≤ finish then finish-start else finish+size-start

def slots (size start finish : Nat) : List Nat :=
  (List.range (used size start finish)).map (slot size start)

section Indices
variable {size start finish : Nat}

theorem next_lt (bound : start < size) : next size start < size := by
  unfold next
  split <;> omega

theorem next_inj (same : next size start = next size finish) : start = finish := by
  unfold next at same
  split at same <;> split at same <;> omega

theorem used_lt (first : start < size) (last : finish < size) : used size start finish < size := by
  unfold used
  split <;> omega

theorem used_eq_zero_iff (first : start < size) : used size start finish = 0 ↔ start = finish := by
  unfold used
  split <;> omega

theorem slot_used (first : start < size) (last : finish < size) :
    slot size start (used size start finish) = finish := by
  unfold slot used
  split <;> split <;> omega

theorem slot_zero (first : start < size) : slot size start 0 = start := by
  simp [slot,first]

theorem slot_next {offset : Nat} (bound : offset+1 < size) :
    slot size (next size start) offset = slot size start (offset+1) := by
  unfold slot next
  split <;> split <;> split <;> omega

theorem used_next_finish (first : start < size) (room : start ≠ next size finish) :
    used size start (next size finish) = used size start finish + 1 := by
  unfold next at room ⊢
  by_cases wraps : finish+1 = size
  · rw [if_pos wraps] at room ⊢
    unfold used
    split <;> split <;> omega
  · rw [if_neg wraps] at room ⊢
    unfold used
    split <;> split <;> omega

theorem used_next_start (first : start < size) (last : finish < size) (filled : start ≠ finish) :
    used size start finish = used size (next size start) finish + 1 := by
  unfold next
  by_cases wraps : start+1 = size
  · rw [if_pos wraps]
    unfold used
    split <;> split <;> omega
  · rw [if_neg wraps]
    unfold used
    split <;> split <;> omega

theorem slots_empty (size start : Nat) : slots size start start = [] := by
  simp [slots,used]

theorem slots_next_finish (first : start < size) (last : finish < size) (room : start ≠ next size finish) :
    slots size start (next size finish) = slots size start finish ++ [finish] := by
  rw [slots,used_next_finish first room,List.range_succ,List.map_append,List.map_singleton,
    slot_used first last]
  rfl

theorem slots_next_start (first : start < size) (last : finish < size) (filled : start ≠ finish) :
    slots size start finish = start::slots size (next size start) finish := by
  have short := used_lt first last
  rw [slots,used_next_start first last filled,List.range_succ_eq_map,List.map_cons,List.map_map,
    slot_zero first]
  congr 1
  apply List.map_congr_left
  intro offset member
  have bound := List.mem_range.mp member
  rw [used_next_start first last filled] at short
  exact (slot_next (by omega)).symm

theorem finish_not_mem_slots (last : finish < size) :
    finish ∉ slots size start finish := by
  intro member
  obtain ⟨offset,inside,same⟩ := List.mem_map.mp member
  have bound := List.mem_range.mp inside
  unfold slot at same
  unfold used at bound
  split at same <;> split at bound <;> omega

end Indices

section Contents
variable {α : Type} [Inhabited α] {cells : List α} {start finish : Nat}

/-- The cells in use, oldest first. -/
def contents (cells : List α) (start finish : Nat) : List α :=
  (slots cells.length start finish).map fun index => cells.getD index default

theorem contents_length (cells : List α) (start finish : Nat) :
    (contents cells start finish).length = used cells.length start finish := by
  simp [contents,slots]

theorem contents_empty (cells : List α) (start : Nat) : contents cells start start = [] := by
  simp [contents,slots_empty]

variable {size : Nat}

theorem contents_set (length : cells.length = size) {index : Nat} (unused : index ∉ slots size start finish)
    (value : α) : contents (cells.set index value) start finish = contents cells start finish := by
  rw [contents,contents,List.length_set,length]
  apply List.map_congr_left
  intro other member
  have differs : index ≠ other := fun same => unused (same ▸ member)
  simp [List.getD_eq_getElem?_getD,List.getElem?_set_ne differs]

theorem contents_next_finish (length : cells.length = size) (first : start < size) (last : finish < size)
    (room : start ≠ next size finish) :
    contents cells start (next size finish) = contents cells start finish ++ [cells.getD finish default] := by
  rw [contents,length,slots_next_finish first last room,List.map_append,List.map_singleton,contents,length]

theorem contents_add (length : cells.length = size) (first : start < size) (last : finish < size)
    (room : start ≠ next size finish) (value : α) :
    contents (cells.set finish value) start (next size finish) = contents cells start finish ++ [value] := by
  have kept := contents_set length (@finish_not_mem_slots _ start _ last) value
  have stored : (cells.set finish value).length = size := by rw [List.length_set,length]
  rw [contents_next_finish stored first last room,kept,List.getD_eq_getElem?_getD,List.getElem?_set_self (length ▸ last),Option.getD_some]

theorem contents_get (length : cells.length = size) (first : start < size) (last : finish < size)
    (filled : start ≠ finish) :
    contents cells start finish = cells.getD start default::contents cells (next size start) finish := by
  rw [contents,length,slots_next_start first last filled,List.map_cons,contents,length]

end Contents

/-- A queue of at most `capacity` items, oldest first. -/
structure Fifo (α : Type) (capacity : Nat) where
  items : List α
  fits : items.length ≤ capacity

namespace Fifo
variable {α : Type} {capacity : Nat}

def empty : Fifo α capacity := ⟨[],Nat.zero_le capacity⟩

/-- Appends, unless the queue is full. -/
def add (queue : Fifo α capacity) (item : α) : Fifo α capacity :=
  if room : queue.items.length < capacity then
    ⟨queue.items ++ [item],by rw [List.length_append,List.length_singleton]; exact room⟩
  else queue

/-- Removes and returns the oldest item, if there is one. -/
def get (queue : Fifo α capacity) : Option α × Fifo α capacity :=
  ⟨queue.items.head?,queue.items.tail,by rw [List.length_tail]; exact Nat.le_trans (Nat.sub_le _ _) queue.fits⟩

theorem get_item (queue : Fifo α capacity) : queue.get.1 = queue.items.head? := rfl

theorem get_items (queue : Fifo α capacity) : queue.get.2.items = queue.items.tail := rfl

theorem add_items (queue : Fifo α capacity) (item : α) : (queue.add item).items =
    if queue.items.length < capacity then queue.items ++ [item] else queue.items := by
  unfold add
  split <;> simp [*]

end Fifo

end Libsme.Ring
