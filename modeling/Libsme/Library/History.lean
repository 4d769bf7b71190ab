import Mathlib.Data.List.Basic

/-! Properties of the events of a history, each seen with what happened before it. -/
namespace Libsme.History

variable {Event : Type} {P : List Event → Event → Prop} {log : List Event} {event : Event}

def Each (P : List Event → Event → Prop) (log : List Event) : Prop :=
  ∀ front event rest, log = front ++ event::rest → P front event

theorem Each.nil : Each P [] := fun _ _ _ split => absurd split (by simp)

theorem Each.concat (each : Each P log) (last : P log event) : Each P (log ++ [event]) := by
  intro front other rest split
  obtain ⟨middle,start,after⟩ | ⟨middle,start,after⟩ := List.append_eq_append_iff.mp split
  · cases middle with
    | nil =>
      obtain ⟨rfl,_⟩ := List.cons.inj after
      rw [start,List.append_nil]
      exact last
    | cons head middle => simp at after
  · cases middle with
    | nil =>
      obtain ⟨rfl,_⟩ := List.cons.inj after
      rw [← (start.trans (List.append_nil _))]
      exact last
    | cons head middle =>
      obtain ⟨rfl,_⟩ := List.cons.inj after
      exact each front _ middle start

theorem later {more front rest : List Event} (split : log ++ more = front ++ event::rest) (new : event ∉ log) :
    ∃ middle, front = log ++ middle ∧ more = middle ++ event::rest := by
  obtain ⟨middle,start,after⟩ | ⟨middle,start,after⟩ := List.append_eq_append_iff.mp split
  · exact ⟨middle,start,after⟩
  · cases middle with
    | nil => exact ⟨[],by simpa using start.symm,after.symm⟩
    | cons head middle =>
      obtain ⟨rfl,_⟩ := List.cons.inj after
      exact absurd (by rw [start]; simp) new

end Libsme.History
