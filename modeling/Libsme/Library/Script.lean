import Mathlib.Data.List.Basic

/-! Dialogues after a script. One party makes the requests of a script in order and goes on
while the answers are accepted. -/
namespace Libsme.Script

variable {Request Answer : Type}

/-- Every request was made and every answer accepted. -/
inductive Completed : List (Request × (Answer → Prop)) → List (Request × Answer) → Prop
  | nil : Completed [] []
  | cons {request : Request} {accepts : Answer → Prop} {answer : Answer} {script turns}
    (accepted : accepts answer) (rest : Completed script turns) :
    Completed ((request,accepts)::script) ((request,answer)::turns)

/-- An answer was not accepted, and the dialogue ended with it. -/
inductive Refused : List (Request × (Answer → Prop)) → List (Request × Answer) → Prop
  | here {request : Request} {accepts : Answer → Prop} {answer : Answer} {script}
    (refused : ¬accepts answer) : Refused ((request,accepts)::script) [(request,answer)]
  | later {request : Request} {accepts : Answer → Prop} {answer : Answer} {script turns}
    (accepted : accepts answer) (rest : Refused script turns) :
    Refused ((request,accepts)::script) ((request,answer)::turns)

variable {script other : List (Request × (Answer → Prop))} {turns later : List (Request × Answer)}

theorem Completed.append (first : Completed script turns) (second : Completed other later) :
    Completed (script ++ other) (turns ++ later) := by
  induction first with
  | nil => exact second
  | cons accepted _ ih => exact .cons accepted ih

theorem Completed.refused (first : Completed script turns) (second : Refused other later) :
    Refused (script ++ other) (turns ++ later) := by
  induction first with
  | nil => exact second
  | cons accepted _ ih => exact .later accepted ih

theorem Refused.append (refused : Refused script turns) (other : List (Request × (Answer → Prop))) :
    Refused (script ++ other) turns := by
  induction refused with
  | here refused => exact .here refused
  | later accepted _ ih => exact .later accepted ih

theorem Completed.requests (completed : Completed script turns) : turns.map Prod.fst = script.map Prod.fst := by
  induction completed with
  | nil => rfl
  | cons _ _ ih => rw [List.map_cons,List.map_cons,ih]

theorem Refused.requests (refused : Refused script turns) : turns.map Prod.fst <+: script.map Prod.fst := by
  induction refused with
  | here => exact ⟨_,rfl⟩
  | later _ _ ih => exact (List.prefix_cons_inj _).mpr ih

end Libsme.Script
