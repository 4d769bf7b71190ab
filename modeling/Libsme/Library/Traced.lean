import Mathlib.Data.List.Forall2

/-! Computations that log events. A `Traced` value is the result of a computation
with the events it emitted, in order. `loop` runs a body over a list of inputs
until the body leaves the loop; `loop_filterMap` carries an invariant through a loop
that is not left. `Refines` compares computations that may exit with a model of their
results. -/
namespace Libsme

@[ext] structure Traced (Event α : Type) where
  value : α
  log : List Event

namespace Traced
variable {Event α β : Type}

instance : Monad (Traced Event) where
  pure value := ⟨value,[]⟩
  bind first next := ⟨(next first.value).value,first.log ++ (next first.value).log⟩

def emit (event : Event) : Traced Event Unit := ⟨(),[event]⟩

@[simp] theorem pure_value (value : α) : (pure value : Traced Event α).value = value := rfl
@[simp] theorem pure_log (value : α) : (pure value : Traced Event α).log = [] := rfl
@[simp] theorem emit_log (event : Event) : (emit event).log = [event] := rfl
@[simp] theorem bind_value (first : Traced Event α) (next : α → Traced Event β) :
    (first >>= next).value = (next first.value).value := rfl
@[simp] theorem bind_log (first : Traced Event α) (next : α → Traced Event β) :
    (first >>= next).log = first.log ++ (next first.value).log := rfl

def Always (P : Event → Prop) (computation : Traced Event α) : Prop :=
  ∀ event ∈ computation.log, P event

@[simp] theorem always_pure (P : Event → Prop) (value : α) :
    Always P (pure value : Traced Event α) := by simp [Always]

@[simp] theorem always_emit (P : Event → Prop) (event : Event) : Always P (emit event) ↔ P event := by
  simp [Always]

@[simp] theorem always_bind (P : Event → Prop) (first : Traced Event α) (next : α → Traced Event β) :
    Always P (first >>= next) ↔ Always P first ∧ Always P (next first.value) := by
  simp only [Always,bind_log,List.mem_append,or_imp,forall_and]

section Loop
variable {State Input : Type}

/-- Runs `body` on each input in turn; `none` leaves the loop. -/
def loop (body : State → Input → Traced Event (Option State)) : State → List Input → List Event
  | _, [] => []
  | state, input::rest =>
    (body state input).log ++
      match (body state input).value with
      | none => []
      | some next => loop body next rest

variable (body : State → Input → Traced Event (Option State))

@[simp] theorem loop_nil (state : State) : loop body state [] = [] := rfl

theorem loop_left {state : State} {input : Input} {rest : List Input}
    (left : (body state input).value = none) : loop body state (input::rest) = (body state input).log := by
  simp [loop,left]

theorem loop_next {state next : State} {input : Input} {rest : List Input}
    (stays : (body state input).value = some next) :
    loop body state (input::rest) = (body state input).log ++ loop body next rest := by
  simp [loop,stays]

/-- Where, under an invariant, each turn stays in the loop and emits one picked event, the
run emits the picked events of its turns. -/
theorem loop_filterMap {Expected Output : Type} (pick : Event → Option Output) (Invariant : State → Prop)
    (Fits : Expected → Input → Prop) (output : Expected → Output)
    (turn : ∀ state expected input, Invariant state → Fits expected input →
      (∃ next, (body state input).value = some next ∧ Invariant next) ∧
        (body state input).log.filterMap pick = [output expected])
    {state : State} (initial : Invariant state) {expected : List Expected} {inputs : List Input}
    (fits : List.Forall₂ Fits expected inputs) :
    (loop body state inputs).filterMap pick = expected.map output := by
  induction fits generalizing state with
  | nil => rfl
  | cons fit _ ih =>
    obtain ⟨⟨next,stays,kept⟩,picked⟩ := turn _ _ _ initial fit
    rw [loop_next body stays,List.filterMap_append,picked,ih kept]
    rfl

end Loop

section Exits
variable {γ δ : Type} {Q : Event → Prop} {P : α → Prop} {erase : α → β}

/-- What a computation that may exit logs has `Q`, what it gives has `P` and is, up to
`erase`, what the model gives. -/
structure Refines (Q : Event → Prop) (P : α → Prop) (erase : α → β) (computation : OptionT (Traced Event) α)
    (model : Option β) : Prop where
  always : Always Q computation.run
  keeps : ∀ value, computation.run.value = some value → P value
  value : computation.run.value.map erase = model

theorem Refines.pure {value : α} (kept : P value) :
    Refines Q P erase (Pure.pure value : OptionT (Traced Event) α) (some (erase value)) :=
  ⟨always_pure Q _,fun _ same => Option.some.inj same ▸ kept,rfl⟩

theorem Refines.exit : Refines Q P erase (failure : OptionT (Traced Event) α) none :=
  ⟨always_pure Q _,fun _ same => (Option.some_ne_none _ same.symm).elim,rfl⟩

theorem run_bind_exited {first : OptionT (Traced Event) α} {next : α → OptionT (Traced Event) γ}
    (gives : first.run.value = none) : (first >>= next).run = ⟨none,first.run.log⟩ := by
  rw [OptionT.run_bind]
  apply Traced.ext <;> simp [Option.elimM,gives]

theorem run_bind_given {first : OptionT (Traced Event) α} {next : α → OptionT (Traced Event) γ} {value : α}
    (gives : first.run.value = some value) :
    (first >>= next).run = ⟨(next value).run.value,first.run.log ++ (next value).run.log⟩ := by
  rw [OptionT.run_bind]
  apply Traced.ext <;> simp [Option.elimM,gives]

theorem Refines.bind {first : OptionT (Traced Event) α} {model : Option β} {P' : γ → Prop} {erase' : γ → δ}
    {next : α → OptionT (Traced Event) γ} {nextModel : β → Option δ} (refines : Refines Q P erase first model)
    (continues : ∀ value, P value → Refines Q P' erase' (next value) (nextModel (erase value))) :
    Refines Q P' erase' (first >>= next) (model.bind nextModel) := by
  rcases refines with ⟨always,keeps,rfl⟩
  rcases gives : first.run.value with _ | value
  · have exits := @run_bind_exited _ _ _ _ next gives
    refine ⟨?_,?_,?_⟩ <;> rw [exits]
    · exact always
    · exact fun _ same => (Option.some_ne_none _ same.symm).elim
    · rfl
  · have rest := continues value (keeps value gives)
    have goes := @run_bind_given _ _ _ _ next _ gives
    refine ⟨?_,?_,?_⟩ <;> rw [goes]
    · intro event member
      rcases List.mem_append.mp member with early | late
      · exact always event early
      · exact rest.always event late
    · exact rest.keeps
    · exact rest.value

/-- What is run before is bound to log what is allowed, whatever it gives. -/
theorem Refines.after {traced : Traced Event γ} {next : γ → OptionT (Traced Event) α} {model : Option β}
    (always : Always Q traced) (rest : Refines Q P erase (next traced.value) model) :
    Refines Q P erase (liftM traced >>= next) model := by
  have given : (liftM traced : OptionT (Traced Event) γ).run = ⟨some traced.value,traced.log ++ []⟩ := rfl
  rw [List.append_nil] at given
  have runs := @run_bind_given _ _ _ (liftM traced) next traced.value (by rw [given])
  rw [given] at runs
  refine ⟨?_,?_,?_⟩ <;> rw [runs]
  · intro event member
    rcases List.mem_append.mp member with early | late
    · exact always event early
    · exact rest.always event late
  · exact rest.keeps
  · exact rest.value

end Exits

end Traced

section Order
variable {Event : Type} {R Q : Event → Prop} {log more : List Event}

/-- Every event with `Q` comes after one with `R`. -/
def Preceded (R Q : Event → Prop) (log : List Event) : Prop :=
  ∀ front event rest, log = front ++ event::rest → Q event → ∃ earlier ∈ front, R earlier

theorem Preceded.of_none (never : ∀ event ∈ log, ¬Q event) : Preceded R Q log := by
  intro front event rest split asked
  exact absurd asked (never event (by simp [split]))

theorem Preceded.append (preceded : Preceded R Q log) (opened : (∃ earlier ∈ log, R earlier) ∨ ∀ event ∈ more, ¬Q event) :
    Preceded R Q (log ++ more) := by
  intro front event rest split asked
  obtain ⟨middle,start,after⟩ | ⟨middle,start,after⟩ := List.append_eq_append_iff.mp split
  · -- the event lies in `more`
    obtain ⟨earlier,member,given⟩ | never := opened
    · exact ⟨earlier,by simp [start,member],given⟩
    · exact absurd asked (never event (by simp [after]))
  · cases middle with
    | nil =>
      obtain ⟨earlier,member,given⟩ | never := opened
      · exact ⟨earlier,by simpa [start] using member,given⟩
      · have here : event::rest = more := after
        exact absurd asked (never event (by simp [← here]))
    | cons head middle =>
      obtain ⟨rfl,_⟩ := List.cons.inj after
      exact preceded front _ middle start asked

end Order
end Libsme
