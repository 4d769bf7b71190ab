import Mathlib.Data.List.Basic

/-! Runs of partial transition systems. A run is given by its start and its list of
actions; an action whose step is not enabled ends it. `throughout_iff_meets` turns
an inductive invariant into a statement about whole runs. -/
namespace Libsme.Transition

variable {State Action : Type} (step : State → Action → Option State)

/-- `P` holds in the start and in every state the run reaches. -/
def Throughout (P : State → Prop) : State → List Action → Prop
  | state, [] => P state
  | state, action::rest => P state ∧ ∀ next, step state action = some next → Throughout P next rest

/-- Every step the run takes meets the condition, in the state before the step. -/
def Meets (Condition : State → Action → Prop) : State → List Action → Prop
  | _, [] => True
  | state, action::rest =>
    ∀ next, step state action = some next → Condition state action ∧ Meets Condition next rest

variable {step} {P : State → Prop} {Condition : State → Action → Prop}

theorem Throughout.start {state : State} {actions : List Action}
    (holds : Throughout step P state actions) : P state := by
  cases actions with
  | nil => exact holds
  | cons action rest => exact holds.1

theorem Throughout.later {state next : State} {action : Action} {rest : List Action}
    (holds : Throughout step P state (action::rest)) (taken : step state action = some next) :
    Throughout step P next rest := holds.2 next taken

theorem Meets.later {state next : State} {action : Action} {rest : List Action}
    (meets : Meets step Condition state (action::rest)) (taken : step state action = some next) :
    Meets step Condition next rest := (meets next taken).2

theorem Meets.of_prefix {state : State} {before actions : List Action}
    (meets : Meets step Condition state actions) (isPrefix : before <+: actions) :
    Meets step Condition state before := by
  induction before generalizing state actions with
  | nil => trivial
  | cons action before ih =>
    obtain ⟨rest,rfl⟩ := isPrefix
    intro next taken
    obtain ⟨met,later⟩ := meets next taken
    exact ⟨met,ih later (List.prefix_append before rest)⟩

theorem throughout_of_invariant (Invariant : State → Prop) (implies : ∀ state, Invariant state → P state)
    (preserved : ∀ state action next, Invariant state → step state action = some next → Invariant next)
    (start : State) (initial : Invariant start) (actions : List Action) :
    Throughout step P start actions := by
  induction actions generalizing start with
  | nil => exact implies start initial
  | cons action rest ih =>
    refine ⟨implies start initial,?_⟩
    intro next taken
    exact ih next (preserved start action next initial taken)

section Conditioned
variable (Invariant : State → Prop)
  (preserved : ∀ state action next, Invariant state → step state action = some next →
    Condition state action → Invariant next)
include preserved

theorem Meets.throughout (implies : ∀ state, Invariant state → P state) {start : State}
    (initial : Invariant start) {actions : List Action} (meets : Meets step Condition start actions) :
    Throughout step P start actions := by
  induction actions generalizing start with
  | nil => exact implies start initial
  | cons action rest ih =>
    refine ⟨implies start initial,?_⟩
    intro next taken
    obtain ⟨met,later⟩ := meets next taken
    exact ih (preserved start action next initial taken met) later

theorem Meets.weaken {Weaker : State → Action → Prop}
    (implies : ∀ state action, Invariant state → Condition state action → Weaker state action)
    {start : State} (initial : Invariant start) {actions : List Action}
    (meets : Meets step Condition start actions) : Meets step Weaker start actions := by
  induction actions generalizing start with
  | nil => trivial
  | cons action rest ih =>
    intro next taken
    obtain ⟨met,later⟩ := meets next taken
    exact ⟨implies start action initial met,ih (preserved start action next initial taken met) later⟩

end Conditioned

/-- An invariant that implies `P`, that conditioned steps preserve, and without whose
condition a step breaks `P`, makes `P` and the condition equivalent on every run. -/
theorem throughout_iff_meets (Invariant : State → Prop) (implies : ∀ state, Invariant state → P state)
    (preserved : ∀ state action next, Invariant state → step state action = some next →
      Condition state action → Invariant next)
    (needed : ∀ state action next, Invariant state → step state action = some next →
      P next → Condition state action)
    (start : State) (initial : Invariant start) (actions : List Action) :
    Throughout step P start actions ↔ Meets step Condition start actions := by
  constructor
  · intro holds
    induction actions generalizing start with
    | nil => trivial
    | cons action rest ih =>
      intro next taken
      have later := holds.later taken
      have met := needed start action next initial taken later.start
      exact ⟨met,ih next (preserved start action next initial taken met) later⟩
  · exact Meets.throughout Invariant preserved implies initial

/-- `Kept` for the run, and for the run as it goes on if at any point a probe takes the
place of its rest. -/
def Probed (Kept : State → List Action → Prop) (Probe : List Action → Prop) (start : State)
    (actions : List Action) : Prop :=
  ∀ before, before <+: actions → ∀ probe, Probe probe → Kept start (before ++ probe)

/-- A condition that keeps the invariant, that probes meet, and whose breach some probe
brings to light, holds of the steps of a run just when the run is kept under all probes. -/
theorem probed_iff_meets (Kept : State → List Action → Prop) (Probe : List Action → Prop)
    (Invariant : State → Prop)
    (preserved : ∀ state action next, Invariant state → step state action = some next →
      Condition state action → Invariant next)
    (later : ∀ state action next rest, step state action = some next →
      Kept state (action::rest) → Kept next rest)
    (sound : ∀ state actions, Invariant state → Meets step Condition state actions → Kept state actions)
    (allowed : ∀ state probe, Invariant state → Probe probe → Meets step Condition state probe)
    (broken : ∀ state action next, Invariant state → step state action = some next →
      ¬Condition state action → ∃ probe, Probe probe ∧ ¬Kept state (action::probe))
    (start : State) (initial : Invariant start) (actions : List Action) :
    Probed Kept Probe start actions ↔ Meets step Condition start actions := by
  constructor
  · intro probed
    induction actions generalizing start with
    | nil => trivial
    | cons action rest ih =>
      intro next taken
      have met : Condition start action := by
        by_contra unmet
        obtain ⟨probe,isProbe,lost⟩ := broken start action next initial taken unmet
        exact lost (probed [action] (List.prefix_append [action] rest) probe isProbe)
      refine ⟨met,ih next (preserved start action next initial taken met) ?_⟩
      intro before isPrefix probe isProbe
      exact later start action next (before ++ probe) taken
        (probed (action::before) ((List.prefix_cons_inj action).mpr isPrefix) probe isProbe)
  · intro meets before isPrefix probe isProbe
    apply sound start _ initial
    induction before generalizing start actions with
    | nil => exact allowed start probe initial isProbe
    | cons action before ih =>
      obtain ⟨rest,rfl⟩ := isPrefix
      intro next taken
      obtain ⟨met,remaining⟩ := meets next taken
      exact ⟨met,ih next (preserved start action next initial taken met) _ remaining
        (List.prefix_append before rest)⟩

/-- The same for a property of the states: the condition is enough for it, and probes tell
where it is missing. -/
theorem throughout_probed (Probe : List Action → Prop) (Invariant : State → Prop)
    (implies : ∀ state, Invariant state → P state)
    (preserved : ∀ state action next, Invariant state → step state action = some next →
      Condition state action → Invariant next)
    (allowed : ∀ state probe, Invariant state → Probe probe → Meets step Condition state probe)
    (broken : ∀ state action next, Invariant state → step state action = some next →
      ¬Condition state action → ∃ probe, Probe probe ∧ ¬Throughout step P state (action::probe))
    (start : State) (initial : Invariant start) (actions : List Action) :
    (Meets step Condition start actions → Throughout step P start actions) ∧
      (Probed (Throughout step P) Probe start actions ↔ Meets step Condition start actions) := by
  have kept : ∀ state actions, Invariant state → Meets step Condition state actions →
      Throughout step P state actions :=
    fun _ _ holds meets => meets.throughout Invariant preserved implies holds
  refine ⟨kept start actions initial,?_⟩
  exact probed_iff_meets (Throughout step P) Probe Invariant preserved
    (fun _ _ _ _ taken holds => holds.later taken) kept allowed broken start initial actions

end Libsme.Transition
