import Mathlib.Logic.Basic

/-!
# Systems that move by labelled steps

A system is a partial step function; a run is a list of labels.  What a step
preserves holds after every run.  `StatesMeet` and `StepsMeet` say that every
state, or every step, of a run satisfies a condition, and
`statesMeet_iff_of_met` carries an exact condition for one step to an exact
condition for runs.
-/

namespace RemoteCommand.Transition

universe u v

/-- A transition system: where a label leads from a state, if anywhere. -/
structure System (σ : Type u) (α : Type v) where
  step : σ → α → Option σ

namespace System

variable {σ : Type u} {α : Type v} (system : System σ α)

def run : σ → List α → Option σ
  | state, [] => some state
  | state, label :: labels =>
      (system.step state label).bind fun next => run next labels

/-- Every state of the run along `labels` satisfies `holds`. -/
def StatesMeet (holds : σ → Prop) : σ → List α → Prop
  | state, [] => holds state
  | state, label :: labels =>
      holds state ∧
        ∀ next, system.step state label = some next →
          StatesMeet holds next labels

/-- Every step of the run along `labels` satisfies `condition`, which is about
the label and the state before the step. -/
def StepsMeet (condition : σ → α → Prop) : σ → List α → Prop
  | _, [] => True
  | state, label :: labels =>
      ∀ next, system.step state label = some next →
        condition state label ∧ StepsMeet condition next labels

instance decidableStepsMeet {condition : σ → α → Prop}
    [∀ state label, Decidable (condition state label)] :
    ∀ (state : σ) (labels : List α),
      Decidable (system.StepsMeet condition state labels)
  | _, [] => isTrue trivial
  | state, label :: labels =>
      match moved : system.step state label with
      | none => isTrue fun next stepped => by simp [moved] at stepped
      | some next =>
          have : Decidable (system.StepsMeet condition next labels) :=
            decidableStepsMeet next labels
          decidable_of_iff
            (condition state label ∧ system.StepsMeet condition next labels) <| by
            simp [StepsMeet, moved]

theorem run_cons {state final : σ} {label : α} {labels : List α} :
    system.run state (label :: labels) = some final ↔
      ∃ next, system.step state label = some next ∧
        system.run next labels = some final :=
  Option.bind_eq_some_iff

theorem run_append (state : σ) (first second : List α) :
    system.run state (first ++ second) =
      (system.run state first).bind fun middle => system.run middle second := by
  induction first generalizing state with
  | nil => rfl
  | cons label first inductionHypothesis =>
      cases moved : system.step state label with
      | none => simp [run, moved]
      | some next => simp [run, moved, inductionHypothesis]

/-- What every step preserves, every run preserves. -/
theorem run_invariant {inv : σ → Prop}
    (preserved : ∀ {state label next},
      inv state → system.step state label = some next → inv next)
    (labels : List α) :
    ∀ {state final : σ}, inv state →
      system.run state labels = some final → inv final := by
  induction labels with
  | nil =>
      intro state final initial ran
      cases ran
      exact initial
  | cons label labels inductionHypothesis =>
      intro state final initial ran
      obtain ⟨next, stepped, rest⟩ := (system.run_cons).mp ran
      exact inductionHypothesis (preserved initial stepped) rest

/-- What the steps that meet `condition` preserve, their runs preserve. -/
theorem run_invariant_of_met {inv : σ → Prop} {condition : σ → α → Prop}
    (preserved : ∀ {state label next},
      inv state → condition state label →
        system.step state label = some next → inv next)
    (labels : List α) :
    ∀ {state final : σ}, inv state → system.StepsMeet condition state labels →
      system.run state labels = some final → inv final := by
  induction labels with
  | nil =>
      intro state final initial _ ran
      cases ran
      exact initial
  | cons label labels inductionHypothesis =>
      intro state final initial meets ran
      obtain ⟨next, stepped, rest⟩ := (system.run_cons).mp ran
      obtain ⟨met, later⟩ := meets next stepped
      exact inductionHypothesis (preserved initial met stepped) later rest

/-- A condition on the labels alone. -/
theorem stepsMeet_of_forall {condition : α → Prop} {labels : List α}
    (all : ∀ label ∈ labels, condition label) (state : σ) :
    system.StepsMeet (fun _ => condition) state labels := by
  induction labels generalizing state with
  | nil => trivial
  | cons label labels inductionHypothesis =>
      intro next _
      have rest : ∀ other ∈ labels, condition other :=
        fun other member => all other (List.mem_cons_of_mem label member)
      exact ⟨all label List.mem_cons_self, inductionHypothesis rest next⟩

/-- A run whose states all satisfy `holds` ends in such a state. -/
theorem StatesMeet.last {system : System σ α} {holds : σ → Prop}
    {labels : List α} :
    ∀ {state final : σ}, system.StatesMeet holds state labels →
      system.run state labels = some final → holds final := by
  induction labels with
  | nil =>
      intro state final meets ran
      cases ran
      exact meets
  | cons label labels inductionHypothesis =>
      intro state final meets ran
      obtain ⟨next, stepped, rest⟩ := (system.run_cons).mp ran
      exact inductionHypothesis (meets.2 next stepped) rest

/-- If, within an invariant that steps keep when they meet `condition`, a step
from a good state reaches a good state exactly when it meets `condition`, then
the states of a run are all good exactly when its steps all meet
`condition`. -/
theorem statesMeet_iff_of_met {inv good : σ → Prop}
    {condition : σ → α → Prop}
    (preserved : ∀ {state label next},
      inv state → condition state label →
        system.step state label = some next → inv next)
    (exact_step : ∀ {state label next}, inv state → good state →
      system.step state label = some next →
        (good next ↔ condition state label))
    (labels : List α) :
    ∀ {state : σ}, inv state → good state →
      (system.StatesMeet good state labels ↔
        system.StepsMeet condition state labels) := by
  induction labels with
  | nil =>
      intro state _ initial
      exact ⟨fun _ => trivial, fun _ => initial⟩
  | cons label labels inductionHypothesis =>
      intro state holds initial
      constructor
      · rintro ⟨_, rest⟩ next stepped
        have goodNext : good next := by
          have meets := rest next stepped
          cases labels with
          | nil => exact meets
          | cons => exact meets.1
        have met := (exact_step holds initial stepped).mp goodNext
        have continued :=
          inductionHypothesis (preserved holds met stepped) goodNext
        exact ⟨met, continued.mp (rest next stepped)⟩
      · intro meets
        refine ⟨initial, fun next stepped => ?_⟩
        obtain ⟨met, later⟩ := meets next stepped
        have goodNext := (exact_step holds initial stepped).mpr met
        have continued :=
          inductionHypothesis (preserved holds met stepped) goodNext
        exact continued.mpr later

/-- The same for an invariant that every step keeps. -/
theorem statesMeet_iff_stepsMeet {inv good : σ → Prop}
    {condition : σ → α → Prop}
    (preserved : ∀ {state label next},
      inv state → system.step state label = some next → inv next)
    (exact_step : ∀ {state label next}, inv state → good state →
      system.step state label = some next →
        (good next ↔ condition state label))
    (labels : List α) {state : σ} (holds : inv state) (initial : good state) :
    system.StatesMeet good state labels ↔
      system.StepsMeet condition state labels :=
  system.statesMeet_iff_of_met
    (fun before _ stepped => preserved before stepped) exact_step labels
    holds initial

end System

end RemoteCommand.Transition
