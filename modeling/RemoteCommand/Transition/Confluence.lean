import RemoteCommand.Transition.System

/-!
# Schedules that do not matter

Labels are the parties of a system, and each party has at most one step in a
state.  When the steps of two parties commute, one schedule that ends in a
state without steps says everything about all of them: each is no longer, and
can be completed to end in that state.
-/

namespace RemoteCommand.Transition.System

universe u v

variable {σ : Type u} {α : Type v} {system : System σ α}

/-- Steps of different parties can be taken in either order. -/
def Commutes (system : System σ α) : Prop :=
  ∀ {state first second : σ} {left right : α}, left ≠ right →
    system.step state left = some first →
    system.step state right = some second →
      ∃ joined, system.step first right = some joined ∧
        system.step second left = some joined

/-- No party has a step. -/
def Terminal (system : System σ α) (state : σ) : Prop :=
  ∀ label, system.step state label = none

/-- A step towards a terminal state can be taken first. -/
theorem Commutes.step_first (commutes : system.Commutes)
    {final : σ} (terminal : system.Terminal final) (labels : List α) :
    ∀ {state next : σ} {label : α},
      system.run state labels = some final →
      system.step state label = some next →
        ∃ rest, system.run next rest = some final ∧
          rest.length + 1 = labels.length := by
  induction labels with
  | nil =>
      intro state next label ran stepped
      cases ran
      rw [terminal label] at stepped
      cases stepped
  | cons head tail inductionHypothesis =>
      intro state next label ran stepped
      obtain ⟨middle, moved, ran⟩ := system.run_cons.1 ran
      by_cases same : label = head
      · subst same
        rw [stepped] at moved
        cases moved
        exact ⟨tail, ran, rfl⟩
      · obtain ⟨joined, fromNext, fromMiddle⟩ := commutes same stepped moved
        obtain ⟨rest, completed, lengths⟩ := inductionHypothesis ran fromMiddle
        refine ⟨head :: rest, ?_, by simpa using lengths⟩
        exact system.run_cons.2 ⟨joined, fromNext, completed⟩

/-- Every run from a state that has one run to a terminal state is no longer
than that one, and can be completed to it. -/
theorem Commutes.run_completes (commutes : system.Commutes) {final : σ}
    (terminal : system.Terminal final) (others : List α) :
    ∀ {state reached : σ} {labels : List α},
      system.run state labels = some final →
      system.run state others = some reached →
        ∃ rest, system.run reached rest = some final ∧
          others.length + rest.length = labels.length := by
  induction others with
  | nil =>
      intro state reached labels ran stayed
      cases stayed
      exact ⟨labels, ran, by simp⟩
  | cons head tail inductionHypothesis =>
      intro state reached labels ran other
      obtain ⟨next, stepped, other⟩ := system.run_cons.1 other
      obtain ⟨shorter, ran, lengths⟩ :=
        commutes.step_first terminal labels ran stepped
      obtain ⟨rest, completed, total⟩ := inductionHypothesis ran other
      exact ⟨rest, completed, by simp only [List.length_cons]; omega⟩

/-- A step and a run from the same state can be continued to meet. -/
theorem Commutes.step_joins (commutes : system.Commutes) (labels : List α) :
    ∀ {state final next : σ} {label : α},
      system.run state labels = some final →
      system.step state label = some next →
        ∃ rest others joined, system.run final rest = some joined ∧
          system.run next others = some joined := by
  induction labels with
  | nil =>
      intro state final next label ran stepped
      cases ran
      exact ⟨[label], [], next, system.run_cons.2 ⟨next, stepped, rfl⟩, rfl⟩
  | cons head tail inductionHypothesis =>
      intro state final next label ran stepped
      obtain ⟨middle, moved, ran⟩ := system.run_cons.1 ran
      by_cases same : label = head
      · subst same
        rw [stepped] at moved
        cases moved
        exact ⟨[], tail, final, rfl, ran⟩
      · obtain ⟨meeting, fromNext, fromMiddle⟩ := commutes same stepped moved
        obtain ⟨rest, others, joined, completed, continued⟩ :=
          inductionHypothesis ran fromMiddle
        exact ⟨rest, head :: others, joined, completed,
          system.run_cons.2 ⟨meeting, fromNext, continued⟩⟩

/-- Two runs from the same state can be continued to meet. -/
theorem Commutes.joins (commutes : system.Commutes) (others : List α) :
    ∀ {state final reached : σ} {labels : List α},
      system.run state labels = some final →
      system.run state others = some reached →
        ∃ rest otherRest joined, system.run final rest = some joined ∧
          system.run reached otherRest = some joined := by
  induction others with
  | nil =>
      intro state final reached labels ran stayed
      cases stayed
      exact ⟨[], labels, final, rfl, ran⟩
  | cons head tail inductionHypothesis =>
      intro state final reached labels ran other
      obtain ⟨next, stepped, other⟩ := system.run_cons.1 other
      obtain ⟨rest, others, meeting, completed, continued⟩ :=
        commutes.step_joins labels ran stepped
      obtain ⟨more, otherRest, joined, met, reachedIt⟩ :=
        inductionHypothesis continued other
      refine ⟨rest ++ more, otherRest, joined, ?_, reachedIt⟩
      rw [system.run_append, completed]
      exact met

end RemoteCommand.Transition.System
