import RemoteCommand.Interaction.Runs
import RemoteCommand.Transition.System
import Mathlib.Logic.Function.Basic

/-!
# Threads with shared surroundings

Threads run programs of their own, and the surroundings that answer them are
shared.  A run of all threads is any interleaving of runs of the programs in
which every response is possible at that point.  When the shared surroundings
treat a thread as surroundings of its own would, what the thread does is a run
of its program alone.
-/

namespace RemoteCommand.Interaction

open Transition

variable {S : Signature} {ι α σ τ : Type} [DecidableEq ι]

/-- The events of one thread. -/
def own (thread : ι) (trace : List (ι × Event S)) : List (Event S) :=
  trace.filterMap fun (performer, event) =>
    if performer = thread then some event else none

theorem own_cons_self (thread : ι) (event : Event S)
    (trace : List (ι × Event S)) :
    own thread ((thread, event) :: trace) = event :: own thread trace := by
  simp [own]

theorem own_cons_of_ne {thread performer : ι} (different : performer ≠ thread)
    (event : Event S) (trace : List (ι × Event S)) :
    own thread ((performer, event) :: trace) = own thread trace := by
  simp [own, different]

/-- A run of all threads, looked at anywhere on the way.  The surroundings are
a system whose labels are the events with the thread they belong to. -/
structure Interleaving (surroundings : System τ (ι × Event S))
    (program : ι → Prog S α) (start : τ) (trace : List (ι × Event S)) :
    Prop where
  possible : ∃ final, surroundings.run start trace = some final
  performs : ∀ thread, ∃ outcome,
    Runs unconstrained (program thread) () (own thread trace) outcome ()

/-- Whether a trace happens in given surroundings is a matter of its responses
alone. -/
theorem Runs.inSurroundings {env : Env S σ} {surroundings : System σ (Event S)}
    (answers : ∀ {state event next},
      surroundings.step state event = some next →
        env.answer state event.1 event.2 next)
    {program : Prog S α} {before after : Unit} {trace : List (Event S)}
    {outcome : Option α}
    (run : Runs unconstrained program before trace outcome after) :
    ∀ {state final}, surroundings.run state trace = some final →
      Runs env program state trace outcome final := by
  induction run with
  | stop =>
      intro state final possible
      cases possible
      exact .stop _ _
  | ret =>
      intro state final possible
      cases possible
      exact .ret _ _
  | op _ _ inductionHypothesis =>
      intro state final possible
      obtain ⟨middle, answered, rest⟩ := surroundings.run_cons.1 possible
      exact .op (answers answered) (inductionHypothesis rest)
  | loop _ inductionHypothesis =>
      intro state final possible
      exact .loop (inductionHypothesis possible)

/-- The converse, when the surroundings determine what is possible. -/
theorem Runs.surroundings_run {env : Env S σ}
    {surroundings : System σ (Event S)}
    (determined : ∀ {state event next},
      env.answer state event.1 event.2 next →
        surroundings.step state event = some next)
    {program : Prog S α} {state final : σ} {trace : List (Event S)}
    {outcome : Option α}
    (run : Runs env program state trace outcome final) :
    surroundings.run state trace = some final := by
  induction run with
  | stop => rfl
  | ret => rfl
  | @op o next response state middle final trace outcome answered rest ih =>
      have stepped := @determined state ⟨o, response⟩ middle answered
      exact surroundings.run_cons.2 ⟨middle, stepped, ih⟩
  | loop _ inductionHypothesis => exact inductionHypothesis

/-- If every step that meets a condition is, for its thread, a step of
surroundings of its own, then a run of such steps is one for every thread. -/
theorem runs_own {surroundings : System τ (ι × Event S)}
    {alone : System σ (Event S)} {condition : τ → ι × Event S → Prop}
    {related : τ → (ι → σ) → Prop}
    (simulates : ∀ {state next views thread event},
      related state views → condition state (thread, event) →
        surroundings.step state (thread, event) = some next →
          ∃ view, alone.step (views thread) event = some view ∧
            related next (Function.update views thread view))
    (trace : List (ι × Event S)) :
    ∀ {state final views}, related state views →
      surroundings.run state trace = some final →
        surroundings.StepsMeet condition state trace →
          ∀ thread, ∃ view,
            alone.run (views thread) (own thread trace) = some view := by
  induction trace with
  | nil =>
      intro state final views _ _ _ thread
      exact ⟨views thread, rfl⟩
  | cons label trace inductionHypothesis =>
      intro state final views holds ran meets thread
      obtain ⟨performer, event⟩ := label
      obtain ⟨next, stepped, rest⟩ := surroundings.run_cons.1 ran
      obtain ⟨now, later⟩ := meets next stepped
      obtain ⟨view, moved, holds⟩ := simulates holds now stepped
      obtain ⟨final, completed⟩ := inductionHypothesis holds rest later thread
      by_cases same : performer = thread
      · subst same
        rw [Function.update_self] at completed
        rw [own_cons_self]
        exact ⟨final, alone.run_cons.2 ⟨view, moved, completed⟩⟩
      · rw [Function.update_of_ne (Ne.symm same)] at completed
        rw [own_cons_of_ne same]
        exact ⟨final, completed⟩

end RemoteCommand.Interaction
