import Mathlib.Logic.Basic

/-!
# Refinement of machines that answer calls

A machine takes calls one after another and answers each; it may fault.  A
specification answers the same calls and never faults.  A simulation relation
that is kept by one call is kept by every sequence of calls: the machine then
never faults and gives the answers of the specification.
-/

namespace RemoteCommand.Transition

variable {σ τ ι ω ε : Type}

/-- The answers of a machine to a sequence of calls, and its last state. -/
def runCalls (step : σ → ι → Except ε (ω × σ)) :
    σ → List ι → Except ε (List ω × σ)
  | state, [] => .ok ([], state)
  | state, call :: calls => do
      let (answer, next) ← step state call
      let (answers, final) ← runCalls step next calls
      return (answer :: answers, final)

/-- The answers of a specification, which has no faults. -/
def runSpec (spec : τ → ι → ω × τ) : τ → List ι → List ω × τ
  | state, [] => ([], state)
  | state, call :: calls =>
      let rest := runSpec spec (spec state call).2 calls
      ((spec state call).1 :: rest.1, rest.2)

theorem runSpec_append (spec : τ → ι → ω × τ) (state : τ)
    (first second : List ι) :
    runSpec spec state (first ++ second) =
      ((runSpec spec state first).1 ++
          (runSpec spec (runSpec spec state first).2 second).1,
        (runSpec spec (runSpec spec state first).2 second).2) := by
  induction first generalizing state with
  | nil => rfl
  | cons call first inductionHypothesis =>
      rw [List.cons_append, runSpec, inductionHypothesis]
      rfl

/-- One call of the machine is one call of the specification: no fault, the
same answer, and related states again. -/
structure Simulates (step : σ → ι → Except ε (ω × σ))
    (spec : τ → ι → ω × τ) (related : σ → τ → Prop) : Prop where
  call : ∀ {state : σ} {abstract : τ}, related state abstract →
    ∀ call, ∃ next,
      step state call = .ok ((spec abstract call).1, next) ∧
        related next (spec abstract call).2

/-- A simulation of single calls is a simulation of whole histories. -/
theorem Simulates.run
    {step : σ → ι → Except ε (ω × σ)} {spec : τ → ι → ω × τ}
    {related : σ → τ → Prop} (simulation : Simulates step spec related)
    (calls : List ι) {state : σ} {abstract : τ}
    (initial : related state abstract) :
    ∃ final,
      runCalls step state calls =
          .ok ((runSpec spec abstract calls).1, final) ∧
        related final (runSpec spec abstract calls).2 := by
  induction calls generalizing state abstract with
  | nil => exact ⟨state, rfl, initial⟩
  | cons call calls inductionHypothesis =>
      obtain ⟨next, answered, nextRelated⟩ := simulation.call initial call
      obtain ⟨final, rest, finalRelated⟩ := inductionHypothesis nextRelated
      refine ⟨final, ?_, finalRelated⟩
      rw [runCalls, answered]
      simp only [bind, Except.bind, rest]
      rfl

end RemoteCommand.Transition
