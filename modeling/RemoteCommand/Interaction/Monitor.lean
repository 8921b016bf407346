import RemoteCommand.Interaction.Runs
import RemoteCommand.Transition.System

/-!
# Monitors

A monitor reads the events of a run one by one and rejects those that break a
rule of use.  A program keeps to a monitor when it accepts every run of the
program, whatever the responses are, also the runs that are looked at before
their end.

`Prog.Keeps` is the proof rule.  It goes through the program node by node, with
an invariant for each loop that ties the state of the loop to that of the
monitor; `Keeps.accepts` says that it is sound.
-/

namespace RemoteCommand.Interaction

open Transition

variable {S : Signature} {α β κ σ τ : Type}

/-- A rule of use: the events that are allowed in a state, and the state that
they leave. -/
abbrev Monitor (S : Signature) (κ : Type) : Type :=
  System κ (Event S)

namespace Prog

/-- From `state`, the monitor accepts every run of the program, and a run that
returns leaves a value and a state of the monitor with `post`. -/
def Keeps (monitor : Monitor S κ) :
    {α : Type} → Prog S α → κ → (α → κ → Prop) → Prop
  | _, ret value, state, post => post value state
  | _, op o next, state, post =>
      ∀ response, ∃ after, monitor.step state ⟨o, response⟩ = some after ∧
        (next response).Keeps monitor after post
  | _, loop body init next, state, post =>
      ∃ inv : _ → κ → Prop, inv init state ∧
        ∀ turn current, inv turn current →
          (body turn).Keeps monitor current fun result after =>
            result.elim (fun turn => inv turn after) fun result =>
              (next result).Keeps monitor after post

variable {monitor : Monitor S κ} {state : κ}

namespace Keeps

theorem mono {program : Prog S α} {stronger weaker : α → κ → Prop}
    (implies : ∀ value after, stronger value after → weaker value after)
    (keeps : program.Keeps monitor state stronger) :
    program.Keeps monitor state weaker := by
  induction program generalizing state with
  | ret value => exact implies value state keeps
  | op o next inductionHypothesis =>
      intro response
      obtain ⟨after, accepted, rest⟩ := keeps response
      exact ⟨after, accepted, inductionHypothesis response implies rest⟩
  | loop body init next bodyHypothesis nextHypothesis =>
      obtain ⟨inv, initial, turns⟩ := keeps
      refine ⟨inv, initial, fun turn current holds => ?_⟩
      refine bodyHypothesis turn (fun result after holds => ?_)
        (turns turn current holds)
      cases result with
      | inl turn => exact holds
      | inr result => exact nextHypothesis result implies holds

/-- The second program goes on where the first one leaves the monitor. -/
theorem bind {program : Prog S α} {f : α → Prog S β} {post : β → κ → Prop}
    (keeps : program.Keeps monitor state fun value after =>
      (f value).Keeps monitor after post) :
    (program.bind f).Keeps monitor state post := by
  induction program generalizing state with
  | ret value => exact keeps
  | op o next inductionHypothesis =>
      intro response
      obtain ⟨after, accepted, rest⟩ := keeps response
      exact ⟨after, accepted, inductionHypothesis response rest⟩
  | loop body init next _ nextHypothesis =>
      obtain ⟨inv, initial, turns⟩ := keeps
      refine ⟨inv, initial, fun turn current holds => ?_⟩
      refine (turns turn current holds).mono fun result after holds => ?_
      cases result with
      | inl turn => exact holds
      | inr result => exact nextHypothesis result holds

/-- Two programs in sequence, with what holds in between. -/
theorem seq {program : Prog S α} {f : α → Prog S β} {middle : α → κ → Prop}
    {post : β → κ → Prop} (first : program.Keeps monitor state middle)
    (second : ∀ value after, middle value after →
      (f value).Keeps monitor after post) :
    (program.bind f).Keeps monitor state post :=
  bind (first.mono second)

theorem ite {condition : Prop} [Decidable condition] {yes no : Prog S α}
    {post : α → κ → Prop}
    (whenTrue : condition → yes.Keeps monitor state post)
    (whenFalse : ¬ condition → no.Keeps monitor state post) :
    (if condition then yes else no).Keeps monitor state post := by
  split
  · exact whenTrue ‹_›
  · exact whenFalse ‹_›

/-- A part that makes operations only that keep the monitor within `inv`. -/
theorem of_only {program : Prog S α} {allowed : S.Op → Prop} {inv : κ → Prop}
    (stays : ∀ current o response, inv current → allowed o →
      ∃ after, monitor.step current ⟨o, response⟩ = some after ∧ inv after)
    (within : program.Only allowed) (holds : inv state) :
    program.Keeps monitor state fun _ after => inv after := by
  induction program generalizing state with
  | ret value => exact holds
  | op o next inductionHypothesis =>
      intro response
      obtain ⟨after, accepted, kept⟩ := stays state o response holds within.1
      exact ⟨after, accepted,
        inductionHypothesis response (within.2 response) kept⟩
  | loop body init next bodyHypothesis nextHypothesis =>
      refine ⟨fun _ current => inv current, holds, fun turn current kept => ?_⟩
      refine (bodyHypothesis turn (within.1 turn) kept).mono ?_
      rintro (turn | result) after kept
      · exact kept
      · exact nextHypothesis result (within.2 result) kept

/-- A loop with its invariant. -/
theorem iterate {body : τ → Prog S (τ ⊕ β)} {init : τ}
    {post : β → κ → Prop} (inv : τ → κ → Prop) (initial : inv init state)
    (turns : ∀ turn current, inv turn current →
      (body turn).Keeps monitor current fun result after =>
        result.elim (fun turn => inv turn after) fun value =>
          post value after) :
    (Prog.iterate body init).Keeps monitor state post :=
  ⟨inv, initial, turns⟩

/-- A program that never returns and makes no operation. -/
theorem diverge (post : α → κ → Prop) :
    (Prog.diverge : Prog S α).Keeps monitor state post :=
  ⟨fun _ _ => True, trivial, fun _ _ _ => trivial⟩

/-- One turn of a loop that keeps to the monitor, with the rest of it. -/
theorem unroll {body : τ → Prog S (τ ⊕ β)} {init : τ}
    {next : β → Prog S α} {post : α → κ → Prop}
    (keeps : (loop body init next).Keeps monitor state post) :
    (Prog.unroll body init next).Keeps monitor state post := by
  obtain ⟨inv, initial, turns⟩ := keeps
  refine bind ((turns init state initial).mono fun result after holds => ?_)
  cases result with
  | inl turn => exact ⟨inv, holds, turns⟩
  | inr result => exact holds

/-- The monitor accepts every run, and the value of a run that returns has the
property that was proved. -/
theorem accepts {env : Env S σ} {program : Prog S α} {post : α → κ → Prop}
    {trace : List (Event S)} {outcome : Option α} {before final : σ}
    (keeps : program.Keeps monitor state post)
    (run : Runs env program before trace outcome final) :
    ∃ after, monitor.run state trace = some after ∧
      ∀ value, outcome = some value → post value after := by
  induction run generalizing state with
  | stop => exact ⟨state, rfl, fun value unfinished => by cases unfinished⟩
  | ret value =>
      refine ⟨state, rfl, fun result same => ?_⟩
      cases same
      exact keeps
  | op _ _ inductionHypothesis =>
      obtain ⟨middle, accepted, rest⟩ := keeps _
      obtain ⟨after, later, ends⟩ := inductionHypothesis rest
      exact ⟨after, (monitor.run_cons).mpr ⟨middle, accepted, later⟩, ends⟩
  | loop _ inductionHypothesis => exact inductionHypothesis keeps.unroll

end Keeps

end Prog

end RemoteCommand.Interaction
