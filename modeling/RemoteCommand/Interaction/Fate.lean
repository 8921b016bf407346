import RemoteCommand.Interaction.Runs

/-!
# Operations that may end the process

A signal that is neither handled nor ignored ends the process inside the
operation that raises it: the operation is not answered and the program does not
go on.  Up to there the run is one of the program.
-/

namespace RemoteCommand.Interaction

variable {S : Signature} {α σ : Type}

/-- What has become of a program: it is on its way, it has returned, or an
operation has ended the process. -/
inductive Fate (S : Signature) (α : Type) where
  | unfinished
  | returned (value : α)
  | ended (o : S.Op)

/-- The value that was returned, if there is one. -/
def Fate.outcome : Fate S α → Option α
  | .returned value => some value
  | .unfinished | .ended _ => none

/-- `Fares env fatal program start trace fate stop`: the operations of `trace`
are answered, and then the program meets its fate.  A `fatal` operation may end
the process instead of being answered. -/
inductive Fares (env : Env S σ) (fatal : S.Op → Prop) {α : Type} :
    Prog S α → σ → List (Event S) → Fate S α → σ → Prop
  | stop (program : Prog S α) (state : σ) :
      Fares env fatal program state [] .unfinished state
  | ret (value : α) (state : σ) :
      Fares env fatal (.ret value) state [] (.returned value) state
  | ended {o : S.Op} {next : S.Resp o → Prog S α} {state : σ} :
      fatal o → Fares env fatal (.op o next) state [] (.ended o) state
  | op {o : S.Op} {next : S.Resp o → Prog S α} {response : S.Resp o}
      {state middle final : σ} {trace : List (Event S)} {fate : Fate S α} :
      env.answer state o response middle →
      Fares env fatal (next response) middle trace fate final →
      Fares env fatal (.op o next) state (⟨o, response⟩ :: trace) fate final
  | loop {ρ β : Type} {body : ρ → Prog S (ρ ⊕ β)} {init : ρ}
      {next : β → Prog S α} {state final : σ} {trace : List (Event S)}
      {fate : Fate S α} :
      Fares env fatal (Prog.unroll body init next) state trace fate final →
      Fares env fatal (.loop body init next) state trace fate final

namespace Fares

variable {env : Env S σ} {fatal : S.Op → Prop} {program : Prog S α}
  {state final : σ} {trace : List (Event S)} {fate : Fate S α}

/-- What was answered before is a run of the program. -/
theorem run (fares : Fares env fatal program state trace fate final) :
    Runs env program state trace fate.outcome final := by
  induction fares with
  | stop => exact .stop _ _
  | ret => exact .ret _ _
  | ended => exact .stop _ _
  | op answered _ inductionHypothesis => exact .op answered inductionHypothesis
  | loop _ inductionHypothesis => exact .loop inductionHypothesis

/-- A complete run meets its fate without a signal. -/
theorem of_run {value : α}
    (run : Runs env program state trace (some value) final) :
    Fares env fatal program state trace (.returned value) final := by
  generalize completed : some value = outcome at run
  induction run with
  | stop => cases completed
  | ret =>
      cases completed
      exact .ret _ _
  | op answered _ inductionHypothesis =>
      exact .op answered (inductionHypothesis completed)
  | loop _ inductionHypothesis => exact .loop (inductionHypothesis completed)

theorem raises {o : S.Op}
    (fares : Fares env fatal program state trace (.ended o) final) :
    fatal o := by
  generalize same : Fate.ended o = fate at fares
  induction fares with
  | stop => cases same
  | ret => cases same
  | ended raises =>
      cases same
      exact raises
  | op _ _ inductionHypothesis => exact inductionHypothesis same
  | loop _ inductionHypothesis => exact inductionHypothesis same

/-- The operation that ended the process is the next one of the program. -/
theorem ended_run {o : S.Op} {response : S.Resp o} {after : σ}
    (fares : Fares env fatal program state trace (.ended o) final)
    (answered : env.answer final o response after) :
    Runs env program state (trace ++ [⟨o, response⟩]) none after := by
  generalize same : Fate.ended o = fate at fares
  induction fares with
  | stop => cases same
  | ret => cases same
  | ended =>
      cases same
      exact .op answered (.stop _ _)
  | op found _ inductionHypothesis =>
      exact .op found (inductionHypothesis answered same)
  | loop _ inductionHypothesis =>
      exact .loop (inductionHypothesis answered same)

end Fares

end RemoteCommand.Interaction
