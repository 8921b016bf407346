import RemoteCommand.Interaction.Runs

/-!
# Programs that come to an end

Total correctness: whatever is answered, a program reaches its end, and there
is an answer to every operation on the way.  A loop that stays in an invariant
has no end.
-/

namespace RemoteCommand.Interaction

variable {S : Signature} {α β σ τ : Type}

/-- Every run of the program performs allowed operations only and can be
continued to a complete one, none goes on for ever, and what the program returns
meets `post`. -/
inductive Completes (env : Env S σ) (allowed : S.Op → Prop)
    (post : α → σ → Prop) : Prog S α → σ → Prop
  | ret {value : α} {state : σ} :
      post value state → Completes env allowed post (.ret value) state
  | op {o : S.Op} {next : S.Resp o → Prog S α} {state : σ} :
      allowed o →
      (∃ response middle, env.answer state o response middle) →
      (∀ response middle, env.answer state o response middle →
        Completes env allowed post (next response) middle) →
      Completes env allowed post (.op o next) state
  | loop {ρ β : Type} {body : ρ → Prog S (ρ ⊕ β)} {init : ρ}
      {next : β → Prog S α} {state : σ} :
      Completes env allowed post (Prog.unroll body init next) state →
      Completes env allowed post (.loop body init next) state

namespace Completes

variable {env : Env S σ} {allowed : S.Op → Prop} {post : α → σ → Prop}
  {program : Prog S α} {state : σ}

theorem exists_run (completes : Completes env allowed post program state) :
    ∃ trace value final,
      Runs env program state trace (some value) final ∧ post value final := by
  induction completes with
  | ret holds => exact ⟨[], _, _, .ret _ _, holds⟩
  | op _ answered _ inductionHypothesis =>
      obtain ⟨response, middle, answered⟩ := answered
      obtain ⟨trace, value, final, run, holds⟩ :=
        inductionHypothesis response middle answered
      exact ⟨_, value, final, .op answered run, holds⟩
  | loop _ inductionHypothesis =>
      obtain ⟨trace, value, final, run, holds⟩ := inductionHypothesis
      exact ⟨trace, value, final, .loop run, holds⟩

/-- The operations of every run, also of one that is not complete. -/
theorem allows (completes : Completes env allowed post program state)
    {trace : List (Event S)} {outcome : Option α} {final : σ}
    (run : Runs env program state trace outcome final) :
    ∀ event ∈ trace, allowed event.1 := by
  induction completes generalizing trace with
  | ret =>
      rw [run.ret_cases.1]
      exact fun _ member => nomatch member
  | op allows _ _ inductionHypothesis =>
      rcases run.op_cases with
        ⟨rfl, _⟩ | ⟨response, middle, rest, answered, later, rfl⟩
      · exact fun _ member => nomatch member
      · exact List.forall_mem_cons.2
          ⟨allows, inductionHypothesis response middle answered later⟩
  | loop _ inductionHypothesis =>
      cases run with
      | stop => exact fun _ member => nomatch member
      | loop later => exact inductionHypothesis later

theorem mono {weaker : α → σ → Prop}
    (completes : Completes env allowed post program state)
    (implies : ∀ value final, post value final → weaker value final) :
    Completes env allowed weaker program state := by
  induction completes with
  | ret holds => exact .ret (implies _ _ holds)
  | op allows answered _ inductionHypothesis =>
      exact .op allows answered inductionHypothesis
  | loop _ inductionHypothesis => exact .loop inductionHypothesis

end Completes

/-- A loop whose turns keep an invariant and never leave it has no complete
run. -/
theorem iterate_no_end {env : Env S σ} {body : τ → Prog S (τ ⊕ α)}
    {inv : τ → σ → Prop}
    (turn : ∀ init state, inv init state → Ensures env (body init) state
      fun _ result final => result.elim (fun next => inv next final)
        fun _ => False)
    {init : τ} {state : σ} (holds : inv init state) :
    Ensures env (Prog.iterate body init) state fun _ _ _ => False := by
  intro trace value final run
  obtain ⟨turns, last, iterates, rfl⟩ := run.iterates
  clear run
  generalize completed : some value = outcome at iterates
  induction iterates with
  | inside => cases completed
  | leave run => exact turn _ _ holds _ _ _ run
  | again run _ inductionHypothesis =>
      exact inductionHypothesis (turn _ _ holds _ _ _ run) completed

end RemoteCommand.Interaction
