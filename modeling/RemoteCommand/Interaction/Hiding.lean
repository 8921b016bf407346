import RemoteCommand.Interaction.Runs

/-!
# Programs that look the same from outside

Some operations are hidden, and a run shows the others, with their responses.
`Hides hidden program rest`: for every run of `program` there is one of `rest`
that shows the same, and that is complete when the run is.  There is a rule for
each place in which a hidden operation can stand.
-/

namespace RemoteCommand.Interaction

variable {S : Signature} {α β γ δ : Type} {hidden : S.Op → Bool}

/-- A run that stops in a program stops in what begins with it. -/
theorem Runs.begins {σ : Type} {env : Env S σ} {program : Prog S α}
    {state final : σ} {trace : List (Event S)} {outcome : Option α}
    (run : Runs env program state trace outcome final) (f : α → Prog S β) :
    Runs env (program.bind f) state trace none final := by
  induction run with
  | stop => exact .stop _ _
  | ret => exact .stop _ _
  | op answered _ inductionHypothesis => exact .op answered inductionHypothesis
  | loop _ inductionHypothesis =>
      refine .loop ?_
      rw [← Prog.unroll_bind]
      exact inductionHypothesis

/-- What a run shows. -/
def shown (hidden : S.Op → Bool) (trace : List (Event S)) : List (Event S) :=
  trace.filter fun event => !hidden event.1

def Hides (hidden : S.Op → Bool) (program : Prog S α) (rest : Prog S β) :
    Prop :=
  ∀ trace outcome, Runs unconstrained program () trace outcome () →
    ∃ trace' outcome', Runs unconstrained rest () trace' outcome' () ∧
      shown hidden trace' = shown hidden trace ∧
        outcome'.isSome = outcome.isSome

theorem shown_append (first second : List (Event S)) :
    shown hidden (first ++ second) =
      shown hidden first ++ shown hidden second :=
  List.filter_append ..

theorem shown_eq_nil {trace : List (Event S)}
    (all : ∀ event ∈ trace, hidden event.1 = true) : shown hidden trace = [] := by
  apply List.filter_eq_nil_iff.mpr
  intro event member
  simp [all event member]

namespace Hides

theorem ret (value : α) (result : β) :
    Hides hidden (.ret value : Prog S α) (.ret result) := by
  intro trace outcome run
  obtain ⟨rfl, -, rfl | rfl⟩ := run.ret_cases
  · exact ⟨[], none, .stop _ _, rfl, rfl⟩
  · exact ⟨[], some result, .ret _ _, rfl, rfl⟩

/-- Both programs begin with the same part. -/
theorem bind (first : Prog S γ) {program : γ → Prog S α} {rest : γ → Prog S β}
    (hides : ∀ value, Hides hidden (program value) (rest value)) :
    Hides hidden (first.bind program) (first.bind rest) := by
  intro trace outcome run
  rcases run.bind_cases with
    ⟨rfl, begun⟩ | ⟨value, _, before, behind, ended, later, rfl⟩
  · exact ⟨trace, none, begun.begins rest, rfl, rfl⟩
  · obtain ⟨trace', outcome', run', same, complete⟩ := hides value _ _ later
    refine ⟨before ++ trace', outcome', ended.bind run', ?_, complete⟩
    rw [shown_append, shown_append, same]

/-- A part of hidden operations is left out. -/
theorem only {first : Prog S γ} {program : γ → Prog S α} {rest : Prog S β}
    (within : first.Only fun o => hidden o = true)
    (hides : ∀ value, Hides hidden (program value) rest) :
    Hides hidden (first.bind program) rest := by
  intro trace outcome run
  rcases run.bind_cases with
    ⟨rfl, begun⟩ | ⟨value, _, before, behind, ended, later, rfl⟩
  · refine ⟨[], none, .stop _ _, ?_, rfl⟩
    exact (shown_eq_nil (begun.only within)).symm
  · obtain ⟨trace', outcome', run', same, complete⟩ := hides value _ _ later
    refine ⟨trace', outcome', run', ?_, complete⟩
    rw [shown_append, shown_eq_nil (ended.only within), same, List.nil_append]

theorem op (o : S.Op) {program : S.Resp o → Prog S α}
    {rest : S.Resp o → Prog S β}
    (hides : ∀ response, Hides hidden (program response) (rest response)) :
    Hides hidden (.op o program) (.op o rest) :=
  bind (.op o .ret) hides

/-- A hidden operation is left out. -/
theorem hide {o : S.Op} (isHidden : hidden o = true)
    {program : S.Resp o → Prog S α} {rest : Prog S β}
    (hides : ∀ response, Hides hidden (program response) rest) :
    Hides hidden (.op o program) rest :=
  @only S α β (S.Resp o) hidden (.op o .ret) program rest
    ⟨isHidden, fun _ => trivial⟩ hides

theorem ite {condition : Prop} [Decidable condition] {yes no : Prog S α}
    {yes' no' : Prog S β} (whenTrue : Hides hidden yes yes')
    (whenFalse : Hides hidden no no') :
    Hides hidden (if condition then yes else no)
      (if condition then yes' else no') := by
  split
  · exact whenTrue
  · exact whenFalse

end Hides

end RemoteCommand.Interaction
