import RemoteCommand.Interaction.Program

/-!
# Runs of an interactive program

An environment says which responses an operation may get in a state, and the
state it leaves.  A run records the operations with their responses; it is
either complete, with the returned value, or stops anywhere on the way, so
that safety statements cover programs that block for ever.

`Ensures` is the partial-correctness judgement over complete runs, with one
rule for each node of a program.
-/

namespace RemoteCommand.Interaction

variable {S : Signature} {α β γ σ τ : Type}

/-- One performed operation with the response it got. -/
abbrev Event (S : Signature) : Type :=
  (o : S.Op) × S.Resp o

/-- What may be answered to an operation, by the state of the surroundings. -/
structure Env (S : Signature) (σ : Type) where
  answer : σ → (o : S.Op) → S.Resp o → σ → Prop

/-- `Runs env program start trace outcome stop`: the program may perform
`trace`.  The outcome is the returned value, or `none` for a run that is
looked at before its end. -/
inductive Runs (env : Env S σ) {α : Type} :
    Prog S α → σ → List (Event S) → Option α → σ → Prop
  | stop (program : Prog S α) (state : σ) :
      Runs env program state [] none state
  | ret (value : α) (state : σ) :
      Runs env (.ret value) state [] (some value) state
  | op {o : S.Op} {next : S.Resp o → Prog S α} {response : S.Resp o}
      {state middle final : σ} {trace : List (Event S)}
      {outcome : Option α} :
      env.answer state o response middle →
      Runs env (next response) middle trace outcome final →
      Runs env (.op o next) state (⟨o, response⟩ :: trace) outcome final
  | loop {ρ β : Type} {body : ρ → Prog S (ρ ⊕ β)} {init : ρ}
      {next : β → Prog S α} {state final : σ} {trace : List (Event S)}
      {outcome : Option α} :
      Runs env (Prog.unroll body init next) state trace outcome final →
      Runs env (.loop body init next) state trace outcome final

namespace Runs

variable {env : Env S σ} {program : Prog S α} {state final : σ}
  {trace : List (Event S)} {outcome : Option α}

theorem ret_cases {value : α}
    (run : Runs env (.ret value) state trace outcome final) :
    trace = [] ∧ final = state ∧ (outcome = none ∨ outcome = some value) := by
  cases run with
  | stop => exact ⟨rfl, rfl, .inl rfl⟩
  | ret => exact ⟨rfl, rfl, .inr rfl⟩

theorem op_cases {o : S.Op} {next : S.Resp o → Prog S α}
    (run : Runs env (.op o next) state trace outcome final) :
    (trace = [] ∧ outcome = none ∧ final = state) ∨
      ∃ response middle rest,
        env.answer state o response middle ∧
          Runs env (next response) middle rest outcome final ∧
          trace = ⟨o, response⟩ :: rest := by
  cases run with
  | stop => exact .inl ⟨rfl, rfl, rfl⟩
  | op answered rest => exact .inr ⟨_, _, _, answered, rest, rfl⟩

/-- A run of a sequence stops in the first program, or completes it and goes
on with the second. -/
theorem bind_cases {f : α → Prog S β} {outcome : Option β}
    (run : Runs env (program.bind f) state trace outcome final) :
    (outcome = none ∧ Runs env program state trace none final) ∨
      ∃ value middle first second,
        Runs env program state first (some value) middle ∧
          Runs env (f value) middle second outcome final ∧
          trace = first ++ second := by
  generalize composed : program.bind f = whole at run
  induction run generalizing program with
  | stop => exact .inl ⟨rfl, .stop _ _⟩
  | ret value state =>
      cases program with
      | ret first =>
          rw [Prog.ret_bind] at composed
          refine .inr ⟨first, state, [], [], .ret _ _, ?_, rfl⟩
          rw [composed]
          exact .ret value state
      | op => simp at composed
      | loop => simp at composed
  | @op o next response state middle final trace outcome answered rest ih =>
      cases program with
      | ret first =>
          refine .inr ⟨first, state, [], _, .ret _ _, ?_, rfl⟩
          rw [Prog.ret_bind] at composed
          rw [composed]
          exact .op answered rest
      | op o' next' =>
          rw [Prog.op_bind] at composed
          injection composed with _ sameOp sameNext
          subst sameOp
          subst sameNext
          rcases ih rfl with ⟨stopped, inner⟩ | found
          · exact .inl ⟨stopped, .op answered inner⟩
          · obtain ⟨value, between, first, second, inner, outer, split⟩ :=
              found
            exact .inr ⟨value, between, _ :: first, second,
              .op answered inner, outer, by rw [split, List.cons_append]⟩
      | loop => simp at composed
  | @loop ρ δ body init next state final trace outcome rest ih =>
      cases program with
      | ret first =>
          refine .inr ⟨first, state, [], _, .ret _ _, ?_, rfl⟩
          rw [Prog.ret_bind] at composed
          rw [composed]
          exact .loop rest
      | op => simp at composed
      | loop body' init' next' =>
          rw [Prog.loop_bind] at composed
          cases composed
          rcases ih (Prog.unroll_bind body init next' f) with
            ⟨stopped, inner⟩ | found
          · exact .inl ⟨stopped, .loop inner⟩
          · obtain ⟨value, between, first, second, inner, outer, split⟩ :=
              found
            exact .inr ⟨value, between, first, second, .loop inner, outer,
              split⟩

/-- Complete runs compose. -/
theorem bind {f : α → Prog S β} {value : α} {middle : σ}
    {outcome : Option β} {first second : List (Event S)}
    (run : Runs env program state first (some value) middle)
    (rest : Runs env (f value) middle second outcome final) :
    Runs env (program.bind f) state (first ++ second) outcome final := by
  generalize completed : some value = result at run
  induction run with
  | stop => cases completed
  | ret =>
      cases completed
      exact rest
  | op answered _ ih =>
      exact .op answered (ih rest completed)
  | loop _ ih =>
      refine .loop ?_
      rw [← Prog.unroll_bind]
      exact ih rest completed

/-- Every event of a run is an operation the program may perform. -/
theorem only {allowed : S.Op → Prop} (within : program.Only allowed)
    (run : Runs env program state trace outcome final) :
    ∀ event ∈ trace, allowed event.1 := by
  induction run with
  | stop => simp
  | ret => simp
  | op _ _ ih =>
      intro event member
      rcases List.mem_cons.mp member with rfl | later
      · exact within.1
      · exact ih (within.2 _) event later
  | loop _ ih =>
      exact ih within.unroll

/-- A loop-free program is over after a bounded number of operations. -/
theorem length_le {calls : Nat} (within : program.Within calls)
    (run : Runs env program state trace outcome final) :
    trace.length ≤ calls := by
  induction run generalizing calls with
  | stop => exact Nat.zero_le _
  | ret => exact Nat.zero_le _
  | op _ _ inductionHypothesis =>
      cases calls with
      | zero => exact within.elim
      | succ calls =>
          exact Nat.succ_le_succ (inductionHypothesis (within _))
  | loop => cases calls <;> exact within.elim

/-- A run that diverges never completes. -/
theorem diverge_outcome {outcome : Option α}
    (run : Runs env (.diverge : Prog S α) state trace outcome final) :
    outcome = none := by
  generalize same : (Prog.diverge : Prog S α) = program at run
  induction run with
  | stop => rfl
  | ret => cases same
  | op => cases same
  | loop _ inductionHypothesis =>
      cases same
      exact inductionHypothesis rfl

end Runs

/-- Surroundings in which everything may happen. -/
def unconstrained : Env S Unit where
  answer _ _ _ _ := True

/-- Whatever the surroundings, a run is one that may happen without them. -/
theorem Runs.forget {env : Env S σ} {program : Prog S α} {state final : σ}
    {trace : List (Event S)} {outcome : Option α}
    (run : Runs env program state trace outcome final) :
    Runs unconstrained program () trace outcome () := by
  induction run with
  | stop => exact .stop _ _
  | ret => exact .ret _ _
  | op _ _ inductionHypothesis => exact .op trivial inductionHypothesis
  | loop _ inductionHypothesis => exact .loop inductionHypothesis

/-- A program comes to a rest of itself, with some responses. -/
inductive Leads : Prog S α → Prog S α → Prop
  | refl (program : Prog S α) : Leads program program
  | op {o : S.Op} {next : S.Resp o → Prog S α} {rest : Prog S α}
      (response : S.Resp o) :
      Leads (next response) rest → Leads (.op o next) rest

namespace Leads

variable {program middle rest : Prog S α}

theorem trans (first : Leads program middle) (second : Leads middle rest) :
    Leads program rest := by
  induction first with
  | refl => exact second
  | op response _ inductionHypothesis =>
      exact .op response (inductionHypothesis second)

/-- What the rest does behind these responses, the program does. -/
theorem runs (leads : Leads program rest) {trace : List (Event S)}
    {outcome : Option α} (run : Runs unconstrained rest () trace outcome ()) :
    ∃ before,
      Runs unconstrained program () (before ++ trace) outcome () := by
  induction leads with
  | refl => exact ⟨[], run⟩
  | @op o next rest response _ inductionHypothesis =>
      obtain ⟨before, whole⟩ := inductionHypothesis run
      exact ⟨⟨o, response⟩ :: before, .op trivial whole⟩

end Leads

/-- Surroundings that answer every operation in one way. -/
def Env.following (answer : σ → (o : S.Op) → S.Resp o × σ) : Env S σ where
  answer state o response after := answer state o = (response, after)

/-- In such surroundings a program returns one value. -/
theorem Runs.following_unique {answer : σ → (o : S.Op) → S.Resp o × σ}
    {program : Prog S α} {state final last : σ}
    {trace other : List (Event S)} {value result : α}
    (run : Runs (.following answer) program state trace (some value) final)
    (again : Runs (.following answer) program state other (some result) last) :
    result = value := by
  generalize completed : some value = outcome at run
  induction run generalizing other with
  | stop => cases completed
  | ret =>
      rcases again.ret_cases with ⟨_, _, unfinished | same⟩
      · cases unfinished
      · exact Option.some.inj (same.trans completed.symm)
  | op answered _ inductionHypothesis =>
      rcases again.op_cases with ⟨_, unfinished, _⟩ | found
      · cases unfinished
      · obtain ⟨response, middle, rest, alsoAnswered, later, _⟩ := found
        obtain ⟨rfl, rfl⟩ := Prod.mk.inj (answered.symm.trans alsoAnswered)
        exact inductionHypothesis later completed
  | loop _ inductionHypothesis =>
      cases again with
      | loop later => exact inductionHypothesis later completed

/-! ## Recorded traces -/

/-- Follow a recorded trace, passing at most `fuel` nodes of the program.
`after` is the state that a response leaves, if it is a possible one.  The
result is the outcome, if the program can perform the trace. -/
def Prog.replay [DecidableEq S.Op]
    (after : σ → (o : S.Op) → S.Resp o → Option σ) {α : Type} :
    Nat → σ → Prog S α → List (Event S) → Option (Option α)
  | 0, _, _, _ => none
  | _ + 1, _, .ret value, [] => some (some value)
  | _ + 1, _, .ret _, _ :: _ => none
  | _ + 1, _, .op _ _, [] => some none
  | fuel + 1, state, .op o next, ⟨performed, response⟩ :: rest =>
      if same : performed = o then
        match after state o (same ▸ response) with
        | some middle => (next (same ▸ response)).replay after fuel middle rest
        | none => none
      else
        none
  | fuel + 1, state, .loop body init next, trace =>
      (Prog.unroll body init next).replay after fuel state trace

theorem Runs.ofReplay [DecidableEq S.Op] {env : Env S σ}
    {after : σ → (o : S.Op) → S.Resp o → Option σ}
    (possible : ∀ {state o response middle},
      after state o response = some middle →
        env.answer state o response middle)
    (fuel : Nat) {program : Prog S α} {state : σ} {trace : List (Event S)}
    {outcome : Option α}
    (replayed : program.replay after fuel state trace = some outcome) :
    ∃ final, Runs env program state trace outcome final := by
  induction fuel generalizing program state trace with
  | zero => cases replayed
  | succ fuel inductionHypothesis =>
      cases program with
      | ret value =>
          cases trace with
          | nil =>
              cases replayed
              exact ⟨state, .ret value state⟩
          | cons event rest => cases replayed
      | op o next =>
          cases trace with
          | nil =>
              cases replayed
              exact ⟨state, .stop _ state⟩
          | cons event rest =>
              obtain ⟨performed, response⟩ := event
              by_cases same : performed = o
              · subst same
                rw [Prog.replay, dif_pos rfl] at replayed
                cases answered : after state performed response with
                | none => simp [answered] at replayed
                | some middle =>
                    simp only [answered] at replayed
                    obtain ⟨final, run⟩ := inductionHypothesis replayed
                    exact ⟨final, .op (possible answered) run⟩
              · rw [Prog.replay, dif_neg same] at replayed
                cases replayed
      | loop body init next =>
          rw [Prog.replay] at replayed
          obtain ⟨final, run⟩ := inductionHypothesis replayed
          exact ⟨final, .loop run⟩

/-- Without constraints every recorded response is a possible one. -/
theorem Runs.ofReplayUnconstrained [DecidableEq S.Op] (fuel : Nat)
    {program : Prog S α} {trace : List (Event S)} {outcome : Option α}
    (replayed : program.replay (fun _ _ _ => some ()) fuel () trace =
      some outcome) :
    Runs unconstrained program () trace outcome () := by
  have possible {state : Unit} {o : S.Op} {response : S.Resp o}
      {middle : Unit} (_ : some () = some middle) :
      (unconstrained : Env S Unit).answer state o response middle :=
    trivial
  obtain ⟨final, run⟩ := Runs.ofReplay possible fuel replayed
  exact run

/-! ## Turns of a loop -/

/-- A run of a loop, cut into its completed turns and the last one. -/
inductive Iterates (env : Env S σ) (body : τ → Prog S (τ ⊕ β)) :
    τ → σ → List (List (Event S)) → List (Event S) → Option β → σ → Prop
  | inside {turn : τ} {state final : σ} {last : List (Event S)} :
      Runs env (body turn) state last none final →
      Iterates env body turn state [] last none final
  | leave {turn : τ} {state final : σ} {last : List (Event S)} {value : β} :
      Runs env (body turn) state last (some (.inr value)) final →
      Iterates env body turn state [] last (some value) final
  | again {turn next : τ} {state middle final : σ}
      {done last : List (Event S)} {turns : List (List (Event S))}
      {outcome : Option β} :
      Runs env (body turn) state done (some (.inl next)) middle →
      Iterates env body next middle turns last outcome final →
      Iterates env body turn state (done :: turns) last outcome final

theorem Runs.unroll_turns {env : Env S σ} {body : τ → Prog S (τ ⊕ β)}
    {program : Prog S (τ ⊕ β)} {state final : σ} {trace : List (Event S)}
    {outcome : Option β}
    (run : Runs env
      (program.bind (Sum.elim (fun turn => .loop body turn .ret) .ret))
      state trace outcome final) :
    (outcome = none ∧ Runs env program state trace none final) ∨
      (∃ value, outcome = some value ∧
        Runs env program state trace (some (.inr value)) final) ∨
      ∃ next middle done turns last,
        Runs env program state done (some (.inl next)) middle ∧
          Iterates env body next middle turns last outcome final ∧
          trace = done ++ (turns.flatten ++ last) := by
  generalize composed : program.bind
    (Sum.elim (fun turn => .loop body turn .ret) .ret) = whole at run
  induction run generalizing program with
  | stop =>
      exact .inl ⟨rfl, .stop _ _⟩
  | ret value state =>
      rcases program with ⟨_ | result⟩ | _ | _
      · cases composed
      · cases composed
        exact .inr (.inl ⟨value, rfl, .ret _ _⟩)
      · cases composed
      · cases composed
  | op answered rest inductionHypothesis =>
      rcases program with ⟨_ | _⟩ | ⟨o, next⟩ | _
      · cases composed
      · cases composed
      · cases composed
        rcases inductionHypothesis rfl with
          ⟨stopped, inner⟩ | ⟨value, returned, inner⟩ | found
        · exact .inl ⟨stopped, .op answered inner⟩
        · exact .inr (.inl ⟨value, returned, .op answered inner⟩)
        · obtain ⟨next, middle, done, turns, last, inner, outer, rfl⟩ := found
          exact .inr (.inr ⟨next, middle, _ :: done, turns, last,
            .op answered inner, outer, rfl⟩)
      · cases composed
  | loop rest inductionHypothesis =>
      rcases program with ⟨turn | _⟩ | _ | ⟨inner, init, after⟩
      · -- The turn is complete and the loop begins the next one.
        cases composed
        refine .inr (.inr ?_)
        rcases inductionHypothesis rfl with
          ⟨rfl, run⟩ | ⟨value, rfl, run⟩ | found
        · exact ⟨turn, _, [], [], _, .ret _ _, .inside run, rfl⟩
        · exact ⟨turn, _, [], [], _, .ret _ _, .leave run, rfl⟩
        · obtain ⟨next, middle, done, turns, last, run, later, rfl⟩ := found
          exact ⟨turn, _, [], done :: turns, last, .ret _ _,
            .again run later, by simp⟩
      · cases composed
      · cases composed
      · -- A loop within the turn goes on.
        cases composed
        rcases inductionHypothesis (Prog.unroll_bind _ _ after _) with
          ⟨stopped, run⟩ | ⟨value, returned, run⟩ | found
        · exact .inl ⟨stopped, .loop run⟩
        · exact .inr (.inl ⟨value, returned, .loop run⟩)
        · obtain ⟨next, middle, done, turns, last, run, later, same⟩ := found
          exact .inr (.inr ⟨next, middle, done, turns, last, .loop run,
            later, same⟩)

theorem Runs.iterates {env : Env S σ} {body : τ → Prog S (τ ⊕ β)} {init : τ}
    {state final : σ} {trace : List (Event S)} {outcome : Option β}
    (run : Runs env (Prog.iterate body init) state trace outcome final) :
    ∃ turns last, Iterates env body init state turns last outcome final ∧
      trace = turns.flatten ++ last := by
  cases run with
  | stop => exact ⟨[], [], .inside (.stop _ _), rfl⟩
  | loop rest =>
      rcases rest.unroll_turns with
        ⟨rfl, run⟩ | ⟨value, rfl, run⟩ | found
      · exact ⟨[], trace, .inside run, rfl⟩
      · exact ⟨[], trace, .leave run, rfl⟩
      · obtain ⟨next, middle, done, turns, last, run, later, rfl⟩ := found
        exact ⟨done :: turns, last, .again run later, by simp⟩

/-- Every complete run of `program` from `state` meets `post`. -/
def Ensures (env : Env S σ) (program : Prog S α) (state : σ)
    (post : List (Event S) → α → σ → Prop) : Prop :=
  ∀ trace value final,
    Runs env program state trace (some value) final → post trace value final

section Ensures

variable {env : Env S σ} {state : σ}
  {post : List (Event S) → α → σ → Prop}

@[simp]
theorem ensures_ret (value : α) :
    Ensures env (.ret value) state post ↔ post [] value state := by
  constructor
  · intro all
    exact all _ _ _ (.ret value state)
  · intro holds trace result final run
    obtain ⟨rfl, rfl, absurd | same⟩ := run.ret_cases
    · cases absurd
    · cases same
      exact holds

@[simp]
theorem ensures_op (o : S.Op) (next : S.Resp o → Prog S α) :
    Ensures env (.op o next) state post ↔
      ∀ response middle, env.answer state o response middle →
        Ensures env (next response) middle
          fun trace => post (⟨o, response⟩ :: trace) := by
  constructor
  · intro all response middle answered trace value final run
    exact all _ _ _ (.op answered run)
  · intro all trace value final run
    rcases run.op_cases with ⟨_, absurd, _⟩ | found
    · cases absurd
    · obtain ⟨response, middle, rest, answered, inner, rfl⟩ := found
      exact all response middle answered _ _ _ inner

theorem Ensures.bind {program : Prog S β} {f : β → Prog S α}
    (first : Ensures env program state fun trace value middle =>
      Ensures env (f value) middle fun rest => post (trace ++ rest)) :
    Ensures env (program.bind f) state post := by
  intro trace value final run
  rcases run.bind_cases with ⟨absurd, _⟩ | found
  · cases absurd
  · obtain ⟨result, middle, before, after, inner, outer, rfl⟩ := found
    exact first _ _ _ inner _ _ _ outer

theorem ensures_diverge : Ensures env (.diverge : Prog S α) state post := by
  intro trace value final run
  cases run.diverge_outcome

/-- A part that makes allowed calls only, before the rest. -/
theorem Ensures.only_bind {program : Prog S β} {f : β → Prog S α}
    {allowed : S.Op → Prop} (within : program.Only allowed)
    (rest : ∀ first value middle, (∀ event ∈ first, allowed event.1) →
      Ensures env (f value) middle fun trace => post (first ++ trace)) :
    Ensures env (program.bind f) state post :=
  Ensures.bind fun first value middle run =>
    rest first value middle (run.only within)

/-- A loop whose turns leave only good events, up to the last turn. -/
theorem Ensures.iterate {body : τ → Prog S (τ ⊕ α)} {good : Event S → Prop}
    {post : List (Event S) → α → Prop}
    (turn : ∀ init state, Ensures env (body init) state
      fun trace result _ => result.elim (fun _ => ∀ event ∈ trace, good event)
        (post trace))
    (extends_ : ∀ {first last value}, (∀ event ∈ first, good event) →
      post last value → post (first ++ last) value)
    (init : τ) (state : σ) :
    Ensures env (Prog.iterate body init) state
      fun trace value _ => post trace value := by
  intro trace value final run
  obtain ⟨turns, last, iterates, rfl⟩ := run.iterates
  clear run
  generalize completed : some value = outcome at iterates
  induction iterates with
  | inside => cases completed
  | leave run =>
      cases completed
      exact turn _ _ _ _ _ run
  | again run _ inductionHypothesis =>
      rw [List.flatten_cons, List.append_assoc]
      exact extends_ (turn _ _ _ _ _ run) (inductionHypothesis completed)

theorem Ensures.mono {program : Prog S α}
    {stronger weaker : List (Event S) → α → σ → Prop}
    (holds : Ensures env program state stronger)
    (implies : ∀ trace value final,
      stronger trace value final → weaker trace value final) :
    Ensures env program state weaker :=
  fun trace value final run =>
    implies _ _ _ (holds trace value final run)

theorem ensures_ite (condition : Prop) [Decidable condition]
    (yes no : Prog S α) :
    Ensures env (if condition then yes else no) state post ↔
      (condition → Ensures env yes state post) ∧
        (¬ condition → Ensures env no state post) := by
  split <;> simp [*]

end Ensures

end RemoteCommand.Interaction
