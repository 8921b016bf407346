import RemoteCommand.SharedLog

/-!
# Behind a log file that could not be opened

When `fopen` fails, `log_request` returns and keeps `log_cs`; so does the caller
of a `leave_cs` that fails.  Nobody is between the two calls then and nobody
will come there again.
-/

namespace RemoteCommand

open Machine Transition

/-- Whether the worker is in `log_request`. -/
def LogPc.busy : LogPc → Nat
  | .idle => 0
  | _ => 1

namespace Loggers

variable {ι : Type} [DecidableEq ι]

/-- What does not change any more. -/
structure Frozen (before state : Loggers ι) : Prop where
  holder : state.holder = before.holder
  file : state.file = before.file
  entries : state.entries = before.entries
  returnedOk : ∀ index, state.returnedOk index = before.returnedOk index

/-- The lock is held and nobody is in front of its release. -/
structure Stalled (state : Loggers ι) : Prop where
  held : state.holder ≠ none
  outside : ∀ index, (state.pc index).inside = false

/-- The call of a worker has begun. -/
def isCall : Action ι → Bool
  | .call _ _ => true
  | _ => false

/-- A call that fails in front of the lock. -/
def failsEarly : Action ι → Bool
  | .getTime _ none | .enterCs _ false => true
  | _ => false

/-- How many actions of this kind a worker takes. -/
def countOf (worker : ι) (kind : Action ι → Bool) (actions : List (Action ι)) :
    Nat :=
  actions.countP fun action => kind action && decide (action.worker = worker)

section Stalled

variable {filename : Option (List Byte)} {contents : List Byte}
  {state next : Loggers ι} {action : Action ι} {index : ι}

theorem outside_setPc {pc : LogPc}
    (outside : ∀ other, (state.pc other).inside = false)
    (stays : pc.inside = false) (other : ι) :
    ((state.setPc index pc).pc other).inside = false := by
  by_cases same : other = index
  · rw [same, setPc_self]
    exact stays
  · rw [setPc_other state pc same]
    exact outside other

/-- A step that does not give the lock back stalls the log. -/
theorem step_stalls (holds : state.Invariant contents)
    (fails : ¬ Releases action)
    (stepped : state.step filename action = some next) : next.Stalled := by
  have alone {index : ι} {pc : LogPc} (guard : state.pc index = pc)
      (inside : pc.inside = true) :
      state.holder ≠ none ∧
        ∀ other, ((state.setPc index .idle).pc other).inside = false := by
    have holding := holds.holding guard inside
    refine ⟨by rw [holding]; exact Option.some_ne_none index, fun other => ?_⟩
    by_cases same : other = index
    · rw [same, setPc_self]
      rfl
    · rw [setPc_other state _ same]
      refine Bool.eq_false_iff.mpr fun also => same ?_
      rw [← guard] at inside
      exact holds.exclusive.unique also inside
  cases step_cases stepped with
  | openError guard =>
      obtain ⟨held, outside⟩ := alone guard rfl
      exact ⟨held, outside⟩
  | @leave _ _ succeeds guard =>
      cases succeeds with
      | true => exact absurd trivial fails
      | false =>
          obtain ⟨held, outside⟩ := alone guard rfl
          exact ⟨held, outside⟩
  | _ => exact absurd trivial fails

/-- What a step can do when the log is stalled: a worker goes on to the lock, or
it fails in front of it. -/
theorem Stalled.step_cases (stalled : state.Stalled)
    (stepped : state.step filename action = some next) :
    (∃ pc, next = state.setPc action.worker pc ∧ pc.inside = false ∧
      failsEarly action = false ∧
      (isCall action).toNat + (state.pc action.worker).busy = pc.busy) ∨
    ∃ message, next = state.finish action.worker intErr message ∧
      (filename ≠ none → failsEarly action = true) ∧
      isCall action = false ∧ (state.pc action.worker).busy = 1 := by
  have notInside {index : ι} {pc : LogPc} (guard : state.pc index = pc)
      (inside : pc.inside = true) : False := by
    have outside := stalled.outside index
    rw [guard, inside] at outside
    cases outside
  cases Loggers.step_cases stepped with
  | call guard => exact .inl ⟨_, rfl, rfl, rfl, by rw [Action.worker, guard]; rfl⟩
  | time guard => exact .inl ⟨_, rfl, rfl, rfl, by rw [Action.worker, guard]; rfl⟩
  | fileSet guard =>
      exact .inl ⟨_, rfl, rfl, rfl, by rw [Action.worker, guard]; rfl⟩
  | timeError guard =>
      exact .inr ⟨_, rfl, fun _ => rfl, rfl, by rw [Action.worker, guard]; rfl⟩
  | fileNotSet guard notSet =>
      exact .inr ⟨_, rfl, fun set => absurd notSet set, rfl,
        by rw [Action.worker, guard]; rfl⟩
  | enterError guard =>
      exact .inr ⟨_, rfl, fun _ => rfl, rfl, by rw [Action.worker, guard]; rfl⟩
  | enter _ free => exact absurd free stalled.held
  | opened guard => exact (notInside guard rfl).elim
  | openError guard => exact (notInside guard rfl).elim
  | write guard => exact (notInside guard rfl).elim
  | flush guard => exact (notInside guard rfl).elim
  | close guard => exact (notInside guard rfl).elim
  | leave guard => exact (notInside guard rfl).elim

theorem Stalled.step (stalled : state.Stalled)
    (stepped : state.step filename action = some next) :
    next.Stalled ∧ Frozen state next := by
  rcases stalled.step_cases stepped with
    ⟨pc, rfl, stays, _⟩ | ⟨message, rfl, _⟩
  · exact ⟨⟨stalled.held, outside_setPc stalled.outside stays⟩,
      ⟨rfl, rfl, rfl, fun _ => rfl⟩⟩
  · refine ⟨⟨stalled.held, outside_setPc stalled.outside rfl⟩,
      ⟨rfl, rfl, rfl, fun other => ?_⟩⟩
    by_cases same : other = action.worker
    · subst same
      simp [returnedOk, finish, ok, intErr]
    · simp only [returnedOk, finish, Function.update_of_ne same]

/-- Every call begins where the worker is idle, and it becomes idle by an error
only. -/
theorem Stalled.step_busy (stalled : state.Stalled) (set : filename ≠ none)
    (stepped : state.step filename action = some next) :
    (isCall action).toNat + (state.pc action.worker).busy =
      (failsEarly action).toNat + (next.pc action.worker).busy := by
  rcases stalled.step_cases stepped with
    ⟨pc, rfl, _, early, balance⟩ | ⟨message, rfl, early, call, one⟩
  · rw [early, setPc_self, balance, Bool.toNat_false, Nat.zero_add]
  · have idle : (state.finish action.worker intErr message).pc action.worker =
        .idle := setPc_self state action.worker .idle
    rw [early set, call, idle, one]
    rfl

/-- The other workers stay where they are. -/
theorem Stalled.step_other (stalled : state.Stalled)
    (stepped : state.step filename action = some next) {worker : ι}
    (other : worker ≠ action.worker) : next.pc worker = state.pc worker := by
  rcases stalled.step_cases stepped with ⟨pc, rfl, _⟩ | ⟨message, rfl, _⟩
  · exact setPc_other state pc other
  · exact setPc_other state .idle other

/-! ## Every continuation -/

omit [DecidableEq ι] in
theorem Frozen.trans {first second third : Loggers ι}
    (before : Frozen first second) (behind : Frozen second third) :
    Frozen first third where
  holder := behind.holder.trans before.holder
  file := behind.file.trans before.file
  entries := behind.entries.trans before.entries
  returnedOk index := (behind.returnedOk index).trans (before.returnedOk index)

theorem Stalled.run (actions : List (Action ι)) {final : Loggers ι}
    (stalled : state.Stalled)
    (ran : (system filename).run state actions = some final) :
    final.Stalled ∧ Frozen state final := by
  have keeps {middle next : Loggers ι} {action : Action ι}
      (before : middle.Stalled ∧ Frozen state middle)
      (stepped : middle.step filename action = some next) :
      next.Stalled ∧ Frozen state next := by
    obtain ⟨stalled, here⟩ := before.1.step stepped
    exact ⟨stalled, before.2.trans here⟩
  have initial : state.Stalled ∧ Frozen state state :=
    ⟨stalled, ⟨rfl, rfl, rfl, fun _ => rfl⟩⟩
  exact (system filename).run_invariant keeps actions initial ran

theorem Stalled.run_busy (actions : List (Action ι)) {final : Loggers ι}
    (stalled : state.Stalled) (set : filename ≠ none)
    (ran : (system filename).run state actions = some final) (worker : ι) :
    countOf worker isCall actions + (state.pc worker).busy =
      countOf worker failsEarly actions + (final.pc worker).busy := by
  induction actions generalizing state with
  | nil =>
      cases ran
      rfl
  | cons action actions inductionHypothesis =>
      obtain ⟨next, stepped, rest⟩ := ((system filename).run_cons).mp ran
      have later := inductionHypothesis (stalled.step stepped).1 rest
      unfold countOf at later ⊢
      rw [List.countP_cons, List.countP_cons]
      by_cases own : action.worker = worker
      · have here := stalled.step_busy set stepped
        rw [own] at here
        simp only [own, decide_true, Bool.and_true]
        cases called : isCall action <;> cases failed : failsEarly action <;>
          simp only [called, failed, Bool.toNat_true, Bool.toNat_false, if_true,
            Bool.false_eq_true, if_false] at here ⊢ <;>
          omega
      · have same := stalled.step_other stepped (Ne.symm own)
        rw [same] at later
        simp only [own, decide_false, Bool.and_false, Bool.false_eq_true,
          if_false, Nat.add_zero]
        exact later

theorem busy_le (pc : LogPc) : pc.busy ≤ 1 := by
  cases pc <;> simp [LogPc.busy]

/-- A run with a step that does not give the lock back stalls the log. -/
theorem run_stalls (actions : List (Action ι)) {final : Loggers ι}
    (holds : state.Invariant contents)
    (fails : ¬ (system filename).StepsMeet (fun _ => Releases) state actions)
    (ran : (system filename).run state actions = some final) :
    final.Stalled := by
  induction actions generalizing state with
  | nil => exact absurd trivial fails
  | cons action actions inductionHypothesis =>
      obtain ⟨next, stepped, rest⟩ := ((system filename).run_cons).mp ran
      by_cases met : Releases action
      · refine inductionHypothesis (step_invariant holds met stepped) ?_ rest
        intro later
        refine fails fun other same => ?_
        cases stepped.symm.trans same
        exact ⟨met, later⟩
      · exact ((step_stalls holds met stepped).run actions rest).1

/-- A log file that cannot be opened once ends the logging, and more.  Behind a
failing `fopen`, or a failing `leave_cs`, in every run of any number of workers
and in every continuation: the lock stays taken, nobody is about to release it,
the file does not grow, no call returns `OK` any more, and each worker calls
`log_request` at most once more than it has calls that fail in front of the
lock. -/
theorem log_stalls {path contents : List Byte}
    {before after : List (Action ι)} {failed final : Loggers ι}
    (fails : ¬ (system (some path)).StepsMeet (fun _ => Releases)
      (start contents) before)
    (ran : (system (some path)).run (start contents) before = some failed)
    (later : (system (some path)).run failed after = some final) :
    final.Stalled ∧ Frozen failed final ∧
      ∀ worker, countOf worker isCall after ≤
        countOf worker failsEarly after + 1 := by
  have stalled : failed.Stalled :=
    run_stalls before (start_invariant contents) fails ran
  obtain ⟨still, frozen⟩ := stalled.run after later
  refine ⟨still, frozen, fun worker => ?_⟩
  have balance := stalled.run_busy after (Option.some_ne_none path) later worker
  have atMost := busy_le (final.pc worker)
  omega

end Stalled

/-- The other worker waits for the lock. -/
def waitingWorker : List (Action (Fin 2)) :=
  [.call secondThread ⟨2, bytes "10.0.0.2", 40001, some (bytes "LIST")⟩,
    .getTime secondThread (some (bytes "Mon Jan  1 00:00:01 2024")),
    .testFilename secondThread]

theorem log_stalls_failedOpen :
    ∃ failed final,
      (system (some (bytes "/tmp/server.log"))).run (start []) failedOpen =
        some failed ∧
      (system (some (bytes "/tmp/server.log"))).run failed waitingWorker =
        some final ∧
      final.Stalled ∧ Frozen failed final ∧
      ∀ worker, countOf worker isCall waitingWorker ≤
        countOf worker failsEarly waitingWorker + 1 := by
  obtain ⟨final, ran⟩ := Option.isSome_iff_exists.mp
    (by decide : ((system (some (bytes "/tmp/server.log"))).run (start [])
      (failedOpen ++ waitingWorker)).isSome)
  rw [System.run_append] at ran
  obtain ⟨failed, first, second⟩ := Option.bind_eq_some_iff.mp ran
  refine ⟨failed, final, first, second, log_stalls ?_ first second⟩
  intro meets
  exact (((((meets _ rfl).2 _ rfl).2 _ rfl).2 _ rfl).2 _ rfl).1

end Loggers

end RemoteCommand
