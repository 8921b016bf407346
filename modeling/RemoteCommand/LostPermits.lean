import RemoteCommand.AcceptFailures

/-!
# Permits that are lost

A connection that is in the queue without having been announced, and a permit
that a worker has taken in vain, are missing from the semaphore for good.  A
cycle that has lost permits goes on like one whose semaphore still has them: this
is the simulation that the accounts rest on.
-/

namespace RemoteCommand

open Machine Transition

namespace Cycle

variable {n : Nat} {state next : Cycle n} {action : Action n}

/-- The cycle with permits that have been lost. -/
def credit (state : Cycle n) (lost : Nat) : Cycle n :=
  { state with semaphore := state.semaphore + lost }

theorem credit_tryEnqueue (lost : Nat) {record : Nat}
    (tried : state.tryEnqueue record = some next) :
    (state.credit lost).tryEnqueue record = some (next.credit lost) := by
  unfold tryEnqueue at tried ⊢
  simp only [credit]
  split at tried <;> cases tried <;> simp_all

theorem credit_step (lost : Nat) (stepped : state.step action = some next) :
    (state.credit lost).step action = some (next.credit lost) := by
  cases step_cases stepped with
  | acceptError guard => simp [step, credit, guard]
  | acceptNoMemory guard => simp [step, credit, guard]
  | accept guard => simp [step, credit, guard]
  | leaveLoop guard => simp [step, credit, guard]
  | acceptorEnterCs guard free => simp [step, credit, guard, free]
  | enqueue guard tried =>
      have again := credit_tryEnqueue lost tried
      rcases guard with first | retry
      · simpa [step, credit, first] using again
      · simpa [step, credit, retry] using again
  | acceptorLeaveCs guard => simp [step, credit, guard]
  | incrementSemaphore guard =>
      have more : state.semaphore + lost + 1 = state.semaphore + 1 + lost := by
        omega
      simp [step, credit, guard, more]
  | @waitSemaphore index permits guard available =>
      have more : state.semaphore + lost = permits + lost + 1 := by omega
      simp [step, credit, guard, more, setWorker]
  | enterCs guard free => simp [step, credit, guard, free, setWorker]
  | dequeue guard took => simp [step, credit, guard, took, setWorker]
  | dequeueNull guard took => simp [step, credit, guard, took, setWorker]
  | leaveCs guard => simp [step, credit, guard, setWorker]
  | finish guard => simp [step, credit, guard, setWorker]
  | exit guard => simp [step, credit, guard, setWorker]

/-- A worker that has passed the semaphore gives its permit back. -/
theorem giveBack_keeps {queued : List Nat} {index : Fin n}
    (holds : state.InvariantAt queued)
    (guard : state.worker index = .enterCs) :
    InvariantAt
      { state.setWorker index .waitSemaphore with
        semaphore := state.semaphore + 1 } queued := by
  have counted := holds.count
  have moved := passed_setWorker state index .waitSemaphore
  rw [guard] at moved
  refine { holds with
    exclusive := holds.exclusive.keep (inside_setWorker_other state index _)
      (by simp only [inside, guard, setWorker_self]; rfl)
    count := ?_
    owner := owner_setWorker holds.owner fun record impossible => by
      cases impossible }
  change queued.length =
    state.semaphore + 1 + (state.setWorker index .waitSemaphore).passed +
      state.acceptor.unannounced
  simp only [WorkerPc.passed, Bool.toNat_false, Bool.toNat_true] at moved
  omega

/-- Only a worker inside the critical section takes a connection. -/
theorem step_taken_eq (outside : ∀ index, state.worker index ≠ .dequeue)
    (stepped : state.step action = some next) :
    next.taken = state.taken := by
  cases step_cases stepped with
  | dequeue guard => exact absurd guard (outside _)
  | dequeueNull guard => exact absurd guard (outside _)
  | enqueue guard tried => exact (tryEnqueue_frame tried).2
  | _ => rfl

/-- The lock is taken by `enter_cs` only. -/
theorem step_holder (free : state.holder = none)
    (notEntering : action ≠ .acceptorEnterCs)
    (notEntering' : ∀ index, action ≠ .enterCs index)
    (stepped : state.step action = some next) : next.holder = none := by
  cases step_cases stepped with
  | acceptorEnterCs => exact absurd rfl notEntering
  | enterCs => exact absurd rfl (notEntering' _)
  | enqueue guard tried =>
      unfold tryEnqueue at tried
      split at tried <;> cases tried <;> exact free
  | acceptorLeaveCs | leaveCs => rfl
  | _ => exact free

end Cycle

namespace FailingCycle

variable {n limit : Nat} {state next : FailingCycle n}

/-- The calls that lose a permit. -/
def losses (actions : List (Action n)) : Nat :=
  actions.countP fun action => ¬ Announces action

/-! ## The accounts -/

/-- A step that loses a permit leaves the cycle with one permit more to its
credit. -/
theorem step_credit {action : Action n} {lost : Nat}
    (holds : (state.cycle.credit lost).Invariant)
    (stepped : state.step limit action = some next) :
    (next.cycle.credit (lost + if Announces action then 0 else 1)).Invariant := by
  obtain ⟨queued, counted⟩ := holds
  cases action with
  | call action =>
      obtain ⟨cycle, moved, same, _⟩ := call_cases stepped
      rw [same]
      exact Cycle.step_invariant ⟨queued, counted⟩
        (Cycle.credit_step lost moved)
  | acceptorEnterCsFails =>
      simp only [step] at stepped
      split at stepped <;> cases stepped
      rename_i guard
      exact ⟨queued, Cycle.drop_keeps counted guard⟩
  | acceptorLeaveCsFails =>
      simp only [step] at stepped
      split at stepped <;> cases stepped
      rename_i guard
      have left := Cycle.acceptorLeaveCs_keeps counted guard
      exact ⟨queued, Cycle.incrementSemaphore_keeps left rfl⟩
  | incrementSemaphoreFails =>
      simp only [step] at stepped
      split at stepped <;> cases stepped
      rename_i guard
      exact ⟨queued, Cycle.incrementSemaphore_keeps counted guard⟩
  | waitSemaphoreFails index =>
      simp only [step] at stepped
      split at stepped <;> cases stepped
      exact ⟨queued, counted⟩
  | enterCsFails index =>
      simp only [step] at stepped
      split at stepped <;> cases stepped
      rename_i guard
      exact ⟨queued, Cycle.giveBack_keeps counted guard⟩
  | leaveCsFails index =>
      simp only [step] at stepped
      split at stepped <;> cases stepped
      rename_i guard
      exact ⟨queued, Cycle.abandon_keeps counted guard⟩

theorem run_credit (actions : List (Action n)) {lost : Nat}
    {final : FailingCycle n} (holds : (state.cycle.credit lost).Invariant)
    (ran : (system limit n).run state actions = some final) :
    (final.cycle.credit (lost + losses actions)).Invariant := by
  induction actions generalizing state lost with
  | nil =>
      cases ran
      exact holds
  | cons action actions inductionHypothesis =>
      obtain ⟨next, stepped, rest⟩ := ((system limit n).run_cons).mp ran
      have later := inductionHypothesis (step_credit holds stepped) rest
      have sum : lost + losses (action :: actions) =
          lost + (if Announces action then 0 else 1) + losses actions := by
        rw [losses, List.countP_cons]
        simp only [losses, decide_not, Bool.not_eq_eq_eq_not, Bool.not_true,
          decide_eq_false_iff_not, ite_not]
        omega
      rw [sum]
      exact later

theorem start_credit (fits : (n : Int) ≤ intMax) (fresh : Nat → Option Nat) :
    ((start n fresh).cycle.credit 0).Invariant :=
  Cycle.start_invariant fits fresh

/-- What is known behind any run. -/
theorem run_account (fits : (n : Int) ≤ intMax) (fresh : Nat → Option Nat)
    {actions : List (Action n)}
    (ran : (system limit n).run (start n fresh) actions = some state) :
    (state.cycle.credit (losses actions)).Invariant := by
  have holds := run_credit actions (start_credit fits fresh) ran
  rwa [Nat.zero_add] at holds

/-- The accounts of the queue, whatever calls fail.  In every run, for each
connection in the queue there is a permit, one that the acceptor is about to
post, a worker that has taken one, or one that has been lost; connections leave
the queue in the order in which they came, none is taken twice, and no worker
finds the queue empty. -/
theorem permits_accounted (fits : (n : Int) ≤ intMax) (fresh : Nat → Option Nat)
    (actions : List (Action n))
    (ran : (system limit n).run (start n fresh) actions = some state) :
    ∃ queued, state.cycle.connections.Represents queued ∧
      queued.length = state.cycle.semaphore + state.cycle.passed +
        state.cycle.acceptor.unannounced + losses actions ∧
      state.cycle.accepted = List.range state.cycle.accepted.length ∧
      state.cycle.accepted = state.cycle.taken.map Prod.snd ++ queued ++
        state.cycle.acceptor.holding ∧
      ∀ index, state.cycle.worker index = .dequeue →
        ∃ record connections,
          state.cycle.connections.dequeue = .ok (some record, connections) := by
  obtain ⟨queued, counted⟩ := run_account fits fresh ran
  refine ⟨queued, counted.represents, ?_, counted.numbered, counted.order, ?_⟩
  · have count := counted.count
    change queued.length = state.cycle.semaphore + losses actions +
      state.cycle.passed + state.cycle.acceptor.unannounced at count
    omega
  · intro index atDequeue
    obtain ⟨oldest, rest, same⟩ :=
      Cycle.queued_cons_of_dequeue counted atDequeue
    have represents := counted.represents
    rw [same] at represents
    obtain ⟨connections, took, _⟩ := Queue.dequeue_cons represents
    exact ⟨oldest, connections, took⟩

/-- The permit of the first client is lost; a worker takes its connection when the
second client has come. -/
def secondClient : List (Action 2) :=
  unposted.actions ++
    Outcomes.actions { unposted with incrementSemaphore := true } ++
    [.call (.waitSemaphore firstThread), .call (.enterCs firstThread),
      .call (.dequeue firstThread), .call (.leaveCs firstThread)]

theorem permits_accounted_secondClient :
    ∃ state : FailingCycle 2,
      (system semMax 2).run (start 2 fun _ => none) secondClient = some state ∧
      ∃ queued, state.cycle.connections.Represents queued ∧
        queued.length = state.cycle.semaphore + state.cycle.passed +
          state.cycle.acceptor.unannounced + 1 := by
  obtain ⟨state, ran⟩ := Option.isSome_iff_exists.mp
    (by decide : ((system semMax 2).run (start 2 fun _ => none)
      secondClient).isSome)
  obtain ⟨queued, represents, count, _⟩ :=
    permits_accounted (by decide) (fun _ => none) secondClient ran
  exact ⟨state, ran, queued, represents, count⟩

/-- The server lags behind.  When the acceptor waits for a client and no worker
can go on to the queue, exactly the connections that were accepted last, as many
as permits have been lost, have not been taken; there are at most as many as
there are workers. -/
theorem server_lags (fits : (n : Int) ≤ intMax) (fresh : Nat → Option Nat)
    (actions : List (Action n))
    (ran : (system limit n).run (start n fresh) actions = some state)
    (accepts : state.cycle.acceptor = .accept)
    (noPermit : state.cycle.semaphore = 0) (noWorker : state.cycle.passed = 0) :
    losses actions ≤ n ∧
      state.cycle.taken.map Prod.snd =
        state.cycle.accepted.take
          (state.cycle.accepted.length - losses actions) := by
  obtain ⟨queued, counted⟩ := run_account fits fresh ran
  have count := counted.count
  change queued.length = state.cycle.semaphore + losses actions +
    state.cycle.passed + state.cycle.acceptor.unannounced at count
  have order : state.cycle.accepted = state.cycle.taken.map Prod.snd ++ queued ++
      state.cycle.acceptor.holding := counted.order
  have capacity : state.cycle.connections.capacity = n := counted.capacity
  have room := counted.represents.length_le
  change queued.length ≤ state.cycle.connections.capacity at room
  rw [accepts, noPermit, noWorker] at count
  rw [accepts] at order
  simp only [AcceptorPc.unannounced, AcceptorPc.holding, List.append_nil]
    at count order
  constructor
  · omega
  · rw [order, List.length_append]
    have lost : losses actions = queued.length := by omega
    rw [lost, Nat.add_sub_cancel, List.take_left]

theorem server_lags_secondClient :
    ∃ state : FailingCycle 2,
      (system semMax 2).run (start 2 fun _ => none) secondClient = some state ∧
      losses secondClient ≤ 2 ∧
      state.cycle.taken.map Prod.snd =
        state.cycle.accepted.take
          (state.cycle.accepted.length - losses secondClient) := by
  obtain ⟨state, ran⟩ := Option.isSome_iff_exists.mp
    (by decide : ((system semMax 2).run (start 2 fun _ => none)
      secondClient).isSome)
  have atEnd : ((system semMax 2).run (start 2 fun _ => none)
      secondClient).map (fun state =>
        (state.cycle.acceptor, state.cycle.semaphore, state.cycle.passed)) =
      some (.accept, 0, 0) := by decide
  rw [ran, Option.map_some, Option.some.injEq, Prod.mk.injEq,
    Prod.mk.injEq] at atEnd
  obtain ⟨accepts, noPermit, noWorker⟩ := atEnd
  exact ⟨state, ran, server_lags (by decide) (fun _ => none) secondClient ran
    accepts noPermit noWorker⟩

/-! ## When nothing is served any more -/

/-- Nobody holds the lock that nobody will release, and it stays so. -/
theorem step_stuck {action : Action n}
    (abandoned : state.stuck = true → state.cycle.holder = none)
    (stepped : state.step limit action = some next) :
    (state.stuck = true → next.stuck = true) ∧
      (next.stuck = true → next.cycle.holder = none) := by
  cases action with
  | call action =>
      obtain ⟨admitted, called⟩ := Option.ite_none_right_eq_some.mp stepped
      obtain ⟨cycle, moved, rfl⟩ := Option.map_eq_some_iff.mp called
      refine ⟨id, fun stuck => ?_⟩
      have notAdmitted (blocked : Cycle.Action n)
          (needsLock : state.admits limit blocked = !state.stuck) :
          action ≠ blocked := by
        rintro rfl
        rw [needsLock] at admitted
        rw [show state.stuck = true from stuck] at admitted
        cases admitted
      exact Cycle.step_holder (abandoned stuck) (notAdmitted _ rfl)
        (fun index => notAdmitted _ rfl) moved
  | acceptorEnterCsFails | incrementSemaphoreFails | enterCsFails
  | waitSemaphoreFails =>
      simp only [step] at stepped
      split at stepped <;> cases stepped
      exact ⟨id, abandoned⟩
  | acceptorLeaveCsFails | leaveCsFails =>
      simp only [step] at stepped
      split at stepped <;> cases stepped
      exact ⟨fun _ => rfl, fun _ => rfl⟩

theorem run_stuck {fresh : Nat → Option Nat} {actions : List (Action n)}
    (ran : (system limit n).run (start n fresh) actions = some state) :
    state.stuck = true → state.cycle.holder = none := by
  have keeps {before behind : FailingCycle n} {action : Action n}
      (abandoned : before.stuck = true → before.cycle.holder = none)
      (stepped : before.step limit action = some behind) :
      behind.stuck = true → behind.cycle.holder = none :=
    (step_stuck abandoned stepped).2
  exact (system limit n).run_invariant keeps actions
    (fun impossible => by cases impossible) ran

/-- Whether a `leave_cs` has failed, or as many permits have been lost as the
queue has slots. -/
def Stopped (actions : List (Action n)) (state : FailingCycle n) : Prop :=
  state.stuck = true ∨ n ≤ losses actions

theorem Stopped.outside (fits : (n : Int) ≤ intMax) {fresh : Nat → Option Nat}
    {actions : List (Action n)} (stopped : Stopped actions state)
    (ran : (system limit n).run (start n fresh) actions = some state)
    (index : Fin n) : state.cycle.worker index ≠ .dequeue := by
  intro atDequeue
  obtain ⟨queued, counted⟩ := run_account fits fresh ran
  rcases stopped with stuck | lost
  · have inside : (state.cycle.credit (losses actions)).inside
        (.worker index) = true := by
      change (state.cycle.worker index).inside = true
      rw [atDequeue]
      rfl
    have holding := (counted.exclusive (.worker index)).mp inside
    cases holding.symm.trans (run_stuck ran stuck)
  · have passed : 0 < state.cycle.passed := by
      refine Finset.card_pos.mpr ⟨index, Finset.mem_filter.mpr ?_⟩
      rw [atDequeue]
      exact ⟨Finset.mem_univ index, rfl⟩
    have count := counted.count
    change queued.length = state.cycle.semaphore + losses actions +
      state.cycle.passed + state.cycle.acceptor.unannounced at count
    have capacity : state.cycle.connections.capacity = n := counted.capacity
    have room := counted.represents.length_le
    change queued.length ≤ state.cycle.connections.capacity at room
    omega

theorem Stopped.step (fits : (n : Int) ≤ intMax) {fresh : Nat → Option Nat}
    {actions : List (Action n)} {action : Action n}
    (stopped : Stopped actions state)
    (ran : (system limit n).run (start n fresh) actions = some state)
    (stepped : state.step limit action = some next) :
    Stopped (actions ++ [action]) next ∧
      next.cycle.taken = state.cycle.taken := by
  constructor
  · rcases stopped with stuck | lost
    · exact .inl ((step_stuck (run_stuck ran) stepped).1 stuck)
    · refine .inr (lost.trans ?_)
      rw [losses, losses, List.countP_append]
      exact Nat.le_add_right _ _
  · cases action with
    | call action =>
        obtain ⟨cycle, moved, rfl, _⟩ := call_cases stepped
        exact Cycle.step_taken_eq (stopped.outside fits ran) moved
    | acceptorEnterCsFails | acceptorLeaveCsFails | incrementSemaphoreFails
    | waitSemaphoreFails | enterCsFails | leaveCsFails =>
        simp only [FailingCycle.step] at stepped
        split at stepped <;> cases stepped
        rfl

/-- When the server has stopped serving.  Behind a `leave_cs` that fails, or as
many lost permits as there are workers, no connection is taken any more, in any
continuation of any run. -/
theorem server_stops (fits : (n : Int) ≤ intMax) (fresh : Nat → Option Nat)
    (before after : List (Action n)) {final : FailingCycle n}
    (ran : (system limit n).run (start n fresh) before = some state)
    (stopped : Stopped before state)
    (later : (system limit n).run state after = some final) :
    final.cycle.taken = state.cycle.taken := by
  induction after generalizing before state with
  | nil =>
      cases later
      rfl
  | cons action after inductionHypothesis =>
      obtain ⟨next, stepped, rest⟩ := ((system limit n).run_cons).mp later
      obtain ⟨still, same⟩ := stopped.step fits ran stepped
      have longer : (system limit n).run (start n fresh) (before ++ [action]) =
          some next := by
        rw [System.run_append, ran]
        exact ((system limit n).run_cons).mpr ⟨next, stepped, rfl⟩
      exact (inductionHypothesis _ longer still rest).trans same

/-- The acceptor comes with the next connection, and finds the queue full. -/
def nextClient : List (Action 1) :=
  [.call .accept, .call .acceptorEnterCs, .call .enqueue]

/-- The only slot of the queue is lost. -/
theorem server_stops_unposted :
    ∃ state final : FailingCycle 1,
      (system semMax 1).run (start 1 fun _ => none) unposted.actions =
        some state ∧
      (system semMax 1).run state nextClient = some final ∧
      final.cycle.taken = state.cycle.taken := by
  obtain ⟨final, ran⟩ := Option.isSome_iff_exists.mp
    (by decide : ((system semMax 1).run (start 1 fun _ => none)
      (unposted.actions ++ nextClient)).isSome)
  rw [System.run_append] at ran
  obtain ⟨state, first, second⟩ := Option.bind_eq_some_iff.mp ran
  exact ⟨state, final, first, second, server_stops (by decide) (fun _ => none)
    unposted.actions nextClient first (.inr (by decide)) second⟩

end FailingCycle

end RemoteCommand
