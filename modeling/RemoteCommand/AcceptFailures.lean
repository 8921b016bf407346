import RemoteCommand.CycleSafety

/-!
# Failing calls in a serve cycle

A serve cycle in which `new_connection` and the calls of `synchronization.h`
may fail, in the accept loop and in the workers, with the descriptors that have
been closed.  `limit` is what the semaphore counts to: `SEM_MAX` where it is
made by `CreateSemaphore`.

A `leave_cs` that fails leaves the lock held, by a thread that will not leave it
again.  `stuck` says so; `cycle.holder` tells of the threads between their calls
only.  A record that the acceptor gives up before it is in the queue is not
freed and nobody knows it any more: its number goes to the next record.
-/

namespace RemoteCommand

open Machine Transition

/-- `SEM_MAX`. -/
def semMax : Nat := 100

structure FailingCycle (n : Nat) where
  cycle : Cycle n
  /-- a `leave_cs` has failed -/
  stuck : Bool
  /-- the records whose descriptor has been closed -/
  closed : List Nat
  /-- how many descriptors the accept loop has closed on an error path -/
  refused : Nat

namespace FailingCycle

variable {n : Nat}

inductive Action (n : Nat) where
  /-- a call that ends as in a serve cycle -/
  | call (action : Cycle.Action n)
  | acceptorEnterCsFails
  | acceptorLeaveCsFails
  | incrementSemaphoreFails
  | waitSemaphoreFails (index : Fin n)
  | enterCsFails (index : Fin n)
  | leaveCsFails (index : Fin n)
  deriving DecidableEq, Repr

def start (n : Nat) (fresh : Nat → Option Nat) : FailingCycle n where
  cycle := Cycle.start n fresh
  stuck := false
  closed := []
  refused := 0

/-- Whether a call can succeed. -/
def admits (limit : Nat) (state : FailingCycle n) : Cycle.Action n → Bool
  | .acceptorEnterCs | .enterCs _ => !state.stuck
  | .incrementSemaphore => state.cycle.semaphore < limit
  | _ => true

/-- The record whose descriptor a worker closes behind its request. -/
def closes (state : FailingCycle n) : Cycle.Action n → List Nat
  | .finish index => (state.cycle.worker index).record.toList
  | _ => []

/-- The acceptor closes the descriptor of `record` and goes back to `accept`. -/
def refuse (state : FailingCycle n) (record : Nat) : FailingCycle n :=
  { state with
    cycle := { state.cycle with acceptor := .accept }
    closed := state.closed ++ [record]
    refused := state.refused + 1 }

/-- A worker goes back to `wait_semaphore`. -/
def resume (state : FailingCycle n) (index : Fin n) : FailingCycle n :=
  { state with cycle := state.cycle.setWorker index .waitSemaphore }

/-- The lock stays with a thread that goes on without it. -/
def abandon (state : FailingCycle n) : FailingCycle n :=
  { state with cycle := { state.cycle with holder := none }, stuck := true }

def step (limit : Nat) (state : FailingCycle n) :
    Action n → Option (FailingCycle n)
  | .call action =>
      if state.admits limit action then
        (state.cycle.step action).map fun cycle =>
          { state with
            cycle
            closed := state.closed ++ state.closes action
            refused :=
              if action = .acceptNoMemory then state.refused + 1
              else state.refused }
      else none
  | .acceptorEnterCsFails =>
      match state.cycle.acceptor with
      | .enterCs _ =>
          some { state with
            cycle := { state.cycle with
              acceptor := .accept, accepted := state.cycle.accepted.dropLast }
            refused := state.refused + 1 }
      | _ => none
  | .acceptorLeaveCsFails =>
      match state.cycle.acceptor with
      | .leaveCs record => some (state.abandon.refuse record)
      | _ => none
  | .incrementSemaphoreFails =>
      match state.cycle.acceptor with
      | .incrementSemaphore record => some (state.refuse record)
      | _ => none
  | .waitSemaphoreFails index =>
      match state.cycle.worker index with
      | .waitSemaphore => some state
      | _ => none
  | .enterCsFails index =>
      match state.cycle.worker index with
      | .enterCs => some (state.resume index)
      | _ => none
  | .leaveCsFails index =>
      match state.cycle.worker index with
      | .leaveCs record =>
          some { state.abandon.resume index with
            closed := state.closed ++ [record] }
      | _ => none

def system (limit n : Nat) : System (FailingCycle n) (Action n) where
  step := step limit

/-- The connections in the queue have open descriptors, and there is for each
a permit, one that the acceptor is about to post, or a worker that has taken
one. -/
def Attended (state : FailingCycle n) : Prop :=
  ∃ queued, state.cycle.connections.Represents queued ∧
    (∀ record ∈ queued, record ∉ state.closed) ∧
    queued.length ≤ state.cycle.semaphore + state.cycle.passed +
      state.cycle.acceptor.unannounced

/-- The condition on a step: behind the `enqueue` no call of the acceptor fails,
and no `enter_cs` of a worker that has taken a permit. -/
def Announces : Action n → Prop
  | .acceptorLeaveCsFails | .incrementSemaphoreFails | .enterCsFails _ => False
  | .call _ | .acceptorEnterCsFails | .waitSemaphoreFails _
  | .leaveCsFails _ => True

instance (action : Action n) : Decidable (Announces action) :=
  match action with
  | .acceptorLeaveCsFails | .incrementSemaphoreFails | .enterCsFails _ =>
      isFalse id
  | .call _ | .acceptorEnterCsFails | .waitSemaphoreFails _
  | .leaveCsFails _ => isTrue trivial

/-! ## One iteration of the accept loop -/

/-- Which calls of an iteration succeed. -/
structure Outcomes where
  newConnection : Bool
  enterCs : Bool
  leaveCs : Bool
  incrementSemaphore : Bool
  deriving DecidableEq, Repr

namespace Outcomes

/-- The calls of the iteration, up to the first that fails. -/
def actions (outcomes : Outcomes) : List (Action n) :=
  if outcomes.newConnection then
    .call .accept ::
      if outcomes.enterCs then
        .call .acceptorEnterCs :: .call .enqueue ::
          if outcomes.leaveCs then
            [.call .acceptorLeaveCs,
              if outcomes.incrementSemaphore then .call .incrementSemaphore
              else .incrementSemaphoreFails]
          else [.acceptorLeaveCsFails]
      else [.acceptorEnterCsFails]
  else [.call .acceptNoMemory]

/-- No call fails behind the `enqueue`. -/
def FailsEarly (outcomes : Outcomes) : Prop :=
  outcomes.newConnection = true → outcomes.enterCs = true →
    outcomes.leaveCs = true ∧ outcomes.incrementSemaphore = true

end Outcomes

end FailingCycle

/-! ## What the failing calls leave of a serve cycle -/

namespace Cycle

variable {n : Nat} {state : Cycle n} {queued : List Nat} {record : Nat}

/-- The acceptor gives up the record that it has just accepted. -/
theorem drop_keeps (holds : state.InvariantAt queued)
    (guard : state.acceptor = .enterCs record) :
    InvariantAt
      { state with
        acceptor := .accept, accepted := state.accepted.dropLast } queued := by
  have counted := holds.count
  have ordered := holds.order
  rw [guard] at counted ordered
  refine { holds with
    exclusive := holds.exclusive.keep (inside_acceptor_other rfl)
      (by simp only [inside, guard]; rfl)
    count := counted
    order := ?_
    numbered := ?_
    retry := nofun }
  · simp only [AcceptorPc.holding] at ordered
    simp only [ordered, AcceptorPc.holding, List.dropLast_concat,
      List.append_nil]
  · simp only [List.dropLast_eq_take, List.length_take, Nat.sub_le, inf_of_le_left]
    conv_lhs => rw [holds.numbered]
    rw [List.take_range, List.length_range, min_eq_left (Nat.sub_le _ 1)]

/-- A worker goes on without having left the critical section: the lock has
nobody inside any more. -/
theorem abandon_keeps {index : Fin n} (holds : state.InvariantAt queued)
    (guard : state.worker index = .leaveCs record) :
    InvariantAt
      { state.setWorker index .waitSemaphore with holder := none } queued := by
  have left := leaveCs_keeps holds guard
  have serving : Function.update state.worker index (.serve record) index =
      .serve record := Function.update_self ..
  have back : InvariantAt (setWorker _ index .waitSemaphore) queued :=
    serve_keeps left serving rfl rfl rfl
  simpa only [setWorker, Function.update_idem] using back

end Cycle

namespace FailingCycle

variable {n limit : Nat} {state next : FailingCycle n}

structure Invariant (state : FailingCycle n) : Prop where
  counted : state.cycle.Invariant
  served : ∀ record ∈ state.closed, ∃ index, (index, record) ∈ state.cycle.taken

theorem Invariant.attended (holds : state.Invariant) : state.Attended := by
  obtain ⟨queued, counted⟩ := holds.counted
  refine ⟨queued, counted.represents, fun record member closed => ?_,
    counted.count.le⟩
  obtain ⟨index, taken⟩ := holds.served record closed
  exact counted.queued_notMem_taken member index taken

/-! ## What one step can do -/

theorem call_cases {action : Cycle.Action n}
    (stepped : (system limit n).step state (.call action) = some next) :
    ∃ cycle, state.cycle.step action = some cycle ∧
      next.cycle = cycle ∧
      next.closed = state.closed ++ state.closes action ∧
      next.refused =
        if action = .acceptNoMemory then state.refused + 1
        else state.refused := by
  obtain ⟨_, called⟩ := Option.ite_none_right_eq_some.mp stepped
  obtain ⟨cycle, moved, rfl⟩ := Option.map_eq_some_iff.mp called
  exact ⟨cycle, moved, rfl, rfl, rfl⟩

theorem call_invariant {action : Cycle.Action n} (holds : state.Invariant)
    (stepped : state.step limit (.call action) = some next) :
    next.Invariant := by
  obtain ⟨cycle, moved, rfl, closed, _⟩ := call_cases stepped
  refine ⟨Cycle.step_invariant holds.counted moved, fun record member => ?_⟩
  have kept := Cycle.step_taken moved
  rw [closed, List.mem_append] at member
  rcases member with before | now
  · obtain ⟨index, taken⟩ := holds.served record before
    exact ⟨index, kept taken⟩
  · cases action with
    | finish index =>
        obtain ⟨_, counted⟩ := holds.counted
        have has := Option.mem_toList.mp now
        exact ⟨index, kept (counted.owner index record has)⟩
    | _ => cases now

/-- Steps that meet the condition keep the invariant. -/
theorem step_invariant {action : Action n} (holds : state.Invariant)
    (met : Announces action)
    (stepped : state.step limit action = some next) : next.Invariant := by
  obtain ⟨queued, counted⟩ := holds.counted
  cases action with
  | call action => exact call_invariant holds stepped
  | acceptorLeaveCsFails | incrementSemaphoreFails | enterCsFails => cases met
  | acceptorEnterCsFails =>
      simp only [step] at stepped
      split at stepped <;> cases stepped
      exact ⟨⟨queued, Cycle.drop_keeps counted ‹_›⟩, holds.served⟩
  | waitSemaphoreFails index =>
      simp only [step] at stepped
      split at stepped <;> cases stepped
      exact holds
  | leaveCsFails index =>
      simp only [step] at stepped
      split at stepped <;> cases stepped
      rename_i record guard
      refine ⟨⟨queued, Cycle.abandon_keeps counted guard⟩, ?_⟩
      intro other member
      rcases List.mem_append.mp member with before | now
      · exact holds.served other before
      · rw [List.mem_singleton.mp now]
        exact ⟨index, counted.owner index record (by rw [guard]; rfl)⟩

/-- One connection more in the queue than anybody will take. -/
theorem not_attended (holds : state.Invariant)
    (same : next.cycle.connections = state.cycle.connections)
    (missing : next.cycle.semaphore + next.cycle.passed +
        next.cycle.acceptor.unannounced + 1 =
      state.cycle.semaphore + state.cycle.passed +
        state.cycle.acceptor.unannounced) : ¬ next.Attended := by
  rintro ⟨queued, represents, _, attended⟩
  obtain ⟨before, counted⟩ := holds.counted
  have size := counted.represents.size_eq
  rw [← same, represents.size_eq, Int.natCast_inj] at size
  have count := counted.count
  omega

/-- Within the invariant, the connections are attended behind a step exactly
when it meets the condition. -/
theorem step_attended {action : Action n} (holds : state.Invariant)
    (stepped : state.step limit action = some next) :
    next.Attended ↔ Announces action := by
  by_cases met : Announces action
  · exact iff_of_true (step_invariant holds met stepped).attended met
  refine iff_of_false ?_ met
  cases action with
  | acceptorLeaveCsFails =>
      simp only [step] at stepped
      split at stepped <;> cases stepped
      rename_i record guard
      refine not_attended holds rfl ?_
      rw [guard]
      rfl
  | incrementSemaphoreFails =>
      simp only [step] at stepped
      split at stepped <;> cases stepped
      rename_i record guard
      refine not_attended holds rfl ?_
      rw [guard]
      rfl
  | enterCsFails index =>
      simp only [step] at stepped
      split at stepped <;> cases stepped
      rename_i guard
      refine not_attended holds rfl ?_
      -- the worker has taken a permit and is not on its way any more
      have moved := Cycle.passed_setWorker state.cycle index .waitSemaphore
      simp only [guard, WorkerPc.passed, Bool.toNat_true, Bool.toNat_false]
        at moved
      simp only [resume]
      change state.cycle.semaphore +
          (state.cycle.setWorker index .waitSemaphore).passed +
        state.cycle.acceptor.unannounced + 1 = _
      omega
  | call | acceptorEnterCsFails | waitSemaphoreFails | leaveCsFails =>
      exact absurd trivial met

/-! ## The end of an iteration -/

section Iteration

variable {items : List Nat}

theorem tryEnqueue_represents {cycle after : Cycle n} {record : Nat}
    (represents : cycle.connections.Represents items)
    (tried : cycle.tryEnqueue record = some after) :
    after.semaphore = cycle.semaphore ∧
      (after.acceptor = .retry record ∨
        after.acceptor = .leaveCs record ∧
          after.connections.Represents (items ++ [record])) := by
  by_cases full : items.length = cycle.connections.capacity
  · rw [Cycle.tryEnqueue, Queue.enqueue_full represents full record] at tried
    cases tried
    exact ⟨rfl, .inl rfl⟩
  · obtain ⟨connections, stored, _, behind⟩ :=
      Queue.enqueue_room represents full record
    rw [Cycle.tryEnqueue, stored] at tried
    cases tried
    exact ⟨rfl, .inr ⟨rfl, behind⟩⟩

/-- An iteration up to its `enqueue`. -/
theorem run_enqueues {rest : List (Action n)} {final : FailingCycle n}
    (represents : state.cycle.connections.Represents items)
    (ran : (system limit n).run state
      (.call .accept :: .call .acceptorEnterCs :: .call .enqueue :: rest) =
        some final) :
    ∃ middle record, (system limit n).run middle rest = some final ∧
      middle.refused = state.refused ∧
      middle.cycle.semaphore = state.cycle.semaphore ∧
      (middle.cycle.acceptor = .retry record ∨
        middle.cycle.acceptor = .leaveCs record ∧
          middle.cycle.connections.Represents (items ++ [record])) := by
  obtain ⟨accepted, stepped, ran⟩ := ((system limit n).run_cons).mp ran
  obtain ⟨_, moved, cycle, _, refused⟩ := call_cases stepped
  obtain ⟨entered, stepped, ran⟩ := ((system limit n).run_cons).mp ran
  obtain ⟨_, moved', cycle', _, refused'⟩ := call_cases stepped
  obtain ⟨enqueued, stepped, ran⟩ := ((system limit n).run_cons).mp ran
  obtain ⟨_, moved'', cycle'', _, refused''⟩ := call_cases stepped
  cases Cycle.step_cases moved
  cases Cycle.step_cases moved'
  rename_i record guard free
  cases Cycle.step_cases moved''
  rename_i other guard' tried
  have before : entered.cycle.connections.Represents items := by
    rw [cycle', cycle]
    exact represents
  have semaphore : entered.cycle.semaphore = state.cycle.semaphore := by
    rw [cycle', cycle]
  obtain ⟨same, reached⟩ := tryEnqueue_represents before tried
  rw [← cycle''] at same reached
  exact ⟨enqueued, other, ran, (refused''.trans refused').trans refused,
    same.trans semaphore, reached⟩

/-- An iteration that closes the descriptor on an error path leaves the queue
and the semaphore as they were. -/
def Traceless (state final : FailingCycle n) (items : List Nat) : Prop :=
  final.refused ≠ state.refused →
    final.cycle.connections.Represents items ∧
      final.cycle.semaphore = state.cycle.semaphore

theorem not_traceless {final : FailingCycle n} {record : Nat}
    (enqueued : final.cycle.connections.Represents (items ++ [record]))
    (closed : final.refused = state.refused + 1) :
    ¬ Traceless state final items := by
  intro traceless
  have same := (traceless (by omega)).1.size_eq
  rw [enqueued.size_eq, List.length_append, List.length_singleton] at same
  omega

/-- The rest of an iteration, from the `leave_cs` on. -/
theorem leaves_traceless_iff {outcomes : Outcomes}
    {middle final : FailingCycle n} {record : Nat}
    (newConnection : outcomes.newConnection = true)
    (entered : outcomes.enterCs = true)
    (atLeaveCs : middle.cycle.acceptor = .leaveCs record)
    (enqueued : middle.cycle.connections.Represents (items ++ [record]))
    (refused : middle.refused = state.refused)
    (ran : (system limit n).run middle
      (if outcomes.leaveCs then
        [.call .acceptorLeaveCs,
          if outcomes.incrementSemaphore then .call .incrementSemaphore
          else .incrementSemaphoreFails]
      else [.acceptorLeaveCsFails]) = some final) :
    Traceless state final items ↔ outcomes.FailsEarly := by
  cases left : outcomes.leaveCs with
  | false =>
      rw [left] at ran
      obtain ⟨next, stepped, ended⟩ := ((system limit n).run_cons).mp ran
      cases ended
      simp only [system, step, atLeaveCs] at stepped
      cases stepped
      refine iff_of_false (not_traceless enqueued ?_) fun early => ?_
      · simp only [refuse, abandon, refused]
      · simp only [(early newConnection entered).1, reduceCtorEq] at left
  | true =>
      rw [left] at ran
      obtain ⟨next, stepped, ran⟩ := ((system limit n).run_cons).mp ran
      obtain ⟨_, moved, cycle, _, kept⟩ := call_cases stepped
      cases Cycle.step_cases moved
      rename_i other guard
      obtain ⟨_, stepped, ended⟩ := ((system limit n).run_cons).mp ran
      cases ended
      cases posted : outcomes.incrementSemaphore with
      | false =>
          rw [posted] at stepped
          simp only [Bool.false_eq_true, if_false, system, step, cycle]
            at stepped
          cases stepped
          refine iff_of_false (@not_traceless n _ _ _ record ?_ ?_)
            fun early => ?_
          · simpa only [refuse, cycle] using enqueued
          · simp only [refuse, kept, refused, reduceCtorEq, if_false]
          · simp only [(early newConnection entered).2, reduceCtorEq] at posted
      | true =>
          rw [posted] at stepped
          obtain ⟨_, _, _, _, same⟩ := call_cases stepped
          refine iff_of_true (fun closed => ?_) fun _ _ => ⟨left, posted⟩
          exact absurd ((same.trans kept).trans refused) closed

/-- An iteration leaves no trace of a descriptor that it closes exactly when no
call behind the `enqueue` fails. -/
theorem traceless_iff {outcomes : Outcomes} {final : FailingCycle n}
    (represents : state.cycle.connections.Represents items)
    (ran : (system limit n).run state outcomes.actions = some final) :
    Traceless state final items ↔ outcomes.FailsEarly := by
  cases created : outcomes.newConnection with
  | false =>
      simp only [Outcomes.actions, created, Bool.false_eq_true, if_false] at ran
      obtain ⟨next, stepped, ended⟩ := ((system limit n).run_cons).mp ran
      cases ended
      obtain ⟨_, moved, cycle, _, _⟩ := call_cases stepped
      cases Cycle.step_cases moved
      refine iff_of_true (fun _ => ?_) fun new => ?_
      · rw [cycle]
        exact ⟨represents, rfl⟩
      · simp only [created, Bool.false_eq_true] at new
  | true =>
      simp only [Outcomes.actions, created, if_true] at ran
      cases entered : outcomes.enterCs with
      | false =>
          simp only [entered, Bool.false_eq_true, if_false] at ran
          obtain ⟨next, stepped, ran⟩ := ((system limit n).run_cons).mp ran
          obtain ⟨_, moved, cycle, _, _⟩ := call_cases stepped
          cases Cycle.step_cases moved
          obtain ⟨_, stepped, ended⟩ := ((system limit n).run_cons).mp ran
          cases ended
          simp only [system, step, cycle] at stepped
          cases stepped
          refine iff_of_true (fun _ => ⟨represents, rfl⟩) fun _ inside => ?_
          simp only [entered, Bool.false_eq_true] at inside
      | true =>
          simp only [entered, if_true] at ran
          obtain ⟨middle, record, ran, refused, _, reached⟩ :=
            run_enqueues represents ran
          rcases reached with asleep | ⟨atLeaveCs, enqueued⟩
          · -- the queue is full, and the acceptor does not come to `leave_cs`
            cases left : outcomes.leaveCs with
            | false =>
                rw [left] at ran
                obtain ⟨_, stepped, _⟩ := ((system limit n).run_cons).mp ran
                simp only [system, step, asleep, reduceCtorEq] at stepped
            | true =>
                rw [left] at ran
                obtain ⟨_, stepped, _⟩ := ((system limit n).run_cons).mp ran
                obtain ⟨_, moved, cycle, _, kept⟩ := call_cases stepped
                cases Cycle.step_cases moved
                rename_i other guard
                rw [asleep] at guard
                cases guard
          · exact leaves_traceless_iff created entered atLeaveCs enqueued
              refused ran

end Iteration

/-- Failed accepts leave no trace.  An iteration of the accept loop, from any
state of the queue and the semaphore and for every combination of failing
calls, that closes the descriptor on an error path leaves the queue and the
count of the semaphore as they were, exactly when no call fails behind the
`enqueue`.  And in every run of a serve cycle the connections in the queue have
open descriptors and somebody to take them, exactly when no call of the acceptor
fails behind its `enqueue` and no `enter_cs` of a worker behind its
`wait_semaphore`. -/
theorem failed_accepts_iff (limit n : Nat) (fits : (n : Int) ≤ intMax)
    (fresh : Nat → Option Nat) (actions : List (Action n)) :
    (∀ (state final : FailingCycle n) (items : List Nat) (outcomes : Outcomes),
      state.cycle.connections.Represents items →
      (system limit n).run state outcomes.actions = some final →
        (Traceless state final items ↔ outcomes.FailsEarly)) ∧
    ((system limit n).StatesMeet Attended (start n fresh) actions ↔
      (system limit n).StepsMeet (fun _ => Announces) (start n fresh)
        actions) := by
  refine ⟨fun state final items outcomes => traceless_iff, ?_⟩
  have initial : (start n fresh).Invariant :=
    ⟨Cycle.start_invariant fits fresh,
      fun record member => absurd member List.not_mem_nil⟩
  exact (system limit n).statesMeet_iff_of_met step_invariant
    (fun holds _ stepped => step_attended holds stepped) actions initial
    initial.attended

/-- A client of a one-worker server: the `enqueue` succeeds, the
`increment_semaphore` behind it fails. -/
def unposted : Outcomes where
  newConnection := true
  enterCs := true
  leaveCs := true
  incrementSemaphore := false

theorem failed_accepts_iff_posted :
    (system semMax 1).StatesMeet Attended (start 1 fun _ => none)
      { unposted with incrementSemaphore := true }.actions :=
  (failed_accepts_iff semMax 1 (by decide) (fun _ => none) _).2.mpr (by decide)

/-- The descriptor is closed, the connection is in the queue, and there is no
permit for it. -/
theorem unposted_leaves_connection :
    ¬ (system semMax 1).StatesMeet Attended (start 1 fun _ => none)
      unposted.actions ∧
    ∃ final : FailingCycle 1,
      (system semMax 1).run (start 1 fun _ => none) unposted.actions =
        some final ∧
      ¬ Traceless (start 1 fun _ => none) final [] := by
  constructor
  · intro meets
    obtain ⟨queued, enqueued, _, attended⟩ := meets.last rfl
    have size : (1 : Int) = queued.length := enqueued.size_eq
    have nobody : queued.length ≤ 0 := attended
    omega
  · refine ⟨_, rfl, fun traceless => ?_⟩
    have size : (1 : Int) = 0 := (traceless (by decide)).1.size_eq
    omega

end FailingCycle

end RemoteCommand
