import RemoteCommand.Queue
import RemoteCommand.Transition.Lock
import RemoteCommand.Transition.System
import Mathlib.Algebra.BigOperators.Fin
import Mathlib.Data.Fintype.Sum

/-!
# One serve cycle: the acceptor and the workers

The accept loop of `main` (the acceptor) and the head of `thread_exec` (each
of the `n` workers) share the connections queue, its critical section and the
semaphore.  A state holds the program counter of every thread; a step is one
call of one thread, and steps interleave freely.  The lock and semaphore calls
succeed; `accept` and `new_connection` may fail.

Connection records are numbered in the order in which they are accepted, the
number standing for the pointer.  `accepted` and `taken` are history: the
records accepted so far, and the dequeues made so far with the worker that
made them.
-/

namespace RemoteCommand

open Machine Transition

/-- Where the acceptor is in the accept loop. -/
inductive AcceptorPc where
  /-- about to call `accept` -/
  | accept
  /-- about to call `enter_cs` with a new record -/
  | enterCs (record : Nat)
  /-- at the first `enqueue` -/
  | enqueue (record : Nat)
  /-- asleep in the body of the `while`, about to call `enqueue` again -/
  | retry (record : Nat)
  | leaveCs (record : Nat)
  | incrementSemaphore (record : Nat)
  /-- out of the accept loop -/
  | left
  deriving DecidableEq, Repr

/-- Where a worker is in `thread_exec`. -/
inductive WorkerPc where
  | waitSemaphore
  | enterCs
  | dequeue
  | leaveCs (record : Nat)
  /-- authenticating, executing and answering -/
  | serve (record : Nat)
  /-- out of the `while (1)` -/
  | exited
  deriving DecidableEq, Repr

namespace AcceptorPc

/-- Between `enter_cs` and `leave_cs`. -/
def inside : AcceptorPc → Bool
  | enqueue _ | retry _ | leaveCs _ => true
  | _ => false

/-- The record the acceptor has not put in the queue yet. -/
def holding : AcceptorPc → List Nat
  | enterCs record | enqueue record | retry record => [record]
  | _ => []

/-- Enqueued, but not yet announced on the semaphore. -/
def unannounced : AcceptorPc → Nat
  | leaveCs _ | incrementSemaphore _ => 1
  | _ => 0

end AcceptorPc

namespace WorkerPc

/-- Between `enter_cs` and `leave_cs`. -/
def inside : WorkerPc → Bool
  | dequeue | leaveCs _ => true
  | _ => false

/-- Past `wait_semaphore`, not yet dequeued. -/
def passed : WorkerPc → Bool
  | enterCs | dequeue => true
  | _ => false

/-- The record a worker has taken and not finished with. -/
def record : WorkerPc → Option Nat
  | leaveCs record | serve record => some record
  | _ => none

end WorkerPc

inductive Thread (n : Nat) where
  | acceptor
  | worker (index : Fin n)
  deriving DecidableEq, Repr

/-- The state of a cycle with `n` workers. -/
structure Cycle (n : Nat) where
  acceptor : AcceptorPc
  worker : Fin n → WorkerPc
  semaphore : Nat
  /-- the thread inside `connections_cs` -/
  holder : Option (Thread n)
  connections : Queue Nat
  accepted : List Nat
  taken : List (Fin n × Nat)

namespace Cycle

variable {n : Nat}

/-- The calls of the threads. -/
inductive Action (n : Nat) where
  /-- `accept` fails and the loop continues -/
  | acceptError
  /-- `accept` and `new_connection` succeed -/
  | accept
  /-- `new_connection` fails: error sent, descriptor closed -/
  | acceptNoMemory
  /-- `accept` is interrupted, or the `sighup` test fails -/
  | leaveLoop
  | acceptorEnterCs
  | enqueue
  | acceptorLeaveCs
  | incrementSemaphore
  | waitSemaphore (index : Fin n)
  | enterCs (index : Fin n)
  | dequeue (index : Fin n)
  | leaveCs (index : Fin n)
  /-- the request is over and the worker goes back to `wait_semaphore` -/
  | finish (index : Fin n)
  /-- the worker leaves its loop through a `break` -/
  | exit (index : Fin n)
  deriving DecidableEq, Repr

def setWorker (state : Cycle n) (index : Fin n) (pc : WorkerPc) : Cycle n :=
  { state with worker := Function.update state.worker index pc }

@[simp]
theorem setWorker_self (state : Cycle n) (index : Fin n) (pc : WorkerPc) :
    (state.setWorker index pc).worker index = pc := by
  simp only [setWorker, Function.update_self]

theorem setWorker_other (state : Cycle n) {index other : Fin n}
    (pc : WorkerPc) (different : other ≠ index) :
    (state.setWorker index pc).worker other = state.worker other := by
  simp only [setWorker, Function.update_of_ne different]

/-- `enqueue` as the loop condition calls it: a full queue sends the acceptor
to sleep, still inside the critical section. -/
def tryEnqueue (state : Cycle n) (record : Nat) : Option (Cycle n) :=
  match state.connections.enqueue record with
  | .ok (-1, _) => some { state with acceptor := .retry record }
  | .ok (_, connections) =>
      some { state with acceptor := .leaveCs record, connections }
  | .error _ => none

/-- The workers take no part in an `enqueue`. -/
theorem tryEnqueue_frame {state next : Cycle n} {record : Nat}
    (tried : state.tryEnqueue record = some next) :
    next.worker = state.worker ∧ next.taken = state.taken := by
  unfold tryEnqueue at tried
  split at tried <;> cases tried <;> exact ⟨rfl, rfl⟩

/-- One call of one thread; `none` when the thread is elsewhere or blocked. -/
def step (state : Cycle n) : Action n → Option (Cycle n)
  | .acceptError | .acceptNoMemory =>
      if state.acceptor = .accept then some state else none
  | .accept =>
      if state.acceptor = .accept then
        let record := state.accepted.length
        some { state with
          acceptor := .enterCs record
          accepted := state.accepted ++ [record] }
      else none
  | .leaveLoop =>
      if state.acceptor = .accept then some { state with acceptor := .left }
      else none
  | .acceptorEnterCs =>
      match state.acceptor, state.holder with
      | .enterCs record, none =>
          some { state with
            acceptor := .enqueue record, holder := some .acceptor }
      | _, _ => none
  | .enqueue =>
      match state.acceptor with
      | .enqueue record | .retry record => state.tryEnqueue record
      | _ => none
  | .acceptorLeaveCs =>
      match state.acceptor with
      | .leaveCs record =>
          some { state with
            acceptor := .incrementSemaphore record, holder := none }
      | _ => none
  | .incrementSemaphore =>
      match state.acceptor with
      | .incrementSemaphore _ =>
          some { state with
            acceptor := .accept, semaphore := state.semaphore + 1 }
      | _ => none
  | .waitSemaphore index =>
      match state.worker index, state.semaphore with
      | .waitSemaphore, permits + 1 =>
          some { state.setWorker index .enterCs with semaphore := permits }
      | _, _ => none
  | .enterCs index =>
      match state.worker index, state.holder with
      | .enterCs, none =>
          some { state.setWorker index .dequeue with
            holder := some (.worker index) }
      | _, _ => none
  | .dequeue index =>
      match state.worker index, state.connections.dequeue with
      | .dequeue, .ok (some record, connections) =>
          some { state.setWorker index (.leaveCs record) with
            connections, taken := state.taken ++ [(index, record)] }
      -- "Could not dequeue": the loop goes on without `leave_cs`
      | .dequeue, .ok (none, _) => some (state.setWorker index .waitSemaphore)
      | _, _ => none
  | .leaveCs index =>
      match state.worker index with
      | .leaveCs record =>
          some { state.setWorker index (.serve record) with holder := none }
      | _ => none
  | .finish index =>
      match state.worker index with
      | .serve _ => some (state.setWorker index .waitSemaphore)
      | _ => none
  | .exit index =>
      match state.worker index with
      | .serve _ => some (state.setWorker index .exited)
      | _ => none

def system (n : Nat) : System (Cycle n) (Action n) where
  step := step

/-- The state in which the accept loop is entered: all workers wait, the queue
has been created with capacity `n_threads`. -/
def start (n : Nat) (fresh : Nat → Option Nat) : Cycle n where
  acceptor := .accept
  worker := fun _ => .waitSemaphore
  semaphore := 0
  holder := none
  connections := Queue.createQueue n fresh
  accepted := []
  taken := []

/-- The thread is between `enter_cs` and `leave_cs`. -/
def inside (state : Cycle n) : Thread n → Bool
  | .acceptor => state.acceptor.inside
  | .worker index => (state.worker index).inside

/-- The number of workers past `wait_semaphore` that have not dequeued. -/
def passed (state : Cycle n) : Nat :=
  (Finset.univ.filter fun index => (state.worker index).passed = true).card

/-! ## What one step can do -/

/-- The step function by cases, with the guard of each action and the state it
leaves. -/
inductive Step (state : Cycle n) : Action n → Cycle n → Prop
  | acceptError : state.acceptor = .accept → Step state .acceptError state
  | acceptNoMemory :
      state.acceptor = .accept → Step state .acceptNoMemory state
  | accept : state.acceptor = .accept →
      Step state .accept
        { state with
          acceptor := .enterCs state.accepted.length
          accepted := state.accepted ++ [state.accepted.length] }
  | leaveLoop : state.acceptor = .accept →
      Step state .leaveLoop { state with acceptor := .left }
  | acceptorEnterCs {record : Nat} :
      state.acceptor = .enterCs record → state.holder = none →
      Step state .acceptorEnterCs
        { state with acceptor := .enqueue record, holder := some .acceptor }
  | enqueue {record : Nat} {next : Cycle n} :
      state.acceptor = .enqueue record ∨ state.acceptor = .retry record →
      state.tryEnqueue record = some next →
      Step state .enqueue next
  | acceptorLeaveCs {record : Nat} : state.acceptor = .leaveCs record →
      Step state .acceptorLeaveCs
        { state with acceptor := .incrementSemaphore record, holder := none }
  | incrementSemaphore {record : Nat} :
      state.acceptor = .incrementSemaphore record →
      Step state .incrementSemaphore
        { state with
          acceptor := .accept, semaphore := state.semaphore + 1 }
  | waitSemaphore {index : Fin n} {permits : Nat} :
      state.worker index = .waitSemaphore → state.semaphore = permits + 1 →
      Step state (.waitSemaphore index)
        { state.setWorker index .enterCs with semaphore := permits }
  | enterCs {index : Fin n} :
      state.worker index = .enterCs → state.holder = none →
      Step state (.enterCs index)
        { state.setWorker index .dequeue with
          holder := some (.worker index) }
  | dequeue {index : Fin n} {record : Nat} {connections : Queue Nat} :
      state.worker index = .dequeue →
      state.connections.dequeue = .ok (some record, connections) →
      Step state (.dequeue index)
        { state.setWorker index (.leaveCs record) with
          connections, taken := state.taken ++ [(index, record)] }
  | dequeueNull {index : Fin n} {connections : Queue Nat} :
      state.worker index = .dequeue →
      state.connections.dequeue = .ok (none, connections) →
      Step state (.dequeue index) (state.setWorker index .waitSemaphore)
  | leaveCs {index : Fin n} {record : Nat} :
      state.worker index = .leaveCs record →
      Step state (.leaveCs index)
        { state.setWorker index (.serve record) with holder := none }
  | finish {index : Fin n} {record : Nat} :
      state.worker index = .serve record →
      Step state (.finish index) (state.setWorker index .waitSemaphore)
  | exit {index : Fin n} {record : Nat} :
      state.worker index = .serve record →
      Step state (.exit index) (state.setWorker index .exited)

theorem step_cases {state next : Cycle n} {action : Action n}
    (stepped : state.step action = some next) : Step state action next := by
  cases action with
  | acceptError =>
      obtain ⟨guard, same⟩ := Option.ite_none_right_eq_some.mp stepped
      cases same
      exact .acceptError guard
  | acceptNoMemory =>
      obtain ⟨guard, same⟩ := Option.ite_none_right_eq_some.mp stepped
      cases same
      exact .acceptNoMemory guard
  | accept =>
      obtain ⟨guard, same⟩ := Option.ite_none_right_eq_some.mp stepped
      cases same
      exact .accept guard
  | leaveLoop =>
      obtain ⟨guard, same⟩ := Option.ite_none_right_eq_some.mp stepped
      cases same
      exact .leaveLoop guard
  | acceptorEnterCs =>
      simp only [step] at stepped
      split at stepped
      · cases stepped
        exact .acceptorEnterCs ‹_› ‹_›
      · cases stepped
  | enqueue =>
      simp only [step] at stepped
      split at stepped
      · exact .enqueue (.inl ‹_›) stepped
      · exact .enqueue (.inr ‹_›) stepped
      · cases stepped
  | acceptorLeaveCs =>
      simp only [step] at stepped
      split at stepped
      · cases stepped
        exact .acceptorLeaveCs ‹_›
      · cases stepped
  | incrementSemaphore =>
      simp only [step] at stepped
      split at stepped
      · cases stepped
        exact .incrementSemaphore ‹_›
      · cases stepped
  | waitSemaphore index =>
      simp only [step] at stepped
      split at stepped
      · cases stepped
        exact .waitSemaphore ‹_› ‹_›
      · cases stepped
  | enterCs index =>
      simp only [step] at stepped
      split at stepped
      · cases stepped
        exact .enterCs ‹_› ‹_›
      · cases stepped
  | dequeue index =>
      simp only [step] at stepped
      split at stepped
      · cases stepped
        exact .dequeue ‹_› ‹_›
      · cases stepped
        exact .dequeueNull ‹_› ‹_›
      · cases stepped
  | leaveCs index =>
      simp only [step] at stepped
      split at stepped
      · cases stepped
        exact .leaveCs ‹_›
      · cases stepped
  | finish index =>
      simp only [step] at stepped
      split at stepped
      · cases stepped
        exact .finish ‹_›
      · cases stepped
  | exit index =>
      simp only [step] at stepped
      split at stepped
      · cases stepped
        exact .exit ‹_›
      · cases stepped

/-! ## The invariant of a cycle -/

/-- What holds between steps, for the records `queued` in the queue. -/
structure InvariantAt (state : Cycle n) (queued : List Nat) : Prop where
  capacity : state.connections.capacity = n
  represents : state.connections.Represents queued
  exclusive : Exclusive state.inside state.holder
  count : queued.length =
    state.semaphore + state.passed + state.acceptor.unannounced
  order : state.accepted =
    state.taken.map Prod.snd ++ queued ++ state.acceptor.holding
  numbered : state.accepted = List.range state.accepted.length
  owner : ∀ index record, (state.worker index).record = some record →
    (index, record) ∈ state.taken
  retry : ∀ record, state.acceptor = .retry record → queued.length = n

def Invariant (state : Cycle n) : Prop :=
  ∃ queued, state.InvariantAt queued

theorem start_invariant (fits : (n : Int) ≤ intMax)
    (fresh : Nat → Option Nat) : (start n fresh).Invariant := by
  refine ⟨[], ?_⟩
  exact
    { capacity := rfl
      represents := Queue.createQueue_represents fits fresh
      exclusive := by
        intro thread
        cases thread <;> exact ⟨nofun, nofun⟩
      count := by simp [start, passed, WorkerPc.passed, AcceptorPc.unannounced]
      order := rfl
      numbered := rfl
      owner := nofun
      retry := nofun }

/-- Moving one worker changes the number of passed workers by that worker. -/
theorem passed_setWorker (state : Cycle n) (index : Fin n) (pc : WorkerPc) :
    (state.setWorker index pc).passed + (state.worker index).passed.toNat =
      state.passed + pc.passed.toNat := by
  have asSum : ∀ counted : Cycle n,
      counted.passed =
        (counted.worker index).passed.toNat +
          ∑ other ∈ Finset.univ.erase index,
            (counted.worker other).passed.toNat := by
    intro counted
    rw [Finset.add_sum_erase _ (fun other => (counted.worker other).passed.toNat)
      (Finset.mem_univ index), passed, Finset.card_filter]
    refine Finset.sum_congr rfl fun other _ => ?_
    cases (counted.worker other).passed <;> rfl
  have others :
      ∑ other ∈ Finset.univ.erase index,
          ((state.setWorker index pc).worker other).passed.toNat =
        ∑ other ∈ Finset.univ.erase index,
          (state.worker other).passed.toNat := by
    refine Finset.sum_congr rfl fun other member => ?_
    rw [setWorker_other state pc (Finset.ne_of_mem_erase member)]
  rw [asSum (state.setWorker index pc), asSum state, others, setWorker_self]
  omega

theorem inside_setWorker_other (state : Cycle n) (index : Fin n)
    (pc : WorkerPc) (other : Thread n) (different : other ≠ .worker index) :
    (state.setWorker index pc).inside other = state.inside other := by
  cases other with
  | acceptor => rfl
  | worker position =>
      have apart : position ≠ index := fun same => different (same ▸ rfl)
      simp only [inside, setWorker_other state pc apart]

/-- Steps of the acceptor do not move the workers. -/
theorem inside_acceptor_other {state next : Cycle n}
    (workers : next.worker = state.worker) (other : Thread n)
    (different : other ≠ .acceptor) :
    next.inside other = state.inside other := by
  cases other with
  | acceptor => exact absurd rfl different
  | worker index => simp only [inside, workers]

theorem owner_setWorker {state : Cycle n} {index : Fin n} {pc : WorkerPc}
    {taken : List (Fin n × Nat)}
    (owner : ∀ other record, (state.worker other).record = some record →
      (other, record) ∈ taken)
    (moved : ∀ record, pc.record = some record → (index, record) ∈ taken) :
    ∀ other record,
      ((state.setWorker index pc).worker other).record = some record →
        (other, record) ∈ taken := by
  intro other record held
  by_cases same : other = index
  · subst same
    rw [setWorker_self] at held
    exact moved record held
  · rw [setWorker_other state pc same] at held
    exact owner other record held

/-- What the `enqueue` of the accept loop does in a state of the invariant. -/
theorem tryEnqueue_cases {state next : Cycle n} {queued : List Nat}
    {record : Nat} (holds : state.InvariantAt queued)
    (tried : state.tryEnqueue record = some next) :
    (queued.length = n ∧ next = { state with acceptor := .retry record }) ∨
      (queued.length ≠ n ∧ ∃ connections : Queue Nat,
        connections.capacity = n ∧
          connections.Represents (queued ++ [record]) ∧
          next = { state with
            acceptor := .leaveCs record, connections := connections }) := by
  have sameCapacity := holds.capacity
  by_cases full : queued.length = n
  · left
    have refused :=
      Queue.enqueue_full holds.represents (full.trans sameCapacity.symm) record
    rw [tryEnqueue, refused] at tried
    cases tried
    exact ⟨full, rfl⟩
  · right
    obtain ⟨connections, stored, nextCapacity, nextHolds⟩ :=
      Queue.enqueue_room holds.represents
        (fun same => full (same.trans sameCapacity)) record
    rw [tryEnqueue, stored] at tried
    cases tried
    exact ⟨full, connections, nextCapacity.trans sameCapacity, nextHolds, rfl⟩

/-- A worker about to dequeue finds a record in the queue. -/
theorem queued_cons_of_dequeue {state : Cycle n} {queued : List Nat}
    {index : Fin n} (holds : state.InvariantAt queued)
    (atDequeue : state.worker index = .dequeue) :
    ∃ oldest rest, queued = oldest :: rest := by
  have member : index ∈
      Finset.univ.filter fun other => (state.worker other).passed = true := by
    rw [Finset.mem_filter, atDequeue]
    exact ⟨Finset.mem_univ index, rfl⟩
  have positive : 0 < state.passed := Finset.card_pos.mpr ⟨index, member⟩
  have counted := holds.count
  cases queued with
  | nil =>
      simp only [List.length_nil] at counted
      omega
  | cons oldest rest => exact ⟨oldest, rest, rfl⟩

/-! ## Every step keeps the invariant -/

section Steps

variable {state : Cycle n} {queued : List Nat} {index : Fin n} {record : Nat}

theorem accept_keeps (holds : state.InvariantAt queued)
    (guard : state.acceptor = .accept) :
    InvariantAt
      { state with
        acceptor := .enterCs state.accepted.length
        accepted := state.accepted ++ [state.accepted.length] } queued := by
  have counted := holds.count
  have ordered := holds.order
  rw [guard] at counted ordered
  refine { holds with
    exclusive := ?_, count := counted, order := ?_, numbered := ?_,
    retry := nofun }
  · exact holds.exclusive.keep (inside_acceptor_other rfl)
      (by simp only [inside, guard]; rfl)
  · simp only [AcceptorPc.holding, List.append_nil] at ordered
    simp only [AcceptorPc.holding, ← ordered]
  · simp only [List.length_append, List.length_singleton, List.range_succ,
      ← holds.numbered]

theorem leaveLoop_keeps (holds : state.InvariantAt queued)
    (guard : state.acceptor = .accept) :
    InvariantAt { state with acceptor := .left } queued := by
  have counted := holds.count
  have ordered := holds.order
  rw [guard] at counted ordered
  exact { holds with
    exclusive := holds.exclusive.keep (inside_acceptor_other rfl)
      (by simp only [inside, guard]; rfl)
    count := counted
    order := ordered
    retry := nofun }

theorem acceptorEnterCs_keeps (holds : state.InvariantAt queued)
    (guard : state.acceptor = .enterCs record) (free : state.holder = none) :
    InvariantAt
      { state with acceptor := .enqueue record, holder := some .acceptor }
      queued := by
  have counted := holds.count
  have ordered := holds.order
  have exclusive := holds.exclusive
  rw [guard] at counted ordered
  rw [free] at exclusive
  exact { holds with
    exclusive := exclusive.enter (inside_acceptor_other rfl) rfl
    count := counted
    order := ordered
    retry := nofun }

theorem enqueue_keeps {next : Cycle n} (holds : state.InvariantAt queued)
    (guard : state.acceptor = .enqueue record ∨ state.acceptor = .retry record)
    (tried : state.tryEnqueue record = some next) : next.Invariant := by
  have inside : state.acceptor.inside = true := by
    rcases guard with first | again
    · rw [first]; rfl
    · rw [again]; rfl
  have held : state.acceptor.holding = [record] := by
    rcases guard with first | again
    · rw [first]; rfl
    · rw [again]; rfl
  have announced : state.acceptor.unannounced = 0 := by
    rcases guard with first | again
    · rw [first]; rfl
    · rw [again]; rfl
  have counted := holds.count
  have ordered := holds.order
  rw [announced] at counted
  rw [held] at ordered
  rcases tryEnqueue_cases holds tried with
    ⟨full, rfl⟩ | ⟨_, connections, nextCapacity, nextHolds, rfl⟩
  · exact ⟨queued, { holds with
      exclusive := holds.exclusive.keep (inside_acceptor_other rfl) inside.symm
      count := counted
      order := ordered
      retry := fun _ _ => full }⟩
  · refine ⟨queued ++ [record], { holds with
      capacity := nextCapacity
      represents := nextHolds
      exclusive := holds.exclusive.keep (inside_acceptor_other rfl) inside.symm
      count := ?_
      order := ?_
      retry := nofun }⟩
    · rw [List.length_append, List.length_singleton, counted]
      rfl
    · simpa only [AcceptorPc.holding, List.append_assoc, List.append_nil]
        using ordered

theorem acceptorLeaveCs_keeps (holds : state.InvariantAt queued)
    (guard : state.acceptor = .leaveCs record) :
    InvariantAt
      { state with acceptor := .incrementSemaphore record, holder := none }
      queued := by
  have counted := holds.count
  have ordered := holds.order
  rw [guard] at counted ordered
  exact { holds with
    exclusive := holds.exclusive.leave (inside_acceptor_other rfl)
      (by simp only [inside, guard]; rfl) rfl
    count := counted
    order := ordered
    retry := nofun }

theorem incrementSemaphore_keeps (holds : state.InvariantAt queued)
    (guard : state.acceptor = .incrementSemaphore record) :
    InvariantAt
      { state with acceptor := .accept, semaphore := state.semaphore + 1 }
      queued := by
  have counted := holds.count
  have ordered := holds.order
  rw [guard] at counted ordered
  refine { holds with
    exclusive := holds.exclusive.keep (inside_acceptor_other rfl)
      (by simp only [inside, guard]; rfl)
    count := ?_
    order := ordered
    retry := nofun }
  have samePassed :
      passed { state with
        acceptor := .accept, semaphore := state.semaphore + 1 } =
      state.passed := rfl
  rw [samePassed]
  simp only [AcceptorPc.unannounced] at counted ⊢
  omega

theorem waitSemaphore_keeps {permits : Nat}
    (holds : state.InvariantAt queued)
    (guard : state.worker index = .waitSemaphore)
    (available : state.semaphore = permits + 1) :
    InvariantAt
      { state.setWorker index .enterCs with semaphore := permits } queued := by
  have counted := holds.count
  have moved := passed_setWorker state index .enterCs
  rw [guard] at moved
  refine { holds with
    exclusive := holds.exclusive.keep (inside_setWorker_other state index _)
      (by simp only [inside, guard, setWorker_self]; rfl)
    count := ?_
    owner := owner_setWorker holds.owner nofun }
  change queued.length = permits + (state.setWorker index .enterCs).passed +
    state.acceptor.unannounced
  simp only [WorkerPc.passed, Bool.toNat_false, Bool.toNat_true] at moved
  omega

theorem enterCs_keeps (holds : state.InvariantAt queued)
    (guard : state.worker index = .enterCs) (free : state.holder = none) :
    InvariantAt
      { state.setWorker index .dequeue with holder := some (.worker index) }
      queued := by
  have counted := holds.count
  have moved := passed_setWorker state index .dequeue
  have exclusive := holds.exclusive
  rw [guard] at moved
  rw [free] at exclusive
  refine { holds with
    exclusive := exclusive.enter (inside_setWorker_other state index _)
      (by simp only [inside, setWorker_self]; rfl)
    count := ?_
    owner := owner_setWorker holds.owner nofun }
  change queued.length = state.semaphore +
    (state.setWorker index .dequeue).passed + state.acceptor.unannounced
  simp only [WorkerPc.passed] at moved
  omega

theorem dequeue_keeps {connections : Queue Nat}
    (holds : state.InvariantAt queued)
    (guard : state.worker index = .dequeue)
    (took : state.connections.dequeue = .ok (some record, connections)) :
    Invariant
      { state.setWorker index (.leaveCs record) with
        connections, taken := state.taken ++ [(index, record)] } := by
  obtain ⟨oldest, rest, rfl⟩ := queued_cons_of_dequeue holds guard
  obtain ⟨remaining, took', sameCapacity, restHolds⟩ :=
    Queue.dequeue_cons holds.represents
  rw [took'] at took
  cases took
  have counted := holds.count
  have moved := passed_setWorker state index (.leaveCs record)
  rw [guard] at moved
  have workerInside : state.inside (.worker index) = true := by
    simp only [inside, guard]
    rfl
  refine ⟨rest, { holds with
    capacity := sameCapacity.trans holds.capacity
    represents := restHolds
    exclusive := holds.exclusive.keep (inside_setWorker_other state index _)
      (by rw [workerInside]; simp only [inside, setWorker_self]; rfl)
    count := ?_
    order := ?_
    owner := ?_
    retry := ?_ }⟩
  · change rest.length = state.semaphore +
      (state.setWorker index (.leaveCs record)).passed +
        state.acceptor.unannounced
    simp only [WorkerPc.passed, Bool.toNat_false, Bool.toNat_true] at moved
    simp only [List.length_cons] at counted
    omega
  · simpa [setWorker] using holds.order
  · refine owner_setWorker
      (fun other record held =>
        List.mem_append_left _ (holds.owner other record held)) ?_
    intro record same
    cases same
    exact List.mem_append_right _ (List.mem_singleton.mpr rfl)
  · intro other asleep
    -- a sleeping acceptor would be inside together with this worker
    have acceptorInside : state.inside .acceptor = true := by
      have retrying : state.acceptor = .retry other := asleep
      simp only [inside, retrying]
      rfl
    cases holds.exclusive.unique acceptorInside workerInside

theorem leaveCs_keeps (holds : state.InvariantAt queued)
    (guard : state.worker index = .leaveCs record) :
    InvariantAt
      { state.setWorker index (.serve record) with holder := none }
      queued := by
  have counted := holds.count
  have moved := passed_setWorker state index (.serve record)
  rw [guard] at moved
  refine { holds with
    exclusive := holds.exclusive.leave (inside_setWorker_other state index _)
      (by simp only [inside, guard]; rfl)
      (by simp only [inside, setWorker_self]; rfl)
    count := ?_
    owner := owner_setWorker holds.owner ?_ }
  · change queued.length = state.semaphore +
      (state.setWorker index (.serve record)).passed +
        state.acceptor.unannounced
    simp only [WorkerPc.passed] at moved
    omega
  · intro other same
    cases same
    exact holds.owner index record (by rw [guard]; rfl)

/-- A worker that has finished with its record only moves its own counter. -/
theorem serve_keeps {pc : WorkerPc} (holds : state.InvariantAt queued)
    (guard : state.worker index = .serve record)
    (outside : pc.inside = false) (notPassed : pc.passed = false)
    (empty : pc.record = none) :
    (state.setWorker index pc).InvariantAt queued := by
  have counted := holds.count
  have moved := passed_setWorker state index pc
  rw [guard, notPassed] at moved
  refine { holds with
    exclusive := holds.exclusive.keep (inside_setWorker_other state index _)
      (by simp only [inside, guard, setWorker_self, outside]; rfl)
    count := ?_
    owner := owner_setWorker holds.owner ?_ }
  · change queued.length = state.semaphore +
      (state.setWorker index pc).passed + state.acceptor.unannounced
    simp only [WorkerPc.passed] at moved
    omega
  · intro other impossible
    rw [empty] at impossible
    cases impossible

end Steps

theorem step_invariant {state next : Cycle n} {action : Action n}
    (holds : state.Invariant) (stepped : state.step action = some next) :
    next.Invariant := by
  obtain ⟨queued, holds⟩ := holds
  cases step_cases stepped with
  | acceptError guard => exact ⟨queued, holds⟩
  | acceptNoMemory guard => exact ⟨queued, holds⟩
  | accept guard => exact ⟨queued, accept_keeps holds guard⟩
  | leaveLoop guard => exact ⟨queued, leaveLoop_keeps holds guard⟩
  | acceptorEnterCs guard free =>
      exact ⟨queued, acceptorEnterCs_keeps holds guard free⟩
  | enqueue guard tried => exact enqueue_keeps holds guard tried
  | acceptorLeaveCs guard => exact ⟨queued, acceptorLeaveCs_keeps holds guard⟩
  | incrementSemaphore guard =>
      exact ⟨queued, incrementSemaphore_keeps holds guard⟩
  | waitSemaphore guard available =>
      exact ⟨queued, waitSemaphore_keeps holds guard available⟩
  | enterCs guard free => exact ⟨queued, enterCs_keeps holds guard free⟩
  | dequeue guard took => exact dequeue_keeps holds guard took
  | dequeueNull guard took =>
      obtain ⟨oldest, rest, rfl⟩ := queued_cons_of_dequeue holds guard
      obtain ⟨remaining, took', _, _⟩ := Queue.dequeue_cons holds.represents
      rw [took'] at took
      cases took
  | leaveCs guard => exact ⟨queued, leaveCs_keeps holds guard⟩
  | finish guard => exact ⟨queued, serve_keeps holds guard rfl rfl rfl⟩
  | exit guard => exact ⟨queued, serve_keeps holds guard rfl rfl rfl⟩

/-- The invariant holds in every reachable state, whatever the interleaving. -/
theorem run_invariant (fits : (n : Int) ≤ intMax) (fresh : Nat → Option Nat)
    (actions : List (Action n)) {state : Cycle n}
    (ran : (system n).run (start n fresh) actions = some state) :
    state.Invariant :=
  (system n).run_invariant step_invariant actions
    (start_invariant fits fresh) ran

end Cycle

end RemoteCommand
