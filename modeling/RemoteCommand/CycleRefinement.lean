import RemoteCommand.LostPermits
import RemoteCommand.WorkerPlaces
import RemoteCommand.Transition.Reachable

/-!
# Threads that run a serve cycle

The threads of a pool, each running `thread_exec`, together with the acceptor.
They share the semaphore, the lock and the queue, which answer their calls; a
call on one of them may fail, and whatever else a thread does is answered in
any way.  All runs of the threads are runs of a serve cycle with failing calls,
and what holds of these holds of the programs.
-/

namespace RemoteCommand

open Interaction Machine Prog Transition

/-! ## The shared objects -/

/-- What the threads share, and where the acceptor is. -/
structure Shared (n : Nat) where
  acceptor : AcceptorPc
  semaphore : Nat
  /-- `connections_cs` is locked -/
  locked : Bool
  connections : Queue Nat
  accepted : List Nat
  /-- what `dequeue` has answered, and to whom -/
  taken : List (Fin n × Nat)

/-- The calls of the accept loop. -/
inductive AcceptorCall where
  | acceptError
  | acceptNoMemory
  | accept
  | leaveLoop
  | enterCs (succeeds : Bool)
  | enqueue
  | leaveCs (succeeds : Bool)
  | incrementSemaphore (succeeds : Bool)
  deriving DecidableEq, Repr

namespace Shared

variable {n limit : Nat} {pointer : Nat → Connection}

inductive Action (n : Nat) where
  | worker (index : Fin n) (event : Event Sys)
  | acceptor (call : AcceptorCall)

/-- A call of a thread.  `pointer` tells which record is behind a number. -/
def workerStep (pointer : Nat → Connection) (shared : Shared n)
    (index : Fin n) : Event Sys → Option (Shared n)
  | ⟨.semWait, waited⟩ =>
      if waited = (0 : Int) then
        match shared.semaphore with
        | 0 => none
        | permits + 1 => some { shared with semaphore := permits }
      else if waited = (-1 : Int) then some shared
      else none
  | ⟨.mutexLock .connectionsCs, result⟩ =>
      if result = (0 : Int) then
        if shared.locked then none else some { shared with locked := true }
      else some shared
  | ⟨.mutexUnlock .connectionsCs, result⟩ =>
      if result = (0 : Int) then some { shared with locked := false }
      else some shared
  | ⟨.dequeue, found⟩ =>
      match shared.connections.dequeue with
      | .ok (record, connections) =>
          if found = record.map pointer then
            some { shared with
              connections
              taken := shared.taken ++
                record.toList.map fun record => (index, record) }
          else none
      | .error _ => none
  | _ => some shared

/-- A call of the accept loop.  A `leave_cs` that fails leaves the lock as it
is. -/
def acceptorStep (limit : Nat) (shared : Shared n) :
    AcceptorCall → Option (Shared n)
  | .acceptError | .acceptNoMemory =>
      if shared.acceptor = .accept then some shared else none
  | .accept =>
      if shared.acceptor = .accept then
        let record := shared.accepted.length
        some { shared with
          acceptor := .enterCs record
          accepted := shared.accepted ++ [record] }
      else none
  | .leaveLoop =>
      if shared.acceptor = .accept then some { shared with acceptor := .left }
      else none
  | .enterCs succeeds =>
      match shared.acceptor with
      | .enterCs record =>
          if succeeds then
            if shared.locked then none
            else some { shared with
              acceptor := .enqueue record, locked := true }
          else some { shared with
            acceptor := .accept, accepted := shared.accepted.dropLast }
      | _ => none
  | .enqueue =>
      match shared.acceptor with
      | .enqueue record | .retry record =>
          match shared.connections.enqueue record with
          | .ok (-1, _) => some { shared with acceptor := .retry record }
          | .ok (_, connections) =>
              some { shared with acceptor := .leaveCs record, connections }
          | .error _ => none
      | _ => none
  | .leaveCs succeeds =>
      match shared.acceptor with
      | .leaveCs record =>
          if succeeds then
            some { shared with
              acceptor := .incrementSemaphore record, locked := false }
          else some { shared with acceptor := .accept }
      | _ => none
  | .incrementSemaphore succeeds =>
      match shared.acceptor with
      | .incrementSemaphore _ =>
          if succeeds then
            if shared.semaphore < limit then
              some { shared with
                acceptor := .accept, semaphore := shared.semaphore + 1 }
            else none
          else some { shared with acceptor := .accept }
      | _ => none

def system (limit : Nat) (pointer : Nat → Connection) (n : Nat) :
    System (Shared n) (Action n) where
  step shared
    | .worker index event => shared.workerStep pointer index event
    | .acceptor call => shared.acceptorStep limit call

def start (n : Nat) (fresh : Nat → Option Nat) : Shared n where
  acceptor := .accept
  semaphore := 0
  locked := false
  connections := Queue.createQueue n fresh
  accepted := []
  taken := []

/-- What one thread does in a trace. -/
def ownEvents (index : Fin n) (trace : List (Action n)) :
    List (Event Sys) :=
  trace.filterMap fun
    | .worker performer event =>
        if performer = index then some event else none
    | .acceptor _ => none

/-- The threads run `thread_exec`, each from its beginning, and the shared
objects answer them. -/
structure Performed (limit : Nat) (pointer : Nat → Connection)
    (fresh : Nat → Option Nat) (host : Endian) (serverToken : BitVec 64)
    (trace : List (Action n)) (final : Shared n) : Prop where
  possible : (system limit pointer n).run (start n fresh) trace = some final
  performs : ∀ index, ∃ outcome,
    Runs unconstrained (threadExec host serverToken) ()
      (ownEvents index trace) outcome ()

end Shared

/-! ## The threads are workers of a cycle -/

/-- The place of a worker that is in its loop. -/
def WorkerPc.place : WorkerPc → Option WorkerPlace
  | .waitSemaphore => some .waitSemaphore
  | .enterCs => some .enterCs
  | .dequeue => some .dequeue
  | .leaveCs _ => some .leaveCs
  | .serve _ => some .serve
  | .exited => none

theorem WorkerPc.of_place {pc : WorkerPc} {place : WorkerPlace}
    (here : pc.place = some place) :
    match place with
    | .waitSemaphore => pc = .waitSemaphore
    | .enterCs => pc = .enterCs
    | .dequeue => pc = .dequeue
    | .leaveCs => ∃ record, pc = .leaveCs record
    | .serve => ∃ record, pc = .serve record := by
  cases pc <;> cases here <;> first | rfl | exact ⟨_, rfl⟩

theorem FailingCycle.call_step {n limit : Nat} {state : FailingCycle n}
    {action : Cycle.Action n} {cycle : Cycle n}
    (admitted : state.admits limit action = true)
    (moved : state.cycle.step action = some cycle) :
    ∃ next, (system limit n).step state (.call action) = some next ∧
      next.cycle = cycle ∧ next.stuck = state.stuck := by
  simp [system, step, admitted, moved]

namespace Shared

variable {n limit : Nat} {pointer : Nat → Connection}
  {fresh : Nat → Option Nat} {shared next : Shared n}
  {places : Fin n → WorkerPlace} {state : FailingCycle n} {index : Fin n}

/-- The shared objects and the places of the threads are those of the cycle. -/
structure Abstracts (shared : Shared n) (places : Fin n → WorkerPlace)
    (state : FailingCycle n) : Prop where
  acceptor : state.cycle.acceptor = shared.acceptor
  semaphore : state.cycle.semaphore = shared.semaphore
  connections : state.cycle.connections = shared.connections
  accepted : state.cycle.accepted = shared.accepted
  taken : state.cycle.taken = shared.taken
  locked : shared.locked = (state.cycle.holder.isSome || state.stuck)
  worker : ∀ index, (state.cycle.worker index).place = some (places index)

/-- A run of the cycle leads there. -/
def Simulated (limit : Nat) (fresh : Nat → Option Nat) (shared : Shared n)
    (places : Fin n → WorkerPlace) : Prop :=
  ∃ state, (FailingCycle.system limit n).Leads (FailingCycle.start n fresh)
      state ∧ shared.Abstracts places state

/-- Whoever is inside holds the lock, and will release it. -/
theorem leads_inside (fits : (n : Int) ≤ intMax)
    (leads : (FailingCycle.system limit n).Leads (FailingCycle.start n fresh)
      state) {thread : Thread n}
    (isInside : state.cycle.inside thread = true) :
    state.cycle.holder = some thread ∧ state.stuck = false := by
  obtain ⟨actions, ran⟩ := leads
  obtain ⟨queued, counted⟩ := FailingCycle.run_account fits fresh ran
  have holding := (counted.exclusive thread).mp isInside
  refine ⟨holding, ?_⟩
  by_contra abandoned
  have free := FailingCycle.run_stuck ran
    (Bool.eq_true_of_not_eq_false abandoned)
  cases holding.symm.trans free

/-- A worker at `dequeue` finds a connection. -/
theorem leads_dequeue (fits : (n : Int) ≤ intMax)
    (leads : (FailingCycle.system limit n).Leads (FailingCycle.start n fresh)
      state) (atDequeue : state.cycle.worker index = .dequeue) :
    ∃ record connections,
      state.cycle.connections.dequeue = .ok (some record, connections) := by
  obtain ⟨actions, ran⟩ := leads
  obtain ⟨queued, counted⟩ := FailingCycle.run_account fits fresh ran
  obtain ⟨oldest, rest, rfl⟩ := Cycle.queued_cons_of_dequeue counted atDequeue
  obtain ⟨connections, took, _⟩ := Queue.dequeue_cons counted.represents
  exact ⟨oldest, connections, took⟩

theorem place_update {worker : Fin n → WorkerPc} {pc : WorkerPc}
    {place : WorkerPlace}
    (all : ∀ other, (worker other).place = some (places other))
    (here : pc.place = some place) (other : Fin n) :
    (Function.update worker index pc other).place =
      some (Function.update places index place other) := by
  by_cases same : other = index
  · rw [same, Function.update_self, Function.update_self, here]
  · rw [Function.update_of_ne same, Function.update_of_ne same, all]

/-- Where the lock is free, nobody holds it, and nobody has lost it. -/
theorem Abstracts.free (abstracts : shared.Abstracts places state)
    (unlocked : ¬ shared.locked = true) :
    state.cycle.holder = none ∧ state.stuck = false := by
  have free := abstracts.locked
  rwa [Bool.eq_false_iff.mpr unlocked, eq_comm, Bool.or_eq_false_iff,
    Option.isSome_eq_false_iff, Option.isNone_iff_eq_none] at free

/-- The cycle goes on by one of its calls. -/
theorem Simulated.call {action : Cycle.Action n} {cycle : Cycle n}
    {moved : Fin n → WorkerPlace}
    (leads : (FailingCycle.system limit n).Leads (FailingCycle.start n fresh)
      state)
    (admitted : state.admits limit action = true)
    (stepped : state.cycle.step action = some cycle)
    (abstracts : next.Abstracts moved { state with cycle }) :
    next.Simulated limit fresh moved := by
  obtain ⟨after, called, sameCycle, sameStuck⟩ :=
    FailingCycle.call_step admitted stepped
  refine ⟨after, leads.trans (.step called), ?_⟩
  obtain ⟨acceptor, semaphore, connections, accepted, taken, locked, worker⟩ :=
    abstracts
  subst sameCycle
  exact ⟨acceptor, semaphore, connections, accepted, taken,
    by rw [sameStuck]; exact locked, worker⟩

/-- A thread that is done with its connection is back at `wait_semaphore`. -/
theorem Simulated.rests (simulated : shared.Simulated limit fresh places)
    (rests : (places index).Rests) :
    shared.Simulated limit fresh
      (Function.update places index .waitSemaphore) := by
  rcases rests with waits | serves
  · rwa [← waits, Function.update_eq_self]
  · obtain ⟨state, leads, abstracts⟩ := simulated
    have place := abstracts.worker index
    rw [serves] at place
    obtain ⟨record, atPc⟩ := WorkerPc.of_place place
    have finishes : state.cycle.step (.finish index) =
        some (state.cycle.setWorker index .waitSemaphore) := by
      simp only [Cycle.step, atPc]
    exact .call leads rfl finishes { abstracts with
      worker := place_update abstracts.worker rfl }

/-! ### One call of a thread -/

section Calls

variable {result : Int} {found : Option Connection}

theorem Simulated.semWait (simulated : shared.Simulated limit fresh places)
    (atPlace : places index = .waitSemaphore)
    (stepped : shared.workerStep pointer index ⟨.semWait, result⟩ =
      some next) :
    next.Simulated limit fresh (Function.update places index
      (if result = -1 then .waitSemaphore else .enterCs)) := by
  obtain ⟨state, leads, abstracts⟩ := simulated
  have place := abstracts.worker index
  rw [atPlace] at place
  have atPc : state.cycle.worker index = .waitSemaphore := WorkerPc.of_place place
  simp only [workerStep] at stepped
  split at stepped
  · subst result
    split at stepped
    · cases stepped
    · rename_i permits available
      cases stepped
      have semaphore := abstracts.semaphore.trans available
      have waits : state.cycle.step (.waitSemaphore index) =
          some { state.cycle.setWorker index .enterCs with
            semaphore := permits } := by
        simp only [Cycle.step, atPc, semaphore]
      exact .call leads rfl waits { abstracts with
        semaphore := rfl
        worker := place_update abstracts.worker rfl }
  · split at stepped <;> cases stepped
    subst result
    refine ⟨state, leads, { abstracts with worker := ?_ }⟩
    rw [if_pos rfl, ← atPlace, Function.update_eq_self]
    exact abstracts.worker

theorem Simulated.mutexLock (simulated : shared.Simulated limit fresh places)
    (atPlace : places index = .enterCs)
    (stepped : shared.workerStep pointer index
      ⟨.mutexLock .connectionsCs, result⟩ = some next) :
    next.Simulated limit fresh (Function.update places index
      (if result = 0 then .dequeue else .waitSemaphore)) := by
  obtain ⟨state, leads, abstracts⟩ := simulated
  have place := abstracts.worker index
  rw [atPlace] at place
  have atPc : state.cycle.worker index = .enterCs := WorkerPc.of_place place
  simp only [workerStep] at stepped
  split at stepped
  · subst result
    split at stepped
    · cases stepped
    · rename_i unlocked
      cases stepped
      obtain ⟨nobody, going⟩ := abstracts.free unlocked
      have enters : state.cycle.step (.enterCs index) =
          some { state.cycle.setWorker index .dequeue with
            holder := some (.worker index) } := by
        simp only [Cycle.step, atPc, nobody]
      have admitted : state.admits limit (.enterCs index) = true := by
        simp only [FailingCycle.admits, going, Bool.not_false]
      exact .call leads admitted enters { abstracts with
        locked := rfl
        worker := place_update abstracts.worker rfl }
  · rename_i failed
    cases stepped
    rw [if_neg failed]
    have fails : (FailingCycle.system limit n).step state
        (.enterCsFails index) = some (state.resume index) := by
      simp only [FailingCycle.system, FailingCycle.step, atPc]
    exact ⟨_, leads.trans (.step fails), { abstracts with
      worker := place_update abstracts.worker rfl }⟩

theorem Simulated.dequeue (fits : (n : Int) ≤ intMax)
    (simulated : shared.Simulated limit fresh places)
    (atPlace : places index = .dequeue)
    (stepped : shared.workerStep pointer index ⟨.dequeue, found⟩ =
      some next) :
    found ≠ none ∧ next.Simulated limit fresh
      (Function.update places index .leaveCs) := by
  obtain ⟨state, leads, abstracts⟩ := simulated
  have place := abstracts.worker index
  rw [atPlace] at place
  have atPc : state.cycle.worker index = .dequeue := WorkerPc.of_place place
  obtain ⟨record, connections, took⟩ := leads_dequeue fits leads atPc
  have took' := took
  rw [abstracts.connections] at took'
  simp only [workerStep, took', Option.map_some, Option.toList_some] at stepped
  obtain ⟨rfl, same⟩ := Option.ite_none_right_eq_some.mp stepped
  cases same
  have takes : state.cycle.step (.dequeue index) =
      some { state.cycle.setWorker index (.leaveCs record) with
        connections, taken := state.cycle.taken ++ [(index, record)] } := by
    simp only [Cycle.step, atPc, took]
  refine ⟨Option.some_ne_none _, .call leads rfl takes { abstracts with
    connections := rfl
    taken := ?_
    worker := place_update abstracts.worker rfl }⟩
  rw [← abstracts.taken]
  rfl

theorem Simulated.mutexUnlock (fits : (n : Int) ≤ intMax)
    (simulated : shared.Simulated limit fresh places)
    (atPlace : places index = .leaveCs)
    (stepped : shared.workerStep pointer index
      ⟨.mutexUnlock .connectionsCs, result⟩ = some next) :
    next.Simulated limit fresh (Function.update places index
      (if result = 0 then .serve else .waitSemaphore)) := by
  obtain ⟨state, leads, abstracts⟩ := simulated
  have place := abstracts.worker index
  rw [atPlace] at place
  obtain ⟨record, atPc⟩ := WorkerPc.of_place place
  have isInside : state.cycle.inside (.worker index) = true := by
    simp only [Cycle.inside, atPc, WorkerPc.inside]
  obtain ⟨holding, going⟩ := leads_inside fits leads isInside
  simp only [workerStep] at stepped
  split at stepped <;> rename_i answer <;> cases stepped
  · rw [if_pos answer]
    have leaves : state.cycle.step (.leaveCs index) =
        some { state.cycle.setWorker index (.serve record) with
          holder := none } := by
      simp only [Cycle.step, atPc]
    exact .call leads rfl leaves { abstracts with
      locked := by rw [going]; rfl
      worker := place_update abstracts.worker rfl }
  · rw [if_neg answer]
    have fails : (FailingCycle.system limit n).step state
        (.leaveCsFails index) =
          some { state.abandon.resume index with
            closed := state.closed ++ [record] } := by
      simp only [FailingCycle.system, FailingCycle.step, atPc]
    refine ⟨_, leads.trans (.step fails), { abstracts with
      locked := ?_
      worker := place_update abstracts.worker rfl }⟩
    rw [abstracts.locked, holding]
    rfl

end Calls

/-- A call of a thread that keeps to its places is one of a worker, and a
`dequeue` is not answered with `NULL`. -/
theorem Simulated.worker (fits : (n : Int) ≤ intMax)
    (simulated : shared.Simulated limit fresh places) {event : Event Sys}
    {place : WorkerPlace} (moves : (places index).step event = some place)
    (stepped : shared.workerStep pointer index event = some next) :
    event ≠ ⟨.dequeue, none⟩ ∧
      next.Simulated limit fresh (Function.update places index place) := by
  obtain ⟨call, response⟩ := event
  have stays (elsewhere : WorkerPlace.Elsewhere call)
      (same : next = shared) :
      next.Simulated limit fresh (Function.update places index place) := by
    rw [WorkerPlace.elsewhere_step _ response elsewhere] at moves
    cases moves
    rwa [Function.update_eq_self, same]
  cases call with
  | semWait =>
      obtain ⟨rests, same⟩ := Option.ite_none_right_eq_some.mp moves
      cases same
      have atRest := simulated.rests rests
      have waited := atRest.semWait (Function.update_self ..) stepped
      rw [Function.update_idem] at waited
      exact ⟨nofun, waited⟩
  | dequeue =>
      obtain ⟨atPlace, same⟩ := Option.ite_none_right_eq_some.mp moves
      obtain ⟨some, taken⟩ := simulated.dequeue fits atPlace stepped
      cases response with
      | none => exact absurd rfl some
      | some co =>
          cases same
          exact ⟨nofun, taken⟩
  | mutexLock cs =>
      refine ⟨nofun, ?_⟩
      cases cs with
      | connectionsCs =>
          obtain ⟨atPlace, same⟩ := Option.ite_none_right_eq_some.mp moves
          cases same
          exact simulated.mutexLock atPlace stepped
      | logCs => exact stays trivial (Option.some.inj stepped).symm
  | mutexUnlock cs =>
      refine ⟨nofun, ?_⟩
      cases cs with
      | connectionsCs =>
          obtain ⟨atPlace, same⟩ := Option.ite_none_right_eq_some.mp moves
          cases same
          exact simulated.mutexUnlock fits atPlace stepped
      | logCs => exact stays trivial (Option.some.inj stepped).symm
  | _ => exact ⟨nofun, stays trivial (Option.some.inj stepped).symm⟩

/-! ### One call of the acceptor -/

section Acceptor

variable {record : Nat} {succeeds : Bool}

/-- What `enqueue` answers. -/
theorem enqueue_cases {queue : Queue Nat} {items : List Nat}
    (represents : queue.Represents items) (record : Nat) :
    queue.enqueue record = .ok (-1, queue) ∨
      ∃ connections, queue.enqueue record = .ok (0, connections) := by
  by_cases full : items.length = queue.capacity
  · exact .inl (Queue.enqueue_full represents full record)
  · obtain ⟨connections, stored, _⟩ :=
      Queue.enqueue_room represents full record
    exact .inr ⟨connections, stored⟩

theorem Simulated.enqueue (fits : (n : Int) ≤ intMax)
    (simulated : shared.Simulated limit fresh places)
    (stepped : shared.acceptorStep limit .enqueue = some next) :
    next.Simulated limit fresh places := by
  obtain ⟨state, leads, abstracts⟩ := simulated
  have represents : ∃ queued, shared.connections.Represents queued := by
    obtain ⟨actions, ran⟩ := leads
    obtain ⟨queued, counted⟩ := FailingCycle.run_account fits fresh ran
    exact ⟨queued, abstracts.connections ▸ counted.represents⟩
  obtain ⟨queued, represents⟩ := represents
  have place := abstracts.acceptor
  simp only [acceptorStep] at stepped
  split at stepped
  case h_3 => cases stepped
  all_goals
    rename_i record atPlace
    rw [atPlace] at place
    rcases enqueue_cases represents record with answer | ⟨connections, answer⟩
    · rw [answer] at stepped
      cases stepped
      have sleeps : state.cycle.step .enqueue =
          some { state.cycle with acceptor := .retry record } := by
        simp only [Cycle.step, place, Cycle.tryEnqueue, abstracts.connections,
          answer]
      exact .call leads rfl sleeps { abstracts with acceptor := rfl }
    · rw [answer] at stepped
      cases stepped
      have puts : state.cycle.step .enqueue =
          some { state.cycle with
            acceptor := .leaveCs record, connections } := by
        simp only [Cycle.step, place, Cycle.tryEnqueue, abstracts.connections,
          answer]
      exact .call leads rfl puts { abstracts with
        acceptor := rfl, connections := rfl }

theorem Simulated.acceptorEnterCs
    (simulated : shared.Simulated limit fresh places)
    (stepped : shared.acceptorStep limit (.enterCs succeeds) = some next) :
    next.Simulated limit fresh places := by
  obtain ⟨state, leads, abstracts⟩ := simulated
  have place := abstracts.acceptor
  simp only [acceptorStep] at stepped
  split at stepped
  case h_2 => cases stepped
  case h_1 record atPlace =>
    rw [atPlace] at place
    split at stepped
    · split at stepped
      · cases stepped
      · rename_i unlocked
        cases stepped
        obtain ⟨nobody, going⟩ := abstracts.free unlocked
        have enters : state.cycle.step .acceptorEnterCs =
            some { state.cycle with
              acceptor := .enqueue record, holder := some .acceptor } := by
          simp only [Cycle.step, place, nobody]
        have admitted : state.admits limit .acceptorEnterCs = true := by
          simp only [FailingCycle.admits, going, Bool.not_false]
        exact .call leads admitted enters { abstracts with
          acceptor := rfl, locked := rfl }
    · cases stepped
      have fails : (FailingCycle.system limit n).step state
          .acceptorEnterCsFails =
            some { state with
              cycle := { state.cycle with
                acceptor := .accept, accepted := state.cycle.accepted.dropLast }
              refused := state.refused + 1 } := by
        simp only [FailingCycle.system, FailingCycle.step, place]
      exact ⟨_, leads.trans (.step fails), { abstracts with
        acceptor := rfl
        accepted := congrArg List.dropLast abstracts.accepted }⟩

theorem Simulated.acceptorLeaveCs (fits : (n : Int) ≤ intMax)
    (simulated : shared.Simulated limit fresh places)
    (stepped : shared.acceptorStep limit (.leaveCs succeeds) = some next) :
    next.Simulated limit fresh places := by
  obtain ⟨state, leads, abstracts⟩ := simulated
  have place := abstracts.acceptor
  simp only [acceptorStep] at stepped
  split at stepped
  case h_2 => cases stepped
  case h_1 record atPlace =>
    rw [atPlace] at place
    have isInside : state.cycle.inside .acceptor = true := by
      simp only [Cycle.inside, place, AcceptorPc.inside]
    obtain ⟨holding, going⟩ := leads_inside fits leads isInside
    split at stepped <;> cases stepped
    · have leaves : state.cycle.step .acceptorLeaveCs =
          some { state.cycle with
            acceptor := .incrementSemaphore record, holder := none } := by
        simp only [Cycle.step, place]
      exact .call leads rfl leaves { abstracts with
        acceptor := rfl
        locked := by rw [going]; rfl }
    · have fails : (FailingCycle.system limit n).step state
          .acceptorLeaveCsFails = some (state.abandon.refuse record) := by
        simp only [FailingCycle.system, FailingCycle.step, place]
      refine ⟨_, leads.trans (.step fails), { abstracts with
        acceptor := rfl, locked := ?_ }⟩
      rw [abstracts.locked, holding]
      rfl

theorem Simulated.incrementSemaphore
    (simulated : shared.Simulated limit fresh places)
    (stepped : shared.acceptorStep limit (.incrementSemaphore succeeds) =
      some next) :
    next.Simulated limit fresh places := by
  obtain ⟨state, leads, abstracts⟩ := simulated
  have place := abstracts.acceptor
  simp only [acceptorStep] at stepped
  split at stepped
  case h_2 => cases stepped
  case h_1 record atPlace =>
    rw [atPlace] at place
    split at stepped
    · obtain ⟨below, same⟩ := Option.ite_none_right_eq_some.mp stepped
      cases same
      have increments : state.cycle.step .incrementSemaphore =
          some { state.cycle with
            acceptor := .accept
            semaphore := state.cycle.semaphore + 1 } := by
        simp only [Cycle.step, place]
      have admitted : state.admits limit .incrementSemaphore = true := by
        simpa only [FailingCycle.admits, abstracts.semaphore,
          decide_eq_true_eq]
      exact .call leads admitted increments { abstracts with
        acceptor := rfl
        semaphore := congrArg (· + 1) abstracts.semaphore }
    · cases stepped
      have fails : (FailingCycle.system limit n).step state
          .incrementSemaphoreFails = some (state.refuse record) := by
        simp only [FailingCycle.system, FailingCycle.step, place]
      exact ⟨_, leads.trans (.step fails), { abstracts with
        acceptor := rfl }⟩

/-- A call of the accept loop is one of the acceptor of the cycle. -/
theorem Simulated.acceptor (fits : (n : Int) ≤ intMax)
    (simulated : shared.Simulated limit fresh places) {call : AcceptorCall}
    (stepped : shared.acceptorStep limit call = some next) :
    next.Simulated limit fresh places := by
  cases call with
  | enqueue => exact simulated.enqueue fits stepped
  | enterCs succeeds => exact simulated.acceptorEnterCs stepped
  | leaveCs succeeds => exact simulated.acceptorLeaveCs fits stepped
  | incrementSemaphore succeeds => exact simulated.incrementSemaphore stepped
  | acceptError | acceptNoMemory =>
      obtain ⟨_, same⟩ := Option.ite_none_right_eq_some.mp stepped
      cases same
      exact simulated
  | accept =>
      obtain ⟨state, leads, abstracts⟩ := simulated
      obtain ⟨atPlace, same⟩ := Option.ite_none_right_eq_some.mp stepped
      cases same
      have place := abstracts.acceptor.trans atPlace
      have accepts : state.cycle.step .accept =
          some { state.cycle with
            acceptor := .enterCs state.cycle.accepted.length
            accepted :=
              state.cycle.accepted ++ [state.cycle.accepted.length] } := by
        simp only [Cycle.step, place, if_true]
      exact .call leads rfl accepts { abstracts with
        acceptor := by rw [abstracts.accepted]
        accepted := by rw [abstracts.accepted] }
  | leaveLoop =>
      obtain ⟨state, leads, abstracts⟩ := simulated
      obtain ⟨atPlace, same⟩ := Option.ite_none_right_eq_some.mp stepped
      cases same
      have place := abstracts.acceptor.trans atPlace
      have leaves : state.cycle.step .leaveLoop =
          some { state.cycle with acceptor := .left } := by
        simp only [Cycle.step, place, if_true]
      exact .call leads rfl leaves { abstracts with acceptor := rfl }

end Acceptor

/-! ### Runs -/

theorem start_simulated :
    (start n fresh).Simulated limit fresh fun _ => .waitSemaphore :=
  ⟨_, .here _ _, ⟨rfl, rfl, rfl, rfl, rfl, rfl, fun _ => rfl⟩⟩

theorem ownEvents_self (index : Fin n) (event : Event Sys)
    (trace : List (Action n)) :
    ownEvents index (.worker index event :: trace) =
      event :: ownEvents index trace := by
  simp [ownEvents]

theorem ownEvents_other {index performer : Fin n}
    (different : performer ≠ index) (event : Event Sys)
    (trace : List (Action n)) :
    ownEvents index (.worker performer event :: trace) =
      ownEvents index trace := by
  simp [ownEvents, different]

/-- Threads that keep to their places, with the acceptor, move as a cycle
does. -/
theorem Simulated.run (fits : (n : Int) ≤ intMax) (trace : List (Action n)) :
    ∀ {shared final : Shared n} {places : Fin n → WorkerPlace},
      shared.Simulated limit fresh places →
      (system limit pointer n).run shared trace = some final →
      (∀ index, ∃ place,
        WorkerPlace.monitor.run (places index) (ownEvents index trace) =
          some place) →
      ∃ moved, final.Simulated limit fresh moved ∧
        ∀ index,
          WorkerPlace.monitor.run (places index) (ownEvents index trace) =
            some (moved index) ∧
          ⟨.dequeue, none⟩ ∉ ownEvents index trace := by
  induction trace with
  | nil =>
      intro shared final places simulated ran _
      cases ran
      exact ⟨places, simulated, fun index => ⟨rfl, List.not_mem_nil⟩⟩
  | cons action trace inductionHypothesis =>
      intro shared final places simulated ran accepted
      obtain ⟨next, stepped, rest⟩ := (System.run_cons _).mp ran
      cases action with
      | acceptor call =>
          exact inductionHypothesis (simulated.acceptor fits stepped) rest
            accepted
      | worker performer event =>
          obtain ⟨last, whole⟩ := accepted performer
          rw [ownEvents_self] at whole
          obtain ⟨place, moves, later⟩ := (System.run_cons _).mp whole
          obtain ⟨found, after⟩ := simulated.worker fits moves stepped
          obtain ⟨moved, atEnd, own⟩ := inductionHypothesis after rest <| by
            intro index
            by_cases same : index = performer
            · rw [same, Function.update_self]
              exact ⟨last, later⟩
            · have kept := accepted index
              rw [ownEvents_other (Ne.symm same)] at kept
              rwa [Function.update_of_ne same]
          refine ⟨moved, atEnd, fun index => ?_⟩
          obtain ⟨goes, none⟩ := own index
          by_cases same : index = performer
          · subst same
            rw [Function.update_self] at goes
            rw [ownEvents_self]
            refine ⟨(System.run_cons _).mpr ⟨place, moves, goes⟩, ?_⟩
            rw [List.mem_cons, not_or]
            exact ⟨found.symm, none⟩
          · rw [Function.update_of_ne same] at goes
            rw [ownEvents_other (Ne.symm same)]
            exact ⟨goes, none⟩

/-- Where the threads of a run are. -/
theorem Performed.simulated (fits : (n : Int) ≤ intMax) {host : Endian}
    {serverToken : BitVec 64} {trace : List (Action n)} {final : Shared n}
    (performed :
      Performed limit pointer fresh host serverToken trace final) :
    ∃ moved, final.Simulated limit fresh moved ∧
      ∀ index,
        WorkerPlace.monitor.run .waitSemaphore (ownEvents index trace) =
          some (moved index) ∧
        ⟨.dequeue, none⟩ ∉ ownEvents index trace := by
  refine start_simulated.run fits trace performed.possible fun index => ?_
  obtain ⟨outcome, run⟩ := performed.performs index
  obtain ⟨place, accepted, _⟩ :=
    (WorkerPlace.threadExec_keeps host serverToken).accepts run
  exact ⟨place, accepted⟩

/-- A thread between `enter_cs` and `leave_cs`. -/
def Inside (trace : List (Action n)) (index : Fin n) : Prop :=
  WorkerPlace.monitor.run .waitSemaphore (ownEvents index trace) =
      some .dequeue ∨
    WorkerPlace.monitor.run .waitSemaphore (ownEvents index trace) =
      some .leaveCs

end Shared

section Threads

variable {n limit : Nat} {pointer : Nat → Connection}
  {fresh : Nat → Option Nat} {host : Endian} {serverToken : BitVec 64}
  {trace : List (Shared.Action n)} {final : Shared n}

/-- The programs refine the cycle.  Whatever `n` threads that run `thread_exec`
do with an acceptor, with any failing calls and any interleaving, a cycle with
failing calls can do: its objects are the shared ones, and its workers are where
the calls of the threads lead. -/
theorem threads_refine_cycle (fits : (n : Int) ≤ intMax)
    (performed : Shared.Performed limit pointer fresh host serverToken trace
      final) :
    ∃ actions state,
      (FailingCycle.system limit n).run (FailingCycle.start n fresh) actions =
        some state ∧
      state.cycle.acceptor = final.acceptor ∧
      state.cycle.semaphore = final.semaphore ∧
      state.cycle.connections = final.connections ∧
      state.cycle.accepted = final.accepted ∧
      state.cycle.taken = final.taken ∧
      ∀ index, ∃ place,
        WorkerPlace.monitor.run .waitSemaphore
          (Shared.ownEvents index trace) = some place ∧
        (state.cycle.worker index).place = some place := by
  obtain ⟨moved, ⟨state, ⟨actions, ran⟩, abstracts⟩, own⟩ :=
    performed.simulated fits
  exact ⟨actions, state, ran, abstracts.acceptor, abstracts.semaphore,
    abstracts.connections, abstracts.accepted, abstracts.taken,
    fun index => ⟨moved index, (own index).1, abstracts.worker index⟩⟩

/-- So the threads share the queue as they should.  In every such run no
`dequeue` is answered with `NULL`; the connections have been taken in the order
in which they were accepted, each by one thread, and those that are left are in
the queue or in the hand of the acceptor; and one thread at most is between
`enter_cs` and `leave_cs`. -/
theorem threads_share_queue (fits : (n : Int) ≤ intMax)
    (performed : Shared.Performed limit pointer fresh host serverToken trace
      final) :
    (∀ index, ⟨.dequeue, none⟩ ∉ Shared.ownEvents index trace) ∧
      (∃ queued, final.connections.Represents queued ∧
        final.accepted = List.range final.accepted.length ∧
        final.accepted =
          final.taken.map Prod.snd ++ queued ++ final.acceptor.holding) ∧
      ∀ first second, Shared.Inside trace first →
        Shared.Inside trace second → first = second := by
  obtain ⟨moved, ⟨state, leads, abstracts⟩, own⟩ := performed.simulated fits
  refine ⟨fun index => (own index).2, ?_, ?_⟩
  · obtain ⟨actions, ran⟩ := leads
    obtain ⟨queued, counted⟩ := FailingCycle.run_account fits fresh ran
    have represents : state.cycle.connections.Represents queued :=
      counted.represents
    have numbered : state.cycle.accepted =
        List.range state.cycle.accepted.length := counted.numbered
    have order : state.cycle.accepted = state.cycle.taken.map Prod.snd ++
        queued ++ state.cycle.acceptor.holding := counted.order
    rw [abstracts.connections] at represents
    rw [abstracts.accepted] at numbered order
    rw [abstracts.taken, abstracts.acceptor] at order
    exact ⟨queued, represents, numbered, order⟩
  · have isInside {index : Fin n} (inside : Shared.Inside trace index) :
        state.cycle.inside (.worker index) = true := by
      have place := abstracts.worker index
      have here := (own index).1
      rcases inside with atDequeue | atLeaveCs
      · rw [Option.some.inj (here.symm.trans atDequeue)] at place
        have atPc : state.cycle.worker index = .dequeue :=
          WorkerPc.of_place place
        simp only [Cycle.inside, atPc, WorkerPc.inside]
      · rw [Option.some.inj (here.symm.trans atLeaveCs)] at place
        obtain ⟨record, atPc⟩ := WorkerPc.of_place place
        simp only [Cycle.inside, atPc, WorkerPc.inside]
    intro first second firstInside secondInside
    have one := (Shared.leads_inside fits leads (isInside firstInside)).1
    have two := (Shared.leads_inside fits leads (isInside secondInside)).1
    cases one.symm.trans two
    rfl

end Threads

/-! ### One client of one thread -/

/-- A client comes, and the thread that serves it ends with it. -/
def oneVanishingClient : List (Shared.Action 1) :=
  [.acceptor .accept, .acceptor (.enterCs true), .acceptor .enqueue,
      .acceptor (.leaveCs true), .acceptor (.incrementSemaphore true)] ++
    vanishingClient.map (.worker soleThread)

theorem oneVanishingClient_performed :
    ∃ final, Shared.Performed semMax (fun _ => someConnection) (fun _ => none)
      .little 5 oneVanishingClient final := by
  obtain ⟨final, ran⟩ := Option.isSome_iff_exists.mp
    (by decide : ((Shared.system semMax (fun _ => someConnection) 1).run
      (Shared.start 1 fun _ => none) oneVanishingClient).isSome)
  refine ⟨final, ran, fun index => ⟨some (), ?_⟩⟩
  have own : Shared.ownEvents index oneVanishingClient = vanishingClient := by
    rw [Subsingleton.elim index soleThread]
    rfl
  rw [own]
  exact .ofReplayUnconstrained 60 (by decide)

theorem threads_refine_cycle_oneVanishingClient :
    ∃ final : Shared 1, ∃ actions state,
      (FailingCycle.system semMax 1).run (FailingCycle.start 1 fun _ => none)
        actions = some state ∧
      state.cycle.taken = final.taken ∧
      (state.cycle.worker soleThread).place = some .serve := by
  obtain ⟨final, performed⟩ := oneVanishingClient_performed
  obtain ⟨actions, state, ran, _, _, _, _, taken, places⟩ :=
    threads_refine_cycle (by decide) performed
  obtain ⟨place, accepted, here⟩ := places soleThread
  refine ⟨final, actions, state, ran, taken, ?_⟩
  have last : WorkerPlace.monitor.run .waitSemaphore
      (Shared.ownEvents soleThread oneVanishingClient) = some .serve := rfl
  rw [here, ← accepted, last]

theorem threads_share_queue_oneVanishingClient :
    ∃ final : Shared 1, ∃ queued, final.connections.Represents queued ∧
      final.accepted =
        final.taken.map Prod.snd ++ queued ++ final.acceptor.holding := by
  obtain ⟨final, performed⟩ := oneVanishingClient_performed
  obtain ⟨_, ⟨queued, represents, _, order⟩, _⟩ :=
    threads_share_queue (by decide) performed
  exact ⟨final, queued, represents, order⟩

end RemoteCommand
