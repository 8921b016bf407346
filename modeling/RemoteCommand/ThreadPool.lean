import RemoteCommand.Platform
import RemoteCommand.Queue

/-!
# threads.h

The pool is a queue of thread handles behind a static pointer.  Queues and
handles are numbered in the order in which they are allocated, and a number is
not used twice: a pointer to a destroyed queue does not become one to a later
queue.  Which of the allocations and thread creations of a call succeed is an
input of the call.

On Linux a thread is killed with signal 9, which ends the whole process; when
the thread has returned from its function already, nothing is sent.  On Windows
`TerminateThread` ends the thread only.  Which of the threads have returned when
a call gets to them is an input of the call, too.

The life of the pointer is that of `PoolStatus`: it is `NULL`, or refers to a
queue, or to one that has been destroyed.
-/

namespace RemoteCommand

open Machine

inductive Os where
  | linux
  | windows
  deriving DecidableEq, Repr

/-- Why a process ends within a call. -/
inductive Halt where
  | killed
  | fault (fault : Fault)
  /-- the call uses a queue that was destroyed -/
  | destroyedQueue
  /-- not reached: there are more threads than the queue says -/
  | unfinished
  deriving DecidableEq, Repr

/-- The variable `pool`, the heap as far as it matters, and the handles that
were killed and those that were freed, the last ones first. -/
structure Threads where
  pool : Option Nat
  queues : Nat → Option (Queue Nat)
  nextQueue : Nat
  nextThread : Nat
  killed : List Nat
  freed : List Nat

/-- Which allocations and thread creations of a `create_thread_pool` succeed. -/
structure Creation where
  queue : Bool
  array : Bool
  thread : Nat → Bool
  started : Nat → Bool

namespace Threads

/-- The result of a call, or why and where the process ended. -/
abbrev Result (β : Type) : Type :=
  Except (Halt × Threads) β

def start : Threads where
  pool := none
  queues _ := none
  nextQueue := 0
  nextThread := 0
  killed := []
  freed := []

/-- The state after a queue has changed or, with `none`, was freed. -/
def store (state : Threads) (pointer : Nat) (queue : Option (Queue Nat)) :
    Threads :=
  { state with queues := Function.update state.queues pointer queue }

@[simp]
theorem store_killed (state : Threads) (pointer : Nat)
    (queue : Option (Queue Nat)) :
    (state.store pointer queue).killed = state.killed :=
  rfl

@[simp]
theorem store_freed (state : Threads) (pointer : Nat)
    (queue : Option (Queue Nat)) :
    (state.store pointer queue).freed = state.freed :=
  rfl

@[simp]
theorem store_queues (state : Threads) (pointer : Nat)
    (queue : Option (Queue Nat)) :
    (state.store pointer queue).queues pointer = queue := by
  simp [store]

/-- The state in which `pool` points to a new queue. -/
def withPool (state : Threads) (queue : Queue Nat) : Threads :=
  { state.store state.nextQueue (some queue) with
    pool := some state.nextQueue
    nextQueue := state.nextQueue + 1 }

/-- A queue operation on `pool`. -/
def onPool {β : Type} (call : Queue Nat → Except Fault (β × Queue Nat))
    (state : Threads) : Result (β × Threads) :=
  match state.pool with
  | none => .error (.unfinished, state)
  | some pointer =>
      match state.queues pointer with
      | none => .error (.destroyedQueue, state)
      | some queue =>
          match call queue with
          | .error fault => .error (.fault fault, state)
          | .ok (value, next) =>
              .ok (value, state.store pointer (some next))

/-- The loop of `destroy_thread_pool` from turn `index` on, which turns at most
`turns` times.  The thread of a turn has `returned` or is killed. -/
def killThreads (os : Os) (returned : Nat → Bool) : Nat → Nat → Threads →
    Result Threads
  | 0, _, state => .error (.unfinished, state)
  | turns + 1, index, state => do
      let (thread, state) ← state.onPool Queue.dequeue
      match thread with
      | none => return state
      | some thread =>
          let state := { state with killed := thread :: state.killed }
          if os = .linux ∧ ¬ returned index then
            throw (.killed, state)
          else
            killThreads os returned turns (index + 1)
              { state with freed := thread :: state.freed }

/-- The number of handles in a queue. -/
def handles (state : Threads) (pointer : Nat) : Nat :=
  match state.queues pointer with
  | none => 0
  | some queue => queue.size.toNat

def destroyThreadPool (os : Os) (returned : Nat → Bool) (state : Threads) :
    Result Threads :=
  match state.pool with
  | none => return state
  | some pointer => do
      let state ← killThreads os returned (state.handles pointer + 1) 0 state
      -- `destroyQueue` frees the queue; `pool` stays as it is.
      return state.store pointer none

/-- `createQueue`, with an array that is `NULL` if its `malloc` failed. -/
def allocateQueue (capacity : Nat) (array : Bool) : Queue Nat :=
  let queue := Queue.createQueue capacity fun _ => none
  if array then queue else { queue with array := { queue.array with length := 0 } }

/-- The loop of `create_thread_pool` from turn `index` on. -/
def addThreads (made : Creation) : Nat → Nat → Threads →
    Result (Int × Threads)
  | 0, _, state => return (ok, state)
  | turns + 1, index, state =>
      if ¬ made.thread index then
        return (intErr, state)
      else
        let thread := state.nextThread
        let state := { state with nextThread := thread + 1 }
        if ¬ made.started index then
          return (intErr, state)
        else do
          let (ret, state) ← state.onPool fun queue => queue.enqueue thread
          if ret = -1 then
            return (intErr, state)
          else
            addThreads made turns (index + 1) state

def createThreadPool (os : Os) (returned : Nat → Bool) (n : BitVec 32)
    (made : Creation) (state : Threads) : Result (Int × Threads) := do
  let state ← destroyThreadPool os returned state
  if ¬ made.queue then
    return (intErr, { state with pool := none })
  else
    let queue := allocateQueue n.toNat made.array
    addThreads made n.toInt.toNat 0 (state.withPool queue)

end Threads

/-- A call of one of the two functions, and which of the threads that it kills
have returned by then. -/
inductive PoolCall where
  | create (n : BitVec 32) (made : Creation) (returned : Nat → Bool)
  | destroy (returned : Nat → Bool)

namespace Threads

def call (os : Os) (state : Threads) : PoolCall → Result Threads
  | .create n made returned => do
      let (_, state) ← createThreadPool os returned n made state
      return state
  | .destroy returned => destroyThreadPool os returned state

/-- A sequence of calls, from a state. -/
def calls (os : Os) (state : Threads) (sequence : List PoolCall) :
    Result Threads :=
  sequence.foldlM (call os) state

end Threads

/-! ## What the calls do to the pointer -/

namespace PoolCall

/-- How many turns of the loop of `create_thread_pool` create a thread. -/
def startedFrom (made : Creation) : Nat → Nat → Nat
  | 0, _ => 0
  | turns + 1, index =>
      if made.thread index ∧ made.started index then
        startedFrom made turns (index + 1) + 1
      else
        0

/-- The call allocates a queue. -/
def allocates : PoolCall → Bool
  | .create _ made _ => made.queue
  | .destroy _ => false

/-- The number of threads that the call creates. -/
def threads : PoolCall → Nat
  | .create n made _ =>
      if made.queue then startedFrom made n.toInt.toNat 0 else 0
  | .destroy _ => 0

/-- The call stores a handle through the `NULL` of a failed `malloc`. -/
def crashes : PoolCall → Bool
  | .create n made _ =>
      made.queue && !made.array && 0 < startedFrom made n.toInt.toNat 0
  | .destroy _ => false

/-- Whether the thread that the call kills in this turn has returned. -/
def returned : PoolCall → Nat → Bool
  | .create _ _ returned => returned
  | .destroy returned => returned

/-- The call kills so many threads and the process stays: on Linux they have
all returned. -/
def Spares (os : Os) (call : PoolCall) (threads : Nat) : Prop :=
  os = .linux → ∀ turn < threads, call.returned turn = true

instance (os : Os) (call : PoolCall) (threads : Nat) :
    Decidable (call.Spares os threads) :=
  inferInstanceAs (Decidable (_ → _))

end PoolCall

inductive PoolStatus where
  | null
  /-- a queue with this many handles -/
  | holding (threads : Nat)
  | destroyed
  deriving DecidableEq, Repr

namespace PoolStatus

/-- What the `destroy_thread_pool` in a call makes of the pointer. -/
def destroy (os : Os) (call : PoolCall) : PoolStatus → Except Halt PoolStatus
  | .null => .ok .null
  | .holding threads =>
      if call.Spares os threads then .ok .destroyed else .error .killed
  | .destroyed => .error .destroyedQueue

def call (os : Os) (status : PoolStatus) (call : PoolCall) :
    Except Halt PoolStatus := do
  let status ← status.destroy os call
  match call with
  | .destroy _ => return status
  | .create _ made _ =>
      if ¬ made.queue then
        return .null
      else if call.crashes then
        throw (.fault .outOfBounds)
      else
        return .holding call.threads

def calls (os : Os) (status : PoolStatus) (sequence : List PoolCall) :
    Except Halt PoolStatus :=
  sequence.foldlM (PoolStatus.call os) status

end PoolStatus

end RemoteCommand
