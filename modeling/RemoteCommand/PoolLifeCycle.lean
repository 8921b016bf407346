import RemoteCommand.ThreadPool

/-!
# The life cycle of the thread pool

Every call does to the pool what it does to its `PoolStatus`, and kills and
frees each handle once.  The pointer is left dangling by a `destroy_thread_pool`
that finds a queue, and only by it.
-/

namespace RemoteCommand

open Machine

namespace Threads

/-! ## Status of a state -/

/-- The queue holds these handles, the oldest first.  A queue without an array
holds none. -/
def Holds (queue : Queue Nat) (threads : List Nat) : Prop :=
  queue.Represents threads ∨ (queue.size = 0 ∧ threads = [])

/-- The books on handles and queues, when these handles are in the pool. -/
structure Accounts (state : Threads) (threads : List Nat) : Prop where
  distinct : (threads ++ state.killed).Nodup
  freed : state.freed.Sublist state.killed
  created : ∀ thread ∈ threads ++ state.killed, thread < state.nextThread
  unused : ∀ pointer, state.nextQueue ≤ pointer → state.queues pointer = none

/-- No handle was killed twice or freed twice. -/
def Sound (state : Threads) : Prop :=
  state.killed.Nodup ∧ state.freed.Nodup

theorem Accounts.sound {state : Threads} {threads : List Nat}
    (accounts : state.Accounts threads) : state.Sound := by
  have killed := (List.nodup_append.1 accounts.distinct).2.1
  exact ⟨killed, accounts.freed.nodup killed⟩

def Shows (state : Threads) : PoolStatus → Prop
  | .null => state.pool = none ∧ state.Accounts []
  | .holding count => ∃ pointer queue threads,
      state.pool = some pointer ∧ state.queues pointer = some queue ∧
        Holds queue threads ∧ threads.length = count ∧ state.Accounts threads
  | .destroyed => ∃ pointer,
      state.pool = some pointer ∧ state.queues pointer = none ∧
        state.Accounts []

theorem Shows.sound {state : Threads} {status : PoolStatus}
    (shows_ : state.Shows status) : state.Sound := by
  cases status with
  | null => exact shows_.2.sound
  | holding count =>
      obtain ⟨_, _, _, _, _, _, _, accounts⟩ := shows_
      exact accounts.sound
  | destroyed =>
      obtain ⟨_, _, _, accounts⟩ := shows_
      exact accounts.sound

/-- The result of a call is the one on the status. -/
def Simulated : Except Halt PoolStatus → Result Threads → Prop
  | .ok status, .ok state => state.Shows status
  | .error halt, .error (stopped, state) => stopped = halt ∧ state.Sound
  | _, _ => False

/-! ## destroy_thread_pool -/

theorem dequeue_nil {queue : Queue Nat} (holds : Holds queue []) :
    queue.dequeue = .ok (none, queue) := by
  rcases holds with holds | ⟨empty, _⟩
  · exact Queue.dequeue_empty holds
  · simp [Queue.dequeue, Queue.isEmpty, empty, pure, Except.pure]

theorem dequeue_cons {queue : Queue Nat} {thread : Nat} {threads : List Nat}
    (holds : Holds queue (thread :: threads)) :
    ∃ next, queue.dequeue = .ok (some thread, next) ∧ Holds next threads := by
  rcases holds with holds | ⟨_, absurd⟩
  · obtain ⟨next, taken, _, rest⟩ := Queue.dequeue_cons holds
    exact ⟨next, taken, .inl rest⟩
  · cases absurd

theorem handles_eq {state : Threads} {pointer : Nat} {queue : Queue Nat}
    {threads : List Nat} (stored : state.queues pointer = some queue)
    (holds : Holds queue threads) : state.handles pointer = threads.length := by
  rcases holds with holds | ⟨empty, rfl⟩
  · simp [handles, stored, holds.size_eq]
  · simp [handles, stored, empty]

theorem onPool_ok {β : Type} {state : Threads} {pointer : Nat}
    {queue next : Queue Nat} {value : β}
    {call : Queue Nat → Except Fault (β × Queue Nat)}
    (pool : state.pool = some pointer)
    (stored : state.queues pointer = some queue)
    (called : call queue = .ok (value, next)) :
    state.onPool call = .ok (value, state.store pointer (some next)) := by
  simp [onPool, pool, stored, called]

/-- Storing a queue where there is one keeps the books. -/
theorem Accounts.store {state : Threads} {threads : List Nat} {pointer : Nat}
    {queue : Queue Nat} (accounts : state.Accounts threads)
    (stored : state.queues pointer = some queue) (next : Option (Queue Nat)) :
    Accounts (state.store pointer next) threads where
  distinct := accounts.distinct
  freed := accounts.freed
  created := accounts.created
  unused := by
    intro other unused
    have different : other ≠ pointer := by
      rintro rfl
      rw [accounts.unused other unused] at stored
      cases stored
    exact (Function.update_of_ne different _ _).trans
      (accounts.unused other unused)

/-- A handle of the pool is killed and freed. -/
theorem Accounts.kill {state : Threads} {thread : Nat} {threads : List Nat}
    (accounts : state.Accounts (thread :: threads)) :
    Accounts { state with
      killed := thread :: state.killed
      freed := thread :: state.freed } threads where
  distinct := (List.perm_middle.nodup_iff).2 accounts.distinct
  freed := accounts.freed.cons_cons thread
  created := by
    intro other member
    exact accounts.created other (List.perm_middle.mem_iff.1 member)
  unused := accounts.unused

/-- Where the process stays, the loop ends behind the last handle. -/
theorem killThreads_spared {os : Os} {returned : Nat → Bool} (index : Nat)
    {state : Threads} {pointer : Nat} {queue : Queue Nat} {threads : List Nat}
    (spared : os = .linux →
      ∀ turn < threads.length, returned (index + turn) = true)
    (pool : state.pool = some pointer)
    (stored : state.queues pointer = some queue) (holds : Holds queue threads)
    (accounts : state.Accounts threads) :
    ∃ after last,
      killThreads os returned (threads.length + 1) index state = .ok after ∧
        after.pool = some pointer ∧ after.queues pointer = some last ∧
          after.Accounts [] := by
  induction threads generalizing index state queue with
  | nil =>
      have taken := onPool_ok pool stored (dequeue_nil holds)
      refine ⟨state.store pointer (some queue), queue, ?_, pool, ?_,
        accounts.store stored (some queue)⟩
      · simp [killThreads, taken, bind, Except.bind, pure, Except.pure]
      · exact store_queues _ _ _
  | cons thread threads inductionHypothesis =>
      obtain ⟨next, dequeued, rest⟩ := dequeue_cons holds
      have taken := onPool_ok pool stored dequeued
      have gone : ¬ (os = .linux ∧ returned index = false) := by
        rintro ⟨linux, alive⟩
        have all : returned index = true :=
          spared linux 0 (Nat.zero_lt_succ _)
        rw [all] at alive
        cases alive
      have sparedNext : os = .linux →
          ∀ turn < threads.length, returned (index + 1 + turn) = true := by
        intro linux turn inside
        rw [Nat.add_assoc, Nat.add_comm 1]
        exact spared linux (turn + 1) (Nat.succ_lt_succ inside)
      obtain ⟨after, last, killed, found⟩ := @inductionHypothesis (index + 1)
        { state.store pointer (some next) with
          killed := thread :: state.killed
          freed := thread :: state.freed }
        next sparedNext pool (store_queues _ _ _) rest
        (accounts.store stored (some next)).kill
      refine ⟨after, last, ?_, found⟩
      rw [List.length_cons, killThreads, taken]
      simpa [bind, Except.bind, gone] using killed

/-- On Linux the first thread that has not returned is the last one killed. -/
theorem killThreads_killed {returned : Nat → Bool} (index : Nat)
    {state : Threads} {pointer : Nat} {queue : Queue Nat} {threads : List Nat}
    (alive : ∃ turn < threads.length, returned (index + turn) ≠ true)
    (pool : state.pool = some pointer)
    (stored : state.queues pointer = some queue) (holds : Holds queue threads)
    (accounts : state.Accounts threads) :
    ∃ after, killThreads .linux returned (threads.length + 1) index state =
        .error (.killed, after) ∧ after.Sound := by
  induction threads generalizing index state queue with
  | nil =>
      obtain ⟨turn, inside, _⟩ := alive
      exact absurd inside (Nat.not_lt_zero turn)
  | cons thread threads inductionHypothesis =>
      obtain ⟨next, dequeued, rest⟩ := dequeue_cons holds
      have taken := onPool_ok pool stored dequeued
      by_cases gone : returned index = true
      · have aliveNext : ∃ turn < threads.length,
            returned (index + 1 + turn) ≠ true := by
          obtain ⟨turn, inside, notReturned⟩ := alive
          cases turn with
          | zero => exact absurd gone notReturned
          | succ turn =>
              refine ⟨turn, Nat.lt_of_succ_lt_succ inside, ?_⟩
              rwa [Nat.add_assoc, Nat.add_comm 1]
        obtain ⟨after, killed, sound⟩ := @inductionHypothesis (index + 1)
          { state.store pointer (some next) with
            killed := thread :: state.killed
            freed := thread :: state.freed }
          next aliveNext pool (store_queues _ _ _) rest
          (accounts.store stored (some next)).kill
        refine ⟨after, ?_, sound⟩
        rw [List.length_cons, killThreads, taken]
        simpa [bind, Except.bind, gone] using killed
      · refine ⟨{ state.store pointer (some next) with
          killed := thread :: state.killed }, ?_, ?_⟩
        · rw [List.length_cons, killThreads, taken]
          simp [bind, Except.bind, gone, throw, throwThe, MonadExceptOf.throw]
        · exact ⟨accounts.kill.sound.1, accounts.sound.2⟩

theorem destroyThreadPool_simulated (os : Os) (call : PoolCall)
    {state : Threads} {status : PoolStatus} (shows_ : state.Shows status) :
    Simulated (status.destroy os call)
      (destroyThreadPool os call.returned state) := by
  cases status with
  | null =>
      simp only [destroyThreadPool, shows_.1]
      exact shows_
  | destroyed =>
      obtain ⟨pointer, pool, gone, accounts⟩ := shows_
      simp [destroyThreadPool, pool, killThreads, onPool, gone, bind,
        Except.bind, PoolStatus.destroy, Simulated, accounts.sound]
  | holding count =>
      obtain ⟨pointer, queue, threads, pool, stored, holds, rfl, accounts⟩ :=
        shows_
      simp only [destroyThreadPool, pool, handles_eq stored holds,
        PoolStatus.destroy]
      by_cases spares : call.Spares os threads.length
      · obtain ⟨after, last, ended, same, kept, books⟩ :=
          @killThreads_spared os call.returned 0 state pointer queue threads
            (by simpa [PoolCall.Spares] using spares) pool stored holds accounts
        rw [if_pos spares, ended]
        exact ⟨pointer, same, store_queues _ _ _, books.store kept none⟩
      · obtain ⟨rfl, alive⟩ : os = .linux ∧
            ∃ turn < threads.length, call.returned (0 + turn) ≠ true := by
          simpa [PoolCall.Spares] using spares
        obtain ⟨after, ended, sound⟩ :=
          killThreads_killed 0 alive pool stored holds accounts
        rw [if_neg spares, ended]
        exact ⟨rfl, sound⟩

/-! ## create_thread_pool -/

/-- A handle that was allocated counts even when it goes nowhere. -/
theorem Accounts.next {state : Threads} {threads : List Nat}
    (accounts : state.Accounts threads) :
    Accounts { state with nextThread := state.nextThread + 1 } threads where
  distinct := accounts.distinct
  freed := accounts.freed
  created thread member := Nat.lt_succ_of_lt (accounts.created thread member)
  unused := accounts.unused

theorem Accounts.add {state : Threads} {threads : List Nat}
    (accounts : state.Accounts threads) :
    Accounts { state with nextThread := state.nextThread + 1 }
      (threads ++ [state.nextThread]) := by
  have moved : (threads ++ [state.nextThread] ++ state.killed).Perm
      (state.nextThread :: (threads ++ state.killed)) := by
    rw [List.append_assoc]
    exact List.perm_middle
  have unknown : state.nextThread ∉ threads ++ state.killed := fun member =>
    Nat.lt_irrefl _ (accounts.created _ member)
  refine ⟨moved.nodup_iff.2 (List.nodup_cons.2 ⟨unknown, accounts.distinct⟩),
    accounts.freed, ?_, accounts.unused⟩
  intro thread member
  rcases List.mem_cons.1 (moved.mem_iff.1 member) with rfl | known
  · exact Nat.lt_succ_self _
  · exact Nat.lt_succ_of_lt (accounts.created thread known)

/-- The loop puts the threads that it creates in the queue. -/
theorem addThreads_holding (made : Creation) (turns index : Nat)
    {state : Threads} {pointer : Nat} {queue : Queue Nat} {threads : List Nat}
    (pool : state.pool = some pointer)
    (stored : state.queues pointer = some queue)
    (holds : queue.Represents threads)
    (room : threads.length + turns ≤ queue.capacity)
    (accounts : state.Accounts threads) :
    ∃ ret after, addThreads made turns index state = .ok (ret, after) ∧
      after.Shows (.holding
        (threads.length + PoolCall.startedFrom made turns index)) := by
  induction turns generalizing index state queue threads with
  | zero =>
      exact ⟨ok, state, rfl, pointer, queue, threads, pool, stored, .inl holds,
        rfl, accounts⟩
  | succ turns inductionHypothesis =>
      by_cases allocated : made.thread index
      swap
      · refine ⟨intErr, state, ?_, pointer, queue, threads, pool, stored,
          .inl holds, ?_, accounts⟩
        · simp [addThreads, allocated, pure, Except.pure]
        · simp [PoolCall.startedFrom, allocated]
      by_cases started : made.started index
      swap
      · refine ⟨intErr, { state with nextThread := state.nextThread + 1 }, ?_,
          pointer, queue, threads, pool, stored, .inl holds, ?_,
          accounts.next⟩
        · simp [addThreads, allocated, started, pure, Except.pure]
        · simp [PoolCall.startedFrom, started]
      let counted : Threads :=
        { state with nextThread := state.nextThread + 1 }
      obtain ⟨next, enqueued, sameCapacity, holdsNext⟩ :=
        Queue.enqueue_room holds (by omega) state.nextThread
      have put := @onPool_ok Int counted pointer queue next 0
        (fun queue => queue.enqueue state.nextThread) pool stored enqueued
      obtain ⟨ret, after, added, shows_⟩ := @inductionHypothesis (index + 1)
        (counted.store pointer (some next)) next
        (threads ++ [state.nextThread]) pool (store_queues _ _ _) holdsNext
        (by simp only [List.length_append, List.length_singleton]; omega)
        (Accounts.store accounts.add stored (some next))
      refine ⟨ret, after, ?_, ?_⟩
      · rw [← added]
        simp only [addThreads, allocated, started, not_true, if_false]
        rw [put]
        simp [bind, Except.bind, counted]
      · rw [List.length_append, List.length_singleton, Nat.add_assoc,
          Nat.add_comm 1] at shows_
        simpa [PoolCall.startedFrom, allocated, started] using shows_

/-- Without an array the first handle crashes the process. -/
theorem addThreads_noArray (made : Creation) {turns : Nat}
    {state : Threads} {pointer capacity : Nat}
    (pool : state.pool = some pointer)
    (stored : state.queues pointer = some (allocateQueue capacity false))
    (fits : (capacity : Int) ≤ intMax) (enough : turns ≤ capacity)
    (accounts : state.Accounts []) :
    Simulated
      (if 0 < PoolCall.startedFrom made turns 0 then
        .error (.fault .outOfBounds)
      else
        .ok (.holding 0))
      ((addThreads made turns 0 state).bind fun result => .ok result.2) := by
  have empty : Holds (allocateQueue capacity false) [] := .inr ⟨rfl, rfl⟩
  have shown {state : Threads} (pool : state.pool = some pointer)
      (stored : state.queues pointer = some (allocateQueue capacity false))
      (accounts : state.Accounts []) : state.Shows (.holding 0) :=
    ⟨pointer, _, [], pool, stored, empty, rfl, accounts⟩
  cases turns with
  | zero => exact shown pool stored accounts
  | succ turns =>
  by_cases allocated : made.thread 0
  swap
  · simpa [addThreads, PoolCall.startedFrom, allocated, pure, Except.pure,
      Except.bind, Simulated] using shown pool stored accounts
  by_cases started : made.started 0
  swap
  · simpa [addThreads, PoolCall.startedFrom, allocated, started, pure,
      Except.pure, Except.bind, Simulated] using
      @shown { state with nextThread := state.nextThread + 1 } pool stored
        accounts.next
  have positive : 0 < capacity := by omega
  have rear : (allocateQueue capacity false).rear = (capacity - 1 : Nat) := by
    have wrapped : subUnsigned capacity 1 = capacity - 1 := by
      unfold subUnsigned
      unfold intMax at fits
      omega
    simp only [allocateQueue, Queue.createQueue, Bool.false_eq_true, if_false,
      wrapped]
    exact ofUnsigned_of_le (by omega)
  have full : (allocateQueue capacity false).isFull = false := by
    simp [allocateQueue, Queue.createQueue, Queue.isFull, toUnsigned]
    omega
  have faults (thread : Nat) : (allocateQueue capacity false).enqueue thread =
      .error .outOfBounds := by
    have moved : Queue.nextIndex (allocateQueue capacity false).rear capacity =
        .ok ((capacity - 1 + 1) % capacity : Nat) := by
      rw [rear]
      exact Queue.nextIndex_ok fits (by omega)
    have sameCapacity : (allocateQueue capacity false).capacity = capacity := rfl
    have noCell : (allocateQueue capacity false).array.length = 0 := rfl
    have refused (index : Nat) : (allocateQueue capacity false).array.write
        index thread = .error .outOfBounds :=
      if_neg (by omega)
    rw [Queue.enqueue, full, if_neg (by decide), sameCapacity, moved]
    simp only [bind, Except.bind, refused]
  simp [addThreads, PoolCall.startedFrom, allocated, started, onPool, pool,
    stored, faults, bind, Except.bind, Simulated, Sound, accounts.sound.1,
    accounts.sound.2]

/-- A pool of as many threads as an `int` can say has room for them. -/
theorem toNat_of_toInt_pos {n : BitVec 32} (positive : 0 < n.toInt) :
    n.toInt.toNat = n.toNat ∧ (n.toNat : Int) ≤ intMax := by
  have cases_ := BitVec.toInt_eq_toNat_cond n
  have bound := n.isLt
  unfold intMax
  split at cases_ <;> omega

/-- The books after a queue was allocated. -/
theorem Accounts.allocate {state : Threads} (accounts : state.Accounts [])
    (queue : Queue Nat) :
    Accounts (state.withPool queue) [] where
  distinct := accounts.distinct
  freed := accounts.freed
  created := accounts.created
  unused := by
    intro pointer unused
    have different : pointer ≠ state.nextQueue := Nat.ne_of_gt unused
    exact (Function.update_of_ne different _ _).trans
      (accounts.unused pointer (Nat.le_of_lt unused))

/-- After the old pool is gone its handles are, whatever the pointer is. -/
theorem Shows.afterDestroy {os : Os} {call : PoolCall}
    {status next : PoolStatus} (destroyed : status.destroy os call = .ok next) {state : Threads}
    (shows_ : state.Shows next) : state.Accounts [] := by
  cases status with
  | null =>
      cases destroyed
      exact shows_.2
  | destroyed => cases destroyed
  | holding count =>
      rw [PoolStatus.destroy] at destroyed
      split at destroyed
      · cases destroyed
        obtain ⟨_, _, _, accounts⟩ := shows_
        exact accounts
      · cases destroyed

theorem Simulated.bind {status : Except Halt PoolStatus}
    {result : Result Threads} {f : PoolStatus → Except Halt PoolStatus}
    {g : Threads → Result Threads} (first : Simulated status result)
    (rest : ∀ next after, status = .ok next → after.Shows next →
      Simulated (f next) (g after)) :
    Simulated (status.bind f) (result.bind g) := by
  cases status with
  | error halt =>
      cases result with
      | ok after => exact first.elim
      | error stopped => exact first
  | ok next =>
      cases result with
      | ok after => exact rest next after rfl first
      | error stopped => exact first.elim

/-- The loop on a pool that was just allocated. -/
theorem addThreads_simulated (n : BitVec 32) (made : Creation)
    (returned : Nat → Bool) (allocated : made.queue) {state : Threads} (accounts : state.Accounts []) :
    Simulated
      (if (PoolCall.create n made returned).crashes then
        .error (.fault .outOfBounds)
      else
        .ok (.holding (PoolCall.create n made returned).threads))
      ((addThreads made n.toInt.toNat 0
        (state.withPool (allocateQueue n.toNat made.array))).bind
          fun result => .ok result.2) := by
  have books := accounts.allocate (allocateQueue n.toNat made.array)
  have stored : (state.withPool (allocateQueue n.toNat made.array)).queues
      state.nextQueue = some (allocateQueue n.toNat made.array) :=
    store_queues _ _ _
  simp only [PoolCall.crashes, PoolCall.threads, allocated, Bool.true_and,
    if_true]
  by_cases positive : 0 < n.toInt
  swap
  · have none : n.toInt.toNat = 0 := by omega
    have size : (allocateQueue n.toNat made.array).size = 0 := by
      unfold allocateQueue
      split <;> rfl
    have shown : (state.withPool (allocateQueue n.toNat made.array)).Shows
        (.holding 0) :=
      ⟨_, _, [], rfl, stored, .inr ⟨size, rfl⟩, rfl, books⟩
    rw [none]
    simpa [PoolCall.startedFrom, addThreads, pure, Except.pure, Except.bind,
      Simulated] using shown
  obtain ⟨count, fits⟩ := toNat_of_toInt_pos positive
  cases array : made.array with
  | false =>
      rw [array] at books stored
      have simulated := addThreads_noArray made rfl stored fits
        (Nat.le_of_eq count) books
      by_cases started : 0 < PoolCall.startedFrom made n.toInt.toNat 0
      · simpa [started] using simulated
      · simpa [Nat.eq_zero_of_not_pos started] using simulated
  | true =>
      rw [array] at books stored
      have holds : (allocateQueue n.toNat true).Represents [] :=
        Queue.createQueue_represents fits fun _ => none
      obtain ⟨ret, after, added, shown⟩ := addThreads_holding made
        n.toInt.toNat 0 rfl stored holds (by
          rw [List.length_nil, Nat.zero_add]
          exact Nat.le_of_eq count) books
      rw [added]
      simpa [Except.bind, Simulated] using shown

theorem createThreadPool_simulated (os : Os) (n : BitVec 32)
    (made : Creation) (returned : Nat → Bool) {state : Threads}
    {status : PoolStatus} (shows_ : state.Shows status) :
    Simulated (status.call os (.create n made returned))
      (state.call os (.create n made returned)) := by
  have first :=
    destroyThreadPool_simulated os (.create n made returned) shows_
  have created : state.call os (.create n made returned) =
      (destroyThreadPool os returned state).bind fun state =>
        if ¬ made.queue then
          .ok { state with pool := none }
        else
          (addThreads made n.toInt.toNat 0
            (state.withPool (allocateQueue n.toNat made.array))).bind
            fun result => .ok result.2 := by
    unfold call createThreadPool
    dsimp only
    cases destroyThreadPool os returned state with
    | error stopped => rfl
    | ok after =>
        by_cases allocated : made.queue <;>
          simp [allocated, bind, Except.bind, pure, Except.pure]
  rw [created]
  refine first.bind fun next after destroyed shown => ?_
  have accounts := shown.afterDestroy destroyed
  by_cases allocated : made.queue
  · simp only [allocated, not_true, if_false]
    exact addThreads_simulated n made returned allocated accounts
  · simp only [allocated]
    exact ⟨rfl, accounts.distinct, accounts.freed, accounts.created,
      accounts.unused⟩

theorem call_simulated (os : Os) (call : PoolCall) {state : Threads}
    {status : PoolStatus} (shows_ : state.Shows status) :
    Simulated (status.call os call) (state.call os call) := by
  cases call with
  | create n made returned =>
      exact createThreadPool_simulated os n made returned shows_
  | destroy returned =>
      have same : status.call os (.destroy returned) =
          status.destroy os (.destroy returned) := by
        unfold PoolStatus.call
        cases status.destroy os (.destroy returned) <;> rfl
      rw [same]
      exact destroyThreadPool_simulated os (.destroy returned) shows_

/-- Every sequence of calls does to the pool what it does to its status. -/
theorem calls_simulated (os : Os) (sequence : List PoolCall) {state : Threads}
    {status : PoolStatus} (shows_ : state.Shows status) :
    Simulated (status.calls os sequence) (state.calls os sequence) := by
  induction sequence generalizing state status with
  | nil => exact shows_
  | cons call sequence inductionHypothesis =>
      exact (call_simulated os call shows_).bind fun next after _ shown =>
        inductionHypothesis shown

theorem start_shows : start.Shows .null :=
  ⟨rfl, by simp [start], by simp [start], by simp [start], fun _ _ => rfl⟩

end Threads

/-! ## Which sequences leave the pointer dangling -/

/-- No call of the sequence ends the process: none crashes, and on Linux all
threads of a pool have returned when the next call kills them. -/
def Lasts (os : Os) (sequence : List PoolCall) : Prop :=
  (∀ call ∈ sequence, call.crashes = false) ∧
    ∀ before call next after,
      sequence = before ++ call :: next :: after →
        next.Spares os call.threads

/-- When a call follows a `destroy_thread_pool` that comes right after a
`create_thread_pool` that has allocated a queue, the process has ended before. -/
def NoCallAfterDestroy (os : Os) (sequence : List PoolCall) : Prop :=
  ∀ before create returned next after,
    sequence = before ++ create :: .destroy returned :: next :: after →
      create.allocates = true →
        ¬ Lasts os (before ++ [create, .destroy returned])

namespace PoolStatus

/-- What a call that does not end the process makes of the pointer. -/
def after : PoolStatus → PoolCall → PoolStatus
  | .null, .destroy _ => .null
  | _, .destroy _ => .destroyed
  | _, call => if call.allocates then .holding call.threads else .null

/-- A thread of the pool ends the process when the call kills it. -/
def lethal (os : Os) (call : PoolCall) : PoolStatus → Bool
  | .holding threads => ¬ call.Spares os threads
  | _ => false

theorem call_eq (os : Os) (status : PoolStatus) (call : PoolCall) :
    status.call os call =
      if status = .destroyed then .error .destroyedQueue
      else if status.lethal os call then .error .killed
      else if call.crashes then .error (.fault .outOfBounds)
      else .ok (status.after call) := by
  have creates (n : BitVec 32) (made : Creation) (returned : Nat → Bool) :
      (if ¬ made.queue then pure .null
        else if (PoolCall.create n made returned).crashes then
          throw (.fault .outOfBounds)
        else pure (.holding (PoolCall.create n made returned).threads) :
          Except Halt PoolStatus) =
        if (PoolCall.create n made returned).crashes then
          .error (.fault .outOfBounds)
        else .ok (if (PoolCall.create n made returned).allocates then
          .holding (PoolCall.create n made returned).threads else .null) := by
    cases allocated : made.queue
    · simp [PoolCall.crashes, PoolCall.allocates, allocated, pure, Except.pure]
    · simp [PoolCall.allocates, allocated, pure, Except.pure, throw,
        throwThe, MonadExceptOf.throw]
  cases status with
  | null =>
      cases call with
      | destroy returned => rfl
      | create n made returned =>
          simpa [PoolStatus.call, destroy, lethal, after, bind, Except.bind]
            using creates n made returned
  | destroyed => rfl
  | holding threads =>
      by_cases spares : call.Spares os threads
      · cases call with
        | destroy returned =>
            simp [PoolStatus.call, destroy, lethal, spares, bind, Except.bind,
              pure, Except.pure, after, PoolCall.crashes]
        | create n made returned =>
            simpa [PoolStatus.call, destroy, lethal, spares, after, bind,
              Except.bind] using creates n made returned
      · simp [PoolStatus.call, destroy, lethal, spares, bind, Except.bind]

theorem lethal_after (os : Os) (status : PoolStatus) (call next : PoolCall) :
    (status.after call).lethal os next = true ↔
      ¬ next.Spares os call.threads := by
  have none : next.Spares os 0 := fun _ turn inside =>
    absurd inside (Nat.not_lt_zero turn)
  cases call with
  | destroy returned =>
      cases status <;> simp [after, lethal, PoolCall.threads, none]
  | create n made returned =>
      have same : status.after (.create n made returned) =
          if (PoolCall.create n made returned).allocates then
            .holding (PoolCall.create n made returned).threads else .null := by
        cases status <;> rfl
      rw [same]
      by_cases allocated : made.queue
      · simp [PoolCall.allocates, allocated, lethal]
      · simp [PoolCall.allocates, PoolCall.threads, allocated, lethal, none]

variable {os : Os} {sequence : List PoolCall} {status : PoolStatus}

theorem calls_concat (os : Os) (sequence : List PoolCall) (call : PoolCall) :
    calls os .null (sequence ++ [call]) =
      (calls os .null sequence).bind fun status => status.call os call := by
  unfold calls
  rw [List.foldlM_append]
  cases List.foldlM (PoolStatus.call os) null sequence with
  | error halt => rfl
  | ok status =>
      cases called : status.call os call <;>
        simp [bind, Except.bind, called, pure, Except.pure]

/-- The last call of a sequence that did not end the process. -/
theorem calls_ok_cases (ran : calls os .null sequence = .ok status) :
    (sequence = [] ∧ status = .null) ∨
      ∃ before last prior, sequence = before ++ [last] ∧
        calls os .null before = .ok prior ∧ prior ≠ .destroyed ∧
          prior.lethal os last = false ∧ last.crashes = false ∧
            status = prior.after last := by
  rcases sequence.eq_nil_or_concat' with rfl | ⟨before, last, rfl⟩
  · cases ran
    exact .inl ⟨rfl, rfl⟩
  · rw [calls_concat] at ran
    cases first : calls os .null before with
    | error halt => simp [first, Except.bind] at ran
    | ok prior =>
        simp only [first, Except.bind, call_eq] at ran
        split at ran
        · cases ran
        split at ran
        · cases ran
        split at ran
        · cases ran
        rename_i notDestroyed harmless safe
        cases ran
        exact .inr ⟨before, last, prior, rfl, first, notDestroyed,
          by simpa using harmless, by simpa using safe, rfl⟩

/-- The status shows the threads that the last call has created. -/
theorem threads_of_lethal {before : List PoolCall} {last next : PoolCall}
    (ran : calls os .null (before ++ [last]) = .ok status) :
    status.lethal os next = true ↔ ¬ next.Spares os last.threads := by
  rcases calls_ok_cases ran with ⟨absurd, _⟩ | found
  · simp at absurd
  · obtain ⟨_, _, prior, same, _, _, _, _, rfl⟩ := found
    obtain ⟨-, same⟩ := List.append_inj' same rfl
    cases same
    exact lethal_after os prior last next

/-- A destroyed queue is what `destroy_thread_pool` leaves of a queue that the
call before it has allocated. -/
theorem destroyed_cases (ran : calls os .null sequence = .ok .destroyed) :
    ∃ before create returned, sequence = before ++ [create, .destroy returned] ∧
      create.allocates = true := by
  rcases calls_ok_cases ran with ⟨_, absurd⟩ | found
  · cases absurd
  obtain ⟨before, last, prior, rfl, first, notDestroyed, _, _, same⟩ := found
  cases last with
  | create n made returned =>
      cases allocated : made.queue <;> cases prior <;>
        simp [after, PoolCall.allocates, allocated] at same
  | destroy returned =>
  cases prior with
  | null => cases same
  | destroyed => exact absurd rfl notDestroyed
  | holding threads =>
  rcases calls_ok_cases first with ⟨_, absurd⟩ | found
  · cases absurd
  obtain ⟨before, create, prior, rfl, _, _, _, _, same⟩ := found
  refine ⟨before, create, returned, by simp, ?_⟩
  cases create with
  | destroy => cases prior <;> cases same
  | create n made =>
      cases allocated : made.queue
      · cases prior <;> simp [after, PoolCall.allocates, allocated] at same
      · exact allocated

theorem destroyed_of_allocates {before : List PoolCall} {create : PoolCall}
    {returned : Nat → Bool} (allocates : create.allocates = true)
    (ran : calls os .null (before ++ [create, .destroy returned]) =
      .ok status) :
    status = .destroyed := by
  rw [show before ++ [create, .destroy returned] =
    (before ++ [create]) ++ [.destroy returned] by simp] at ran
  rcases calls_ok_cases ran with ⟨absurd, _⟩ | found
  · simp at absurd
  obtain ⟨_, _, prior, same, first, _, _, _, rfl⟩ := found
  obtain ⟨rfl, sameLast⟩ := List.append_inj' same rfl
  cases sameLast
  rcases calls_ok_cases first with ⟨absurd, _⟩ | found
  · simp at absurd
  obtain ⟨_, _, earlier, same, _, _, _, _, rfl⟩ := found
  obtain ⟨_, sameLast⟩ := List.append_inj' same rfl
  cases sameLast
  cases create with
  | destroy => cases allocates
  | create n made =>
      have allocated : made.queue = true := allocates
      cases earlier <;> simp [after, PoolCall.allocates, allocated]

end PoolStatus

theorem lasts_concat_iff (os : Os) (sequence : List PoolCall)
    (call : PoolCall) :
    Lasts os (sequence ++ [call]) ↔
      Lasts os sequence ∧ call.crashes = false ∧
        ∀ before last, sequence = before ++ [last] →
          call.Spares os last.threads := by
  constructor
  · rintro ⟨safe, spared⟩
    refine ⟨⟨fun other member => safe other (by simp [member]), ?_⟩,
      safe call (by simp), ?_⟩
    · rintro before other next after rfl
      exact spared before other next (after ++ [call]) (by simp)
    · rintro before last rfl
      exact spared before last call [] (by simp)
  · rintro ⟨⟨safe, spared⟩, harmless, last⟩
    refine ⟨?_, ?_⟩
    · intro other member
      rcases List.mem_append.1 member with early | late
      · exact safe other early
      · rw [List.mem_singleton.1 late]
        exact harmless
    · intro before other next after same
      rcases after.eq_nil_or_concat' with rfl | ⟨middle, final, rfl⟩
      · have split : sequence ++ [call] = (before ++ [other]) ++ [next] := by
          simpa using same
        obtain ⟨early, late⟩ := List.append_inj' split rfl
        cases late
        exact last before other early
      · have split : sequence ++ [call] =
            (before ++ other :: next :: middle) ++ [final] := by
          simpa using same
        exact spared before other next middle
          (List.append_inj' split rfl).1

theorem lasts_of_ok {os : Os} {sequence : List PoolCall} {status : PoolStatus}
    (ran : PoolStatus.calls os .null sequence = .ok status) :
    Lasts os sequence := by
  induction sequence using List.reverseRecOn generalizing status with
  | nil => exact ⟨by simp, by simp⟩
  | append_singleton sequence call inductionHypothesis =>
      rcases PoolStatus.calls_ok_cases ran with ⟨absurd, _⟩ | found
      · simp at absurd
      obtain ⟨before, last, prior, same, first, _, harmless, safe, _⟩ := found
      obtain ⟨rfl, sameLast⟩ := List.append_inj' same rfl
      cases sameLast
      refine (lasts_concat_iff _ _ _).2 ⟨inductionHypothesis first, safe, ?_⟩
      rintro before last rfl
      have lethal := @PoolStatus.threads_of_lethal os prior before last call first
      rw [harmless] at lethal
      simpa using lethal

/-- What can end the process of a sequence that lasts. -/
theorem halt_of_lasts {os : Os} {sequence : List PoolCall} {halt : Halt}
    (lasts : Lasts os sequence)
    (ran : PoolStatus.calls os .null sequence = .error halt) :
    halt = .destroyedQueue := by
  induction sequence using List.reverseRecOn generalizing halt with
  | nil => cases ran
  | append_singleton sequence call inductionHypothesis =>
      obtain ⟨early, safe, spared⟩ := (lasts_concat_iff _ _ _).1 lasts
      rw [PoolStatus.calls_concat] at ran
      cases first : PoolStatus.calls os .null sequence with
      | error other =>
          rw [first] at ran
          cases ran
          exact inductionHypothesis early first
      | ok prior =>
      simp only [first, Except.bind, PoolStatus.call_eq, safe] at ran
      split at ran
      · cases ran
        rfl
      split at ran
      · have lethal : prior.lethal os call = true := ‹_›
        rcases sequence.eq_nil_or_concat' with rfl | ⟨before, last, rfl⟩
        · cases first
          cases lethal
        · exact absurd (spared before last rfl)
            ((PoolStatus.threads_of_lethal first).1 lethal)
      · cases ran

/-- The first use of a destroyed queue. -/
theorem destroyed_of_used {os : Os} {sequence : List PoolCall}
    (ran : PoolStatus.calls os .null sequence = .error .destroyedQueue) :
    ∃ before next after, sequence = before ++ next :: after ∧
      PoolStatus.calls os .null before = .ok .destroyed := by
  induction sequence using List.reverseRecOn with
  | nil => cases ran
  | append_singleton sequence call inductionHypothesis =>
      rw [PoolStatus.calls_concat] at ran
      cases first : PoolStatus.calls os .null sequence with
      | error halt =>
          rw [first] at ran
          cases ran
          obtain ⟨before, next, after, rfl, reached⟩ :=
            inductionHypothesis first
          exact ⟨before, next, after ++ [call], by simp, reached⟩
      | ok prior =>
          simp only [first, Except.bind, PoolStatus.call_eq] at ran
          split at ran
          · rename_i destroyed
            exact ⟨sequence, call, [], rfl, by rw [first, destroyed]⟩
          split at ran
          · cases ran
          split at ran <;> cases ran

/-! ## The life cycle -/

namespace Threads

/-- The pool is `NULL` or refers to a queue that was not destroyed. -/
def Valid (state : Threads) : Prop :=
  ∀ pointer, state.pool = some pointer → state.queues pointer ≠ none

theorem Shows.valid_iff {state : Threads} {status : PoolStatus}
    (shows_ : state.Shows status) : state.Valid ↔ status ≠ .destroyed := by
  cases status with
  | null => simp [Valid, shows_.1]
  | holding count =>
      obtain ⟨pointer, queue, threads, pool, stored, _⟩ := shows_
      simp [Valid, pool, stored]
  | destroyed =>
      obtain ⟨pointer, pool, gone, _⟩ := shows_
      simp [Valid, pool, gone]

end Threads

/-- At the start of each call the pool is valid, no call uses a destroyed
queue, and no handle is killed or freed twice. -/
structure LifeCycle (os : Os) (sequence : List PoolCall) : Prop where
  valid : ∀ before call after state,
    sequence = before ++ call :: after →
      Threads.start.calls os before = .ok state → state.Valid
  unused : ∀ state,
    Threads.start.calls os sequence ≠ .error (.destroyedQueue, state)
  once : ∀ state, (Threads.start.calls os sequence = .ok state ∨
    ∃ halt, Threads.start.calls os sequence = .error (halt, state)) →
      state.Sound

theorem calls_ok {os : Os} {sequence : List PoolCall} {state : Threads}
    (ran : Threads.start.calls os sequence = .ok state) :
    ∃ status, PoolStatus.calls os .null sequence = .ok status ∧
      state.Shows status := by
  have simulated := Threads.calls_simulated os sequence Threads.start_shows
  rw [ran] at simulated
  cases reached : PoolStatus.calls os .null sequence with
  | error halt => simp [reached, Threads.Simulated] at simulated
  | ok status =>
      rw [reached] at simulated
      exact ⟨status, rfl, simulated⟩

theorem calls_error {os : Os} {sequence : List PoolCall} {state : Threads}
    {halt : Halt}
    (ran : Threads.start.calls os sequence = .error (halt, state)) :
    PoolStatus.calls os .null sequence = .error halt ∧ state.Sound := by
  have simulated := Threads.calls_simulated os sequence Threads.start_shows
  rw [ran] at simulated
  cases reached : PoolStatus.calls os .null sequence with
  | ok status => simp [reached, Threads.Simulated] at simulated
  | error other =>
      rw [reached] at simulated
      obtain ⟨rfl, sound⟩ := simulated
      exact ⟨rfl, sound⟩

/-- The life cycle is kept exactly by the sequences in which nothing is called
after a queue was destroyed. -/
theorem lifeCycle_iff (os : Os) (sequence : List PoolCall) :
    LifeCycle os sequence ↔ NoCallAfterDestroy os sequence := by
  constructor
  · rintro lifeCycle before create returned next after rfl allocates lasts
    have reached : ∃ state, Threads.start.calls os
        (before ++ [create, .destroy returned]) = .ok state := by
      cases ran : Threads.start.calls os
          (before ++ [create, .destroy returned]) with
      | ok state => exact ⟨state, rfl⟩
      | error ended =>
          obtain ⟨halt, state⟩ := ended
          have used := halt_of_lasts lasts (calls_error ran).1
          have split : before ++ create :: .destroy returned :: next :: after =
              (before ++ [create, .destroy returned]) ++ (next :: after) := by
            simp
          have final : Threads.start.calls os
              (before ++ create :: .destroy returned :: next :: after) =
                .error (halt, state) := by
            rw [split, Threads.calls, List.foldlM_append]
            rw [Threads.calls] at ran
            rw [ran]
            rfl
          rw [used] at final
          exact absurd final (lifeCycle.unused state)
    obtain ⟨state, ran⟩ := reached
    obtain ⟨status, status_ran, shows_⟩ := calls_ok ran
    have valid := lifeCycle.valid (before ++ [create, .destroy returned]) next
      after state (by simp) ran
    exact shows_.valid_iff.1 valid
      (PoolStatus.destroyed_of_allocates allocates status_ran)
  · intro nothing
    have never {before after : List PoolCall} {next : PoolCall}
        (same : sequence = before ++ next :: after) :
        PoolStatus.calls os .null before ≠ .ok .destroyed := by
      intro destroyed
      obtain ⟨earlier, create, returned, rfl, allocates⟩ :=
        PoolStatus.destroyed_cases destroyed
      exact nothing earlier create returned next after (by simpa using same)
        allocates (lasts_of_ok destroyed)
    refine ⟨?valid, ?unused, ?once⟩
    case valid =>
      intro before call after state same ran
      obtain ⟨status, reached, shows_⟩ := calls_ok ran
      refine shows_.valid_iff.2 ?_
      rintro rfl
      exact never same reached
    case unused =>
      intro state ran
      obtain ⟨before, next, after, same, reached⟩ :=
        destroyed_of_used (calls_error ran).1
      exact never same reached
    case once =>
      rintro state (ran | ⟨halt, ran⟩)
      · obtain ⟨status, _, shows_⟩ := calls_ok ran
        exact shows_.sound
      · exact (calls_error ran).2

/-- The one thread of the pool has returned when `destroy_thread_pool` kills it,
and the next `create_thread_pool` finds the pool that is left.  The same happens
when the thread could not be created. -/
theorem lifeCycle_broken :
    ¬ LifeCycle .linux
        [.create 1 ⟨true, true, fun _ => true, fun _ => true⟩ fun _ => false,
          .destroy fun _ => true,
          .create 1 ⟨true, true, fun _ => true, fun _ => true⟩ fun _ => false] ∧
      ¬ LifeCycle .linux
        [.create 1 ⟨true, true, fun _ => true, fun _ => false⟩ fun _ => false,
          .destroy fun _ => false, .destroy fun _ => false] := by
  constructor
  · intro kept
    exact kept.valid [_, _] _ [] _ rfl rfl 0 rfl rfl
  · intro kept
    exact kept.valid [_, _] _ [] _ rfl rfl 0 rfl rfl

end RemoteCommand
