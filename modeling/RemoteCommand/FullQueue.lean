import RemoteCommand.ServeCycle

/-!
# The acceptor waiting for room

When the queue is full the acceptor sleeps and retries `enqueue` without
leaving the critical section, which the workers need in order to make room.
A state is stalled when the acceptor retries and some worker has passed
`wait_semaphore`: no sequence of worker steps dequeues anything from there.
A run stays clear of such states exactly when no first attempt on a full queue
is made with a worker on its way, and no worker passes `wait_semaphore` while
the acceptor retries.
-/

namespace RemoteCommand.Cycle

open Machine Transition

variable {n : Nat}

/-- The acceptor found the queue full and waits for room. -/
def Retrying (state : Cycle n) : Prop :=
  ∃ record, state.acceptor = .retry record

/-- The steps of the workers alone. -/
def workers (n : Nat) : System (Cycle n) (Action n) where
  step state action :=
    match action with
    | .waitSemaphore _ | .enterCs _ | .dequeue _ | .leaveCs _ | .finish _
    | .exit _ => state.step action
    | _ => none

/-- Some sequence of worker steps dequeues a connection. -/
def CanMakeRoom (state : Cycle n) : Prop :=
  ∃ actions final, (workers n).run state actions = some final ∧
    state.taken.length < final.taken.length

/-- If the acceptor waits for room and a worker is on its way to take a
connection, the workers can make room. -/
def RoomComes (state : Cycle n) : Prop :=
  state.Retrying → 0 < state.passed → state.CanMakeRoom

/-- The condition on a step: see the module's text. -/
def KeepsClear (state : Cycle n) : Action n → Prop
  | .enqueue => (∃ record, state.acceptor = .enqueue record) →
      state.connections.isFull = true → state.passed = 0
  | .waitSemaphore _ => ¬ state.Retrying
  | _ => True

/-- The acceptor holds the critical section and `taken` has been dequeued. -/
def Blocked (taken : List (Fin n × Nat)) (state : Cycle n) : Prop :=
  Exclusive state.inside state.holder ∧ state.holder = some .acceptor ∧
    state.taken = taken

/-- Worker steps neither free the critical section nor dequeue. -/
theorem workers_blocked {taken : List (Fin n × Nat)} {state next : Cycle n}
    {action : Action n} (blocked : Blocked taken state)
    (stepped : (workers n).step state action = some next) :
    Blocked taken next := by
  obtain ⟨exclusive, held, same⟩ := blocked
  have notInside : ∀ index, (state.worker index).inside ≠ true := by
    intro index inside
    have holder := (exclusive (.worker index)).mp inside
    rw [held] at holder
    cases holder
  have moves : ∀ (index : Fin n) (pc : WorkerPc), pc.inside = false →
      Exclusive (state.setWorker index pc).inside state.holder := by
    intro index pc outside
    refine exclusive.keep (inside_setWorker_other state index pc) ?_
    have was : state.inside (.worker index) = false :=
      Bool.eq_false_iff.mpr (notInside index)
    rw [was]
    simpa only [inside, setWorker_self] using outside
  have stepped : state.step action = some next := by
    cases action <;> first | exact stepped | cases stepped
  cases step_cases stepped with
  | waitSemaphore guard available => exact ⟨moves _ _ rfl, held, same⟩
  | enterCs guard free =>
      rw [held] at free
      cases free
  | @dequeue index record connections guard took =>
      exact absurd (by rw [guard]; rfl) (notInside index)
  | @dequeueNull index connections guard took =>
      exact absurd (by rw [guard]; rfl) (notInside index)
  | @leaveCs index record guard =>
      exact absurd (by rw [guard]; rfl) (notInside index)
  | finish guard => exact ⟨moves _ _ rfl, held, same⟩
  | exit guard => exact ⟨moves _ _ rfl, held, same⟩
  | _ => cases ‹(workers n).step state _ = some _›

/-- While the acceptor waits for room, the workers cannot make any. -/
theorem not_canMakeRoom {state : Cycle n} (holds : state.Invariant)
    (retrying : state.Retrying) : ¬ state.CanMakeRoom := by
  rintro ⟨actions, final, ran, more⟩
  obtain ⟨queued, holds⟩ := holds
  obtain ⟨record, asleep⟩ := retrying
  have acceptorInside : state.inside .acceptor = true := by
    simp only [inside, asleep]
    rfl
  have initial : Blocked state.taken state :=
    ⟨holds.exclusive, (holds.exclusive .acceptor).mp acceptorInside, rfl⟩
  have blocked :=
    (workers n).run_invariant workers_blocked actions initial ran
  rw [blocked.2.2] at more
  exact Nat.lt_irrefl _ more

/-- So room comes exactly where it is not needed. -/
theorem roomComes_iff {state : Cycle n} (holds : state.Invariant) :
    state.RoomComes ↔ (state.Retrying → state.passed = 0) := by
  constructor
  · intro comes retrying
    by_contra some_passed
    exact not_canMakeRoom holds retrying
      (comes retrying (Nat.pos_of_ne_zero some_passed))
  · intro clear retrying somePassed
    rw [clear retrying] at somePassed
    exact absurd somePassed (Nat.lt_irrefl 0)

/-- Moving a worker that has not just passed `wait_semaphore` brings no new
one on its way. -/
theorem passed_setWorker_eq_zero {state : Cycle n} {index : Fin n}
    {pc : WorkerPc} (nonePassed : state.passed = 0)
    (notNew : pc.passed.toNat ≤ (state.worker index).passed.toNat) :
    (state.setWorker index pc).passed = 0 := by
  have moved := passed_setWorker state index pc
  omega

/-- From a state of the invariant in which the workers are not blocked, a step
reaches another one exactly when it meets `KeepsClear`. -/
theorem step_roomComes_iff {state next : Cycle n} {action : Action n}
    (holds : state.Invariant) (comes : state.RoomComes)
    (stepped : state.step action = some next) :
    next.RoomComes ↔ state.KeepsClear action := by
  have clear := (roomComes_iff holds).mp comes
  rw [roomComes_iff (step_invariant holds stepped)]
  obtain ⟨queued, holds⟩ := holds
  cases step_cases stepped with
  | acceptError guard => exact ⟨fun _ => trivial, fun _ => clear⟩
  | acceptNoMemory guard => exact ⟨fun _ => trivial, fun _ => clear⟩
  | accept guard => exact ⟨fun _ => trivial, fun _ => nofun⟩
  | leaveLoop guard => exact ⟨fun _ => trivial, fun _ => nofun⟩
  | acceptorEnterCs guard free => exact ⟨fun _ => trivial, fun _ => nofun⟩
  | acceptorLeaveCs guard => exact ⟨fun _ => trivial, fun _ => nofun⟩
  | incrementSemaphore guard => exact ⟨fun _ => trivial, fun _ => nofun⟩
  | @enqueue record next guard tried =>
      have fullIff := Queue.isFull_iff holds.represents
      rw [holds.capacity] at fullIff
      rcases tryEnqueue_cases holds tried with
        ⟨full, rfl⟩ | ⟨room, connections, _, _, rfl⟩
      · rcases guard with first | again
        · constructor
          · intro nextClear _ _
            exact nextClear ⟨record, rfl⟩
          · intro condition _
            exact condition ⟨record, first⟩ (fullIff.mpr full)
        · constructor
          · rintro _ ⟨other, first⟩
            rw [again] at first
            cases first
          · intro _ _
            exact clear ⟨record, again⟩
      · constructor
        · intro _ _ full
          exact absurd (fullIff.mp full) room
        · intro _
          exact nofun
  | @waitSemaphore index permits guard available =>
      have moved := passed_setWorker state index .enterCs
      rw [guard] at moved
      simp only [WorkerPc.passed, Bool.toNat_false, Bool.toNat_true] at moved
      constructor
      · intro nextClear retrying
        have none_passed : (state.setWorker index .enterCs).passed = 0 :=
          nextClear retrying
        omega
      · intro notRetrying retrying
        exact absurd retrying notRetrying
  | @enterCs index guard free =>
      refine ⟨fun _ => trivial, fun _ retrying => ?_⟩
      exact passed_setWorker_eq_zero (clear retrying)
        (by rw [guard]; exact Nat.le_refl 1)
  | @dequeue index record connections guard took =>
      refine ⟨fun _ => trivial, fun _ retrying => ?_⟩
      exact passed_setWorker_eq_zero (clear retrying)
        (by rw [guard]; exact Nat.zero_le 1)
  | @dequeueNull index connections guard took =>
      refine ⟨fun _ => trivial, fun _ retrying => ?_⟩
      exact passed_setWorker_eq_zero (clear retrying)
        (by rw [guard]; exact Nat.zero_le 1)
  | @leaveCs index record guard =>
      refine ⟨fun _ => trivial, fun _ retrying => ?_⟩
      exact passed_setWorker_eq_zero (clear retrying) (Nat.zero_le _)
  | @finish index record guard =>
      refine ⟨fun _ => trivial, fun _ retrying => ?_⟩
      exact passed_setWorker_eq_zero (clear retrying) (Nat.zero_le _)
  | @exit index record guard =>
      refine ⟨fun _ => trivial, fun _ retrying => ?_⟩
      exact passed_setWorker_eq_zero (clear retrying) (Nat.zero_le _)

/-- In the run along any `actions`, room comes in every state reached if and
only if every step meets `KeepsClear`. -/
theorem roomComes_run_iff (fits : (n : Int) ≤ intMax)
    (fresh : Nat → Option Nat) (actions : List (Action n)) :
    (system n).StatesMeet RoomComes (start n fresh) actions ↔
      (system n).StepsMeet KeepsClear (start n fresh) actions :=
  (system n).statesMeet_iff_stepsMeet step_invariant step_roomComes_iff
    actions (start_invariant fits fresh) (fun retrying => nomatch retrying)

/-- One worker, two clients: the first fills the queue, and while the acceptor
retries the second one the worker passes `wait_semaphore`. -/
def stallingRun : List (Action 1) :=
  [.accept, .acceptorEnterCs, .enqueue, .acceptorLeaveCs, .incrementSemaphore,
    .accept, .acceptorEnterCs, .enqueue, .waitSemaphore 0]

theorem roomComes_run_iff_stallingRun :
    (system 1).StatesMeet RoomComes (start 1 fun _ => none) stallingRun ↔
      (system 1).StepsMeet KeepsClear (start 1 fun _ => none) stallingRun :=
  roomComes_run_iff (by decide) (fun _ => none) stallingRun

/-- After `stallingRun` the acceptor waits for room for ever: the worker that
could make it is on its way and no worker steps dequeue. -/
theorem acceptor_stalls :
    ¬ ∀ (n : Nat), 1 ≤ n → (n : Int) ≤ intMax →
      ∀ (fresh : Nat → Option Nat) (actions : List (Action n))
        (state : Cycle n),
        (system n).run (start n fresh) actions = some state →
          state.RoomComes := by
  intro claim
  have reached : ∃ state : Cycle 1,
      (system 1).run (start 1 fun _ => none) stallingRun = some state ∧
        state.acceptor = .retry 1 ∧ state.passed = 1 :=
    ⟨_, rfl, rfl, by decide⟩
  obtain ⟨state, ran, asleep, onItsWay⟩ := reached
  have comes := claim 1 (Nat.le_refl 1) (by decide) _ stallingRun state ran
  have holds := run_invariant (by decide) _ stallingRun ran
  have none_passed := (roomComes_iff holds).mp comes ⟨1, asleep⟩
  rw [onItsWay] at none_passed
  cases none_passed

end RemoteCommand.Cycle
