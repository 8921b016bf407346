import Mathlib.Algebra.Order.BigOperators.Group.Finset
import RemoteCommand.Reload
import RemoteCommand.Restarts

/-!
# A serve cycle in the SIGHUP loop

The SIGHUP loop of `main` counts the connections that wait, the workers, and
those that serve.  A serve cycle has the queue, the lock, the semaphore and the
places of all threads.  The second is a refinement of the first: every run of a
cycle, from the first test of `sighup` to the teardown, is a run of `main`.
-/

namespace RemoteCommand

open Machine Transition

/-! ## Workers that serve -/

namespace Cycle

variable {n : Nat} {state : Cycle n} {index : Fin n}

/-- Whether a worker has a connection, as a number. -/
def served (pc : WorkerPc) : Nat :=
  if pc.record.isSome then 1 else 0

/-- The number of workers that have a connection. -/
def serving (state : Cycle n) : Nat :=
  ∑ index, served (state.worker index)

theorem serving_setWorker (state : Cycle n) (index : Fin n) (pc : WorkerPc) :
    (state.setWorker index pc).serving + served (state.worker index) =
      state.serving + served pc :=
  sum_update served state.worker index pc

/-- A worker gets a connection. -/
theorem serving_get {pc : WorkerPc} {record : Nat}
    (free : (state.worker index).record = none)
    (has : pc.record = some record) :
    (state.setWorker index pc).serving = state.serving + 1 := by
  have moved := serving_setWorker state index pc
  simpa only [served, free, has, Option.isSome_none, Option.isSome_some,
    Bool.false_eq_true, if_false, if_true, Nat.add_zero] using moved

/-- A worker is done with its connection, or leaves with it. -/
theorem serving_lose {pc : WorkerPc} {record : Nat}
    (has : (state.worker index).record = some record)
    (free : pc.record = none) :
    (state.setWorker index pc).serving + 1 = state.serving := by
  have moved := serving_setWorker state index pc
  simpa only [served, free, has, Option.isSome_none, Option.isSome_some,
    Bool.false_eq_true, if_false, if_true, Nat.add_zero] using moved

/-- A worker that is in its loop and has no connection is another one. -/
theorem serving_lt (state : Cycle n) (free : (state.worker index).record = none)
    (inside : state.worker index ≠ .exited) :
    state.serving + state.gone < n := by
  rw [gone_eq, serving, ← Finset.sum_add_distrib]
  have bound : ∑ other : Fin n,
      (served (state.worker other) +
        if state.worker other = .exited then 1 else 0) < ∑ other : Fin n, 1 := by
    refine Finset.sum_lt_sum (fun other _ => ?_)
      ⟨index, Finset.mem_univ index, ?_⟩
    · cases state.worker other <;> simp [served, WorkerPc.record]
    · rw [served, free, if_neg inside]
      decide
  rwa [Finset.sum_const, Finset.card_univ, Fintype.card_fin, smul_eq_mul,
    Nat.mul_one] at bound

end Cycle

namespace Reloading

variable {n : Nat} {configured : Bool} {host : Endian}
  {state next : Reloading n} {process : Process}

/-- The next call of `main`. -/
def mainPc (state : Reloading n) : MainPc :=
  if state.teardown then
    .destroyQueue
  else
    match state.cycle.acceptor with
    | .accept => if state.tested then .accept else .test
    | .enterCs _ | .enqueue _ | .retry _ => .enqueue
    | .leaveCs _ | .incrementSemaphore _ => .test
    | .left => .waitPending

/-- What `main` knows of a cycle. -/
structure Follows (configured : Bool) (process : Process)
    (state : Reloading n) : Prop where
  pc : process.pc = state.mainPc
  conf : process.configuration.confFile.isSome = configured
  installed : process.installed = true
  sighup : process.sighup = (configured && state.signalled)
  capacity : process.capacity = some n
  pending : (process.pending : Int) = state.cycle.connections.size
  workers : process.workers + state.cycle.gone = n
  serving : process.serving = state.cycle.serving
  tested : state.tested = true →
    state.cycle.acceptor = .accept ∨ state.cycle.acceptor = .left

theorem mainPc_ne_ended (state : Reloading n) : state.mainPc ≠ .ended := by
  unfold mainPc
  split
  · exact MainPc.noConfusion
  · split <;> try split
    all_goals exact MainPc.noConfusion

/-- A call of `main`. -/
theorem Follows.main (follows : Follows configured process state)
    {answer : Answer} {later : Process}
    (stepped : process.mainStep host answer = some later)
    (again : Follows configured later next) :
    ∃ final, (Process.system host).Leads process final ∧
      Follows configured final next := by
  have going : process.pc ≠ .ended := by
    rw [follows.pc]
    exact state.mainPc_ne_ended
  have called : (Process.system host).step process (.main answer) =
      some later := by
    simp only [Process.system, Process.step, if_neg going, stepped]
  exact ⟨later, .step called, again⟩

/-- `main` has nothing to do with the step. -/
theorem Follows.stays (again : Follows configured process next) :
    ∃ final, (Process.system host).Leads process final ∧
      Follows configured final next :=
  ⟨process, .here _ process, again⟩

/-! ## One step -/

/-- The handler that cannot open the file raises the flag. -/
theorem handle_notOpened (installed : process.installed = true) :
    process.handle .notOpened =
      { process with
        sighup :=
          process.configuration.confFile.isSome || process.sighup } := by
  cases conf : process.configuration.confFile with
  | none =>
      rw [Process.handle_ignored installed conf, Option.isSome_none,
        Bool.false_or]
  | some path =>
      simp [Process.handle, installed, Configuration.sighupHandler, conf,
        Configuration.updateParameters, Configuration.parseConfFile, bind,
        Except.bind, pure, Except.pure]

theorem Follows.sighup_step (follows : Follows configured process state) :
    ∃ final, (Process.system host).Leads process final ∧
      Follows configured final { state with signalled := true } := by
  have going : process.pc ≠ .ended := by
    rw [follows.pc]
    exact state.mainPc_ne_ended
  have handled : (Process.system host).step process (.sighup .notOpened) =
      some { process with
        sighup :=
          process.configuration.confFile.isSome || process.sighup } := by
    simp only [Process.system, Process.step, if_neg going,
      handle_notOpened follows.installed]
  refine ⟨_, .step handled, { follows with sighup := ?_ }⟩
  simp only [follows.conf, follows.sighup, Bool.and_true]
  cases configured <;> cases state.signalled <;> rfl

/-- `main` leaves the accept loop. -/
theorem Follows.left (answer : Answer)
    (follows : Follows configured process state)
    (running : state.teardown = false)
    (left : state.leaveLoop = some next)
    (stepped : process.mainStep host answer =
      process.goto .waitPending) :
    ∃ final, (Process.system host).Leads process final ∧
      Follows configured final next := by
  obtain ⟨cycle, moved, rfl⟩ := Option.map_eq_some_iff.mp left
  obtain ⟨_, same⟩ := Option.ite_none_right_eq_some.mp moved
  cases same
  refine follows.main stepped { follows with pc := ?_, tested := ?_ }
  · simp [mainPc, running, Process.goto]
  · exact fun _ => .inr rfl

/-- A step of a worker. -/
theorem Follows.worker {action : Process.Action} {later : Process}
    (follows : Follows configured process state)
    (stepped : process.pc ≠ .ended →
      (Process.system host).step process action = some later)
    (again : Follows configured later next) :
    ∃ final, (Process.system host).Leads process final ∧
      Follows configured final next := by
  refine ⟨later, .step (stepped ?_), again⟩
  rw [follows.pc]
  exact state.mainPc_ne_ended

/-- The reloading behind a call of a thread. -/
def behind (state : Reloading n) (action : Cycle.Action n) (cycle : Cycle n) :
    Reloading n :=
  { state with
    cycle
    tested := state.tested && !accepts action
    closed := state.closed ++ state.closedBy action }

section Quiet

variable {action : Cycle.Action n} {cycle : Cycle n}

/-- `main` stays where it is while a worker moves. -/
theorem behind_mainPc (quiet : accepts action = false)
    (acceptor : cycle.acceptor = state.cycle.acceptor) :
    (state.behind action cycle).mainPc = state.mainPc := by
  simp only [behind, mainPc, acceptor, quiet, Bool.not_false, Bool.and_true]

theorem Follows.behind_tested (follows : Follows configured process state)
    (quiet : accepts action = false)
    (acceptor : cycle.acceptor = state.cycle.acceptor)
    (tested : (state.behind action cycle).tested = true) :
    cycle.acceptor = .accept ∨ cycle.acceptor = .left := by
  rw [acceptor]
  refine follows.tested ?_
  simpa only [behind, quiet, Bool.not_false, Bool.and_true] using tested

end Quiet

/-- A worker moves, and has a connection as before. -/
theorem Follows.moves {action : Cycle.Action n} {index : Fin n}
    {pc : WorkerPc} {semaphore : Nat} {holder : Option (Thread n)}
    (follows : Follows configured process state)
    (quiet : accepts action = false)
    (inside : state.cycle.worker index ≠ .exited) (stays : pc ≠ .exited)
    (same : pc.record = (state.cycle.worker index).record) :
    Follows configured process (state.behind action
      { state.cycle.setWorker index pc with semaphore, holder }) := by
  have serving := Cycle.serving_setWorker state.cycle index pc
  have gone := Cycle.gone_setWorker state.cycle index pc inside
  simp only [Cycle.served, same] at serving
  rw [if_neg stays, Nat.add_zero] at gone
  refine { follows with
    pc := follows.pc.trans (behind_mainPc quiet rfl).symm
    workers := ?_
    serving := follows.serving.trans ?_
    tested := follows.behind_tested quiet rfl }
  · have count := follows.workers
    rw [← gone] at count
    exact count
  · exact (Nat.add_right_cancel serving).symm

theorem Follows.accept (follows : Follows configured process state)
    (running : state.teardown = false)
    (place : state.cycle.acceptor = .accept) (tested : state.tested = true) :
    process.pc = .accept := by
  rw [follows.pc]
  simp [mainPc, running, place, tested]

/-- The acceptor puts its record in the queue, or finds it full. -/
theorem Follows.enqueue {record : Nat} {cycle : Cycle n}
    (follows : Follows configured process state)
    (running : state.teardown = false) (holds : state.cycle.Invariant)
    (place : state.cycle.acceptor = .enqueue record ∨
      state.cycle.acceptor = .retry record)
    (tried : state.cycle.tryEnqueue record = some cycle) :
    ∃ final, (Process.system host).Leads process final ∧
      Follows configured final (state.behind .enqueue cycle) := by
  obtain ⟨queued, holds⟩ := holds
  have atEnqueue : process.pc = .enqueue := by
    rw [follows.pc]
    rcases place with first | retry
    · simp [mainPc, running, first]
    · simp [mainPc, running, retry]
  have untested : state.tested = false := by
    by_contra tested
    rcases follows.tested (Bool.eq_true_of_not_eq_false tested) with at_ | at_ <;>
      rcases place with first | retry <;>
      first | cases at_.symm.trans first | cases at_.symm.trans retry
  have size := holds.represents.size_eq
  have pending := follows.pending
  rcases Cycle.tryEnqueue_cases holds tried with
    ⟨_, rfl⟩ | ⟨room, connections, _, represents, rfl⟩
  · refine Follows.stays { follows with pc := ?_, tested := ?_ }
    · rw [atEnqueue]
      simp [behind, mainPc, running]
    · simp [behind, untested]
  · have different : some process.pending ≠ process.capacity := by
      rw [follows.capacity]
      intro full
      cases full
      omega
    have puts : process.mainStep host .done =
        some { process with pending := process.pending + 1, pc := .test } := by
      simp [Process.mainStep, atEnqueue, different]
    refine follows.main puts { follows with
      pc := ?_, pending := ?_, tested := ?_ }
    · simp [behind, mainPc, running]
    · change ((process.pending + 1 : Nat) : Int) = connections.size
      rw [represents.size_eq, List.length_append, List.length_singleton]
      omega
    · simp [behind, untested]

/-- A worker takes a connection. -/
theorem Follows.take {index : Fin n} {record : Nat}
    {connections : Queue Nat}
    (follows : Follows configured process state)
    (holds : state.cycle.Invariant)
    (place : state.cycle.worker index = .dequeue)
    (took : state.cycle.connections.dequeue =
      .ok (some record, connections)) :
    ∃ final, (Process.system host).Leads process final ∧
      Follows configured final (state.behind (.dequeue index)
        { state.cycle.setWorker index (.leaveCs record) with
          connections
          taken := state.cycle.taken ++ [(index, record)] }) := by
  obtain ⟨queued, holds⟩ := holds
  obtain ⟨oldest, rest, rfl⟩ := Cycle.queued_cons_of_dequeue holds place
  obtain ⟨connections', took', _, represents⟩ :=
    Queue.dequeue_cons holds.represents
  rw [took'] at took
  cases took
  have size := holds.represents.size_eq
  have pending := follows.pending
  rw [size, List.length_cons] at pending
  have free : (state.cycle.worker index).record = none := by
    rw [place]
    rfl
  have inside : state.cycle.worker index ≠ .exited := by
    rw [place]
    exact WorkerPc.noConfusion
  have fewer := state.cycle.serving_lt free inside
  have serving : (state.cycle.setWorker index (.leaveCs record)).serving =
      state.cycle.serving + 1 := Cycle.serving_get free rfl
  have gone := Cycle.gone_setWorker state.cycle index (.leaveCs record) inside
  rw [if_neg WorkerPc.noConfusion, Nat.add_zero] at gone
  have same := follows.serving
  have count := follows.workers
  have guard : process.serving < process.workers ∧ 0 < process.pending := by
    omega
  have takes (going : process.pc ≠ .ended) :
      (Process.system host).step process .take =
        some { process with
          serving := process.serving + 1, pending := process.pending - 1 } := by
    simp only [Process.system, Process.step, if_neg going, if_pos guard]
  refine follows.worker takes { follows with
    pc := follows.pc.trans (behind_mainPc rfl rfl).symm
    pending := ?_
    workers := ?_
    serving := ?_
    tested := follows.behind_tested rfl rfl }
  · change ((process.pending - 1 : Nat) : Int) = connections.size
    rw [represents.size_eq]
    omega
  · exact (congrArg (process.workers + ·) gone).trans count
  · exact (congrArg (· + 1) same).trans serving.symm

/-- A worker is done with its connection. -/
theorem Follows.finish {index : Fin n} {record : Nat}
    (follows : Follows configured process state)
    (place : state.cycle.worker index = .serve record) :
    ∃ final, (Process.system host).Leads process final ∧
      Follows configured final (state.behind (.finish index)
        (state.cycle.setWorker index .waitSemaphore)) := by
  have has : (state.cycle.worker index).record = some record := by
    rw [place]
    rfl
  have inside : state.cycle.worker index ≠ .exited := by
    rw [place]
    exact WorkerPc.noConfusion
  have serving : (state.cycle.setWorker index .waitSemaphore).serving + 1 =
      state.cycle.serving := Cycle.serving_lose has rfl
  have gone := Cycle.gone_setWorker state.cycle index .waitSemaphore inside
  rw [if_neg WorkerPc.noConfusion, Nat.add_zero] at gone
  have same := follows.serving
  have guard : 0 < process.serving := by omega
  have finishes (going : process.pc ≠ .ended) :
      (Process.system host).step process .finish =
        some { process with serving := process.serving - 1 } := by
    simp only [Process.system, Process.step, if_neg going, if_pos guard]
  refine follows.worker finishes { follows with
    pc := follows.pc.trans (behind_mainPc rfl rfl).symm
    workers := ?_
    serving := ?_
    tested := follows.behind_tested rfl rfl }
  · exact (congrArg (process.workers + ·) gone).trans follows.workers
  · change process.serving - 1 = _
    rw [same, ← serving, Nat.add_sub_cancel]
    rfl

/-- A worker leaves its loop, and its connection open. -/
theorem Follows.exit {index : Fin n} {record : Nat}
    (follows : Follows configured process state)
    (place : state.cycle.worker index = .serve record) :
    ∃ final, (Process.system host).Leads process final ∧
      Follows configured final (state.behind (.exit index)
        (state.cycle.setWorker index .exited)) := by
  have has : (state.cycle.worker index).record = some record := by
    rw [place]
    rfl
  have inside : state.cycle.worker index ≠ .exited := by
    rw [place]
    exact WorkerPc.noConfusion
  have serving : (state.cycle.setWorker index .exited).serving + 1 =
      state.cycle.serving := Cycle.serving_lose has rfl
  have gone : (state.cycle.setWorker index .exited).gone =
      state.cycle.gone + 1 :=
    Cycle.gone_setWorker state.cycle index .exited inside
  have fewer : (state.cycle.setWorker index .exited).gone ≤ n := by
    refine (Finset.card_le_univ _).trans_eq (Fintype.card_fin n)
  have same := follows.serving
  have count := follows.workers
  have guard : 0 < process.serving := by omega
  have leaves (going : process.pc ≠ .ended) :
      (Process.system host).step process .exit =
        some { process with
          serving := process.serving - 1
          workers := process.workers - 1 } := by
    simp only [Process.system, Process.step, if_neg going, if_pos guard]
  refine follows.worker leaves { follows with
    pc := follows.pc.trans (behind_mainPc rfl rfl).symm
    workers := ?_
    serving := ?_
    tested := follows.behind_tested rfl rfl }
  · change process.workers - 1 +
      (state.cycle.setWorker index .exited).gone = n
    omega
  · change process.serving - 1 = _
    rw [same, ← serving, Nat.add_sub_cancel]
    rfl

/-- The acceptor goes on with a call that `main` does not count. -/
theorem Follows.acceptor {action : Cycle.Action n} {place : AcceptorPc}
    {semaphore : Nat} {holder : Option (Thread n)}
    (follows : Follows configured process state)
    (quiet : accepts action = false)
    (elsewhere : state.cycle.acceptor ≠ .accept ∧
      state.cycle.acceptor ≠ .left)
    (pc : (state.behind action
      { state.cycle with acceptor := place, semaphore, holder }).mainPc =
        state.mainPc) :
    Follows configured process (state.behind action
      { state.cycle with acceptor := place, semaphore, holder }) := by
  have untested : state.tested = false := by
    by_contra tested
    rcases follows.tested (Bool.eq_true_of_not_eq_false tested) with at_ | at_
    · exact elsewhere.1 at_
    · exact elsewhere.2 at_
  refine { follows with pc := follows.pc.trans pc.symm, tested := ?_ }
  simp [behind, quiet, untested]

/-- A call of a thread is followed by `main`, in one step or in none. -/
theorem Follows.call {action : Cycle.Action n} {cycle : Cycle n}
    (follows : Follows configured process state)
    (holds : state.cycle.Invariant) (running : state.teardown = false)
    (admitted : state.admits action = true)
    (moved : state.cycle.step action = some cycle) :
    ∃ final, (Process.system host).Leads process final ∧
      Follows configured final (state.behind action cycle) := by
  cases Cycle.step_cases moved with
  | acceptError place | acceptNoMemory place =>
      have tested : state.tested = true := admitted
      have fails : process.mainStep host .failed =
          some (process.goto .test) := by
        simp [Process.mainStep, follows.accept running place tested]
      refine follows.main fails { follows with pc := ?_, tested := ?_ }
      · simp [behind, mainPc, running, place, accepts, Process.goto]
      · simp [behind, accepts]
  | accept place =>
      have tested : state.tested = true := admitted
      have takes : process.mainStep host .done =
          some (process.goto .enqueue) := by
        simp [Process.mainStep, follows.accept running place tested]
      refine follows.main takes { follows with pc := ?_, tested := ?_ }
      · simp [behind, mainPc, running, Process.goto]
      · simp [behind, accepts]
  | leaveLoop place => cases admitted
  | acceptorEnterCs place free =>
      refine Follows.stays (follows.acceptor rfl (by simp [place]) ?_)
      simp [behind, mainPc, running, place]
  | enqueue place tried => exact follows.enqueue running holds place tried
  | acceptorLeaveCs place =>
      refine Follows.stays (follows.acceptor rfl (by simp [place]) ?_)
      simp [behind, mainPc, running, place]
  | incrementSemaphore place =>
      have untested : state.tested = false := by
        by_contra tested
        have atPlace := follows.tested (Bool.eq_true_of_not_eq_false tested)
        simp [place] at atPlace
      refine Follows.stays (follows.acceptor rfl (by simp [place]) ?_)
      simp [behind, mainPc, running, place, untested]
  | waitSemaphore place | enterCs place | leaveCs place =>
      exact Follows.stays (follows.moves rfl (by simp [place])
        (by simp) (by rw [place]; rfl))
  | dequeue place took => exact follows.take holds place took
  | dequeueNull place took =>
      obtain ⟨queued, holds⟩ := holds
      obtain ⟨oldest, rest, rfl⟩ := Cycle.queued_cons_of_dequeue holds place
      obtain ⟨_, took', _, _⟩ := Queue.dequeue_cons holds.represents
      cases took'.symm.trans took
  | finish place => exact follows.finish place
  | exit place => exact follows.exit place

/-- `main` follows every step of a cycle. -/
theorem Follows.step {action : Action n}
    (follows : Follows configured process state) (sound : state.Sound)
    (stepped : state.step configured action = some next) :
    ∃ final, (Process.system host).Leads process final ∧
      Follows configured final next := by
  have running := (step_cases stepped).1
  unfold Reloading.step at stepped
  rw [if_neg (Bool.eq_false_iff.mp running)] at stepped
  cases action with
  | sighup =>
      cases stepped
      exact follows.sighup_step
  | test =>
      obtain ⟨⟨place, untested⟩, tests⟩ :=
        Option.ite_none_right_eq_some.mp stepped
      have atTest : process.pc = .test := by
        rw [follows.pc]
        simp [mainPc, running, place, untested]
      by_cases seen : (configured && state.signalled) = true
      · rw [if_pos seen] at tests
        refine follows.left .done running tests ?_
        simp [Process.mainStep, atTest, follows.sighup, seen]
      · rw [if_neg seen] at tests
        cases tests
        have passes : process.mainStep host .done =
            some (process.goto .accept) := by
          simp [Process.mainStep, atTest, follows.sighup, seen]
        refine follows.main passes { follows with pc := ?_, tested := ?_ }
        · simp [mainPc, running, place, Process.goto]
        · exact fun _ => .inl place
  | interrupted =>
      obtain ⟨⟨tested, _⟩, leaves⟩ := Option.ite_none_right_eq_some.mp stepped
      obtain ⟨cycle, moved, _⟩ := Option.map_eq_some_iff.mp leaves
      obtain ⟨place, _⟩ := Option.ite_none_right_eq_some.mp moved
      refine follows.left .interrupted running leaves ?_
      simp [Process.mainStep, follows.accept running place tested]
  | call action =>
      obtain ⟨admitted, called⟩ := Option.ite_none_right_eq_some.mp stepped
      obtain ⟨cycle, moved, rfl⟩ := Option.map_eq_some_iff.mp called
      exact follows.call sound.counted running admitted moved
  | waitPending =>
      obtain ⟨place, waits⟩ := Option.ite_none_right_eq_some.mp stepped
      have atWait : process.pc = .waitPending := by
        rw [follows.pc]
        simp [mainPc, running, place]
      split at waits <;> cases waits
      · exact follows.stays
      · rename_i empty
        have none : process.pending = 0 := by
          have pending := follows.pending
          rw [not_not.mp empty] at pending
          omega
        have begins : process.mainStep host .done =
            some (process.goto .destroyQueue) := by
          simp [Process.mainStep, atWait, none]
        refine follows.main begins { follows with pc := ?_ }
        simp [mainPc, Process.goto]

/-! ## Runs -/

/-- `main` is at the first test of a cycle with `n` workers. -/
structure AtCycle (n : Nat) (process : Process) : Prop where
  pc : process.pc = .test
  installed : process.installed = true
  sighup : process.sighup = false
  capacity : process.capacity = some n
  pending : process.pending = 0
  workers : process.workers = n
  serving : process.serving = 0

theorem AtCycle.follows (begins : AtCycle n process)
    (fresh : Nat → Option Nat) :
    Follows process.configuration.confFile.isSome process (start n fresh) where
  pc := begins.pc
  conf := rfl
  installed := begins.installed
  sighup := by
    rw [begins.sighup]
    exact (Bool.and_false _).symm
  capacity := begins.capacity
  pending := by
    rw [begins.pending]
    rfl
  workers := by
    rw [begins.workers]
    exact congrArg (n + ·) (Cycle.start_gone fresh)
  serving := by
    rw [begins.serving]
    exact (Finset.sum_eq_zero fun _ _ => rfl).symm
  tested := nofun

/-- A serve cycle refines the SIGHUP loop.  Every run of a cycle with `n`
workers, from the first test of `sighup` on, is a run of `main`: its next call is
that of the acceptor, it counts the connections that are in the queue, the
workers that are left and those that have a connection, and its flag is raised
when a SIGHUP has come and there is a configuration file. -/
theorem main_follows_cycle (host : Endian) (fits : (n : Int) ≤ intMax)
    (fresh : Nat → Option Nat) {actions : List (Action n)}
    (begins : AtCycle n process)
    (ran : (system process.configuration.confFile.isSome n).run
      (start n fresh) actions = some state) :
    ∃ labels final, (Process.system host).run process labels = some final ∧
      final.pc = state.mainPc ∧
      (final.pending : Int) = state.cycle.connections.size ∧
      final.workers + actions.countP exits = n ∧
      final.serving = state.cycle.serving ∧
      final.sighup =
        (process.configuration.confFile.isSome && state.signalled) := by
  let Related (current : Reloading n) (follower : Process) : Prop :=
    current.Sound ∧
      Follows process.configuration.confFile.isSome follower current
  have goes {before behind : Reloading n} {action : Action n}
      {follower : Process} (related : Related before follower)
      (stepped : (system process.configuration.confFile.isSome n).step before
        action = some behind) :
      ∃ next, (Process.system host).Leads follower next ∧
        Related behind next := by
    obtain ⟨sound, follows⟩ := related
    obtain ⟨next, leads, again⟩ := follows.step sound stepped
    exact ⟨next, leads, step_sound sound stepped, again⟩
  have leads : (system process.configuration.confFile.isSome n).Leads
      (start n fresh) state := ⟨actions, ran⟩
  obtain ⟨final, ⟨labels, runs⟩, _, follows⟩ :=
    leads.follow goes ⟨start_sound fits fresh, begins.follows fresh⟩
  have count := follows.workers
  have none : (start n fresh).cycle.gone = 0 := Cycle.start_gone fresh
  rw [run_gone actions ran, none, Nat.zero_add] at count
  exact ⟨labels, final, runs, follows.pc, follows.pending, count,
    follows.serving, follows.sighup⟩

/-- A server with one worker, at the beginning of a cycle. -/
def atFirstTest : Process where
  __ := Process.start { argc := 0, argv := fun _ => none }
  pc := .test
  installed := true
  capacity := some 1
  workers := 1

theorem main_follows_cycle_secondClient :
    ∃ labels final,
      (Process.system .little).run atFirstTest labels = some final ∧
        final.pc = .enqueue ∧ final.workers = 0 := by
  obtain ⟨state, ran⟩ := Option.isSome_iff_exists.mp
    (by decide : ((system false 1).run (start 1 fun _ => none)
      secondClient).isSome)
  obtain ⟨labels, final, runs, atPc, _, count, _⟩ :=
    @main_follows_cycle 1 state atFirstTest .little (by decide)
      (fun _ => none) secondClient
      ⟨rfl, rfl, rfl, rfl, rfl, rfl, rfl⟩ ran
  have place : ((system false 1).run (start 1 fun _ => none)
      secondClient).map mainPc = some .enqueue := by decide
  rw [ran, Option.map_some, Option.some.injEq] at place
  refine ⟨labels, final, runs, atPc.trans place, ?_⟩
  have left : secondClient.countP exits = 1 := by decide
  omega

end Reloading

end RemoteCommand
