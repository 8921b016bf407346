import RemoteCommand.CycleSafety

/-!
# The end of a serve cycle

A serve cycle together with what decides that it ends: a SIGHUP, the test of
`sighup` before every `accept`, the interruption of an `accept`, and the loop
that waits until the queue is empty.  A run ends where the teardown starts.

The wait loop sees the queue only.  A connection leaves the queue when a worker
takes it, and it is closed when the worker has finished; `closed` is the history
of that.
-/

namespace RemoteCommand

open Machine Transition

structure Reloading (n : Nat) where
  cycle : Cycle n
  /-- the test of the accept loop has passed, `accept` comes next -/
  tested : Bool
  /-- a SIGHUP has been delivered -/
  signalled : Bool
  /-- `main` has left the wait loop -/
  teardown : Bool
  /-- the connections that were closed, with the worker that served them -/
  closed : List (Fin n × Nat)

namespace Reloading

variable {n : Nat}

inductive Action (n : Nat) where
  /-- the handler of SIGHUP -/
  | sighup
  /-- `while (sighup != 1)` -/
  | test
  /-- `accept` is interrupted by the signal -/
  | interrupted
  /-- a call of the accept loop or of a worker -/
  | call (action : Cycle.Action n)
  /-- `while (size(connections) != 0)` -/
  | waitPending
  deriving DecidableEq, Repr

/-- The calls of `main` that follow the test of the accept loop. -/
def accepts : Cycle.Action n → Bool
  | .acceptError | .accept | .acceptNoMemory => true
  | _ => false

/-- Whether a call can come next: an `accept` only behind the test.  The accept
loop is left by `test` and `interrupted`. -/
def admits (state : Reloading n) : Cycle.Action n → Bool
  | .acceptError | .accept | .acceptNoMemory => state.tested
  | .leaveLoop => false
  | _ => true

/-- A worker that finishes closes the connection that it serves. -/
def closedBy (state : Reloading n) : Cycle.Action n → List (Fin n × Nat)
  | .finish index =>
      match (state.cycle.worker index).record with
      | some record => [(index, record)]
      | none => []
  | _ => []

def leaveLoop (state : Reloading n) : Option (Reloading n) :=
  (state.cycle.step .leaveLoop).map fun cycle => { state with cycle }

/-- One step.  `configured` tells whether there is a configuration file; without
one the handler leaves `sighup` as it is. -/
def step (configured : Bool) (state : Reloading n) (action : Action n) :
    Option (Reloading n) :=
  if state.teardown then
    none
  else
    match action with
    | .sighup => some { state with signalled := true }
    | .test =>
        if state.cycle.acceptor = .accept ∧ state.tested = false then
          if configured && state.signalled then state.leaveLoop
          else some { state with tested := true }
        else none
    | .interrupted =>
        if state.tested ∧ state.signalled then state.leaveLoop else none
    | .call action =>
        if state.admits action then
          (state.cycle.step action).map fun cycle =>
            { state with
              cycle
              tested := state.tested && !accepts action
              closed := state.closed ++ state.closedBy action }
        else none
    | .waitPending =>
        if state.cycle.acceptor = .left then
          if state.cycle.connections.size ≠ 0 then some state
          else some { state with teardown := true }
        else none

def system (configured : Bool) (n : Nat) : System (Reloading n) (Action n) where
  step := step configured

def start (n : Nat) (fresh : Nat → Option Nat) : Reloading n where
  cycle := Cycle.start n fresh
  tested := false
  signalled := false
  teardown := false
  closed := []

/-- A worker has passed `wait_semaphore` and not left the critical section. -/
def between : WorkerPc → Bool
  | .enterCs | .dequeue | .leaveCs _ => true
  | _ => false

/-- When the teardown starts, every accepted connection has been closed by the
worker that took it, and no worker uses the objects to be destroyed. -/
def Graceful (state : Reloading n) : Prop :=
  state.teardown = true →
    (∀ record ∈ state.cycle.accepted, ∃ index,
      (index, record) ∈ state.cycle.taken ∧ (index, record) ∈ state.closed) ∧
    ∀ index, between (state.cycle.worker index) = false

/-- The condition on a step: if `main` finds the queue empty in its wait loop,
all workers are back at `wait_semaphore`. -/
def WorkersBack (state : Reloading n) : Action n → Prop
  | .waitPending => state.cycle.connections.size = 0 →
      ∀ index, state.cycle.worker index = .waitSemaphore
  | _ => True

instance (state : Reloading n) (action : Action n) :
    Decidable (state.WorkersBack action) :=
  match action with
  | .waitPending =>
      inferInstanceAs (Decidable (state.cycle.connections.size = 0 →
        ∀ index, state.cycle.worker index = .waitSemaphore))
  | .sighup | .test | .interrupted | .call _ => isTrue trivial

/-! ## What one step can do -/

/-- The step function by cases: a step moves the cycle by one of its calls, or
leaves it as it is. -/
inductive Step (state : Reloading n) : Action n → Reloading n → Prop
  | leaves {action : Action n} {cycle : Cycle n} :
      action ≠ .waitPending →
      state.cycle.step .leaveLoop = some cycle →
      Step state action { state with cycle }
  | turns {action : Action n} {tested signalled : Bool} :
      action ≠ .waitPending →
      Step state action { state with tested, signalled }
  | call {action : Cycle.Action n} {cycle : Cycle n} {tested : Bool} :
      state.cycle.step action = some cycle →
      Step state (.call action)
        { state with
          cycle, tested, closed := state.closed ++ state.closedBy action }
  | waits : state.cycle.connections.size ≠ 0 → Step state .waitPending state
  | teardown :
      state.cycle.acceptor = .left → state.cycle.connections.size = 0 →
      Step state .waitPending { state with teardown := true }

theorem step_cases {configured : Bool} {state next : Reloading n}
    {action : Action n}
    (stepped : state.step configured action = some next) :
    state.teardown = false ∧ Step state action next := by
  have leaves (different : action ≠ .waitPending)
      (left : state.leaveLoop = some next) : Step state action next := by
    obtain ⟨cycle, moved, same⟩ := Option.map_eq_some_iff.mp left
    cases same
    exact .leaves different moved
  unfold step at stepped
  split at stepped
  case isTrue => cases stepped
  case isFalse running =>
    refine ⟨Bool.eq_false_iff.mpr running, ?_⟩
    cases action with
    | sighup =>
        cases stepped
        exact .turns nofun
    | test =>
        simp only at stepped
        split at stepped
        · split at stepped
          · exact leaves nofun stepped
          · cases stepped
            exact .turns nofun
        · cases stepped
    | interrupted =>
        obtain ⟨_, left⟩ := Option.ite_none_right_eq_some.mp stepped
        exact leaves nofun left
    | call action =>
        obtain ⟨_, called⟩ := Option.ite_none_right_eq_some.mp stepped
        obtain ⟨cycle, moved, same⟩ := Option.map_eq_some_iff.mp called
        cases same
        exact .call moved
    | waitPending =>
        obtain ⟨guard, looked⟩ := Option.ite_none_right_eq_some.mp stepped
        split at looked
        · cases looked
          exact .waits ‹_›
        · cases looked
          exact .teardown guard (not_not.mp ‹_›)

/-! ## The books on closed connections -/

/-- A connection that was taken has been closed by the worker that took it, or
this worker still has it, or has left its loop. -/
structure Books (cycle : Cycle n) (closed : List (Fin n × Nat)) : Prop where
  counted : cycle.Invariant
  within : ∀ entry ∈ closed, entry ∈ cycle.taken
  served : ∀ index record, (index, record) ∈ cycle.taken →
    (index, record) ∈ closed ∨
      (cycle.worker index).record = some record ∨
      cycle.worker index = .exited
  serving : ∀ index record, (cycle.worker index).record = some record →
    (index, record) ∉ closed
  exited : ∀ index, cycle.worker index = .exited →
    ∃ record, (index, record) ∈ cycle.taken ∧ (index, record) ∉ closed

section Books

variable {cycle next : Cycle n} {closed : List (Fin n × Nat)}
  {index : Fin n} {record : Nat}

/-- Nothing changes in the books when no worker takes or leaves a record. -/
theorem Books.keep (books : Books cycle closed) (holds : next.Invariant)
    (taken : next.taken = cycle.taken)
    (records : ∀ index,
      (next.worker index).record = (cycle.worker index).record)
    (exits : ∀ index,
      next.worker index = .exited ↔ cycle.worker index = .exited) :
    Books next closed where
  counted := holds
  within entry member := taken ▸ books.within entry member
  served index record member := by
    rw [records, exits]
    exact books.served index record (taken ▸ member)
  serving index record has := by
    rw [records] at has
    exact books.serving index record has
  exited index out := by
    rw [taken]
    exact books.exited index ((exits index).mp out)

/-- A worker that moves without taking or leaving a record. -/
theorem Books.move (books : Books cycle closed) {pc : WorkerPc}
    (holds : next.Invariant) (taken : next.taken = cycle.taken)
    (moved : next.worker = (cycle.setWorker index pc).worker)
    (same : pc.record = (cycle.worker index).record)
    (inside : cycle.worker index ≠ .exited) (stays : pc ≠ .exited) :
    Books next closed := by
  refine books.keep holds taken ?_ ?_
  · intro other
    rw [moved]
    by_cases this : other = index
    · rw [this, Cycle.setWorker_self, same]
    · rw [Cycle.setWorker_other cycle pc this]
  · intro other
    rw [moved]
    by_cases this : other = index
    · rw [this, Cycle.setWorker_self]
      exact iff_of_false stays inside
    · rw [Cycle.setWorker_other cycle pc this]

/-- A worker takes a record that nobody has taken. -/
theorem Books.take (books : Books cycle closed) (holds : next.Invariant)
    (guard : cycle.worker index = .dequeue)
    (taken : next.taken = cycle.taken ++ [(index, record)])
    (moved : next.worker = (cycle.setWorker index (.leaveCs record)).worker)
    (fresh : ∀ other, (other, record) ∉ cycle.taken) : Books next closed where
  counted := holds
  within entry member := by
    rw [taken]
    exact List.mem_append_left _ (books.within entry member)
  served other kept member := by
    rw [taken, List.mem_append, List.mem_singleton] at member
    rw [moved]
    by_cases this : other = index
    · subst this
      rw [Cycle.setWorker_self]
      rcases member with old | new
      · rcases books.served other kept old with closed | has | out
        · exact .inl closed
        · rw [guard] at has
          cases has
        · rw [guard] at out
          cases out
      · cases new
        exact .inr (.inl rfl)
    · rw [Cycle.setWorker_other cycle _ this]
      rcases member with old | new
      · exact books.served other kept old
      · cases new
        exact absurd rfl this
  serving other kept has := by
    rw [moved] at has
    by_cases this : other = index
    · subst this
      rw [Cycle.setWorker_self] at has
      cases has
      exact fun member => fresh other (books.within _ member)
    · rw [Cycle.setWorker_other cycle _ this] at has
      exact books.serving other kept has
  exited other out := by
    rw [moved] at out
    by_cases this : other = index
    · rw [this, Cycle.setWorker_self] at out
      cases out
    · rw [Cycle.setWorker_other cycle _ this] at out
      obtain ⟨kept, member, notClosed⟩ := books.exited other out
      rw [taken]
      exact ⟨kept, List.mem_append_left _ member, notClosed⟩

/-- A worker closes the connection that it serves. -/
theorem Books.finish (books : Books cycle closed)
    (holds : (cycle.setWorker index .waitSemaphore).Invariant)
    (owned : (index, record) ∈ cycle.taken)
    (guard : cycle.worker index = .serve record) :
    Books (cycle.setWorker index .waitSemaphore)
      (closed ++ [(index, record)]) where
  counted := holds
  within entry member := by
    rcases List.mem_append.mp member with old | new
    · exact books.within entry old
    · rw [List.mem_singleton.mp new]
      exact owned
  served other kept member := by
    by_cases this : other = index
    · subst this
      left
      rcases books.served other kept member with old | has | out
      · exact List.mem_append_left _ old
      · rw [guard] at has
        cases has
        exact List.mem_append_right _ (List.mem_singleton.mpr rfl)
      · rw [guard] at out
        cases out
    · rw [Cycle.setWorker_other cycle _ this]
      exact (books.served other kept member).imp_left (List.mem_append_left _)
  serving other kept has := by
    by_cases this : other = index
    · rw [this, Cycle.setWorker_self] at has
      cases has
    · rw [Cycle.setWorker_other cycle _ this] at has
      intro member
      rcases List.mem_append.mp member with old | new
      · exact books.serving other kept has old
      · cases List.mem_singleton.mp new
        exact this rfl
  exited other out := by
    by_cases this : other = index
    · rw [this, Cycle.setWorker_self] at out
      cases out
    · rw [Cycle.setWorker_other cycle _ this] at out
      obtain ⟨kept, member, notClosed⟩ := books.exited other out
      refine ⟨kept, member, fun closed => ?_⟩
      rcases List.mem_append.mp closed with old | new
      · exact notClosed old
      · cases List.mem_singleton.mp new
        exact this rfl

/-- A worker that leaves its loop leaves the connection open. -/
theorem Books.exit (books : Books cycle closed)
    (holds : (cycle.setWorker index .exited).Invariant)
    (owned : (index, record) ∈ cycle.taken)
    (guard : cycle.worker index = .serve record) :
    Books (cycle.setWorker index .exited) closed where
  counted := holds
  within := books.within
  served other kept member := by
    by_cases this : other = index
    · subst this
      exact .inr (.inr (Cycle.setWorker_self ..))
    · rw [Cycle.setWorker_other cycle _ this]
      exact books.served other kept member
  serving other kept has := by
    by_cases this : other = index
    · rw [this, Cycle.setWorker_self] at has
      cases has
    · rw [Cycle.setWorker_other cycle _ this] at has
      exact books.serving other kept has
  exited other out := by
    by_cases this : other = index
    · subst this
      exact ⟨record, owned, books.serving other record (by rw [guard]; rfl)⟩
    · rw [Cycle.setWorker_other cycle _ this] at out
      exact books.exited other out

/-- A record in the queue has not been taken. -/
theorem notMem_taken_of_dequeue {connections : Queue Nat}
    (holds : cycle.Invariant) (guard : cycle.worker index = .dequeue)
    (took : cycle.connections.dequeue = .ok (some record, connections))
    (other : Fin n) : (other, record) ∉ cycle.taken := by
  obtain ⟨queued, holds⟩ := holds
  obtain ⟨oldest, rest, rfl⟩ := Cycle.queued_cons_of_dequeue holds guard
  obtain ⟨_, took', _, _⟩ := Queue.dequeue_cons holds.represents
  rw [took'] at took
  cases took
  exact holds.queued_notMem_taken List.mem_cons_self other

end Books

/-- A call of a thread keeps the books. -/
theorem call_books {state : Reloading n} {action : Cycle.Action n}
    {cycle : Cycle n} (books : Books state.cycle state.closed)
    (moved : state.cycle.step action = some cycle) :
    Books cycle (state.closed ++ state.closedBy action) := by
  have holds : cycle.Invariant := Cycle.step_invariant books.counted moved
  have idle (same : state.closedBy action = [])
      (kept : Books cycle state.closed) :
      Books cycle (state.closed ++ state.closedBy action) := by
    rw [same, List.append_nil]
    exact kept
  cases Cycle.step_cases moved with
  | acceptError | acceptNoMemory | accept | leaveLoop | acceptorEnterCs
  | acceptorLeaveCs | incrementSemaphore =>
      exact idle rfl (books.keep holds rfl (fun _ => rfl) fun _ => Iff.rfl)
  | enqueue guard tried =>
      obtain ⟨workers, taken⟩ := Cycle.tryEnqueue_frame tried
      refine idle rfl (books.keep holds taken ?_ ?_)
      · exact fun index => by rw [workers]
      · exact fun index => by rw [workers]
  | waitSemaphore guard =>
      exact idle rfl (books.move holds rfl rfl (by rw [guard]; rfl)
        (by rw [guard]; nofun) nofun)
  | enterCs guard =>
      exact idle rfl (books.move holds rfl rfl (by rw [guard]; rfl)
        (by rw [guard]; nofun) nofun)
  | leaveCs guard =>
      exact idle rfl (books.move holds rfl rfl (by rw [guard]; rfl)
        (by rw [guard]; nofun) nofun)
  | dequeueNull guard =>
      exact idle rfl (books.move holds rfl rfl (by rw [guard]; rfl)
        (by rw [guard]; nofun) nofun)
  | dequeue guard took =>
      exact idle rfl (books.take holds guard rfl rfl
        (notMem_taken_of_dequeue books.counted guard took))
  | @finish index record guard =>
      obtain ⟨_, before⟩ := books.counted
      have owned := before.owner index record (by rw [guard]; rfl)
      have closes : state.closedBy (.finish index) = [(index, record)] := by
        simp only [closedBy, guard, WorkerPc.record]
      rw [closes]
      exact books.finish holds owned guard
  | @exit index record guard =>
      obtain ⟨_, before⟩ := books.counted
      have owned := before.owner index record (by rw [guard]; rfl)
      exact idle rfl (books.exit holds owned guard)

theorem step_books {configured : Bool} {state next : Reloading n}
    {action : Action n} (books : Books state.cycle state.closed)
    (stepped : state.step configured action = some next) :
    Books next.cycle next.closed := by
  cases (step_cases stepped).2 with
  | leaves _ moved =>
      have kept := call_books books moved
      have same : state.closedBy .leaveLoop = [] := rfl
      rwa [same, List.append_nil] at kept
  | call moved => exact call_books books moved
  | turns | waits | teardown => exact books

/-! ## When the teardown is graceful -/

/-- With an empty queue and `main` out of the accept loop, the connections are
closed and the objects are unused exactly when all workers are back. -/
theorem graceful_iff_back {state : Reloading n}
    (books : Books state.cycle state.closed)
    (left : state.cycle.acceptor = .left)
    (empty : state.cycle.connections.size = 0) :
    ((∀ record ∈ state.cycle.accepted, ∃ index,
        (index, record) ∈ state.cycle.taken ∧
          (index, record) ∈ state.closed) ∧
      ∀ index, between (state.cycle.worker index) = false) ↔
      ∀ index, state.cycle.worker index = .waitSemaphore := by
  obtain ⟨queued, holds⟩ := books.counted
  have none : queued = [] := by
    have size := holds.represents.size_eq
    rw [empty] at size
    exact List.length_eq_zero_iff.mp (by omega)
  have order : state.cycle.accepted = state.cycle.taken.map Prod.snd := by
    rw [holds.order, none, left]
    simp only [AcceptorPc.holding, List.append_nil]
  constructor
  · rintro ⟨closed, outside⟩ index
    have taken {record : Nat} (member : (index, record) ∈ state.cycle.taken) :
        (index, record) ∈ state.closed := by
      obtain ⟨other, taken, done⟩ := closed record <| by
        rw [order]
        exact List.mem_map_of_mem member
      rwa [holds.one_taker member taken]
    have here := outside index
    cases atPc : state.cycle.worker index with
    | waitSemaphore => rfl
    | enterCs | dequeue | leaveCs =>
        rw [atPc] at here
        cases here
    | serve record =>
        have has : (state.cycle.worker index).record = some record := by
          rw [atPc]
          rfl
        exact absurd (taken (holds.owner index record has))
          (books.serving index record has)
    | exited =>
        obtain ⟨record, member, notClosed⟩ := books.exited index atPc
        exact absurd (taken member) notClosed
  · intro back
    constructor
    · intro record member
      rw [order] at member
      obtain ⟨⟨index, _⟩, taken, rfl⟩ := List.mem_map.mp member
      refine ⟨index, taken, ?_⟩
      rcases books.served index _ taken with closed | has | out
      · exact closed
      · rw [back index] at has
        cases has
      · rw [back index] at out
        cases out
    · intro index
      rw [back index]
      rfl

theorem step_graceful {configured : Bool} {state next : Reloading n}
    {action : Action n} (books : Books state.cycle state.closed)
    (stepped : state.step configured action = some next) :
    next.Graceful ↔ state.WorkersBack action := by
  obtain ⟨running, step⟩ := step_cases stepped
  have going {same : Reloading n} (teardown : same.teardown = false) :
      same.Graceful := by
    intro started
    rw [teardown] at started
    cases started
  cases step with
  | leaves different | turns different =>
      refine iff_of_true (going running) ?_
      cases action <;> trivial
  | call => exact iff_of_true (going running) trivial
  | waits filled =>
      exact iff_of_true (going running) fun empty => absurd empty filled
  | teardown left empty =>
      constructor
      · exact fun graceful _ =>
          (graceful_iff_back books left empty).mp (graceful rfl)
      · exact fun back _ =>
          (graceful_iff_back books left empty).mpr (back empty)

/-- In every run of a serve cycle, with any number of workers and a SIGHUP at
any moment: when the teardown starts every accepted connection has been closed
by its worker and no worker uses the objects to be destroyed, exactly when, each
time `main` finds the queue empty in its wait loop, all workers are back at
`wait_semaphore`. -/
theorem graceful_iff (configured : Bool) (n : Nat) (fits : (n : Int) ≤ intMax)
    (fresh : Nat → Option Nat) (actions : List (Action n)) :
    (system configured n).StatesMeet Graceful (start n fresh) actions ↔
      (system configured n).StepsMeet WorkersBack (start n fresh) actions := by
  have initial : Books (start n fresh).cycle (start n fresh).closed :=
    { counted := Cycle.start_invariant fits fresh
      within := nofun, served := nofun, serving := nofun, exited := nofun }
  exact (system configured n).statesMeet_iff_stepsMeet step_books
    (fun books _ stepped => step_graceful books stepped) actions initial nofun

/-- One client of a one-worker server, whose connection the worker has taken
when a SIGHUP arrives. -/
def signalledWhileTaken : List (Action 1) :=
  [.test, .call .accept, .call .acceptorEnterCs, .call .enqueue,
    .call .acceptorLeaveCs, .call .incrementSemaphore,
    .call (.waitSemaphore soleThread), .call (.enterCs soleThread),
    .call (.dequeue soleThread), .sighup, .test]

/-- If the worker finishes before `main` looks at the queue, the teardown is
graceful. -/
theorem graceful_iff_finished :
    (system true 1).StatesMeet Graceful (start 1 fun _ => none)
      (signalledWhileTaken ++
        [.call (.leaveCs soleThread), .call (.finish soleThread), .waitPending]) :=
  (graceful_iff true 1 (by decide) (fun _ => none) _).mpr (by decide)

/-- The queue is empty as soon as the worker has taken the connection, and the
teardown may start then. -/
theorem not_graceful_taken :
    ¬ (system true 1).StatesMeet Graceful (start 1 fun _ => none)
      (signalledWhileTaken ++ [.waitPending]) := by
  intro meets
  have graceful := meets.last rfl rfl
  exact absurd (graceful.2 soleThread) (by decide)

end Reloading

end RemoteCommand
