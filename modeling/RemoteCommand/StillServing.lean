import RemoteCommand.FullQueue
import RemoteCommand.LostPermits
import RemoteCommand.Transition.Places
import RemoteCommand.Transition.Reachable

/-!
# A server that can still serve

Three things keep a cycle from ever taking another connection: all workers have
left their loops, the acceptor is inside the critical section with a full queue,
or the accept loop has been left and the queue is empty.  In all other states
that a run reaches, some continuation takes one.

The continuations are put together from `Calm` states, in which nobody is inside
the critical section and some worker is left.
-/

namespace RemoteCommand.Cycle

open Machine Transition

variable {n : Nat} {state next : Cycle n} {action : Action n}
  {queued : List Nat} {index : Fin n} {record : Nat}

/-- Some continuation takes another connection. -/
def StillServes (state : Cycle n) : Prop :=
  ∃ final, (system n).Leads state final ∧
    state.taken.length < final.taken.length

def Alive (state : Cycle n) : Prop :=
  ∃ index, state.worker index ≠ .exited

/-- The acceptor has come to a full queue, and holds the lock. -/
def Jammed (state : Cycle n) : Prop :=
  (∃ record, state.acceptor = .enqueue record ∨
    state.acceptor = .retry record) ∧ state.connections.isFull = true

/-! ## Workers that have left their loops -/

/-- The number of workers that have left their loops. -/
def gone (state : Cycle n) : Nat :=
  (Finset.univ.filter fun index => state.worker index = .exited).card

/-- A worker leaves its loop. -/
def exits : Action n → Bool
  | .exit _ => true
  | _ => false

theorem gone_eq (state : Cycle n) :
    state.gone = ∑ index, if state.worker index = .exited then 1 else 0 :=
  Finset.card_filter _ _

theorem gone_setWorker (state : Cycle n) (index : Fin n) (pc : WorkerPc)
    (inside : state.worker index ≠ .exited) :
    (state.setWorker index pc).gone =
      state.gone + if pc = .exited then 1 else 0 := by
  have moved := sum_update
    (fun place : WorkerPc => if place = .exited then 1 else 0)
    state.worker index pc
  simp only [if_neg inside, Nat.add_zero] at moved
  rw [gone_eq, gone_eq]
  exact moved

theorem step_gone (stepped : state.step action = some next) :
    next.gone = state.gone + if exits action then 1 else 0 := by
  have moves {index : Fin n} {pc : WorkerPc}
      (guard : state.worker index ≠ .exited)
      (stays : pc ≠ .exited) :
      (state.setWorker index pc).gone = state.gone + 0 := by
    rw [gone_setWorker state index pc guard, if_neg stays]
  cases step_cases stepped with
  | acceptError | acceptNoMemory | accept | leaveLoop | acceptorEnterCs
  | acceptorLeaveCs | incrementSemaphore => rfl
  | enqueue guard tried =>
      simp only [gone, (tryEnqueue_frame tried).1]
      rfl
  | @waitSemaphore index permits guard =>
      exact moves (by rw [guard]; nofun) nofun
  | @enterCs index guard => exact moves (by rw [guard]; nofun) nofun
  | @dequeue index record connections guard =>
      exact moves (by rw [guard]; nofun) nofun
  | @dequeueNull index connections guard =>
      exact moves (by rw [guard]; nofun) nofun
  | @leaveCs index record guard => exact moves (by rw [guard]; nofun) nofun
  | @finish index record guard => exact moves (by rw [guard]; nofun) nofun
  | @exit index record guard =>
      exact gone_setWorker state index .exited (by rw [guard]; nofun)

theorem run_gone (actions : List (Action n)) :
    ∀ {state final : Cycle n}, (system n).run state actions = some final →
      final.gone = state.gone + actions.countP exits := by
  induction actions with
  | nil =>
      intro state final ran
      cases ran
      rfl
  | cons action actions inductionHypothesis =>
      intro state final ran
      obtain ⟨next, stepped, rest⟩ := ((system n).run_cons).mp ran
      rw [inductionHypothesis rest, step_gone stepped, List.countP_cons]
      omega

theorem start_gone (fresh : Nat → Option Nat) : (start n fresh).gone = 0 := by
  refine Finset.card_eq_zero.mpr (Finset.filter_false_of_mem ?_)
  intro index _ out
  cases out

theorem alive_iff (state : Cycle n) : state.Alive ↔ state.gone < n := by
  constructor
  · rintro ⟨index, inside⟩
    have missing : index ∉
        Finset.univ.filter fun other => state.worker other = .exited :=
      fun member => inside (Finset.mem_filter.mp member).2
    have fewer := Finset.card_lt_univ_of_notMem missing
    rwa [Fintype.card_fin] at fewer
  · intro fewer
    by_contra none
    have all : ∀ index, state.worker index = .exited := by
      intro index
      by_contra inside
      exact none ⟨index, inside⟩
    have everyone : state.gone = n := by
      rw [gone, Finset.filter_true_of_mem fun index _ => all index,
        Finset.card_univ, Fintype.card_fin]
    omega

/-! ## What keeps a cycle from serving -/

/-- The accept loop has been left, and nothing is in the queue. -/
def Drained (state : Cycle n) : Prop :=
  state.acceptor = .left ∧ state.connections.size = 0

def Stuck (state : Cycle n) : Prop :=
  ¬ state.Alive ∨ state.Jammed ∨ state.Drained

theorem notAlive_iff {state : Cycle n} :
    ¬ state.Alive ↔ ∀ index, state.worker index = .exited := by
  simp only [Alive, not_exists, not_not]

/-- With the acceptor at a full queue, no worker is inside. -/
theorem Jammed.outside (jammed : state.Jammed)
    (holds : state.InvariantAt queued) (index : Fin n) :
    (state.worker index).inside = false := by
  obtain ⟨⟨record, place⟩, _⟩ := jammed
  have acceptorInside : state.inside .acceptor = true := by
    rcases place with first | retry
    · simp only [inside, first, AcceptorPc.inside]
    · simp only [inside, retry, AcceptorPc.inside]
  by_contra workerInside
  have alsoInside : state.inside (.worker index) = true :=
    Bool.eq_true_of_not_eq_false workerInside
  cases holds.exclusive.unique acceptorInside alsoInside

theorem Jammed.locked (jammed : state.Jammed)
    (holds : state.InvariantAt queued) : state.holder ≠ none := by
  obtain ⟨⟨record, place⟩, _⟩ := jammed
  have holding := (holds.exclusive .acceptor).mp (by
    rcases place with first | retry
    · simp only [inside, first, AcceptorPc.inside]
    · simp only [inside, retry, AcceptorPc.inside])
  rw [holding]
  exact Option.some_ne_none _

/-- The acceptor finds the queue full again, and the workers cannot make
room. -/
theorem Jammed.step (jammed : state.Jammed) (holds : state.InvariantAt queued)
    (stepped : state.step action = some next) :
    next.Jammed ∧ next.taken = state.taken := by
  have outside := jammed.outside holds
  have locked := jammed.locked holds
  have elsewhere {place : AcceptorPc} (guard : state.acceptor = place)
      (notEnqueue : ∀ record, place ≠ .enqueue record)
      (notRetry : ∀ record, place ≠ .retry record) : False := by
    obtain ⟨⟨record, first | retry⟩, _⟩ := jammed
    · exact notEnqueue record (guard.symm.trans first)
    · exact notRetry record (guard.symm.trans retry)
  cases step_cases stepped with
  | acceptError guard | acceptNoMemory guard | accept guard | leaveLoop guard
  | acceptorEnterCs guard | acceptorLeaveCs guard | incrementSemaphore guard =>
      exact (elsewhere guard nofun nofun).elim
  | @enqueue record next guard tried =>
      rcases tryEnqueue_cases holds tried with ⟨_, rfl⟩ | ⟨room, _⟩
      · exact ⟨⟨⟨record, .inr rfl⟩, jammed.2⟩, rfl⟩
      · have full := (Queue.isFull_iff holds.represents).mp jammed.2
        exact absurd (full.trans holds.capacity) room
  | waitSemaphore | finish | exit => exact ⟨jammed, rfl⟩
  | enterCs guard free => exact absurd free locked
  | @dequeue index record connections guard =>
      have none := outside index
      rw [guard] at none
      cases none
  | @dequeueNull index connections guard =>
      have none := outside index
      rw [guard] at none
      cases none
  | @leaveCs index record guard =>
      have none := outside index
      rw [guard] at none
      cases none

/-- A state with no worker left stays so. -/
theorem step_notAlive (dead : ¬ state.Alive)
    (stepped : state.step action = some next) :
    ¬ next.Alive ∧ next.taken = state.taken := by
  have all := notAlive_iff.mp dead
  constructor
  · rw [alive_iff, step_gone stepped]
    rw [alive_iff] at dead
    omega
  · refine step_taken_eq (fun index atDequeue => ?_) stepped
    cases (all index).symm.trans atDequeue

/-- With an empty queue and no acceptor nobody comes to `dequeue`. -/
theorem Drained.step (drained : state.Drained)
    (holds : state.InvariantAt queued)
    (stepped : state.step action = some next) :
    next.Drained ∧ next.taken = state.taken := by
  obtain ⟨left, empty⟩ := drained
  have outside (index : Fin n) : state.worker index ≠ .dequeue := by
    intro atDequeue
    obtain ⟨oldest, rest, rfl⟩ := queued_cons_of_dequeue holds atDequeue
    have size := holds.represents.size_eq
    rw [empty, List.length_cons] at size
    omega
  refine ⟨?_, step_taken_eq outside stepped⟩
  cases step_cases stepped with
  | acceptError guard | acceptNoMemory guard | accept guard | leaveLoop guard
  | acceptorEnterCs guard | acceptorLeaveCs guard | incrementSemaphore guard =>
      cases left.symm.trans guard
  | enqueue guard =>
      rcases guard with guard | guard <;> cases left.symm.trans guard
  | dequeue guard | dequeueNull guard => exact absurd guard (outside _)
  | waitSemaphore | enterCs | leaveCs | finish | exit => exact ⟨left, empty⟩

theorem step_stuck (holds : state.Invariant) (stuck : state.Stuck)
    (stepped : state.step action = some next) :
    next.Stuck ∧ next.taken = state.taken := by
  obtain ⟨queued, holds⟩ := holds
  rcases stuck with dead | jammed | drained
  · exact (step_notAlive dead stepped).imp_left .inl
  · exact (jammed.step holds stepped).imp_left (.inr ∘ .inl)
  · exact (drained.step holds stepped).imp_left (.inr ∘ .inr)

/-- From such a state no continuation takes a connection. -/
theorem Stuck.not_stillServes (stuck : state.Stuck) (holds : state.Invariant) :
    ¬ state.StillServes := by
  rintro ⟨final, leads, more⟩
  let Still (later : Cycle n) : Prop :=
    later.Invariant ∧ later.Stuck ∧ later.taken = state.taken
  have keeps {before next : Cycle n} {action : Action n} (still : Still before)
      (stepped : before.step action = some next) : Still next := by
    obtain ⟨counted, stuck, same⟩ := still
    obtain ⟨still, taken⟩ := step_stuck counted stuck stepped
    exact ⟨step_invariant counted stepped, still, taken.trans same⟩
  have still : Still final := leads.keeps keeps ⟨holds, stuck, rfl⟩
  rw [still.2.2] at more
  exact Nat.lt_irrefl _ more

/-! ## The steps that deal with the connections that are there -/

/-- All steps but those of the acceptor at `accept`. -/
def inner (n : Nat) : System (Cycle n) (Action n) where
  step state action :=
    match action with
    | .acceptError | .accept | .acceptNoMemory | .leaveLoop => none
    | _ => state.step action

theorem inner_step (stepped : (inner n).step state action = some next) :
    state.step action = some next := by
  cases action with
  | acceptError | accept | acceptNoMemory | leaveLoop => cases stepped
  | _ => exact stepped

/-- What these steps keep. -/
structure Within (state final : Cycle n) : Prop where
  counted : final.Invariant
  accepted : final.accepted = state.accepted
  taken : state.taken.length ≤ final.taken.length
  left : final.acceptor = .left ↔ state.acceptor = .left

theorem inner_within {middle : Cycle n} (within : state.Within middle)
    (stepped : (inner n).step middle action = some next) :
    state.Within next := by
  have counted := step_invariant within.counted (inner_step stepped)
  have same (accepted : next.accepted = middle.accepted)
      (taken : middle.taken.length ≤ next.taken.length)
      (left : next.acceptor = .left ↔ middle.acceptor = .left) :
      state.Within next :=
    ⟨counted, accepted.trans within.accepted, within.taken.trans taken,
      left.trans within.left⟩
  cases step_cases (inner_step stepped) with
  | acceptError | acceptNoMemory | accept | leaveLoop => cases stepped
  | acceptorEnterCs guard | acceptorLeaveCs guard | incrementSemaphore guard =>
      exact same rfl (Nat.le_refl _)
        (iff_of_false nofun fun left => by cases guard.symm.trans left)
  | enqueue guard tried =>
      have notLeft : middle.acceptor ≠ .left := by
        rintro left
        rcases guard with guard | guard <;> cases guard.symm.trans left
      unfold tryEnqueue at tried
      split at tried <;> cases tried <;>
        exact same rfl (Nat.le_refl _) (iff_of_false nofun notLeft)
  | dequeue =>
      refine same rfl ?_ Iff.rfl
      rw [List.length_append]
      exact Nat.le_add_right _ _
  | waitSemaphore | enterCs | dequeueNull | leaveCs | finish | exit =>
      exact same rfl (Nat.le_refl _) Iff.rfl

theorem leads_within (leads : (inner n).Leads state next)
    (holds : state.Invariant) : state.Within next :=
  leads.keeps inner_within ⟨holds, rfl, Nat.le_refl _, Iff.rfl⟩

/-- They are steps of the cycle. -/
theorem leads_whole (leads : (inner n).Leads state next) :
    (system n).Leads state next := by
  have follows {before behind follower : Cycle n} {action : Action n}
      (same : before = follower)
      (stepped : (inner n).step before action = some behind) :
      ∃ other, (system n).Leads follower other ∧ behind = other := by
    cases same
    exact ⟨behind, .step (inner_step stepped), rfl⟩
  obtain ⟨last, goes, rfl⟩ := leads.follow follows rfl
  exact goes

/-- Where the accepted connections are. -/
theorem Invariant.accepted_length (holds : state.Invariant) :
    state.accepted.length =
      state.taken.length + (state.semaphore + state.passed +
        state.acceptor.unannounced) + state.acceptor.holding.length := by
  obtain ⟨queued, holds⟩ := holds
  rw [holds.order, List.length_append, List.length_append, List.length_map,
    holds.count]

/-! ## From one calm state to the next -/

/-- Nobody is inside the critical section, and some worker is left. -/
structure Calm (state : Cycle n) : Prop where
  counted : state.Invariant
  free : state.holder = none
  alive : state.Alive

/-- A connection is taken, and the acceptor is where it was. -/
structure Serves (state final : Cycle n) : Prop where
  leads : (inner n).Leads state final
  calm : final.Calm
  acceptor : final.acceptor = state.acceptor
  taken : final.taken.length = state.taken.length + 1

/-- In a calm state nobody is inside. -/
theorem Calm.outside (calm : state.Calm) (thread : Thread n) :
    state.inside thread = false := by
  obtain ⟨queued, holds⟩ := calm.counted
  by_contra isInside
  have holding := (holds.exclusive thread).mp
    (Bool.eq_true_of_not_eq_false isInside)
  cases calm.free.symm.trans holding

/-- A worker behind the semaphore takes the oldest connection. -/
theorem Calm.serves_enterCs (calm : state.Calm)
    (guard : state.worker index = .enterCs) : ∃ final, state.Serves final := by
  obtain ⟨queued, holds⟩ := calm.counted
  have free := calm.free
  let entered : Cycle n :=
    { state.setWorker index .dequeue with holder := some (.worker index) }
  have enters : (inner n).step state (.enterCs index) = some entered := by
    simp only [inner, step, guard, free, entered]
  have atDequeue : entered.worker index = .dequeue := setWorker_self ..
  have counted := enterCs_keeps holds guard free
  obtain ⟨oldest, rest, rfl⟩ := queued_cons_of_dequeue counted atDequeue
  obtain ⟨connections, took, _, _⟩ := Queue.dequeue_cons counted.represents
  let taken : Cycle n :=
    { entered.setWorker index (.leaveCs oldest) with
      connections, taken := entered.taken ++ [(index, oldest)] }
  have takes : (inner n).step entered (.dequeue index) = some taken := by
    have took : entered.connections.dequeue = .ok (some oldest, connections) :=
      took
    simp only [inner, step, atDequeue, took, taken]
  have atLeaveCs : taken.worker index = .leaveCs oldest := setWorker_self ..
  let final : Cycle n :=
    { taken.setWorker index (.serve oldest) with holder := none }
  have leaves : (inner n).step taken (.leaveCs index) = some final := by
    simp only [inner, step, atLeaveCs, final]
  have atServe : final.worker index = .serve oldest := setWorker_self ..
  have leads : (inner n).Leads state final :=
    ((System.Leads.step enters).trans (.step takes)).trans (.step leaves)
  refine ⟨final, leads, ?_, rfl, ?_⟩
  · exact
      { counted := (leads_within leads calm.counted).counted
        free := rfl
        alive := ⟨index, by simp [atServe]⟩ }
  · change (state.taken ++ [(index, oldest)]).length = _
    rw [List.length_append, List.length_singleton]

/-- A worker comes to its next place first. -/
theorem Calm.serves_moved {pc : WorkerPc} {permits : Nat}
    (calm : state.Calm)
    (stepped : (inner n).step state action =
      some { state.setWorker index pc with semaphore := permits })
    (stays : pc ≠ .exited)
    (later : ∀ moved : Cycle n, moved.Calm → moved.worker index = pc →
      moved.semaphore = permits → ∃ final, moved.Serves final) :
    ∃ final, state.Serves final := by
  let moved : Cycle n := { state.setWorker index pc with semaphore := permits }
  have place : moved.worker index = pc := setWorker_self ..
  have calmMoved : moved.Calm :=
    { counted := step_invariant calm.counted (inner_step stepped)
      free := calm.free
      alive := ⟨index, by rw [place]; exact stays⟩ }
  obtain ⟨final, serves⟩ := later moved calmMoved place rfl
  exact ⟨final, (System.Leads.step stepped).trans serves.leads, serves.calm,
    serves.acceptor, serves.taken⟩

theorem Calm.serves_waitSemaphore (calm : state.Calm)
    (guard : state.worker index = .waitSemaphore)
    (permit : 0 < state.semaphore) : ∃ final, state.Serves final := by
  obtain ⟨permits, available⟩ := Nat.exists_eq_add_of_lt permit
  refine @serves_moved _ _ (.waitSemaphore index) index .enterCs permits calm
    ?_ nofun fun moved calmMoved place _ => calmMoved.serves_enterCs place
  have positive : state.semaphore = permits + 1 := by omega
  simp only [inner, step, guard, positive]

/-- While there is a permit, or a worker has one, a connection is taken. -/
theorem Calm.serves (calm : state.Calm)
    (due : 0 < state.semaphore + state.passed) :
    ∃ final, state.Serves final := by
  have notInside (index : Fin n)
      (isInside : (state.worker index).inside = true) : False := by
    have outside := calm.outside (.worker index)
    cases isInside.symm.trans outside
  by_cases somePassed : 0 < state.passed
  · obtain ⟨index, member⟩ := Finset.card_pos.mp somePassed
    have passed := (Finset.mem_filter.mp member).2
    cases place : state.worker index with
    | enterCs => exact calm.serves_enterCs place
    | dequeue => exact (notInside index (by rw [place]; rfl)).elim
    | waitSemaphore | leaveCs | serve | exited =>
        rw [place] at passed
        cases passed
  · have permit : 0 < state.semaphore := by omega
    obtain ⟨index, stays⟩ := calm.alive
    cases place : state.worker index with
    | waitSemaphore => exact calm.serves_waitSemaphore place permit
    | enterCs => exact calm.serves_enterCs place
    | dequeue | leaveCs => exact (notInside index (by rw [place]; rfl)).elim
    | serve record =>
        refine @serves_moved _ _ (.finish index) index .waitSemaphore
          state.semaphore calm ?_ nofun fun moved calmMoved place same =>
            calmMoved.serves_waitSemaphore place (same.symm ▸ permit)
        simp only [inner, step, place]
        rfl
    | exited => exact absurd place stays

/-! ## To a calm state -/

/-- A calm state that the threads can come to. -/
def Calms (state : Cycle n) : Prop :=
  ∃ calm, (inner n).Leads state calm ∧ calm.Calm

/-- The acceptor comes back to `accept`. -/
def ComesBack (state : Cycle n) : Prop :=
  ∃ back, (inner n).Leads state back ∧ back.Calm ∧ back.acceptor = .accept

theorem ComesBack.calms (comes : state.ComesBack) : state.Calms := by
  obtain ⟨back, leads, calm, _⟩ := comes
  exact ⟨back, leads, calm⟩

theorem ComesBack.before (stepped : (inner n).step state action = some next)
    (comes : next.ComesBack) : state.ComesBack := by
  obtain ⟨back, leads, rest⟩ := comes
  exact ⟨back, (System.Leads.step stepped).trans leads, rest⟩

/-- A worker releases the lock. -/
theorem calms_leaveCs (holds : state.Invariant)
    (guard : state.worker index = .leaveCs record) : state.Calms := by
  let released : Cycle n :=
    { state.setWorker index (.serve record) with holder := none }
  have leaves : (inner n).step state (.leaveCs index) = some released := by
    simp only [inner, step, guard, released]
  have place : released.worker index = .serve record := setWorker_self ..
  exact ⟨released, .step leaves,
    { counted := step_invariant holds (inner_step leaves)
      free := rfl
      alive := ⟨index, by simp [place]⟩ }⟩

theorem calms_dequeue (holds : state.Invariant)
    (guard : state.worker index = .dequeue) : state.Calms := by
  obtain ⟨queued, counted⟩ := holds
  obtain ⟨oldest, rest, rfl⟩ := queued_cons_of_dequeue counted guard
  obtain ⟨connections, took, _, _⟩ := Queue.dequeue_cons counted.represents
  let taken : Cycle n :=
    { state.setWorker index (.leaveCs oldest) with
      connections, taken := state.taken ++ [(index, oldest)] }
  have takes : (inner n).step state (.dequeue index) = some taken := by
    simp only [inner, step, guard, took, taken]
  have counted : taken.Invariant :=
    step_invariant ⟨_, counted⟩ (inner_step takes)
  have place : taken.worker index = .leaveCs oldest := setWorker_self ..
  obtain ⟨calm, leads, isCalm⟩ := calms_leaveCs counted place
  exact ⟨calm, (System.Leads.step takes).trans leads, isCalm⟩

/-- The acceptor announces what it has put in the queue. -/
theorem comesBack_incrementSemaphore (calm : state.Calm)
    (guard : state.acceptor = .incrementSemaphore record) :
    state.ComesBack := by
  let back : Cycle n :=
    { state with acceptor := .accept, semaphore := state.semaphore + 1 }
  have increments : (inner n).step state .incrementSemaphore = some back := by
    simp only [inner, step, guard, back]
  exact ⟨back, .step increments,
    { counted := step_invariant calm.counted (inner_step increments)
      free := calm.free
      alive := calm.alive }, rfl⟩

theorem comesBack_leaveCs (holds : state.Invariant) (alive : state.Alive)
    (guard : state.acceptor = .leaveCs record) : state.ComesBack := by
  let released : Cycle n :=
    { state with acceptor := .incrementSemaphore record, holder := none }
  have leaves : (inner n).step state .acceptorLeaveCs = some released := by
    simp only [inner, step, guard, released]
  have calm : released.Calm :=
    { counted := step_invariant holds (inner_step leaves)
      free := rfl
      alive := alive }
  exact (comesBack_incrementSemaphore calm rfl).before leaves

/-- There is room, and the acceptor uses it. -/
theorem comesBack_enqueue (holds : state.Invariant) (alive : state.Alive)
    (guard : state.acceptor = .enqueue record ∨ state.acceptor = .retry record)
    (room : state.connections.isFull ≠ true) : state.ComesBack := by
  obtain ⟨queued, counted⟩ := holds
  obtain ⟨connections, stored, _, _⟩ := Queue.enqueue_room counted.represents
    (fun full => room ((Queue.isFull_iff counted.represents).mpr full)) record
  let put : Cycle n := { state with acceptor := .leaveCs record, connections }
  have puts : (inner n).step state .enqueue = some put := by
    have tried : state.tryEnqueue record = some put := by
      rw [tryEnqueue, stored]
      rfl
    rcases guard with guard | guard <;> simpa only [inner, step, guard]
  have counted : put.Invariant := step_invariant ⟨queued, counted⟩ (inner_step puts)
  exact (comesBack_leaveCs counted alive rfl).before puts

/-- Whoever is inside gets out. -/
theorem calms (holds : state.Invariant) (alive : state.Alive)
    (clear : ¬ state.Jammed) : state.Calms := by
  obtain ⟨queued, counted⟩ := holds
  have inside {thread : Thread n} (held : state.holder = some thread) :
      state.inside thread = true :=
    (counted.exclusive thread).mpr held
  cases held : state.holder with
  | none => exact ⟨state, .here _ state, ⟨queued, counted⟩, held, alive⟩
  | some thread =>
      have isInside := inside held
      cases thread with
      | acceptor =>
          simp only [Cycle.inside] at isInside
          cases place : state.acceptor with
          | enqueue record =>
              have room : state.connections.isFull ≠ true :=
                fun full => clear ⟨⟨record, .inl place⟩, full⟩
              exact (comesBack_enqueue ⟨queued, counted⟩ alive (.inl place)
                room).calms
          | retry record =>
              have room : state.connections.isFull ≠ true :=
                fun full => clear ⟨⟨record, .inr place⟩, full⟩
              exact (comesBack_enqueue ⟨queued, counted⟩ alive (.inr place)
                room).calms
          | leaveCs record =>
              exact (comesBack_leaveCs ⟨queued, counted⟩ alive place).calms
          | accept | enterCs | incrementSemaphore | left =>
              rw [place] at isInside
              cases isInside
      | worker index =>
          simp only [Cycle.inside] at isInside
          cases place : state.worker index with
          | dequeue => exact calms_dequeue ⟨queued, counted⟩ place
          | leaveCs record => exact calms_leaveCs ⟨queued, counted⟩ place
          | waitSemaphore | enterCs | serve | exited =>
              rw [place] at isInside
              cases isInside

/-! ## The acceptor comes back -/

theorem Invariant.isFull_iff (holds : state.Invariant) :
    state.connections.isFull = true ↔
      state.semaphore + state.passed + state.acceptor.unannounced = n := by
  obtain ⟨queued, holds⟩ := holds
  rw [Queue.isFull_iff holds.represents, holds.capacity, holds.count]

theorem comesBack_enterCs (calm : state.Calm)
    (guard : state.acceptor = .enterCs record)
    (room : state.connections.isFull ≠ true) : state.ComesBack := by
  have free := calm.free
  let entered : Cycle n :=
    { state with acceptor := .enqueue record, holder := some .acceptor }
  have enters : (inner n).step state .acceptorEnterCs = some entered := by
    simp only [inner, step, guard, free, entered]
  have counted := step_invariant calm.counted (inner_step enters)
  exact (comesBack_enqueue counted calm.alive (.inl rfl) room).before enters

/-- From a calm state the acceptor comes back; where the queue is full, a worker
makes room first. -/
theorem Calm.comesBack (calm : state.Calm) (going : state.acceptor ≠ .left) :
    state.ComesBack := by
  have notInside (isInside : state.acceptor.inside = true) : False := by
    have outside := calm.outside .acceptor
    cases isInside.symm.trans outside
  cases place : state.acceptor with
  | accept => exact ⟨state, .here _ state, calm, place⟩
  | enterCs record =>
      by_cases full : state.connections.isFull = true
      · have counted := calm.counted.isFull_iff.mp full
        simp only [place, AcceptorPc.unannounced, Nat.add_zero] at counted
        have workers : 0 < n := by
          obtain ⟨index, _⟩ := calm.alive
          exact index.pos
        obtain ⟨served, serves⟩ := calm.serves (by omega)
        have within := leads_within serves.leads calm.counted
        have before := calm.counted.accepted_length
        have after := within.counted.accepted_length
        rw [within.accepted, before, serves.taken, serves.acceptor] at after
        have room : served.connections.isFull ≠ true := by
          intro stillFull
          have again := within.counted.isFull_iff.mp stillFull
          rw [serves.acceptor] at again
          simp only [place, AcceptorPc.unannounced] at again after
          omega
        obtain ⟨back, leads, rest⟩ :=
          comesBack_enterCs serves.calm (serves.acceptor.trans place) room
        exact ⟨back, serves.leads.trans leads, rest⟩
      · exact comesBack_enterCs calm place full
  | incrementSemaphore record => exact comesBack_incrementSemaphore calm place
  | enqueue | retry | leaveCs =>
      exact (notInside (by rw [place]; rfl)).elim
  | left => exact absurd place going

/-! ## Exactly when a server still serves -/

/-- The acceptor takes one more client in. -/
theorem Calm.accepts (calm : state.Calm) (guard : state.acceptor = .accept) :
    ∃ next, (system n).step state .accept = some next ∧ next.Calm ∧
      next.acceptor ≠ .left ∧ next.taken = state.taken ∧
      next.accepted.length = state.accepted.length + 1 := by
  let next : Cycle n :=
    { state with
      acceptor := .enterCs state.accepted.length
      accepted := state.accepted ++ [state.accepted.length] }
  have accepts : state.step .accept = some next := by
    simp only [step, guard, if_true, next]
  refine ⟨next, accepts, ?_, by simp [next], rfl, ?_⟩
  · exact
      { counted := step_invariant calm.counted accepts
        free := calm.free
        alive := calm.alive }
  · change (state.accepted ++ [_]).length = _
    rw [List.length_append, List.length_singleton]

/-- What is accepted and not taken is taken, when the acceptor is at rest. -/
theorem Calm.serves_behind (calm : state.Calm)
    (rests : state.acceptor = .accept ∨ state.acceptor = .left)
    (behind : state.taken.length < state.accepted.length) :
    ∃ final, state.Serves final := by
  have counted := calm.counted.accepted_length
  refine calm.serves ?_
  rcases rests with place | place <;>
    simp only [place, AcceptorPc.unannounced, AcceptorPc.holding,
      List.length_nil] at counted <;> omega

theorem leads_stillServes {final : Cycle n}
    (leads : (system n).Leads state next) (serves : next.Serves final)
    (taken : state.taken.length ≤ next.taken.length) : state.StillServes := by
  refine ⟨final, leads.trans (leads_whole serves.leads), ?_⟩
  rw [serves.taken]
  exact Nat.lt_succ_of_le taken

/-- The accept loop has been left with connections in the queue. -/
theorem stillServes_left (holds : state.Invariant) (alive : state.Alive)
    (clear : ¬ state.Jammed) (left : state.acceptor = .left)
    (filled : state.connections.size ≠ 0) : state.StillServes := by
  obtain ⟨calm, leads, isCalm⟩ := calms holds alive clear
  have within := leads_within leads holds
  by_cases more : state.taken.length < calm.taken.length
  · exact ⟨calm, leads_whole leads, more⟩
  · have atRest := within.left.mpr left
    have behind : calm.taken.length < calm.accepted.length := by
      obtain ⟨queued, counted⟩ := holds
      have size := counted.represents.size_eq
      have order := congrArg List.length counted.order
      rw [List.length_append, List.length_append, List.length_map] at order
      rw [within.accepted]
      omega
    obtain ⟨final, serves⟩ := isCalm.serves_behind (.inr atRest) behind
    exact leads_stillServes (leads_whole leads) serves within.taken

/-- The acceptor comes back, takes a client in and comes back again. -/
theorem stillServes_going (holds : state.Invariant) (alive : state.Alive)
    (clear : ¬ state.Jammed) (going : state.acceptor ≠ .left) :
    state.StillServes := by
  obtain ⟨calm, toCalm, isCalm⟩ := calms holds alive clear
  have withinCalm := leads_within toCalm holds
  obtain ⟨back, toBack, calmBack, atAccept⟩ :=
    isCalm.comesBack fun left => going (withinCalm.left.mp left)
  have withinBack := leads_within toBack isCalm.counted
  obtain ⟨next, accepts, calmNext, goingNext, sameTaken, oneMore⟩ :=
    calmBack.accepts atAccept
  obtain ⟨last, toLast, calmLast, atRest⟩ := calmNext.comesBack goingNext
  have withinLast := leads_within toLast calmNext.counted
  have leads : (system n).Leads state last :=
    (((leads_whole toCalm).trans (leads_whole toBack)).trans
      (.step accepts)).trans (leads_whole toLast)
  have taken : state.taken.length ≤ last.taken.length := by
    have first := withinCalm.taken
    have second := withinBack.taken
    have third := withinLast.taken
    rw [sameTaken] at third
    omega
  by_cases behind : last.taken.length < last.accepted.length
  · obtain ⟨final, serves⟩ := calmLast.serves_behind (.inl atRest) behind
    exact leads_stillServes leads serves taken
  · refine ⟨last, leads, ?_⟩
    have counted := calmBack.counted.accepted_length
    have more := withinBack.taken
    have earlier := withinCalm.taken
    rw [withinLast.accepted, oneMore] at behind
    omega

theorem stillServes_iff (holds : state.Invariant) :
    state.StillServes ↔ ¬ state.Stuck := by
  constructor
  · exact fun serves stuck => stuck.not_stillServes holds serves
  · intro free
    have alive : state.Alive := by
      by_contra dead
      exact free (.inl dead)
    have clear : ¬ state.Jammed := fun jammed => free (.inr (.inl jammed))
    by_cases left : state.acceptor = .left
    · exact stillServes_left holds alive clear left fun empty =>
        free (.inr (.inr ⟨left, empty⟩))
    · exact stillServes_going holds alive clear left

/-- The only worker leaves its loop with the connection of its first client. -/
def workerLost : List (Action 1) :=
  [.accept, .acceptorEnterCs, .enqueue, .acceptorLeaveCs, .incrementSemaphore,
    .waitSemaphore soleThread, .enterCs soleThread, .dequeue soleThread,
    .leaveCs soleThread, .exit soleThread]

end RemoteCommand.Cycle
