import RemoteCommand.ServeCycle

/-!
# No connection is lost or served twice

Consequences of the invariant of a serve cycle, in every state that any
interleaving reaches: the accounting equation for the size of the queue, that
`dequeue` never hands `NULL` to a worker, the hand-over in accept order, mutual
exclusion, and the place of every accepted connection.
-/

namespace RemoteCommand.Cycle

open Machine Transition

variable {n : Nat} {state : Cycle n} {queued : List Nat}

/-- Every accepted record is in one place: with the acceptor, in the queue, or
taken. -/
theorem InvariantAt.one_place (holds : state.InvariantAt queued)
    {record : Nat} (member : record ∈ state.accepted) :
    state.acceptor.holding.count record + queued.count record +
      (state.taken.map Prod.snd).count record = 1 := by
  have nodup : state.accepted.Nodup := by
    rw [holds.numbered]
    exact List.nodup_range
  have once := List.count_eq_one_of_mem nodup member
  rw [holds.order, List.count_append, List.count_append] at once
  omega

/-- No record has been taken by two workers. -/
theorem InvariantAt.one_taker (holds : state.InvariantAt queued)
    {first second : Fin n} {record : Nat}
    (byFirst : (first, record) ∈ state.taken)
    (bySecond : (second, record) ∈ state.taken) : first = second := by
  have nodup : (state.taken.map Prod.snd).Nodup := by
    have whole : state.accepted.Nodup := by
      rw [holds.numbered]
      exact List.nodup_range
    rw [holds.order, List.append_assoc] at whole
    exact (List.nodup_append.mp whole).1
  have same := List.inj_on_of_nodup_map nodup byFirst bySecond rfl
  exact congrArg Prod.fst same

/-- A record in the queue has not been taken. -/
theorem InvariantAt.queued_notMem_taken (holds : state.InvariantAt queued)
    {record : Nat} (member : record ∈ queued) (index : Fin n) :
    (index, record) ∉ state.taken := by
  intro taken
  have accepted : record ∈ state.accepted := by
    rw [holds.order]
    exact List.mem_append_left _ (List.mem_append_right _ member)
  have one := holds.one_place accepted
  have inQueue : 0 < queued.count record := List.count_pos_iff.mpr member
  have once : 0 < (state.taken.map Prod.snd).count record :=
    List.count_pos_iff.mpr (List.mem_map_of_mem taken)
  omega

/-- What was taken stays taken. -/
theorem step_taken {next : Cycle n} {action : Action n}
    (stepped : state.step action = some next) :
    state.taken ⊆ next.taken := by
  cases step_cases stepped with
  | enqueue _ tried =>
      rw [(tryEnqueue_frame tried).2]
      exact List.Subset.refl _
  | dequeue => exact List.subset_append_left _ _
  | acceptError | acceptNoMemory | accept | leaveLoop | acceptorEnterCs
  | acceptorLeaveCs | incrementSemaphore | waitSemaphore | enterCs
  | dequeueNull | leaveCs | finish | exit => exact List.Subset.refl _

/-- In every reachable state of a cycle with `n` workers: the size of the
queue is the semaphore count, plus the workers past `wait_semaphore` that have
not dequeued, plus one if the acceptor has still to announce a record; neither
queue operation faults; a worker about to dequeue gets a record; the records
taken so far are the first accepted ones, in order; one thread at most is
inside the critical section; every accepted record is in exactly one place and
is taken by one worker at most, and what a worker serves is its own. -/
theorem connections_accounted (fits : (n : Int) ≤ intMax)
    (fresh : Nat → Option Nat) (actions : List (Action n)) (state : Cycle n)
    (ran : (system n).run (start n fresh) actions = some state) :
    ∃ queued : List Nat,
      state.connections.Represents queued ∧
      state.connections.size =
        (state.semaphore + state.passed + state.acceptor.unannounced : Nat) ∧
      (∀ record, ∃ answer, state.connections.enqueue record = .ok answer) ∧
      (∀ index, state.worker index = .dequeue →
        ∃ record rest, state.connections.dequeue = .ok (some record, rest)) ∧
      state.taken.map Prod.snd <+: state.accepted ∧
      (∀ thread other, state.inside thread = true →
        state.inside other = true → thread = other) ∧
      (∀ record ∈ state.accepted,
        state.acceptor.holding.count record + queued.count record +
          (state.taken.map Prod.snd).count record = 1) ∧
      (∀ first second record, (first, record) ∈ state.taken →
        (second, record) ∈ state.taken → first = second) ∧
      (∀ index record, (state.worker index).record = some record →
        (index, record) ∈ state.taken) := by
  obtain ⟨queued, holds⟩ := run_invariant fits fresh actions ran
  refine ⟨queued, holds.represents, ?_, ?_, ?_, ?_, ?_, ?_, ?_, holds.owner⟩
  · rw [holds.represents.size_eq, holds.count]
  · intro record
    by_cases full : queued.length = state.connections.capacity
    · exact ⟨_, Queue.enqueue_full holds.represents full record⟩
    · obtain ⟨next, stored, _⟩ :=
        Queue.enqueue_room holds.represents full record
      exact ⟨_, stored⟩
  · intro index atDequeue
    obtain ⟨oldest, rest, rfl⟩ := queued_cons_of_dequeue holds atDequeue
    obtain ⟨next, took, _⟩ := Queue.dequeue_cons holds.represents
    exact ⟨oldest, next, took⟩
  · rw [holds.order, List.append_assoc]
    exact List.prefix_append _ _
  · intro thread other threadInside otherInside
    exact holds.exclusive.unique threadInside otherInside
  · intro record member
    exact holds.one_place member
  · intro first second record byFirst bySecond
    exact holds.one_taker byFirst bySecond

/-- One client of a one-worker server, whose connection the worker has taken. -/
def oneTaken : List (Action 1) :=
  [.accept, .acceptorEnterCs, .enqueue, .acceptorLeaveCs, .incrementSemaphore,
    .waitSemaphore soleThread, .enterCs soleThread, .dequeue soleThread]

theorem connections_accounted_oneTaken :
    ∃ state : Cycle 1, (system 1).run (start 1 fun _ => none) oneTaken =
        some state ∧
      (∃ queued, state.connections.Represents queued ∧
        ∀ record ∈ state.accepted,
          state.acceptor.holding.count record + queued.count record +
            (state.taken.map Prod.snd).count record = 1) ∧
      state.accepted = [0] ∧ state.taken = [(soleThread, 0)] := by
  obtain ⟨state, ran⟩ := Option.isSome_iff_exists.mp
    (by decide : ((system 1).run (start 1 fun _ => none) oneTaken).isSome)
  obtain ⟨queued, represents, _, _, _, _, _, one, _⟩ :=
    connections_accounted (by decide) (fun _ => none) oneTaken state ran
  have found : ((system 1).run (start 1 fun _ => none) oneTaken).map
      (fun state => (state.accepted, state.taken)) =
        some ([0], [(soleThread, 0)]) := by decide
  rw [ran, Option.map_some, Option.some.injEq, Prod.mk.injEq] at found
  exact ⟨state, ran, ⟨queued, represents, one⟩, found⟩

end RemoteCommand.Cycle
