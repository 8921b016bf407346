import RemoteCommand.GracefulReload
import RemoteCommand.StillServing

/-!
# A server that can still be restarted

The teardown of a serve cycle needs an acceptor that leaves the accept loop and a
queue that becomes empty.  It is out of reach in the states in which the acceptor
is inside with a full queue, and in those in which a connection waits and no
worker is left to take it.  From all other states a SIGHUP and the threads lead
to it.  What `destroy_thread_pool` does in the teardown is told in `ThreadPool`.
-/

namespace RemoteCommand

open Machine Transition

namespace Cycle

variable {n : Nat} {state next : Cycle n} {action : Action n}

theorem step_accepted (stepped : state.step action = some next) :
    state.accepted.length ≤ next.accepted.length := by
  cases step_cases stepped with
  | accept =>
      rw [List.length_append]
      exact Nat.le_add_right _ _
  | enqueue guard tried =>
      unfold tryEnqueue at tried
      split at tried <;> cases tried <;> exact Nat.le_refl _
  | _ => exact Nat.le_refl _

theorem Invariant.size_eq (holds : state.Invariant) :
    state.connections.size =
      (state.semaphore + state.passed + state.acceptor.unannounced : Nat) := by
  obtain ⟨queued, holds⟩ := holds
  rw [holds.represents.size_eq, holds.count]

/-- A connection that is in the queue or on its way there is behind. -/
theorem Invariant.behind_iff (holds : state.Invariant) :
    state.taken.length < state.accepted.length ↔
      ¬ (state.connections.size = 0 ∧ state.acceptor.holding = []) := by
  rw [holds.size_eq, holds.accepted_length, ← List.length_eq_zero_iff]
  omega

theorem Drained.not_behind (drained : state.Drained) (holds : state.Invariant) :
    ¬ state.taken.length < state.accepted.length := by
  obtain ⟨left, empty⟩ := drained
  rw [holds.behind_iff, not_not, left]
  exact ⟨empty, rfl⟩

theorem Drained.not_jammed (drained : state.Drained) : ¬ state.Jammed := by
  rintro ⟨⟨record, place | place⟩, _⟩ <;> cases drained.1.symm.trans place

/-- Behind the accept loop the workers empty the queue. -/
theorem Calm.drains (calm : state.Calm) (left : state.acceptor = .left) :
    ∃ final, (inner n).Leads state final ∧ final.Drained := by
  induction behind : state.accepted.length - state.taken.length
    generalizing state with
  | zero =>
      refine ⟨state, .here _ state, left, ?_⟩
      by_contra filled
      have some := calm.counted.behind_iff.mpr fun empty => filled empty.1
      omega
  | succ count inductionHypothesis =>
      obtain ⟨served, serves⟩ := calm.serves_behind (.inr left) (by omega)
      have within := leads_within serves.leads calm.counted
      have taken := serves.taken
      have accepted := within.accepted
      obtain ⟨final, leads, drained⟩ :=
        inductionHypothesis serves.calm (serves.acceptor.trans left)
          (by rw [accepted, taken]; omega)
      exact ⟨final, serves.leads.trans leads, drained⟩

end Cycle

namespace Reloading

variable {n : Nat} {configured : Bool} {state next : Reloading n}
  {action : Action n}

/-- Some continuation comes to the teardown. -/
def Restarts (configured : Bool) (state : Reloading n) : Prop :=
  ∃ final, (system configured n).Leads state final ∧ final.teardown = true

/-- A worker leaves its loop. -/
def exits : Action n → Bool
  | .call action => Cycle.exits action
  | _ => false

/-! ## What a step does to the cycle -/

theorem call_moves {action : Cycle.Action n}
    (stepped : state.step configured (.call action) = some next) :
    state.cycle.step action = some next.cycle := by
  unfold step at stepped
  split at stepped
  · cases stepped
  · obtain ⟨_, called⟩ := Option.ite_none_right_eq_some.mp stepped
    obtain ⟨cycle, moved, rfl⟩ := Option.map_eq_some_iff.mp called
    exact moved

theorem step_moves (stepped : state.step configured action = some next) :
    next.cycle = state.cycle ∨
      ∃ call, state.cycle.step call = some next.cycle := by
  cases (step_cases stepped).2 with
  | leaves _ moved => exact .inr ⟨_, moved⟩
  | call moved => exact .inr ⟨_, moved⟩
  | turns | waits | teardown => exact .inl rfl

/-- The teardown is begun with an empty queue behind the accept loop. -/
theorem step_teardown (stepped : state.step configured action = some next)
    (begun : next.teardown = true) :
    state.cycle.Drained ∧ next.cycle = state.cycle := by
  obtain ⟨running, step⟩ := step_cases stepped
  cases step with
  | teardown left empty => exact ⟨⟨left, empty⟩, rfl⟩
  | leaves | turns | call | waits => cases running.symm.trans begun

theorem step_gone (stepped : state.step configured action = some next) :
    next.cycle.gone = state.cycle.gone + if exits action then 1 else 0 := by
  have stays (apart : exits action = false)
      (moved : next.cycle = state.cycle ∨
        state.cycle.step .leaveLoop = some next.cycle) :
      next.cycle.gone =
        state.cycle.gone + if exits action then 1 else 0 := by
    rw [apart]
    rcases moved with same | left
    · rw [same]
      rfl
    · exact Cycle.step_gone left
  cases action with
  | call action => exact Cycle.step_gone (call_moves stepped)
  | sighup | test | interrupted =>
      refine stays rfl ?_
      cases (step_cases stepped).2 with
      | leaves _ moved => exact .inr moved
      | turns => exact .inl rfl
  | waitPending =>
      refine stays rfl (.inl ?_)
      cases (step_cases stepped).2 with
      | leaves different | turns different => exact absurd rfl different
      | waits | teardown => rfl

/-- What holds in every reachable state. -/
structure Sound (state : Reloading n) : Prop where
  counted : state.cycle.Invariant
  drained : state.teardown = true → state.cycle.Drained

theorem step_sound (sound : state.Sound)
    (stepped : state.step configured action = some next) : next.Sound where
  counted := by
    rcases step_moves stepped with same | ⟨call, moved⟩
    · rw [same]
      exact sound.counted
    · exact Cycle.step_invariant sound.counted moved
  drained begun := by
    obtain ⟨drained, same⟩ := step_teardown stepped begun
    rwa [same]

theorem run_gone (actions : List (Action n)) :
    ∀ {state final : Reloading n},
      (system configured n).run state actions = some final →
        final.cycle.gone = state.cycle.gone + actions.countP exits := by
  induction actions with
  | nil =>
      intro state final ran
      cases ran
      rfl
  | cons action actions inductionHypothesis =>
      intro state final ran
      obtain ⟨next, stepped, rest⟩ := ((system configured n).run_cons).mp ran
      rw [inductionHypothesis rest, step_gone stepped, List.countP_cons]
      omega

/-! ## Without hope -/

/-- The queue will not become empty behind the accept loop. -/
structure Hopeless (state : Reloading n) : Prop where
  counted : state.cycle.Invariant
  running : state.teardown = false
  blocked : state.cycle.Jammed ∨
    ¬ state.cycle.Alive ∧
      state.cycle.taken.length < state.cycle.accepted.length

theorem Hopeless.not_drained (hopeless : state.Hopeless) :
    ¬ state.cycle.Drained := by
  intro drained
  rcases hopeless.blocked with jammed | ⟨_, behind⟩
  · exact drained.not_jammed jammed
  · exact drained.not_behind hopeless.counted behind

theorem step_hopeless (hopeless : state.Hopeless)
    (stepped : state.step configured action = some next) : next.Hopeless where
  counted := by
    rcases step_moves stepped with same | ⟨call, moved⟩
    · rw [same]
      exact hopeless.counted
    · exact Cycle.step_invariant hopeless.counted moved
  running := by
    by_contra begun
    exact hopeless.not_drained
      (step_teardown stepped (Bool.eq_true_of_not_eq_false begun)).1
  blocked := by
    rcases step_moves stepped with same | ⟨call, moved⟩
    · rw [same]
      exact hopeless.blocked
    · rcases hopeless.blocked with jammed | ⟨dead, behind⟩
      · obtain ⟨queued, holds⟩ := hopeless.counted
        exact .inl (jammed.step holds moved).1
      · obtain ⟨still, taken⟩ := Cycle.step_notAlive dead moved
        rw [taken]
        exact .inr ⟨still, behind.trans_le (Cycle.step_accepted moved)⟩

theorem Hopeless.not_restarts (hopeless : state.Hopeless) :
    ¬ state.Restarts configured := by
  rintro ⟨final, leads, begun⟩
  have still : final.Hopeless := leads.keeps step_hopeless hopeless
  cases still.running.symm.trans begun

/-! ## The way to the teardown -/

/-- What the threads do in the cycle they do here. -/
theorem leads_cycle {cycle : Cycle n}
    (leads : (Cycle.inner n).Leads state.cycle cycle)
    (running : state.teardown = false) :
    ∃ next, (system configured n).Leads state next ∧ next.cycle = cycle ∧
      next.teardown = false := by
  have follows {before behind : Cycle n} {action : Cycle.Action n}
      {follower : Reloading n}
      (related : follower.cycle = before ∧ follower.teardown = false)
      (stepped : (Cycle.inner n).step before action = some behind) :
      ∃ other, (system configured n).Leads follower other ∧
        other.cycle = behind ∧ other.teardown = false := by
    obtain ⟨rfl, running⟩ := related
    have admitted : follower.admits action = true := by
      cases action with
      | acceptError | accept | acceptNoMemory | leaveLoop => cases stepped
      | _ => rfl
    have moved : (system configured n).step follower (.call action) =
        some { follower with
          cycle := behind
          tested := follower.tested && !accepts action
          closed := follower.closed ++ follower.closedBy action } := by
      have inCycle := Cycle.inner_step stepped
      simp [system, step, running, admitted, inCycle]
    exact ⟨_, .step moved, rfl, running⟩
  obtain ⟨last, goes, same, still⟩ := leads.follow follows ⟨rfl, running⟩
  exact ⟨last, goes, same, still⟩

/-- A SIGHUP gets `main` out of the accept loop, at the test or in `accept`. -/
theorem leads_left (running : state.teardown = false)
    (place : state.cycle.acceptor = .accept) :
    ∃ next, (system configured n).Leads state next ∧
      next.cycle = { state.cycle with acceptor := .left } ∧
      next.teardown = false := by
  have leaves (here : Reloading n) (same : here.cycle = state.cycle) :
      here.leaveLoop = some { here with
        cycle := { state.cycle with acceptor := .left } } := by
    simp [leaveLoop, Cycle.step, same, place]
  have interrupts (here : Reloading n) (same : here.cycle = state.cycle)
      (still : here.teardown = false) (tested : here.tested = true) :
      ∃ next, (system configured n).Leads here next ∧
        next.cycle = { state.cycle with acceptor := .left } ∧
        next.teardown = false := by
    let signalled : Reloading n := { here with signalled := true }
    have sighup : (system configured n).step here .sighup = some signalled := by
      simp [system, step, still, signalled]
    have interrupted :
        (system configured n).step signalled .interrupted =
          signalled.leaveLoop := by
      simp [system, step, still, tested, signalled]
    rw [leaves signalled same] at interrupted
    exact ⟨_, (System.Leads.step sighup).trans (.step interrupted), rfl, still⟩
  by_cases tested : state.tested = true
  · exact interrupts state rfl running tested
  · by_cases seen : (configured && state.signalled) = true
    · have left : (system configured n).step state .test = state.leaveLoop := by
        simp [system, step, running, place, tested, seen]
      rw [leaves state rfl] at left
      exact ⟨_, .step left, rfl, running⟩
    · let passed : Reloading n := { state with tested := true }
      have passes : (system configured n).step state .test = some passed := by
        simp [system, step, running, place, tested, seen, passed]
      obtain ⟨next, leads, rest⟩ := interrupts passed rfl running rfl
      exact ⟨next, (System.Leads.step passes).trans leads, rest⟩

theorem restarts_drained (running : state.teardown = false)
    (drained : state.cycle.Drained) : state.Restarts configured := by
  obtain ⟨left, empty⟩ := drained
  have begins : (system configured n).step state .waitPending =
      some { state with teardown := true } := by
    simp [system, step, running, left, empty]
  exact ⟨_, .step begins, rfl⟩

/-- Behind what leads there. -/
theorem Restarts.before (restarts : next.Restarts configured)
    (leads : (system configured n).Leads state next) :
    state.Restarts configured := by
  obtain ⟨final, goes, begun⟩ := restarts
  exact ⟨final, leads.trans goes, begun⟩

/-- The workers empty the queue behind the accept loop. -/
theorem restarts_left (running : state.teardown = false)
    (calm : state.cycle.Calm) (left : state.cycle.acceptor = .left) :
    state.Restarts configured := by
  obtain ⟨cycle, drains, drained⟩ := calm.drains left
  obtain ⟨next, leads, rfl, still⟩ := leads_cycle drains running
  exact (restarts_drained still drained).before leads

theorem restarts_alive (running : state.teardown = false)
    (holds : state.cycle.Invariant) (alive : state.cycle.Alive)
    (clear : ¬ state.cycle.Jammed) : state.Restarts configured := by
  obtain ⟨calm, toCalm, isCalm⟩ := Cycle.calms holds alive clear
  by_cases left : calm.acceptor = .left
  · obtain ⟨next, leads, rfl, still⟩ := leads_cycle toCalm running
    exact (restarts_left still isCalm left).before leads
  · obtain ⟨back, toBack, calmBack, place⟩ := isCalm.comesBack left
    obtain ⟨next, leads, rfl, still⟩ :=
      leads_cycle (toCalm.trans toBack) running
    obtain ⟨behind, leaves, sameCycle, goesOn⟩ := leads_left still place
    have calmBehind : behind.cycle.Calm := by
      rw [sameCycle]
      exact
        { counted := Cycle.step_invariant calmBack.counted (by
            simp [Cycle.step, place] :
            next.cycle.step .leaveLoop =
              some { next.cycle with acceptor := .left })
          free := calmBack.free
          alive := calmBack.alive }
    have atLeft : behind.cycle.acceptor = .left := by
      rw [sameCycle]
    exact (restarts_left goesOn calmBehind atLeft).before (leads.trans leaves)

/-- With nothing in the queue or on its way there the workers are not needed. -/
theorem restarts_empty (running : state.teardown = false)
    (holds : state.cycle.Invariant) (empty : state.cycle.connections.size = 0)
    (none : state.cycle.acceptor.holding = []) :
    state.Restarts configured := by
  have size := holds.size_eq
  rw [empty] at size
  cases place : state.cycle.acceptor with
  | left => exact restarts_drained running ⟨place, empty⟩
  | accept =>
      obtain ⟨next, leads, sameCycle, still⟩ := leads_left running place
      refine (restarts_drained still ?_).before leads
      rw [sameCycle]
      exact ⟨rfl, empty⟩
  | leaveCs | incrementSemaphore =>
      simp only [place, AcceptorPc.unannounced] at size
      omega
  | enterCs | enqueue | retry =>
      rw [place] at none
      cases none

/-! ## Exactly when a server can be restarted -/

theorem start_sound (fits : (n : Int) ≤ intMax) (fresh : Nat → Option Nat) :
    (start n fresh).Sound where
  counted := Cycle.start_invariant fits fresh
  drained := nofun

/-- The only worker leaves its loop with the first client, and a second one
comes. -/
def secondClient : List (Action 1) :=
  [.test, .call .accept, .call .acceptorEnterCs, .call .enqueue,
    .call .acceptorLeaveCs, .call .incrementSemaphore,
    .call (.waitSemaphore soleThread), .call (.enterCs soleThread),
    .call (.dequeue soleThread), .call (.leaveCs soleThread),
    .call (.exit soleThread), .test, .call .accept]

end Reloading

end RemoteCommand
