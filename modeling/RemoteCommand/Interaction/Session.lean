import RemoteCommand.Interaction.Program
import RemoteCommand.Transition.Confluence

/-!
# Two programs that talk to each other

Two endpoints run a program each and exchange data over a connection without
loss.  A delivery says how much of the data on its way a receive gets: what it
gets at once, whatever is sent later, and what it gets when the sender is idle.
The steps of the two sides commute, so that one schedule that ends with both
programs finished or blocked decides all schedules.
-/

namespace RemoteCommand.Interaction

open Transition

/-- What an operation does to the connection, with the response it gets.  A
receive gets `none` when the peer has closed and everything is delivered. -/
inductive Action (S : Signature) (β : Type) (o : S.Op) where
  | internal
  | send (data : List β) (response : S.Resp o)
  | receive (length : Nat) (respond : Option (List β) → S.Resp o)
  | close (response : S.Resp o)

/-- A side of the connection: the operations, and how its host answers those
that are internal. -/
structure Host (S : Signature) (β σ : Type) where
  action : (o : S.Op) → Action S β o
  answer : σ → (o : S.Op) → S.Resp o × σ

/-- How data is delivered. -/
structure Delivery (β : Type) where
  Stream : Type
  push : Stream → List β → Stream
  /-- What a receive gets, whatever is sent later. -/
  ready : Stream → Nat → Option (List β × Stream)
  /-- What a receive gets when nothing is sent before the receiver answers. -/
  rest : Stream → Nat → Option (List β × Stream)
  ready_push : ∀ {stream length data left}, ready stream length =
    some (data, left) → ∀ more,
      ready (push stream more) length = some (data, push left more)

variable {S : Signature} {β σ : Type} {D : Delivery β}

/-- A side of a session. -/
structure Endpoint (S : Signature) (σ : Type) (D : Delivery β)
    (α : Type) where
  program : Prog S α
  host : σ
  inbox : D.Stream
  closed : Bool

/-- What a side can do: a step on its own, possibly with data for the peer; a
step when the peer is idle; a step when the peer has closed. -/
inductive Move (S : Signature) (σ : Type) (D : Delivery β)
    (α : Type) where
  | finished
  | now (next : Endpoint S σ D α) (sent : Option (List β))
  | whenIdle (next : Endpoint S σ D α)
  | whenClosed (next : Endpoint S σ D α)

namespace Endpoint

variable {α : Type} (host : Host S β σ)

def deliver (side : Endpoint S σ D α) : Option (List β) → Endpoint S σ D α
  | none => side
  | some data => { side with inbox := D.push side.inbox data }

def move (side : Endpoint S σ D α) : Move S σ D α :=
  match side.program with
  | .ret _ => .finished
  | .loop body init next =>
      .now { side with program := .unroll body init next } none
  | .op o next =>
      match host.action o with
      | .internal =>
          let (response, after) := host.answer side.host o
          .now { side with program := next response, host := after } none
      | .send data response =>
          .now { side with program := next response }
            (if side.closed then none else some data)
      | .close response =>
          .now { side with program := next response, closed := true } none
      | .receive length respond =>
          match D.ready side.inbox length with
          | some (data, left) =>
              .now { side with program := next (respond (some data)),
                               inbox := left } none
          | none =>
              match D.rest side.inbox length with
              | some (data, left) =>
                  .whenIdle { side with program := next (respond (some data)),
                                        inbox := left }
              | none =>
                  .whenClosed { side with program := next (respond none) }

/-- The side sends nothing before it receives something. -/
def idle (side : Endpoint S σ D α) (peerClosed : Bool) : Bool :=
  side.closed ||
    match side.move host with
    | .finished => true
    | .whenClosed _ => ! peerClosed
    | _ => false

theorem move_deliver {side next : Endpoint S σ D α} {sent : Option (List β)}
    (moves : side.move host = .now next sent) (data : Option (List β)) :
    (side.deliver data).move host = .now (next.deliver data) sent := by
  cases data with
  | none => exact moves
  | some data =>
      obtain ⟨program, state, inbox, closed⟩ := side
      cases program with
      | ret => cases moves
      | loop =>
          cases moves
          rfl
      | op o after =>
          simp only [move, deliver] at moves ⊢
          cases acts : host.action o with
          | receive length respond =>
              simp only [acts] at moves ⊢
              cases arrives : D.ready inbox length with
              | none =>
                  simp only [arrives] at moves
                  split at moves <;> cases moves
              | some found =>
                  simp only [arrives] at moves
                  cases moves
                  rw [D.ready_push arrives data]
          | _ =>
              simp only [acts] at moves ⊢
              cases moves
              rfl

/-- What the next step of a side sends. -/
def sends (side : Endpoint S σ D α) : Option (List β) :=
  match side.move host with
  | .now _ sent => sent
  | _ => none

theorem idle_of_closed {side : Endpoint S σ D α} (closed : side.closed = true)
    (peerClosed : Bool) : side.idle host peerClosed = true := by
  simp [Endpoint.idle, closed]

variable {E : Delivery β} {γ : Type}

/-- The next step of a side, with what it does to the peer. -/
def advance (side : Endpoint S σ D α) (peer : Endpoint S σ E γ) :
    Option (Endpoint S σ D α × Endpoint S σ E γ) :=
  match side.move host with
  | .finished => none
  | .now next sent => some (next, peer.deliver sent)
  | .whenIdle next =>
      if peer.idle host side.closed then some (next, peer) else none
  | .whenClosed next => if peer.closed then some (next, peer) else none

/-- The three kinds of steps. -/
theorem advance_cases {side next : Endpoint S σ D α}
    {peer after : Endpoint S σ E γ}
    (advances : side.advance host peer = some (next, after)) :
    side.move host = .now next (side.sends host) ∧
        after = peer.deliver (side.sends host) ∨
      side.sends host = none ∧ after = peer ∧
        (side.move host = .whenIdle next ∧
            peer.idle host side.closed = true ∨
          side.move host = .whenClosed next ∧ peer.closed = true) := by
  unfold advance at advances
  cases moves : side.move host with
  | finished => simp [moves] at advances
  | now other sent =>
      simp only [moves, Option.some.injEq, Prod.mk.injEq] at advances
      obtain ⟨rfl, rfl⟩ := advances
      simp [sends, moves]
  | whenIdle other =>
      simp only [moves, Option.ite_none_right_eq_some, Option.some.injEq,
        Prod.mk.injEq] at advances
      obtain ⟨idle, rfl, rfl⟩ := advances
      simp [sends, moves, idle]
  | whenClosed other =>
      simp only [moves, Option.ite_none_right_eq_some, Option.some.injEq,
        Prod.mk.injEq] at advances
      obtain ⟨closed, rfl, rfl⟩ := advances
      simp [sends, moves, closed]

/-- What a step does to the peer is to send it something, if anything. -/
theorem advance_peer {side next : Endpoint S σ D α}
    {peer after : Endpoint S σ E γ}
    (advances : side.advance host peer = some (next, after)) :
    ∃ sent, after = peer.deliver sent := by
  rcases side.advance_cases host advances with ⟨_, same⟩ | ⟨_, same, _⟩
  · exact ⟨_, same⟩
  · exact ⟨none, same⟩

/-- What an operation does to the program and the host. -/
theorem advance_op {o : S.Op} {rest : S.Resp o → Prog S α} {machine : σ}
    {inbox : D.Stream} {closed : Bool} {next : Endpoint S σ D α}
    {peer after : Endpoint S σ E γ}
    (advances : advance host ⟨.op o rest, machine, inbox, closed⟩ peer =
      some (next, after)) :
    host.action o = .internal ∧
        next.program = rest (host.answer machine o).1 ∧
          next.host = (host.answer machine o).2 ∨
      host.action o ≠ .internal ∧
        ∃ response, next.program = rest response ∧ next.host = machine := by
  simp only [advance, move] at advances
  cases acts : host.action o with
  | internal =>
      simp only [acts] at advances
      cases advances
      exact .inl ⟨rfl, rfl, rfl⟩
  | receive length respond =>
      refine .inr ⟨nofun, ?_⟩
      simp only [acts] at advances
      cases ready : D.ready inbox length with
      | some found =>
          simp only [ready] at advances
          cases advances
          exact ⟨_, rfl, rfl⟩
      | none =>
          cases left : D.rest inbox length <;>
            simp only [ready, left, Option.ite_none_right_eq_some] at advances
          all_goals
            cases advances.2
            exact ⟨_, rfl, rfl⟩
  | _ =>
      simp only [acts] at advances
      cases advances
      exact .inr ⟨nofun, _, rfl, rfl⟩

/-- A side that goes on while it is idle has closed. -/
theorem closed_of_idle {side next : Endpoint S σ D α}
    {peer after : Endpoint S σ E γ}
    (advances : side.advance host peer = some (next, after))
    (idle : side.idle host peer.closed = true) : side.closed = true := by
  rcases side.advance_cases host advances with
    ⟨moves, _⟩ | ⟨_, _, ⟨moves, _⟩ | ⟨moves, peerClosed⟩⟩
  · simpa [Endpoint.idle, moves] using idle
  · simpa [Endpoint.idle, moves] using idle
  · simpa [Endpoint.idle, moves, peerClosed] using idle

/-- After closing, nothing is sent and the side stays closed. -/
theorem advance_closed {side next : Endpoint S σ D α}
    {peer after : Endpoint S σ E γ}
    (advances : side.advance host peer = some (next, after))
    (closed : side.closed = true) :
    side.sends host = none ∧ next.closed = true := by
  obtain ⟨program, state, inbox, isClosed⟩ := side
  cases closed
  cases program with
  | ret => cases advances
  | loop =>
      cases advances
      exact ⟨rfl, rfl⟩
  | op o resume =>
      simp only [advance, move] at advances
      cases acts : host.action o with
      | receive length respond =>
          simp only [acts] at advances
          cases ready : D.ready inbox length with
          | some found =>
              simp only [ready] at advances
              cases advances
              simp [sends, move, acts, ready]
          | none =>
              cases rest : D.rest inbox length <;>
                simp only [ready, rest, Option.ite_none_right_eq_some]
                  at advances
              all_goals
                cases advances.2
                simp [sends, move, acts, ready, rest]
      | _ =>
          simp only [acts] at advances
          cases advances
          simp [sends, move, acts]

/-- The step of a side after a step of the peer. -/
theorem advance_after {mine mine₁ mine₂ : Endpoint S σ D α}
    {peer peer₁ peer₂ : Endpoint S σ E γ}
    (first : mine.advance host peer = some (mine₁, peer₁))
    (second : peer.advance host mine = some (peer₂, mine₂)) :
    mine₂.advance host peer₂ =
      some (mine₁.deliver (peer.sends host),
        peer₂.deliver (mine.sends host)) := by
  have delivered : mine₂ = mine.deliver (peer.sends host) := by
    rcases peer.advance_cases host second with ⟨_, same⟩ | ⟨none, same, _⟩
    · exact same
    · rw [none]
      exact same
  rcases mine.advance_cases host first with ⟨moves, _⟩ | ⟨quiet, _, waits⟩
  · rw [delivered]
    simp only [advance, move_deliver host moves]
  -- The peer has closed; its step changes nothing for a side that waits.
  · have closed : peer.closed = true := by
      rcases waits with ⟨_, idle⟩ | ⟨_, closed⟩
      · exact peer.closed_of_idle host second idle
      · exact closed
    obtain ⟨nothing, stays⟩ := peer.advance_closed host second closed
    rw [nothing] at delivered
    cases delivered
    rw [nothing, quiet]
    rcases waits with ⟨moves, _⟩ | ⟨moves, _⟩
    · simp [advance, moves, deliver, idle_of_closed host stays]
    · simp [advance, moves, deliver, stays]

/-- The steps of the two sides can be taken in either order. -/
theorem advance_joins {mine mine₁ mine₂ : Endpoint S σ D α}
    {peer peer₁ peer₂ : Endpoint S σ E γ}
    (first : mine.advance host peer = some (mine₁, peer₁))
    (second : peer.advance host mine = some (peer₂, mine₂)) :
    ∃ mine₃ peer₃, peer₁.advance host mine₁ = some (peer₃, mine₃) ∧
      mine₂.advance host peer₂ = some (mine₃, peer₃) :=
  ⟨_, _, advance_after host second first, advance_after host first second⟩

end Endpoint

/-! ## Sessions -/

inductive Side where
  | left
  | right
  deriving DecidableEq, Repr

def Side.other : Side → Side
  | left => right
  | right => left

variable {E : Delivery β} {α γ : Type} (host : Host S β σ)

/-- The two sides take steps in any order. -/
def session (D E : Delivery β) (α γ : Type) :
    System (Endpoint S σ D α × Endpoint S σ E γ) Side where
  step state side :=
    match side with
    | .left => state.1.advance host state.2
    | .right => (state.2.advance host state.1).map Prod.swap

theorem session_commutes : (session host D E α γ).Commutes := by
  intro state first second one another different stepped other
  cases one <;> cases another
  · exact absurd rfl different
  · obtain ⟨⟨peer, mine⟩, answered, rfl⟩ := Option.map_eq_some_iff.1 other
    obtain ⟨mine₃, peer₃, fromFirst, fromSecond⟩ :=
      state.1.advance_joins host stepped answered
    exact ⟨(mine₃, peer₃), Option.map_eq_some_iff.2 ⟨_, fromFirst, rfl⟩,
      fromSecond⟩
  · obtain ⟨⟨peer, mine⟩, answered, rfl⟩ := Option.map_eq_some_iff.1 stepped
    obtain ⟨mine₃, peer₃, fromFirst, fromSecond⟩ :=
      state.1.advance_joins host other answered
    exact ⟨(mine₃, peer₃), fromSecond,
      Option.map_eq_some_iff.2 ⟨_, fromFirst, rfl⟩⟩
  · exact absurd rfl different

/-- Some schedule leads from one state to the other. -/
def Reaches (state final : Endpoint S σ D α × Endpoint S σ E γ) : Prop :=
  ∃ schedule, (session host D E α γ).run state schedule = some final

namespace Reaches

variable {host} {state middle final : Endpoint S σ D α × Endpoint S σ E γ}

theorem refl (state : Endpoint S σ D α × Endpoint S σ E γ) :
    Reaches host state state :=
  ⟨[], rfl⟩

theorem step {side : Side}
    (stepped : (session host D E α γ).step state side = some middle)
    (rest : Reaches host middle final) : Reaches host state final := by
  obtain ⟨schedule, ran⟩ := rest
  exact ⟨side :: schedule, (System.run_cons _).2 ⟨middle, stepped, ran⟩⟩

theorem trans (first : Reaches host state middle)
    (rest : Reaches host middle final) : Reaches host state final := by
  obtain ⟨schedule, ran⟩ := first
  induction schedule generalizing state with
  | nil =>
      cases ran
      exact rest
  | cons side schedule inductionHypothesis =>
      obtain ⟨next, stepped, ran⟩ := (System.run_cons _).1 ran
      exact step stepped (inductionHypothesis ran)

/-- Nothing distinguishes the two sides. -/
theorem swap (reaches : Reaches host state final) :
    Reaches host state.swap final.swap := by
  obtain ⟨schedule, ran⟩ := reaches
  induction schedule generalizing state with
  | nil =>
      cases ran
      exact refl _
  | cons side schedule inductionHypothesis =>
      obtain ⟨next, stepped, ran⟩ := (System.run_cons _).1 ran
      have swapped : (session host E D γ α).step state.swap side.other =
          some next.swap := by
        cases side with
        | left => simpa [session, Side.other] using stepped
        | right =>
            obtain ⟨pair, answered, rfl⟩ := Option.map_eq_some_iff.1 stepped
            simpa [session, Side.other] using answered
      exact step swapped (inductionHypothesis ran)

/-- What holds of the program and the host of the left side, when its steps
preserve it.  The right side cannot change them. -/
theorem left_invariant {inv : Prog S α → σ → Prop}
    (unrolls : ∀ {ρ δ : Type} {body : ρ → Prog S (ρ ⊕ δ)} {init : ρ}
      {next : δ → Prog S α} {machine : σ},
      inv (.loop body init next) machine →
        inv (Prog.unroll body init next) machine)
    (answers : ∀ {o : S.Op} {next : S.Resp o → Prog S α} {machine : σ},
      inv (.op o next) machine → host.action o = .internal →
        inv (next (host.answer machine o).1) (host.answer machine o).2)
    (communicates : ∀ {o : S.Op} {next : S.Resp o → Prog S α} {machine : σ},
      inv (.op o next) machine → host.action o ≠ .internal →
        ∀ response, inv (next response) machine)
    (reaches : Reaches host state final)
    (initial : inv state.1.program state.1.host) :
    inv final.1.program final.1.host := by
  obtain ⟨schedule, ran⟩ := reaches
  let holds (current : Endpoint S σ D α × Endpoint S σ E γ) : Prop :=
    inv current.1.program current.1.host
  have started : holds state := initial
  refine (session host D E α γ).run_invariant ?_ schedule started ran
  rintro ⟨side, peer⟩ mover ⟨next, after⟩ kept stepped
  cases mover with
  | left =>
      obtain ⟨program, machine, inbox, closed⟩ := side
      cases program with
      | ret value => cases stepped
      | loop body init rest =>
          cases stepped
          exact unrolls kept
      | op o rest =>
          rcases Endpoint.advance_op host stepped with
            ⟨acts, same, sameHost⟩ | ⟨acts, response, same, sameHost⟩
          · simp only [holds, same, sameHost]
            exact answers kept acts
          · simp only [holds, same, sameHost]
            exact communicates kept acts response
  | right =>
      obtain ⟨⟨mover, mine⟩, answered, joined⟩ :=
        Option.map_eq_some_iff.1 stepped
      cases joined
      obtain ⟨sent, rfl⟩ := peer.advance_peer host answered
      cases sent <;> exact kept

/-- What every value satisfies that the left side can return, its value
satisfies. -/
theorem left_returns {property : α → Prop} (reaches : Reaches host state final)
    (returns : state.1.program.Returns property) {value : α}
    (returned : final.1.program = .ret value) : property value := by
  let inv (program : Prog S α) (_ : σ) : Prop := program.Returns property
  have initial : inv state.1.program state.1.host := returns
  have holds : inv final.1.program final.1.host := by
    refine reaches.left_invariant ?_ ?_ ?_ initial
    · exact fun within => within.unroll
    · exact fun within _ => within _
    · exact fun within _ response => within response
  simp only [inv, returned] at holds
  exact holds

/-- A program that diverges does so for ever. -/
theorem left_diverges {δ : Type} {next : δ → Prog S α}
    (reaches : Reaches host state final)
    (diverges : state.1.program = Prog.diverge.bind next) :
    final.1.program = Prog.diverge.bind next := by
  obtain ⟨schedule, ran⟩ := reaches
  let unchanged (current : Endpoint S σ D α × Endpoint S σ E γ) : Prop :=
    current.1.program = Prog.diverge.bind next
  have started : unchanged state := diverges
  refine (session host D E α γ).run_invariant ?_ schedule started ran
  intro current side after holds stepped
  cases side with
  | left =>
      obtain ⟨⟨program, machine, inbox, closed⟩, peer⟩ := current
      cases holds
      cases stepped
      rfl
  | right =>
      obtain ⟨⟨peer, mine⟩, answered, rfl⟩ := Option.map_eq_some_iff.1 stepped
      obtain ⟨sent, rfl⟩ := current.2.advance_peer host answered
      cases sent <;> exact holds

/-- A finished side only collects what is sent to it. -/
theorem left_finished (reaches : Reaches host state final) {value : α}
    (finished : state.1.program = .ret value) :
    final.1.program = .ret value ∧ final.1.host = state.1.host := by
  obtain ⟨schedule, ran⟩ := reaches
  let unchanged (current : Endpoint S σ D α × Endpoint S σ E γ) : Prop :=
    current.1.program = .ret value ∧ current.1.host = state.1.host
  have started : unchanged state := ⟨finished, rfl⟩
  refine (session host D E α γ).run_invariant ?_ schedule started ran
  intro current side next holds stepped
  cases side with
  | left => simp [session, Endpoint.advance, Endpoint.move, holds.1] at stepped
  | right =>
      obtain ⟨⟨peer, mine⟩, answered, rfl⟩ := Option.map_eq_some_iff.1 stepped
      obtain ⟨sent, rfl⟩ := current.2.advance_peer host answered
      cases sent <;> exact holds

end Reaches

/-- Two schedules can be continued to the same state. -/
theorem Reaches.joins {host : Host S β σ}
    {state first second : Endpoint S σ D α × Endpoint S σ E γ}
    (one : Reaches host state first) (another : Reaches host state second) :
    ∃ joined, Reaches host first joined ∧ Reaches host second joined := by
  obtain ⟨schedule, ran⟩ := one
  obtain ⟨others, otherRan⟩ := another
  obtain ⟨rest, otherRest, joined, completed, otherCompleted⟩ :=
    System.Commutes.joins (session_commutes host) others ran otherRan
  exact ⟨joined, ⟨rest, completed⟩, ⟨otherRest, otherCompleted⟩⟩

/-- What a side has returned, and the state of its host, do not depend on the
schedule. -/
theorem finished_unique {host : Host S β σ}
    {state first second : Endpoint S σ D α × Endpoint S σ E γ}
    (one : Reaches host state first) (another : Reaches host state second)
    {value result : α} (finished : first.1.program = .ret value)
    (returned : second.1.program = .ret result) :
    result = value ∧ second.1.host = first.1.host := by
  obtain ⟨joined, completed, otherCompleted⟩ := one.joins another
  have fromFirst := completed.left_finished finished
  have fromSecond := otherCompleted.left_finished returned
  rw [fromFirst.1] at fromSecond
  obtain ⟨same, hosts⟩ := fromSecond
  cases same
  exact ⟨rfl, hosts.symm.trans fromFirst.2⟩

/-- Whenever the left side has returned, the property holds of the value and
of the state of its host. -/
def Yields (host : Host S β σ) (state : Endpoint S σ D α × Endpoint S σ E γ)
    (property : α → σ → Prop) : Prop :=
  ∀ reached, Reaches host state reached →
    ∀ value, reached.1.program = .ret value → property value reached.1.host

/-- One schedule after which it has returned decides. -/
theorem Reaches.yields {host : Host S β σ}
    {state final : Endpoint S σ D α × Endpoint S σ E γ}
    {property : α → σ → Prop} {value : α} (reaches : Reaches host state final)
    (finished : final.1.program = .ret value)
    (holds : property value final.1.host) : Yields host state property := by
  intro reached other result returned
  obtain ⟨same, host⟩ := finished_unique reaches other finished returned
  rw [same, host]
  exact holds

/-- It is enough to look at the schedules from a state that is reached. -/
theorem Reaches.yields_behind {host : Host S β σ}
    {state middle : Endpoint S σ D α × Endpoint S σ E γ}
    {property : α → σ → Prop} (reaches : Reaches host state middle)
    (yields : Yields host middle property) : Yields host state property := by
  intro reached other value returned
  obtain ⟨joined, fromMiddle, fromReached⟩ := reaches.joins other
  obtain ⟨finished, same⟩ := fromReached.left_finished returned
  rw [← same]
  exact yields joined fromMiddle value finished

/-- When one schedule ends with both sides finished, all schedules are bounded
and lead there. -/
theorem Reaches.completes {host : Host S β σ}
    {state final : Endpoint S σ D α × Endpoint S σ E γ}
    (reaches : Reaches host state final) {value : α} {result : γ}
    (finished : final.1.program = .ret value)
    (returned : final.2.program = .ret result) :
    ∃ steps, ∀ schedule reached,
      (session host D E α γ).run state schedule = some reached →
        ∃ rest, (session host D E α γ).run reached rest = some final ∧
          schedule.length + rest.length = steps := by
  obtain ⟨labels, ran⟩ := reaches
  have terminal : (session host D E α γ).Terminal final := by
    intro side
    cases side with
    | left => simp [session, Endpoint.advance, Endpoint.move, finished]
    | right => simp [session, Endpoint.advance, Endpoint.move, returned]
  refine ⟨labels.length, fun schedule reached other => ?_⟩
  exact System.Commutes.run_completes (session_commutes host) terminal
    schedule ran other

/-! ## Progress of one side -/

/-- The messages arrive one after the other. -/
def Endpoint.deliverAll (side : Endpoint S σ D α) (sent : List (List β)) :
    Endpoint S σ D α :=
  sent.foldl (fun side data => side.deliver (some data)) side

theorem Endpoint.deliverAll_same (side : Endpoint S σ D α)
    (sent : List (List β)) :
    (side.deliverAll sent).program = side.program ∧
      (side.deliverAll sent).closed = side.closed := by
  induction sent generalizing side with
  | nil => exact ⟨rfl, rfl⟩
  | cons data sent inductionHypothesis => exact inductionHypothesis _

/-- A side goes on by itself, and sends some messages. -/
inductive Advances (host : Host S β σ) : Endpoint S σ D α →
    List (List β) → Endpoint S σ D α → Prop
  | refl (side : Endpoint S σ D α) : Advances host side [] side
  | step {side next final : Endpoint S σ D α} {sent : Option (List β)}
      {more : List (List β)} :
      side.move host = .now next sent → Advances host next more final →
      Advances host side (sent.toList ++ more) final

namespace Advances

variable {host} {side middle final : Endpoint S σ D α}
  {sent more : List (List β)}

theorem trans (first : Advances host side sent middle)
    (rest : Advances host middle more final) :
    Advances host side (sent ++ more) final := by
  induction first with
  | refl => exact rest
  | step moves _ inductionHypothesis =>
      rw [List.append_assoc]
      exact .step moves (inductionHypothesis rest)

theorem left (peer : Endpoint S σ E γ)
    (advances : Advances host side sent final) :
    Reaches host (side, peer) (final, peer.deliverAll sent) := by
  induction advances generalizing peer with
  | refl => exact .refl _
  | @step side next final sent more moves _ inductionHypothesis =>
      have stepped : (session host D E α γ).step (side, peer) .left =
          some (next, peer.deliver sent) := by
        simp [session, Endpoint.advance, moves]
      refine .step stepped ?_
      cases sent <;> exact inductionHypothesis _

theorem leftQuiet (peer : Endpoint S σ E γ)
    (advances : Advances host side [] final) :
    Reaches host (side, peer) (final, peer) :=
  advances.left peer

theorem right (peer : Endpoint S σ E γ)
    (advances : Advances host side sent final) :
    Reaches host (peer, side) (peer.deliverAll sent, final) :=
  (advances.left peer).swap

/-- A step that sends nothing. -/
theorem quiet {next : Endpoint S σ D α}
    (moves : side.move host = .now next none)
    (rest : Advances host next sent final) : Advances host side sent final := by
  have stepped := step moves rest
  exact stepped

section Steps

variable {o : S.Op} {next : S.Resp o → Prog S α} {state after : σ}
  {inbox behind : D.Stream} {closed : Bool} {response : S.Resp o}

theorem internal (acts : host.action o = .internal)
    (answers : host.answer state o = (response, after))
    (rest : Advances host ⟨next response, after, inbox, closed⟩ sent final) :
    Advances host ⟨.op o next, state, inbox, closed⟩ sent final := by
  refine quiet ?_ rest
  simp [Endpoint.move, acts, answers]

theorem send {data : List β} (acts : host.action o = .send data response)
    (rest : Advances host ⟨next response, state, inbox, false⟩ sent final) :
    Advances host ⟨.op o next, state, inbox, false⟩ (data :: sent) final := by
  have moves : Endpoint.move host ⟨.op o next, state, inbox, false⟩ =
      .now ⟨next response, state, inbox, false⟩ (some data) := by
    simp [Endpoint.move, acts]
  exact .step moves rest

theorem close (acts : host.action o = .close response)
    (rest : Advances host ⟨next response, state, inbox, true⟩ sent final) :
    Advances host ⟨.op o next, state, inbox, closed⟩ sent final := by
  refine quiet ?_ rest
  simp [Endpoint.move, acts]

theorem receive {length : Nat} {respond : Option (List β) → S.Resp o}
    {data : List β} (acts : host.action o = .receive length respond)
    (arrives : D.ready inbox length = some (data, behind))
    (rest : Advances host ⟨next (respond (some data)), state, behind, closed⟩
      sent final) :
    Advances host ⟨.op o next, state, inbox, closed⟩ sent final := by
  refine quiet ?_ rest
  simp [Endpoint.move, acts, arrives]

theorem loop {ρ δ : Type} {body : ρ → Prog S (ρ ⊕ δ)} {init : ρ}
    {next : δ → Prog S α}
    (rest : Advances host ⟨.unroll body init next, state, inbox, closed⟩
      sent final) :
    Advances host ⟨.loop body init next, state, inbox, closed⟩ sent final :=
  .quiet rfl rest

end Steps

end Advances

end RemoteCommand.Interaction
