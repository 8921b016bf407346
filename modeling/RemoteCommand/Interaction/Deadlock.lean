import RemoteCommand.Interaction.Delivery

/-!
# Sessions without deadlock

Two open sides that both wait for data while none is on its way have no step.
Since the steps of the two sides commute, such a state is reached by all
schedules or by none: one schedule that leads to a state behind which no
deadlock can be reached is enough.  A state is of that kind when a side has
closed, when the program of a side never receives, or when nothing goes on for
another reason: over streams in pieces, each side may wait for a larger piece
than the one on its way.
-/

namespace RemoteCommand.Interaction

open Transition

variable {S : Signature} {β σ : Type} {D E : Delivery β} {α γ : Type}
  {host : Host S β σ}

namespace Endpoint

/-- The side waits for data, and none is on its way. -/
def Blocked (host : Host S β σ) (side : Endpoint S σ D α) : Prop :=
  ∃ next, side.move host = .whenClosed next

end Endpoint

/-- The operation receives nothing. -/
def Silent (host : Host S β σ) (o : S.Op) : Prop :=
  ∀ length respond, host.action o ≠ .receive length respond

/-- Both sides wait for data that is not on its way, and both connections are
open. -/
structure Deadlocked (host : Host S β σ)
    (state : Endpoint S σ D α × Endpoint S σ E γ) : Prop where
  left : state.1.Blocked host
  right : state.2.Blocked host
  leftOpen : state.1.closed = false
  rightOpen : state.2.closed = false

/-- No schedule leads to a deadlock. -/
def NeverDeadlocks (host : Host S β σ)
    (state : Endpoint S σ D α × Endpoint S σ E γ) : Prop :=
  ∀ reached, Reaches host state reached → ¬ Deadlocked host reached

theorem Deadlocked.terminal {state : Endpoint S σ D α × Endpoint S σ E γ}
    (deadlocked : Deadlocked host state) :
    (session host D E α γ).Terminal state := by
  obtain ⟨⟨_, left⟩, ⟨_, right⟩, leftOpen, rightOpen⟩ := deadlocked
  intro side
  cases side with
  | left => simp [session, Endpoint.advance, left, rightOpen]
  | right => simp [session, Endpoint.advance, right, leftOpen]

namespace Reaches

variable {state reached final : Endpoint S σ D α × Endpoint S σ E γ}

/-- A state without steps is reached by every schedule. -/
theorem terminal (reaches : Reaches host state reached)
    (ends : Reaches host state final)
    (terminal : (session host D E α γ).Terminal final) :
    Reaches host reached final := by
  obtain ⟨labels, ran⟩ := ends
  obtain ⟨others, reachedIt⟩ := reaches
  obtain ⟨rest, completed, _⟩ := System.Commutes.run_completes
    (session_commutes host) terminal others ran reachedIt
  exact ⟨rest, completed⟩

/-- A connection that was closed stays closed. -/
theorem left_closed (reaches : Reaches host state final)
    (closed : state.1.closed = true) : final.1.closed = true := by
  obtain ⟨schedule, ran⟩ := reaches
  let isClosed (current : Endpoint S σ D α × Endpoint S σ E γ) : Prop :=
    current.1.closed = true
  have started : isClosed state := closed
  refine (session host D E α γ).run_invariant ?_ schedule started ran
  intro current side next holds stepped
  cases side with
  | left => exact (current.1.advance_closed host stepped holds).2
  | right =>
      obtain ⟨⟨peer, mine⟩, answered, rfl⟩ := Option.map_eq_some_iff.1 stepped
      obtain ⟨sent, rfl⟩ := current.2.advance_peer host answered
      cases sent <;> exact holds

/-- A program that never receives goes on so. -/
theorem left_silent (reaches : Reaches host state final)
    (silent : state.1.program.Only (Silent host)) :
    final.1.program.Only (Silent host) := by
  let inv (program : Prog S α) (_ : σ) : Prop := program.Only (Silent host)
  have initial : inv state.1.program state.1.host := silent
  refine reaches.left_invariant ?_ ?_ ?_ initial
  · exact fun within => within.unroll
  · exact fun within _ => within.2 _
  · exact fun within _ response => within.2 response

end Reaches

/-- A program that never receives does not wait. -/
theorem Endpoint.not_blocked {side : Endpoint S σ D α}
    (silent : side.program.Only (Silent host)) : ¬ side.Blocked host := by
  rintro ⟨next, waits⟩
  obtain ⟨program, machine, inbox, closed⟩ := side
  cases program with
  | ret => cases waits
  | loop => cases waits
  | op o rest =>
      simp only [Endpoint.move] at waits
      cases acts : host.action o with
      | receive length respond => exact silent.1 length respond acts
      | _ =>
          simp only [acts] at waits
          cases waits

/-- A side has closed, or never receives again, or nothing goes on although the
sides are not deadlocked. -/
inductive Settled (host : Host S β σ)
    (state : Endpoint S σ D α × Endpoint S σ E γ) : Prop
  | leftClosed : state.1.closed = true → Settled host state
  | rightClosed : state.2.closed = true → Settled host state
  | leftSilent : state.1.program.Only (Silent host) → Settled host state
  | rightSilent : state.2.program.Only (Silent host) → Settled host state
  | stuck : (session host D E α γ).Terminal state →
      ¬ Deadlocked host state → Settled host state

theorem Settled.not_deadlocked
    {state reached : Endpoint S σ D α × Endpoint S σ E γ}
    (settled : Settled host state) (reaches : Reaches host state reached) :
    ¬ Deadlocked host reached := by
  intro deadlocked
  cases settled with
  | leftClosed closed =>
      have still := reaches.left_closed closed
      rw [deadlocked.leftOpen] at still
      cases still
  | rightClosed closed =>
      have still := reaches.swap.left_closed closed
      rw [Prod.fst_swap, deadlocked.rightOpen] at still
      cases still
  | leftSilent silent =>
      exact Endpoint.not_blocked (reaches.left_silent silent) deadlocked.left
  | rightSilent silent =>
      exact Endpoint.not_blocked (reaches.swap.left_silent silent)
        deadlocked.right
  | stuck terminal free =>
      obtain ⟨schedule, ran⟩ := reaches
      cases schedule with
      | nil =>
          cases ran
          exact free deadlocked
      | cons side schedule =>
          obtain ⟨next, stepped, _⟩ := (System.run_cons _).1 ran
          rw [terminal side] at stepped
          cases stepped

/-- Nothing distinguishes the two sides. -/
theorem Deadlocked.swap {state : Endpoint S σ D α × Endpoint S σ E γ}
    (deadlocked : Deadlocked host state) : Deadlocked host state.swap :=
  ⟨deadlocked.right, deadlocked.left, deadlocked.rightOpen,
    deadlocked.leftOpen⟩

theorem Settled.swap {state : Endpoint S σ D α × Endpoint S σ E γ}
    (settled : Settled host state) : Settled host state.swap := by
  cases settled with
  | leftClosed closed => exact .rightClosed closed
  | rightClosed closed => exact .leftClosed closed
  | leftSilent silent => exact .rightSilent silent
  | rightSilent silent => exact .leftSilent silent
  | stuck terminal free =>
      refine .stuck (fun side => ?_) fun deadlocked => free deadlocked.swap
      cases side with
      | left => exact Option.map_eq_none_iff.1 (terminal .right)
      | right => exact Option.map_eq_none_iff.2 (terminal .left)

/-- Some schedule settles the session. -/
def CanSettle (host : Host S β σ)
    (state : Endpoint S σ D α × Endpoint S σ E γ) : Prop :=
  ∃ settled, Reaches host state settled ∧ Settled host settled

namespace CanSettle

variable {state middle : Endpoint S σ D α × Endpoint S σ E γ}

/-- A session that some schedule settles never deadlocks. -/
theorem neverDeadlocks (settles : CanSettle host state) :
    NeverDeadlocks host state := by
  intro reached reaches deadlocked
  obtain ⟨settled, leads, holds⟩ := settles
  have back := leads.terminal reaches deadlocked.terminal
  exact holds.not_deadlocked back deadlocked

theorem of_reaches (reaches : Reaches host state middle)
    (settles : CanSettle host middle) : CanSettle host state := by
  obtain ⟨settled, leads, holds⟩ := settles
  exact ⟨settled, reaches.trans leads, holds⟩

theorem swap (settles : CanSettle host state) :
    CanSettle host state.swap := by
  obtain ⟨settled, leads, holds⟩ := settles
  exact ⟨settled.swap, leads.swap, holds.swap⟩

/-- A side goes on by itself. -/
theorem left {side next : Endpoint S σ D α} {peer : Endpoint S σ E γ}
    {sent : List (List β)} (advances : Advances host side sent next)
    (settles : CanSettle host (next, peer.deliverAll sent)) :
    CanSettle host (side, peer) :=
  settles.of_reaches (advances.left peer)

theorem right {side next : Endpoint S σ E γ} {peer : Endpoint S σ D α}
    {sent : List (List β)} (advances : Advances host side sent next)
    (settles : CanSettle host (peer.deliverAll sent, next)) :
    CanSettle host (peer, side) :=
  settles.of_reaches (advances.right peer)

theorem leftQuiet {side next : Endpoint S σ D α} {peer : Endpoint S σ E γ}
    (advances : Advances host side [] next)
    (settles : CanSettle host (next, peer)) : CanSettle host (side, peer) :=
  left advances settles

theorem rightQuiet {side next : Endpoint S σ E γ} {peer : Endpoint S σ D α}
    (advances : Advances host side [] next)
    (settles : CanSettle host (peer, next)) : CanSettle host (peer, side) :=
  right advances settles

theorem leftClosed {side next : Endpoint S σ D α} {peer : Endpoint S σ E γ}
    {sent : List (List β)} (advances : Advances host side sent next)
    (closed : next.closed = true) : CanSettle host (side, peer) :=
  left advances ⟨_, .refl _, .leftClosed closed⟩

theorem rightClosed {side next : Endpoint S σ E γ} {peer : Endpoint S σ D α}
    {sent : List (List β)} (advances : Advances host side sent next)
    (closed : next.closed = true) : CanSettle host (peer, side) :=
  right advances ⟨_, .refl _, .rightClosed closed⟩

theorem leftSilent {side : Endpoint S σ D α} {peer : Endpoint S σ E γ}
    (silent : side.program.Only (Silent host)) : CanSettle host (side, peer) :=
  ⟨_, .refl _, .leftSilent silent⟩

end CanSettle

/-- The side does nothing before it receives something. -/
def Endpoint.Resting (host : Host S β σ) (side : Endpoint S σ D α) : Prop :=
  ∀ next sent, side.move host ≠ .now next sent

namespace Cutting

variable {cutting other : Cutting} {o : S.Op} {next : S.Resp o → Prog S α}
  {machine : σ} {waiting : List β} {index length : Nat}
  {respond : Option (List β) → S.Resp o}
  {peer : Endpoint S σ (other.delivery β) γ}

/-- A side rests that waits for more than there is. -/
theorem resting_of_short {closed : Bool}
    (acts : host.action o = .receive length respond)
    (short : waiting.length < cutting.limit index length) :
    Endpoint.Resting host
      (⟨.op o next, machine, (waiting, index), closed⟩ :
        Endpoint S σ (cutting.delivery β) α) := by
  intro after sent moves
  by_cases nothing : waiting = []
  · subst nothing
    have asks : 0 < length :=
      Nat.pos_of_ne_zero fun none => by
        have := cutting.limit_le index length
        omega
    rw [move_empty acts asks] at moves
    cases moves
  · rw [move_short acts nothing (Nat.not_le_of_lt short)] at moves
    cases moves

/-- A side that waits for data is blocked when there is none. -/
theorem blocked {closed : Bool}
    (acts : host.action o = .receive length respond) (asks : 0 < length) :
    Endpoint.Blocked host
      (⟨.op o next, machine, ([], index), closed⟩ :
        Endpoint S σ (cutting.delivery β) α) :=
  ⟨_, move_empty acts asks⟩

/-- A side for which there is data gets a piece of it, or is stuck without a
deadlock. -/
theorem canSettle_receive (acts : host.action o = .receive length respond)
    (some_waiting : waiting ≠ []) (resting : peer.Resting host)
    (settles : CanSettle host
      ((⟨next (respond (some (waiting.take (cutting.limit index length)))),
        machine, (waiting.drop (cutting.limit index length), index + 1),
        false⟩ : Endpoint S σ (cutting.delivery β) α), peer)) :
    CanSettle host
      ((⟨.op o next, machine, (waiting, index), false⟩ :
        Endpoint S σ (cutting.delivery β) α), peer) := by
  by_cases enough : cutting.limit index length ≤ waiting.length
  · exact .left (.receive acts (ready_of_le enough) (.refl _)) settles
  · by_cases idle : peer.idle host false = true
    · exact settles.of_reaches (receive acts some_waiting idle)
    -- both sides wait for more data than there is
    · let side : Endpoint S σ (cutting.delivery β) α :=
        ⟨.op o next, machine, (waiting, index), false⟩
      have waits : ∃ after, side.move host = .whenIdle after :=
        ⟨_, move_short acts some_waiting enough⟩
      have peerWaits : ∃ after, peer.move host = .whenIdle after := by
        simp only [Endpoint.idle, Bool.or_eq_true, not_or] at idle
        cases moves : peer.move host with
        | finished => simp [moves] at idle
        | now after sent => exact absurd moves (resting after sent)
        | whenIdle after => exact ⟨after, rfl⟩
        | whenClosed after => simp [moves] at idle
      obtain ⟨_, waits⟩ := waits
      obtain ⟨_, peerWaits⟩ := peerWaits
      refine ⟨(side, peer), .refl _, .stuck ?_ ?_⟩
      · intro mover
        cases mover with
        | left => simp [session, Endpoint.advance, waits, side, idle]
        | right =>
            have busy : side.idle host peer.closed = false := by
              simp [Endpoint.idle, waits, side]
            simp [session, Endpoint.advance, peerWaits, busy]
      · intro deadlocked
        obtain ⟨_, blocked⟩ := deadlocked.left
        rw [waits] at blocked
        cases blocked

end Cutting

end RemoteCommand.Interaction
