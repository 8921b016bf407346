import RemoteCommand.Interaction.Deadlock

/-!
# What both sides return

The steps of two sides commute, so what a side returns does not depend on the
schedule: one schedule that ends with both sides finished tells whether they
agree.
-/

namespace RemoteCommand.Interaction

open Transition

variable {S : Signature} {β σ : Type} {D E : Delivery β} {α γ : Type}
  {host : Host S β σ}

/-- The left side returns a value with the property. -/
def LeftReturns (host : Host S β σ)
    (state : Endpoint S σ D α × Endpoint S σ E γ) (property : α → Prop) :
    Prop :=
  ∃ final value, Reaches host state final ∧ final.1.program = .ret value ∧
    property value

/-- The right side returns a value with the property. -/
def RightReturns (host : Host S β σ)
    (state : Endpoint S σ D α × Endpoint S σ E γ) (property : γ → Prop) :
    Prop :=
  ∃ final value, Reaches host state final ∧ final.2.program = .ret value ∧
    property value

/-- Some schedule ends with both sides finished, and what they return is
related. -/
def Finishes (host : Host S β σ) (state : Endpoint S σ D α × Endpoint S σ E γ)
    (related : α → γ → Prop) : Prop :=
  ∃ final value result, Reaches host state final ∧
    final.1.program = .ret value ∧ final.2.program = .ret result ∧
      related value result

theorem RightReturns.swap {state : Endpoint S σ D α × Endpoint S σ E γ}
    {property : γ → Prop} (returns : RightReturns host state property) :
    LeftReturns host state.swap property := by
  obtain ⟨final, value, reaches, returned, holds⟩ := returns
  exact ⟨final.swap, value, reaches.swap, returned, holds⟩

theorem LeftReturns.swap {state : Endpoint S σ D α × Endpoint S σ E γ}
    {property : α → Prop} (returns : LeftReturns host state property) :
    RightReturns host state.swap property := by
  obtain ⟨final, value, reaches, returned, holds⟩ := returns
  exact ⟨final.swap, value, reaches.swap, returned, holds⟩

namespace Finishes

variable {state middle : Endpoint S σ D α × Endpoint S σ E γ}
  {related : α → γ → Prop}

theorem of_reaches (reaches : Reaches host state middle)
    (finishes : Finishes host middle related) :
    Finishes host state related := by
  obtain ⟨final, value, result, leads, rest⟩ := finishes
  exact ⟨final, value, result, reaches.trans leads, rest⟩

theorem mono {weaker : α → γ → Prop}
    (implies : ∀ value result, related value result → weaker value result)
    (finishes : Finishes host state related) :
    Finishes host state weaker := by
  obtain ⟨final, value, result, leads, returned, given, holds⟩ := finishes
  exact ⟨final, value, result, leads, returned, given, implies _ _ holds⟩

theorem swap (finishes : Finishes host state related) :
    Finishes host state.swap fun result value => related value result := by
  obtain ⟨final, value, result, leads, returned, given, holds⟩ := finishes
  exact ⟨final.swap, result, value, leads.swap, given, returned, holds⟩

/-- Both sides have finished. -/
theorem done {left : Endpoint S σ D α} {right : Endpoint S σ E γ} {value : α}
    {result : γ} (returned : left.program = .ret value)
    (given : right.program = .ret result) (holds : related value result) :
    Finishes host (left, right) related :=
  ⟨_, value, result, .refl _, returned, given, holds⟩

/-- A side goes on by itself. -/
theorem left {side next : Endpoint S σ D α} {peer : Endpoint S σ E γ}
    {sent : List (List β)} (advances : Advances host side sent next)
    (finishes : Finishes host (next, peer.deliverAll sent) related) :
    Finishes host (side, peer) related :=
  finishes.of_reaches (advances.left peer)

theorem right {side next : Endpoint S σ E γ} {peer : Endpoint S σ D α}
    {sent : List (List β)} (advances : Advances host side sent next)
    (finishes : Finishes host (peer.deliverAll sent, next) related) :
    Finishes host (peer, side) related :=
  finishes.of_reaches (advances.right peer)

theorem leftQuiet {side next : Endpoint S σ D α} {peer : Endpoint S σ E γ}
    (advances : Advances host side [] next)
    (finishes : Finishes host (next, peer) related) :
    Finishes host (side, peer) related :=
  left advances finishes

theorem rightQuiet {side next : Endpoint S σ E γ} {peer : Endpoint S σ D α}
    (advances : Advances host side [] next)
    (finishes : Finishes host (peer, next) related) :
    Finishes host (peer, side) related :=
  right advances finishes

/-- One schedule decides what the left side returns. -/
theorem leftReturns_iff {property : α → Prop} {decided : Prop}
    (finishes : Finishes host state fun value _ => property value ↔ decided) :
    LeftReturns host state property ↔ decided := by
  obtain ⟨final, value, _, leads, returned, _, same⟩ := finishes
  rw [← same]
  constructor
  · rintro ⟨other, result, reaches, given, holds⟩
    rwa [(finished_unique leads reaches returned given).1] at holds
  · exact fun holds => ⟨final, value, leads, returned, holds⟩

theorem rightReturns_iff {property : γ → Prop} {decided : Prop}
    (finishes : Finishes host state fun _ result => property result ↔ decided) :
    RightReturns host state property ↔ decided :=
  ⟨fun returns => finishes.swap.leftReturns_iff.1 returns.swap,
    fun holds => (finishes.swap.leftReturns_iff.2 holds).swap⟩

end Finishes

/-! ## Sides that do not return -/

section Stuck

variable {state middle : Endpoint S σ D α × Endpoint S σ E γ} {δ : Type}
  {next : δ → Prog S α}

theorem not_leftReturns (reaches : Reaches host state middle)
    (diverges : middle.1.program = Prog.diverge.bind next)
    (property : α → Prop) : ¬ LeftReturns host state property := by
  rintro ⟨final, value, other, returned, _⟩
  obtain ⟨joined, fromMiddle, fromFinal⟩ := reaches.joins other
  have forever := fromMiddle.left_diverges diverges
  rw [(fromFinal.left_finished returned).1] at forever
  cases forever

/-- A side that waits goes on waiting while its peer diverges. -/
theorem Reaches.right_waits (reaches : Reaches host state middle)
    (diverges : state.1.program = Prog.diverge.bind next)
    (isOpen : state.1.closed = false) (waits : state.2.Blocked host) :
    middle.2 = state.2 := by
  obtain ⟨schedule, ran⟩ := reaches
  let same (current : Endpoint S σ D α × Endpoint S σ E γ) : Prop :=
    current.1.program = Prog.diverge.bind next ∧ current.1.closed = false ∧
      current.2 = state.2
  have started : same state := ⟨diverges, isOpen, rfl⟩
  refine ((session host D E α γ).run_invariant ?_ schedule started ran).2.2
  rintro ⟨side, peer⟩ mover after ⟨program, unclosed, unchanged⟩ stepped
  cases mover with
  | left =>
      obtain ⟨_, machine, inbox, closed⟩ := side
      cases program
      cases stepped
      exact ⟨rfl, unclosed, unchanged⟩
  | right =>
      obtain ⟨blocked, moves⟩ := waits
      obtain ⟨pair, answered, _⟩ := Option.map_eq_some_iff.1 stepped
      have isOpen : side.closed = false := unclosed
      cases unchanged
      simp [Endpoint.advance, moves, isOpen] at answered

theorem not_rightReturns (reaches : Reaches host state middle)
    (diverges : middle.1.program = Prog.diverge.bind next)
    (isOpen : middle.1.closed = false) (waits : middle.2.Blocked host)
    (property : γ → Prop) : ¬ RightReturns host state property := by
  rintro ⟨final, value, other, returned, _⟩
  obtain ⟨joined, fromMiddle, fromFinal⟩ := reaches.joins other
  have still := fromMiddle.right_waits diverges isOpen waits
  have ended := (fromFinal.swap.left_finished returned).1
  rw [Prod.fst_swap, still] at ended
  obtain ⟨blocked, moves⟩ := waits
  rw [Endpoint.move, ended] at moves
  cases moves

end Stuck

end RemoteCommand.Interaction
