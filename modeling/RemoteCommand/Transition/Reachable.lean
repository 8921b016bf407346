import RemoteCommand.Transition.System

/-!
# What a system can reach

`system.Leads state final` says that some run goes from the one state to the
other.  A system that can follow every step of another one, in any number of
steps of its own, can follow all its runs.
-/

namespace RemoteCommand.Transition.System

universe u v w x

variable {σ : Type u} {α : Type v} {τ : Type w} {β : Type x}
  {system : System σ α} {first middle final : σ}

def Leads (system : System σ α) (first final : σ) : Prop :=
  ∃ labels, system.run first labels = some final

theorem Leads.here (system : System σ α) (state : σ) :
    system.Leads state state :=
  ⟨[], rfl⟩

theorem Leads.step {label : α}
    (stepped : system.step first label = some final) :
    system.Leads first final :=
  ⟨[label], (system.run_cons).mpr ⟨final, stepped, rfl⟩⟩

theorem Leads.trans (before : system.Leads first middle)
    (behind : system.Leads middle final) : system.Leads first final := by
  obtain ⟨labels, ran⟩ := before
  obtain ⟨others, rest⟩ := behind
  refine ⟨labels ++ others, ?_⟩
  rw [System.run_append, ran, Option.bind_some, rest]

/-- What every step preserves holds wherever one comes. -/
theorem Leads.keeps {inv : σ → Prop} (leads : system.Leads first final)
    (preserved : ∀ {state label next},
      inv state → system.step state label = some next → inv next)
    (initial : inv first) : inv final := by
  obtain ⟨labels, ran⟩ := leads
  exact system.run_invariant preserved labels initial ran

/-- The other system follows step by step. -/
theorem Leads.follow {other : System τ β} {related : σ → τ → Prop}
    {second : τ} (leads : system.Leads first final)
    (follows : ∀ {state label next follower}, related state follower →
      system.step state label = some next →
        ∃ nextFollower, other.Leads follower nextFollower ∧
          related next nextFollower)
    (initial : related first second) :
    ∃ last, other.Leads second last ∧ related final last := by
  obtain ⟨labels, ran⟩ := leads
  induction labels generalizing first second with
  | nil =>
      cases ran
      exact ⟨second, .here other second, initial⟩
  | cons label labels inductionHypothesis =>
      obtain ⟨next, stepped, rest⟩ := (system.run_cons).mp ran
      obtain ⟨follower, moved, still⟩ := follows initial stepped
      obtain ⟨last, goes, atEnd⟩ := inductionHypothesis still rest
      exact ⟨last, moved.trans goes, atEnd⟩

end RemoteCommand.Transition.System
