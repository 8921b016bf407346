import Mathlib.Algebra.BigOperators.Group.Finset.Piecewise

/-!
# The places of threads

Each thread is at a place, and a step moves one of them.  What the places weigh
together changes by the weight of the place that is left and of the one that is
taken.
-/

namespace RemoteCommand.Transition

variable {θ π : Type} [Fintype θ] [DecidableEq θ]

theorem sum_update (weight : π → Nat) (place : θ → π) (thread : θ)
    (taken : π) :
    ∑ other, weight (Function.update place thread taken other) +
        weight (place thread) =
      ∑ other, weight (place other) + weight taken := by
  have moved : (fun other => weight (Function.update place thread taken other)) =
      Function.update (fun other => weight (place other)) thread
        (weight taken) :=
    funext fun other => Function.apply_update (fun _ => weight) place thread
      taken other
  rw [moved, Finset.sum_update_of_mem (Finset.mem_univ thread),
    ← Finset.erase_eq, ← Finset.sum_erase_add _ _ (Finset.mem_univ thread)]
  omega

end RemoteCommand.Transition
