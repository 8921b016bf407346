import Mathlib.Logic.Basic

/-!
# A lock and the threads inside it

`Exclusive inside holder` ties the threads that are between taking and
releasing a lock to the recorded holder.  It is kept when nobody crosses the
boundary, when a thread takes the free lock, and when a thread inside
releases it; and it leaves room for one thread at most.
-/

namespace RemoteCommand.Transition

variable {θ : Type} {inside inside' : θ → Bool} {holder : Option θ}
  {thread : θ}

def Exclusive (inside : θ → Bool) (holder : Option θ) : Prop :=
  ∀ thread, inside thread = true ↔ holder = some thread

namespace Exclusive

theorem unique (exclusive : Exclusive inside holder) {left right : θ}
    (leftInside : inside left = true) (rightInside : inside right = true) :
    left = right := by
  have isLeft := (exclusive left).mp leftInside
  have isRight := (exclusive right).mp rightInside
  rw [isLeft] at isRight
  exact Option.some.inj isRight

theorem keep (exclusive : Exclusive inside holder)
    (others : ∀ other, other ≠ thread → inside' other = inside other)
    (same : inside' thread = inside thread) : Exclusive inside' holder := by
  intro other
  by_cases self : other = thread
  · rw [self, same]
    exact exclusive thread
  · rw [others other self]
    exact exclusive other

theorem enter (exclusive : Exclusive inside none)
    (others : ∀ other, other ≠ thread → inside' other = inside other)
    (entered : inside' thread = true) :
    Exclusive inside' (some thread) := by
  intro other
  by_cases self : other = thread
  · rw [self, entered]
    exact ⟨fun _ => rfl, fun _ => rfl⟩
  · rw [others other self]
    constructor
    · intro wasInside
      cases (exclusive other).mp wasInside
    · intro isHolder
      exact absurd (Option.some.inj isHolder).symm self

theorem leave (exclusive : Exclusive inside holder)
    (others : ∀ other, other ≠ thread → inside' other = inside other)
    (wasInside : inside thread = true) (left : inside' thread = false) :
    Exclusive inside' none := by
  intro other
  by_cases self : other = thread
  · rw [self, left]
    constructor <;> intro impossible <;> cases impossible
  · rw [others other self]
    constructor
    · intro otherInside
      exact absurd (exclusive.unique otherInside wasInside) self
    · intro impossible
      cases impossible

end Exclusive

/-! ## The threads of a system with few of them -/

def soleThread : Fin 1 := ⟨0, Nat.one_pos⟩

def firstThread : Fin 2 := ⟨0, Nat.two_pos⟩

def secondThread : Fin 2 := ⟨1, Nat.one_lt_two⟩

end RemoteCommand.Transition
