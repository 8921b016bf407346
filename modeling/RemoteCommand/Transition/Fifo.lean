import RemoteCommand.Transition.Refinement

/-!
# A bounded first-in first-out list

The specification of a queue of fixed capacity.  An item is appended unless
the list is full, the oldest item is taken unless it is empty, and the length
can be asked for.
-/

namespace RemoteCommand.Transition

/-- The calls on a queue. -/
inductive FifoCall (α : Type) where
  | enqueue (item : α)
  | dequeue
  | size
  deriving DecidableEq, Repr

/-- The answers: a status code, an item or nothing, or a length. -/
inductive FifoAnswer (α : Type) where
  | status (code : Int)
  | item (taken : Option α)
  | length (count : Int)
  deriving DecidableEq, Repr

namespace Fifo

variable {α : Type}

/-- One call on a list of at most `capacity` items. -/
def call (capacity : Nat) :
    List α → FifoCall α → FifoAnswer α × List α
  | items, .enqueue item =>
      if items.length = capacity then (.status (-1), items)
      else (.status 0, items ++ [item])
  | [], .dequeue => (.item none, [])
  | oldest :: rest, .dequeue => (.item (some oldest), rest)
  | items, .size => (.length items.length, items)

theorem call_length_le {capacity : Nat} {items : List α}
    (bound : items.length ≤ capacity) (request : FifoCall α) :
    (call capacity items request).2.length ≤ capacity := by
  cases request with
  | enqueue item =>
      by_cases full : items.length = capacity
      · simp [call, full]
      · simp only [call, full, if_false, List.length_append,
          List.length_singleton]
        omega
  | dequeue =>
      cases items with
      | nil => exact bound
      | cons oldest rest =>
          simp only [List.length_cons] at bound
          simp only [call]
          omega
  | size => exact bound

/-- No history of calls grows the list past its capacity. -/
theorem run_length_le {capacity : Nat} (calls : List (FifoCall α)) :
    ∀ {items : List α}, items.length ≤ capacity →
      (runSpec (call capacity) items calls).2.length ≤ capacity := by
  induction calls with
  | nil => exact id
  | cons request calls inductionHypothesis =>
      intro items bound
      exact inductionHypothesis (call_length_le bound request)

end Fifo

end RemoteCommand.Transition
