import Mathlib.Algebra.BigOperators.Group.List.Basic
import Mathlib.Algebra.Ring.Nat
import Mathlib.Data.List.Infix
import Mathlib.Data.List.TakeDrop

/-!
# Reading a text in pieces

A reader that takes lines, but no more than a limit at once, cuts a text into
pieces: every piece ends behind the first end of a line, or at the limit.

A collector with a capacity keeps the longest prefix of what it is given that
fits.
-/

namespace RemoteCommand.Machine

universe u

section Pieces

variable {α : Type u} [DecidableEq α] (ending : α) (limit : Nat)

/-- The text up to the first `ending` and with it, but not beyond `limit`. -/
def firstPiece (text : List α) : List α :=
  text.take (min (text.idxOf ending + 1) limit)

def piecesFrom : Nat → List α → List (List α)
  | 0, _ | _, [] => []
  | turns + 1, text =>
      firstPiece ending limit text ::
        piecesFrom turns (text.drop (firstPiece ending limit text).length)

/-- The pieces of a text, in order. -/
def pieces (text : List α) : List (List α) :=
  piecesFrom ending limit text.length text

variable {ending limit} {text : List α}

theorem length_firstPiece_le : (firstPiece ending limit text).length ≤ limit :=
  (List.length_take_le _ _).trans (Nat.min_le_right _ _)

/-- What is taken and what is left. -/
theorem firstPiece_append_drop (ending : α) (limit : Nat) (text : List α) :
    firstPiece ending limit text ++
        text.drop (firstPiece ending limit text).length = text := by
  have isPrefix : firstPiece ending limit text <+: text := List.take_prefix _ _
  rw [← List.prefix_iff_eq_append]
  exact isPrefix

theorem firstPiece_pos (positive : 0 < limit) (nonempty : text ≠ []) :
    0 < (firstPiece ending limit text).length := by
  have some_text := List.length_pos_of_ne_nil nonempty
  rw [firstPiece, List.length_take]
  omega

theorem piecesFrom_cons {turns : Nat} (nonempty : text ≠ []) :
    piecesFrom ending limit (turns + 1) text =
      firstPiece ending limit text ::
        piecesFrom ending limit turns
          (text.drop (firstPiece ending limit text).length) := by
  cases text with
  | nil => exact absurd rfl nonempty
  | cons => rfl

/-- Every turn takes something, so that there are enough turns. -/
theorem piecesFrom_eq (positive : 0 < limit) (turns : Nat) :
    ∀ {text : List α}, text.length ≤ turns →
      piecesFrom ending limit turns text = pieces ending limit text := by
  induction turns using Nat.strong_induction_on with
  | h turns inductionHypothesis =>
      intro text enough
      rcases turns with _ | turns
      · rw [List.length_eq_zero_iff.1 (Nat.le_zero.1 enough)]
        rfl
      rcases text with _ | ⟨head, tail⟩
      · rfl
      have nonempty : head :: tail ≠ [] := List.cons_ne_nil head tail
      have taken := @firstPiece_pos _ _ ending limit _ positive nonempty
      have left : ((head :: tail).drop
          (firstPiece ending limit (head :: tail)).length).length ≤
            tail.length := by
        rw [List.length_drop, List.length_cons]
        omega
      rw [List.length_cons] at enough
      rw [piecesFrom_cons nonempty, pieces, List.length_cons,
        piecesFrom_cons nonempty,
        inductionHypothesis turns (Nat.lt_succ_self _) (by omega),
        inductionHypothesis tail.length (by omega) left]

@[simp]
theorem pieces_nil : pieces ending limit [] = [] :=
  rfl

theorem pieces_cons (positive : 0 < limit) (nonempty : text ≠ []) :
    pieces ending limit text =
      firstPiece ending limit text ::
        pieces ending limit
          (text.drop (firstPiece ending limit text).length) := by
  obtain ⟨turns, length⟩ := Nat.exists_eq_succ_of_ne_zero
    (List.length_pos_of_ne_nil nonempty).ne'
  have taken := @firstPiece_pos _ _ ending limit _ positive nonempty
  rw [pieces, length, Nat.succ_eq_add_one, piecesFrom_cons nonempty,
    piecesFrom_eq positive]
  rw [List.length_drop]
  omega

/-- A line that is within the limit is one piece. -/
theorem pieces_single (nonempty : text ≠ []) (plain : ending ∉ text)
    (short : text.length ≤ limit) : pieces ending limit text = [text] := by
  have taken : firstPiece ending limit text = text := by
    rw [firstPiece, List.idxOf_of_notMem plain]
    exact List.take_of_length_le (by omega)
  have positive : 0 < limit :=
    (List.length_pos_of_ne_nil nonempty).trans_le short
  rw [pieces_cons positive nonempty, taken, List.drop_length, pieces_nil]

/-- A text is taken in pieces to its end. -/
theorem pieces_induction {motive : List α → Prop} (positive : 0 < limit)
    (nil : motive [])
    (cons : ∀ text, text ≠ [] →
      motive (text.drop (firstPiece ending limit text).length) → motive text)
    (text : List α) : motive text := by
  induction length : text.length using Nat.strong_induction_on
    generalizing text with
  | h count inductionHypothesis =>
      by_cases empty : text = []
      · exact empty ▸ nil
      · have taken := @firstPiece_pos _ _ ending limit _ positive empty
        have some_text := List.length_pos_of_ne_nil empty
        exact cons text empty
          (inductionHypothesis _ (by rw [List.length_drop]; omega) _ rfl)

/-- The pieces are the whole text. -/
theorem flatten_pieces (positive : 0 < limit) (text : List α) :
    (pieces ending limit text).flatten = text := by
  induction text using @pieces_induction _ _ ending limit _ positive with
  | nil => rfl
  | cons text nonempty inductionHypothesis =>
      rw [pieces_cons positive nonempty, List.flatten_cons,
        inductionHypothesis, firstPiece_append_drop]

theorem length_le_of_mem_pieces (positive : 0 < limit) (text : List α) :
    ∀ piece ∈ pieces ending limit text, piece.length ≤ limit := by
  induction text using @pieces_induction _ _ ending limit _ positive with
  | nil => simp
  | cons text nonempty inductionHypothesis =>
      rw [pieces_cons positive nonempty]
      exact List.forall_mem_cons.2 ⟨length_firstPiece_le, inductionHypothesis⟩

end Pieces

section LongestPrefix

variable {ι : Type u} {weight : ι → Nat} {capacity : Nat} {item : ι}
  {items kept : List ι}

/-- `kept` is the longest prefix of `items` whose weights fit in `capacity`. -/
structure LongestPrefix (weight : ι → Nat) (capacity : Nat)
    (items kept : List ι) : Prop where
  isPrefix : kept <+: items
  fits : (kept.map weight).sum ≤ capacity
  longest : ∀ other, other <+: items → (other.map weight).sum ≤ capacity →
    other.length ≤ kept.length

namespace LongestPrefix

theorem nil : LongestPrefix weight capacity [] [] where
  isPrefix := List.nil_prefix
  fits := Nat.zero_le _
  longest _ isPrefix _ := isPrefix.length_le

theorem cons (fits : weight item ≤ capacity)
    (rest : LongestPrefix weight (capacity - weight item) items kept) :
    LongestPrefix weight capacity (item :: items) (item :: kept) where
  isPrefix := List.cons_prefix_cons.2 ⟨rfl, rest.isPrefix⟩
  fits := by
    have within := rest.fits
    rw [List.map_cons, List.sum_cons]
    omega
  longest := by
    intro other isPrefix within
    cases other with
    | nil => exact Nat.zero_le _
    | cons first others =>
        obtain ⟨rfl, further⟩ := List.cons_prefix_cons.1 isPrefix
        rw [List.map_cons, List.sum_cons] at within
        exact Nat.succ_le_succ (rest.longest others further (by omega))

/-- Behind what does not fit nothing is kept. -/
theorem cut (tooLong : capacity < weight item) :
    LongestPrefix weight capacity (item :: items) [] where
  isPrefix := List.nil_prefix
  fits := Nat.zero_le _
  longest := by
    intro other isPrefix within
    cases other with
    | nil => exact Nat.le_refl _
    | cons first others =>
        obtain ⟨rfl, _⟩ := List.cons_prefix_cons.1 isPrefix
        rw [List.map_cons, List.sum_cons] at within
        omega

/-- Only the weights of the items matter. -/
theorem congr (longest : LongestPrefix weight capacity items kept)
    {other : ι → Nat} (same : ∀ item ∈ items, weight item = other item) :
    LongestPrefix other capacity items kept := by
  have sums {front : List ι} (isPrefix : front <+: items) :
      front.map weight = front.map other :=
    List.map_congr_left fun item member => same item (isPrefix.subset member)
  refine ⟨longest.isPrefix, ?_, fun front isPrefix fits => ?_⟩
  · rw [← sums longest.isPrefix]
    exact longest.fits
  · rw [← sums isPrefix] at fits
    exact longest.longest front isPrefix fits

/-- What fits is part of what is kept. -/
theorem prefix_of_fits (longest : LongestPrefix weight capacity items kept)
    {other : List ι} (isPrefix : other <+: items)
    (fits : (other.map weight).sum ≤ capacity) : other <+: kept :=
  List.prefix_of_prefix_length_le isPrefix longest.isPrefix
    (longest.longest other isPrefix fits)

/-- Nothing that fits weighs more. -/
theorem sum_le (longest : LongestPrefix weight capacity items kept)
    {other : List ι} (isPrefix : other <+: items)
    (fits : (other.map weight).sum ≤ capacity) :
    (other.map weight).sum ≤ (kept.map weight).sum := by
  obtain ⟨rest, rfl⟩ := longest.prefix_of_fits isPrefix fits
  rw [List.map_append, List.sum_append]
  exact Nat.le_add_right _ _

/-- Where everything fits, everything is kept. -/
theorem eq_of_fits (longest : LongestPrefix weight capacity items kept)
    (fits : (items.map weight).sum ≤ capacity) : kept = items :=
  longest.isPrefix.eq_of_length_le
    (longest.longest items (List.prefix_refl items) fits)

end LongestPrefix

end LongestPrefix

end RemoteCommand.Machine
