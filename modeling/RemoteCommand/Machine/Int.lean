import Mathlib.Data.Int.Basic
import Mathlib.Tactic.NormNum

/-!
# Machine integers and array cells

`int` is 32 bits wide and signed: an addition that leaves its range is
undefined, and here it is a `Fault`.  `unsigned` is 32 bits wide and wraps.
Conversions go through the value modulo `2 ^ 32`.  An array access outside the
allocated cells and a remainder by zero are faults as well, so that a
computation without a fault is one without undefined behaviour.
-/

namespace RemoteCommand.Machine

/-- The ways in which an integer or array operation is undefined. -/
inductive Fault where
  | overflow
  | divisionByZero
  | outOfBounds
  deriving DecidableEq, Repr

def intMax : Int := 2147483647

def intMin : Int := -2147483648

/-- An `int` has this value. -/
def IsInt (value : Int) : Prop :=
  intMin ≤ value ∧ value ≤ intMax

instance (value : Int) : Decidable (IsInt value) :=
  inferInstanceAs (Decidable (_ ∧ _))

/-- A computation in steps ends without a fault when its steps do. -/
theorem bind_eq_ok {ε α β : Type} {first : Except ε α} {rest : α → Except ε β}
    {result : β} (ran : (first >>= rest) = .ok result) :
    ∃ value, first = .ok value ∧ rest value = .ok result := by
  cases first with
  | error fault => cases ran
  | ok value => exact ⟨value, rfl, ran⟩

/-- `int` addition. -/
def addInt (left right : Int) : Except Fault Int :=
  if intMin ≤ left + right ∧ left + right ≤ intMax then
    .ok (left + right)
  else
    .error .overflow

/-- `int` subtraction. -/
def subInt (left right : Int) : Except Fault Int :=
  if intMin ≤ left - right ∧ left - right ≤ intMax then
    .ok (left - right)
  else
    .error .overflow

/-- Conversion of an `int` to `unsigned`. -/
def toUnsigned (value : Int) : Nat :=
  (value % 4294967296).toNat

/-- Conversion of an `unsigned` to `int`, two's complement. -/
def ofUnsigned (value : Nat) : Int :=
  if value < 2147483648 then value else value - 4294967296

/-- `unsigned` subtraction, which wraps. -/
def subUnsigned (left right : Nat) : Nat :=
  (left + (4294967296 - right)) % 4294967296

/-- `unsigned` remainder. -/
def modUnsigned (left right : Nat) : Except Fault Nat :=
  if right = 0 then .error .divisionByZero else .ok (left % right)

theorem addInt_ok {left right : Int}
    (low : intMin ≤ left + right) (high : left + right ≤ intMax) :
    addInt left right = .ok (left + right) :=
  if_pos ⟨low, high⟩

theorem subInt_ok {left right : Int}
    (low : intMin ≤ left - right) (high : left - right ≤ intMax) :
    subInt left right = .ok (left - right) :=
  if_pos ⟨low, high⟩

theorem modUnsigned_ok {left right : Nat} (positive : 0 < right) :
    modUnsigned left right = .ok (left % right) :=
  if_neg (Nat.ne_of_gt positive)

/-- A non-negative `int` keeps its value as an `unsigned`. -/
theorem toUnsigned_natCast {value : Nat} (bound : (value : Int) ≤ intMax) :
    toUnsigned value = value := by
  unfold toUnsigned
  unfold intMax at bound
  omega

/-- An `unsigned` that fits keeps its value as an `int`. -/
theorem ofUnsigned_of_le {value : Nat} (bound : (value : Int) ≤ intMax) :
    ofUnsigned value = value := by
  unfold intMax at bound
  exact if_pos (by omega)

/-- The cells of an allocated array of pointers; `none` is `NULL`. -/
structure Cells (α : Type) where
  length : Nat
  cell : Nat → Option α

namespace Cells

variable {α : Type}

def read (cells : Cells α) (index : Int) : Except Fault (Option α) :=
  if 0 ≤ index ∧ index < cells.length then
    .ok (cells.cell index.toNat)
  else
    .error .outOfBounds

def write (cells : Cells α) (index : Int) (item : α) :
    Except Fault (Cells α) :=
  if 0 ≤ index ∧ index < cells.length then
    .ok { cells with cell := Function.update cells.cell index.toNat item }
  else
    .error .outOfBounds

theorem read_ok (cells : Cells α) {index : Nat}
    (inside : index < cells.length) :
    cells.read index = .ok (cells.cell index) :=
  if_pos (by omega)

theorem write_ok (cells : Cells α) (index : Nat) (item : α)
    (inside : index < cells.length) :
    cells.write index item =
      .ok { cells with cell := Function.update cells.cell index item } :=
  if_pos (by omega)

end Cells

end RemoteCommand.Machine
