import Mathlib.Data.Nat.Digits.Lemmas
import RemoteCommand.Machine.CString
import RemoteCommand.Machine.Int

/-!
# Numbers in text

What `sprintf` prints for an unsigned number, and how `strtoull` with base `0`
and `atoi` read text: leading white space, a sign, for base `0` the prefix that
chooses the base, then digits up to the first byte that is none.
-/

namespace RemoteCommand.Machine

/-- The text of `sprintf("%" PRIu64, n)`. -/
def decimal (n : Nat) : List Byte :=
  (if n = 0 then [0] else (Nat.digits 10 n).reverse).map
    fun digit => BitVec.ofNat 8 (48 + digit)

def isspace (byte : Byte) : Bool :=
  byte.toNat = 32 ∨ (9 ≤ byte.toNat ∧ byte.toNat ≤ 13)

/-- The value of a digit or letter, if it is a digit in this base. -/
def digit (base : Nat) (byte : Byte) : Option Nat :=
  let value :=
    if 48 ≤ byte.toNat ∧ byte.toNat ≤ 57 then byte.toNat - 48
    else if 97 ≤ byte.toNat ∧ byte.toNat ≤ 122 then byte.toNat - 87
    else if 65 ≤ byte.toNat ∧ byte.toNat ≤ 90 then byte.toNat - 55
    else base
  if value < base then some value else none

/-- The digits at the beginning of a text. -/
def leadingDigits (base : Nat) : List Byte → List Nat
  | [] => []
  | byte :: rest =>
      match digit base byte with
      | none => []
      | some value => value :: leadingDigits base rest

/-- The number written at the beginning of a text. -/
def magnitude (base : Nat) (text : List Byte) : Nat :=
  Nat.ofDigits base (leadingDigits base text).reverse

/-- Skip white space and an optional sign; tell whether it was a minus. -/
def skipSign (text : List Byte) : Bool × List Byte :=
  match text.dropWhile isspace with
  | [] => (false, [])
  | byte :: rest =>
      if byte = 45 then (true, rest)
      else if byte = 43 then (false, rest)
      else (false, byte :: rest)

/-- The base that a prefix chooses, and the text behind `0x`. -/
def detectBase (text : List Byte) : Nat × List Byte :=
  match text with
  | zero :: mark :: next :: rest =>
      if zero = 48 ∧ (mark = 120 ∨ mark = 88) ∧ (digit 16 next).isSome then
        (16, next :: rest)
      else
        (if zero = 48 then 8 else 10, text)
  | zero :: _ => (if zero = 48 then 8 else 10, text)
  | [] => (10, [])

/-- `strtoull(text, _, 0)`. -/
def strtoull (text : List Byte) : BitVec 64 :=
  let (negative, unsigned) := skipSign text
  let (base, digits) := detectBase unsigned
  let value := magnitude base digits
  if 2 ^ 64 ≤ value then BitVec.allOnes 64
  else if negative then - BitVec.ofNat 64 value
  else BitVec.ofNat 64 value

/-- `atoi(text)`: `strtol` with base 10, truncated to an `int`. -/
def atoi (text : List Byte) : Int :=
  let (negative, digits) := skipSign text
  let value : Int := magnitude 10 digits
  let long := if negative then max (-2 ^ 63) (-value) else min (2 ^ 63 - 1) value
  (BitVec.ofInt 32 long).toInt

theorem atoi_isInt (text : List Byte) : IsInt (atoi text) := by
  obtain ⟨value, same⟩ : ∃ value : BitVec 32, atoi text = value.toInt :=
    ⟨_, rfl⟩
  have low := value.le_toInt
  have high := value.toInt_lt
  rw [same]
  unfold IsInt intMin intMax
  omega

/-! ## Printing and reading a number -/

theorem digit_code {value : Nat} (small : value < 10) :
    (BitVec.ofNat 8 (48 + value)).toNat = 48 + value := by
  rw [BitVec.toNat_ofNat]
  exact Nat.mod_eq_of_lt (by omega)

theorem digit_ofNat {value : Nat} (small : value < 10) :
    digit 10 (BitVec.ofNat 8 (48 + value)) = some value := by
  have range : 48 ≤ 48 + value ∧ 48 + value ≤ 57 := by omega
  simp [digit, digit_code small, range, small]

theorem leadingDigits_map (values : List Nat)
    (small : ∀ value ∈ values, value < 10) :
    leadingDigits 10 (values.map fun value => BitVec.ofNat 8 (48 + value)) =
      values := by
  induction values with
  | nil => rfl
  | cons value rest inductionHypothesis =>
      have head := digit_ofNat (small value (by simp))
      have tail := inductionHypothesis fun other member =>
        small other (by simp [member])
      simp only [List.map_cons, leadingDigits, head, tail]

/-- A printed number has no white space, no sign and no `NUL` in it. -/
theorem mem_decimal {n : Nat} {byte : Byte} (member : byte ∈ decimal n) :
    48 ≤ byte.toNat ∧ byte.toNat ≤ 57 := by
  obtain ⟨value, isDigit, rfl⟩ := List.mem_map.1 member
  have small : value < 10 := by
    by_cases zero : n = 0
    · rw [if_pos zero, List.mem_singleton] at isDigit
      omega
    · rw [if_neg zero, List.mem_reverse] at isDigit
      exact Nat.digits_lt_base (by decide) isDigit
  rw [digit_code small]
  omega

theorem decimal_length_le {n count : Nat} (some_digit : 0 < count)
    (small : n < 10 ^ count) : (decimal n).length ≤ count := by
  by_cases zero : n = 0
  · simp only [decimal, zero, if_true, List.map_cons, List.length_cons,
      List.map_nil, List.length_nil]
    omega
  · simpa [decimal, zero] using
      (Nat.digits_length_le_iff (by decide : 1 < 10) n).2 small

theorem decimal_ne_nil (n : Nat) : decimal n ≠ [] := by
  by_cases zero : n = 0
  · simp [decimal, zero]
  · simp [decimal, zero, Nat.digits_ne_nil_iff_ne_zero]

/-- A printed number as a word. -/
def decimalWord (n : Nat) : Word where
  chars := decimal n
  nonempty := decimal_ne_nil n
  plain byte member := by
    have range := mem_decimal member
    constructor
    · rintro rfl
      simp at range
    · rintro rfl
      simp at range

/-- The text of a number other than zero does not begin with a zero. -/
theorem decimal_head {n : Nat} (nonzero : n ≠ 0) {head : Byte}
    {tail : List Byte} (text : decimal n = head :: tail) : head ≠ 48#8 := by
  have notNil : Nat.digits 10 n ≠ [] :=
    Nat.digits_ne_nil_iff_ne_zero.2 nonzero
  have last := Nat.getLast_digit_ne_zero 10 nonzero
  have first : (Nat.digits 10 n).reverse =
      (Nat.digits 10 n).getLast notNil ::
        (Nat.digits 10 n).dropLast.reverse := by
    conv_lhs => rw [← List.dropLast_append_getLast notNil]
    simp
  rw [decimal, if_neg nonzero, first, List.map_cons] at text
  injection text with sameHead
  have small : (Nat.digits 10 n).getLast notNil < 10 :=
    Nat.digits_lt_base (by decide) (List.getLast_mem notNil)
  intro isZero
  have code := digit_code small
  rw [sameHead, isZero] at code
  have : (48#8).toNat = 48 := by decide
  omega

theorem skipSign_decimal (n : Nat) : skipSign (decimal n) = (false, decimal n) := by
  obtain ⟨head, tail, text⟩ := List.exists_cons_of_ne_nil (decimal_ne_nil n)
  have member : head ∈ decimal n := by simp [text]
  have range := mem_decimal member
  have noSpace : isspace head = false := by
    simp only [isspace, decide_eq_false_iff_not]
    omega
  have noMinus : head ≠ 45#8 := by
    rintro rfl
    revert range
    decide
  have noPlus : head ≠ 43#8 := by
    rintro rfl
    revert range
    decide
  simp [skipSign, text, noSpace, noMinus, noPlus]

theorem detectBase_decimal {n : Nat} (nonzero : n ≠ 0) :
    detectBase (decimal n) = (10, decimal n) := by
  obtain ⟨head, tail, text⟩ := List.exists_cons_of_ne_nil (decimal_ne_nil n)
  have headNonzero := decimal_head nonzero text
  rw [text]
  rcases tail with _ | ⟨mark, _ | ⟨next, rest⟩⟩ <;>
    simp [detectBase, headNonzero]

theorem magnitude_decimal {n : Nat} (nonzero : n ≠ 0) :
    magnitude 10 (decimal n) = n := by
  rw [magnitude, decimal, if_neg nonzero, leadingDigits_map]
  · rw [List.reverse_reverse, Nat.ofDigits_digits]
  · intro value member
    exact Nat.digits_lt_base (by decide) (List.mem_reverse.1 member)

/-- What is printed with `PRIu64` is read back by `strtoull`. -/
theorem strtoull_decimal (value : BitVec 64) :
    strtoull (decimal value.toNat) = value := by
  by_cases zero : value.toNat = 0
  · have : value = 0 := BitVec.eq_of_toNat_eq zero
    subst this
    decide
  · have bound : ¬ 2 ^ 64 ≤ value.toNat := Nat.not_le.2 value.isLt
    simp only [strtoull, skipSign_decimal, detectBase_decimal zero,
      magnitude_decimal zero, if_neg bound]
    simp

/-! ## The end of a line -/

theorem leadingDigits_append {base : Nat} {byte : Byte}
    (noDigit : digit base byte = none) (text : List Byte) :
    leadingDigits base (text ++ [byte]) = leadingDigits base text := by
  induction text with
  | nil => simp [leadingDigits, noDigit]
  | cons first text inductionHypothesis =>
      rw [List.cons_append, leadingDigits, leadingDigits, inductionHypothesis]

theorem skipSign_append {text : List Byte} (nonempty : text ≠ [])
    (plain : ∀ byte ∈ text, isspace byte = false) (rest : List Byte) :
    skipSign (text ++ rest) = ((skipSign text).1, (skipSign text).2 ++ rest) := by
  obtain ⟨first, text, rfl⟩ := List.exists_cons_of_ne_nil nonempty
  have noSpace : isspace first = false := plain first List.mem_cons_self
  simp only [skipSign, List.cons_append, List.dropWhile_cons, noSpace,
    Bool.false_eq_true, if_false]
  split_ifs <;> rfl

/-- A number is the same at the end of a line. -/
theorem atoi_newline {text : List Byte} (nonempty : text ≠ [])
    (plain : ∀ byte ∈ text, isspace byte = false) :
    atoi (text ++ [10]) = atoi text := by
  have noDigit : digit 10 10 = none := by decide
  simp only [atoi, skipSign_append nonempty plain, magnitude,
    leadingDigits_append noDigit]

/-! ## The first digits of a number -/

theorem digits_drop (n count : Nat) :
    (Nat.digits 10 n).drop count = Nat.digits 10 (n / 10 ^ count) := by
  induction count generalizing n with
  | zero => simp
  | succ count inductionHypothesis =>
      by_cases zero : n = 0
      · simp [zero]
      · rw [Nat.digits_eq_cons_digits_div (by decide) zero,
          List.drop_succ_cons, inductionHypothesis, Nat.div_div_eq_div_mul,
          Nat.pow_succ']

/-- The first digits of a printed number are a printed number. -/
theorem decimal_take {n count : Nat} (some_digit : 0 < count)
    (fits : count ≤ (decimal n).length) :
    (decimal n).take count =
      decimal (n / 10 ^ ((decimal n).length - count)) := by
  by_cases zero : n = 0
  · subst zero
    have one : count = 1 := by
      simp only [decimal, if_true, List.map_cons, List.map_nil,
        List.length_cons, List.length_nil] at fits
      omega
    subst one
    rfl
  · let code (digit : Nat) : Byte := BitVec.ofNat 8 (48 + digit)
    have text (other : Nat) (nonzero : other ≠ 0) :
        decimal other = (Nat.digits 10 other).reverse.map code := by
      rw [decimal, if_neg nonzero]
    have length : (decimal n).length = (Nat.digits 10 n).length := by
      rw [text n zero, List.length_map, List.length_reverse]
    rw [length] at fits ⊢
    have dropped := digits_drop n ((Nat.digits 10 n).length - count)
    have nonzero : n / 10 ^ ((Nat.digits 10 n).length - count) ≠ 0 := by
      rw [← Nat.digits_ne_nil_iff_ne_zero, ← dropped, Ne,
        List.drop_eq_nil_iff]
      omega
    rw [text n zero, text _ nonzero, ← dropped, ← List.map_take,
      List.take_reverse]

/-- They are another number. -/
theorem decimal_take_ne {n count : Nat} (some_digit : 0 < count)
    (fewer : count < (decimal n).length) :
    ∃ prefixed < n, (decimal n).take count = decimal prefixed := by
  refine ⟨_, ?_, decimal_take some_digit fewer.le⟩
  have positive : 0 < n := by
    rcases Nat.eq_zero_or_pos n with rfl | positive
    · have one : (decimal 0).length = 1 := rfl
      omega
    · exact positive
  exact Nat.div_lt_self positive (Nat.one_lt_pow (by omega) (by decide))

end RemoteCommand.Machine
