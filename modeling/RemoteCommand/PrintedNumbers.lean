import RemoteCommand.Logging
import RemoteCommand.Machine.Numeral

/-!
# Numbers that are printed and read back

What `%d` prints for an `int` is what `atoi` reads.
-/

namespace RemoteCommand

open Machine

theorem magnitude_decimal' (n : Nat) : magnitude 10 (decimal n) = n := by
  rcases Nat.eq_zero_or_pos n with rfl | positive
  · rfl
  · exact magnitude_decimal positive.ne'

theorem toInt_ofInt {value : Int} (isInt : IsInt value) :
    (BitVec.ofInt 32 value).toInt = value := by
  unfold IsInt intMin intMax at isInt
  rw [BitVec.toInt_ofInt]
  exact Int.bmod_eq_of_le (by omega) (by omega)

/-- What `%d` prints is read by `atoi`. -/
theorem atoi_decimalInt {value : Int} (isInt : IsInt value) :
    atoi (decimalInt value) = value := by
  have range := isInt
  unfold IsInt intMin intMax at range
  unfold decimalInt
  split_ifs with negative
  · have sign : skipSign (bytes "-" ++ decimal value.natAbs) =
        (true, decimal value.natAbs) := rfl
    have long : max (-2 ^ 63) (-(value.natAbs : Int)) = value := by omega
    simp only [atoi, sign, magnitude_decimal', if_true, long]
    exact toInt_ofInt isInt
  · have long : min (2 ^ 63 - 1) (value.natAbs : Int) = value := by omega
    simp only [atoi, skipSign_decimal, magnitude_decimal', Bool.false_eq_true,
      if_false, long]
    exact toInt_ofInt isInt

/-- The bytes of a number. -/
theorem mem_decimalInt {value : Int} {byte : Byte}
    (member : byte ∈ decimalInt value) :
    byte = 45#8 ∨ 48 ≤ byte.toNat ∧ byte.toNat ≤ 57 := by
  unfold decimalInt at member
  split_ifs at member
  · rcases List.mem_append.mp member with sign | digits
    · exact .inl (List.mem_singleton.mp sign)
    · exact .inr (mem_decimal digits)
  · exact .inr (mem_decimal member)

theorem notMem_decimalInt {byte : Byte}
    (other : ¬ (byte = 45#8 ∨ 48 ≤ byte.toNat ∧ byte.toNat ≤ 57))
    (value : Int) : byte ∉ decimalInt value :=
  fun member => other (mem_decimalInt member)

/-- The number that a text is the print of. -/
def readInt (text : List Byte) : Option Int :=
  if decimalInt (atoi text) = text then some (atoi text) else none

theorem readInt_iff {text : List Byte} {value : Int} :
    readInt text = some value ↔ IsInt value ∧ text = decimalInt value := by
  constructor
  · intro found
    obtain ⟨printed, same⟩ := Option.ite_none_right_eq_some.mp found
    cases same
    exact ⟨atoi_isInt text, printed.symm⟩
  · rintro ⟨isInt, rfl⟩
    unfold readInt
    rw [atoi_decimalInt isInt, if_pos rfl]

end RemoteCommand
