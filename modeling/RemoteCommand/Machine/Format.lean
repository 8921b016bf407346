import Mathlib.Data.List.Infix
import Mathlib.Data.List.TakeWhile
import Mathlib.Logic.Equiv.Defs

/-!
# Formats that delimit themselves

A format prints values and reads them back.  Its reader stops where the text of
a value ends, and it reads exactly what the format prints.  So no text is read
in two ways, a text is read in front of any other, and one that is cut short is
not read at all.
-/

namespace RemoteCommand.Machine

structure Format (σ α : Type) where
  /-- the values that can be told from their text -/
  Valid : α → Prop
  print : α → List σ
  /-- a value at the beginning of a text, with what follows it -/
  read : List σ → Option (α × List σ)
  exact : ∀ {input value rest}, read input = some (value, rest) ↔
    Valid value ∧ input = print value ++ rest

namespace Format

variable {σ α β : Type}

theorem read_print (format : Format σ α) {value : α}
    (valid : format.Valid value) (rest : List σ) :
    format.read (format.print value ++ rest) = some (value, rest) :=
  format.exact.mpr ⟨valid, rfl⟩

/-- No text begins with two values. -/
theorem print_inj (format : Format σ α) {first second : α}
    {behind after : List σ} (valid : format.Valid first)
    (valid' : format.Valid second)
    (same : format.print first ++ behind = format.print second ++ after) :
    first = second ∧ behind = after := by
  have one := format.read_print valid behind
  rw [same, format.read_print valid'] at one
  injection one with pair
  injection pair with values rests
  exact ⟨values.symm, rests.symm⟩

/-- A text that is cut short is not read. -/
theorem read_cut (format : Format σ α) {value : α} {cut missing : List σ}
    (valid : format.Valid value) (whole : format.print value = cut ++ missing)
    (isCut : missing ≠ []) : format.read cut = none := by
  cases found : format.read cut with
  | none => rfl
  | some result =>
      obtain ⟨other, rest⟩ := result
      obtain ⟨valid', same⟩ := format.exact.mp found
      have twice : format.print value ++ [] =
          format.print other ++ (rest ++ missing) := by
        rw [whole, same, List.append_nil, List.append_assoc]
      obtain ⟨_, nothing⟩ := format.print_inj valid valid' twice
      exact absurd (List.append_eq_nil_iff.mp nothing.symm).2 isCut

/-! ## How formats are made -/

section Combinators

variable [DecidableEq σ]

/-- A text up to a symbol that is not in it. -/
def upTo (stop : σ) : Format σ (List σ) where
  Valid text := stop ∉ text
  print text := text ++ [stop]
  read input :=
    match input.dropWhile (· ≠ stop) with
    | [] => none
    | _ :: rest => some (input.takeWhile (· ≠ stop), rest)
  exact := by
    intro input text rest
    constructor
    · intro found
      have parts := List.takeWhile_append_dropWhile (p := (· ≠ stop)) (l := input)
      split at found
      · cases found
      · rename_i symbol behind dropped
        cases found
        have isStop : symbol = stop := by
          have head := List.head?_dropWhile_not (· ≠ stop) input
          rw [dropped] at head
          simpa using head
        constructor
        · intro member
          have outside := List.mem_takeWhile_imp member
          simp at outside
        · rw [dropped, isStop] at parts
          rw [List.append_assoc]
          exact parts.symm
    · rintro ⟨plain, rfl⟩
      have inside : ∀ symbol ∈ text, decide (symbol ≠ stop) = true := by
        intro symbol member
        rw [decide_eq_true_eq]
        rintro rfl
        exact plain member
      rw [List.append_assoc, List.dropWhile_append_of_pos inside,
        List.takeWhile_append_of_pos inside]
      simp

/-- A value with a fixed text behind it. -/
def followedBy (format : Format σ α) (text : List σ) : Format σ α where
  Valid := format.Valid
  print value := format.print value ++ text
  read input := do
    let (value, rest) ← format.read input
    if text <+: rest then some (value, rest.drop text.length) else none
  exact := by
    intro input value rest
    constructor
    · intro found
      obtain ⟨⟨first, behind⟩, isFirst, found⟩ := Option.bind_eq_some_iff.mp found
      obtain ⟨⟨after, rfl⟩, same⟩ := Option.ite_none_right_eq_some.mp found
      cases same
      obtain ⟨valid, rfl⟩ := format.exact.mp isFirst
      exact ⟨valid, by rw [List.drop_left, List.append_assoc]⟩
    · rintro ⟨valid, rfl⟩
      rw [List.append_assoc, format.read_print valid]
      simp

end Combinators

/-- A value, and another one behind it. -/
def andThen (first : Format σ α) (second : Format σ β) : Format σ (α × β) where
  Valid pair := first.Valid pair.1 ∧ second.Valid pair.2
  print pair := first.print pair.1 ++ second.print pair.2
  read input := do
    let (left, behind) ← first.read input
    let (right, rest) ← second.read behind
    return ((left, right), rest)
  exact := by
    intro input pair rest
    constructor
    · intro found
      obtain ⟨⟨left, behind⟩, isLeft, found⟩ := Option.bind_eq_some_iff.mp found
      obtain ⟨⟨right, after⟩, isRight, same⟩ :=
        Option.bind_eq_some_iff.mp found
      cases same
      obtain ⟨valid, rfl⟩ := first.exact.mp isLeft
      obtain ⟨valid', rfl⟩ := second.exact.mp isRight
      exact ⟨⟨valid, valid'⟩, (List.append_assoc ..).symm⟩
    · rintro ⟨⟨valid, valid'⟩, rfl⟩
      rw [List.append_assoc, first.read_print valid]
      simp [second.read_print valid']

/-- The format of values that are written as others; `decode` refuses what
`encode` does not make of a value that is `good`. -/
def via (format : Format σ α) (encode : β → α) (decode : α → Option β)
    (good : β → Prop)
    (inverse : ∀ {written value},
      decode written = some value ↔ good value ∧ written = encode value) :
    Format σ β where
  Valid value := good value ∧ format.Valid (encode value)
  print value := format.print (encode value)
  read input := do
    let (written, rest) ← format.read input
    let value ← decode written
    return (value, rest)
  exact := by
    intro input value rest
    constructor
    · intro found
      obtain ⟨⟨written, behind⟩, isWritten, found⟩ :=
        Option.bind_eq_some_iff.mp found
      obtain ⟨other, decoded, same⟩ := Option.bind_eq_some_iff.mp found
      cases same
      obtain ⟨isGood, rfl⟩ := inverse.mp decoded
      obtain ⟨valid, rfl⟩ := format.exact.mp isWritten
      exact ⟨⟨isGood, valid⟩, rfl⟩
    · rintro ⟨⟨isGood, valid⟩, rfl⟩
      have decoded := inverse.mpr ⟨isGood, rfl⟩
      rw [format.read_print valid]
      simp [decoded]

/-! ## Many values -/

/-- As many values as can be read, `count` at most, with what is left. -/
def readMany (format : Format σ α) : Nat → List σ → List α × List σ
  | 0, input => ([], input)
  | count + 1, input =>
      match format.read input with
      | none => ([], input)
      | some (value, rest) =>
          let (values, left) := readMany format count rest
          (value :: values, left)

/-- All the values at the beginning of a text. -/
def readAll (format : Format σ α) (input : List σ) : List α × List σ :=
  format.readMany input.length input

theorem readMany_prints (format : Format σ α) {left : List σ}
    (atEnd : format.read left = none) (values : List α)
    (valid : ∀ value ∈ values, format.Valid value) (count : Nat)
    (enough : values.length ≤ count) :
    format.readMany count ((values.map format.print).flatten ++ left) =
      (values, left) := by
  induction values generalizing count with
  | nil => cases count <;> simp [readMany, atEnd]
  | cons value values inductionHypothesis =>
      obtain _ | count := count
      · cases enough
      · have first := format.read_print (valid value List.mem_cons_self)
          ((values.map format.print).flatten ++ left)
        have later := inductionHypothesis
          (fun other member => valid other (List.mem_cons_of_mem value member))
          count (Nat.le_of_succ_le_succ enough)
        rw [List.map_cons, List.flatten_cons, List.append_assoc, readMany, first]
        simp only [later]

/-- Values that were printed one behind the other are read back, up to where no
further value can be read. -/
theorem readAll_prints (format : Format σ α) {left : List σ}
    (atEnd : format.read left = none)
    (visible : ∀ value, format.print value ≠ []) (values : List α)
    (valid : ∀ value ∈ values, format.Valid value) :
    format.readAll ((values.map format.print).flatten ++ left) =
      (values, left) := by
  refine format.readMany_prints atEnd values valid _ ?_
  have long : values.length ≤ (values.map format.print).flatten.length := by
    clear valid
    induction values with
    | nil => exact Nat.le_refl 0
    | cons value values inductionHypothesis =>
        have positive := List.length_pos_of_ne_nil (visible value)
        simp only [List.map_cons, List.flatten_cons, List.length_append,
          List.length_cons]
        omega
  rw [List.length_append]
  exact long.trans (Nat.le_add_right _ _)

end Format

end RemoteCommand.Machine
