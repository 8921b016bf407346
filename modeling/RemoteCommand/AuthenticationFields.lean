import RemoteCommand.AuthenticationSession

/-!
# The fields of a part of the AUTH message

A part has the three fields only when it reaches into the last one.  Then the
number there is another one, so that a client with the token of the server is
not accepted.
-/

namespace RemoteCommand

open Interaction Machine

/-- The memory in which `authFields` looks for the first field. -/
def beforeFields (text : List Byte) : Strtok Unit where
  buffer _ := text
  save := some ((), 0)

theorem beforeFields_at (text : List Byte) :
    (beforeFields text).At () [] text :=
  ⟨rfl, rfl⟩

/-- The fields are what the three calls find. -/
theorem authFields_calls {text : List Byte}
    {auth enc1 enc2 : Option (List Byte)}
    {memory₁ memory₂ memory₃ : Strtok Unit}
    (first : (beforeFields text).strtok none (bytes " ") = (auth, memory₁))
    (second : memory₁.strtok none (bytes " ") = (enc1, memory₂))
    (third : memory₂.strtok none (bytes "\x00") = (enc2, memory₃)) :
    authFields text =
      auth.bind fun auth => enc1.bind fun enc1 =>
        enc2.map fun enc2 => (auth, enc1, enc2) := by
  rw [beforeFields] at first
  unfold authFields fieldsOf
  rw [Strtok.strtok_source]
  simp only [first]
  cases auth with
  | none => rfl
  | some auth =>
  simp only [second]
  cases enc1 with
  | none => rfl
  | some enc1 =>
  simp only [third]
  cases enc2 <;> rfl

/-- The blank separates words. -/
theorem isWord_blank {word : List Byte}
    (plain : ∀ byte ∈ word, byte ≠ 0 ∧ byte ≠ 32) :
    ∀ byte ∈ word, byte ≠ 0 ∧ byte ∉ cstr (bytes " ") := by
  have blank : ∀ byte ∈ cstr (bytes " "), byte = 32 := by decide
  exact fun byte member => ⟨(plain byte member).1,
    fun inside => (plain byte member).2 (blank byte inside)⟩

/-- A text of one word, which may be empty, has no three fields. -/
theorem authFields_one {word : List Byte}
    (plain : ∀ byte ∈ word, byte ≠ 0 ∧ byte ≠ 32) : authFields word = none := by
  have here := beforeFields_at word
  by_cases empty : word = []
  · subst empty
    rw [authFields_calls (Prod.mk.eta.symm) (Prod.mk.eta.symm)
      (Prod.mk.eta.symm), Strtok.strtok_end here]
    rfl
  · rw [authFields_calls
      (Strtok.strtok_last (bytes " ") here empty (isWord_blank plain))
      (Prod.mk.eta.symm) (Prod.mk.eta.symm), Strtok.strtok_end here.behind]
    rfl

/-- Neither has a text of two words, the second of which may be empty. -/
theorem authFields_two (first : Word) {second : List Byte}
    (plain : ∀ byte ∈ second, byte ≠ 0 ∧ byte ≠ 32) :
    authFields (first.chars ++ 32 :: second) = none := by
  obtain ⟨memory, one, here, _⟩ := Strtok.strtok_word (bytes " ")
    (beforeFields_at (first.chars ++ 32 :: second)) first.nonempty
      (isWord_blank first.plain) (by decide)
  by_cases empty : second = []
  · subst empty
    rw [authFields_calls one (Prod.mk.eta.symm) (Prod.mk.eta.symm),
      Strtok.strtok_end here]
    rfl
  · rw [authFields_calls one
      (Strtok.strtok_last (bytes " ") here empty (isWord_blank plain))
      (Prod.mk.eta.symm), Strtok.strtok_end here.behind]
    rfl

/-- Neither has one that ends behind the second word. -/
theorem authFields_twoBlank (first second : Word) :
    authFields (first.chars ++ 32 :: (second.chars ++ [32])) = none := by
  obtain ⟨memory, one, here, _⟩ := Strtok.strtok_word (bytes " ")
    (beforeFields_at (first.chars ++ 32 :: (second.chars ++ [32])))
      first.nonempty (isWord_blank first.plain) (by decide)
  obtain ⟨memory, two, here, _⟩ := Strtok.strtok_word (bytes " ") here
    second.nonempty (isWord_blank second.plain) (by decide)
  rw [authFields_calls one two (Prod.mk.eta.symm), Strtok.strtok_end here]
  rfl

/-- Three words are three fields. -/
theorem authFields_three (first second third : Word) :
    authFields (first.chars ++ 32 :: (second.chars ++ 32 :: third.chars)) =
      some (first.chars, second.chars, third.chars) := by
  obtain ⟨memory, one, here, _⟩ := Strtok.strtok_word (bytes " ")
    (beforeFields_at
      (first.chars ++ 32 :: (second.chars ++ 32 :: third.chars)))
      first.nonempty (isWord_blank first.plain) (by decide)
  obtain ⟨memory, two, here, _⟩ := Strtok.strtok_word (bytes " ") here
    second.nonempty (isWord_blank second.plain) (by decide)
  have nothing : cstr (bytes "\x00") = [] := by decide
  have plain (byte : Byte) (member : byte ∈ third.chars) :
      byte ≠ 0 ∧ byte ∉ cstr (bytes "\x00") := by
    rw [nothing]
    exact ⟨(third.plain byte member).1, List.not_mem_nil⟩
  rw [authFields_calls one two
    (Strtok.strtok_last (bytes "\x00") here third.nonempty plain)]
  rfl

def authWord : Word := ⟨bytes "AUTH", by decide, by decide⟩

/-- A part of the AUTH message has the fields only when it reaches into the
second number, and then it has a part of that. -/
theorem authFields_take (enc1 enc2 : BitVec 64) {count : Nat}
    (fewer : count < (authMessage enc1 enc2).length) :
    authFields ((authMessage enc1 enc2).take count) = none ∨
      ∃ digits, 0 < digits ∧ digits < (decimal enc2.toNat).length ∧
        (authMessage enc1 enc2).drop count =
          (decimal enc2.toNat).drop digits ∧
        authFields ((authMessage enc1 enc2).take count) =
          some (bytes "AUTH", decimal enc1.toNat,
            (decimal enc2.toNat).take digits) := by
  have tag : (bytes "AUTH").length = 4 := rfl
  let one := decimalWord enc1.toNat
  let two := decimalWord enc2.toNat
  have text : authMessage enc1 enc2 =
      authWord.chars ++ 32 :: (one.chars ++ 32 :: two.chars) :=
    authMessage_eq enc1 enc2
  rw [text] at fewer ⊢
  rw [List.length_append, List.length_cons, List.length_append,
    List.length_cons, show authWord.chars.length = 4 from rfl] at fewer
  by_cases within : count ≤ 4
  · left
    rw [List.take_append_of_le_length within]
    exact authFields_one fun byte member =>
      authWord.plain byte (List.mem_of_mem_take member)
  · obtain ⟨more, rfl⟩ : ∃ more, count = authWord.chars.length + (more + 1) :=
      ⟨count - 5, by rw [show authWord.chars.length = 4 from rfl]; omega⟩
    rw [List.take_length_add_append, List.take_succ_cons,
      List.drop_length_add_append, List.drop_succ_cons]
    by_cases within : more ≤ one.chars.length
    · left
      rw [List.take_append_of_le_length within]
      exact authFields_two authWord fun byte member =>
        one.plain byte (List.mem_of_mem_take member)
    · obtain ⟨digits, rfl⟩ : ∃ digits, more = one.chars.length + (digits + 1) :=
        ⟨more - one.chars.length - 1, by omega⟩
      rw [List.take_length_add_append, List.take_succ_cons,
        List.drop_length_add_append, List.drop_succ_cons]
      by_cases empty : digits = 0
      · left
        subst empty
        exact authFields_twoBlank authWord one
      · right
        have part : two.chars.take digits ≠ [] := by
          rw [Ne, List.take_eq_nil_iff]
          exact fun nothing => nothing.elim empty two.nonempty
        refine ⟨digits, Nat.pos_of_ne_zero empty, ?_, rfl, ?_⟩
        · have length : two.chars.length = (decimal enc2.toNat).length := rfl
          rw [show authWord.chars.length = 4 from rfl] at fewer
          omega
        · exact authFields_three authWord one ⟨two.chars.take digits, part,
            fun byte member => two.plain byte (List.mem_of_mem_take member)⟩

/-- A client with the token of the server is not accepted for a part of its
message. -/
theorem not_accepts_take {serverToken enc1 enc2 : BitVec 64} {count : Nat}
    (fewer : count < (authMessage enc1 enc2).length)
    (matching : enc1 ^^^ enc2 = serverToken) :
    ¬ Accepts serverToken ((authMessage enc1 enc2).take count) := by
  rcases authFields_take enc1 enc2 fewer with
    missing | ⟨digits, positive, few, _, fields⟩
  · exact not_accepts missing
  · rw [accepts_iff_fields fields]
    rintro ⟨_, accepted⟩
    obtain ⟨part, less, text⟩ := decimal_take_ne positive few
    have back : (BitVec.ofNat 64 part).toNat = part := by
      rw [BitVec.toNat_ofNat]
      exact Nat.mod_eq_of_lt (less.trans enc2.isLt)
    have value : strtoull ((decimal enc2.toNat).take digits) =
        BitVec.ofNat 64 part := by
      rw [text, ← strtoull_decimal (BitVec.ofNat 64 part), back]
    rw [strtoull_decimal, value, ← matching, BitVec.xor_right_inj] at accepted
    rw [← accepted, back] at less
    exact absurd less (Nat.lt_irrefl _)

end RemoteCommand
