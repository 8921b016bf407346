import RemoteCommand.AuthenticationSession
import RemoteCommand.Interaction.Agreement

/-!
# Tokens of passphrases

`hash` reads the bytes of a passphrase as the digits of a number to base 33,
behind a first digit 5381, and keeps 64 bits of it.  The digits go up to 255, so
that passphrases of two characters have tokens in common.
-/

namespace RemoteCommand

open Interaction Machine

/-! ## security.h -/

/-- `PASSPHRASE_BUFFER_SIZE`. -/
def passphraseBufferSize : Nat := 256

/-- A turn of the loop of `hash`. -/
def hashTurn (hash : BitVec 64) (c : Byte) : BitVec 64 :=
  ((hash <<< 5) + hash) + c.setWidth 64

def hash (str : List Byte) : BitVec 64 :=
  (cstr str).foldl hashTurn 5381

def generateToken (passphrase : List Byte) : BitVec 64 :=
  hash passphrase

/-- What `scanf` leaves in the array for a passphrase. -/
structure Passphrase where
  chars : List Byte
  nonempty : chars ≠ []
  fits : chars.length < passphraseBufferSize
  plain : ∀ byte ∈ chars, isspace byte = false

/-! ## The number behind a token -/

/-- The number with the digit 5381 in front of the bytes, to base 33. -/
def weight (passphrase : List Byte) : Nat :=
  Nat.ofDigits 33 (5381 :: (cstr passphrase).map BitVec.toNat).reverse

/-- `(hash << 5) + hash` is `hash * 33`. -/
theorem toNat_hashTurn (hash : BitVec 64) (c : Byte) :
    (hashTurn hash c).toNat = (c.toNat + 33 * hash.toNat) % 2 ^ 64 := by
  have small := c.isLt
  rw [hashTurn, BitVec.toNat_add, BitVec.toNat_add, BitVec.toNat_shiftLeft,
    BitVec.toNat_setWidth, Nat.shiftLeft_eq]
  omega

theorem toNat_generateToken (passphrase : List Byte) :
    (generateToken passphrase).toNat = weight passphrase % 2 ^ 64 := by
  unfold generateToken hash weight
  induction cstr passphrase using List.reverseRecOn with
  | nil => rfl
  | append_singleton text c inductionHypothesis =>
      rw [List.foldl_append, List.foldl_cons, List.foldl_nil, toNat_hashTurn,
        inductionHypothesis]
      simp only [List.map_append, List.map_cons, List.map_nil,
        ← List.cons_append, List.reverse_append, List.reverse_singleton,
        List.singleton_append, Nat.ofDigits_cons]
      omega

/-- Two passphrases have one token when their numbers agree in 64 bits. -/
theorem generateToken_eq_iff (first second : List Byte) :
    generateToken first = generateToken second ↔
      weight first ≡ weight second [MOD 2 ^ 64] := by
  rw [← BitVec.toNat_inj, toNat_generateToken, toNat_generateToken]
  rfl

/-- 33 is odd. -/
theorem hashTurn_injective {first second : BitVec 64} (c : Byte)
    (same : hashTurn first c = hashTurn second c) : first = second := by
  have turned := congrArg BitVec.toNat same
  rw [toNat_hashTurn, toNat_hashTurn] at turned
  have times : 33 * first.toNat ≡ 33 * second.toNat [MOD 2 ^ 64] :=
    Nat.ModEq.add_left_cancel' c.toNat turned
  have once : first.toNat ≡ second.toNat [MOD 2 ^ 64] :=
    times.cancel_left_of_coprime (by decide)
  exact BitVec.eq_of_toNat_eq (once.eq_of_lt_of_lt first.isLt second.isLt)

/-- The same characters behind different hashes leave them different. -/
theorem foldl_hashTurn_injective (text : List Byte) {first second : BitVec 64}
    (same : text.foldl hashTurn first = text.foldl hashTurn second) :
    first = second := by
  induction text generalizing first second with
  | nil => exact same
  | cons c text inductionHypothesis =>
      exact hashTurn_injective c (inductionHypothesis same)

/-- A passphrase in which one character is wrong has another token. -/
theorem generateToken_one_wrong {before after : List Byte} {first second : Byte}
    (plain : 0 ∉ before) (firstPlain : first ≠ 0) (secondPlain : second ≠ 0)
    (different : first ≠ second) :
    generateToken (before ++ first :: after) ≠
      generateToken (before ++ second :: after) := by
  unfold generateToken hash
  rw [cstr_append plain, cstr_append plain, cstr_cons, cstr_cons,
    if_neg firstPlain, if_neg secondPlain]
  simp only [List.foldl_append, List.foldl_cons]
  intro same
  have turned := congrArg BitVec.toNat (foldl_hashTurn_injective _ same)
  rw [toNat_hashTurn, toNat_hashTurn] at turned
  have equal : first.toNat ≡ second.toNat [MOD 2 ^ 64] :=
    Nat.ModEq.add_right_cancel' _ turned
  have wide : 2 ^ 8 ≤ 2 ^ 64 := by decide
  exact different (BitVec.eq_of_toNat_eq (equal.eq_of_lt_of_lt
    (first.isLt.trans_le wide) (second.isLt.trans_le wide)))

/-! ## The handshake -/

/-- Different tokens, and a handshake in which nobody returns `OK`. -/
structure Distinguished (server typed : Passphrase) : Prop where
  tokens : generateToken server.chars ≠ generateToken typed.chars
  refused : ∀ (serverHost clientHost : Endian) (serverConn clientConn : Int)
    (client : Passphrase) (serverDevice clientDevice : Device),
    let start := authenticationStart serverHost clientHost serverConn clientConn
      (generateToken server.chars) (generateToken typed.chars)
      (generateToken client.chars) serverDevice clientDevice
    ¬ LeftReturns deviceHost start (· = ok) ∧
      ¬ RightReturns deviceHost start (· = ok)

/-- Passphrases are told apart exactly when their numbers are, in 64 bits. -/
theorem distinguished_iff (server typed : Passphrase) :
    Distinguished server typed ↔
      ¬ weight server.chars ≡ weight typed.chars [MOD 2 ^ 64] := by
  rw [← generateToken_eq_iff]
  refine ⟨Distinguished.tokens, fun different => ⟨different, ?_⟩⟩
  intro serverHost clientHost serverConn clientConn client serverDevice
    clientDevice start
  obtain ⟨final, reaches, left, right⟩ := authentication_reaches serverHost
    clientHost serverConn clientConn (generateToken server.chars)
    (generateToken typed.chars) (generateToken client.chars) serverDevice
    clientDevice
  rw [if_neg different] at left right
  have failed : ¬ authFail = ok := by decide
  have finishes : Finishes deviceHost start
      fun value result => (value = ok ↔ False) ∧ (result = ok ↔ False) :=
    ⟨final, authFail, authFail, reaches, left, right, by simp [failed]⟩
  have leftFails := (finishes.mono fun _ _ both => both.1).leftReturns_iff
  have rightFails := (finishes.mono fun _ _ both => both.2).rightReturns_iff
  exact ⟨leftFails.1, rightFails.1⟩

/-- `ab` and `bA`. -/
theorem passphrases_collide :
    ¬ ∀ server typed : Passphrase, server.chars ≠ typed.chars →
      Distinguished server typed := by
  intro always
  have distinguished := always
    ⟨bytes "ab", by decide, by decide, by decide⟩
    ⟨bytes "bA", by decide, by decide, by decide⟩ (by decide)
  exact distinguished.tokens (by decide)

end RemoteCommand
