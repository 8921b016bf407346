import RemoteCommand.Networking

/-!
# Numbers on the wire

`send_long` puts the big-endian bytes of a number on the wire on every host,
and `recv_long` turns them back into the number on every host.  Every 64-bit
challenge is drawn from some outputs of `rand`.
-/

namespace RemoteCommand

open Interaction Machine

/-! ## Byte order -/

theorem getLsbD_byteOf (value : BitVec 64) {index bit : Nat}
    (inside : bit < 8) :
    (byteOf value index).getLsbD bit = value.getLsbD (8 * index + bit) := by
  simp [byteOf, inside]

theorem getLsbD_htonl (value : BitVec 32) {bit : Nat} (inside : bit < 32) :
    (htonl .little value).getLsbD bit =
      value.getLsbD (8 * (3 - bit / 8) + bit % 8) := by
  have quotient : bit / 8 = 0 ∨ bit / 8 = 1 ∨ bit / 8 = 2 ∨ bit / 8 = 3 := by
    omega
  unfold htonl
  simp only [BitVec.getLsbD_append, BitVec.getLsbD_extractLsb']
  rcases quotient with byte | byte | byte | byte
  · have first : bit < 8 := by omega
    simp [byte, first, show bit % 8 = bit by omega]
  · have second : ¬ bit < 8 ∧ bit - 8 < 8 := by omega
    simp [byte, second, show bit % 8 = bit - 8 by omega]
  · have third : ¬ bit < 8 ∧ ¬ bit - 8 < 8 ∧ bit - 8 - 8 < 8 := by omega
    simp [byte, third, show bit % 8 = bit - 8 - 8 by omega]
  · have fourth : ¬ bit < 8 ∧ ¬ bit - 8 < 8 ∧ ¬ bit - 8 - 8 < 8 ∧
        bit - 8 - 8 - 8 < 8 := by omega
    simp [byte, fourth, show bit % 8 = bit - 8 - 8 - 8 by omega]

/-- On a little-endian host the eight bytes are reversed. -/
theorem getLsbD_htonll (value : BitVec 64) {bit : Nat} (inside : bit < 64) :
    (htonll .little value).getLsbD bit =
      value.getLsbD (8 * (7 - bit / 8) + bit % 8) := by
  have mask : (value &&& 0xFFFFFFFF).setWidth 32 = value.setWidth 32 := by
    rw [BitVec.setWidth_and]
    exact BitVec.and_allOnes
  unfold htonll
  rw [mask, BitVec.getLsbD_or, BitVec.getLsbD_shiftLeft,
    BitVec.getLsbD_setWidth, BitVec.getLsbD_setWidth]
  by_cases low : bit < 32
  · have place : 32 + (8 * (3 - bit / 8) + bit % 8) =
        8 * (7 - bit / 8) + bit % 8 := by omega
    have within : 8 * (3 - bit / 8) + bit % 8 < 32 := by omega
    rw [getLsbD_htonl _ low, BitVec.getLsbD_setWidth,
      BitVec.getLsbD_ushiftRight, place]
    simp [low, inside, within]
  · have high : bit - 32 < 32 := by omega
    have place : 8 * (3 - (bit - 32) / 8) + (bit - 32) % 8 =
        8 * (7 - bit / 8) + bit % 8 := by omega
    have within : 8 * (7 - bit / 8) + bit % 8 < 32 := by omega
    rw [getLsbD_htonl _ high, BitVec.getLsbD_setWidth, place,
      BitVec.getLsbD_of_ge (htonl _ _) bit (by omega)]
    simp [low, inside, within, show bit - 32 < 64 by omega]

theorem nlltoh_htonll (host : Endian) (value : BitVec 64) :
    nlltoh host (htonll host value) = value := by
  cases host with
  | big => rfl
  | little =>
      apply BitVec.eq_of_getLsbD_eq
      intro bit inside
      have reversed : 8 * (7 - bit / 8) + bit % 8 < 64 := by omega
      have back : 8 * (7 - (8 * (7 - bit / 8) + bit % 8) / 8) +
          (8 * (7 - bit / 8) + bit % 8) % 8 = bit := by omega
      rw [show nlltoh .little = htonll .little from rfl,
        getLsbD_htonll _ inside, getLsbD_htonll _ reversed, back]

theorem byteOf_htonll (value : BitVec 64) {index : Nat} (inside : index < 8) :
    byteOf (htonll .little value) index = byteOf value (7 - index) := by
  apply BitVec.eq_of_getLsbD_eq
  intro bit small
  have place : 8 * (7 - (8 * index + bit) / 8) + (8 * index + bit) % 8 =
      8 * (7 - index) + bit := by omega
  rw [getLsbD_byteOf _ small, getLsbD_byteOf _ small,
    getLsbD_htonll _ (by omega), place]

/-- The bytes that `send_long` puts on the wire, on every host. -/
theorem memoryOf_htonll (host : Endian) (value : BitVec 64) :
    memoryOf host (htonll host value) = bigEndian value := by
  cases host with
  | big => rfl
  | little =>
      simp [memoryOf, bigEndian, List.range_succ, byteOf_htonll]

theorem ofMemory_memoryOf (host : Endian) (value : BitVec 64)
    {memory : Nat → Byte}
    (holds : ∀ index < 8, memory index = (memoryOf host value).getD index 0) :
    ofMemory host memory = value := by
  have joined : byteOf value 7 ++ byteOf value 6 ++ byteOf value 5 ++
      byteOf value 4 ++ byteOf value 3 ++ byteOf value 2 ++ byteOf value 1 ++
        byteOf value 0 = value := by
    apply BitVec.eq_of_getLsbD_eq
    intro bit inside
    simp only [BitVec.getLsbD_append]
    repeat' split
    all_goals
      rw [getLsbD_byteOf _ (by omega)]
      congr 1
      omega
  cases host with
  | big =>
      rw [← joined]
      simp [ofMemory, holds, memoryOf, List.range_succ]
  | little =>
      simpa [ofMemory, holds, memoryOf, List.range_succ] using joined

theorem bigEndian_length (value : BitVec 64) :
    (bigEndian value).length = 8 := by
  simp [bigEndian]

/-- What `recv_long` makes of the bytes on the wire, on every host. -/
theorem nlltoh_bigEndian (host : Endian) (memory : Nat → Byte)
    (value : BitVec 64) :
    nlltoh host (ofMemory host (store memory 0 (bigEndian value))) = value := by
  have holds : ∀ index < 8, store memory 0 (bigEndian value) index =
      (memoryOf host (htonll host value)).getD index 0 := by
    intro index inside
    rw [memoryOf_htonll, store, bigEndian_length, if_pos (by omega)]
    simp
  rw [ofMemory_memoryOf host (htonll host value) holds, nlltoh_htonll]

/-! ## Random numbers -/

/-- What `long_rand` adds for one output of `rand`. -/
def addRandom (random : BitVec 64) (temp : BitVec 31) : BitVec 64 :=
  (random <<< 8) ||| (temp.setWidth 64 &&& 255)

/-- The number that `long_rand` makes of outputs of `rand`. -/
def drawn (temps : List (BitVec 31)) : BitVec 64 :=
  temps.foldl addRandom 0

/-- Outputs of `rand` for which `long_rand` returns a given number. -/
def randsFor (challenge : BitVec 64) : List (BitVec 31) :=
  (List.range 8).reverse.map fun index => (byteOf challenge index).setWidth 31

/-- An output of `rand` brings in the next byte of the number. -/
theorem addRandom_byteOf (challenge : BitVec 64) (index : Nat) :
    addRandom (challenge >>> (8 * (index + 1)))
      ((byteOf challenge index).setWidth 31) = challenge >>> (8 * index) := by
  have mask (bit : Nat) : (255 : BitVec 64).getLsbD bit = decide (bit < 8) := by
    rw [show (255 : BitVec 64) = (BitVec.allOnes 8).setWidth 64 from rfl,
      BitVec.getLsbD_setWidth, BitVec.getLsbD_allOnes]
    by_cases low : bit < 8
    · simp [low, show bit < 64 by omega]
    · simp [low]
  apply BitVec.eq_of_getLsbD_eq
  intro bit inside
  rw [addRandom, BitVec.getLsbD_or, BitVec.getLsbD_shiftLeft,
    BitVec.getLsbD_and, mask, BitVec.getLsbD_setWidth, BitVec.getLsbD_setWidth,
    BitVec.getLsbD_ushiftRight, BitVec.getLsbD_ushiftRight]
  by_cases low : bit < 8
  · rw [getLsbD_byteOf _ low]
    simp [low, inside, show bit < 31 by omega]
  · have place : 8 * (index + 1) + (bit - 8) = 8 * index + bit := by omega
    simp [low, inside, place]

theorem foldl_addRandom (challenge : BitVec 64) (count : Nat) :
    ((List.range count).reverse.map fun index =>
      (byteOf challenge index).setWidth 31).foldl addRandom
        (challenge >>> (8 * count)) = challenge := by
  induction count with
  | zero => simp
  | succ count inductionHypothesis =>
      rw [List.range_succ, List.reverse_append, List.reverse_singleton,
        List.singleton_append, List.map_cons, List.foldl_cons,
        addRandom_byteOf, inductionHypothesis]

theorem drawn_randsFor (challenge : BitVec 64) :
    drawn (randsFor challenge) = challenge := by
  have nothing : (0 : BitVec 64) = challenge >>> (8 * 8) :=
    (BitVec.ushiftRight_eq_zero (by decide)).symm
  rw [drawn, nothing]
  exact foldl_addRandom challenge 8

end RemoteCommand
