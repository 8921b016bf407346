import RemoteCommand.Platform

/-!
# networking.h and security.h

Byte order of 64-bit numbers, and the random numbers of the challenge.  An
object in memory is the function from an offset to the byte that is there.
-/

namespace RemoteCommand

open Interaction Machine

/-! ## Byte order -/

/-- Byte `index` of a number, the lowest byte being number zero. -/
def byteOf (value : BitVec 64) (index : Nat) : Byte :=
  value.extractLsb' (8 * index) 8

/-- The eight bytes of a number in memory. -/
def memoryOf (host : Endian) (value : BitVec 64) : List Byte :=
  match host with
  | .little => (List.range 8).map (byteOf value)
  | .big => ((List.range 8).map (byteOf value)).reverse

/-- The number that eight bytes of memory hold. -/
def ofMemory (host : Endian) (memory : Nat → Byte) : BitVec 64 :=
  match host with
  | .little => memory 7 ++ memory 6 ++ memory 5 ++ memory 4 ++
      memory 3 ++ memory 2 ++ memory 1 ++ memory 0
  | .big => memory 0 ++ memory 1 ++ memory 2 ++ memory 3 ++
      memory 4 ++ memory 5 ++ memory 6 ++ memory 7

/-- Memory after `data` was stored from `offset` on. -/
def store (memory : Nat → Byte) (offset : Int) (data : List Byte) :
    Nat → Byte :=
  fun index =>
    if offset ≤ index ∧ index < offset + data.length then
      data.getD (index - offset).toNat 0
    else
      memory index

/-- `htonl` and `ntohl`: the identity on a big-endian host. -/
def htonl (host : Endian) (value : BitVec 32) : BitVec 32 :=
  match host with
  | .little => value.extractLsb' 0 8 ++ value.extractLsb' 8 8 ++
      value.extractLsb' 16 8 ++ value.extractLsb' 24 8
  | .big => value

def ntohs (host : Endian) (value : BitVec 16) : BitVec 16 :=
  match host with
  | .little => value.extractLsb' 0 8 ++ value.extractLsb' 8 8
  | .big => value

def getPort (host : Endian) (co : Connection) : Int :=
  (ntohs host co.sinPort).toNat

def htonll (host : Endian) (value : BitVec 64) : BitVec 64 :=
  match host with
  | .little =>
      let highPart := htonl host ((value >>> 32).setWidth 32)
      let lowPart := htonl host ((value &&& 0xFFFFFFFF).setWidth 32)
      (lowPart.setWidth 64 <<< 32) ||| highPart.setWidth 64
  | .big => value

def nlltoh (host : Endian) (value : BitVec 64) : BitVec 64 :=
  match host with
  | .little =>
      let highPart := htonl host ((value >>> 32).setWidth 32)
      let lowPart := htonl host ((value &&& 0xFFFFFFFF).setWidth 32)
      (lowPart.setWidth 64 <<< 32) ||| highPart.setWidth 64
  | .big => value

/-- The bytes of a number, the highest first. -/
def bigEndian (value : BitVec 64) : List Byte :=
  ((List.range 8).map (byteOf value)).reverse

def sendLong (host : Endian) (conn : Int) (value : BitVec 64) :
    Prog Sys Int := do
  let nVal := htonll host value
  if (← send conn (memoryOf host nVal)) < 0 then
    return -1
  return 0

/-- The loop of `recv_long`.  A failed `recv` returns `-1`, which is added to
the count like any other result. -/
def recvLongLoop (conn : Int) (nVal : Nat → Byte) : Prog Sys (Nat → Byte) :=
  Prog.iterate (fun (recvBytes, nVal) =>
    if recvBytes < 8 then do
      match ← (Call.recv conn recvBytes (8 - recvBytes).toNat).perform with
      | .data chars _ _ =>
          return .inl (recvBytes + chars.length, store nVal recvBytes chars)
      | .closed => return .inl (recvBytes + 0, nVal)
      | .error => return .inl (recvBytes - 1, nVal)
    else
      return .inr nVal) ((0 : Int), nVal)

/-- The return value of `recv_long`, which is always zero, and `*value`. -/
def recvLong (host : Endian) (conn : Int) : Prog Sys (Int × BitVec 64) := do
  let stale ← indeterminate
  let nVal ← recvLongLoop conn (stale.getD · 0)
  return (0, nlltoh host (ofMemory host nVal))

/-! ## Random numbers -/

def longRandLoop : Nat → BitVec 64 → Prog Sys (BitVec 64)
  | 0, random => return random
  | turns + 1, random => do
      let temp ← Call.rand.perform
      longRandLoop turns ((random <<< 8) ||| (temp.setWidth 64 &&& 255))

/-- The seed has no influence on the model: what `rand` returns is arbitrary. -/
def longRand : Prog Sys (BitVec 64) :=
  longRandLoop 8 0

end RemoteCommand
