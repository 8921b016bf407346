import RemoteCommand.Device

/-!
# A machine that follows a script

A machine like `Device`, but every call may fail: what the coming reads of a
file and of the output of a command get is given in advance, and so is the
answer of every other call.  `strtok` and the arrays it works on are real.

A file ends, or cannot be read any further, after finitely many reads; then
either `feof` or `ferror` tells so.
-/

namespace RemoteCommand

open Interaction Machine

structure Script where
  memory : Strtok Buffer
  /-- what the coming calls of `fread` read -/
  reads : List (List Byte)
  /-- the file ends in a read error -/
  readError : Bool
  /-- what the coming calls of `fgets` read -/
  lines : List (List Byte)
  answers : Nat → (call : Call) → call.Answer

namespace Script

def fread (script : Script) (length : Nat) :
    { chars : List Byte // chars.length ≤ length } × Script :=
  match script.reads with
  | [] => (⟨[], Nat.zero_le _⟩, script)
  | block :: reads =>
      (⟨block.take length, List.length_take_le _ _⟩, { script with reads })

def fgets (script : Script) (length : Nat) :
    Option { chars : List Byte // chars.length < length } × Script :=
  match script.lines with
  | [] => (none, script)
  | line :: lines =>
      if fits : line.length < length then
        (some ⟨line, fits⟩, { script with lines })
      else
        (none, script)

/-- The answers of the script, behind the next one. -/
def next (script : Script) : Script :=
  { script with answers := fun index => script.answers (index + 1) }

def answer (script : Script) : (call : Call) → call.Answer × Script
  | .fill buffer chars =>
      ((), { script with memory := script.memory.load buffer chars })
  | .contents buffer => (script.memory.buffer buffer, script)
  | .strtok source delim =>
      let (token, memory) := script.memory.strtok source delim
      (token, { script with memory })
  | .fread length _ => script.fread length
  | .ferror _ => (if script.readError then (1 : Int) else 0, script)
  | .feof _ => (if script.readError then (0 : Int) else 1, script)
  | .fgets length _ => script.fgets length
  | call => (script.answers 0 call, script.next)

theorem answer_strtok {script : Script} {source : Option Buffer}
    {delim : List Byte} {token : Option (List Byte)} {memory : Strtok Buffer}
    (called : script.memory.strtok source delim = (token, memory)) :
    script.answer (.strtok source delim) =
      (token, { script with memory }) := by
  simp [answer, called]

/-- When nothing is read, one of the two calls tells why. -/
theorem told (script : Script) :
    (if script.readError then (1 : Int) else 0) ≠ 0 ∨
      (if script.readError then (0 : Int) else 1) ≠ 0 := by
  cases script.readError
  · exact .inr one_ne_zero
  · exact .inl one_ne_zero

end Script

/-- A machine without files that answers every call in one way. -/
def Script.bare : Script where
  memory := { buffer := fun _ => [], save := none }
  reads := []
  readError := false
  lines := []
  answers _ := Device.bare.elsewhere

/-- A side of a session whose machine follows a script. -/
def scriptHost : Host Sys Byte Script :=
  machineHost Script.answer

end RemoteCommand
