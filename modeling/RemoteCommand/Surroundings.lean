import RemoteCommand.ByteOrder
import RemoteCommand.Authentication
import RemoteCommand.Interaction.Runs

/-!
# A process whose other calls may return anything

The peer, the operating system and `rand` may answer as they like; only
`strtok` does what the C library says, on memory that no other thread changes.
From a trace one reads what a connection delivered and what `rand` returned.
-/

namespace RemoteCommand

open Interaction Machine Prog

/-- The answers of `strtok` and of the array accesses, by the memory. -/
def Call.Answers : (call : Call) → Strtok Buffer → call.Answer →
    Strtok Buffer → Prop
  | .fill buffer chars, memory, _, after => after = memory.load buffer chars
  | .contents buffer, memory, chars, after =>
      chars = memory.buffer buffer ∧ after = memory
  | .strtok source delim, memory, token, after =>
      memory.strtok source delim = (token, after)
  | _, memory, _, after => after = memory

def anyOutcome : Env Sys (Strtok Buffer) where
  answer memory call response after := call.Answers memory response after

/-- The memory that a possible answer leaves, for a thread whose arrays are at
certain places of it. -/
def Call.afterAt {κ : Type} [DecidableEq κ] (place : Buffer → κ) :
    Strtok κ → (call : Call) → call.Answer → Option (Strtok κ)
  | memory, .fill buffer chars, _ => some (memory.load (place buffer) chars)
  | memory, .contents buffer, chars =>
      if chars = memory.buffer (place buffer) then some memory else none
  | memory, .strtok source delim, token =>
      if (memory.strtok (source.map place) delim).1 = token then
        some (memory.strtok (source.map place) delim).2
      else
        none
  | memory, _, _ => some memory

/-- The memory of a process with one thread. -/
abbrev Call.after : Strtok Buffer → (call : Call) → call.Answer →
    Option (Strtok Buffer) :=
  Call.afterAt id

theorem Call.after_eq_some_iff {memory after : Strtok Buffer} {call : Call}
    {response : call.Answer} :
    call.after memory response = some after ↔
      anyOutcome.answer memory call response after := by
  cases call with
  | contents buffer =>
      simp only [Call.after, Call.afterAt, Option.ite_none_right_eq_some,
        Option.some.injEq, id_eq]
      exact and_congr_right fun _ => eq_comm
  | strtok source delim =>
      simp only [Call.after, Call.afterAt, Option.ite_none_right_eq_some,
        Option.map_id_fun, id_eq, Option.some.injEq]
      exact (@Prod.ext_iff _ _ (memory.strtok source delim)
        (response, after)).symm
  | _ =>
      simp only [Call.after, Call.afterAt, Option.some.injEq]
      exact eq_comm

theorem Call.answers_of_after {memory after : Strtok Buffer} {call : Call}
    {response : call.Answer}
    (possible : call.after memory response = some after) :
    anyOutcome.answer memory call response after :=
  Call.after_eq_some_iff.1 possible

/-! ## Reading a trace -/

/-- The entries of a trace of one kind, in order. -/
def entries {α : Type} (entry : Event Sys → Option α)
    (trace : List (Event Sys)) : List α :=
  trace.filterMap entry

section Entries

variable {α : Type} (entry : Event Sys → Option α)

@[simp]
theorem entries_nil : entries entry [] = [] :=
  rfl

@[simp]
theorem entries_append (first second : List (Event Sys)) :
    entries entry (first ++ second) =
      entries entry first ++ entries entry second :=
  List.filterMap_append

@[simp]
theorem entries_cons (event : Event Sys) (trace : List (Event Sys)) :
    entries entry (event :: trace) =
      (entry event).toList ++ entries entry trace := by
  cases taken : entry event <;> simp [entries, taken]

theorem entries_eq_nil {trace : List (Event Sys)}
    (none : ∀ event ∈ trace, entry event = none) : entries entry trace = [] :=
  List.filterMap_eq_nil_iff.2 none

end Entries

/-- What a `recv` on a connection brought; `none` when it failed or the peer
had closed. -/
def receivedBy (conn : Int) : Event Sys → Option (Option (List Byte))
  | ⟨.recv other _ _, .data chars _ _⟩ =>
      if other = conn then some (some chars) else none
  | ⟨.recv other _ _, _⟩ => if other = conn then some none else none
  | _ => none

/-- What a `send` on a connection was given. -/
def sentBy (conn : Int) : Event Sys → Option (List Byte)
  | ⟨.send other data, _⟩ => if other = conn then some data else none
  | _ => none

def randomBy : Event Sys → Option (BitVec 31)
  | ⟨.rand, temp⟩ => some temp
  | _ => none

/-- The results of the `recv` calls on a connection. -/
abbrev received (conn : Int) : List (Event Sys) →
    List (Option (List Byte)) :=
  entries (receivedBy conn)

/-- The messages that a connection was given to send. -/
abbrev sent (conn : Int) : List (Event Sys) → List (List Byte) :=
  entries (sentBy conn)

/-- The outputs of `rand`. -/
abbrev randoms : List (Event Sys) → List (BitVec 31) :=
  entries randomBy

/-! ## The challenge -/

/-- The events in which `rand` returns given outputs. -/
def randomEvents (temps : List (BitVec 31)) : List (Event Sys) :=
  temps.map fun temp => ⟨.rand, temp⟩

@[simp]
theorem randoms_randomEvents (temps : List (BitVec 31)) :
    randoms (randomEvents temps) = temps := by
  induction temps with
  | nil => rfl
  | cons temp temps inductionHypothesis =>
      exact congrArg (temp :: ·) inductionHypothesis

@[simp]
theorem received_randomEvents (conn : Int) (temps : List (BitVec 31)) :
    received conn (randomEvents temps) = [] := by
  refine entries_eq_nil _ fun event member => ?_
  obtain ⟨temp, _, rfl⟩ := List.mem_map.1 member
  rfl

@[simp]
theorem sent_randomEvents (conn : Int) (temps : List (BitVec 31)) :
    sent conn (randomEvents temps) = [] := by
  refine entries_eq_nil _ fun event member => ?_
  obtain ⟨temp, _, rfl⟩ := List.mem_map.1 member
  rfl

theorem longRandLoop_ensures (conn : Int) (turns : Nat) (random : BitVec 64)
    (memory : Strtok Buffer) :
    Ensures anyOutcome (longRandLoop turns random) memory
      fun trace challenge after => received conn trace = [] ∧
        challenge = (randoms trace).foldl addRandom random ∧
          after = memory := by
  induction turns generalizing random memory with
  | zero => exact (ensures_ret _).2 ⟨rfl, rfl, rfl⟩
  | succ turns inductionHypothesis =>
      refine (ensures_op _ _).2 fun temp after answered => ?_
      cases answered
      refine (inductionHypothesis (addRandom random temp) memory).mono ?_
      rintro trace challenge final ⟨quiet, drawn, same⟩
      simp [receivedBy, randomBy, quiet, drawn, same]

/-- Any outputs of `rand` may happen. -/
theorem longRandLoop_runs (temps : List (BitVec 31)) (random : BitVec 64)
    (memory : Strtok Buffer) :
    Runs anyOutcome (longRandLoop temps.length random) memory
      (randomEvents temps)
      (some (temps.foldl addRandom random)) memory := by
  induction temps generalizing random with
  | nil => exact .ret random memory
  | cons temp temps inductionHypothesis =>
      exact .op rfl (inductionHypothesis (addRandom random temp))

end RemoteCommand
