import RemoteCommand.Script
import RemoteCommand.TransferSession

/-!
# The loops of a file transfer on a script

Whatever the reads of the file get, the sender sends full blocks, and then
either fails or sends a last block that is shorter and not empty.  So the
receiver of a file that was sent without failure always gets a piece that is no
full block.
-/

namespace RemoteCommand

open Interaction Machine Prog

/-- The blocks that a sender sends, and what its loop returns. -/
inductive Blocks : List (List Byte) → Int → Prop
  | failed : Blocks [] intErr
  | last {block : List Byte} : 0 < block.length →
      block.length < msgBufferSize → Blocks [block] ok
  | full {block : List Byte} {blocks : List (List Byte)} {ret : Int} :
      block.length = msgBufferSize → Blocks blocks ret →
      Blocks (block :: blocks) ret

namespace Blocks

variable {blocks : List (List Byte)} {ret : Int}

theorem ret_cases (sent : Blocks blocks ret) : ret = ok ∨ ret = intErr := by
  induction sent with
  | failed => exact .inr rfl
  | last => exact .inl rfl
  | full _ _ inductionHypothesis => exact inductionHypothesis

/-- The blocks of a sender that does not fail are not all full. -/
theorem remainder (sent : Blocks blocks ret) (succeeds : ret = ok) :
    blocks.flatten.length % msgBufferSize ≠ 0 := by
  induction sent with
  | failed => exact absurd succeeds (by decide)
  | last some_bytes short =>
      rw [List.flatten_singleton, Nat.mod_eq_of_lt short]
      exact some_bytes.ne'
  | full whole _ inductionHypothesis =>
      rw [List.flatten_cons, List.length_append, whole, Nat.add_mod_left]
      exact inductionHypothesis succeeds

end Blocks

/-- What a sender sends, and what its loop returns, by what the reads of the
file get. -/
def sentBlocks : List (List Byte) → List (List Byte) × Int
  | [] => ([], intErr)
  | block :: reads =>
      let buffer := block.take msgBufferSize
      if buffer = [] then ([], intErr)
      else if buffer.length = msgBufferSize then
        (buffer :: (sentBlocks reads).1, (sentBlocks reads).2)
      else ([buffer], ok)

theorem blocks_sentBlocks (reads : List (List Byte)) :
    Blocks (sentBlocks reads).1 (sentBlocks reads).2 := by
  induction reads with
  | nil => exact .failed
  | cons block reads inductionHypothesis =>
      rw [sentBlocks]
      split_ifs with empty full
      · exact .failed
      · exact .full full inductionHypothesis
      · exact .last (List.length_pos_iff.2 empty)
          (lt_of_le_of_ne (List.length_take_le _ _) full)

section Sender

variable {D : Delivery Byte} {α : Type}

/-- The loop of the sender. -/
theorem script_sendBlocks (conn : Int) (file : File) (reads : List (List Byte))
    {script : Script} (coming : script.reads = reads) :
    ∃ left, ∀ (next : Int → Prog Sys α) (inbox : D.Stream),
      Advances scriptHost
        ⟨.loop (sendTurn conn file) msgBufferSize next, script, inbox, false⟩
        (sentBlocks reads).1
        ⟨next (sentBlocks reads).2, { script with reads := left }, inbox,
          false⟩ := by
  induction reads generalizing script with
  | nil =>
      have read : script.fread msgBufferSize =
          (⟨[], Nat.zero_le _⟩, { script with reads := [] }) := by
        obtain ⟨memory, reads, error, lines, answers⟩ := script
        cases coming
        rfl
      exact ⟨[], fun next inbox =>
        advances_sendTurn_end read rfl rfl (Script.told _)⟩
  | cons block reads inductionHypothesis =>
      let after : Script := { script with reads }
      have read : script.fread msgBufferSize =
          (⟨block.take msgBufferSize, List.length_take_le _ _⟩, after) := by
        rw [Script.fread, coming]
      rw [sentBlocks]
      by_cases empty : block.take msgBufferSize = []
      · have ended : script.fread msgBufferSize =
            (⟨[], Nat.zero_le _⟩, after) := by
          rw [read]
          simp only [empty]
        rw [if_pos empty]
        exact ⟨reads, fun next inbox =>
          advances_sendTurn_end ended rfl rfl (Script.told _)⟩
      have some_bytes := List.length_pos_iff.2 empty
      rw [if_neg empty]
      by_cases full : (block.take msgBufferSize).length = msgBufferSize
      · obtain ⟨left, sends⟩ := @inductionHypothesis after rfl
        refine ⟨left, fun next inbox => ?_⟩
        have first := @advances_sendTurn Script α Script.answer D script inbox
          conn file next _ after read some_bytes.ne'
        simp only [full] at first
        rw [if_pos full]
        exact first.trans (sends next inbox)
      · refine ⟨reads, fun next inbox => ?_⟩
        have first := @advances_sendTurn Script α Script.answer D script inbox
          conn file next _ after read some_bytes.ne'
        rw [if_neg full]
        exact first.trans (advances_sendTurn_done (by exact_mod_cast full))

/-- The sender sends blocks. -/
theorem script_sendLoop (conn : Int) (file : File) (reads : List (List Byte))
    {script : Script} (coming : script.reads = reads) :
    ∃ blocks ret after, Blocks blocks ret ∧
      ∀ (next : Int → Prog Sys α) (inbox : D.Stream),
        Advances scriptHost
          ⟨.loop (sendTurn conn file) msgBufferSize next, script, inbox, false⟩
          blocks
          ⟨next ret, after, inbox, false⟩ := by
  obtain ⟨left, sends⟩ := @script_sendBlocks D α conn file reads script coming
  exact ⟨_, _, { script with reads := left }, blocks_sentBlocks reads, sends⟩

end Sender

end RemoteCommand
