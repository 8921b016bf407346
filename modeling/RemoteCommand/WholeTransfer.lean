import RemoteCommand.Interaction.Agreement
import RemoteCommand.ScriptedTransfer

/-!
# File transfers over whole messages

Every message arrives whole, and every file operation of either machine may
fail.  The receiver of a file gets the blocks one by one; what comes behind
them is the reply of a server, or nothing when the sender has closed.
-/

namespace RemoteCommand

open Interaction Machine Prog Transition

/-! ## Messages -/

section Messages

variable {α γ : Type} {E : Delivery Byte} {script : Script} {closed : Bool}
  {messages : List (List Byte)} {conn offset : Int} {length : Nat}
  {next : Received length → Prog Sys α} {data : List Byte}
  {peer : Endpoint Sys Script E γ}

/-- A `recv` gets as much as it asks for of the message in front. -/
theorem script_packet (nonempty : data ≠ []) (asks : 0 < length)
    {sent : List (List Byte)} {final : Endpoint Sys Script (whole Byte) α}
    (rest : ∀ some_bytes fits, Advances scriptHost
      ⟨next (.data (data.take length) some_bytes fits), script,
        packet (data.drop length) ++ messages, closed⟩ sent final) :
    Advances scriptHost
      (⟨.op (.recv conn offset length) next, script, packet data ++ messages,
        closed⟩ : Endpoint Sys Script (whole Byte) α) sent final := by
  have some_bytes : data.take length ≠ [] := by
    rw [Ne, List.take_eq_nil_iff]
    exact fun nothing => nothing.elim asks.ne' nonempty
  apply Advances.receive rfl (whole_ready_packet nonempty length messages)
  rw [Received.of_some some_bytes (List.length_take_le _ _)]
  exact rest some_bytes _

/-- A `recv` that asks for enough gets the message in front. -/
theorem script_message (nonempty : data ≠ []) (fits : data.length ≤ length)
    {sent : List (List Byte)} {final : Endpoint Sys Script (whole Byte) α}
    (rest : Advances scriptHost
      ⟨next (.data data nonempty fits), script, messages, closed⟩ sent final) :
    Advances scriptHost
      (⟨.op (.recv conn offset length) next, script, packet data ++ messages,
        closed⟩ : Endpoint Sys Script (whole Byte) α) sent final := by
  have asks : 0 < length := (List.length_pos_iff.2 nonempty).trans_le fits
  apply script_packet nonempty asks
  intro some_bytes short
  simp only [List.take_of_length_le fits, List.drop_of_length_le fits]
  exact rest

/-- When everything is delivered and the peer has closed, a `recv` ends. -/
theorem reaches_closed (ended : peer.closed = true) :
    Reaches scriptHost
      ((⟨.op (.recv conn offset length) next, script, [], closed⟩ :
        Endpoint Sys Script (whole Byte) α), peer)
      (⟨next .closed, script, [], closed⟩, peer) := by
  have acts : scriptHost.action (.recv conn offset length) =
      .receive length (Received.of length) := rfl
  exact whole_receive_end acts ended

end Messages

theorem Blocks.messages {blocks : List (List Byte)} {ret : Int}
    (sent : Blocks blocks ret) : blocks.flatMap packet = blocks := by
  induction sent with
  | failed => rfl
  | last some_bytes =>
      rw [List.flatMap_singleton,
        packet_of_ne_nil (List.ne_nil_of_length_pos some_bytes)]
  | @full block _ _ whole _ inductionHypothesis =>
      have nonempty : block ≠ [] := by
        rw [← List.length_pos_iff, whole]
        decide
      rw [List.flatMap_cons, inductionHypothesis, packet_of_ne_nil nonempty]
      rfl

/-! ## The receiver -/

/-- The writes of the blocks succeed. -/
def Stores (file : File) :
    List (List Byte) → (Nat → (call : Call) → call.Answer) → Prop
  | [], _ => True
  | block :: blocks, answers =>
      answers 0 (.fwrite block file) = block.length ∧
        Stores file blocks fun index => answers (index + 1)

section Receiver

variable {α γ : Type} {E : Delivery Byte} {conn : Int} {file : File}
  {script : Script} {next : Int → Prog Sys α} {messages : List (List Byte)}
  {data : List Byte} {peer : Endpoint Sys Script E γ}

/-- A piece that is written. -/
theorem script_receiveTurn_written (nonempty : data ≠ [])
    (written : script.answers 0 (.fwrite (data.take msgBufferSize) file) =
      (data.take msgBufferSize).length) :
    Advances scriptHost
      (⟨.loop (receiveTurn conn file) msgBufferSize next, script,
        packet data ++ messages, false⟩ : Endpoint Sys Script (whole Byte) α)
      []
      ⟨.loop (receiveTurn conn file) (data.take msgBufferSize).length next,
        script.next, packet (data.drop msgBufferSize) ++ messages, false⟩ := by
  apply Advances.loop
  unfold unroll
  rw [receiveTurn_bind]
  apply script_packet nonempty (by decide)
  intro some_bytes fits
  refine advances_call rfl rfl ?_
  rw [if_neg (not_not.2 written)]
  exact .refl _

/-- A piece that cannot be written. -/
theorem script_receiveTurn_failed (nonempty : data ≠ [])
    (failed : script.answers 0 (.fwrite (data.take msgBufferSize) file) ≠
      (data.take msgBufferSize).length) :
    Advances scriptHost
      (⟨.loop (receiveTurn conn file) msgBufferSize next, script,
        packet data ++ messages, false⟩ : Endpoint Sys Script (whole Byte) α)
      []
      ⟨next intErr, script.next.next,
        packet (data.drop msgBufferSize) ++ messages, false⟩ := by
  apply Advances.loop
  unfold unroll
  rw [receiveTurn_bind]
  apply script_packet nonempty (by decide)
  intro some_bytes fits
  refine advances_call rfl rfl ?_
  rw [if_pos failed]
  refine advances_call rfl rfl ?_
  exact .refl _

/-- How the loop of the receiver goes through the blocks of a sender: it writes
them and ends, it writes them and goes on, or a write fails. -/
theorem script_receiveBlocks {blocks : List (List Byte)} {ret : Int}
    (sent : Blocks blocks ret) :
    ∀ {script : Script},
      (Stores file blocks script.answers ∧ ret = ok ∧ ∃ after,
        Advances scriptHost
          (⟨.loop (receiveTurn conn file) msgBufferSize next, script,
            blocks ++ messages, false⟩ : Endpoint Sys Script (whole Byte) α)
          [] ⟨next ok, after, messages, false⟩) ∨
      (Stores file blocks script.answers ∧ ret ≠ ok ∧ ∃ after,
        Advances scriptHost
          (⟨.loop (receiveTurn conn file) msgBufferSize next, script,
            blocks ++ messages, false⟩ : Endpoint Sys Script (whole Byte) α)
          []
          ⟨.loop (receiveTurn conn file) msgBufferSize next, after, messages,
            false⟩) ∨
      (¬ Stores file blocks script.answers ∧ ∃ after left,
        Advances scriptHost
          (⟨.loop (receiveTurn conn file) msgBufferSize next, script,
            blocks ++ messages, false⟩ : Endpoint Sys Script (whole Byte) α)
          [] ⟨next intErr, after, left, false⟩) := by
  induction sent with
  | failed =>
      intro script
      exact .inr (.inl ⟨trivial, by decide, script, .refl _⟩)
  | @last block some_bytes short =>
      intro script
      have nonempty : block ≠ [] := List.ne_nil_of_length_pos some_bytes
      have taken : block.take msgBufferSize = block :=
        List.take_of_length_le short.le
      have dropped : block.drop msgBufferSize = [] :=
        List.drop_of_length_le short.le
      rw [← packet_of_ne_nil nonempty]
      by_cases written : script.answers 0 (.fwrite block file) = block.length
      · refine .inl ⟨?_, rfl, script.next, ?_⟩
        · rw [packet_of_ne_nil nonempty]
          exact ⟨written, trivial⟩
        · have turn := @script_receiveTurn_written α conn file script next
            messages block nonempty (by rw [taken]; exact written)
          rw [taken, dropped] at turn
          exact turn.trans (advances_receiveTurn_done (by exact_mod_cast short.ne))
      · refine .inr (.inr ⟨?_, script.next.next, messages, ?_⟩)
        · rw [packet_of_ne_nil nonempty]
          exact fun stores => written stores.1
        · have turn := @script_receiveTurn_failed α conn file script next
            messages block nonempty (by rw [taken]; exact written)
          rw [dropped] at turn
          exact turn
  | @full block blocks ret whole sent inductionHypothesis =>
      intro script
      have nonempty : block ≠ [] := by
        rw [← List.length_pos_iff, whole]
        decide
      have taken : block.take msgBufferSize = block :=
        List.take_of_length_le whole.le
      have dropped : block.drop msgBufferSize = [] :=
        List.drop_of_length_le whole.le
      have messagesEq : block :: blocks ++ messages =
          packet block ++ (blocks ++ messages) := by
        rw [packet_of_ne_nil nonempty]
        rfl
      rw [messagesEq]
      by_cases written : script.answers 0 (.fwrite block file) = block.length
      · have turn := @script_receiveTurn_written α conn file script next
          (blocks ++ messages) block nonempty (by rw [taken]; exact written)
        rw [taken, dropped, whole] at turn
        rcases @inductionHypothesis script.next with
          ⟨stores, succeeds, after, rest⟩ | ⟨stores, fails, after, rest⟩ |
            ⟨fails, after, left, rest⟩
        · exact .inl ⟨⟨written, stores⟩, succeeds, after, turn.trans rest⟩
        · exact .inr (.inl ⟨⟨written, stores⟩, fails, after, turn.trans rest⟩)
        · exact .inr (.inr ⟨fun stores => fails stores.2, after, left,
            turn.trans rest⟩)
      · have turn := @script_receiveTurn_failed α conn file script next
          (blocks ++ messages) block nonempty (by rw [taken]; exact written)
        exact .inr (.inr ⟨fun stores => written stores.1, script.next.next, _,
          turn⟩)

/-- When the sender has closed and everything is received, the loop fails. -/
theorem reaches_receiveTurn_closed (ended : peer.closed = true) :
    Reaches scriptHost
      ((⟨.loop (receiveTurn conn file) msgBufferSize next, script, [], false⟩ :
        Endpoint Sys Script (whole Byte) α), peer)
      (⟨next connErr, script.next, [], false⟩, peer) := by
  refine (Advances.loop (.refl _)).leftQuiet peer |>.trans ?_
  unfold unroll
  rw [receiveTurn_bind]
  refine (reaches_closed ended).trans ?_
  exact (advances_call rfl rfl (.refl _)).leftQuiet peer

/-- Behind the blocks, the receiver takes what is left for a part of the file:
it fails, or nothing is left. -/
theorem reaches_receiveRest (ended : peer.closed = true) (length : Nat) :
    ∀ {data : List Byte} {script : Script}, data.length = length →
      ∃ ret after left, (ret ≠ ok ∨ left = []) ∧
        Reaches scriptHost
          ((⟨.loop (receiveTurn conn file) msgBufferSize next, script,
            packet data, false⟩ : Endpoint Sys Script (whole Byte) α), peer)
          (⟨next ret, after, left, false⟩, peer) := by
  induction length using Nat.strong_induction_on with
  | h length inductionHypothesis =>
  intro data script lengths
  by_cases nothing : data = []
  · subst nothing
    exact ⟨connErr, script.next, [], .inr rfl,
      reaches_receiveTurn_closed ended⟩
  rw [← List.append_nil (packet data)]
  by_cases written : script.answers 0
      (.fwrite (data.take msgBufferSize) file) =
        (data.take msgBufferSize).length
  · have turn := @script_receiveTurn_written α conn file script next [] data
      nothing written
    by_cases full : (data.take msgBufferSize).length = msgBufferSize
    · have shorter : (data.drop msgBufferSize).length < length := by
        have some_bytes := List.length_pos_iff.2 nothing
        have positive : 0 < msgBufferSize := by decide
        rw [List.length_drop]
        omega
      obtain ⟨ret, after, left, ends, rest⟩ := @inductionHypothesis _ shorter
        (data.drop msgBufferSize) script.next rfl
      rw [full, List.append_nil (packet (data.drop msgBufferSize))] at turn
      exact ⟨ret, after, left, ends, (turn.leftQuiet peer).trans rest⟩
    · have short : data.length ≤ msgBufferSize := by
        rw [List.length_take] at full
        omega
      rw [List.drop_of_length_le short] at turn
      have done := turn.trans (advances_receiveTurn_done (by exact_mod_cast full))
      exact ⟨ok, script.next, [], .inr rfl, done.leftQuiet peer⟩
  · have turn := @script_receiveTurn_failed α conn file script next [] data
      nothing written
    exact ⟨intErr, script.next.next, _, .inl (by decide), turn.leftQuiet peer⟩

end Receiver

/-! ## The reply -/

section Reply

variable {γ : Type} {E : Delivery Byte} {conn : Int} {code : List Byte}
  {script : Script} {messages : List (List Byte)}
  {peer : Endpoint Sys Script E γ}

/-- A client that waits for the reply to a transfer gets two messages. -/
theorem script_awaitReply {first second : List Byte} (someCode : first ≠ [])
    (fits : first.length ≤ codeSize) (someResult : second ≠ []) :
    ∃ handled left, handled.ret = ok ∧
      Advances scriptHost
        (⟨awaitReply conn code, script,
          packet first ++ (packet second ++ messages), false⟩ :
          Endpoint Sys Script (whole Byte) Outcome)
        [] ⟨.ret handled, script, left, true⟩ := by
  refine ⟨{ ret := ok, result := second.take msgBufferSize
            code := overwrite first code },
    packet (second.drop msgBufferSize) ++ messages, rfl, ?_⟩
  rw [awaitReply_eq]
  apply script_message someCode fits
  apply script_packet someResult (by decide)
  intro some_bytes short
  exact advances_closeConnection _ _ _ _

/-- It is satisfied with whatever follows the code. -/
theorem finishes_awaitReply {exec : γ} (returned : peer.program = .ret exec)
    (ended : peer.closed = true) (data : List Byte) :
    Finishes scriptHost
      ((⟨awaitReply conn code, script, packet data, false⟩ :
        Endpoint Sys Script (whole Byte) Outcome), peer)
      fun handled other => other = exec ∧
        (handled.ret = ok ↔ codeSize < data.length) := by
  have connection : connErr ≠ ok := by decide
  rw [awaitReply_eq]
  by_cases nothing : data = []
  · subst nothing
    refine Finishes.of_reaches (reaches_closed ended) ?_
    refine Finishes.leftQuiet (advances_closeConnection _ _ _ _) ?_
    exact .done rfl returned ⟨rfl, iff_of_false connection (Nat.not_lt_zero _)⟩
  rw [← List.append_nil (packet data)]
  by_cases short : data.length ≤ codeSize
  · refine Finishes.leftQuiet (script_message nothing short (.refl _)) ?_
    refine Finishes.of_reaches (reaches_closed ended) ?_
    refine Finishes.leftQuiet (advances_closeConnection _ _ _ _) ?_
    exact .done rfl returned
      ⟨rfl, iff_of_false connection (Nat.not_lt_of_le short)⟩
  · have long : codeSize < data.length := Nat.lt_of_not_le short
    have left : data.drop codeSize ≠ [] := by
      rw [← List.length_pos_iff, List.length_drop]
      omega
    refine Finishes.leftQuiet (script_packet nothing (by decide)
      fun _ _ => script_packet left (by decide) fun _ _ =>
        advances_closeConnection _ _ _ _) ?_
    exact .done rfl returned ⟨rfl, iff_of_true rfl long⟩

end Reply

end RemoteCommand
