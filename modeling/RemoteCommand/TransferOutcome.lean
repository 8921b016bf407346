import RemoteCommand.RequestOutcome
import RemoteCommand.UploadSession

/-!
# How a transfer ends

The two machines of a transfer may fail at every file operation.  When the
server fails it sends what its array `code` held before, and the client takes
what follows a transfer for success, whatever it is.  The server does not
notice that the client has closed instead of confirming.
-/

namespace RemoteCommand

open Interaction Machine Prog Transition

/-! ## The transfers -/

/-- A machine that sends a whole file. -/
def Script.Sends (script : Script) (name : Option (List Byte)) : Prop :=
  ∃ path file, name = some path ∧
    script.answers 0 (.fopen path (bytes "rb")) = some file ∧
      (sentBlocks script.reads).2 = ok

/-- A machine that can open a file for writing. -/
def Script.Opens (script : Script) (name : Option (List Byte)) : Prop :=
  ∃ path file, name = some path ∧
    script.answers 0 (.fopen path (bytes "wb")) = some file

/-- A machine that can also write the blocks. -/
def Script.Writes (script : Script) (name : Option (List Byte))
    (blocks : List (List Byte)) : Prop :=
  ∃ path file, name = some path ∧
    script.answers 0 (.fopen path (bytes "wb")) = some file ∧
      Stores file blocks script.next.answers

namespace Script

variable {script : Script} {name : Option (List Byte)}
  {blocks : List (List Byte)}

theorem Sends.ne_none (sends : script.Sends name) : name ≠ none := by
  obtain ⟨path, _, rfl, _⟩ := sends
  exact Option.some_ne_none path

theorem Writes.opens (writes : script.Writes name blocks) :
    script.Opens name := by
  obtain ⟨path, file, same, opened, _⟩ := writes
  exact ⟨path, file, same, opened⟩

theorem writes_iff {path : List Byte} {file : File} (same : name = some path)
    (opened : script.answers 0 (.fopen path (bytes "wb")) = some file) :
    script.Writes name blocks ↔ Stores file blocks script.next.answers := by
  constructor
  · rintro ⟨_, _, again, openedIt, stores⟩
    cases same
    cases again
    rw [opened] at openedIt
    cases openedIt
    exact stores
  · exact fun stores => ⟨path, file, same, opened, stores⟩

end Script

section Server

variable {conn : Int} {server : Script} {messages : List (List Byte)}

/-- The server finds the words of the request. -/
theorem script_answerRequest {cmd : List Byte} {tag : Word}
    (named : cmd = tag.chars ∨ ∃ rest, cmd = tag.chars ++ 32 :: rest)
    (code : List Byte) :
    ∃ memory₁ memory₂ memory₃,
      memory₁.strtok none (bytes " ") = (wordOf cmd 1, memory₂) ∧
        memory₂.strtok none (bytes " ") = (wordOf cmd 2, memory₃) ∧
          Advances scriptHost
            (⟨answerRequest conn cmd code, server, messages, false⟩ :
              Errand.Side) []
            ⟨(executeTag conn code tag.chars).bind (sendAnswer conn),
              { server with memory := memory₁ }, messages, false⟩ := by
  obtain ⟨memory₁, memory₂, memory₃, first, second, third⟩ :=
    strtok_wordOf server.memory .msg cmd
  rw [wordOf_named named] at first
  refine ⟨memory₁, memory₂, memory₃, second, third, ?_⟩
  unfold answerRequest executeCommand
  simp only [bind_eq, op_bind]
  refine advances_call rfl rfl ?_
  refine advances_call rfl (Script.answer_strtok first) ?_
  exact .refl _

end Server

/-! ## DOWNLOAD -/

section Download

variable {conn : Int} {server client : Script} {memory₁ memory₂ memory₃ :
  Strtok Buffer} {source dest : Option (List Byte)}
  {messages : List (List Byte)}

/-- The client sends the file and waits for the reply, or it fails. -/
theorem script_handleDownload
    (named : memory₁.strtok none (bytes " ") = (source, memory₂)) :
    client.Sends source ∧ (∃ after,
        Advances scriptHost
          (⟨(handleDownload conn [] (bytes "200")).bind (closeConnection conn),
            { client with memory := memory₁ }, messages, false⟩ : Errand.Side)
          (sentBlocks client.reads).1
          ⟨awaitReply conn (bytes "200"), after, messages, false⟩) ∨
      ¬ client.Sends source ∧ ∃ blocks handled after, Blocks blocks intErr ∧
        handled.ret ≠ ok ∧
          Advances scriptHost
            (⟨(handleDownload conn [] (bytes "200")).bind
              (closeConnection conn), { client with memory := memory₁ },
              messages, false⟩ : Errand.Side) blocks
            ⟨.ret handled, after, messages, true⟩ := by
  rw [handleDownload_eq]
  cases source with
  | none =>
      refine .inr ⟨?_, [], { ret := protoErr, result := [], code := bytes "200" },
        { client with memory := memory₂ }, .failed,
        (by decide : protoErr ≠ ok), ?_⟩
      · rintro ⟨path, _, none, _⟩
        cases none
      · refine advances_call rfl (Script.answer_strtok named) ?_
        exact advances_closeConnection _ _ _ _
  | some path =>
  let machine : Script := { client with memory := memory₂ }
  cases opened : client.answers 0 (.fopen path (bytes "rb")) with
  | none =>
      refine .inr ⟨?_, [], { ret := intErr, result := [], code := bytes "200" },
        machine.next, .failed, (by decide : intErr ≠ ok), ?_⟩
      · rintro ⟨_, file, same, openedIt, _⟩
        cases same
        rw [opened] at openedIt
        cases openedIt
      · refine advances_call rfl (Script.answer_strtok named) ?_
        refine advances_call rfl rfl ?_
        dsimp only
        rw [opened]
        exact advances_closeConnection _ _ _ _
  | some file =>
      obtain ⟨left, sends⟩ := @script_sendBlocks (whole Byte) Outcome conn
        file client.reads machine.next rfl
      have sent := blocks_sentBlocks client.reads
      have sending := sends (endSending conn) messages
      by_cases succeeds : (sentBlocks client.reads).2 = ok
      · rw [endSending, if_neg (not_not.2 succeeds)] at sending
        refine .inl ⟨⟨path, file, rfl, opened, succeeds⟩,
          { machine.next with reads := left }, ?_⟩
        refine advances_call rfl (Script.answer_strtok named) ?_
        refine advances_call rfl rfl ?_
        dsimp only
        rw [opened]
        exact sending
      · have failed := sent.ret_cases.resolve_left succeeds
        rw [endSending, if_pos succeeds, failed] at sending
        rw [failed] at sent
        refine .inr ⟨?_, (sentBlocks client.reads).1,
          { ret := intErr, result := [], code := bytes "200" },
          { machine.next with reads := left }, sent,
          (by decide : intErr ≠ ok), ?_⟩
        · rintro ⟨_, _, _, _, sends⟩
          exact succeeds sends
        · refine advances_call rfl (Script.answer_strtok named) ?_
          refine advances_call rfl rfl ?_
          dsimp only
          rw [opened, ← List.append_nil (sentBlocks client.reads).1]
          exact sending.trans (advances_closeConnection _ _ _ _)

/-- The client gets one message from a server that has not sent `200`. -/
theorem finishes_download_alone {finished : Errand.Side} {exec : Outcome}
    {cmd : List Byte}
    (named : cmd = downloadTag.chars ∨ ∃ rest, cmd = downloadTag.chars ++
      32 :: rest)
    (returned : finished.program = .ret exec) (ended : finished.closed = true)
    (data : List Byte) :
    Finishes scriptHost (clientWaits conn cmd client (packet data), finished)
      fun handled other => other = exec ∧ (handled.ret = ok ↔
        client.Sends (wordOf cmd 1) ∧ data.take codeSize = bytes "200" ∧
          2 * codeSize < data.length) := by
  by_cases nothing : data = []
  · subst nothing
    refine (finishes_nothing returned ended cmd client).mono ?_
    rintro handled other ⟨same, failed⟩
    refine ⟨same, iff_of_false ?_ fun all => absurd all.2.2 (by decide)⟩
    rw [failed]
    decide
  obtain ⟨memory₁, memory₂, _, second, _, handles⟩ :=
    @script_handleCode conn cmd downloadTag named client
  rw [← List.append_nil (packet data)]
  refine Finishes.leftQuiet (handles nothing []) ?_
  rw [handleTag_download]
  by_cases ready : data.take codeSize = bytes "200"
  rotate_left
  · have different : strcmp (data.take codeSize) (bytes "200") ≠ 0 :=
      fun equal => ready (eq_of_strcmp_of_length_le equal (by decide)
        (List.length_take_le _ _))
    rw [handleDownload, if_neg different]
    refine Finishes.leftQuiet (advances_closeConnection _ _ _ _) ?_
    exact .done rfl returned ⟨rfl,
      iff_of_false (by decide : protoErr ≠ ok) fun all => ready all.2.1⟩
  rw [ready]
  rcases @script_handleDownload conn client memory₁ memory₂ (wordOf cmd 1)
      (packet (data.drop codeSize) ++ []) second with
    ⟨sends, after, advances⟩ |
      ⟨fails, blocks, handled, after, _, failed, advances⟩
  · obtain ⟨program, closed⟩ :=
      finished.deliverAll_same (sentBlocks client.reads).1
    apply Finishes.left advances
    rw [List.append_nil]
    refine (finishes_awaitReply (program.trans returned) (closed.trans ended)
      (data.drop codeSize)).mono ?_
    rintro handled other ⟨same, succeeds⟩
    refine ⟨same, succeeds.trans ?_⟩
    rw [List.length_drop, and_iff_right sends, and_iff_right rfl]
    omega
  · obtain ⟨program, _⟩ := finished.deliverAll_same blocks
    apply Finishes.left advances
    exact .done rfl (program.trans returned)
      ⟨rfl, iff_of_false failed fun all => fails all.1⟩

/-- The server is ready to receive the file, or it gives up. -/
theorem script_executeDownload {code : List Byte}
    (first : memory₁.strtok none (bytes " ") = (source, memory₂))
    (second : memory₂.strtok none (bytes " ") = (dest, memory₃)) :
    (∃ path file machine, source ≠ none ∧ dest = some path ∧
        server.answers 0 (.fopen path (bytes "wb")) = some file ∧
          machine.answers = server.next.answers ∧
            Advances scriptHost
              (⟨(executeDownload conn [] code).bind (sendAnswer conn),
                { server with memory := memory₁ }, messages, false⟩ :
                Errand.Side) [bytes "200"]
              ⟨.loop (receiveTurn conn file) msgBufferSize
                (endDownload conn file code), machine, messages, false⟩) ∨
      (source = none ∨ ¬ server.Opens dest) ∧ ∃ ret machine, ret ≠ ok ∧
        Advances scriptHost
          (⟨(executeDownload conn [] code).bind (sendAnswer conn),
            { server with memory := memory₁ }, messages, false⟩ : Errand.Side)
          [] ⟨sendAnswer conn { ret, result := [], code }, machine, messages,
            false⟩ := by
  rw [executeDownload_eq]
  cases source with
  | none =>
      refine .inr ⟨.inl rfl, protoErr, { server with memory := memory₂ },
        by decide, ?_⟩
      refine advances_call rfl (Script.answer_strtok first) ?_
      exact .refl _
  | some source =>
  cases dest with
  | none =>
      refine .inr ⟨.inr ?_, protoErr, { server with memory := memory₃ },
        by decide, ?_⟩
      · rintro ⟨_, _, none, _⟩
        cases none
      · refine advances_call rfl (Script.answer_strtok first) ?_
        refine advances_call rfl (Script.answer_strtok second) ?_
        exact .refl _
  | some path =>
  let machine : Script := { server with memory := memory₃ }
  cases opened : server.answers 0 (.fopen path (bytes "wb")) with
  | none =>
      refine .inr ⟨.inr ?_, intErr, machine.next, by decide, ?_⟩
      · rintro ⟨_, file, same, openedIt⟩
        cases same
        rw [opened] at openedIt
        cases openedIt
      · refine advances_call rfl (Script.answer_strtok first) ?_
        refine advances_call rfl (Script.answer_strtok second) ?_
        refine advances_call rfl rfl ?_
        dsimp only
        rw [opened]
        exact .refl _
  | some file =>
      refine .inl ⟨path, file, machine.next, Option.some_ne_none _, rfl, opened,
        rfl, ?_⟩
      refine advances_call rfl (Script.answer_strtok first) ?_
      refine advances_call rfl (Script.answer_strtok second) ?_
      refine advances_call rfl rfl ?_
      dsimp only
      rw [opened]
      apply advances_send
      exact .refl _

/-- The server receives the file of a client that waits for the reply. -/
theorem finishes_receives {clientConn : Int} {code : List Byte} {file : File}
    {blocks : List (List Byte)} (sent : Blocks blocks ok) :
    Finishes scriptHost
      ((⟨.loop (receiveTurn conn file) msgBufferSize
          (endDownload conn file code), server, blocks ++ [], false⟩ :
          Errand.Side),
        (⟨awaitReply clientConn (bytes "200"), client, [], false⟩ :
          Errand.Side))
      fun exec handled =>
        (exec.ret = ok ↔ Stores file blocks server.answers) ∧
          (handled.ret = ok ↔ Stores file blocks server.answers ∨
            codeSize < (cstr code).length) := by
  rcases @script_receiveBlocks Outcome conn file
      (endDownload conn file code) [] blocks ok sent server with
    ⟨stores, _, after, advances⟩ | ⟨_, fails, _⟩ | ⟨fails, after, left, advances⟩
  · refine Finishes.leftQuiet (advances.trans (advances_call rfl rfl
      (.refl _))) ?_
    refine finishes_sendAnswer _ ?_
    obtain ⟨handled, left, succeeds, receives⟩ :=
      @script_awaitReply clientConn (bytes "200") client []
        (cstr (bytes "200"))
        (cstr (bytes "File downloaded." ++ terminationString))
        (by decide) (by decide) (by decide)
    rw [List.append_nil] at receives
    refine Finishes.rightQuiet receives ?_
    exact .done rfl rfl
      ⟨iff_of_true rfl stores, iff_of_true succeeds (.inl stores)⟩
  · exact absurd rfl fails
  · refine Finishes.leftQuiet advances ?_
    refine finishes_sendAnswer _ ?_
    rw [cstr_nil, packet, List.append_nil, List.nil_append]
    refine (finishes_awaitReply rfl rfl (cstr code)).swap.mono ?_
    rintro exec handled ⟨rfl, succeeds⟩
    exact ⟨iff_of_false (by decide : intErr ≠ ok) fails,
      succeeds.trans (or_iff_right fails).symm⟩

/-- The server receives the blocks of a client that has given up. -/
theorem finishes_abandoned {code : List Byte} {file : File}
    {blocks : List (List Byte)} (sent : Blocks blocks intErr)
    {handled : Outcome} {inbox : List (List Byte)} :
    Finishes scriptHost
      ((⟨.loop (receiveTurn conn file) msgBufferSize
          (endDownload conn file code), server, blocks ++ [], false⟩ :
          Errand.Side),
        (⟨.ret handled, client, inbox, true⟩ : Errand.Side))
      fun exec other => exec.ret ≠ ok ∧ other = handled := by
  rcases @script_receiveBlocks Outcome conn file
      (endDownload conn file code) [] blocks intErr sent server with
    ⟨_, succeeds, _⟩ | ⟨_, _, after, advances⟩ | ⟨_, after, left, advances⟩
  · exact absurd succeeds (by decide)
  · refine Finishes.leftQuiet advances ?_
    refine Finishes.of_reaches (reaches_receiveTurn_closed rfl) ?_
    exact finishes_sendAnswer_done _ ⟨(by decide : connErr ≠ ok), rfl⟩
  · refine Finishes.leftQuiet advances ?_
    exact finishes_sendAnswer_done _ ⟨(by decide : intErr ≠ ok), rfl⟩

end Download

namespace Errand

variable (errand : Errand)

/-- The blocks of the file that the client sends. -/
def downloaded : List (List Byte) :=
  (sentBlocks errand.client.reads).1

/-- How a download ends. -/
theorem finishes_download
    (named : errand.cmd = downloadTag.chars ∨
      ∃ rest, errand.cmd = downloadTag.chars ++ 32 :: rest) :
    let source := wordOf errand.cmd 1
    let dest := wordOf errand.cmd 2
    Finishes scriptHost errand.start fun exec handled =>
      (exec.ret = ok ↔ errand.client.Sends source ∧
        errand.server.Writes dest errand.downloaded) ∧
      (handled.ret = ok ↔ errand.client.Sends source ∧
        (errand.server.Opens dest ∧
            (errand.server.Writes dest errand.downloaded ∨
              codeSize < errand.garbage.length) ∨
          ¬ errand.server.Opens dest ∧
            errand.garbage.take codeSize = bytes "200" ∧
              2 * codeSize < errand.garbage.length)) := by
  intro source dest
  obtain ⟨memory₁, memory₂, memory₃, first, second, answers⟩ :=
    @script_answerRequest errand.serverConn errand.server [] errand.cmd
      downloadTag named errand.code
  refine Finishes.rightQuiet (script_awaitResponse _ _) ?_
  refine Finishes.leftQuiet answers ?_
  rw [executeTag_download]
  rcases @script_executeDownload errand.serverConn errand.server memory₁
      memory₂ memory₃ source dest [] errand.code first second with
    ⟨path, file, machine, _, isDest, opened, machineAnswers, advances⟩ |
      ⟨notReady, ret, machine, failed, advances⟩
  rotate_left
  · refine Finishes.leftQuiet advances ?_
    refine finishes_sendAnswer _ ?_
    rw [cstr_nil, packet, List.append_nil, List.nil_append]
    refine (finishes_download_alone named rfl rfl errand.garbage).swap.mono ?_
    rintro exec handled ⟨rfl, succeeds⟩
    have closed (sends : errand.client.Sends source) :
        ¬ errand.server.Opens dest :=
      notReady.resolve_left sends.ne_none
    constructor
    · exact iff_of_false failed fun both => closed both.1 both.2.opens
    · refine succeeds.trans (and_congr_right fun sends => ?_)
      rw [and_iff_right (closed sends)]
      exact (or_iff_right fun both => closed sends both.1).symm
  have opens : errand.server.Opens dest := ⟨path, file, isDest, opened⟩
  have writes : errand.server.Writes dest errand.downloaded ↔
      Stores file errand.downloaded machine.answers := by
    rw [machineAnswers]
    exact Script.writes_iff isDest opened
  have sent := blocks_sentBlocks errand.client.reads
  apply Finishes.left advances
  rw [clientWaits_deliverAll, List.flatMap_singleton, List.nil_append,
    ← List.append_nil (packet _)]
  obtain ⟨memory₁, memory₂, _, second, _, handles⟩ :=
    @script_handleCode errand.clientConn errand.cmd downloadTag named
      errand.client
  refine Finishes.rightQuiet (handles (by decide) []) ?_
  rw [handleTag_download]
  rcases @script_handleDownload errand.clientConn errand.client memory₁ memory₂
      source (packet ((bytes "200").drop codeSize) ++ []) second with
    ⟨sends, after, advances⟩ |
      ⟨fails, blocks, handled, after, sent, failed, advances⟩
  · apply Finishes.right advances
    rw [deliverAll_whole, sent.messages, List.nil_append,
      ← List.append_nil (sentBlocks _).1]
    have sendsAll := sends
    obtain ⟨_, _, _, _, whole⟩ := sends
    rw [whole] at sent
    refine (finishes_receives sent).mono ?_
    rintro exec handled ⟨serverIff, clientIff⟩
    refine ⟨serverIff.trans ?_, clientIff.trans ?_⟩
    · rw [and_iff_right sendsAll, writes]
      exact Iff.rfl
    · rw [and_iff_right sendsAll, and_iff_right opens, writes]
      exact (or_iff_left fun none => none.1 opens).symm
  · apply Finishes.right advances
    rw [deliverAll_whole, sent.messages, List.nil_append,
      ← List.append_nil blocks]
    refine (finishes_abandoned sent).mono ?_
    rintro exec _ ⟨serverFails, rfl⟩
    exact ⟨iff_of_false serverFails fun both => fails both.1,
      iff_of_false failed fun both => fails both.1⟩

end Errand

/-! ## UPLOAD -/

section Upload

variable {conn : Int} {server client : Script} {memory₁ memory₂ memory₃ :
  Strtok Buffer} {source dest : Option (List Byte)}
  {messages : List (List Byte)}

/-- The server waits for the confirmation, or it has given up, before the file
or behind it. -/
theorem script_executeUpload {code : List Byte}
    (first : memory₁.strtok none (bytes " ") = (source, memory₂))
    (second : memory₂.strtok none (bytes " ") = (dest, memory₃)) :
    server.Sends source ∧ dest ≠ none ∧ (∃ machine,
        Advances scriptHost
          (⟨(executeUpload conn [] code).bind (sendAnswer conn),
            { server with memory := memory₁ }, messages, false⟩ : Errand.Side)
          (bytes "200" :: (sentBlocks server.reads).1)
          ⟨confirmUpload conn code (server.answers 2 .indeterminate), machine,
            messages, false⟩) ∨
      ¬ (server.Sends source ∧ dest ≠ none) ∧ ∃ ret machine, ret ≠ ok ∧
        (Advances scriptHost
            (⟨(executeUpload conn [] code).bind (sendAnswer conn),
              { server with memory := memory₁ }, messages, false⟩ :
              Errand.Side) []
            ⟨sendAnswer conn { ret, result := [], code }, machine, messages,
              false⟩ ∨
          ∃ blocks, Blocks blocks intErr ∧
            Advances scriptHost
              (⟨(executeUpload conn [] code).bind (sendAnswer conn),
                { server with memory := memory₁ }, messages, false⟩ :
                Errand.Side) (bytes "200" :: blocks)
              ⟨sendAnswer conn { ret, result := [], code }, machine, messages,
                false⟩) := by
  rw [executeUpload_eq]
  cases source with
  | none =>
      refine .inr ⟨fun both => both.1.ne_none rfl, protoErr,
        { server with memory := memory₂ }, by decide, .inl ?_⟩
      refine advances_call rfl (Script.answer_strtok first) ?_
      exact .refl _
  | some path =>
  cases dest with
  | none =>
      refine .inr ⟨fun both => both.2 rfl, protoErr,
        { server with memory := memory₃ }, by decide, .inl ?_⟩
      refine advances_call rfl (Script.answer_strtok first) ?_
      refine advances_call rfl (Script.answer_strtok second) ?_
      exact .refl _
  | some dest =>
  let machine : Script := { server with memory := memory₃ }
  cases opened : server.answers 0 (.fopen path (bytes "rb")) with
  | none =>
      refine .inr ⟨?_, intErr, machine.next, by decide, .inl ?_⟩
      · rintro ⟨⟨_, file, same, openedIt, _⟩, _⟩
        cases same
        rw [opened] at openedIt
        cases openedIt
      · refine advances_call rfl (Script.answer_strtok first) ?_
        refine advances_call rfl (Script.answer_strtok second) ?_
        refine advances_call rfl rfl ?_
        dsimp only
        rw [opened]
        exact .refl _
  | some file =>
      obtain ⟨left, sends⟩ := @script_sendBlocks (whole Byte) Outcome conn
        file server.reads machine.next rfl
      have sent := blocks_sentBlocks server.reads
      have sending := sends (endUpload conn file code) messages
      let after : Script := { machine.next with reads := left }
      by_cases succeeds : (sentBlocks server.reads).2 = ok
      · rw [endUpload, if_neg (not_not.2 succeeds)] at sending
        refine .inl ⟨⟨path, file, rfl, opened, succeeds⟩,
          Option.some_ne_none _, after.next.next, ?_⟩
        refine advances_call rfl (Script.answer_strtok first) ?_
        refine advances_call rfl (Script.answer_strtok second) ?_
        refine advances_call rfl rfl ?_
        dsimp only
        rw [opened]
        apply advances_send
        rw [← List.append_nil (sentBlocks server.reads).1]
        apply sending.trans
        refine advances_call rfl rfl ?_
        refine advances_call rfl rfl ?_
        exact .refl _
      · have failed := sent.ret_cases.resolve_left succeeds
        rw [endUpload, if_pos succeeds, failed] at sending
        rw [failed] at sent
        refine .inr ⟨?_, intErr, after, by decide, .inr ⟨_, sent, ?_⟩⟩
        · rintro ⟨⟨_, _, _, _, sends⟩, _⟩
          exact succeeds sends
        · refine advances_call rfl (Script.answer_strtok first) ?_
          refine advances_call rfl (Script.answer_strtok second) ?_
          refine advances_call rfl rfl ?_
          dsimp only
          rw [opened]
          apply advances_send
          exact sending

/-- The client is ready to store the file, or it gives up. -/
theorem script_handleUpload
    (first : memory₁.strtok none (bytes " ") = (source, memory₂))
    (second : memory₂.strtok none (bytes " ") = (dest, memory₃)) :
    (∃ path file machine, dest = some path ∧
        client.answers 0 (.fopen path (bytes "wb")) = some file ∧
          machine.answers = client.next.answers ∧
            Advances scriptHost
              (⟨(handleUpload conn [] (bytes "200")).bind
                (closeConnection conn), { client with memory := memory₁ },
                messages, false⟩ : Errand.Side) []
              ⟨.loop (receiveTurn conn file) msgBufferSize
                (endReceiving conn file), machine, messages, false⟩) ∨
      (source = none ∨ ¬ client.Opens dest) ∧ ∃ handled machine,
        handled.ret ≠ ok ∧
          Advances scriptHost
            (⟨(handleUpload conn [] (bytes "200")).bind (closeConnection conn),
              { client with memory := memory₁ }, messages, false⟩ :
              Errand.Side)
            [] ⟨.ret handled, machine, messages, true⟩ := by
  rw [handleUpload_eq]
  let refused : Outcome := { ret := protoErr, result := [], code := bytes "200" }
  cases source with
  | none =>
      refine .inr ⟨.inl rfl, refused, { client with memory := memory₂ },
        (by decide : protoErr ≠ ok), ?_⟩
      refine advances_call rfl (Script.answer_strtok first) ?_
      exact advances_closeConnection _ _ _ _
  | some source =>
  cases dest with
  | none =>
      refine .inr ⟨.inr ?_, refused, { client with memory := memory₃ },
        (by decide : protoErr ≠ ok), ?_⟩
      · rintro ⟨_, _, none, _⟩
        cases none
      · refine advances_call rfl (Script.answer_strtok first) ?_
        refine advances_call rfl (Script.answer_strtok second) ?_
        exact advances_closeConnection _ _ _ _
  | some path =>
  let machine : Script := { client with memory := memory₃ }
  cases opened : client.answers 0 (.fopen path (bytes "wb")) with
  | none =>
      refine .inr ⟨.inr ?_,
        { ret := intErr, result := [], code := bytes "200" }, machine.next,
        (by decide : intErr ≠ ok), ?_⟩
      · rintro ⟨_, file, same, openedIt⟩
        cases same
        rw [opened] at openedIt
        cases openedIt
      · refine advances_call rfl (Script.answer_strtok first) ?_
        refine advances_call rfl (Script.answer_strtok second) ?_
        refine advances_call rfl rfl ?_
        dsimp only
        rw [opened]
        exact advances_closeConnection _ _ _ _
  | some file =>
      refine .inl ⟨path, file, machine.next, rfl, opened, rfl, ?_⟩
      refine advances_call rfl (Script.answer_strtok first) ?_
      refine advances_call rfl (Script.answer_strtok second) ?_
      refine advances_call rfl rfl ?_
      dsimp only
      rw [opened]
      exact .refl _

section Abandoned

variable {finished : Errand.Side} {exec : Outcome} {blocks : List (List Byte)}

/-- The server has closed behind some full blocks: what it sent at last is a
part of the file for the client, and no reply follows. -/
theorem finishes_endReceiving (returned : finished.program = .ret exec)
    (ended : finished.closed = true) {file : File} (data : List Byte) :
    Finishes scriptHost
      ((⟨.loop (receiveTurn conn file) msgBufferSize (endReceiving conn file),
        client, packet data, false⟩ : Errand.Side), finished)
      fun handled other => other = exec ∧ handled.ret ≠ ok := by
  obtain ⟨ret, after, left, ends, reached⟩ :=
    @reaches_receiveRest Outcome Outcome (whole Byte) conn file
      (endReceiving conn file) finished ended data.length data client rfl
  apply Finishes.of_reaches reached
  by_cases succeeds : ret = ok
  rotate_left
  · rw [endReceiving, if_pos succeeds]
    refine Finishes.leftQuiet (advances_closeConnection _ _ _ _) ?_
    exact .done rfl returned ⟨rfl, succeeds⟩
  have nothing : left = packet [] := ends.resolve_left (not_not.2 succeeds)
  rw [endReceiving, if_neg (not_not.2 succeeds), nothing]
  obtain ⟨program, closed⟩ := finished.deliverAll_same [bytes "200"]
  refine Finishes.left (advances_call rfl rfl (advances_send (.refl _))) ?_
  refine (finishes_awaitReply (program.trans returned) (closed.trans ended)
    []).mono ?_
  rintro handled other ⟨same, succeeds⟩
  exact ⟨same, fun accepted => absurd (succeeds.1 accepted) (by decide)⟩

theorem finishes_handleUpload (sent : Blocks blocks intErr)
    (returned : finished.program = .ret exec) (ended : finished.closed = true)
    (first : memory₁.strtok none (bytes " ") = (source, memory₂))
    (second : memory₂.strtok none (bytes " ") = (dest, memory₃))
    (data : List Byte) :
    Finishes scriptHost
      ((⟨(handleUpload conn [] (bytes "200")).bind (closeConnection conn),
        { client with memory := memory₁ }, blocks ++ packet data, false⟩ :
        Errand.Side), finished)
      fun handled other => other = exec ∧ handled.ret ≠ ok := by
  rcases @script_handleUpload conn client memory₁ memory₂ memory₃ source dest
      (blocks ++ packet data) first second with
    ⟨path, file, machine, _, _, _, opens⟩ | ⟨_, handled, machine, failed, gives⟩
  rotate_left
  · refine Finishes.leftQuiet gives ?_
    exact .done rfl returned ⟨rfl, failed⟩
  refine Finishes.leftQuiet opens ?_
  rcases @script_receiveBlocks Outcome conn file (endReceiving conn file)
      (packet data) blocks intErr sent machine with
    ⟨_, succeeds, _⟩ | ⟨_, _, after, goesOn⟩ | ⟨_, after, left, fails⟩
  · exact absurd succeeds (by decide)
  · refine Finishes.leftQuiet goesOn ?_
    exact finishes_endReceiving returned ended data
  · refine Finishes.leftQuiet
      (fails.trans (advances_closeConnection _ _ _ _)) ?_
    exact .done rfl returned ⟨rfl, (by decide : intErr ≠ ok)⟩

variable {cmd : List Byte}
  (named : cmd = uploadTag.chars ∨ ∃ rest, cmd = uploadTag.chars ++ 32 :: rest)

include named

/-- The server has sent the code and some full blocks before it failed. -/
theorem finishes_upload_blocks (sent : Blocks blocks intErr)
    (returned : finished.program = .ret exec) (ended : finished.closed = true)
    (data : List Byte) :
    Finishes scriptHost
      (clientWaits conn cmd client
        (packet (bytes "200") ++ (blocks ++ packet data)), finished)
      fun handled other => other = exec ∧ handled.ret ≠ ok := by
  obtain ⟨_, _, _, first, second, handles⟩ :=
    @script_handleCode conn cmd uploadTag named client
  refine Finishes.leftQuiet (handles (by decide) _) ?_
  rw [handleTag_upload]
  exact finishes_handleUpload sent returned ended first second data

/-- The server has failed before the code. -/
theorem finishes_upload_alone (returned : finished.program = .ret exec)
    (ended : finished.closed = true) (data : List Byte) :
    Finishes scriptHost (clientWaits conn cmd client (packet data), finished)
      fun handled other => other = exec ∧ handled.ret ≠ ok := by
  by_cases nothing : data = []
  · subst nothing
    refine (finishes_nothing returned ended cmd client).mono ?_
    rintro handled other ⟨same, failed⟩
    exact ⟨same, failed ▸ by decide⟩
  obtain ⟨_, _, _, first, second, handles⟩ :=
    @script_handleCode conn cmd uploadTag named client
  rw [← List.append_nil (packet data)]
  refine Finishes.leftQuiet (handles nothing []) ?_
  rw [handleTag_upload, List.append_nil]
  by_cases ready : data.take codeSize = bytes "200"
  · rw [ready]
    exact finishes_handleUpload .failed returned ended first second
      (data.drop codeSize)
  · have different : strcmp (data.take codeSize) (bytes "200") ≠ 0 :=
      fun equal => ready (eq_of_strcmp_of_length_le equal (by decide)
        (List.length_take_le _ _))
    rw [handleUpload, if_neg different]
    refine Finishes.leftQuiet (advances_closeConnection _ _ _ _) ?_
    exact .done rfl returned ⟨rfl, (by decide : protoErr ≠ ok)⟩

end Abandoned

/-- What the server makes of the array `received`. -/
def checkedReply (code received : List Byte) : Outcome :=
  if strcmp received (bytes "200") = 0 then
    { ret := ok, result := bytes "File uploaded." ++ terminationString
      code := bytes "200" }
  else
    { ret := protoErr, result := [], code }

theorem checkReceived_eq (code received : List Byte) :
    executeUpload.checkReceived [] code received =
      .ret (checkedReply code received) := by
  unfold executeUpload.checkReceived checkedReply
  by_cases confirmed : strcmp received (bytes "200") = 0
  · rw [if_pos confirmed, if_pos confirmed]
    rfl
  · rw [if_neg confirmed, if_neg confirmed]
    rfl

theorem checkedReply_ret (code received : List Byte) :
    (checkedReply code received).ret = ok ↔
      strcmp received (bytes "200") = 0 := by
  unfold checkedReply
  by_cases confirmed : strcmp received (bytes "200") = 0
  · rw [if_pos confirmed]
    exact iff_of_true rfl confirmed
  · rw [if_neg confirmed]
    exact iff_of_false (by decide : protoErr ≠ ok) confirmed

/-- The client has closed instead of confirming. -/
theorem finishes_unconfirmed (code stale : List Byte) {handled : Outcome}
    {inbox : List (List Byte)} :
    Finishes scriptHost
      ((⟨confirmUpload conn code stale, server, [], false⟩ : Errand.Side),
        (⟨.ret handled, client, inbox, true⟩ : Errand.Side))
      fun exec other => (exec.ret = ok ↔ strcmp stale (bytes "200") = 0) ∧
        other = handled := by
  refine Finishes.of_reaches (reaches_closed rfl) ?_
  rw [judgeUpload, checkReceived_eq, ret_bind]
  exact finishes_sendAnswer_done _ ⟨checkedReply_ret code stale, rfl⟩

/-- The client has confirmed and waits for the reply. -/
theorem finishes_confirmed {clientConn : Int} (code stale : List Byte) :
    Finishes scriptHost
      ((⟨confirmUpload conn code stale, server, packet (bytes "200") ++ [],
          false⟩ : Errand.Side),
        (⟨awaitReply clientConn (bytes "200"), client, [], false⟩ :
          Errand.Side))
      fun exec handled => (exec.ret = ok ↔ Confirms stale) ∧
        (handled.ret = ok ↔ Confirms stale ∨
          codeSize < (cstr code).length) := by
  refine Finishes.leftQuiet (script_message (by decide) (by decide)
    (.refl _)) ?_
  rw [judgeUpload, checkReceived_eq, ret_bind]
  by_cases confirms : Confirms stale
  · have succeeds : checkedReply code (overwrite (bytes "200") stale) =
        { ret := ok, result := bytes "File uploaded." ++ terminationString
          code := bytes "200" } := if_pos confirms
    rw [succeeds]
    refine finishes_sendAnswer _ ?_
    obtain ⟨handled, left, succeeds, receives⟩ :=
      @script_awaitReply clientConn (bytes "200") client []
        (cstr (bytes "200"))
        (cstr (bytes "File uploaded." ++ terminationString))
        (by decide) (by decide) (by decide)
    rw [List.append_nil] at receives
    refine Finishes.rightQuiet receives ?_
    exact .done rfl rfl
      ⟨iff_of_true rfl confirms, iff_of_true succeeds (.inl confirms)⟩
  · have fails : checkedReply code (overwrite (bytes "200") stale) =
        { ret := protoErr, result := [], code } := if_neg confirms
    rw [fails]
    refine finishes_sendAnswer _ ?_
    rw [cstr_nil, packet, List.append_nil, List.nil_append]
    refine (finishes_awaitReply rfl rfl (cstr code)).swap.mono ?_
    rintro exec handled ⟨rfl, succeeds⟩
    exact ⟨iff_of_false (by decide : protoErr ≠ ok) confirms,
      succeeds.trans (or_iff_right confirms).symm⟩

/-- The server has sent the whole file, and the client is at the code. -/
theorem finishes_sent {clientConn : Int} {blocks : List (List Byte)}
    (sent : Blocks blocks ok) (named : source ≠ none)
    (first : memory₁.strtok none (bytes " ") = (source, memory₂))
    (second : memory₂.strtok none (bytes " ") = (dest, memory₃))
    (code stale : List Byte) :
    Finishes scriptHost
      ((⟨confirmUpload conn code stale, server, [], false⟩ : Errand.Side),
        (⟨(handleUpload clientConn [] (bytes "200")).bind
            (closeConnection clientConn),
          { client with memory := memory₁ }, blocks ++ [], false⟩ :
          Errand.Side))
      fun exec handled =>
        (exec.ret = ok ↔ client.Writes dest blocks ∧ Confirms stale ∨
          ¬ client.Writes dest blocks ∧ strcmp stale (bytes "200") = 0) ∧
        (handled.ret = ok ↔ client.Writes dest blocks ∧
          (Confirms stale ∨ codeSize < (cstr code).length)) := by
  rcases @script_handleUpload clientConn client memory₁ memory₂ memory₃ source
      dest (blocks ++ []) first second with
    ⟨path, file, machine, isDest, opened, answers, opens⟩ |
      ⟨notReady, handled, machine, failed, gives⟩
  rotate_left
  · have closed : ¬ client.Writes dest blocks := fun writes =>
      notReady.resolve_left named writes.opens
    refine Finishes.rightQuiet gives ?_
    refine (finishes_unconfirmed code stale).mono ?_
    rintro exec _ ⟨same, rfl⟩
    refine ⟨same.trans ?_, iff_of_false failed fun both => closed both.1⟩
    rw [and_iff_right closed]
    exact (or_iff_right fun both => closed both.1).symm
  have writes : client.Writes dest blocks ↔
      Stores file blocks machine.answers := by
    rw [answers]
    exact Script.writes_iff isDest opened
  rw [writes]
  refine Finishes.rightQuiet opens ?_
  rcases @script_receiveBlocks Outcome clientConn file
      (endReceiving clientConn file) [] blocks ok sent machine with
    ⟨stores, _, after, ends⟩ | ⟨_, failed, _⟩ | ⟨fails, after, left, gives⟩
  · refine Finishes.right (ends.trans (advances_call rfl rfl
      (advances_send (.refl _)))) ?_
    rw [deliverAll_whole, List.nil_append, List.nil_append,
      List.flatMap_singleton, ← List.append_nil (packet _)]
    refine (finishes_confirmed code stale).mono ?_
    rintro exec handled ⟨server, client⟩
    refine ⟨server.trans ?_, client.trans (and_iff_right stores).symm⟩
    rw [and_iff_right stores]
    exact (or_iff_left fun both => both.1 stores).symm
  · exact absurd rfl failed
  · refine Finishes.rightQuiet (gives.trans (advances_closeConnection _ _ _ _)) ?_
    refine (finishes_unconfirmed code stale).mono ?_
    rintro exec _ ⟨same, rfl⟩
    refine ⟨same.trans ?_, iff_of_false (by decide : intErr ≠ ok)
      fun both => fails both.1⟩
    rw [and_iff_right fails]
    exact (or_iff_right fun both => fails both.1).symm

end Upload

namespace Errand

variable (errand : Errand)

/-- The blocks of the file that the server sends. -/
def uploaded : List (List Byte) :=
  (sentBlocks errand.server.reads).1

/-- What the array `received` of the server holds before the request. -/
def stale : List Byte :=
  errand.server.answers 2 .indeterminate

/-- How an upload ends. -/
theorem finishes_upload
    (named : errand.cmd = uploadTag.chars ∨
      ∃ rest, errand.cmd = uploadTag.chars ++ 32 :: rest) :
    let source := wordOf errand.cmd 1
    let dest := wordOf errand.cmd 2
    Finishes scriptHost errand.start fun exec handled =>
      (exec.ret = ok ↔ (errand.server.Sends source ∧ dest ≠ none) ∧
        (errand.client.Writes dest errand.uploaded ∧ Confirms errand.stale ∨
          ¬ errand.client.Writes dest errand.uploaded ∧
            strcmp errand.stale (bytes "200") = 0)) ∧
      (handled.ret = ok ↔ (errand.server.Sends source ∧ dest ≠ none) ∧
        errand.client.Writes dest errand.uploaded ∧
          (Confirms errand.stale ∨ codeSize < errand.garbage.length)) := by
  intro source dest
  obtain ⟨memory₁, memory₂, memory₃, first, second, answers⟩ :=
    @script_answerRequest errand.serverConn errand.server [] errand.cmd
      uploadTag named errand.code
  refine Finishes.rightQuiet (script_awaitResponse _ _) ?_
  refine Finishes.leftQuiet answers ?_
  rw [executeTag_upload]
  rcases @script_executeUpload errand.serverConn errand.server memory₁ memory₂
      memory₃ source dest [] errand.code first second with
    ⟨sends, isDest, machine, advances⟩ |
      ⟨notSent, ret, machine, failed, advances⟩
  · have sent := blocks_sentBlocks errand.server.reads
    have sendsAll := sends
    obtain ⟨_, _, _, _, whole⟩ := sends
    rw [whole] at sent
    apply Finishes.left advances
    rw [clientWaits_deliverAll, List.flatMap_cons, sent.messages,
      List.nil_append, ← List.append_nil (sentBlocks _).1]
    obtain ⟨_, _, _, first, second, handles⟩ :=
      @script_handleCode errand.clientConn errand.cmd uploadTag named
        errand.client
    refine Finishes.rightQuiet (handles (by decide) _) ?_
    rw [handleTag_upload]
    refine (finishes_sent sent sendsAll.ne_none first second errand.code
      errand.stale).mono ?_
    rintro exec handled ⟨server, client⟩
    exact ⟨server.trans (and_iff_right ⟨sendsAll, isDest⟩).symm,
      client.trans (and_iff_right ⟨sendsAll, isDest⟩).symm⟩
  · rcases advances with advances | ⟨blocks, sent, advances⟩
    · refine Finishes.leftQuiet advances ?_
      refine finishes_sendAnswer _ ?_
      rw [cstr_nil, packet, List.append_nil, List.nil_append]
      refine (finishes_upload_alone named rfl rfl errand.garbage).swap.mono ?_
      rintro exec handled ⟨rfl, clientFails⟩
      exact ⟨iff_of_false failed fun both => notSent both.1,
        iff_of_false clientFails fun both => notSent both.1⟩
    · apply Finishes.left advances
      rw [clientWaits_deliverAll, List.flatMap_cons, sent.messages,
        List.nil_append]
      refine finishes_sendAnswer _ ?_
      rw [cstr_nil, packet, List.append_nil, List.append_assoc]
      refine (finishes_upload_blocks named sent rfl rfl
        errand.garbage).swap.mono ?_
      rintro exec handled ⟨rfl, clientFails⟩
      exact ⟨iff_of_false failed fun both => notSent both.1,
        iff_of_false clientFails fun both => notSent both.1⟩

end Errand

end RemoteCommand
