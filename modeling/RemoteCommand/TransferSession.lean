import RemoteCommand.TransferLoops

/-!
# File transfers between two machines

A transfer has a sender with a file and a receiver.  The stream between server
and client is cut into pieces on both sides in any way.  Whatever else may
differ between two transfers (descriptors, file names, what uninitialised
arrays hold, the machines) is part of the transfer.
-/

namespace RemoteCommand

open Interaction Machine Prog

/-- A machine with a file. -/
def Device.withFile (device : Device) (path content : List Byte) : Device :=
  { device with files := Function.update device.files path (some content) }

structure Transfer where
  source : Word
  dest : Word
  content : List Byte
  serverConn : Int
  clientConn : Int
  /-- What the array `code` of the server holds before the command. -/
  code : List Byte
  server : Device
  client : Device
  serverCuts : Cutting
  clientCuts : Cutting

/-- The command of a transfer. -/
def transferMessage (tag source dest : Word) : List Byte :=
  tag.chars ++ 32 :: (source.chars ++ 32 :: dest.chars)

def downloadTag : Word := ⟨bytes "DOWNLOAD", by decide, by decide⟩

def uploadTag : Word := ⟨bytes "UPLOAD", by decide, by decide⟩

/-- No receive asks for more than a block. -/
def Transfer.blockCuts : Cutting where
  size _ := msgBufferSize
  positive _ := by decide

/-- A side of a transfer: its stream is cut in a certain way. -/
abbrev TransferSide (cutting : Cutting) : Type 1 :=
  Endpoint Sys Device (cutting.delivery Byte) Outcome

/-! ## The server -/

/-- The branches of `execute_command`. -/
def executeTag (conn : Int) (code tag : List Byte) : Prog Sys Outcome :=
  if strcmp tag (bytes "LIST") = 0 then
    executeList []
  else if strcmp tag (bytes "EXEC") = 0 then
    executeExec [] code
  else if strcmp tag (bytes "SIZE") = 0 then
    executeSize []
  else if strcmp tag (bytes "DOWNLOAD") = 0 then
    executeDownload conn [] code
  else if strcmp tag (bytes "UPLOAD") = 0 then
    executeUpload conn [] code
  else
    .ret { ret := protoErr, result := bytes "Command not supported."
           code := bytes "400" }

theorem executeTag_download (conn : Int) (code : List Byte) :
    executeTag conn code downloadTag.chars = executeDownload conn [] code := by
  unfold executeTag
  rw [if_neg (by decide), if_neg (by decide), if_neg (by decide),
    if_pos (by decide)]

theorem executeTag_upload (conn : Int) (code : List Byte) :
    executeTag conn code uploadTag.chars = executeUpload conn [] code := by
  unfold executeTag
  rw [if_neg (by decide), if_neg (by decide), if_neg (by decide),
    if_neg (by decide), if_pos (by decide)]

/-- The server finds the words of the command. -/
theorem advances_answerRequest {disk : Disk} {D : Delivery Byte} (conn : Int)
    (tag source dest : Word) (code : List Byte) (server : Device)
    (inbox : D.Stream) :
    ∃ memory₁ memory₂ memory₃,
      memory₁.strtok none (bytes " ") = (some source.chars, memory₂) ∧
        memory₂.strtok none (bytes " ") = (some dest.chars, memory₃) ∧
          Advances (diskHost disk)
            (⟨answerRequest conn (transferMessage tag source dest) code,
              server, inbox, false⟩ : Endpoint Sys Device D Outcome)
            []
            ⟨(executeTag conn code tag.chars).bind (sendAnswer conn),
              { server with memory := memory₁ }, inbox, false⟩ := by
  obtain ⟨memory₁, memory₂, memory₃, first, second, third⟩ :=
    server.memory.strtok_words .msg tag source dest
      (by decide : ∀ byte ∈ cstr (bytes " "), byte = 32)
  refine ⟨memory₁, memory₂, memory₃, second, third, ?_⟩
  unfold answerRequest executeCommand
  simp only [bind_eq, op_bind, ret_bind, pure_eq]
  refine advances_call rfl rfl ?_
  refine advances_call rfl (Device.answer_strtok first) ?_
  exact .refl _

section Answer

variable {σ α : Type} {answer : σ → (call : Call) → call.Answer × σ}
  {D : Delivery Byte}

/-- At the end it sends code and result. -/
theorem advances_sendAnswer_bind (conn : Int) (exec : Outcome) (machine : σ)
    (next : Outcome → Prog Sys α) (inbox : D.Stream) :
    Advances (machineHost answer)
      ⟨(sendAnswer conn exec).bind next, machine, inbox, false⟩
      [cstr exec.code, cstr exec.result] ⟨next exec, machine, inbox, true⟩ := by
  unfold sendAnswer sendReply
  simp only [bind_eq, op_bind, ret_bind, pure_eq, ite_bind]
  apply advances_send
  apply advances_send
  rw [if_pos trivial]
  apply advances_close
  exact .refl _

theorem advances_sendAnswer (conn : Int) (exec : Outcome) (machine : σ)
    (inbox : D.Stream) :
    Advances (machineHost answer)
      ⟨sendAnswer conn exec, machine, inbox, false⟩
      [cstr exec.code, cstr exec.result] ⟨.ret exec, machine, inbox, true⟩ := by
  have sends := @advances_sendAnswer_bind σ Outcome answer D conn exec machine
    .ret inbox
  rwa [bind_ret] at sends

theorem advances_closeConnection (conn : Int) (handled : Outcome) (machine : σ)
    (inbox : D.Stream) :
    Advances (machineHost answer)
      ⟨closeConnection conn handled, machine, inbox, false⟩
      [] ⟨.ret handled, machine, inbox, true⟩ :=
  advances_close (.refl _)

end Answer

/-! ## The first answer -/

section Response

variable {cutting : Cutting}

/-- The branches of `handle_response`. -/
def handleTag (conn : Int) (code tag : List Byte) : Prog Sys Outcome :=
  if strcmp tag (bytes "LIST") = 0 ∨ strcmp tag (bytes "SIZE") = 0 ∨
      strcmp tag (bytes "EXEC") = 0 then
    handleResult conn [] code
  else if strcmp tag (bytes "DOWNLOAD") = 0 then
    handleDownload conn [] code
  else if strcmp tag (bytes "UPLOAD") = 0 then
    handleUpload conn [] code
  else
    .ret { ret := commErr, result := [], code }

theorem handleTag_download (conn : Int) (code : List Byte) :
    handleTag conn code downloadTag.chars = handleDownload conn [] code := by
  unfold handleTag
  rw [if_neg (by decide), if_pos (by decide)]

theorem handleTag_upload (conn : Int) (code : List Byte) :
    handleTag conn code uploadTag.chars = handleUpload conn [] code := by
  unfold handleTag
  rw [if_neg (by decide), if_neg (by decide), if_pos (by decide)]

/-- The client, when it has received a code. -/
def handleCode (conn : Int) : Received codeSize → Prog Sys Outcome
  | .closed => closeConnection conn { ret := connErr, result := [], code := [] }
  | .error => closeConnection conn { ret := connErr, result := [], code := [] }
  | .data code _ _ =>
      .op (.strtok (some .cmd) (bytes " ")) fun tag =>
        match tag with
        | none => closeConnection conn { ret := intErr, result := [], code }
        | some tag => (handleTag conn code tag).bind (closeConnection conn)

theorem awaitResponse_eq (conn : Int) (cmd : List Byte) :
    awaitResponse conn cmd =
      .op (.fill .cmd cmd) fun _ =>
        .op (.recv conn 0 codeSize) (handleCode conn) := by
  unfold awaitResponse handleResponse
  simp only [bind_eq, op_bind, ret_bind, pure_eq]
  congr 1
  funext filled
  congr 1
  funext received
  cases received with
  | closed => rfl
  | error => rfl
  | data code nonempty fits =>
      simp only [handleCode, op_bind, overwrite, List.drop_nil,
        List.append_nil]
      congr 1
      funext tag
      cases tag <;> rfl

/-- The client receives the code, or a part of it, and finds the words of its
command. -/
theorem advances_awaitResponse {disk : Disk} (conn : Int)
    (tag source dest : Word) (client : Device) (rest : List Byte) :
    let answer := bytes "200" ++ rest
    let size := cutting.limit 0 codeSize
    ∃ memory₁ memory₂ memory₃,
      memory₁.strtok none (bytes " ") = (some source.chars, memory₂) ∧
        memory₂.strtok none (bytes " ") = (some dest.chars, memory₃) ∧
          Advances (diskHost disk)
            (⟨awaitResponse conn (transferMessage tag source dest), client,
              (answer, 0), false⟩ : TransferSide cutting)
            []
            ⟨(handleTag conn (answer.take size) tag.chars).bind
                (closeConnection conn),
              { client with memory := memory₁ }, (answer.drop size, 1),
              false⟩ := by
  intro answer size
  obtain ⟨memory₁, memory₂, memory₃, first, second, third⟩ :=
    client.memory.strtok_words .cmd tag source dest
      (by decide : ∀ byte ∈ cstr (bytes " "), byte = 32)
  refine ⟨memory₁, memory₂, memory₃, second, third, ?_⟩
  have enough : codeSize ≤ answer.length := by
    rw [List.length_append]
    exact Nat.le_add_right _ _
  rw [awaitResponse_eq]
  refine advances_call rfl rfl ?_
  apply advances_receive (by decide) enough
  intro nonempty fits
  refine advances_call rfl (Device.answer_strtok first) ?_
  exact .refl _

/-- A part of the code is not the code. -/
theorem strcmp_part (partly : cutting.size 0 < codeSize) (rest : List Byte) :
    strcmp ((bytes "200" ++ rest).take (cutting.limit 0 codeSize))
      (bytes "200") ≠ 0 := by
  have limit : cutting.limit 0 codeSize = cutting.size 0 :=
    Nat.min_eq_right partly.le
  have oneOrTwo : cutting.size 0 = 1 ∨ cutting.size 0 = 2 := by
    have := cutting.positive 0
    unfold codeSize at partly
    omega
  rw [limit]
  rcases oneOrTwo with one | two
  · rw [one]
    exact (by decide : strcmp (bytes "2") (bytes "200") ≠ 0)
  · rw [two]
    exact (by decide : strcmp (bytes "20") (bytes "200") ≠ 0)

theorem limit_code (complete : codeSize ≤ cutting.size 0) :
    cutting.limit 0 codeSize = codeSize :=
  Nat.min_eq_left complete

end Response

/-! ## What the client makes of it -/

section Reply

variable {σ γ : Type} {answer : σ → (call : Call) → call.Answer × σ}
  {disk : Disk} {cutting other : Cutting} {machine : σ}
  {peer : Endpoint Sys σ (other.delivery Byte) γ} {waiting : List Byte}
  {index : Nat}

/-- The client after the transfer itself. -/
def awaitReply (conn : Int) (code : List Byte) : Prog Sys Outcome :=
  (receiveReply conn [] code).bind (closeConnection conn)

/-- A client that gets a part of the code only gives up. -/
theorem advances_refused (conn : Int) {tag : Word} (source dest : Word)
    (transfers : tag = downloadTag ∨ tag = uploadTag) (client : Device)
    (rest : List Byte) (partly : cutting.size 0 < codeSize) :
    ∃ exec device stream, exec.ret = protoErr ∧
      Advances (diskHost disk)
        (⟨awaitResponse conn (transferMessage tag source dest), client,
          (bytes "200" ++ rest, 0), false⟩ : TransferSide cutting)
        [] ⟨.ret exec, device, stream, true⟩ := by
  obtain ⟨memory, _, _, _, _, answered⟩ :=
    @advances_awaitResponse cutting disk conn tag source dest client rest
  have refuses : handleTag conn
      ((bytes "200" ++ rest).take (cutting.limit 0 codeSize)) tag.chars =
        .ret { ret := protoErr, result := []
               code := (bytes "200" ++ rest).take
                 (cutting.limit 0 codeSize) } := by
    rcases transfers with download | upload
    · rw [download, handleTag_download, handleDownload,
        if_neg (strcmp_part partly rest)]
      rfl
    · rw [upload, handleTag_upload, handleUpload,
        if_neg (strcmp_part partly rest)]
      rfl
  rw [refuses] at answered
  exact ⟨_, _, _, rfl, answered.trans (advances_closeConnection _ _ _ _)⟩

theorem awaitReply_eq (conn : Int) (code : List Byte) :
    awaitReply conn code =
      .op (.recv conn 0 codeSize) fun received =>
        match received with
        | .closed =>
            closeConnection conn { ret := connErr, result := [], code }
        | .error =>
            closeConnection conn { ret := connErr, result := [], code }
        | .data chars _ _ =>
            .op (.recv conn 0 msgBufferSize) fun received =>
              match received with
              | .closed => closeConnection conn
                  { ret := connErr, result := [], code := overwrite chars code }
              | .error => closeConnection conn
                  { ret := connErr, result := [], code := overwrite chars code }
              | .data result _ _ => closeConnection conn
                  { ret := ok, result, code := overwrite chars code } := by
  unfold awaitReply receiveReply
  simp only [bind_eq, op_bind, ret_bind, pure_eq]
  congr 1
  funext received
  cases received with
  | closed => rfl
  | error => rfl
  | data chars nonempty fits =>
      simp only [op_bind]
      congr 1
      funext received
      cases received <;> rfl

/-- A `recv` of a side whose peer has closed gets some of the data. -/
theorem reaches_recv (conn : Int) {length : Nat} (asks : 0 < length)
    (ended : peer.closed = true) (some_waiting : waiting ≠ []) :
    ∃ chars nonempty fits, ∀ next : Received length → Prog Sys Outcome,
      Reaches (machineHost answer)
        ((⟨.op (.recv conn 0 length) next, machine, (waiting, index), false⟩ :
          Endpoint Sys σ (cutting.delivery Byte) Outcome), peer)
        (⟨next (.data chars nonempty fits), machine,
          (waiting.drop (cutting.limit index length), index + 1), false⟩,
          peer) := by
  have idle : peer.idle (machineHost answer) false = true :=
    Endpoint.idle_of_closed (machineHost answer) ended false
  exact ⟨_, _, _, fun next => reaches_receive asks some_waiting idle⟩

/-- Without data the client fails. -/
theorem reaches_awaitReply_end (conn : Int) (code : List Byte)
    (ended : peer.closed = true) :
    Reaches (machineHost answer)
      ((⟨awaitReply conn code, machine, ([], index), false⟩ :
        Endpoint Sys σ (cutting.delivery Byte) Outcome), peer)
      (⟨.ret { ret := connErr, result := [], code }, machine, ([], index),
        true⟩, peer) := by
  rw [awaitReply_eq]
  refine (Cutting.receive_end rfl (by decide) ended).trans ?_
  exact Advances.leftQuiet peer (advances_closeConnection _ _ _ _)

/-- In any case it ends, and the machine is as before; if there is more data
than a code, it succeeds. -/
theorem reaches_awaitReply (conn : Int) (code : List Byte)
    (ended : peer.closed = true) :
    ∃ outcome stream, Reaches (machineHost answer)
        ((⟨awaitReply conn code, machine, (waiting, index), false⟩ :
          Endpoint Sys σ (cutting.delivery Byte) Outcome), peer)
        (⟨.ret outcome, machine, stream, true⟩, peer) ∧
      (codeSize < waiting.length → outcome.ret = ok) := by
  by_cases nothing : waiting = []
  · subst nothing
    exact ⟨_, _, reaches_awaitReply_end conn code ended,
      fun enough => absurd enough (Nat.not_lt_zero _)⟩
  rw [awaitReply_eq]
  obtain ⟨chars, _, _, first⟩ := reaches_recv conn
    (by decide : 0 < codeSize) ended nothing
  by_cases last : waiting.drop (cutting.limit index codeSize) = []
  · rw [last] at first
    refine ⟨{ ret := connErr, result := [], code := overwrite chars code },
      ([], index + 1), ?_, fun enough => ?_⟩
    · refine (first _).trans ?_
      refine (Cutting.receive_end rfl (by decide) ended).trans ?_
      exact Advances.leftQuiet peer (advances_closeConnection _ _ _ _)
    · exfalso
      have within : cutting.limit index codeSize ≤ codeSize :=
        Nat.min_le_left _ _
      rw [List.drop_eq_nil_iff] at last
      omega
  · obtain ⟨result, _, _, second⟩ := @reaches_recv σ γ answer cutting other
      machine peer (waiting.drop (cutting.limit index codeSize)) (index + 1)
      conn msgBufferSize (by decide) ended last
    refine ⟨{ ret := ok, result, code := overwrite chars code },
      ((waiting.drop (cutting.limit index codeSize)).drop
        (cutting.limit (index + 1) msgBufferSize), index + 1 + 1), ?_,
      fun _ => rfl⟩
    refine (first _).trans ((second _).trans ?_)
    exact Advances.leftQuiet peer (advances_closeConnection _ _ _ _)

end Reply

end RemoteCommand
