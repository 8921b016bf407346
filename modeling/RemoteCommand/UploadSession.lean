import RemoteCommand.DownloadSession

/-!
# UPLOAD

The server sends a file and the client stores it.  The loops are those of a
download.  When the file is made of full blocks the server fails after it, and
sends what the array `code` holds; to the client this is more of the file.
-/

namespace RemoteCommand

open Interaction Machine Prog Transition

/-! ## The server -/

section Server

/-- What the server makes of the confirmation. -/
def judgeUpload (code stale : List Byte) :
    Received codeSize → Prog Sys Outcome
  | .error => .ret { ret := connErr, result := [], code }
  | .closed => executeUpload.checkReceived [] code stale
  | .data chars _ _ =>
      executeUpload.checkReceived [] code (overwrite chars stale)

def confirmUpload (conn : Int) (code stale : List Byte) : Prog Sys Outcome :=
  .op (.recv conn 0 codeSize) fun received =>
    (judgeUpload code stale received).bind (sendAnswer conn)

/-- What follows the loop of the server. -/
def endUpload (conn : Int) (file : File) (code : List Byte) (sent : Int) :
    Prog Sys Outcome :=
  if sent ≠ ok then
    sendAnswer conn { ret := sent, result := [], code }
  else
    .op (.fclose file) fun _ =>
      .op .indeterminate fun stale => confirmUpload conn code stale

theorem executeUpload_eq (conn : Int) (code : List Byte) :
    (executeUpload conn [] code).bind (sendAnswer conn) =
      .op (.strtok none (bytes " ")) fun source =>
        match source with
        | none => sendAnswer conn { ret := protoErr, result := [], code }
        | some source =>
            .op (.strtok none (bytes " ")) fun dest =>
              match dest with
              | none => sendAnswer conn { ret := protoErr, result := [], code }
              | some _ =>
                  .op (.fopen source (bytes "rb")) fun file =>
                    match file with
                    | none =>
                        sendAnswer conn { ret := intErr, result := [], code }
                    | some file =>
                        .op (.send conn (bytes "200")) fun sent =>
                          if sent < 0 then
                            sendAnswer conn
                              { ret := connErr, result := [], code }
                          else
                            (sendLoop conn file).bind
                              (endUpload conn file code) := by
  unfold executeUpload
  simp only [bind_eq, op_bind, pure_eq]
  congr 1
  funext source
  cases source with
  | none => rfl
  | some source =>
      simp only [op_bind, ret_bind]
      congr 1
      funext dest
      cases dest with
      | none => rfl
      | some dest =>
          simp only [op_bind]
          congr 1
          funext file
          cases file with
          | none => rfl
          | some file =>
              simp only [op_bind, ite_bind, sendLoop, iterate_bind, loop_bind]
              rfl

/-- The server says that it is ready, and sends what it can read of the
file. -/
theorem advances_answer_upload {disk : Disk} {D : Delivery Byte} (conn : Int)
    (source dest : Word) (code : List Byte) {server : Device}
    {content : List Byte} (holds : server.files source.chars = some content)
    (inbox : D.Stream) :
    ∃ blocks file device, blocks.flatten = disk.readable content ∧
      device.stale = server.stale ∧
      Advances (diskHost disk)
        (⟨answerRequest conn (transferMessage uploadTag source dest) code,
          server, inbox, false⟩ : Endpoint Sys Device D Outcome)
        (bytes "200" :: blocks)
        ⟨endUpload conn file code
            (if (disk.readable content).length % msgBufferSize = 0 then intErr
              else ok),
          device, inbox, false⟩ := by
  obtain ⟨memory₁, memory₂, memory₃, second, third, requested⟩ :=
    advances_answerRequest conn uploadTag source dest code server inbox
  rw [executeTag_upload, executeUpload_eq] at requested
  let device : Device :=
    { server with memory := memory₃, nextFile := server.nextFile + 1 }
  obtain ⟨blocks, reached, ended, whole, sends⟩ :=
    @advances_sendLoop disk D Outcome device inbox source.chars content
      (endUpload conn server.nextFile code) conn server.nextFile holds
      (disk.readable content).length 0 false (Nat.zero_add _).symm
  refine ⟨blocks, server.nextFile,
    device.atOffset server.nextFile source.chars reached ended, whole, rfl,
    requested.trans ?_⟩
  refine advances_call rfl (Device.answer_strtok second) ?_
  refine advances_call rfl (Device.answer_strtok third) ?_
  refine advances_call rfl (@Device.fopen_atOffset
    { server with memory := memory₃ } source.chars content holds) ?_
  apply advances_send
  exact sends

/-- The confirmation of the client and the bytes behind `received` make up the
string `200`. -/
def Confirms (stale : List Byte) : Prop :=
  strcmp (overwrite (bytes "200") stale) (bytes "200") = 0

instance (stale : List Byte) : Decidable (Confirms stale) :=
  inferInstanceAs (Decidable (_ = _))

/-- What the server returns for a confirmation that arrives whole. -/
def judged (code stale : List Byte) : Outcome :=
  if Confirms stale then
    { ret := ok, result := bytes "File uploaded." ++ terminationString
      code := bytes "200" }
  else
    { ret := protoErr, result := [], code }

theorem judged_ok_iff (code stale : List Byte) :
    (judged code stale).ret = ok ↔ Confirms stale := by
  unfold judged
  split
  · exact iff_of_true rfl ‹_›
  · exact iff_of_false (show protoErr ≠ ok by decide) ‹_›

/-- The server reads the confirmation and answers. -/
theorem advances_confirmUpload {disk : Disk} {cutting : Cutting} (conn : Int)
    (code stale : List Byte) (device : Device) :
    ∃ exec stream,
      (codeSize ≤ cutting.size 0 → exec = judged code stale) ∧
      Advances (diskHost disk)
        (⟨confirmUpload conn code stale, device, (bytes "200", 0), false⟩ :
          TransferSide cutting)
        [cstr exec.code, cstr exec.result] ⟨.ret exec, device, stream, true⟩ := by
  let chars := (bytes "200").take (cutting.limit 0 codeSize)
  let exec : Outcome :=
    if strcmp (overwrite chars stale) (bytes "200") = 0 then
      { ret := ok, result := bytes "File uploaded." ++ terminationString
        code := bytes "200" }
    else
      { ret := protoErr, result := [], code }
  refine ⟨exec, ((bytes "200").drop (cutting.limit 0 codeSize), 1), ?_, ?_⟩
  · intro complete
    have whole : chars = bytes "200" := by
      simp only [chars, limit_code complete]
      rfl
    simp only [exec, whole, judged]
    rfl
  · apply advances_receive (by decide) (by decide)
    intro nonempty fits
    have decided : judgeUpload code stale (.data chars nonempty fits) =
        .ret exec := by
      simp only [judgeUpload, executeUpload.checkReceived, exec]
      split <;> rfl
    rw [decided, ret_bind]
    exact @advances_sendAnswer Device (Device.answer disk)
      (cutting.delivery Byte) conn exec device _

end Server

/-! ## The client -/

section Client

variable {disk : Disk} {cutting other : Cutting} {device : Device}
  {peer : TransferSide other} {waiting path : List Byte} {file : File}

/-- What follows the loop of the client. -/
def endReceiving (conn : Int) (file : File) (received : Int) :
    Prog Sys Outcome :=
  if received ≠ ok then
    closeConnection conn { ret := received, result := [], code := bytes "200" }
  else
    .op (.fclose file) fun _ =>
      .op (.send conn (bytes "200")) fun sent =>
        if sent < 0 then
          closeConnection conn
            { ret := connErr, result := [], code := bytes "200" }
        else
          awaitReply conn (bytes "200")

theorem handleUpload_eq (conn : Int) :
    (handleUpload conn [] (bytes "200")).bind (closeConnection conn) =
      .op (.strtok none (bytes " ")) fun source =>
        match source with
        | none => closeConnection conn
            { ret := protoErr, result := [], code := bytes "200" }
        | some _ =>
            .op (.strtok none (bytes " ")) fun dest =>
              match dest with
              | none => closeConnection conn
                  { ret := protoErr, result := [], code := bytes "200" }
              | some dest =>
                  .op (.fopen dest (bytes "wb")) fun file =>
                    match file with
                    | none => closeConnection conn
                        { ret := intErr, result := [], code := bytes "200" }
                    | some file => (receiveLoop conn file).bind
                        (endReceiving conn file) := by
  unfold handleUpload
  rw [if_pos (by decide)]
  simp only [bind_eq, op_bind, pure_eq]
  congr 1
  funext source
  cases source with
  | none => rfl
  | some source =>
      simp only [op_bind, ret_bind]
      congr 1
      funext dest
      cases dest with
      | none => rfl
      | some dest =>
          simp only [op_bind]
          congr 1
          funext file
          cases file with
          | none => rfl
          | some file =>
              simp only [ret_bind, op_bind, receiveLoop, iterate_bind,
                loop_bind, ite_bind]
              rfl

/-- The client receives the code and opens the file. -/
theorem advances_await_upload (conn : Int) (source dest : Word)
    (client : Device) (data : List Byte)
    (complete : codeSize ≤ cutting.size 0) :
    ∃ file device,
      Advances (diskHost disk)
        (⟨awaitResponse conn (transferMessage uploadTag source dest), client,
          (bytes "200" ++ data, 0), false⟩ : TransferSide cutting)
        []
        ⟨(receiveLoop conn file).bind (endReceiving conn file),
          Device.storing device file dest.chars [], (data, 1), false⟩ := by
  obtain ⟨memory₁, memory₂, memory₃, second, third, answered⟩ :=
    @advances_awaitResponse cutting disk conn uploadTag source dest client data
  rw [limit_code complete, handleTag_upload] at answered
  have code : (bytes "200" ++ data).take codeSize = bytes "200" := rfl
  refine ⟨client.nextFile,
    { client with memory := memory₃, nextFile := client.nextFile + 1 },
    answered.trans ?_⟩
  rw [code, handleUpload_eq]
  refine advances_call rfl (Device.answer_strtok second) ?_
  refine advances_call rfl (Device.answer_strtok third) ?_
  refine advances_call rfl (Device.fopen_storing _ _) ?_
  exact .refl _

/-- The client stores what it receives until a piece is no full block, and
confirms. -/
theorem reaches_endReceiving (conn : Int)
    (idle : peer.idle (diskHost disk) false = true) :
    let size := fun turn => cutting.size (turn + 1)
    let length := receivedLength waiting.length size
    ¬ (FullBlocks waiting.length size ∧
      waiting.length % msgBufferSize = 0) →
    disk.Takes length →
    ∃ stored index,
      stored.files path = some (disk.keeps (waiting.take length)) ∧
      Reaches (diskHost disk)
        ((⟨(receiveLoop conn file).bind (endReceiving conn file),
          device.storing file path [], (waiting, 1), false⟩ :
          TransferSide cutting), peer)
        (⟨awaitReply conn (bytes "200"), stored,
          (waiting.drop length, index), false⟩,
          peer.deliver (some (bytes "200"))) := by
  intro size length notAll takes
  obtain ⟨later, loops⟩ := @reaches_receiveLoop disk Outcome Outcome device
    cutting other peer file path waiting 1 (endReceiving conn file) conn idle
    (by simpa only [Nat.add_comm 1] using notAll)
    (by simpa only [Nat.add_comm 1] using takes)
  simp only [Nat.add_comm 1] at loops
  let stored := (device.storing file path (waiting.take length)).fclose disk
    file
  refine ⟨stored, later, device.storing_fclose _ _ _, loops.trans ?_⟩
  have confirms : Advances (diskHost disk)
      (⟨endReceiving conn file ok,
        device.storing file path (waiting.take length),
        (waiting.drop length, later), false⟩ : TransferSide cutting)
      [bytes "200"]
      ⟨awaitReply conn (bytes "200"), stored,
        (waiting.drop length, later), false⟩ := by
    refine advances_call rfl rfl ?_
    apply advances_send
    exact .refl _
  exact confirms.left peer

/-- When the loop of the client fails, the client does. -/
theorem reaches_endReceiving_failed (conn : Int) {received : Int}
    (failed : received ≠ ok) {start : TransferSide cutting} {after : Device}
    {stream : List Byte × Nat}
    (loops : Reaches (diskHost disk) (start, peer)
      (⟨endReceiving conn file received, after, stream, false⟩, peer)) :
    ∃ handled final, handled.ret = received ∧
      final.1.program = .ret handled ∧
      Reaches (diskHost disk) (start, peer) final := by
  let handled : Outcome :=
    { ret := received, result := [], code := bytes "200" }
  rw [endReceiving, if_pos failed] at loops
  have closes := @advances_closeConnection Device (Device.answer disk)
    (cutting.delivery Byte) conn handled after stream
  exact ⟨handled, _, rfl, rfl, loops.trans (closes.left peer)⟩

end Client

/-! ## Both sides -/

namespace Transfer

variable (transfer : Transfer)

def uploadMessage : List Byte :=
  transferMessage uploadTag transfer.source transfer.dest

/-- The client, when some data is on its way to it. -/
def awaiting (data : List Byte) : TransferSide transfer.clientCuts :=
  ⟨awaitResponse transfer.clientConn transfer.uploadMessage, transfer.client,
    (data, 0), false⟩

/-- An upload, when the client has sent the command.  The receiver is on the
left, as in a download. -/
def upload : TransferSide transfer.clientCuts ×
    TransferSide transfer.serverCuts :=
  (transfer.awaiting [],
    ⟨answerRequest transfer.serverConn transfer.uploadMessage transfer.code,
      transfer.server.withFile transfer.source.chars transfer.content, ([], 0),
      false⟩)

variable (disk : Disk)

/-- The server sends the file before the client receives anything. -/
theorem upload_sent :
    ∃ file device, device.stale = transfer.server.stale ∧
      Reaches (diskHost disk) transfer.upload
        (transfer.awaiting (bytes "200" ++ transfer.readable disk),
          ⟨endUpload transfer.serverConn file transfer.code
            (if (transfer.readable disk).length % msgBufferSize = 0 then intErr
              else ok), device, ([], 0), false⟩) := by
  obtain ⟨blocks, file, device, whole, stale, sends⟩ :=
    @advances_answer_upload disk (transfer.serverCuts.delivery Byte)
      transfer.serverConn transfer.source transfer.dest transfer.code
      (transfer.server.withFile transfer.source.chars transfer.content)
      transfer.content (Function.update_self _ _ _) ([], 0)
  have sent := sends.right (transfer.awaiting [])
  rw [awaiting, deliverAll_delivery, List.flatten_cons, whole] at sent
  exact ⟨file, device, stale, sent⟩

/-- After a file of full blocks the server sends `code` and closes. -/
theorem upload_closed
    (blocks : (transfer.readable disk).length % msgBufferSize = 0) :
    ∃ peer, peer.closed = true ∧
      (∃ exec, exec.ret = intErr ∧ peer.program = .ret exec) ∧
      Reaches (diskHost disk) transfer.upload
        (transfer.awaiting (bytes "200" ++
          (transfer.readable disk ++ cstr transfer.code)), peer) := by
  obtain ⟨file, device, _, sent⟩ := transfer.upload_sent disk
  rw [if_pos blocks] at sent
  let exec : Outcome := { ret := intErr, result := [], code := transfer.code }
  have answers := (@advances_sendAnswer Device (Device.answer disk)
    (transfer.serverCuts.delivery Byte) transfer.serverConn exec device
      ([], 0)).right (transfer.awaiting (bytes "200" ++ transfer.readable disk))
  rw [awaiting, deliverAll_delivery, List.append_assoc, List.flatten_cons,
    List.flatten_singleton, cstr_nil, List.append_nil] at answers
  exact ⟨_, rfl, ⟨exec, rfl, rfl⟩, sent.trans answers⟩

/-- After any other file it waits for the confirmation. -/
theorem upload_awaits
    (remainder : (transfer.readable disk).length % msgBufferSize ≠ 0) :
    ∃ device,
      Reaches (diskHost disk) transfer.upload
        (transfer.awaiting (bytes "200" ++ transfer.readable disk),
          ⟨confirmUpload transfer.serverConn transfer.code
            (transfer.server.stale 0), device, ([], 0), false⟩) := by
  obtain ⟨file, device, stale, sent⟩ := transfer.upload_sent disk
  rw [if_neg remainder] at sent
  obtain ⟨closed, closes, kept⟩ : ∃ closed,
      device.fclose disk file = closed ∧ closed.stale = device.stale :=
    ⟨_, rfl, device.fclose_stale file⟩
  rw [← stale, ← kept]
  have answered : device.answer disk (.fclose file) = ((), closed) :=
    congrArg (Prod.mk ()) closes
  have waits : Advances (diskHost disk)
      (⟨endUpload transfer.serverConn file transfer.code ok, device, ([], 0),
        false⟩ : TransferSide transfer.serverCuts)
      []
      ⟨confirmUpload transfer.serverConn transfer.code (closed.stale 0),
        { closed with stale := fun index => closed.stale (index + 1) },
        ([], 0), false⟩ := by
    refine advances_call rfl answered ?_
    refine advances_call rfl rfl ?_
    exact .refl _
  exact ⟨_, sent.trans (waits.right _)⟩

/-- The client, when it has opened the file. -/
def storing (file : File) (device : Device) (data : List Byte) :
    TransferSide transfer.clientCuts :=
  ⟨(receiveLoop transfer.clientConn file).bind
      (endReceiving transfer.clientConn file),
    device.storing file transfer.dest.chars [], (data, 1), false⟩

theorem upload_opens (complete : codeSize ≤ transfer.clientCuts.size 0)
    (data : List Byte) (peer : TransferSide transfer.serverCuts) :
    ∃ file device, Reaches (diskHost disk)
      (transfer.awaiting (bytes "200" ++ data), peer)
      (transfer.storing file device data, peer) := by
  obtain ⟨file, device, opens⟩ := @advances_await_upload disk
    transfer.clientCuts transfer.clientConn transfer.source transfer.dest
    transfer.client data complete
  exact ⟨file, device, opens.leftQuiet peer⟩

/-- The client gives up at once. -/
theorem upload_refused (partly : transfer.clientCuts.size 0 < codeSize) :
    ∃ handled final, handled.ret ≠ ok ∧
      final.1.program = .ret handled ∧
      Reaches (diskHost disk) transfer.upload final := by
  obtain ⟨file, device, _, sent⟩ := transfer.upload_sent disk
  obtain ⟨handled, client, stream, refused, refuses⟩ := @advances_refused disk
    transfer.clientCuts transfer.clientConn uploadTag transfer.source
    transfer.dest (.inr rfl) transfer.client (transfer.readable disk) partly
  refine ⟨handled, _, ?_, rfl, sent.trans (refuses.leftQuiet _)⟩
  rw [refused]
  decide

/-- The sizes of the pieces in which the client receives the file. -/
def pieceSizes (turn : Nat) : Nat :=
  transfer.clientCuts.size (turn + 1)

/-- The client fails when `fwrite` does. -/
theorem reaches_storing_refused {file : File} {device : Device}
    {data : List Byte} {peer : TransferSide transfer.serverCuts}
    (idle : peer.idle (diskHost disk) false = true)
    (refuses : ¬ disk.Takes (receivedLength data.length transfer.pieceSizes)) :
    ∃ handled final, handled.ret ≠ ok ∧ final.1.program = .ret handled ∧
      Reaches (diskHost disk) (transfer.storing file device data, peer)
        final := by
  obtain ⟨after, stream, loops⟩ := @reaches_receiveLoop_refused disk Outcome
    Outcome device transfer.clientCuts transfer.serverCuts peer file
    transfer.dest.chars data 1 (endReceiving transfer.clientConn file)
    transfer.clientConn idle
    (by simp only [Nat.add_comm 1]; exact refuses)
  obtain ⟨handled, final, failed, returned, ends⟩ :=
    reaches_endReceiving_failed transfer.clientConn
      (by decide : intErr ≠ ok) loops
  refine ⟨handled, final, ?_, returned, ends⟩
  rw [failed]
  decide

/-- When the server waits for the confirmation, the client fails if `fwrite`
does. -/
theorem upload_refusedWrite (complete : codeSize ≤ transfer.clientCuts.size 0)
    (remainder : (transfer.readable disk).length % msgBufferSize ≠ 0)
    (refuses : ¬ disk.Takes (receivedLength (transfer.readable disk).length
      transfer.pieceSizes)) :
    ∃ handled final, handled.ret ≠ ok ∧ final.1.program = .ret handled ∧
      Reaches (diskHost disk) transfer.upload final := by
  obtain ⟨server, awaits⟩ := transfer.upload_awaits disk remainder
  let peer : TransferSide transfer.serverCuts :=
    ⟨confirmUpload transfer.serverConn transfer.code
      (transfer.server.stale 0), server, ([], 0), false⟩
  have idle : peer.idle (diskHost disk) false = true :=
    Cutting.waiting_idle rfl (by decide)
  obtain ⟨file, device, opens⟩ :=
    transfer.upload_opens disk complete (transfer.readable disk) peer
  obtain ⟨handled, final, failed, returned, ends⟩ :=
    @reaches_storing_refused transfer disk file device _ peer idle refuses
  exact ⟨handled, final, failed, returned, awaits.trans (opens.trans ends)⟩

/-- What the client stores when the server waits for the confirmation. -/
theorem upload_confirmed (complete : codeSize ≤ transfer.clientCuts.size 0)
    (remainder : (transfer.readable disk).length % msgBufferSize ≠ 0)
    (takes : disk.Takes (receivedLength (transfer.readable disk).length
      transfer.pieceSizes)) :
    ∃ handled exec final, final.1.program = .ret handled ∧
      final.2.program = .ret exec ∧
      final.1.host.files transfer.dest.chars =
        some (disk.keeps ((transfer.readable disk).take
          (receivedLength (transfer.readable disk).length
            transfer.pieceSizes))) ∧
      (codeSize ≤ transfer.serverCuts.size 0 →
        (exec.ret = ok ↔ Confirms (transfer.server.stale 0)) ∧
          (Confirms (transfer.server.stale 0) → handled.ret = ok)) ∧
      Reaches (diskHost disk) transfer.upload final := by
  obtain ⟨server, awaits⟩ := transfer.upload_awaits disk remainder
  let peer : TransferSide transfer.serverCuts :=
    ⟨confirmUpload transfer.serverConn transfer.code
      (transfer.server.stale 0), server, ([], 0), false⟩
  have idle : peer.idle (diskHost disk) false = true :=
    Cutting.waiting_idle rfl (by decide)
  obtain ⟨file, device, opens⟩ :=
    transfer.upload_opens disk complete (transfer.readable disk) peer
  obtain ⟨stored, index, holds, stores⟩ := @reaches_endReceiving disk
    transfer.clientCuts transfer.serverCuts device peer
    (transfer.readable disk) transfer.dest.chars file transfer.clientConn idle
    (fun all => remainder all.2) takes
  obtain ⟨exec, stream, confirmed, confirms⟩ := @advances_confirmUpload disk
    transfer.serverCuts transfer.serverConn transfer.code
    (transfer.server.stale 0) server
  have answers := confirms.right
    (⟨awaitReply transfer.clientConn (bytes "200"), stored,
      ((transfer.readable disk).drop (receivedLength
        (transfer.readable disk).length transfer.pieceSizes), index), false⟩ :
      TransferSide transfer.clientCuts)
  rw [deliverAll_delivery] at answers
  obtain ⟨handled, left, replies, enough⟩ :=
    @reaches_awaitReply Device Outcome (Device.answer disk)
      transfer.clientCuts transfer.serverCuts stored
      ⟨.ret exec, server, stream, true⟩ _ index transfer.clientConn
      (bytes "200") rfl
  refine ⟨handled, exec, _, rfl, rfl, holds, fun serverComplete => ?_,
    awaits.trans (opens.trans (stores.trans (answers.trans replies)))⟩
  rw [confirmed serverComplete] at enough ⊢
  refine ⟨judged_ok_iff _ _, fun confirms => enough ?_⟩
  rw [judged, if_pos confirms, List.length_append]
  exact Nat.lt_add_left _ (by decide)

/-- What it stores when the server has closed. -/
theorem upload_unconfirmed (complete : codeSize ≤ transfer.clientCuts.size 0)
    (blocks : (transfer.readable disk).length % msgBufferSize = 0)
    {data : List Byte}
    (sends : data = transfer.readable disk ++ cstr transfer.code) :
    let length := receivedLength data.length transfer.pieceSizes
    ∃ handled final, final.1.program = .ret handled ∧
      (handled.ret = ok → disk.Takes length ∧ length < data.length ∧
        final.1.host.files transfer.dest.chars =
          some (disk.keeps (data.take length))) ∧
      (disk.Takes length → length + codeSize < data.length →
        handled.ret = ok) ∧
      Reaches (diskHost disk) transfer.upload final := by
  intro length
  obtain ⟨peer, ended, _, closed⟩ := transfer.upload_closed disk blocks
  rw [← sends] at closed
  obtain ⟨file, device, opens⟩ := transfer.upload_opens disk complete data peer
  have start := closed.trans opens
  have idle := Endpoint.idle_of_closed (diskHost disk) ended false
  by_cases refuses : ¬ disk.Takes length
  · obtain ⟨handled, final, failed, returned, ends⟩ :=
      @reaches_storing_refused transfer disk file device data peer idle refuses
    exact ⟨handled, final, returned, fun succeeds => absurd succeeds failed,
      fun takes => absurd takes refuses, start.trans ends⟩
  have takes := not_not.1 refuses
  by_cases all : FullBlocks data.length transfer.pieceSizes ∧
    data.length % msgBufferSize = 0
  · obtain ⟨full, whole⟩ := all
    have length_eq : length = data.length := receivedLength_eq_iff.2 full
    obtain ⟨stream, loops⟩ := @reaches_receiveLoop_end disk Outcome
      Outcome device transfer.clientCuts transfer.serverCuts peer file
      transfer.dest.chars data 1 (endReceiving transfer.clientConn file)
      transfer.clientConn ended
      (by simp only [Nat.add_comm 1]; exact full) whole (length_eq ▸ takes)
    obtain ⟨handled, final, failed, returned, ends⟩ :=
      reaches_endReceiving_failed transfer.clientConn
        (by decide : connErr ≠ ok) loops
    refine ⟨handled, final, returned, fun succeeds => ?_, fun _ enough => ?_,
      start.trans ends⟩
    · exact absurd (failed.symm.trans succeeds) (by decide)
    · omega
  obtain ⟨stored, index, holds, stores⟩ := @reaches_endReceiving disk
    transfer.clientCuts transfer.serverCuts device peer data
    transfer.dest.chars file transfer.clientConn idle all takes
  by_cases everything : length = data.length
  · have nothing : data.drop length = [] := by
      rw [everything, List.drop_length]
    replace stores := nothing ▸ stores
    have replies := @reaches_awaitReply_end Device Outcome (Device.answer disk)
      transfer.clientCuts transfer.serverCuts stored
      (peer.deliver (some (bytes "200"))) index transfer.clientConn
      (bytes "200") ended
    refine ⟨_, _, rfl, fun succeeds => ?_, fun _ enough => ?_,
      start.trans (stores.trans replies)⟩
    · exact absurd succeeds (by decide : connErr ≠ ok)
    · omega
  · obtain ⟨handled, left, replies, enough⟩ :=
      @reaches_awaitReply Device Outcome (Device.answer disk)
        transfer.clientCuts transfer.serverCuts stored
        (peer.deliver (some (bytes "200"))) (data.drop length) index
        transfer.clientConn (bytes "200") ended
    refine ⟨handled, _, rfl, fun _ => ⟨takes, ?_, holds⟩,
      fun _ longer => enough ?_, start.trans (stores.trans replies)⟩
    · exact lt_of_le_of_ne receivedLength_le everything
    · rw [List.length_drop]
      omega

end Transfer

end RemoteCommand
