import RemoteCommand.TransferSession

/-!
# DOWNLOAD

The client sends a file and the server stores it.  The server ends its loop
with the first piece that is no full block, and the client fails after a file
that is made of full blocks.
-/

namespace RemoteCommand

open Interaction Machine Prog Transition

namespace Transfer

def downloadMessage (transfer : Transfer) : List Byte :=
  transferMessage downloadTag transfer.source transfer.dest

/-- A download, when the client has sent the command. -/
def download (transfer : Transfer) :
    TransferSide transfer.serverCuts × TransferSide transfer.clientCuts :=
  (⟨answerRequest transfer.serverConn transfer.downloadMessage transfer.code,
      transfer.server, ([], 0), false⟩,
    ⟨awaitResponse transfer.clientConn transfer.downloadMessage,
      transfer.client.withFile transfer.source.chars transfer.content, ([], 0),
      false⟩)

end Transfer

/-! ## The server -/

section Server

variable {disk : Disk} {D : Delivery Byte}

/-- What follows the loop of the server. -/
def endDownload (conn : Int) (file : File) (code : List Byte)
    (received : Int) : Prog Sys Outcome :=
  if received ≠ ok then
    sendAnswer conn { ret := received, result := [], code }
  else
    .op (.fclose file) fun _ =>
      sendAnswer conn
        { ret := ok, result := bytes "File downloaded." ++ terminationString
          code := bytes "200" }

theorem executeDownload_eq (conn : Int) (code : List Byte) :
    (executeDownload conn [] code).bind (sendAnswer conn) =
      .op (.strtok none (bytes " ")) fun source =>
        match source with
        | none => sendAnswer conn { ret := protoErr, result := [], code }
        | some _ =>
            .op (.strtok none (bytes " ")) fun dest =>
              match dest with
              | none => sendAnswer conn { ret := protoErr, result := [], code }
              | some dest =>
                  .op (.fopen dest (bytes "wb")) fun file =>
                    match file with
                    | none =>
                        sendAnswer conn { ret := intErr, result := [], code }
                    | some file =>
                        .op (.send conn (bytes "200")) fun sent =>
                          if sent < 0 then
                            sendAnswer conn
                              { ret := connErr, result := [], code }
                          else
                            (receiveLoop conn file).bind
                              (endDownload conn file code) := by
  unfold executeDownload
  simp only [bind_eq, op_bind, pure_eq]
  congr 1
  funext source
  cases source with
  | none => rfl
  | some source =>
      simp only [op_bind, ret_bind]
      congr 1
      funext dest
      cases dest with
      | none => rfl
      | some dest =>
          simp only [op_bind]
          congr 1
          funext file
          cases file with
          | none => rfl
          | some file =>
              simp only [op_bind, ite_bind, receiveLoop, iterate_bind,
                loop_bind]
              rfl

/-- The server opens the file and says that it is ready. -/
theorem advances_answer_download (conn : Int) (source dest : Word)
    (code : List Byte) (server : Device) (inbox : D.Stream) :
    ∃ file device,
      Advances (diskHost disk)
        (⟨answerRequest conn (transferMessage downloadTag source dest) code,
          server, inbox, false⟩ : Endpoint Sys Device D Outcome)
        [bytes "200"]
        ⟨(receiveLoop conn file).bind (endDownload conn file code),
          Device.storing device file dest.chars [], inbox, false⟩ := by
  obtain ⟨memory₁, memory₂, memory₃, second, third, requested⟩ :=
    advances_answerRequest conn downloadTag source dest code server inbox
  rw [executeTag_download, executeDownload_eq] at requested
  refine ⟨server.nextFile,
    { server with memory := memory₃, nextFile := server.nextFile + 1 },
    requested.trans ?_⟩
  refine advances_call rfl (Device.answer_strtok second) ?_
  refine advances_call rfl (Device.answer_strtok third) ?_
  refine advances_call rfl (Device.fopen_storing _ _) ?_
  apply advances_send
  exact .refl _

end Server

/-! ## The client -/

section Client

variable {disk : Disk} {cutting : Cutting}

/-- What follows the loop of the client. -/
def endSending (conn : Int) (sent : Int) : Prog Sys Outcome :=
  if sent ≠ ok then
    closeConnection conn { ret := sent, result := [], code := bytes "200" }
  else
    awaitReply conn (bytes "200")

theorem handleDownload_eq (conn : Int) :
    (handleDownload conn [] (bytes "200")).bind (closeConnection conn) =
      .op (.strtok none (bytes " ")) fun filename =>
        match filename with
        | none => closeConnection conn
            { ret := protoErr, result := [], code := bytes "200" }
        | some filename =>
            .op (.fopen filename (bytes "rb")) fun file =>
              match file with
              | none => closeConnection conn
                  { ret := intErr, result := [], code := bytes "200" }
              | some file => (sendLoop conn file).bind (endSending conn) := by
  unfold handleDownload
  rw [if_pos (by decide)]
  simp only [bind_eq, op_bind, pure_eq]
  congr 1
  funext filename
  cases filename with
  | none => rfl
  | some filename =>
      simp only [op_bind, ret_bind]
      congr 1
      funext file
      cases file with
      | none => rfl
      | some file =>
          simp only [sendLoop, iterate_bind, loop_bind, ite_bind]
          rfl

/-- The client sends what it can read of the file. -/
theorem advances_await_download (conn : Int) (source dest : Word)
    {client : Device} {content : List Byte}
    (holds : client.files source.chars = some content)
    (complete : codeSize ≤ cutting.size 0) :
    ∃ blocks device, blocks.flatten = disk.readable content ∧
      Advances (diskHost disk)
        (⟨awaitResponse conn (transferMessage downloadTag source dest),
          client, (bytes "200", 0), false⟩ : TransferSide cutting)
        blocks
        ⟨endSending conn
            (if (disk.readable content).length % msgBufferSize = 0 then intErr
              else ok),
          device, ([], 1), false⟩ := by
  obtain ⟨memory₁, memory₂, _, second, _, answered⟩ :=
    @advances_awaitResponse cutting disk conn downloadTag source dest client []
  rw [limit_code complete, handleTag_download] at answered
  let device : Device :=
    { client with memory := memory₂, nextFile := client.nextFile + 1 }
  obtain ⟨blocks, reached, ended, whole, sends⟩ :=
    @advances_sendLoop disk (cutting.delivery Byte) Outcome device ([], 1)
      source.chars content (endSending conn) conn client.nextFile holds
      (disk.readable content).length 0 false (Nat.zero_add _).symm
  refine ⟨[] ++ blocks,
    device.atOffset client.nextFile source.chars reached ended, whole,
    answered.trans ?_⟩
  have code : (bytes "200" ++ []).take codeSize = bytes "200" := rfl
  rw [code, handleDownload_eq]
  refine advances_call rfl (Device.answer_strtok second) ?_
  refine advances_call rfl (@Device.fopen_atOffset
    { client with memory := memory₂ } source.chars content holds) ?_
  exact sends

end Client

/-! ## Both sides -/

section Session

variable {disk : Disk} {cutting other : Cutting} {device : Device}
  {peer : TransferSide other} {waiting code path : List Byte} {file : File}

/-- What the server sends after a download. -/
def downloaded : List (List Byte) :=
  [bytes "200", bytes "File downloaded." ++ terminationString]

/-- When the loop of the server fails, the server does. -/
theorem reaches_endDownload_failed (conn : Int) {received : Int}
    (failed : received ≠ ok) {start : TransferSide cutting} {after : Device}
    {stream : List Byte × Nat}
    (loops : Reaches (diskHost disk) (start, peer)
      (⟨endDownload conn file code received, after, stream, false⟩, peer)) :
    ∃ exec final, exec.ret = received ∧ final.1.program = .ret exec ∧
      Reaches (diskHost disk) (start, peer) final := by
  let exec : Outcome := { ret := received, result := [], code }
  rw [endDownload, if_pos failed] at loops
  have answers := @advances_sendAnswer Device (Device.answer disk)
    (cutting.delivery Byte) conn exec after stream
  exact ⟨exec, _, rfl, rfl, loops.trans (answers.left peer)⟩

/-- The server stores what it receives until a piece is no full block. -/
theorem reaches_endDownload (conn : Int)
    (idle : peer.idle (diskHost disk) false = true) :
    let length := receivedLength waiting.length cutting.size
    ¬ (FullBlocks waiting.length cutting.size ∧
      waiting.length % msgBufferSize = 0) →
    disk.Takes length →
    ∃ exec stored stream, exec.ret = ok ∧ exec.code = bytes "200" ∧
      stored.files path = some (disk.keeps (waiting.take length)) ∧
      Reaches (diskHost disk)
        ((⟨(receiveLoop conn file).bind (endDownload conn file code),
          device.storing file path [], (waiting, 0), false⟩ :
          TransferSide cutting), peer)
        (⟨.ret exec, stored, stream, true⟩, peer.deliverAll downloaded) := by
  intro length notAll takes
  let exec : Outcome :=
    { ret := ok, result := bytes "File downloaded." ++ terminationString
      code := bytes "200" }
  obtain ⟨later, loops⟩ := @reaches_receiveLoop disk Outcome Outcome device
    cutting other peer file path waiting 0 (endDownload conn file code) conn
    idle (by simpa only [Nat.zero_add] using notAll)
    (by simpa only [Nat.zero_add] using takes)
  simp only [Nat.zero_add] at loops
  let stored := (device.storing file path (waiting.take length)).fclose disk
    file
  refine ⟨exec, stored, (waiting.drop length, later), rfl, rfl,
    device.storing_fclose _ _ _, loops.trans ?_⟩
  apply Advances.left
  refine advances_call rfl rfl ?_
  exact @advances_sendAnswer Device (Device.answer disk)
    (cutting.delivery Byte) conn exec stored _

end Session

namespace Transfer

variable (transfer : Transfer)

/-- The server, when it has said that it is ready. -/
def receiving (file : File) (device : Device) (data : List Byte) :
    TransferSide transfer.serverCuts :=
  ⟨(receiveLoop transfer.serverConn file).bind
      (endDownload transfer.serverConn file transfer.code),
    device.storing file transfer.dest.chars [], (data, 0), false⟩

variable (disk : Disk)

/-- What the sender can read of the file. -/
def readable : List Byte :=
  disk.readable transfer.content

theorem download_opens :
    ∃ file device, Reaches (diskHost disk) transfer.download
      (transfer.receiving file device [],
        ⟨awaitResponse transfer.clientConn transfer.downloadMessage,
          transfer.client.withFile transfer.source.chars transfer.content,
          (bytes "200", 0), false⟩) := by
  obtain ⟨file, device, opens⟩ := @advances_answer_download disk
    (transfer.serverCuts.delivery Byte) transfer.serverConn transfer.source
    transfer.dest transfer.code transfer.server ([], 0)
  exact ⟨file, device, opens.left transfer.download.2⟩

/-- The client gives up at once, and the server stores nothing. -/
theorem download_refused (partly : transfer.clientCuts.size 0 < codeSize) :
    ∃ exec final, exec.ret ≠ ok ∧ final.1.program = .ret exec ∧
      Reaches (diskHost disk) transfer.download final := by
  obtain ⟨file, device, opens⟩ := transfer.download_opens disk
  obtain ⟨refused, client, stream, _, refuses⟩ := @advances_refused disk
    transfer.clientCuts transfer.clientConn downloadTag transfer.source
    transfer.dest (.inl rfl)
    (transfer.client.withFile transfer.source.chars transfer.content) [] partly
  obtain ⟨left, loops⟩ := @reaches_receiveLoop_end disk Outcome Outcome
    device transfer.serverCuts transfer.clientCuts
    ⟨.ret refused, client, stream, true⟩ file transfer.dest.chars [] 0
    (endDownload transfer.serverConn file transfer.code) transfer.serverConn rfl
    ⟨fun _ before => absurd before (Nat.not_lt_zero _), fun some => some.elim rfl⟩
    rfl (fun _ before => absurd before (Nat.not_lt_zero _))
  obtain ⟨exec, final, failed, returned, ends⟩ :=
    reaches_endDownload_failed transfer.serverConn
      (by decide : connErr ≠ ok) loops
  refine ⟨exec, final, ?_, returned,
    opens.trans ((refuses.right _).trans ends)⟩
  rw [failed]
  decide

/-- The client sends the file before the server receives anything. -/
theorem download_sent (complete : codeSize ≤ transfer.clientCuts.size 0) :
    ∃ file device client, Reaches (diskHost disk) transfer.download
      (transfer.receiving file device (transfer.readable disk),
        ⟨endSending transfer.clientConn
          (if (transfer.readable disk).length % msgBufferSize = 0 then intErr
            else ok),
          client, ([], 1), false⟩) := by
  obtain ⟨file, device, opens⟩ := transfer.download_opens disk
  obtain ⟨blocks, client, whole, sends⟩ := @advances_await_download disk
    transfer.clientCuts transfer.clientConn transfer.source transfer.dest
    (transfer.client.withFile transfer.source.chars transfer.content)
    transfer.content (Function.update_self _ _ _) complete
  have sent := sends.right (transfer.receiving file device [])
  rw [receiving, deliverAll_delivery, List.nil_append, whole] at sent
  exact ⟨file, device, client, opens.trans sent⟩

/-- After a file of full blocks the client fails. -/
theorem download_closed (complete : codeSize ≤ transfer.clientCuts.size 0)
    (blocks : (transfer.readable disk).length % msgBufferSize = 0) :
    ∃ file device handled client, handled.ret = intErr ∧
      Reaches (diskHost disk) transfer.download
        (transfer.receiving file device (transfer.readable disk),
          ⟨.ret handled, client, ([], 1), true⟩) := by
  obtain ⟨file, device, client, sent⟩ := transfer.download_sent disk complete
  rw [if_pos blocks] at sent
  let handled : Outcome := { ret := intErr, result := [], code := bytes "200" }
  have closes := @advances_closeConnection Device (Device.answer disk)
    (transfer.clientCuts.delivery Byte) transfer.clientConn handled client
    ([], 1)
  exact ⟨file, device, handled, client, rfl, sent.trans (closes.right _)⟩

/-- After any other file it waits for the reply. -/
theorem download_awaits (complete : codeSize ≤ transfer.clientCuts.size 0)
    (remainder : (transfer.readable disk).length % msgBufferSize ≠ 0) :
    ∃ file device client, Reaches (diskHost disk) transfer.download
      (transfer.receiving file device (transfer.readable disk),
        ⟨awaitReply transfer.clientConn (bytes "200"), client, ([], 1),
          false⟩) := by
  obtain ⟨file, device, client, sent⟩ := transfer.download_sent disk complete
  rw [if_neg remainder] at sent
  exact ⟨file, device, client, sent⟩

/-- In any case it sends nothing more. -/
theorem download_idle (complete : codeSize ≤ transfer.clientCuts.size 0) :
    ∃ file device peer, peer.idle (diskHost disk) false = true ∧
      ((transfer.readable disk).length % msgBufferSize = 0 →
        peer.closed = true) ∧
      Reaches (diskHost disk) transfer.download
        (transfer.receiving file device (transfer.readable disk), peer) := by
  by_cases blocks : (transfer.readable disk).length % msgBufferSize = 0
  · obtain ⟨file, device, handled, client, _, closed⟩ :=
      transfer.download_closed disk complete blocks
    exact ⟨file, device, _,
      Endpoint.idle_of_closed (diskHost disk) rfl false, fun _ => rfl, closed⟩
  · obtain ⟨file, device, client, awaits⟩ :=
      transfer.download_awaits disk complete blocks
    refine ⟨file, device, _, ?_, fun same => absurd same blocks, awaits⟩
    rw [awaitReply_eq]
    exact Cutting.waiting_idle rfl (by decide)

/-- The server fails when `fwrite` does, and when all pieces are full
blocks. -/
theorem download_failed (complete : codeSize ≤ transfer.clientCuts.size 0)
    (fails : ¬ disk.Takes (receivedLength (transfer.readable disk).length
        transfer.serverCuts.size) ∨
      FullBlocks (transfer.readable disk).length transfer.serverCuts.size ∧
        (transfer.readable disk).length % msgBufferSize = 0) :
    ∃ exec final, exec.ret ≠ ok ∧ final.1.program = .ret exec ∧
      Reaches (diskHost disk) transfer.download final := by
  obtain ⟨file, device, peer, idle, ended, sent⟩ :=
    transfer.download_idle disk complete
  by_cases takes : disk.Takes (receivedLength (transfer.readable disk).length
    transfer.serverCuts.size)
  · obtain ⟨full, blocks⟩ := fails.resolve_left (not_not.2 takes)
    rw [receivedLength_eq_iff.2 full] at takes
    obtain ⟨stream, loops⟩ := @reaches_receiveLoop_end disk Outcome
      Outcome device transfer.serverCuts transfer.clientCuts peer file
      transfer.dest.chars (transfer.readable disk) 0
      (endDownload transfer.serverConn file transfer.code) transfer.serverConn
      (ended blocks) (by simpa only [Nat.zero_add] using full) blocks takes
    obtain ⟨exec, final, failed, returned, ends⟩ :=
      reaches_endDownload_failed transfer.serverConn
        (by decide : connErr ≠ ok) loops
    refine ⟨exec, final, ?_, returned, sent.trans ends⟩
    rw [failed]
    decide
  · obtain ⟨after, stream, loops⟩ := @reaches_receiveLoop_refused disk Outcome
      Outcome device transfer.serverCuts transfer.clientCuts peer file
      transfer.dest.chars (transfer.readable disk) 0
      (endDownload transfer.serverConn file transfer.code) transfer.serverConn
      idle (by simpa only [Nat.zero_add] using takes)
    obtain ⟨exec, final, failed, returned, ends⟩ :=
      reaches_endDownload_failed transfer.serverConn
        (by decide : intErr ≠ ok) loops
    refine ⟨exec, final, ?_, returned, sent.trans ends⟩
    rw [failed]
    decide

/-- Otherwise it succeeds and has what the disk keeps of what it received. -/
theorem download_stores (complete : codeSize ≤ transfer.clientCuts.size 0)
    (notAll : ¬ (FullBlocks (transfer.readable disk).length
        transfer.serverCuts.size ∧
      (transfer.readable disk).length % msgBufferSize = 0))
    (takes : disk.Takes (receivedLength (transfer.readable disk).length
      transfer.serverCuts.size)) :
    ∃ exec final, exec.ret = ok ∧ exec.code = bytes "200" ∧
      final.1.program = .ret exec ∧
      final.1.host.files transfer.dest.chars =
        some (disk.keeps ((transfer.readable disk).take
          (receivedLength (transfer.readable disk).length
            transfer.serverCuts.size))) ∧
      Reaches (diskHost disk) transfer.download final := by
  obtain ⟨file, device, peer, idle, _, sent⟩ :=
    transfer.download_idle disk complete
  obtain ⟨exec, stored, stream, succeeds, code, holds, stores⟩ :=
    @reaches_endDownload disk transfer.serverCuts transfer.clientCuts device
      peer (transfer.readable disk) transfer.code transfer.dest.chars file
      transfer.serverConn idle notAll takes
  exact ⟨exec, _, succeeds, code, rfl, holds, sent.trans stores⟩

/-- A file that is not made of full blocks and arrives in full blocks, on sound
disks: both sides succeed. -/
theorem download_stored (complete : codeSize ≤ transfer.clientCuts.size 0)
    (remainder : transfer.content.length % msgBufferSize ≠ 0)
    (full : FullBlocks transfer.content.length transfer.serverCuts.size) :
    ∃ exec handled final, exec.ret = ok ∧ handled.ret = ok ∧
      final.1.program = .ret exec ∧ final.2.program = .ret handled ∧
      final.1.host.files transfer.dest.chars = some transfer.content ∧
      Reaches deviceHost transfer.download final := by
  obtain ⟨file, device, client, awaits⟩ :=
    transfer.download_awaits .sound complete remainder
  let peer : TransferSide transfer.clientCuts :=
    ⟨awaitReply transfer.clientConn (bytes "200"), client, ([], 1), false⟩
  have idle : peer.idle (diskHost .sound) false = true := by
    simp only [peer, awaitReply_eq]
    exact Cutting.waiting_idle rfl (by decide)
  obtain ⟨exec, stored, stream, succeeds, _, holds, stores⟩ :=
    @reaches_endDownload .sound transfer.serverCuts transfer.clientCuts device
      peer transfer.content transfer.code transfer.dest.chars file
      transfer.serverConn idle (fun all => remainder all.2)
      (Disk.sound_takes _)
  replace holds : stored.files transfer.dest.chars =
      some (transfer.content.take (receivedLength transfer.content.length
        transfer.serverCuts.size)) := holds
  rw [receivedLength_eq_iff.2 full, List.take_length] at holds
  rw [deliverAll_delivery] at stores
  obtain ⟨handled, left, replies, enough⟩ :=
    @reaches_awaitReply Device Outcome (Device.answer .sound)
      transfer.clientCuts transfer.serverCuts client
      ⟨.ret exec, stored, stream, true⟩ ([] ++ downloaded.flatten) 1
      transfer.clientConn (bytes "200") rfl
  exact ⟨exec, handled, _, succeeds, enough (by decide), rfl, rfl, holds,
    awaits.trans (stores.trans replies.swap)⟩

/-! ## Truncation -/

/-- When the server returns `OK` with code 200, it has the file. -/
def DownloadFaithful : Prop :=
  Yields (diskHost disk) transfer.download fun exec server =>
    exec.ret = ok ∧ exec.code = bytes "200" →
      server.files transfer.dest.chars = some transfer.content

/-- Of a part of a part of a file, all is there only if both parts are the
whole. -/
theorem keeps_take_eq_iff {length : Nat}
    (within : length ≤ (transfer.readable disk).length) :
    disk.keeps ((transfer.readable disk).take length) = transfer.content ↔
      length = (transfer.readable disk).length ∧
        transfer.readable disk = transfer.content ∧
          disk.keeps transfer.content = transfer.content := by
  have kept := (disk.keeps_prefix ((transfer.readable disk).take length))
  have read := disk.readable_prefix transfer.content
  constructor
  · intro same
    rw [same] at kept
    have lengths := kept.length_le
    rw [List.length_take_of_le within] at lengths
    have whole : transfer.readable disk = transfer.content :=
      read.eq_of_length_le (lengths.trans within)
    have all : length = (transfer.readable disk).length :=
      Nat.le_antisymm within (whole ▸ lengths)
    rw [all, List.take_length, whole] at same
    exact ⟨all, whole, same⟩
  · rintro ⟨rfl, whole, keeps⟩
    rw [List.take_length, whole, keeps]

/-- The condition under which a download is faithful. -/
theorem downloadFaithful_iff :
    transfer.DownloadFaithful disk ↔
      transfer.clientCuts.size 0 < codeSize ∨
      ¬ disk.Takes (receivedLength (transfer.readable disk).length
        transfer.serverCuts.size) ∨
      FullBlocks (transfer.readable disk).length transfer.serverCuts.size ∧
        ((transfer.readable disk).length % msgBufferSize = 0 ∨
          transfer.readable disk = transfer.content ∧
            disk.keeps transfer.content = transfer.content) := by
  by_cases partly : transfer.clientCuts.size 0 < codeSize
  · obtain ⟨exec, final, failed, returned, reaches⟩ :=
      transfer.download_refused disk partly
    refine iff_of_true (reaches.yields returned ?_) (.inl partly)
    exact fun succeeds => absurd succeeds.1 failed
  have complete := Nat.le_of_not_lt partly
  by_cases fails : ¬ disk.Takes (receivedLength
      (transfer.readable disk).length transfer.serverCuts.size) ∨
    FullBlocks (transfer.readable disk).length transfer.serverCuts.size ∧
      (transfer.readable disk).length % msgBufferSize = 0
  · obtain ⟨exec, final, failed, returned, reaches⟩ :=
      transfer.download_failed disk complete fails
    refine iff_of_true (reaches.yields returned ?_) (.inr ?_)
    · exact fun succeeds => absurd succeeds.1 failed
    · exact fails.imp id fun ⟨full, blocks⟩ => ⟨full, .inl blocks⟩
  obtain ⟨takes, notAll⟩ := not_or.1 fails
  obtain ⟨exec, final, succeeds, code, returned, holds, reaches⟩ :=
    transfer.download_stores disk complete notAll (not_not.1 takes)
  have stored : transfer.DownloadFaithful disk ↔
      disk.keeps ((transfer.readable disk).take (receivedLength
        (transfer.readable disk).length transfer.serverCuts.size)) =
          transfer.content := by
    constructor
    · intro faithful
      have whole := faithful final reaches exec returned ⟨succeeds, code⟩
      rwa [holds, Option.some.injEq] at whole
    · intro whole
      refine reaches.yields returned fun _ => ?_
      rw [holds, whole]
  rw [stored, transfer.keeps_take_eq_iff disk receivedLength_le,
    receivedLength_eq_iff]
  simp only [partly, takes, false_or]
  refine and_congr_right fun full => ?_
  rw [or_iff_right fun blocks => notAll ⟨full, blocks⟩]

/-! ## Completeness -/

/-- Every schedule is bounded and leads to the end, where both sides have
returned `OK` and the server has the file. -/
def DownloadCompletes : Prop :=
  ∃ steps final exec handled,
    final.1.program = .ret exec ∧ final.2.program = .ret handled ∧
    exec.ret = ok ∧ handled.ret = ok ∧
    final.1.host.files transfer.dest.chars = some transfer.content ∧
    ∀ schedule reached,
      (session deviceHost (transfer.serverCuts.delivery Byte)
        (transfer.clientCuts.delivery Byte) Outcome Outcome).run
          transfer.download schedule = some reached →
      ∃ rest,
        (session deviceHost (transfer.serverCuts.delivery Byte)
          (transfer.clientCuts.delivery Byte) Outcome Outcome).run
            reached rest = some final ∧
        schedule.length + rest.length = steps

theorem not_downloadCompletes
    (complete : codeSize ≤ transfer.clientCuts.size 0)
    (blocks : transfer.content.length % msgBufferSize = 0) :
    ¬ transfer.DownloadCompletes := by
  rintro ⟨steps, final, exec, handled, _, returned, _, succeeds, _, completes⟩
  obtain ⟨file, device, failed, client, fails, closed⟩ :=
    transfer.download_closed .sound complete blocks
  obtain ⟨rest, ran, _⟩ := completes [] transfer.download rfl
  have ends : Reaches deviceHost transfer.download final := ⟨rest, ran⟩
  have same := (finished_unique closed.swap ends.swap rfl returned).1
  rw [same, fails] at succeeds
  exact absurd succeeds (by decide)

/-- The transfer when a receive gets what it asks for, or all there is before
the sender waits or closes. -/
def uncut : Transfer :=
  { transfer with serverCuts := blockCuts, clientCuts := blockCuts }

/-- On such a connection a download completes unless the file is made of full
blocks. -/
theorem download_completes_iff :
    transfer.uncut.DownloadCompletes ↔
      transfer.content.length % msgBufferSize ≠ 0 := by
  have complete : codeSize ≤ transfer.uncut.clientCuts.size 0 :=
    (by decide : codeSize ≤ msgBufferSize)
  constructor
  · intro completes blocks
    exact transfer.uncut.not_downloadCompletes complete blocks completes
  · intro remainder
    have full : FullBlocks transfer.uncut.content.length
        transfer.uncut.serverCuts.size :=
      ⟨fun _ _ => le_rfl, fun _ => (Nat.mod_lt _ (by decide)).le⟩
    obtain ⟨exec, handled, final, serves, handles, returned, finished, holds,
      reaches⟩ := transfer.uncut.download_stored complete remainder full
    obtain ⟨steps, completes⟩ := reaches.completes returned finished
    exact ⟨steps, final, exec, handled, returned, finished, serves, handles,
      holds, completes⟩

end Transfer

/-! ## An empty file -/

/-- The file `a` of a client goes to the file `b` of a server. -/
def sampleTransfer (content : List Byte) (cuts : Cutting) : Transfer where
  source := ⟨bytes "a", by decide, by decide⟩
  dest := ⟨bytes "b", by decide, by decide⟩
  content
  serverConn := 4
  clientConn := 3
  code := []
  server := .bare
  client := .bare
  serverCuts := cuts
  clientCuts := cuts

theorem empty_download_fails :
    ¬ (sampleTransfer [] Transfer.blockCuts).uncut.DownloadCompletes :=
  (sampleTransfer [] Transfer.blockCuts).uncut.not_downloadCompletes
    (by decide : codeSize ≤ msgBufferSize) rfl

end RemoteCommand
