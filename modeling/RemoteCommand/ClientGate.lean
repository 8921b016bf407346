import RemoteCommand.AuthenticationSession
import RemoteCommand.Client
import RemoteCommand.Interaction.Monitor
import RemoteCommand.StreamLeak
import RemoteCommand.TokenSecrecy

/-!
# What the client sends, and when

A monitor for the connection of the client, with the stage of the session.  The
client sends `HELO`, then an AUTH message when it has read `300`, then its
command when it has read the verdict 200, and more only when the server has
answered the command with `200`, up to a `send` that fails or a `recv` that gets
nothing.  It reads the answers of the server and the challenge, which `recv_long`
reads on for whatever `recv` answers, and behind the code `300` one result.  It
closes the connection once, at the end.
-/

namespace RemoteCommand

open Interaction Machine Prog

/-! ## What an AUTH message tells -/

/-- The exclusive or of the two numbers. -/
def revealed (message : List Byte) : Option (BitVec 64) :=
  match authFields message with
  | some (auth, enc1, enc2) =>
      if auth = bytes "AUTH" then some (strtoull enc1 ^^^ strtoull enc2)
      else none
  | none => none

/-- It is the token with which the server accepts the message. -/
theorem revealed_eq_some_iff {message : List Byte} {token : BitVec 64} :
    revealed message = some token ↔ Accepts token message := by
  cases fields : authFields message with
  | none =>
      simp only [revealed, fields, reduceCtorEq, false_iff]
      exact not_accepts fields
  | some parts =>
      obtain ⟨auth, enc1, enc2⟩ := parts
      rw [accepts_iff_fields fields]
      simp only [revealed, fields, Option.ite_none_right_eq_some,
        Option.some.injEq]

theorem revealed_authMessage (enc1 enc2 : BitVec 64) :
    revealed (authMessage enc1 enc2) = some (enc1 ^^^ enc2) := by
  obtain ⟨field1, field2, fields, rfl, rfl⟩ := authFields_authMessage enc1 enc2
  simp only [revealed, fields, if_true]

/-! ## The stages of a session -/

inductive ClientStage where
  | connected
  /-- `HELO` is sent -/
  | greeted
  /-- the server has answered `300` -/
  | challenged
  /-- an AUTH message is sent, and it tells the token of the server -/
  | answered
  /-- the verdict is 200 -/
  | admitted
  /-- the command is sent -/
  | commanded
  /-- the server has answered the command with `200`, and no `send` has failed and
  no `recv` got nothing since -/
  | granted
  /-- it has answered with `300`, and a result is to be read -/
  | executed
  /-- an error, another answer, or behind the result: nothing is sent or read
  any more -/
  | refused
  | closed
  deriving DecidableEq, Repr

namespace ClientStage

/-- Behind a `send`: an error refuses. -/
def sent (result : Int) (next : ClientStage) : ClientStage :=
  if result < 0 then refused else next

/-- Behind a `recv`: an answer without the `expected` form refuses. -/
def answer {length : Nat} (expected : List Byte → Bool)
    (next : ClientStage) : Received length → ClientStage
  | .data chars _ _ => if expected chars then next else refused
  | .closed | .error => refused

def isCode (code : List Byte) (response : List Byte) : Bool :=
  strcmp response code = 0

/-- Behind the code that answers the command. -/
def replied {length : Nat} : Received length → ClientStage
  | .data code _ _ =>
      if isCode (bytes "200") code then granted
      else if isCode (bytes "300") code then executed
      else refused
  | .closed | .error => refused

/-- The rule for one event. -/
def step (conn : Int) (serverToken : BitVec 64) (cmd : List Byte)
    (stage : ClientStage) : Event Sys → Option ClientStage
  | ⟨.send other data, result⟩ =>
      if other ≠ conn then none
      else match stage with
      | connected =>
          if data = bytes "HELO" then some (sent result greeted) else none
      | challenged =>
          if revealed data = some serverToken then some (sent result answered)
          else none
      | admitted =>
          if data = cstr cmd then some (sent result commanded) else none
      | granted => some (sent result granted)
      | _ => none
  | ⟨.recv other _ _, response⟩ =>
      if other ≠ conn then none
      else match stage with
      | greeted => some (answer (isCode (bytes "300")) challenged response)
      | challenged => some challenged
      | answered =>
          some (answer (fun response => atoi response = 200) admitted response)
      | commanded => some (replied response)
      | granted => some (answer (fun _ => true) granted response)
      | executed => some refused
      | _ => none
  | ⟨.close other, _⟩ =>
      if other = conn ∧ stage ≠ closed then some closed else none
  | _ => some stage

def monitor (conn : Int) (serverToken : BitVec 64) (cmd : List Byte) :
    Monitor Sys ClientStage where
  step := step conn serverToken cmd

section Stages

variable {conn : Int} {serverToken : BitVec 64} {cmd : List Byte}

/-- A part of the session with calls that leave a stage. -/
theorem stays_keeps {α : Type} {program : Prog Sys α} {allowed : Call → Prop}
    {stage : ClientStage}
    (stays : ∀ call response, allowed call →
      step conn serverToken cmd stage ⟨call, response⟩ = some stage)
    (within : program.Only allowed) :
    program.Keeps (monitor conn serverToken cmd) stage fun _ after =>
      after = stage := by
  refine Keeps.of_only (fun current call response holds isAllowed => ?_)
    within rfl
  rw [holds]
  exact ⟨stage, stays call response isAllowed, rfl⟩

/-- The calls of `recv_long`. -/
def Call.OfReceiving (conn : Int) : Call → Prop
  | .recv other _ _ => other = conn
  | .indeterminate => True
  | _ => False

theorem recvLongLoop_receiving (conn : Int) (nVal : Nat → Byte) :
    (recvLongLoop conn nVal).Only (Call.OfReceiving conn) := by
  refine ⟨?_, fun nVal => trivial⟩
  rintro ⟨recvBytes, nVal⟩
  refine .ite ⟨rfl, fun response => ?_⟩ trivial
  cases response <;> trivial

theorem closeConnection_keeps {stage : ClientStage} (handled : Outcome)
    (isOpen : stage ≠ closed) :
    (closeConnection conn handled).Keeps (monitor conn serverToken cmd) stage
      fun _ after => after = closed :=
  fun _ => ⟨closed, if_pos ⟨rfl, isOpen⟩, rfl⟩

theorem sent_of_neg {result : Int} (failed : result < 0)
    (next : ClientStage) : sent result next = refused :=
  if_pos failed

theorem sent_of_not_neg {result : Int} (succeeded : ¬ result < 0)
    (next : ClientStage) : sent result next = next :=
  if_neg succeeded

theorem recvLong_stays (call : Call) (response : call.Answer)
    (receiving : Call.OfReceiving conn call) :
    step conn serverToken cmd challenged ⟨call, response⟩ = some challenged := by
  cases call with
  | recv other offset length =>
      cases receiving
      simp [step]
  | indeterminate => rfl
  | _ => cases receiving

theorem recvLong_keeps (host : Endian) :
    (recvLong host conn).Keeps (monitor conn serverToken cmd) challenged
      fun received after => received.1 = 0 ∧ after = challenged := by
  refine fun stale => ⟨challenged, rfl, ?_⟩
  change ((recvLongLoop conn _).bind _).Keeps _ _ _
  exact (stays_keeps recvLong_stays (recvLongLoop_receiving conn _)).seq
    fun nVal after same => ⟨rfl, same⟩

/-- What `authenticate_server` returns, and the stage that it leaves. -/
def Authenticated (ret : Int) (stage : ClientStage) : Prop :=
  ret = ok ∧ stage = admitted ∨
    (ret = authFail ∨ ret = connErr ∨ ret = protoErr) ∧ stage = refused

theorem authenticateServer_keeps (host : Endian) (clientToken : BitVec 64) :
    (authenticateServer host conn serverToken clientToken).Keeps
      (monitor conn serverToken cmd) connected Authenticated := by
  have connection : Authenticated connErr refused :=
    .inr ⟨.inr (.inl rfl), rfl⟩
  have wrong {ret : Int} (isError : ret = authFail ∨ ret = connErr ∨
      ret = protoErr) : Authenticated ret refused := .inr ⟨isError, rfl⟩
  refine fun sending => ⟨_, if_neg (not_not_intro rfl), ?_⟩
  refine .ite (fun failed => ?_) fun succeeded => ?_
  · rw [sent_of_neg failed]
    exact connection
  rw [sent_of_not_neg succeeded]
  refine fun greeting => ⟨_, if_neg (not_not_intro rfl), ?_⟩
  cases greeting with
  | closed => exact connection
  | error => exact connection
  | data response nonempty fits =>
  refine .ite (fun other => ?_) fun same => ?_
  · have stage : answer (isCode (bytes "300")) challenged
        (.data response nonempty fits) = refused :=
      if_neg fun isCode => other (of_decide_eq_true isCode)
    rw [stage]
    exact wrong (.inr (.inr rfl))
  have stage : answer (isCode (bytes "300")) challenged
      (.data response nonempty fits) = challenged :=
    if_pos (decide_eq_true (not_not.mp same))
  rw [stage]
  change ((recvLong host conn).bind _).Keeps _ _ _
  refine (recvLong_keeps host).seq ?_
  rintro ⟨ret, xor⟩ after ⟨returned, here⟩
  subst here
  cases returned
  refine .ite (fun failed => absurd failed (by decide)) fun _ => ?_
  have token : revealed (bytes "AUTH " ++ decimal (xor ^^^ clientToken).toNat ++
      bytes " " ++ decimal (xor ^^^ serverToken ^^^ clientToken).toNat) =
      some serverToken := by
    have cancelled := enc_xor xor serverToken clientToken 0
    have told := revealed_authMessage (xor ^^^ clientToken)
      (xor ^^^ serverToken ^^^ clientToken)
    rw [authMessage] at told
    rw [told]
    simpa using cancelled
  refine fun sending => ⟨_, (if_neg (not_not_intro rfl)).trans (if_pos token), ?_⟩
  refine .ite (fun failed => ?_) fun succeeded => ?_
  · rw [sent_of_neg failed]
    exact connection
  rw [sent_of_not_neg succeeded]
  refine fun verdict => ⟨_, if_neg (not_not_intro rfl), ?_⟩
  cases verdict with
  | closed => exact connection
  | error => exact connection
  | data response nonempty fits =>
  refine .ite (fun accepted => .inl ⟨rfl, ?_⟩) fun other => .inr ⟨.inl rfl, ?_⟩
  · exact if_pos (decide_eq_true accepted)
  · exact if_neg fun accepted => other (of_decide_eq_true accepted)

/-! ### The response -/

/-- Behind `handle_response`. -/
def Answered (stage : ClientStage) : Prop :=
  stage ≠ closed

theorem granted_answered : Answered granted :=
  (by decide : granted ≠ closed)

theorem executed_answered : Answered executed :=
  (by decide : executed ≠ closed)

theorem refused_answered : Answered refused :=
  (by decide : refused ≠ closed)

/-- How a loop of a transfer ends. -/
def Transferred (ret : Int) (stage : ClientStage) : Prop :=
  ret = ok ∧ stage = granted ∨ ret ≠ ok ∧ Answered stage

theorem sendLoop_granted (file : File) :
    (sendLoop conn file).Keeps (monitor conn serverToken cmd) granted
      Transferred := by
  have failed {ret : Int} (isError : ret ≠ ok) : Transferred ret granted :=
    .inr ⟨isError, granted_answered⟩
  have sending (chars : List Byte) :
      (Prog.op (.send conn chars) fun result => if result < 0 then
          .ret (.inr connErr) else .ret (.inl (chars.length : Int))
          : Prog Sys (Int ⊕ Int)).Keeps (monitor conn serverToken cmd) granted
        fun result after => result.elim (fun _ => after = granted) fun ret =>
          Transferred ret after := by
    refine fun result => ⟨_, if_neg (not_not_intro rfl), ?_⟩
    refine .ite (fun failed => ?_) fun succeeded => ?_
    · rw [sent_of_neg failed]
      exact .inr ⟨by decide, refused_answered⟩
    · exact sent_of_not_neg succeeded granted
  refine Keeps.iterate (fun _ stage => stage = granted) rfl ?_
  rintro charsRead _ rfl
  refine .ite (fun _ buffer => ⟨_, rfl, ?_⟩) fun _ => .inl ⟨rfl, rfl⟩
  refine .ite (fun _ error => ⟨_, rfl, ?_⟩) fun _ => sending _
  refine .ite (fun _ => failed (by decide)) fun _ ended => ⟨_, rfl, ?_⟩
  exact .ite (fun _ => failed (by decide)) fun _ => sending _

theorem receiveLoop_granted (file : File) :
    (receiveLoop conn file).Keeps (monitor conn serverToken cmd) granted
      Transferred := by
  refine Keeps.iterate (fun _ stage => stage = granted) rfl ?_
  rintro recvBytes _ rfl
  refine .ite (fun _ received => ⟨_, if_neg (not_not_intro rfl), ?_⟩)
    fun _ => .inl ⟨rfl, rfl⟩
  cases received with
  | error => exact fun _ => ⟨_, rfl, .inr ⟨by decide, refused_answered⟩⟩
  | closed => exact fun _ => ⟨_, rfl, .inr ⟨by decide, refused_answered⟩⟩
  | data buffer nonempty fits =>
      refine fun written => ⟨_, rfl, .ite (fun _ => ?_) fun _ => rfl⟩
      exact fun _ => ⟨_, rfl, .inr ⟨by decide, granted_answered⟩⟩

theorem receiveReply_granted (response code : List Byte) :
    (receiveReply conn response code).Keeps (monitor conn serverToken cmd)
      granted fun _ after => Answered after := by
  refine fun code => ⟨_, if_neg (not_not_intro rfl), ?_⟩
  cases code with
  | closed => exact refused_answered
  | error => exact refused_answered
  | data chars nonempty fits =>
  refine fun result => ⟨_, if_neg (not_not_intro rfl), ?_⟩
  cases result with
  | closed => exact refused_answered
  | error => exact refused_answered
  | data => exact granted_answered

theorem handleResult_granted (response code : List Byte) :
    (handleResult conn response code).Keeps (monitor conn serverToken cmd)
      granted fun _ after => Answered after := by
  refine .ite (fun _ result => ?_) fun _ => granted_answered
  refine ⟨_, if_neg (not_not_intro rfl), ?_⟩
  cases result with
  | closed => exact refused_answered
  | error => exact refused_answered
  | data => exact granted_answered

theorem handleDownload_granted (response code : List Byte) :
    (handleDownload conn response code).Keeps (monitor conn serverToken cmd)
      granted fun _ after => Answered after := by
  refine .ite (fun _ filename => ⟨_, rfl, ?_⟩) fun _ => granted_answered
  cases filename with
  | none => exact granted_answered
  | some filename =>
  refine fun file => ⟨_, rfl, ?_⟩
  cases file with
  | none => exact granted_answered
  | some file =>
  change ((sendLoop conn file).bind _).Keeps _ _ _
  refine (sendLoop_granted file).seq ?_
  rintro ret stage (⟨rfl, rfl⟩ | ⟨isError, answered⟩)
  · exact .ite (fun failed => absurd rfl failed) fun _ =>
      receiveReply_granted response code
  · exact .ite (fun _ => answered) fun noError => absurd isError noError

theorem handleUpload_granted (response code : List Byte) :
    (handleUpload conn response code).Keeps (monitor conn serverToken cmd)
      granted fun _ after => Answered after := by
  refine .ite (fun _ source => ⟨_, rfl, ?_⟩) fun _ => granted_answered
  cases source with
  | none => exact granted_answered
  | some source =>
  refine fun dest => ⟨_, rfl, ?_⟩
  cases dest with
  | none => exact granted_answered
  | some dest =>
  refine fun file => ⟨_, rfl, ?_⟩
  cases file with
  | none => exact granted_answered
  | some file =>
  change ((receiveLoop conn file).bind _).Keeps _ _ _
  refine (receiveLoop_granted file).seq ?_
  rintro ret stage (⟨rfl, rfl⟩ | ⟨isError, answered⟩)
  · refine .ite (fun failed => absurd rfl failed) fun _ _ => ⟨_, rfl, ?_⟩
    refine fun confirming => ⟨_, if_neg (not_not_intro rfl), ?_⟩
    refine .ite (fun failed => ?_) fun succeeded => ?_
    · rw [sent_of_neg failed]
      exact refused_answered
    · rw [sent_of_not_neg succeeded]
      exact receiveReply_granted response code
  · exact .ite (fun _ => answered) fun noError => absurd isError noError

/-- The result is read once. -/
theorem handleResult_executed (response code : List Byte) :
    (handleResult conn response code).Keeps (monitor conn serverToken cmd)
      executed fun _ after => Answered after := by
  refine .ite (fun _ => ?_) fun _ => executed_answered
  refine fun result => ⟨refused, if_neg (not_not_intro rfl), ?_⟩
  cases result <;> exact refused_answered

/-- Without its code a command is over. -/
theorem handleResult_refused {stage : ClientStage} {response code : List Byte}
    (fails : ¬ strcmp code (bytes "300") = 0) (answered : Answered stage) :
    (handleResult conn response code).Keeps (monitor conn serverToken cmd)
      stage fun _ after => Answered after := by
  unfold handleResult
  rw [if_neg fails]
  exact answered

theorem handleDownload_refused {stage : ClientStage}
    {response code : List Byte} (fails : ¬ strcmp code (bytes "200") = 0)
    (answered : Answered stage) :
    (handleDownload conn response code).Keeps (monitor conn serverToken cmd)
      stage fun _ after => Answered after := by
  unfold handleDownload
  rw [if_neg fails]
  exact answered

theorem handleUpload_refused {stage : ClientStage} {response code : List Byte}
    (fails : ¬ strcmp code (bytes "200") = 0) (answered : Answered stage) :
    (handleUpload conn response code).Keeps (monitor conn serverToken cmd)
      stage fun _ after => Answered after := by
  unfold handleUpload
  rw [if_neg fails]
  exact answered

theorem handleResponse_keeps :
    (handleResponse conn [] []).Keeps (monitor conn serverToken cmd) commanded
      fun _ after => Answered after := by
  refine fun answering => ⟨_, if_neg (not_not_intro rfl), ?_⟩
  cases answering with
  | closed => exact refused_answered
  | error => exact refused_answered
  | data code nonempty fits =>
  have whole : overwrite code [] = code := by simp [overwrite]
  by_cases success : strcmp code (bytes "200") = 0
  · have stage : replied (.data code nonempty fits) = granted :=
      if_pos (decide_eq_true success)
    rw [stage]
    refine fun tag => ⟨granted, rfl, ?_⟩
    cases tag with
    | none => exact granted_answered
    | some tag =>
    refine .ite (fun _ => ?_) fun _ => .ite (fun _ => ?_) fun _ =>
      .ite (fun _ => ?_) fun _ => granted_answered
    · exact handleResult_granted _ _
    · exact handleDownload_granted _ _
    · exact handleUpload_granted _ _
  have noTransfer : ¬ isCode (bytes "200") code = true := fun isCode =>
    success (of_decide_eq_true isCode)
  by_cases result : strcmp code (bytes "300") = 0
  · have stage : replied (.data code nonempty fits) = executed :=
      (if_neg noTransfer).trans (if_pos (decide_eq_true result))
    rw [stage]
    rw [← whole] at success
    refine fun tag => ⟨executed, rfl, ?_⟩
    cases tag with
    | none => exact executed_answered
    | some tag =>
    refine .ite (fun _ => ?_) fun _ => .ite (fun _ => ?_) fun _ =>
      .ite (fun _ => ?_) fun _ => executed_answered
    · exact handleResult_executed _ _
    · exact handleDownload_refused success executed_answered
    · exact handleUpload_refused success executed_answered
  · have stage : replied (.data code nonempty fits) = refused :=
      (if_neg noTransfer).trans
        (if_neg fun isCode => result (of_decide_eq_true isCode))
    rw [stage]
    rw [← whole] at success result
    refine fun tag => ⟨refused, rfl, ?_⟩
    cases tag with
    | none => exact refused_answered
    | some tag =>
    refine .ite (fun _ => ?_) fun _ => .ite (fun _ => ?_) fun _ =>
      .ite (fun _ => ?_) fun _ => refused_answered
    · exact handleResult_refused result refused_answered
    · exact handleDownload_refused success refused_answered
    · exact handleUpload_refused success refused_answered

/-! ### The session -/

theorem runCommand_keeps (host : Endian) (clientToken : BitVec 64) :
    (runCommand host conn serverToken clientToken cmd).Keeps
      (monitor conn serverToken cmd) connected fun _ after => after = closed := by
  refine (authenticateServer_keeps host clientToken).seq ?_
  rintro auth stage authenticated
  refine .ite (fun isError => ?_) fun noError => ?_
  · refine closeConnection_keeps _ ?_
    rcases authenticated with ⟨_, rfl⟩ | ⟨_, rfl⟩ <;> decide
  · rcases authenticated with ⟨_, rfl⟩ | ⟨isError, _⟩
    rotate_left
    · exact absurd isError noError
    refine fun sending => ⟨_, (if_neg (not_not_intro rfl)).trans (if_pos rfl), ?_⟩
    refine .ite (fun failed => ?_) fun succeeded => ?_
    · rw [sent_of_neg failed]
      exact closeConnection_keeps _ (by decide)
    rw [sent_of_not_neg succeeded]
    refine fun _ => ⟨commanded, rfl, ?_⟩
    change ((handleResponse conn [] []).bind _).Keeps _ _ _
    exact handleResponse_keeps.seq fun handled stage isOpen =>
      closeConnection_keeps _ isOpen

end Stages

end ClientStage

open ClientStage in
/-- The client keeps to the protocol, whatever the peer answers and whatever
calls fail, in every run of `main` behind `connect`.  It sends `HELO` first; an
AUTH message only when the peer has said `300`; its command only when the
verdict was 200; and anything more only when the peer has answered the command
with `200`, up to a `send` that fails or a `recv` that gets nothing.  It reads
nothing behind an answer that it does not go on from, and a single result behind
the code `300`.  When `main` returns, the connection has been closed once, with
nothing sent or read behind that.  The AUTH message tells the token of the
server, to whoever has sent the `300`. -/
theorem client_follows_protocol {host : Endian} {conn : Int}
    {serverToken clientToken : BitVec 64} {cmd : List Byte}
    {trace : List (Event Sys)} {outcome : Option Outcome}
    (run : Runs unconstrained
      (runCommand host conn serverToken clientToken cmd) () trace outcome ()) :
    ∃ stage,
      (monitor conn serverToken cmd).run connected trace = some stage ∧
        (∀ handled, outcome = some handled → stage = .closed) :=
  (ClientStage.runCommand_keeps host clientToken).accepts run

open ClientStage in
theorem client_follows_protocol_brokenDownload :
    ∃ stage,
      (monitor 3 0 (bytes "DOWNLOAD a b")).run connected brokenDownload =
        some stage ∧ stage = .closed := by
  have run : Runs unconstrained
      (runCommand .little 3 0 0 (bytes "DOWNLOAD a b")) () brokenDownload
      (some { ret := connErr, result := [], code := bytes "200" }) () :=
    .ofReplayUnconstrained 60 (by decide)
  obtain ⟨stage, accepted, ends⟩ := client_follows_protocol run
  exact ⟨stage, accepted, ends _ rfl⟩

/-! ## A peer without the token -/

/-- A run of the client with a peer that answers with any number. -/
theorem authenticateServer_believes (host : Endian) (conn : Int)
    (serverToken clientToken number : BitVec 64) (memory : Strtok Buffer) :
    ∃ trace,
      Runs anyOutcome (authenticateServer host conn serverToken clientToken)
        memory trace (some ok) memory ∧
      received conn trace =
        [some (bytes "300"), some (bigEndian number), some (bytes "200")] ∧
      sent conn trace = [bytes "HELO", authMessage (number ^^^ clientToken)
        (number ^^^ serverToken ^^^ clientToken)] := by
  obtain ⟨receiving, run, silent, results⟩ :=
    recvLong_runs host conn number memory
  refine ⟨⟨.send conn (bytes "HELO"), (4 : Int)⟩ ::
    ⟨.recv conn 0 codeSize, codeAnswer (bytes "300") (by decide)⟩ ::
    (receiving ++
      [⟨.send conn (authMessage (number ^^^ clientToken)
          (number ^^^ serverToken ^^^ clientToken)), (0 : Int)⟩,
        ⟨.recv conn 0 codeSize, codeAnswer (bytes "200") (by decide)⟩]),
    ?_, ?_, ?_⟩
  · unfold authenticateServer
    simp only [bind_eq, op_bind, ret_bind, pure_eq]
    refine .op rfl ?_
    rw [if_neg (by decide)]
    refine .op rfl ?_
    dsimp only [codeAnswer]
    rw [if_neg (by decide)]
    refine run.bind ?_
    dsimp only
    rw [if_neg (by decide)]
    refine .op rfl ?_
    rw [if_neg (by decide)]
    refine .op rfl ?_
    dsimp only [codeAnswer]
    rw [if_pos (by decide)]
    exact .ret _ _
  · simp [receivedBy, results, codeAnswer]
  · simp [sentBy, silent]

/-- The client does not authenticate the server.  A peer that knows no token, and
answers with `300`, any eight bytes and `200`, is taken for the server; and the
AUTH message that it gets from the client tells it the token, and is accepted by
the server itself in a session with any challenge. -/
theorem impostor_succeeds (clientHost : Endian) (conn : Int)
    (serverToken clientToken number : BitVec 64) (memory : Strtok Buffer) :
    ∃ trace message,
      Runs anyOutcome
        (authenticateServer clientHost conn serverToken clientToken) memory trace
        (some ok) memory ∧
      received conn trace =
        [some (bytes "300"), some (bigEndian number), some (bytes "200")] ∧
      sent conn trace = [bytes "HELO", message] ∧
      revealed message = some serverToken ∧
      ∀ (serverHost : Endian) (other : Int) (challenge : BitVec 64)
        (memory' : Strtok Buffer), ∃ trace' after,
          Runs anyOutcome (authenticateClient serverHost other serverToken)
            memory' trace' (some ok) after ∧
          drawn (randoms trace') = challenge ∧
          received other trace' = [some (bytes "HELO"), some message] := by
  obtain ⟨trace, run, results, messages⟩ := authenticateServer_believes
    clientHost conn serverToken clientToken number memory
  have token : revealed (authMessage (number ^^^ clientToken)
      (number ^^^ serverToken ^^^ clientToken)) = some serverToken := by
    have cancelled := enc_xor number serverToken clientToken 0
    rw [revealed_authMessage]
    simpa using cancelled
  refine ⟨trace, _, run, results, messages, token, ?_⟩
  intro serverHost other challenge memory'
  obtain ⟨trace', after, accepted, drew, _, heard⟩ :=
    authenticateClient_accepts serverHost other
      (revealed_eq_some_iff.mp token) (authMessage_length_le _ _) challenge
      memory'
  exact ⟨trace', after, accepted, drew, heard⟩

end RemoteCommand
