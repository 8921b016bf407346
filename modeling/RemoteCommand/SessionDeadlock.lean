import RemoteCommand.AuthenticatedExecution
import RemoteCommand.CommandLine
import RemoteCommand.ScriptedTransfer
import RemoteCommand.SegmentedHandshake
import RemoteCommand.UploadSession

/-!
# Sessions that do not deadlock

A client and a worker of the server, from the connection to its end.  The
client has built a command unless it does not know the option; then it sends
nothing, and both sides wait for ever.
-/

namespace RemoteCommand

open Interaction Machine Prog Transition

/-! ## What never receives -/

theorem Call.NoRecv.silent {call : Call} (sends : call.NoRecv) :
    Silent scriptHost call := by
  intro length respond acts
  cases call <;> first | exact sends | cases acts

theorem reply_noRecv (co : Connection) (request : Request) (exec : Outcome) :
    (reply co request exec).Only Call.NoRecv := by
  refine (reply_only co request exec).mono fun call within => ?_
  cases call with
  | recv =>
      rcases within with logs | ⟨_, sends⟩ | frees | closes
      · exact logs
      · cases sends
      · cases frees
      · cases closes
  | _ => trivial

theorem exec_noRecv (cmd result : List Byte) :
    (exec cmd result).Only Call.NoRecv := by
  refine (exec_running cmd result).mono fun call running => ?_
  cases call <;> first | exact running.elim | trivial

/-- A worker receives nothing while it executes a command that is no
transfer. -/
theorem executeTag_noRecv (conn : Int) (code : List Byte) {tag : List Byte}
    (noDownload : strcmp tag (bytes "DOWNLOAD") ≠ 0)
    (noUpload : strcmp tag (bytes "UPLOAD") ≠ 0) :
    (executeTag conn code tag).Only Call.NoRecv := by
  unfold executeTag
  rw [if_neg noDownload, if_neg noUpload]
  refine .ite ⟨trivial, fun path => ?_⟩ (.ite ⟨trivial, fun command => ?_⟩
    (.ite ⟨trivial, fun filename => ?_⟩ trivial))
  · cases path <;> exact exec_noRecv _ _
  · cases command with
    | none => trivial
    | some command => exact exec_noRecv _ _
  · cases filename with
    | none => exact ⟨trivial, fun _ => ⟨fun _ => trivial, fun _ => trivial⟩⟩
    | some filename => exact exec_noRecv _ _

/-! ## The client -/

section Client

variable {D E : Delivery Byte} {α : Type}

/-- A client that closes its connection ends the waiting of the worker. -/
theorem canSettle_closeConnection (conn : Int) (handled : Outcome)
    {side : Endpoint Sys Script D α} {client : Script} {inbox : E.Stream} :
    CanSettle scriptHost (side,
      (⟨closeConnection conn handled, client, inbox, false⟩ :
        Endpoint Sys Script E Outcome)) :=
  .rightClosed (advances_close (.refl _)) rfl

end Client

/-! ## Transfers -/

section Transfers

variable {cutting other : Cutting} {α γ : Type} {script : Script}
  {peer : Endpoint Sys Script (other.delivery Byte) γ}

/-- A side that waits for more than there is does nothing. -/
theorem script_resting {conn offset : Int} {length : Nat}
    {next : Received length → Prog Sys α} {waiting : List Byte} {index : Nat}
    {closed : Bool} (short : waiting.length < cutting.limit index length) :
    Endpoint.Resting scriptHost
      (⟨.op (.recv conn offset length) next, script, (waiting, index),
        closed⟩ : Endpoint Sys Script (cutting.delivery Byte) α) :=
  Cutting.resting_of_short rfl short

/-- A `recv` for which there is data. -/
theorem canSettle_recv {conn offset : Int} {length : Nat} (asks : 0 < length)
    {next : Received length → Prog Sys α} {waiting : List Byte} {index : Nat}
    (some_waiting : waiting ≠ []) (resting : peer.Resting scriptHost)
    (settles : ∀ nonempty fits, CanSettle scriptHost
      ((⟨next (.data (waiting.take (cutting.limit index length)) nonempty
          fits), script,
        (waiting.drop (cutting.limit index length), index + 1), false⟩ :
        Endpoint Sys Script (cutting.delivery Byte) α), peer)) :
    CanSettle scriptHost
      ((⟨.op (.recv conn offset length) next, script, (waiting, index),
        false⟩ : Endpoint Sys Script (cutting.delivery Byte) α), peer) := by
  have nonempty := cutting.take_limit_ne_nil index asks some_waiting
  have fits := cutting.length_take_limit_le index length waiting
  have acts : scriptHost.action (.recv conn offset length) =
      .receive length (Received.of length) := rfl
  apply Cutting.canSettle_receive acts some_waiting resting
  rw [Received.of_some nonempty fits]
  exact settles nonempty fits

/-- The loop of a receiver whose data is not made of full blocks comes to an
end, while the sender waits. -/
theorem canSettle_receiveLoop (conn : Int) (file : File)
    {next : Int → Prog Sys α} (resting : peer.Resting scriptHost)
    (ends : ∀ ret script stream, CanSettle scriptHost
      ((⟨next ret, script, stream, false⟩ :
        Endpoint Sys Script (cutting.delivery Byte) α), peer))
    (length : Nat) :
    ∀ {waiting : List Byte} {index : Nat} {script : Script},
      waiting.length = length → length % msgBufferSize ≠ 0 →
      CanSettle scriptHost
        ((⟨.loop (receiveTurn conn file) msgBufferSize next, script,
          (waiting, index), false⟩ :
          Endpoint Sys Script (cutting.delivery Byte) α), peer) := by
  induction length using Nat.strong_induction_on with
  | h length inductionHypothesis =>
  intro waiting index script lengths remainder
  have some_waiting : waiting ≠ [] := by
    rintro rfl
    exact remainder (lengths ▸ rfl)
  apply CanSettle.leftQuiet (Advances.loop (.refl _))
  unfold unroll
  rw [receiveTurn_bind]
  apply canSettle_recv (by decide) some_waiting resting
  intro nonempty fits
  let piece := waiting.take (cutting.limit index msgBufferSize)
  apply CanSettle.leftQuiet (advances_call rfl rfl (.refl _))
  by_cases written : script.answers 0 (.fwrite piece file) = piece.length
  · rw [if_neg (not_not.2 written), Sum.elim_inl]
    by_cases full : piece.length = msgBufferSize
    · have enough : msgBufferSize ≤ length := by
        have := full ▸ List.length_take_le' (cutting.limit index msgBufferSize)
          waiting
        omega
      have limit : cutting.limit index msgBufferSize = msgBufferSize := by
        have := full ▸ List.length_take_le (cutting.limit index msgBufferSize)
          waiting
        exact Nat.le_antisymm (cutting.limit_le _ _) this
      have fewer : length - msgBufferSize < length :=
        Nat.sub_lt ((by decide : 0 < msgBufferSize).trans_le enough) (by decide)
      rw [full]
      apply inductionHypothesis _ fewer
      · rw [List.length_drop, limit, lengths]
      · rwa [← Nat.mod_eq_sub_mod enough]
    · have short : ((piece.length : Nat) : Int) ≠ msgBufferSize := by
        exact_mod_cast full
      exact CanSettle.leftQuiet (advances_receiveTurn_done short) (ends ok _ _)
  · rw [if_pos written]
    apply CanSettle.leftQuiet (advances_call rfl rfl (.refl _))
    exact ends intErr _ _

end Transfers

section Commands

variable {serverCuts clientCuts : Cutting} {α : Type}
  {finish : Outcome → Prog Sys α} {server waiting after : Script}
  {serverConn clientConn : Int} {index : Nat}

/-- The client goes on by the name of its command. -/
def Handles (clientCuts : Cutting) (conn : Int) (tag : Word)
    (waiting after : Script) : Prop :=
  ∀ (inbox : (clientCuts.delivery Byte).Stream) chars nonempty fits,
    Advances scriptHost
      (⟨handleCode conn (.data chars nonempty fits), waiting, inbox, false⟩ :
        Endpoint Sys Script (clientCuts.delivery Byte) Outcome) []
      ⟨(handleTag conn chars tag.chars).bind (closeConnection conn), after,
        inbox, false⟩

/-- A worker that receives nothing more. -/
theorem canSettle_finish (silent : ∀ exec, (finish exec).Only Call.NoRecv)
    (exec : Outcome) {D E : Delivery Byte} {inbox : D.Stream} {closed : Bool}
    {peer : Endpoint Sys Script E Outcome} :
    CanSettle scriptHost
      ((⟨finish exec, server, inbox, closed⟩ : Endpoint Sys Script D α),
        peer) :=
  .leftSilent ((silent exec).mono fun _ => Call.NoRecv.silent)

theorem handles_of_named {cmd : List Byte} {tag : Word}
    (named : cmd = tag.chars ∨ ∃ rest, cmd = tag.chars ++ 32 :: rest)
    (client : Script) :
    ∃ after, Handles clientCuts clientConn tag
      { client with memory := client.memory.load .cmd cmd } after := by
  obtain ⟨memory, called⟩ := strtok_named client.memory .cmd named
  refine ⟨{ client with memory }, fun inbox code nonempty fits => ?_⟩
  refine advances_call rfl (Script.answer_strtok called) ?_
  exact .refl _

/-- The client gets the code, or a part of it with which it gives up. -/
theorem canSettle_handles {tag : Word}
    (handles : Handles clientCuts clientConn tag waiting after)
    (transfers : ∀ code, strcmp code (bytes "200") ≠ 0 →
      ∃ handled, handleTag clientConn code tag.chars = .ret handled)
    {E : Delivery Byte} {side : Endpoint Sys Script E α} (data : List Byte)
    (settles : CanSettle scriptHost (side,
      (⟨(handleTag clientConn (bytes "200") tag.chars).bind
          (closeConnection clientConn), after, (data, index + 1), false⟩ :
        Endpoint Sys Script (clientCuts.delivery Byte) Outcome))) :
    CanSettle scriptHost (side,
      (⟨.op (.recv clientConn 0 codeSize) (handleCode clientConn), waiting,
        (bytes "200" ++ data, index), false⟩ :
        Endpoint Sys Script (clientCuts.delivery Byte) Outcome)) := by
  have enough : codeSize ≤ (bytes "200" ++ data).length := by
    rw [List.length_append]
    exact Nat.le_add_right _ _
  apply CanSettle.rightQuiet (advances_receive (by decide) enough
    fun nonempty fits => handles _ _ nonempty fits)
  rcases clientCuts.limit_cases index codeSize with
    ⟨_, limit⟩ | ⟨_, limit⟩
  · rw [limit]
    exact settles
  · have different : strcmp ((bytes "200" ++ data).take
        (clientCuts.limit index codeSize)) (bytes "200") ≠ 0 := by
      intro same
      have short : ((bytes "200" ++ data).take
          (clientCuts.limit index codeSize)).length < codeSize :=
        (List.length_take_le _ _).trans_lt limit
      have whole := eq_of_strcmp_of_length_le same (by decide) short.le
      rw [whole] at short
      exact absurd short (by decide)
    obtain ⟨handled, gives⟩ := transfers _ different
    rw [gives]
    exact canSettle_closeConnection _ _

/-- A transfer gets to where the client is told that the server is ready. -/
theorem canSettle_beginTransfer
    (silent : ∀ exec, (finish exec).Only Call.NoRecv)
    {name : List Byte → List Byte → List Byte} {mode code : List Byte}
    {transfer : File → Prog Sys Outcome} (leftOver : List Byte)
    (serverIndex : Nat)
    (settles : ∀ file server, CanSettle scriptHost
      ((⟨(transfer file).bind finish, server, (leftOver, serverIndex), false⟩ :
        Endpoint Sys Script (serverCuts.delivery Byte) α),
      (⟨.op (.recv clientConn 0 codeSize) (handleCode clientConn), waiting,
        (bytes "200", index), false⟩ :
        Endpoint Sys Script (clientCuts.delivery Byte) Outcome))) :
    CanSettle scriptHost
      ((⟨(beginTransfer serverConn name mode [] code transfer).bind finish,
        server, (leftOver, serverIndex), false⟩ :
        Endpoint Sys Script (serverCuts.delivery Byte) α),
      (⟨.op (.recv clientConn 0 codeSize) (handleCode clientConn), waiting,
        ([], index), false⟩ :
        Endpoint Sys Script (clientCuts.delivery Byte) Outcome)) := by
  unfold beginTransfer
  obtain ⟨source, memory, called⟩ : ∃ token after,
      server.memory.strtok none (bytes " ") = (token, after) := ⟨_, _, rfl⟩
  apply CanSettle.leftQuiet (advances_call rfl (Script.answer_strtok called) (.refl _))
  cases source with
  | none => exact canSettle_finish silent _
  | some source =>
  obtain ⟨dest, memory₂, called⟩ : ∃ token after,
      memory.strtok none (bytes " ") = (token, after) := ⟨_, _, rfl⟩
  apply CanSettle.leftQuiet (advances_call rfl (Script.answer_strtok called) (.refl _))
  cases dest with
  | none => exact canSettle_finish silent _
  | some dest =>
  dsimp only [op_bind]
  apply CanSettle.leftQuiet (advances_call rfl rfl (.refl _))
  cases Script.answers _ 0 (.fopen (name source dest) mode) with
  | none => exact canSettle_finish silent _
  | some file =>
  dsimp only [op_bind]
  simp only [ite_bind]
  apply CanSettle.left (advances_send (.refl _))
  rw [deliverAll_delivery, List.nil_append, List.flatten_singleton]
  exact settles file _

/-- A download whose command has arrived as a whole. -/
theorem canSettle_download
    (silent : ∀ exec, (finish exec).Only Call.NoRecv) (code : List Byte)
    (handles : Handles clientCuts clientConn downloadTag waiting after)
    (serverIndex : Nat) :
    CanSettle scriptHost
      ((⟨(executeDownload serverConn [] code).bind finish, server,
        ([], serverIndex), false⟩ :
        Endpoint Sys Script (serverCuts.delivery Byte) α),
      (⟨.op (.recv clientConn 0 codeSize) (handleCode clientConn), waiting,
        ([], index), false⟩ :
        Endpoint Sys Script (clientCuts.delivery Byte) Outcome)) := by
  rw [executeDownload_begins]
  apply canSettle_beginTransfer silent
  intro file server
  rw [← List.append_nil (bytes "200")]
  apply canSettle_handles handles
  · intro code different
    rw [handleTag_download, handleDownload, if_neg different]
    exact ⟨_, rfl⟩
  rw [handleTag_download, handleDownload, if_pos (by decide)]
  simp only [bind_eq, op_bind, ret_bind, pure_eq]
  obtain ⟨filename, memory, called⟩ : ∃ token memory,
      after.memory.strtok none (bytes " ") = (token, memory) := ⟨_, _, rfl⟩
  apply CanSettle.rightQuiet (advances_call rfl (Script.answer_strtok called) (.refl _))
  cases filename with
  | none => exact canSettle_closeConnection _ _
  | some filename =>
  dsimp only [op_bind]
  apply CanSettle.rightQuiet (advances_call rfl rfl (.refl _))
  cases Script.answers _ 0 (.fopen filename (bytes "rb")) with
  | none => exact canSettle_closeConnection _ _
  | some source =>
  obtain ⟨blocks, ret, sender, sent, sends⟩ := script_sendLoop clientConn source
    _ rfl
  apply CanSettle.right (sends _ _)
  rw [deliverAll_delivery, List.nil_append]
  rcases sent.ret_cases with rfl | rfl
  rotate_left
  · exact canSettle_closeConnection _ _
  -- the client waits for the reply, and the worker for the end of the file
  rw [bind_assoc]
  refine canSettle_receiveLoop serverConn file (script_resting ?_) ?_ _ rfl
    (sent.remainder rfl)
  · exact clientCuts.limit_pos _ (by decide)
  · intro ret script stream
    simp only [ret_bind, ite_bind]
    by_cases succeeds : ret = ok
    · rw [if_neg (not_not.2 succeeds)]
      exact CanSettle.leftQuiet (advances_call rfl rfl (.refl _))
        (canSettle_finish silent _)
    · rw [if_pos succeeds]
      exact canSettle_finish silent _

/-- A worker that receives once more, when there is enough for that. -/
theorem canSettle_last {confirming : Received codeSize → Prog Sys α}
    (silent : ∀ received, (confirming received).Only Call.NoRecv)
    {unread : List Byte} {serverIndex : Nat}
    (enough : serverCuts.limit serverIndex codeSize ≤ unread.length)
    {E : Delivery Byte} {peer : Endpoint Sys Script E Outcome} :
    CanSettle scriptHost
      ((⟨.op (.recv serverConn 0 codeSize) confirming, server,
        (unread, serverIndex), false⟩ :
        Endpoint Sys Script (serverCuts.delivery Byte) α), peer) := by
  apply CanSettle.leftQuiet
    (.receive rfl (Cutting.ready_of_le enough) (.refl _))
  exact .leftSilent ((silent _).mono fun _ => Call.NoRecv.silent)

theorem judgeUpload_noRecv (code stale : List Byte)
    (received : Received codeSize) :
    (judgeUpload code stale received).Only Call.NoRecv := by
  have checks (text : List Byte) :
      (executeUpload.checkReceived [] code text).Only Call.NoRecv :=
    .ite trivial trivial
  cases received with
  | error => trivial
  | closed => exact checks _
  | data chars nonempty fits => exact checks _

/-- An upload: what is left of the command is read as the confirmation. -/
theorem canSettle_upload
    (silent : ∀ exec, (finish exec).Only Call.NoRecv) (code : List Byte)
    (handles : Handles clientCuts clientConn uploadTag waiting after)
    (leftOver : List Byte) (serverIndex : Nat) :
    CanSettle scriptHost
      ((⟨(executeUpload serverConn [] code).bind finish, server,
        (leftOver, serverIndex), false⟩ :
        Endpoint Sys Script (serverCuts.delivery Byte) α),
      (⟨.op (.recv clientConn 0 codeSize) (handleCode clientConn), waiting,
        ([], index), false⟩ :
        Endpoint Sys Script (clientCuts.delivery Byte) Outcome)) := by
  rw [executeUpload_begins]
  apply canSettle_beginTransfer silent
  intro file server
  unfold uploadFrom
  simp only [bind_eq, op_bind, ret_bind, pure_eq]
  obtain ⟨blocks, ret, sender, sent, sends⟩ := script_sendLoop serverConn file
    _ rfl
  rw [bind_assoc]
  apply CanSettle.left (sends _ _)
  rw [deliverAll_delivery]
  rcases sent.ret_cases with rfl | rfl
  rotate_left
  · exact canSettle_finish silent _
  simp only [ret_bind, ite_bind, op_bind]
  rw [if_neg (not_not.2 rfl)]
  apply CanSettle.leftQuiet (advances_call rfl rfl (.refl _))
  apply CanSettle.leftQuiet (advances_call rfl rfl (.refl _))
  let stale : List Byte := sender.next.answers 0 .indeterminate
  let confirming (received : Received codeSize) : Prog Sys α :=
    (judgeUpload code stale received).bind finish
  have judges (received : Received codeSize) :
      (confirming received).Only Call.NoRecv :=
    (judgeUpload_noRecv code stale received).bind silent
  let awaits (unread : List Byte) :
      Endpoint Sys Script (serverCuts.delivery Byte) α :=
    ⟨.op (.recv serverConn 0 codeSize) confirming, sender.next.next,
      (unread, serverIndex), false⟩
  change CanSettle scriptHost (awaits leftOver, _)
  by_cases enough : serverCuts.limit serverIndex codeSize ≤ leftOver.length
  · exact canSettle_last judges enough
  -- otherwise the worker waits for the confirmation
  have resting : (awaits leftOver).Resting scriptHost :=
    script_resting (Nat.lt_of_not_le enough)
  apply canSettle_handles handles
  · intro code different
    rw [handleTag_upload, handleUpload, if_neg different]
    exact ⟨_, rfl⟩
  rw [handleTag_upload, handleUpload, if_pos (by decide)]
  simp only [bind_eq, op_bind, ret_bind, pure_eq]
  obtain ⟨source, memory, called⟩ : ∃ token memory,
      after.memory.strtok none (bytes " ") = (token, memory) := ⟨_, _, rfl⟩
  apply CanSettle.rightQuiet (advances_call rfl (Script.answer_strtok called) (.refl _))
  cases source with
  | none => exact canSettle_closeConnection _ _
  | some source =>
  obtain ⟨dest, memory₂, called⟩ : ∃ token after,
      memory.strtok none (bytes " ") = (token, after) := ⟨_, _, rfl⟩
  dsimp only [op_bind]
  apply CanSettle.rightQuiet (advances_call rfl (Script.answer_strtok called) (.refl _))
  cases dest with
  | none => exact canSettle_closeConnection _ _
  | some dest =>
  dsimp only [op_bind]
  apply CanSettle.rightQuiet (advances_call rfl rfl (.refl _))
  cases Script.answers _ 0 (.fopen dest (bytes "wb")) with
  | none => exact canSettle_closeConnection _ _
  | some file =>
  dsimp only
  rw [bind_assoc]
  refine (canSettle_receiveLoop clientConn file resting ?_ _ rfl
    (sent.remainder rfl)).swap
  intro ret script stream
  simp only [ret_bind, ite_bind, op_bind]
  by_cases succeeds : ret = ok
  · rw [if_neg (not_not.2 succeeds)]
    apply CanSettle.leftQuiet (advances_call rfl rfl (.refl _))
    apply CanSettle.left (advances_send (.refl _))
    simp only [awaits]
    rw [deliverAll_delivery]
    refine (canSettle_last judges ?_).swap
    have atMost := serverCuts.limit_le serverIndex codeSize
    simp only [List.flatten_singleton, List.length_append]
    exact atMost.trans (Nat.le_add_left _ _)
  · rw [if_pos succeeds]
    exact (canSettle_closeConnection _ _).swap

end Commands

/-! ## The session -/

/-- The worker, when it has received a request. -/
def receiveCommand (co : Connection) (ip : List Byte) (cport : Int)
    (code : List Byte) : Received msgBufferSize → Prog Sys Next
  | .data msg _ _ =>
      .op (.fill .msg msg) fun _ =>
        serveRequest co { conn := co.conn, ip, cport, code }
  | .closed =>
      .op (.free co) fun _ => .op (.close co.conn) fun _ => .ret .again
  | .error =>
      .op (.free co) fun _ => .op (.close co.conn) fun _ => .ret .again

/-- The worker behind the authentication. -/
def serveAuthenticated (co : Connection) (ip : List Byte) (cport auth : Int) :
    Prog Sys Next :=
  if auth < 0 then
    .op (.close co.conn) fun _ => .op (.free co) fun _ => .ret .again
  else
    .op .indeterminate fun code =>
      .op (.recv co.conn 0 msgBufferSize) (receiveCommand co ip cport code)

theorem serveConnection_eq (host : Endian) (serverToken : BitVec 64)
    (co : Connection) :
    serveConnection host serverToken co =
      .op (.inetNtop co.sinAddr) fun ip =>
        (authenticateClient host co.conn serverToken).bind
          (serveAuthenticated co (ip.getD (bytes "PARSING_ERROR"))
            (getPort host co)) := by
  unfold serveConnection receiveRequest getIp getConn
  simp only [bind_eq, op_bind, ret_bind, pure_eq, bind_assoc, ite_bind]
  congr 1
  funext ip
  congr 1
  funext auth
  unfold serveAuthenticated
  congr 1
  congr 1
  funext code
  congr 1
  funext received
  cases received <;> rfl

/-- A client and the worker that has taken its connection. -/
structure CommandSession where
  co : Connection
  serverHost : Endian
  clientHost : Endian
  clientConn : Int
  serverToken : BitVec 64
  expectedToken : BitVec 64
  clientToken : BitVec 64
  server : Script
  client : Script
  serverCuts : Cutting
  clientCuts : Cutting

namespace CommandSession

variable (session : CommandSession)

/-- The session for a command, before the first step. -/
def start (cmd : List Byte) :
    Endpoint Sys Script (session.serverCuts.delivery Byte) Next ×
      Endpoint Sys Script (session.clientCuts.delivery Byte) Outcome :=
  (⟨serveConnection session.serverHost session.serverToken session.co,
      session.server, ([], 0), false⟩,
    ⟨runCommand session.clientHost session.clientConn session.expectedToken
      session.clientToken cmd, session.client, ([], 0), false⟩)

/-- Its authentication, when the worker has the address of the client. -/
def handshake : Handshake where
  serverHost := session.serverHost
  clientHost := session.clientHost
  serverConn := session.co.conn
  clientConn := session.clientConn
  serverToken := session.serverToken
  expectedToken := session.expectedToken
  clientToken := session.clientToken
  server := session.server.next
  client := session.client
  serverCuts := session.serverCuts
  clientCuts := session.clientCuts

/-- What the worker does behind it. -/
def serve : Int → Prog Sys Next :=
  serveAuthenticated session.co
    ((session.server.answers 0 (.inetNtop session.co.sinAddr)).getD
      (bytes "PARSING_ERROR"))
    (getPort session.serverHost session.co)

theorem start_reaches (cmd : List Byte) :
    Reaches scriptHost (session.start cmd)
      (session.handshake.start session.serve
        (askAuthenticated session.clientConn cmd)) := by
  rw [start, serveConnection_eq, runCommand_eq]
  exact Advances.leftQuiet _ (advances_call rfl rfl (.refl _))

/-- A worker has read a part of a request, or all of it. -/
theorem canSettle_serveRequest {request : Request} {cmd : List Byte}
    {tag : Word} (known : tag ∈ commandTags) {conn : Int}
    (named : cmd = tag.chars ∨ ∃ rest, cmd = tag.chars ++ 32 :: rest)
    {server waiting after : Script} {index : Nat}
      (handles : Handles session.clientCuts conn tag waiting after)
    {unread : List Byte}
    (digits : ∀ byte ∈ unread, 48 ≤ byte.toNat ∧ byte.toNat ≤ 57)
    {count : Nat} (some_bytes : 0 < count)
    (whole : tag = downloadTag → cmd.length ≤ count) :
    CanSettle scriptHost
      ((⟨serveRequest session.co request,
        { server with
          memory := server.memory.load .msg ((unread ++ cmd).take count) },
        ((unread ++ cmd).drop count, 3), false⟩ :
        Endpoint Sys Script (session.serverCuts.delivery Byte) Next),
      (⟨.op (.recv conn 0 codeSize) (handleCode conn), waiting, ([], index), false⟩ :
        Endpoint Sys Script (session.clientCuts.delivery Byte) Outcome)) := by
  obtain ⟨letter, name, isCmd, head, plain⟩ := head_of_named named
  -- the first byte is a digit, or the first one of the command
  have first : ∃ byte rest, (unread ++ cmd).take count = byte :: rest ∧
      byte ≠ 0 ∧ byte ≠ 32 ∧
        (byte.toNat ≤ 57 ∨ unread = [] ∧ byte = letter) := by
    obtain ⟨more, rfl⟩ := Nat.exists_eq_succ_of_ne_zero some_bytes.ne'
    cases unread with
    | nil =>
        rw [isCmd]
        exact ⟨letter, name.take more, rfl, plain.1, plain.2, .inr ⟨rfl, rfl⟩⟩
    | cons digit digits' =>
        have isDigit := digits digit List.mem_cons_self
        refine ⟨digit, (digits' ++ cmd).take more, rfl, ?_, ?_, .inl isDigit.2⟩
        · rintro rfl
          exact absurd isDigit.1 (by decide)
        · rintro rfl
          exact absurd isDigit.1 (by decide)
  obtain ⟨byte, rest, piece, nonzero, nonblank, begins⟩ := first
  let finish (exec : Outcome) : Prog Sys Next :=
    .op (.mark (.returnExecuteCommand exec.ret)) fun _ =>
      reply session.co request exec
  have silent (exec : Outcome) : (finish exec).Only Call.NoRecv :=
    ⟨trivial, fun _ => reply_noRecv _ _ _⟩
  rw [serveRequest_eq]
  apply CanSettle.leftQuiet (advances_call rfl rfl (.refl _))
  unfold executeCommand
  simp only [bind_eq, op_bind, pure_eq]
  have holds : (server.memory.load .msg ((unread ++ cmd).take count)).buffer
      .msg = byte :: rest := by
    simp [Strtok.load, piece]
  obtain ⟨word, memory, called⟩ := strtok_head holds ⟨nonzero, nonblank⟩
  apply CanSettle.leftQuiet (advances_call rfl (Script.answer_strtok called) (.refl _))
  change CanSettle scriptHost
    ((⟨(executeTag request.conn request.code (byte :: word)).bind finish, _, _,
      false⟩ : Endpoint Sys Script (session.serverCuts.delivery Byte) Next), _)
  -- a transfer is that of the command
  have transfers {other : Word} (transfer : other ∈ commandTags)
      (isLetter : ∀ byte ∈ other.chars.head?, 57 < byte.toNat)
      (compares : strcmp (byte :: word) other.chars = 0) :
      unread = [] ∧ tag = other ∧ byte :: word = other.chars := by
    have same : byte :: word = other.chars :=
      eq_of_strcmp compares (Strtok.zero_notMem_token called)
        fun member => (other.plain 0 member).1 rfl
    have heads : other.chars.head? = some byte := by rw [← same]; rfl
    have large := isLetter byte heads
    rcases begins with small | ⟨nothing, isLetter⟩
    · omega
    · refine ⟨nothing, tag_of_head known transfer ?_, same⟩
      rw [head, heads, isLetter]
  by_cases download : strcmp (byte :: word) (bytes "DOWNLOAD") = 0
  · obtain ⟨rfl, rfl, same⟩ := @transfers downloadTag
      (by simp [commandTags]) (by decide) download
    rw [same, executeTag_download, List.nil_append,
      List.drop_of_length_le (whole rfl)]
    exact canSettle_download silent _ handles 3
  by_cases upload : strcmp (byte :: word) (bytes "UPLOAD") = 0
  · obtain ⟨rfl, rfl, same⟩ := @transfers uploadTag
      (by simp [commandTags]) (by decide) upload
    rw [same, executeTag_upload]
    exact canSettle_upload silent _ handles _ 3
  · refine .leftSilent (Only.mono (fun _ => Call.NoRecv.silent) ?_)
    exact (executeTag_noRecv _ _ download upload).bind silent

/-- The worker waits for a command. -/
def workerAwaits (server : Script) (code waiting : List Byte) :
    Endpoint Sys Script (session.serverCuts.delivery Byte) Next :=
  ⟨.op (.recv session.co.conn 0 msgBufferSize)
    (receiveCommand session.co
      ((session.server.answers 0 (.inetNtop session.co.sinAddr)).getD
        (bytes "PARSING_ERROR"))
      (getPort session.serverHost session.co) code), server, (waiting, 2),
    false⟩

/-- The client waits for the code. -/
def clientAwaits (client : Script) :
    Endpoint Sys Script (session.clientCuts.delivery Byte) Outcome :=
  ⟨.op (.recv session.clientConn 0 codeSize) (handleCode session.clientConn),
    client, ([], session.handshake.verdict + 1), false⟩

/-- When the handshake succeeds, the client sends its command. -/
theorem asks_reaches (cmd : List Byte) (passes : session.handshake.Passes) :
    ∃ (code : List Byte) (server client : Script),
      Reaches scriptHost (session.start cmd)
      (session.workerAwaits server code
        (session.handshake.message.drop session.handshake.limit ++ cstr cmd),
        session.clientAwaits
          { client with memory := client.memory.load .cmd cmd }) := by
  cases session.handshake.ends session.serve
      (askAuthenticated session.clientConn cmd) with
  | serverFailed fails => exact absurd passes fails
  | clientFailed fails => exact absurd passes fails
  | passed passes memory client reaches =>
      let server := session.handshake.server.answered memory
      refine ⟨server.answers 0 .indeterminate, server.next, client,
        (session.start_reaches cmd).trans (reaches.trans ?_)⟩
      have asks : Advances scriptHost
          (⟨askAuthenticated session.clientConn cmd ok, client,
            ([], session.handshake.verdict + 1), false⟩ :
            session.handshake.ClientSide Outcome)
          [cstr cmd] (session.clientAwaits
            { client with memory := client.memory.load .cmd cmd }) := by
        rw [askAuthenticated, if_neg (by decide), awaitResponse_eq]
        apply advances_send
        refine advances_call rfl rfl ?_
        exact .refl _
      have serves (waiting : List Byte) : Advances scriptHost
          (⟨session.serve ok, server, (waiting, 2), false⟩ :
            session.handshake.ServerSide Next)
          [] (session.workerAwaits server.next
            (server.answers 0 .indeterminate) waiting) := by
        rw [serve, serveAuthenticated, if_neg (by decide)]
        refine advances_call rfl rfl ?_
        exact .refl _
      have sent := asks.right (⟨session.serve ok, server,
        (session.handshake.message.drop session.handshake.limit, 2), false⟩ :
        session.handshake.ServerSide Next)
      rw [deliverAll_delivery, List.flatten_singleton] at sent
      exact sent.trans (Advances.leftQuiet _ (serves _))

/-- A session with a command comes to a point behind which it cannot
deadlock. -/
theorem canSettle {cmd : List Byte} (isCommand : IsCommand cmd)
    (whole : downloadTag.chars <+: cmd →
      cmd.length ≤ session.serverCuts.size 2) :
    CanSettle scriptHost (session.start cmd) := by
  by_cases passes : session.handshake.Passes
  · obtain ⟨tag, known, named⟩ := isCommand.named
    obtain ⟨code, server, client, asks⟩ := session.asks_reaches cmd passes
    obtain ⟨after, handles⟩ := @handles_of_named session.clientCuts
      session.clientConn cmd tag named client
    rw [cstr_eq_self isCommand.plain] at asks
    refine .of_reaches asks ?_
    have some_waiting : session.handshake.message.drop
        session.handshake.limit ++ cmd ≠ [] := by
      obtain ⟨letter, name, isCmd, _⟩ := head_of_named named
      rw [isCmd]
      exact List.append_ne_nil_of_right_ne_nil _ (List.cons_ne_nil _ _)
    refine canSettle_recv (by decide) some_waiting (script_resting ?_)
      fun nonempty fits => ?_
    · exact session.clientCuts.limit_pos _ (by decide)
    apply CanSettle.leftQuiet (advances_call rfl rfl (.refl _))
    apply session.canSettle_serveRequest known named handles
      (session.handshake.unread_digits passes.accepted)
      (session.serverCuts.limit_pos 2 (by decide))
    rintro rfl
    refine le_min isCommand.fits.le (whole ?_)
    rcases named with same | ⟨rest, same⟩
    · exact same ▸ List.prefix_refl _
    · exact same ▸ List.prefix_append _ _
  · refine .of_reaches (session.start_reaches cmd) ?_
    cases session.handshake.ends session.serve
        (askAuthenticated session.clientConn cmd) with
    | passed passed => exact absurd passed passes
    | serverFailed fails ret negative server stream peer reaches =>
        refine .of_reaches reaches ?_
        rw [serve, serveAuthenticated, if_pos negative]
        exact .leftClosed (advances_close (.refl _)) rfl
    | clientFailed fails ret failure client stream peer reaches =>
        refine .of_reaches reaches ?_
        have failed : ret = authFail ∨ ret = connErr ∨ ret = protoErr := by
          rcases failure with rfl | rfl
          · exact .inr (.inr rfl)
          · exact .inl rfl
        rw [askAuthenticated, if_pos failed]
        exact canSettle_closeConnection _ _

/-- A client with nothing to send deadlocks with the worker that has accepted
it. -/
theorem deadlocks (passes : session.handshake.Passes)
    (read : session.handshake.message.length ≤ session.handshake.limit) :
    ∃ reached, Reaches scriptHost (session.start []) reached ∧
      Deadlocked scriptHost reached := by
  obtain ⟨code, server, client, asks⟩ := session.asks_reaches [] passes
  rw [List.drop_of_length_le read, cstr_nil, List.append_nil] at asks
  refine ⟨_, asks, ⟨?_, ?_, rfl, rfl⟩⟩
  · exact Cutting.blocked rfl (by decide)
  · exact Cutting.blocked rfl (by decide)

end CommandSession

/-- A session of a client that knows its option, and whose `DOWNLOAD` reaches
the worker in one piece, never deadlocks. -/
theorem session_neverDeadlocks (session : CommandSession)
    {argv : List (List Byte)} {ret : Int} {cmd : List Byte}
    (connects : ClientParameters.Connects argv ret cmd)
    (supported : ret = ok)
    (whole : downloadTag.chars <+: cmd →
      cmd.length ≤ session.serverCuts.size 2) :
    NeverDeadlocks scriptHost (session.start cmd) := by
  obtain ⟨parameters, parsed, holds, _, _⟩ := connects
  rcases getParameters_cases parsed holds rfl with
    ⟨_, isCommand⟩ | ⟨unsupported, _⟩
  · exact (session.canSettle isCommand whole).neverDeadlocks
  · exact absurd supported unsupported

/-- A client with the token of the server. -/
def sampleSession : CommandSession where
  co := { pointer := 1, conn := 4, sinAddr := 0, sinPort := 0 }
  serverHost := .little
  clientHost := .little
  clientConn := 3
  serverToken := 7
  expectedToken := 7
  clientToken := 5
  server := .bare
  client := .bare
  serverCuts := Transfer.blockCuts
  clientCuts := Transfer.blockCuts

theorem session_neverDeadlocks_list :
    NeverDeadlocks scriptHost (sampleSession.start (bytes "LIST")) :=
  @session_neverDeadlocks sampleSession
    [bytes "-h", bytes "127.0.0.1", bytes "-p", bytes "8888", bytes "-l"]
    ok (bytes "LIST")
    ⟨{ ip := some (bytes "127.0.0.1"), port := some 8888
       cmd := some (bytes "LIST") }, rfl, rfl, by decide, by decide⟩
    rfl fun _ => (by decide : (bytes "LIST").length ≤ msgBufferSize)

/-- An option that the client does not know leads to a deadlock. -/
theorem session_deadlocks :
    ¬ ∀ (session : CommandSession) (argv : List (List Byte)) (ret : Int)
        (cmd : List Byte), ClientParameters.Connects argv ret cmd →
      NeverDeadlocks scriptHost (session.start cmd) := by
  intro never
  have read : sampleSession.handshake.message.length ≤
      sampleSession.handshake.limit :=
    authMessage_length_le _ _
  have passes : sampleSession.handshake.Passes :=
    ⟨(by decide : 4 ≤ msgBufferSize), (by decide : codeSize ≤ msgBufferSize),
      (sampleSession.handshake.accepts_iff rfl).2 read,
      (by decide : codeSize ≤ msgBufferSize)⟩
  obtain ⟨reached, reaches, deadlocked⟩ := sampleSession.deadlocks passes read
  have connects : ClientParameters.Connects
      [bytes "-h", bytes "127.0.0.1", bytes "-p", bytes "8888", bytes "-x"]
      commErr [] :=
    ⟨{ ip := some (bytes "127.0.0.1"), port := some 8888, cmd := some [] }, rfl,
      rfl, by decide, by decide⟩
  exact never sampleSession _ _ _ connects reached reaches deadlocked

end RemoteCommand
