import RemoteCommand.Footprint
import RemoteCommand.Interaction.Hiding
import RemoteCommand.SegmentedHandshake
import RemoteCommand.SystemCommand

/-!
# LIST, SIZE and EXEC over byte streams

A client authenticates itself and asks for a listing, a size or the execution
of a command, over two streams that are cut in any way.  Apart from the number
of the challenge, nothing is put together again: every message has to arrive in
one piece.
-/

namespace RemoteCommand

open Interaction Machine Prog Transition

/-! ## The two programs -/

/-- What `authenticate_client` returned, and the request that was executed,
with the outcome. -/
structure Served where
  auth : Int
  executed : Option (List Byte × Outcome)

/-- What `authenticate_server` returned, and what became of the command. -/
structure Asked where
  auth : Int
  handled : Outcome

/-- What `thread_exec` does with a connection, as the client sees it: the log
and the record of the connection are left out. -/
def serveExchange (host : Endian) (conn : Int) (serverToken : BitVec 64) :
    Prog Sys Served := do
  let auth ← authenticateClient host conn serverToken
  if auth < 0 then
    close conn
    return { auth, executed := none }
  let code ← indeterminate
  match ← recv conn msgBufferSize with
  | .data msg _ _ =>
      let exec ← answerRequest conn msg code
      return { auth, executed := some (msg, exec) }
  | .closed | .error =>
      close conn
      return { auth, executed := none }

/-- `main` of the client behind `connect`. -/
def askExchange (host : Endian) (conn : Int)
    (serverToken clientToken : BitVec 64) (cmd : List Byte) :
    Prog Sys Asked := do
  let auth ← authenticateServer host conn serverToken clientToken
  let handled ← askAuthenticated conn cmd auth
  return { auth, handled }

/-- The server behind the authentication. -/
def serveInquiry (conn auth : Int) : Prog Sys Served :=
  if auth < 0 then
    .op (.close conn) fun _ => .ret { auth, executed := none }
  else
    .op .indeterminate fun code =>
      .op (.recv conn 0 msgBufferSize) fun received =>
        match received with
        | .data msg _ _ => (answerRequest conn msg code).bind fun exec =>
            .ret { auth, executed := some (msg, exec) }
        | .closed => .op (.close conn) fun _ => .ret { auth, executed := none }
        | .error => .op (.close conn) fun _ => .ret { auth, executed := none }

theorem serveExchange_eq (host : Endian) (conn : Int)
    (serverToken : BitVec 64) :
    serveExchange host conn serverToken =
      (authenticateClient host conn serverToken).bind (serveInquiry conn) := by
  unfold serveExchange
  simp only [bind_eq, op_bind, ret_bind, pure_eq]
  congr 1
  funext auth
  unfold serveInquiry
  congr 3
  funext code
  congr 1
  funext received
  cases received <;> rfl

/-! ### What the client sees of the worker -/

/-- The calls that are not made on the connection of the client. -/
def Call.offConnection (conn : Int) : Call → Bool
  | .recv other _ _ | .send other _ | .close other => decide (other ≠ conn)
  | _ => true

theorem logging_hidden (conn threadId : Int) (ip : List Byte) (port : Int)
    (tag : Option (List Byte)) :
    (logRequest threadId ip port tag).Only fun call : Call =>
      call.offConnection conn = true := by
  refine (logRequest_only threadId ip port tag).mono fun call logging => ?_
  cases call <;> first | exact logging.elim | rfl

theorem reply_hides (co : Connection) (request : Request) (exec : Outcome)
    (served : Outcome → Served) :
    Hides (Call.offConnection request.conn) (reply co request exec)
      ((sendAnswer request.conn exec).bind fun exec => .ret (served exec)) := by
  have sent :
      (sendAnswer request.conn exec).bind (fun exec => .ret (served exec)) =
        (sendReply request.conn exec).bind fun sent =>
          if sent then .op (.close request.conn) fun _ => .ret (served exec)
          else .ret (served exec) := by
    unfold sendAnswer
    simp only [bind_eq, pure_eq, bind_assoc]
    congr 1
    funext sent
    cases sent <;> rfl
  rw [sent]
  refine .bind (sendReply request.conn exec) fun sent => ?_
  cases sent with
  | false => exact .ret _ _
  | true =>
  refine .hide rfl fun tag => .hide rfl fun threadId => ?_
  change Hides _ ((logRequest threadId request.ip request.cport tag).bind _) _
  refine .only (logging_hidden ..) fun _ => .hide rfl fun _ => ?_
  exact Hides.op (S := Sys) (.close request.conn) fun _ => .ret _ _

/-- What a client sees of the worker that serves its connection, whatever the
calls answer, is what it sees of `serveExchange`: the same calls on the
connection in the same order, with the same answers. -/
theorem serveConnection_hides (host : Endian) (serverToken : BitVec 64)
    (co : Connection) :
    Hides (Call.offConnection co.conn) (serveConnection host serverToken co)
      (serveExchange host co.conn serverToken) := by
  rw [serveExchange_eq]
  unfold serveConnection receiveRequest getIp getConn
  simp only [bind_eq, op_bind, ret_bind, pure_eq, bind_assoc, ite_bind]
  refine .hide rfl fun ip => .bind _ fun auth => .ite ?_ ?_
  · exact .op _ fun _ => .hide rfl fun _ => .ret _ _
  · refine .op _ fun code => .op _ fun received => ?_
    cases received with
    | closed => exact .hide rfl fun _ => .op _ fun _ => .ret _ _
    | error => exact .hide rfl fun _ => .op _ fun _ => .ret _ _
    | data msg nonempty fits =>
    refine .op (S := Sys) (.fill .msg msg) fun _ => .hide rfl fun _ => ?_
    simp only [bind_eq, bind_assoc]
    refine Hides.bind (executeCommand co.conn [] code) fun exec => ?_
    change Hides _ (Prog.op (S := Sys) (.mark (.returnExecuteCommand exec.ret)) _) _
    exact .hide rfl fun _ => reply_hides co _ exec _

theorem threadIteration_eq (host : Endian) (serverToken : BitVec 64) :
    threadIteration host serverToken = takeConnection.bind fun taken =>
      match taken with
      | none => .ret .again
      | some co => serveConnection host serverToken co := by
  refine congrArg takeConnection.bind (funext fun taken => ?_)
  cases taken <;> rfl

/-- The client behind the authentication. -/
def askInquiry (conn : Int) (cmd : List Byte) (auth : Int) : Prog Sys Asked :=
  (askAuthenticated conn cmd auth).bind fun handled => .ret { auth, handled }

theorem askExchange_eq (host : Endian) (conn : Int)
    (serverToken clientToken : BitVec 64) (cmd : List Byte) :
    askExchange host conn serverToken clientToken cmd =
      (authenticateServer host conn serverToken clientToken).bind
        (askInquiry conn cmd) :=
  rfl

/-! ## The exchange -/

structure Exchange where
  inquiry : Inquiry
  serverHost : Endian
  clientHost : Endian
  serverConn : Int
  clientConn : Int
  /-- the token of the server, which the client knows -/
  token : BitVec 64
  clientToken : BitVec 64
  server : Script
  client : Script
  serverCuts : Cutting
  clientCuts : Cutting

namespace Exchange

variable (exchange : Exchange)

abbrev ServerSide : Type 1 :=
  Endpoint Sys Script (exchange.serverCuts.delivery Byte) Served

abbrev ClientSide : Type 1 :=
  Endpoint Sys Script (exchange.clientCuts.delivery Byte) Asked

def start : exchange.ServerSide × exchange.ClientSide :=
  (⟨serveExchange exchange.serverHost exchange.serverConn exchange.token,
      exchange.server, ([], 0), false⟩,
    ⟨askExchange exchange.clientHost exchange.clientConn exchange.token
      exchange.clientToken exchange.inquiry.cmd, exchange.client, ([], 0),
      false⟩)

/-- Both authentications succeed, the server executes the request of the
client, and the client obtains what the server sent.  It asks for the response
behind the code `300` only. -/
structure Agrees (served : Served) (asked : Asked) : Prop where
  serverPasses : served.auth = ok
  clientPasses : asked.auth = ok
  arrives : ∃ exec, served.executed = some (exchange.inquiry.cmd, exec) ∧
    asked.handled.code = cstr exec.code ∧
      (cstr exec.code = bytes "300" → asked.handled.result = cstr exec.result)

/-- All schedules are bounded and lead to such an end. -/
def Delivered : Prop :=
  ∃ served asked steps, ∃ final : exchange.ServerSide × exchange.ClientSide,
    final.1.program = .ret served ∧ final.2.program = .ret asked ∧
      exchange.Agrees served asked ∧
        ∀ schedule reached,
          (session scriptHost _ _ _ _).run exchange.start schedule =
              some reached →
            ∃ rest, (session scriptHost _ _ _ _).run reached rest =
                some final ∧
              schedule.length + rest.length = steps

/-- The handshake that comes first. -/
def handshake : Handshake where
  serverHost := exchange.serverHost
  clientHost := exchange.clientHost
  serverConn := exchange.serverConn
  clientConn := exchange.clientConn
  serverToken := exchange.token
  expectedToken := exchange.token
  clientToken := exchange.clientToken
  server := exchange.server
  client := exchange.client
  serverCuts := exchange.serverCuts
  clientCuts := exchange.clientCuts

theorem start_eq :
    exchange.start =
      exchange.handshake.start (serveInquiry exchange.serverConn)
        (askInquiry exchange.clientConn exchange.inquiry.cmd) := by
  rw [start, serveExchange_eq, askExchange_eq]
  rfl

/-- What the array `code` of the server holds before the request. -/
def stale : List Byte :=
  exchange.server.answers 8 .indeterminate

/-- The machine of the server, when it executes the request. -/
def executing : Script :=
  (exchange.server.answered exchange.server.memory).next

/-- The number of the receive that gets the code. -/
def reply : Nat :=
  exchange.handshake.verdict + 1

/-- Code and response arrive as they were sent.  Without an argument, `SIZE`
does not reply and `EXEC` replies with what its array held before. -/
def ReplyFits : Prop :=
  match exchange.inquiry.command with
  | some cmd => codeSize ≤ exchange.clientCuts.size exchange.reply ∧
      (exchange.executing.Succeeds cmd →
        strlen exchange.executing.output + strlen terminationString ≤
          exchange.clientCuts.limit (exchange.reply + 1) msgBufferSize)
  | none => exchange.inquiry.tag.chars = execTag.chars ∧
      strlen exchange.stale ≤ exchange.clientCuts.limit exchange.reply codeSize

/-- No message is cut: `HELO`, the AUTH message and the request on the way to
the server; `300`, `200`, the code and the response on the way to the client. -/
structure Unbroken : Prop where
  hello : 4 ≤ exchange.serverCuts.size 0
  ready : codeSize ≤ exchange.clientCuts.size 0
  authenticates : exchange.handshake.message.length ≤ exchange.handshake.limit
  confirmed : codeSize ≤ exchange.clientCuts.size exchange.handshake.verdict
  requests : exchange.inquiry.cmd.length ≤ exchange.serverCuts.size 2
  replies : exchange.ReplyFits

theorem passes_iff :
    exchange.handshake.Passes ↔
      4 ≤ exchange.serverCuts.size 0 ∧
        codeSize ≤ exchange.clientCuts.size 0 ∧
          exchange.handshake.message.length ≤ exchange.handshake.limit ∧
            codeSize ≤
              exchange.clientCuts.size exchange.handshake.verdict := by
  constructor
  · rintro ⟨hello, ready, accepted, confirmed⟩
    exact ⟨hello, ready, (exchange.handshake.accepts_iff rfl).1 accepted,
      confirmed⟩
  · rintro ⟨hello, ready, read, confirmed⟩
    exact ⟨hello, ready, (exchange.handshake.accepts_iff rfl).2 read, confirmed⟩

/-! ## The request -/

/-- How much of the request the server gets at once. -/
def received : List Byte :=
  exchange.inquiry.cmd.take (exchange.serverCuts.limit 2 msgBufferSize)

/-- The server executes what it has got of the request. -/
def serverExecutes (server : Script) : exchange.ServerSide :=
  ⟨(answerRequest exchange.serverConn exchange.received exchange.stale).bind
      fun exec => .ret { auth := ok, executed := some (exchange.received, exec) },
    server,
    (exchange.inquiry.cmd.drop (exchange.serverCuts.limit 2 msgBufferSize), 3),
    false⟩

/-- The client waits for the code. -/
def clientAwaits (client : Script) (data : List Byte) : exchange.ClientSide :=
  ⟨.op (.recv exchange.clientConn 0 codeSize) fun received =>
      (handleCode exchange.clientConn received).bind fun handled =>
        .ret { auth := ok, handled },
    { client with
      memory := client.memory.load .cmd exchange.inquiry.cmd },
    (data, exchange.reply), false⟩

theorem asks (client : Script) {D : Delivery Byte} (inbox : D.Stream) :
    Advances scriptHost
      (⟨askInquiry exchange.clientConn exchange.inquiry.cmd ok, client, inbox,
        false⟩ : Endpoint Sys Script D Asked)
      [exchange.inquiry.cmd]
      ⟨.op (.recv exchange.clientConn 0 codeSize) fun received =>
          (handleCode exchange.clientConn received).bind fun handled =>
            .ret { auth := ok, handled },
        { client with
          memory := client.memory.load .cmd exchange.inquiry.cmd },
        inbox, false⟩ := by
  have plain := exchange.inquiry.plain
  unfold askInquiry askAuthenticated
  rw [if_neg (by decide), awaitResponse_eq, cstr_eq_self plain]
  simp only [op_bind, ite_bind]
  apply advances_send
  refine advances_call rfl rfl ?_
  exact .refl _

/-- Behind the authentication, the server gets a part of the request. -/
theorem reaches_request (passes : exchange.handshake.Passes) :
    ∃ memory client,
      Reaches scriptHost exchange.start
        (exchange.serverExecutes (exchange.server.answered memory).next,
          exchange.clientAwaits client []) := by
  have read := (exchange.handshake.accepts_iff rfl).1 passes.accepted
  cases exchange.handshake.ends (serveInquiry exchange.serverConn)
      (askInquiry exchange.clientConn exchange.inquiry.cmd) with
  | serverFailed fails => exact absurd passes fails
  | clientFailed fails => exact absurd passes fails
  | passed _ memory client authenticated =>
      rw [← start_eq, List.drop_of_length_le read] at authenticated
      let waits : exchange.ServerSide :=
        ⟨serveInquiry exchange.serverConn ok, exchange.server.answered memory,
          ([], 2), false⟩
      have sent := (@asks exchange client (exchange.clientCuts.delivery Byte)
        ([], exchange.reply)).right waits
      rw [deliverAll_delivery, List.nil_append, List.flatten_singleton] at sent
      have some_bytes : exchange.inquiry.cmd ≠ [] := by
        obtain ⟨first, rest, same, _⟩ := head_of_named exchange.inquiry.named
        rw [same]
        exact List.cons_ne_nil _ _
      have receives : Reaches scriptHost
          ((⟨serveInquiry exchange.serverConn ok,
            exchange.server.answered memory, (exchange.inquiry.cmd, 2), false⟩ :
            exchange.ServerSide), exchange.clientAwaits client [])
          (exchange.serverExecutes (exchange.server.answered memory).next,
            exchange.clientAwaits client []) := by
        unfold serveInquiry
        rw [if_neg (by decide)]
        refine (Advances.leftQuiet _ (advances_call rfl rfl
          (.refl _))).trans ?_
        exact reaches_receive (by decide) some_bytes (idle_receive (by decide))
      exact ⟨memory, client, authenticated.trans (sent.trans receives)⟩

/-! ## The reply -/

/-- The client obtains code and response as they were sent. -/
def Arrives (exec handled : Outcome) : Prop :=
  handled.code = cstr exec.code ∧
    (cstr exec.code = bytes "300" → handled.result = cstr exec.result)

/-- What the client obtains of a reply. -/
structure Obtains (exec handled : Outcome) : Prop where
  code : handled.code = (cstr exec.code ++ cstr exec.result).take
    (exchange.clientCuts.limit exchange.reply codeSize)
  result : handled.result = if handled.code = bytes "300" then
      ((cstr exec.code ++ cstr exec.result).drop
        (exchange.clientCuts.limit exchange.reply codeSize)).take
          (exchange.clientCuts.limit (exchange.reply + 1) msgBufferSize)
    else []

/-- What the server sends, when it has executed the whole request, and what the
client gets of it. -/
theorem reaches_reply (passes : exchange.handshake.Passes)
    (whole : exchange.received = exchange.inquiry.cmd) {exec : Outcome}
    (executes : exchange.inquiry.executes exchange.executing exchange.stale =
      some exec) :
    ∃ handled, ∃ final : exchange.ServerSide × exchange.ClientSide,
      exchange.Obtains exec handled ∧
        Reaches scriptHost exchange.start final ∧
          final.1.program = .ret
            { auth := ok, executed := some (exchange.inquiry.cmd, exec) } ∧
            final.2.program = .ret { auth := ok, handled } := by
  obtain ⟨memory, client, requested⟩ := exchange.reaches_request passes
  let finish (exec : Outcome) : Prog Sys Served :=
    .ret { auth := ok, executed := some (exchange.inquiry.cmd, exec) }
  have answers := @Inquiry.answerRequest_advances exchange.inquiry
    (exchange.serverCuts.delivery Byte) Served exchange.serverConn
    exchange.stale (exchange.server.answered memory).next
    (exchange.inquiry.cmd.drop (exchange.serverCuts.limit 2 msgBufferSize), 3)
    finish
  have same : exchange.inquiry.executes (exchange.server.answered memory).next
      exchange.stale = some exec := executes
  rw [same] at answers
  obtain ⟨after, answers⟩ := answers
  have sent := answers.left (exchange.clientAwaits client [])
  rw [clientAwaits, deliverAll_delivery, List.nil_append, List.flatten_cons,
    List.flatten_singleton] at sent
  let closed : exchange.ServerSide :=
    ⟨finish exec, after,
      (exchange.inquiry.cmd.drop (exchange.serverCuts.limit 2 msgBufferSize),
        3), true⟩
  obtain ⟨handled, last, stream, code, result, reads⟩ :=
    @Inquiry.reaches_handleCode exchange.inquiry exchange.clientCuts
      exchange.serverCuts Asked Served exchange.clientConn closed rfl client
      (cstr exec.code ++ cstr exec.result) exchange.reply
      fun handled => .ret { auth := ok, handled }
  rw [serverExecutes, whole] at requested
  exact ⟨handled, _, ⟨code, result⟩,
    (requested.trans sent).trans reads.swap, rfl, rfl⟩

/-- A code of three bytes arrives when the piece is large enough. -/
theorem take_code {code : List Byte} (three : code.length = codeSize)
    (result : List Byte) :
    (code ++ result).take (exchange.clientCuts.limit exchange.reply codeSize) =
        code ↔
      codeSize ≤ exchange.clientCuts.size exchange.reply := by
  rcases exchange.clientCuts.limit_cases exchange.reply codeSize with
    ⟨enough, limit⟩ | ⟨short, limit⟩
  · rw [limit, ← three, List.take_left]
    exact iff_of_true rfl (three ▸ enough)
  · refine iff_of_false (fun same => ?_) short
    have lengths := congrArg List.length same
    rw [List.length_take, three] at lengths
    omega

/-- A reply with a code of three bytes. -/
theorem arrives_code {exec handled : Outcome}
    (obtains : exchange.Obtains exec handled)
    (three : (cstr exec.code).length = codeSize) :
    Arrives exec handled ↔
      codeSize ≤ exchange.clientCuts.size exchange.reply ∧
        (cstr exec.code = bytes "300" → strlen exec.result ≤
          exchange.clientCuts.limit (exchange.reply + 1) msgBufferSize) := by
  obtain ⟨code, result⟩ := obtains
  rw [Arrives, code, exchange.take_code three]
  refine and_congr_right fun enough => ?_
  have limit : exchange.clientCuts.limit exchange.reply codeSize = codeSize :=
    Nat.min_eq_left enough
  refine imp_congr_right fun succeeds => ?_
  rw [code, (exchange.take_code three _).2 enough, if_pos succeeds, limit,
    ← three, List.drop_left] at result
  rw [result, strlen]
  exact List.take_eq_self_iff _

/-- A reply without a response. -/
theorem arrives_alone {exec handled : Outcome}
    (obtains : exchange.Obtains exec handled) (alone : cstr exec.result = []) :
    Arrives exec handled ↔
      strlen exec.code ≤ exchange.clientCuts.limit exchange.reply codeSize := by
  obtain ⟨code, result⟩ := obtains
  rw [alone, List.append_nil] at code result
  constructor
  · rintro ⟨same, _⟩
    rw [code] at same
    exact (List.take_eq_self_iff _).1 same
  · intro fits
    rw [List.take_of_length_le fits] at code
    rw [List.drop_of_length_le fits, List.take_nil, ite_self] at result
    exact ⟨code, fun _ => result.trans alone.symm⟩

/-- The reply arrives exactly when it fits. -/
theorem arrives_iff {exec handled : Outcome}
    (executes : exchange.inquiry.executes exchange.executing exchange.stale =
      some exec)
    (obtains : exchange.Obtains exec handled) :
    Arrives exec handled ↔ exchange.ReplyFits := by
  unfold Inquiry.executes at executes
  unfold ReplyFits
  cases found : exchange.inquiry.command with
  | none =>
      rw [found] at executes
      dsimp only at executes ⊢
      split_ifs at executes with isExec
      cases executes
      rw [exchange.arrives_alone obtains rfl]
      exact (and_iff_right isExec).symm
  | some cmd =>
      rw [found] at executes
      cases executes
      dsimp only
      by_cases succeeds : exchange.executing.Succeeds cmd
      · have code : cstr (exchange.executing.execution cmd).code =
            bytes "300" := by
          rw [Script.execution_succeeds succeeds]
          exact (by decide : cstr (bytes "300") = bytes "300")
        have length : strlen (exchange.executing.execution cmd).result =
            strlen exchange.executing.output + strlen terminationString := by
          rw [Script.execution_succeeds succeeds, strlen_strcat]
        rw [exchange.arrives_code obtains (by rw [code]; decide), length]
        exact and_congr_right fun _ =>
          ⟨fun fits _ => fits code, fun fits _ => fits succeeds⟩
      · have code : cstr (exchange.executing.execution cmd).code ≠
              bytes "300" ∧
            (cstr (exchange.executing.execution cmd).code).length =
              codeSize := by
          rcases (Script.execution_fails succeeds).2.1 with same | same
          · rw [same]
            decide
          · rw [same]
            decide
        rw [exchange.arrives_code obtains code.2]
        exact and_congr_right fun _ =>
          ⟨fun _ succeeded => absurd succeeded succeeds,
            fun _ same => absurd same code.1⟩

/-! ## All schedules -/

/-- Every schedule can be continued to an end at which the sides agree. -/
theorem Delivered.ends {exchange : Exchange} (delivered : exchange.Delivered) :
    ∃ served asked, ∃ final : exchange.ServerSide × exchange.ClientSide,
      final.1.program = .ret served ∧ final.2.program = .ret asked ∧
        exchange.Agrees served asked ∧
          ∀ reached, Reaches scriptHost exchange.start reached →
            Reaches scriptHost reached final := by
  obtain ⟨served, asked, steps, final, finished, returned, agrees, leads⟩ :=
    delivered
  refine ⟨served, asked, final, finished, returned, agrees, ?_⟩
  rintro reached ⟨schedule, ran⟩
  obtain ⟨rest, completed, _⟩ := leads schedule reached ran
  exact ⟨rest, completed⟩

/-- Then the handshake passes. -/
theorem Delivered.passes {exchange : Exchange}
    (delivered : exchange.Delivered) : exchange.handshake.Passes := by
  obtain ⟨served, asked, final, finished, returned, agrees, leads⟩ :=
    delivered.ends
  by_contra fails
  cases exchange.handshake.ends (serveInquiry exchange.serverConn)
      (askInquiry exchange.clientConn exchange.inquiry.cmd) with
  | passed passes => exact fails passes
  | serverFailed _ ret negative server stream peer failed =>
      rw [← start_eq] at failed
      have closes : Advances scriptHost
          (⟨serveInquiry exchange.serverConn ret, server, stream, false⟩ :
            exchange.ServerSide) []
          ⟨.ret { auth := ret, executed := none }, server, stream, true⟩ := by
        unfold serveInquiry
        rw [if_pos negative]
        exact advances_close (.refl _)
      have ended := leads _ (failed.trans (closes.leftQuiet peer))
      have same := (ended.left_finished rfl).1
      rw [finished] at same
      cases same
      have passed : ret = ok := agrees.serverPasses
      rw [passed] at negative
      exact absurd negative (by decide)
  | clientFailed _ ret failure client stream peer failed =>
      rw [← start_eq] at failed
      have gaveUp : ret = authFail ∨ ret = connErr ∨ ret = protoErr :=
        failure.elim (fun same => .inr (.inr same)) .inl
      have closes : Advances scriptHost
          (⟨askInquiry exchange.clientConn exchange.inquiry.cmd ret, client,
            stream, false⟩ : exchange.ClientSide) []
          ⟨.ret { auth := ret
                  handled := { ret, result := [], code := [] } }, client,
            stream, true⟩ := by
        unfold askInquiry askAuthenticated
        rw [if_pos gaveUp]
        exact advances_close (.refl _)
      have ended := leads _ (failed.trans (closes.right peer))
      have same := (ended.swap.left_finished rfl).1
      rw [Prod.fst_swap, returned] at same
      cases same
      have passed : ret = ok := agrees.clientPasses
      rw [passed] at failure
      exact absurd failure (by decide)

/-- Then the server gets the whole request. -/
theorem Delivered.whole {exchange : Exchange}
    (delivered : exchange.Delivered) :
    exchange.received = exchange.inquiry.cmd := by
  obtain ⟨memory, client, requested⟩ :=
    exchange.reaches_request delivered.passes
  obtain ⟨served, asked, final, finished, _, agrees, leads⟩ := delivered.ends
  have returns : (exchange.serverExecutes
      (exchange.server.answered memory).next).program.Returns
        fun served => ∃ exec, served.executed = some (exchange.received, exec) :=
    Returns.of_bind fun exec => ⟨exec, rfl⟩
  obtain ⟨exec, same⟩ := (leads _ requested).left_returns returns finished
  obtain ⟨other, executed, _⟩ := agrees.arrives
  rw [same, Option.some.injEq, Prod.mk.injEq] at executed
  exact executed.1

/-- Then the server replies. -/
theorem Delivered.executes {exchange : Exchange}
    (delivered : exchange.Delivered) :
    exchange.inquiry.executes exchange.executing exchange.stale ≠ none := by
  intro diverges
  obtain ⟨memory, client, requested⟩ :=
    exchange.reaches_request delivered.passes
  obtain ⟨served, asked, final, finished, _, _, leads⟩ := delivered.ends
  let finish (exec : Outcome) : Prog Sys Served :=
    .ret { auth := ok, executed := some (exchange.inquiry.cmd, exec) }
  have answers := @Inquiry.answerRequest_advances exchange.inquiry
    (exchange.serverCuts.delivery Byte) Served exchange.serverConn
    exchange.stale (exchange.server.answered memory).next
    (exchange.inquiry.cmd.drop (exchange.serverCuts.limit 2 msgBufferSize), 3)
    finish
  have same : exchange.inquiry.executes (exchange.server.answered memory).next
      exchange.stale = none := diverges
  rw [same] at answers
  obtain ⟨after, next, runs⟩ := answers
  rw [serverExecutes, delivered.whole] at requested
  have ended := leads _ (requested.trans (runs.leftQuiet _))
  have forever := ended.left_diverges rfl
  rw [finished] at forever
  cases forever

theorem received_iff :
    exchange.received = exchange.inquiry.cmd ↔
      exchange.inquiry.cmd.length ≤ exchange.serverCuts.size 2 := by
  rw [received, List.take_eq_self_iff, Cutting.limit, Nat.le_min]
  exact and_iff_right exchange.inquiry.fits.le

/-- Then no message is cut. -/
theorem Delivered.unbroken {exchange : Exchange}
    (delivered : exchange.Delivered) : exchange.Unbroken := by
  have passes := delivered.passes
  obtain ⟨hello, ready, read, confirmed⟩ := exchange.passes_iff.1 passes
  refine ⟨hello, ready, read, confirmed,
    exchange.received_iff.1 delivered.whole, ?_⟩
  obtain ⟨exec, executes⟩ := Option.ne_none_iff_exists'.1 delivered.executes
  obtain ⟨handled, reached, obtains, replied, served, asked⟩ :=
    exchange.reaches_reply passes delivered.whole executes
  obtain ⟨_, _, final, finished, returned, agrees, leads⟩ := delivered.ends
  have ended := leads _ replied
  have same := (ended.left_finished served).1
  have sameAsked := (ended.swap.left_finished asked).1
  rw [finished] at same
  rw [Prod.fst_swap, returned] at sameAsked
  cases same
  cases sameAsked
  obtain ⟨_, executed, arrives⟩ := agrees.arrives
  cases executed
  exact (exchange.arrives_iff executes obtains).1 arrives

/-- When no message is cut, everything is delivered. -/
theorem Unbroken.delivered {exchange : Exchange}
    (unbroken : exchange.Unbroken) : exchange.Delivered := by
  obtain ⟨hello, ready, read, confirmed, requests, replies⟩ := unbroken
  have passes := exchange.passes_iff.2 ⟨hello, ready, read, confirmed⟩
  have whole := exchange.received_iff.2 requests
  cases executes : exchange.inquiry.executes exchange.executing
      exchange.stale with
  | none =>
      unfold Exchange.ReplyFits at replies
      unfold Inquiry.executes at executes
      cases found : exchange.inquiry.command with
      | none =>
          rw [found] at replies executes
          dsimp only at replies executes
          rw [if_pos replies.1] at executes
          cases executes
      | some cmd =>
          rw [found] at executes
          cases executes
  | some exec =>
      obtain ⟨handled, final, obtains, replied, served, asked⟩ :=
        exchange.reaches_reply passes whole executes
      have arrives := (exchange.arrives_iff executes obtains).2 replies
      obtain ⟨steps, leads⟩ := replied.completes served asked
      exact ⟨_, _, steps, final, served, asked, ⟨rfl, rfl, exec, rfl, arrives⟩,
        leads⟩

end Exchange

/-- How the streams are cut makes no difference exactly when no message is
cut. -/
theorem exchange_delivered_iff (exchange : Exchange) :
    exchange.Delivered ↔ exchange.Unbroken :=
  ⟨Exchange.Delivered.unbroken, Exchange.Unbroken.delivered⟩

/-- A client that asks for a listing. -/
def sampleExchange (clientCuts : Cutting) : Exchange where
  inquiry :=
    { tag := listTag
      known := .inl rfl
      cmd := bytes "LIST"
      named := .inl rfl
      fits := by decide
      plain := by decide }
  serverHost := .little
  clientHost := .little
  serverConn := 4
  clientConn := 3
  token := 7
  clientToken := 5
  server := .bare
  client := .bare
  serverCuts := Transfer.blockCuts
  clientCuts

/-- A stream that is delivered byte by byte. -/
def byteCuts : Cutting where
  size _ := 1
  positive _ := Nat.one_pos

/-- The client takes the first byte of `300` for the code. -/
theorem exchange_broken :
    ¬ ∀ exchange : Exchange, exchange.Delivered := by
  intro always
  have passes := (always (sampleExchange byteCuts)).passes
  exact absurd passes.ready (by decide)

/-- Without cuts everything is delivered. -/
example : (sampleExchange Transfer.blockCuts).Delivered :=
  Exchange.Unbroken.delivered
    { hello := (by decide : 4 ≤ msgBufferSize)
      ready := (by decide : codeSize ≤ msgBufferSize)
      authenticates := authMessage_length_le _ _
      confirmed := (by decide : codeSize ≤ msgBufferSize)
      requests := (by decide : (bytes "LIST").length ≤ msgBufferSize)
      replies := ⟨(by decide : codeSize ≤ msgBufferSize), fun _ =>
        (by decide : strlen [] + strlen terminationString ≤ msgBufferSize)⟩ }

end RemoteCommand
