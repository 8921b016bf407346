import RemoteCommand.SystemCommand
import RemoteCommand.WholeTransfer

/-!
# What server and client make of a request

A request has arrived, and every message arrives whole.  When the server has
closed, what the client returns depends on the messages that it gets; for LIST,
SIZE and EXEC these are code and result.
-/

namespace RemoteCommand

open Interaction Machine Prog Transition

/-! ## The words of a request -/

/-- The words that three calls of `strtok` find. -/
def wordOf (cmd : List Byte) (index : Nat) : Option (List Byte) :=
  ((Strtok.ofArray cmd).tokens (some ())
    [bytes " ", bytes " ", bytes " "]).getD index none

theorem strtok_wordOf {κ : Type} [DecidableEq κ] (memory : Strtok κ) (key : κ)
    (cmd : List Byte) :
    ∃ memory₁ memory₂ memory₃,
      (memory.load key cmd).strtok (some key) (bytes " ") =
          (wordOf cmd 0, memory₁) ∧
        memory₁.strtok none (bytes " ") = (wordOf cmd 1, memory₂) ∧
          memory₂.strtok none (bytes " ") = (wordOf cmd 2, memory₃) := by
  have same := Strtok.tokens_ofArray (memory.load key cmd) key
    [bytes " ", bytes " ", bytes " "]
  have holds : (memory.load key cmd).buffer key = cmd := by
    simp [Strtok.load]
  rw [holds] at same
  unfold wordOf
  rw [← same]
  exact ⟨_, _, _, rfl, rfl, rfl⟩

theorem wordOf_named {cmd : List Byte} {tag : Word}
    (named : cmd = tag.chars ∨ ∃ rest, cmd = tag.chars ++ 32 :: rest) :
    wordOf cmd 0 = some tag.chars := by
  obtain ⟨_, _, _, first, _⟩ := strtok_wordOf (Strtok.ofArray []) () cmd
  obtain ⟨_, called⟩ := strtok_named (Strtok.ofArray []) () named
  rw [called] at first
  exact (Prod.mk.inj first).1.symm

/-! ## The two sides -/

/-- A request that has arrived, and the machines of the two sides. -/
structure Errand where
  cmd : List Byte
  isCommand : IsCommand cmd
  serverConn : Int
  clientConn : Int
  /-- What the array `code` of the server holds before the request. -/
  code : List Byte
  server : Script
  client : Script

namespace Errand

variable (errand : Errand)

abbrev Side : Type 1 :=
  Endpoint Sys Script (whole Byte) Outcome

def start : Side × Side :=
  (⟨answerRequest errand.serverConn errand.cmd errand.code, errand.server, [],
      false⟩,
    ⟨awaitResponse errand.clientConn errand.cmd, errand.client, [], false⟩)

/-- The client returns `OK` if and only if the server does. -/
def Agrees : Prop :=
  LeftReturns scriptHost errand.start (fun exec => exec.ret = ok) ↔
    RightReturns scriptHost errand.start (fun handled => handled.ret = ok)

theorem agrees_iff {serverOk clientOk : Prop}
    (finishes : Finishes scriptHost errand.start fun exec handled =>
      (exec.ret = ok ↔ serverOk) ∧ (handled.ret = ok ↔ clientOk)) :
    errand.Agrees ↔ (serverOk ↔ clientOk) := by
  have left := (finishes.mono fun _ _ both => both.1).leftReturns_iff
  have right := (finishes.mono fun _ _ both => both.2).rightReturns_iff
  rw [Agrees, left, right]

/-- The string in the array `code` of the server. -/
def garbage : List Byte :=
  cstr errand.code

end Errand

/-! ## The reply of the server -/

section Server

variable {conn : Int} {server client : Script}
  {program : Prog Sys Outcome} {inbox messages : List (List Byte)}
  {related : Outcome → Outcome → Prop}

/-- The server replies to a client that goes on. -/
theorem finishes_sendAnswer (exec : Outcome)
    (finishes : Finishes scriptHost
      ((⟨.ret exec, server, inbox, true⟩ : Errand.Side),
        (⟨program, client, messages ++
          (packet (cstr exec.code) ++ packet (cstr exec.result)), false⟩ :
          Errand.Side)) related) :
    Finishes scriptHost
      ((⟨sendAnswer conn exec, server, inbox, false⟩ : Errand.Side),
        (⟨program, client, messages, false⟩ : Errand.Side)) related := by
  have sends := @advances_sendAnswer Script Script.answer (whole Byte) conn
    exec server inbox
  refine Finishes.left sends ?_
  rw [deliverAll_whole, List.flatMap_cons, List.flatMap_singleton]
  exact finishes

/-- The server replies to a client that has finished. -/
theorem finishes_sendAnswer_done (exec : Outcome) {handled : Outcome}
    {closed : Bool} (holds : related exec handled) :
    Finishes scriptHost
      ((⟨sendAnswer conn exec, server, inbox, false⟩ : Errand.Side),
        (⟨.ret handled, client, messages, closed⟩ : Errand.Side)) related := by
  have sends := @advances_sendAnswer Script Script.answer (whole Byte) conn
    exec server inbox
  refine Finishes.left sends ?_
  rw [deliverAll_whole]
  exact .done rfl rfl holds

end Server

/-! ## The client -/

section Client

variable {conn : Int} {script : Script} {server : Errand.Side}
  {messages : List (List Byte)} {exec : Outcome}

/-- The client waits for a code. -/
def clientWaits (conn : Int) (cmd : List Byte) (client : Script)
    (messages : List (List Byte)) : Errand.Side :=
  ⟨.op (.recv conn 0 codeSize) (handleCode conn),
    { client with memory := client.memory.load .cmd cmd }, messages, false⟩

theorem clientWaits_deliverAll (cmd : List Byte) (client : Script)
    (sent : List (List Byte)) :
    (clientWaits conn cmd client messages).deliverAll sent =
      clientWaits conn cmd client (messages ++ sent.flatMap packet) :=
  deliverAll_whole sent

theorem script_awaitResponse (cmd : List Byte) (client : Script) :
    Advances scriptHost
      (⟨awaitResponse conn cmd, client, messages, false⟩ : Errand.Side) []
      (clientWaits conn cmd client messages) := by
  rw [awaitResponse_eq]
  exact advances_call rfl rfl (.refl _)

/-- When it gets a message, it finds the words of its command. -/
theorem script_handleCode {cmd : List Byte} {tag : Word}
    (named : cmd = tag.chars ∨ ∃ rest, cmd = tag.chars ++ 32 :: rest)
    (client : Script) :
    ∃ memory₁ memory₂ memory₃,
      memory₁.strtok none (bytes " ") = (wordOf cmd 1, memory₂) ∧
        memory₂.strtok none (bytes " ") = (wordOf cmd 2, memory₃) ∧
          ∀ {data : List Byte} (_ : data ≠ []) (messages : List (List Byte)),
            Advances scriptHost
              (clientWaits conn cmd client (packet data ++ messages)) []
              ⟨(handleTag conn (data.take codeSize) tag.chars).bind
                  (closeConnection conn),
                { client with memory := memory₁ },
                packet (data.drop codeSize) ++ messages, false⟩ := by
  obtain ⟨memory₁, memory₂, memory₃, first, second, third⟩ :=
    strtok_wordOf client.memory .cmd cmd
  rw [wordOf_named named] at first
  refine ⟨memory₁, memory₂, memory₃, second, third, ?_⟩
  intro data nonempty messages
  apply script_packet nonempty (by decide)
  intro some_bytes fits
  refine advances_call rfl (Script.answer_strtok first) ?_
  exact .refl _

/-- It gives up when there is no message. -/
theorem finishes_nothing (returned : server.program = .ret exec)
    (ended : server.closed = true) (cmd : List Byte) (client : Script) :
    Finishes scriptHost (clientWaits conn cmd client [], server)
      fun handled other => other = exec ∧ handled.ret = connErr := by
  refine Finishes.of_reaches (reaches_closed ended) ?_
  refine Finishes.leftQuiet (advances_closeConnection _ _ _ _) ?_
  exact .done rfl returned ⟨rfl, rfl⟩

/-- The response to a request other than a transfer. -/
theorem finishes_handleResult (returned : server.program = .ret exec)
    (ended : server.closed = true) {code : List Byte}
    (fits : code.length ≤ codeSize) (data : List Byte) :
    Finishes scriptHost
      ((⟨(handleResult conn [] code).bind (closeConnection conn), script,
        packet data, false⟩ : Errand.Side), server)
      fun handled other => other = exec ∧
        (handled.ret = ok ↔ code = bytes "300" ∧ data ≠ []) := by
  by_cases succeeds : code = bytes "300"
  rotate_left
  · have different : strcmp code (bytes "300") ≠ 0 := fun equal =>
      succeeds (eq_of_strcmp_of_length_le equal (by decide) fits)
    rw [handleResult, if_neg different]
    refine Finishes.leftQuiet (advances_closeConnection _ _ _ _) ?_
    exact .done rfl returned
      ⟨rfl, iff_of_false (by decide : protoErr ≠ ok) fun both =>
        succeeds both.1⟩
  subst succeeds
  rw [handleResult, if_pos (by decide)]
  simp only [bind_eq, op_bind, pure_eq]
  by_cases nothing : data = []
  · subst nothing
    refine Finishes.of_reaches (reaches_closed ended) ?_
    refine Finishes.leftQuiet (advances_closeConnection _ _ _ _) ?_
    exact .done rfl returned
      ⟨rfl, iff_of_false (by decide) fun both => both.2 rfl⟩
  · rw [← List.append_nil (packet data)]
    refine Finishes.leftQuiet (script_packet nothing (by decide)
      fun _ _ => advances_closeConnection _ _ _ _) ?_
    exact .done rfl returned ⟨rfl, iff_of_true rfl ⟨trivial, nothing⟩⟩

end Client

/-! ## LIST, SIZE and EXEC -/

section Inquiries

variable {conn : Int} {server : Errand.Side} {exec : Outcome}

/-- The client gets a code and a response, which is not empty. -/
theorem finishes_inquiry (inquiry : Inquiry) (client : Script)
    (returned : server.program = .ret exec) (ended : server.closed = true)
    {code result : List Byte} (three : code.length = codeSize)
    (nonempty : result ≠ []) :
    Finishes scriptHost
      (clientWaits conn inquiry.cmd client (packet code ++ packet result),
        server)
      fun handled other => other = exec ∧
        (handled.ret = ok ↔ code = bytes "300") := by
  obtain ⟨_, _, _, _, _, handles⟩ :=
    @script_handleCode conn inquiry.cmd inquiry.tag inquiry.named client
  have someCode : code ≠ [] := by
    rw [← List.length_pos_iff, three]
    decide
  refine Finishes.leftQuiet (handles someCode _) ?_
  rw [inquiry.handleTag_eq, List.take_of_length_le three.le,
    List.drop_of_length_le three.le]
  refine (finishes_handleResult returned ended three.le result).mono ?_
  exact fun handled other both =>
    ⟨both.1, both.2.trans (and_iff_left nonempty)⟩

/-- The client gets one message. -/
theorem finishes_inquiry_alone (inquiry : Inquiry) (client : Script)
    (returned : server.program = .ret exec) (ended : server.closed = true)
    (data : List Byte) :
    Finishes scriptHost
      (clientWaits conn inquiry.cmd client (packet data), server)
      fun handled other => other = exec ∧ (handled.ret = ok ↔
        data.take codeSize = bytes "300" ∧ codeSize < data.length) := by
  by_cases nothing : data = []
  · subst nothing
    refine (finishes_nothing returned ended _ client).mono ?_
    rintro handled other ⟨same, failed⟩
    refine ⟨same, iff_of_false ?_ fun both => absurd both.2 (by decide)⟩
    rw [failed]
    decide
  obtain ⟨_, _, _, _, _, handles⟩ :=
    @script_handleCode conn inquiry.cmd inquiry.tag inquiry.named client
  rw [← List.append_nil (packet data)]
  refine Finishes.leftQuiet (handles nothing _) ?_
  rw [inquiry.handleTag_eq, List.append_nil]
  refine (finishes_handleResult returned ended (List.length_take_le _ _)
    (data.drop codeSize)).mono ?_
  rintro handled other ⟨same, succeeds⟩
  refine ⟨same, succeeds.trans (and_congr_right fun _ => ?_)⟩
  rw [← List.length_pos_iff, List.length_drop]
  exact Nat.sub_pos_iff_lt

end Inquiries

namespace Errand

variable (errand : Errand)

section Inquiries

variable {inquiry : Inquiry} (same : inquiry.cmd = errand.cmd)

include same

/-- The server has executed the request and replied. -/
theorem reaches_executed {exec : Outcome}
    (executes : inquiry.executes errand.server errand.code = some exec) :
    ∃ server : Side, server.program = .ret exec ∧ server.closed = true ∧
      Reaches scriptHost errand.start
        (server, clientWaits errand.clientConn inquiry.cmd errand.client
          (packet (cstr exec.code) ++ packet (cstr exec.result))) := by
  have answers := @Inquiry.answerRequest_advances inquiry (whole Byte) Outcome
    errand.serverConn errand.code errand.server [] .ret
  rw [executes, bind_ret, same] at answers
  obtain ⟨after, answers⟩ := answers
  have waits := (@script_awaitResponse errand.clientConn [] errand.cmd
    errand.client).right (⟨answerRequest errand.serverConn errand.cmd
      errand.code, errand.server, [], false⟩ : Side)
  have sent := answers.left
    (clientWaits errand.clientConn errand.cmd errand.client [])
  rw [clientWaits, deliverAll_whole, List.flatMap_cons,
    List.flatMap_singleton] at sent
  rw [same]
  exact ⟨_, rfl, rfl, waits.trans sent⟩

/-- A system command, whatever its output and its exit status. -/
theorem finishes_command {cmd : List Byte} (found : inquiry.command = some cmd) :
    Finishes scriptHost errand.start fun exec handled =>
      (exec.ret = ok ↔ errand.server.Succeeds cmd) ∧
        (handled.ret = ok ↔ errand.server.Succeeds cmd) := by
  have executes : inquiry.executes errand.server errand.code =
      some (errand.server.execution cmd) := by
    rw [Inquiry.executes, found]
  obtain ⟨server, returned, ended, reached⟩ :=
    errand.reaches_executed same executes
  apply Finishes.of_reaches reached
  by_cases succeeds : errand.server.Succeeds cmd
  · have code : cstr (errand.server.execution cmd).code = bytes "300" := by
      rw [Script.execution_succeeds succeeds]
      exact (by decide : cstr (bytes "300") = bytes "300")
    have nonempty : cstr (errand.server.execution cmd).result ≠ [] := by
      have some_bytes : 0 < strlen
          (strcat errand.server.output terminationString) := by
        rw [strlen_strcat]
        exact Nat.add_pos_right _ (by decide)
      rw [Script.execution_succeeds succeeds]
      exact List.ne_nil_of_length_pos some_bytes
    refine ((finishes_inquiry inquiry errand.client returned ended
      (by rw [code]; decide) nonempty).swap).mono ?_
    rintro exec handled ⟨rfl, accepts⟩
    refine ⟨iff_of_true ?_ succeeds, iff_of_true (accepts.2 code) succeeds⟩
    rw [Script.execution_succeeds succeeds]
  · obtain ⟨failed, failure, nonempty⟩ := Script.execution_fails succeeds
    have code : (cstr (errand.server.execution cmd).code).length = codeSize ∧
        cstr (errand.server.execution cmd).code ≠ bytes "300" := by
      rcases failure with same | same <;>
        · rw [same]
          decide
    refine ((finishes_inquiry inquiry errand.client returned ended code.1
      nonempty).swap).mono ?_
    rintro exec handled ⟨rfl, accepts⟩
    exact ⟨iff_of_false failed succeeds,
      iff_of_false (fun accepted => code.2 (accepts.1 accepted)) succeeds⟩

/-- EXEC without a command. -/
theorem finishes_noCommand (found : inquiry.command = none)
    (isExec : inquiry.tag.chars = execTag.chars) :
    Finishes scriptHost errand.start fun exec handled =>
      (exec.ret = ok ↔ False) ∧ (handled.ret = ok ↔
        errand.garbage.take codeSize = bytes "300" ∧
          codeSize < errand.garbage.length) := by
  have executes : inquiry.executes errand.server errand.code =
      some { ret := protoErr, result := [], code := errand.code } := by
    rw [Inquiry.executes, found]
    exact if_pos isExec
  obtain ⟨server, returned, ended, reached⟩ :=
    errand.reaches_executed same executes
  apply Finishes.of_reaches reached
  rw [cstr_nil, packet, List.append_nil]
  refine ((finishes_inquiry_alone inquiry errand.client returned ended
    errand.garbage).swap).mono ?_
  rintro exec handled ⟨rfl, succeeds⟩
  exact ⟨iff_of_false (by decide : protoErr ≠ ok) id, succeeds⟩

/-- SIZE without a file name. -/
theorem agrees_noFile (found : inquiry.command = none)
    (notExec : inquiry.tag.chars ≠ execTag.chars) : errand.Agrees := by
  have executes : inquiry.executes errand.server errand.code = none := by
    rw [Inquiry.executes, found]
    exact if_neg notExec
  have answers := @Inquiry.answerRequest_advances inquiry (whole Byte) Outcome
    errand.serverConn errand.code errand.server [] .ret
  rw [executes, bind_ret, same] at answers
  obtain ⟨after, next, answers⟩ := answers
  have waits := (@script_awaitResponse errand.clientConn [] errand.cmd
    errand.client).right (⟨answerRequest errand.serverConn errand.cmd
      errand.code, errand.server, [], false⟩ : Side)
  have reached := waits.trans (answers.leftQuiet _)
  have blocked : Endpoint.Blocked scriptHost
      (clientWaits errand.clientConn errand.cmd errand.client []) :=
    ⟨_, rfl⟩
  exact iff_of_false (not_leftReturns reached rfl _)
    (not_rightReturns reached rfl rfl blocked _)

end Inquiries

end Errand

end RemoteCommand
