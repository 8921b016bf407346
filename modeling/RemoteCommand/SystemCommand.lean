import RemoteCommand.CommandLine
import RemoteCommand.ScriptedTransfer

/-!
# LIST, SIZE and EXEC

The requests that make the server run a system command: what the request is
for the server, what it makes of it on a machine that follows a script, and
what the client gets out of a stream that is cut in any way.
-/

namespace RemoteCommand

open Interaction Machine Prog Transition

/-! ## The execution of a system command -/

/-- What the loop of `exec` keeps of the lines that it reads. -/
def collectOutput : List (List Byte) → List Byte → Nat → List Byte
  | [], result, _ => result
  | line :: lines, result, size =>
      if line.length < msgBufferSize ∧ strlen line < size then
        collectOutput lines (strcat result line) (size - strlen line)
      else
        result

namespace Script

/-- What `exec` keeps of the output of a command. -/
def output (script : Script) : List Byte :=
  collectOutput script.lines [] msgBufferSize

/-- What `exec` makes of a command, by what the script says of it. -/
def execution (script : Script) (cmd : List Byte) : Outcome :=
  match script.answers 0 (.popen cmd) with
  | none =>
      { ret := intErr, result := bytes "Could not popen.", code := bytes "500" }
  | some fp =>
      let status := wexitstatus (script.next.answers 0 (.pclose fp))
      if status = 0 then
        { ret := ok, result := strcat script.output terminationString
          code := bytes "300" }
      else
        { ret := commErr, result := decimal status.toNat, code := bytes "400" }

/-- The command can be run, and exits with status 0. -/
def Succeeds (script : Script) (cmd : List Byte) : Prop :=
  ∃ fp, script.answers 0 (.popen cmd) = some fp ∧
    wexitstatus (script.next.answers 0 (.pclose fp)) = 0

theorem execution_succeeds {script : Script} {cmd : List Byte}
    (succeeds : script.Succeeds cmd) :
    script.execution cmd =
      { ret := ok, result := strcat script.output terminationString
        code := bytes "300" } := by
  obtain ⟨fp, opened, exits⟩ := succeeds
  unfold execution
  rw [opened]
  exact if_pos exits

theorem execution_fails {script : Script} {cmd : List Byte}
    (fails : ¬ script.Succeeds cmd) :
    (script.execution cmd).ret ≠ ok ∧
      ((script.execution cmd).code = bytes "400" ∨
        (script.execution cmd).code = bytes "500") ∧
      cstr (script.execution cmd).result ≠ [] := by
  unfold execution
  cases opened : script.answers 0 (.popen cmd) with
  | none =>
      dsimp only
      exact ⟨by decide, .inr rfl, by decide⟩
  | some fp =>
      have exits : ¬ wexitstatus (script.next.answers 0 (.pclose fp)) = 0 :=
        fun exits => fails ⟨fp, opened, exits⟩
      dsimp only
      rw [if_neg exits]
      refine ⟨(by decide : commErr ≠ ok), .inl rfl, ?_⟩
      let digits := decimalWord
        (wexitstatus (script.next.answers 0 (.pclose fp))).toNat
      have plain : 0 ∉ digits.chars := fun member =>
        (digits.plain 0 member).1 rfl
      rw [show decimal _ = digits.chars from rfl, cstr_eq_self plain]
      exact digits.nonempty

end Script

section Execution

variable {D : Delivery Byte} {α : Type}

/-- The turn of the loop of `exec`. -/
def readTurn (fp : File) (state : List Byte × Nat) :
    Prog Sys ((List Byte × Nat) ⊕ List Byte) :=
  .op (.fgets msgBufferSize fp) fun buffer =>
    match buffer with
    | none => .ret (.inr state.1)
    | some buffer =>
        if strlen buffer.1 < state.2 then
          .ret (.inl (strcat state.1 buffer.1, state.2 - strlen buffer.1))
        else
          .ret (.inr state.1)

theorem readOutput_eq (fp : File) (result : List Byte) :
    readOutput fp result = iterate (readTurn fp) (result, msgBufferSize) := by
  unfold readOutput
  congr 1

/-- The loop of `exec`. -/
theorem script_readTurn (fp : File) (lines : List (List Byte)) :
    ∀ {result : List Byte} {size : Nat} {script : Script},
      script.lines = lines →
      ∃ left, ∀ (next : List Byte → Prog Sys α) (inbox : D.Stream),
        Advances scriptHost
          ⟨.loop (readTurn fp) (result, size) next, script, inbox, false⟩ []
          ⟨next (collectOutput lines result size),
            { script with lines := left }, inbox, false⟩ := by
  induction lines with
  | nil =>
      intro result size script coming
      have reads : script.fgets msgBufferSize =
          (none, { script with lines := [] }) := by
        obtain ⟨memory, reads, error, lines, answers⟩ := script
        cases coming
        rfl
      refine ⟨[], fun next inbox => ?_⟩
      apply Advances.loop
      apply Advances.internal rfl reads
      exact .refl _
  | cons line lines inductionHypothesis =>
      intro result size script coming
      by_cases fits : line.length < msgBufferSize
      · have reads : script.fgets msgBufferSize =
            (some ⟨line, fits⟩, { script with lines }) := by
          rw [Script.fgets, coming]
          exact dif_pos fits
        by_cases small : strlen line < size
        · obtain ⟨left, collects⟩ := @inductionHypothesis (strcat result line)
            (size - strlen line) { script with lines } rfl
          refine ⟨left, fun next inbox => ?_⟩
          apply Advances.loop
          apply Advances.internal rfl reads
          dsimp only
          rw [if_pos small, collectOutput, if_pos ⟨fits, small⟩]
          exact collects next inbox
        · refine ⟨lines, fun next inbox => ?_⟩
          apply Advances.loop
          apply Advances.internal rfl reads
          dsimp only
          rw [if_neg small, collectOutput, if_neg fun both => small both.2]
          exact .refl _
      · have reads : script.fgets msgBufferSize = (none, script) := by
          rw [Script.fgets, coming]
          exact dif_neg fits
        refine ⟨script.lines, fun next inbox => ?_⟩
        apply Advances.loop
        apply Advances.internal rfl reads
        dsimp only
        rw [collectOutput, if_neg fun both => fits both.1]
        exact .refl _

theorem script_exec (cmd : List Byte) (script : Script) :
    ∃ after, ∀ (next : Outcome → Prog Sys α) (inbox : D.Stream),
      Advances scriptHost
        ⟨(exec cmd []).bind next, script, inbox, false⟩ []
        ⟨next (script.execution cmd), after, inbox, false⟩ := by
  unfold exec Script.execution
  simp only [bind_eq, op_bind, pure_eq]
  cases opened : script.answers 0 (.popen cmd) with
  | none =>
      refine ⟨script.next, fun next inbox => ?_⟩
      refine advances_call rfl rfl ?_
      rw [opened]
      exact .refl _
  | some fp =>
      obtain ⟨left, collects⟩ := @script_readTurn D α fp script.lines []
        msgBufferSize script.next rfl
      refine ⟨{ script.next.next with lines := left }, fun next inbox => ?_⟩
      refine advances_call rfl rfl ?_
      rw [opened]
      simp only [readOutput_eq, bind_assoc, iterate_bind]
      apply (collects _ inbox).trans
      refine advances_call rfl rfl ?_
      simp only [ret_bind, ite_bind]
      by_cases succeeds : wexitstatus (script.next.answers 0 (.pclose fp)) = 0
      · rw [if_pos succeeds, if_pos succeeds]
        exact .refl _
      · rw [if_neg succeeds, if_neg succeeds]
        exact .refl _

end Execution

/-! ## The requests -/

/-- What stands behind the name of a command, unless nothing does. -/
def argumentOf (tag : Word) (cmd : List Byte) : Option (List Byte) :=
  match cmd.drop (tag.chars.length + 1) with
  | [] => none
  | argument => some argument

/-- What a request makes the server run. -/
def systemCommand (tag : Word) (argument : Option (List Byte)) :
    Option (List Byte) :=
  if tag.chars = listTag.chars then
    match argument with
    | none => some listCommand
    | some path => some (strcat listCommand path)
  else if tag.chars = execTag.chars then
    argument
  else
    argument.map (strcat sizeCommand)

/-- A request other than a transfer. -/
structure Inquiry where
  tag : Word
  known : tag = listTag ∨ tag = execTag ∨ tag = sizeTag
  cmd : List Byte
  named : cmd = tag.chars ∨ ∃ rest, cmd = tag.chars ++ 32 :: rest
  fits : cmd.length < msgBufferSize
  plain : 0 ∉ cmd

namespace Inquiry

variable (inquiry : Inquiry)

def argument : Option (List Byte) :=
  argumentOf inquiry.tag inquiry.cmd

/-- The two calls of `strtok` on the request. -/
theorem tokens (memory : Strtok Buffer) (key : Buffer) :
    ∃ memory₁ memory₂,
      (memory.load key inquiry.cmd).strtok (some key) (bytes " ") =
        (some inquiry.tag.chars, memory₁) ∧
      memory₁.strtok none (bytes "\x00") = (inquiry.argument, memory₂) := by
  obtain ⟨tag, known, cmd, named, fits, plain⟩ := inquiry
  let start : Strtok Buffer := { memory.load key cmd with save := some (key, 0) }
  have here : start.At key [] cmd := ⟨by simp [start, Strtok.load], rfl⟩
  have nothing : cstr (bytes "\x00") = [] := by decide
  rw [Strtok.strtok_source]
  unfold argument argumentOf
  dsimp only
  rcases named with rfl | ⟨rest, rfl⟩
  · refine ⟨_, _, Strtok.strtok_last (bytes " ") here tag.nonempty
      (isWord_blank tag.plain), Prod.ext ?_ rfl⟩
    rw [Strtok.strtok_end here.behind, List.drop_of_length_le (Nat.le_succ _)]
  · have word (byte : Byte) (member : byte ∈ rest) :
        byte ≠ 0 ∧ byte ∉ cstr (bytes "\x00") := by
      rw [nothing]
      refine ⟨?_, List.not_mem_nil⟩
      rintro rfl
      exact plain (List.mem_append_right _ (List.mem_cons_of_mem _ member))
    obtain ⟨after, called, here, _⟩ := Strtok.strtok_word (bytes " ") here
      tag.nonempty (isWord_blank tag.plain) (by decide)
    rw [List.drop_length_add_append, List.drop_succ_cons, List.drop_zero]
    cases rest with
    | nil =>
        exact ⟨_, _, called, Prod.ext (Strtok.strtok_end here _) rfl⟩
    | cons head tail =>
        exact ⟨_, _, called,
          Strtok.strtok_last _ here (List.cons_ne_nil _ _) word⟩

/-- What the request makes the server run. -/
def command : Option (List Byte) :=
  systemCommand inquiry.tag inquiry.argument

/-- A request without an argument that the server cannot execute. -/
def refusal (code : List Byte) : Prog Sys Outcome :=
  if inquiry.tag.chars = execTag.chars then
    .ret { ret := protoErr, result := [], code }
  else
    .op (.mark .nullArgument) fun _ => .diverge

/-- The server executes what the request asks for. -/
theorem executeTag_eq (conn : Int) (code : List Byte) :
    executeTag conn code inquiry.tag.chars =
      .op (.strtok none (bytes "\x00")) fun argument =>
        match systemCommand inquiry.tag argument with
        | some cmd => exec cmd []
        | none => inquiry.refusal code := by
  unfold executeTag systemCommand refusal
  rcases inquiry.known with same | same | same
  · rw [same, if_pos (by decide)]
    unfold executeList
    simp only [bind_eq, op_bind, ret_bind]
    congr 1
    funext argument
    cases argument <;> rfl
  · rw [same, if_neg (by decide), if_pos (by decide)]
    unfold executeExec
    simp only [bind_eq, op_bind, ret_bind]
    congr 1
    funext argument
    cases argument <;> rfl
  · rw [same, if_neg (by decide), if_neg (by decide), if_pos (by decide)]
    unfold executeSize
    simp only [bind_eq, op_bind, ret_bind]
    congr 1
    funext argument
    cases argument <;> rfl

theorem handleTag_eq (conn : Int) (code : List Byte) :
    handleTag conn code inquiry.tag.chars = handleResult conn [] code := by
  unfold handleTag
  rcases inquiry.known with same | same | same
  · rw [same, if_pos (.inl (by decide))]
  · rw [same, if_pos (.inr (.inr (by decide)))]
  · rw [same, if_pos (.inr (.inl (by decide)))]

/-- The outcome of `execute_command`, unless it reads through a `NULL`. -/
def executes (script : Script) (code : List Byte) : Option Outcome :=
  match inquiry.command with
  | some cmd => some (script.execution cmd)
  | none =>
      if inquiry.tag.chars = execTag.chars then
        some { ret := protoErr, result := [], code }
      else
        none

section Server

variable {D : Delivery Byte} {α : Type}

/-- What the server does with a request that it has got as a whole. -/
theorem answerRequest_advances (conn : Int) (code : List Byte)
    (script : Script) (inbox : D.Stream) (finish : Outcome → Prog Sys α) :
    match inquiry.executes script code with
    | some exec => ∃ after, Advances scriptHost
        ⟨(answerRequest conn inquiry.cmd code).bind finish, script, inbox,
          false⟩
        [cstr exec.code, cstr exec.result] ⟨finish exec, after, inbox, true⟩
    | none => ∃ (after : Script) (next : Outcome → Prog Sys α),
        Advances scriptHost
          ⟨(answerRequest conn inquiry.cmd code).bind finish, script, inbox,
            false⟩
          [] ⟨Prog.diverge.bind next, after, inbox, false⟩ := by
  obtain ⟨memory, memory₂, first, second⟩ :=
    inquiry.tokens script.memory .msg
  have requested (final : Endpoint Sys Script D α) {sent : List (List Byte)}
      {execution : Prog Sys Outcome}
      (executed : (match inquiry.command with
        | some cmd => exec cmd []
        | none => inquiry.refusal code) = execution)
      (rest : Advances scriptHost
        ⟨execution.bind fun exec => (sendAnswer conn exec).bind finish,
          { script with memory := memory₂ }, inbox, false⟩ sent final) :
      Advances scriptHost
        ⟨(answerRequest conn inquiry.cmd code).bind finish, script, inbox,
          false⟩ sent final := by
    unfold answerRequest executeCommand
    simp only [bind_eq, op_bind]
    refine advances_call rfl rfl ?_
    refine advances_call rfl (Script.answer_strtok first) ?_
    change Advances scriptHost
      ⟨((executeTag conn code inquiry.tag.chars).bind (sendAnswer conn)).bind
        finish, _, inbox, false⟩ sent final
    rw [executeTag_eq]
    refine advances_call rfl (Script.answer_strtok second) ?_
    rw [bind_assoc]
    cases executed
    exact rest
  unfold executes
  cases found : inquiry.command with
  | some cmd =>
      obtain ⟨after, executes⟩ := @script_exec D α cmd
        { script with memory := memory₂ }
      refine ⟨after, requested _ (by rw [found]) ?_⟩
      exact (executes (fun exec => (sendAnswer conn exec).bind finish)
        inbox).trans (advances_sendAnswer_bind conn _ _ finish inbox)
  | none =>
      dsimp only
      by_cases isExec : inquiry.tag.chars = execTag.chars
      · rw [if_pos isExec]
        refine ⟨{ script with memory := memory₂ }, requested _ (by rw [found]) ?_⟩
        rw [refusal, if_pos isExec]
        exact advances_sendAnswer_bind conn _ _ finish inbox
      · rw [if_neg isExec]
        refine ⟨Script.next { script with memory := memory₂ },
          fun exec => (sendAnswer conn exec).bind finish,
          requested _ (by rw [found]) ?_⟩
        rw [refusal, if_neg isExec]
        refine advances_call rfl rfl ?_
        exact .refl _

end Server

section Client

variable {cutting other : Cutting} {α γ : Type} {conn : Int}
  {peer : Endpoint Sys Script (other.delivery Byte) γ}

/-- The response of a client that has got the code `300`, when the server has
sent all it sends. -/
theorem reaches_handleResult (ended : peer.closed = true) (script : Script)
    (data : List Byte) (index : Nat) (finish : Outcome → Prog Sys α) :
    ∃ handled stream,
      handled.code = bytes "300" ∧
        handled.result = data.take (cutting.limit index msgBufferSize) ∧
          Reaches scriptHost
            ((⟨((handleResult conn [] (bytes "300")).bind
                (closeConnection conn)).bind finish, script, (data, index),
              false⟩ : Endpoint Sys Script (cutting.delivery Byte) α), peer)
            (⟨finish handled, script, stream, true⟩, peer) := by
  have idle : peer.idle scriptHost false = true :=
    Endpoint.idle_of_closed scriptHost ended false
  unfold handleResult
  rw [if_pos (by decide)]
  simp only [bind_eq, op_bind, pure_eq]
  by_cases nothing : data = []
  · subst nothing
    refine ⟨{ ret := connErr, result := [], code := bytes "300" }, ([], index),
      rfl, List.take_nil.symm, ?_⟩
    refine (Cutting.receive_end rfl (by decide) ended).trans ?_
    exact Advances.leftQuiet peer (advances_close (.refl _))
  · refine ⟨{ ret := ok, result := data.take (cutting.limit index msgBufferSize)
              code := bytes "300" },
      (data.drop (cutting.limit index msgBufferSize), index + 1), rfl, rfl, ?_⟩
    refine (reaches_receive (by decide) nothing idle).trans ?_
    exact Advances.leftQuiet peer (advances_close (.refl _))

/-- What a client obtains, when the server has sent all it sends. -/
theorem reaches_handleCode (ended : peer.closed = true) (script : Script)
    (data : List Byte) (index : Nat) (finish : Outcome → Prog Sys α) :
    ∃ handled after stream,
      handled.code = data.take (cutting.limit index codeSize) ∧
        handled.result = (if handled.code = bytes "300" then
          (data.drop (cutting.limit index codeSize)).take
            (cutting.limit (index + 1) msgBufferSize) else []) ∧
          Reaches scriptHost
            ((⟨.op (.recv conn 0 codeSize) fun received =>
                (handleCode conn received).bind finish,
              { script with memory := script.memory.load .cmd inquiry.cmd },
              (data, index), false⟩ :
              Endpoint Sys Script (cutting.delivery Byte) α), peer)
            (⟨finish handled, after, stream, true⟩, peer) := by
  have idle : peer.idle scriptHost false = true :=
    Endpoint.idle_of_closed scriptHost ended false
  let code := data.take (cutting.limit index codeSize)
  by_cases nothing : data = []
  · subst nothing
    refine ⟨{ ret := connErr, result := [], code := [] },
      { script with memory := script.memory.load .cmd inquiry.cmd },
      ([], index), List.take_nil.symm, (if_neg (by decide)).symm, ?_⟩
    refine (Cutting.receive_end rfl (by decide) ended).trans ?_
    exact Advances.leftQuiet peer (advances_close (.refl _))
  obtain ⟨memory, called⟩ := strtok_named script.memory .cmd inquiry.named
  have received : Reaches scriptHost
      ((⟨.op (.recv conn 0 codeSize) fun received =>
          (handleCode conn received).bind finish,
        { script with memory := script.memory.load .cmd inquiry.cmd },
        (data, index), false⟩ :
        Endpoint Sys Script (cutting.delivery Byte) α), peer)
      (⟨((handleResult conn [] code).bind (closeConnection conn)).bind finish,
        { script with memory },
        (data.drop (cutting.limit index codeSize), index + 1), false⟩,
        peer) := by
    refine (reaches_receive (by decide) nothing idle).trans ?_
    rw [← inquiry.handleTag_eq]
    exact Advances.leftQuiet peer (advances_call rfl (Script.answer_strtok called) (.refl _))
  by_cases succeeds : code = bytes "300"
  · rw [succeeds] at received
    obtain ⟨handled, stream, same, result, reaches⟩ :=
      @reaches_handleResult cutting other α γ conn peer ended
        { script with memory } (data.drop (cutting.limit index codeSize))
        (index + 1) finish
    refine ⟨handled, _, stream, same.trans succeeds.symm, ?_,
      received.trans reaches⟩
    rw [if_pos same, result]
  · have different : strcmp code (bytes "300") ≠ 0 := fun equal =>
      succeeds (eq_of_strcmp_of_length_le equal (by decide)
        (cutting.length_take_limit_le index codeSize data))
    have refuses : handleResult conn [] code =
        .ret { ret := protoErr, result := [], code } := if_neg different
    rw [refuses] at received
    refine ⟨{ ret := protoErr, result := [], code }, { script with memory },
      (data.drop (cutting.limit index codeSize), index + 1), rfl,
      (if_neg succeeds).symm, received.trans ?_⟩
    exact Advances.leftQuiet peer (advances_close (.refl _))

end Client

end Inquiry

end RemoteCommand
