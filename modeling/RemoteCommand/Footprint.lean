import RemoteCommand.Server

/-!
# The calls that each part of a worker makes

One lemma for each function says which calls it can make at all.  What a part
of the program cannot do, it does not do in any run of it.
-/

namespace RemoteCommand

open Interaction Machine Prog

/-! ## Synchronization -/

theorem enterCs_only (cs : CriticalSection) :
    (enterCs cs).Only fun call : Call => call = .mutexLock cs :=
  ⟨rfl, fun _ => .ite trivial trivial⟩

theorem leaveCs_only (cs : CriticalSection) :
    (leaveCs cs).Only fun call : Call => call = .mutexUnlock cs :=
  ⟨rfl, fun _ => .ite trivial trivial⟩

def Call.OfTaking : Call → Prop
  | .semWait | .mutexLock .connectionsCs | .mutexUnlock .connectionsCs => True
  | .dequeue | .send _ _ | .close _ | .free _ => True
  | _ => False

theorem takeConnection_only : takeConnection.Only Call.OfTaking := by
  have entering : (enterCs .connectionsCs).Only Call.OfTaking :=
    (enterCs_only _).mono fun call same => by rw [same]; trivial
  have leaving : (leaveCs .connectionsCs).Only Call.OfTaking :=
    (leaveCs_only _).mono fun call same => by rw [same]; trivial
  refine ⟨trivial, fun waited => .ite trivial ?_⟩
  refine entering.bind fun entered => .ite trivial ⟨trivial, fun co => ?_⟩
  cases co with
  | none => trivial
  | some co =>
  refine leaving.bind fun left => .ite ?_ trivial
  exact ⟨trivial, fun _ => ⟨trivial, fun _ => ⟨trivial, fun _ => trivial⟩⟩⟩

/-! ## Authentication -/

def Call.OfAuthentication (conn : Int) : Call → Prop
  | .recv other _ _ | .send other _ => other = conn
  | .rand | .fill .response _ | .strtok _ _ => True
  | _ => False

theorem longRandLoop_only (conn : Int) (turns : Nat) (random : BitVec 64) :
    (longRandLoop turns random).Only (Call.OfAuthentication conn) := by
  induction turns generalizing random with
  | zero => trivial
  | succ turns inductionHypothesis =>
      exact ⟨trivial, fun temp => inductionHypothesis _⟩

theorem sendLong_only (host : Endian) (conn : Int) (value : BitVec 64) :
    (sendLong host conn value).Only (Call.OfAuthentication conn) :=
  ⟨rfl, fun _ => .ite trivial trivial⟩

theorem authenticateClient_only (host : Endian) (conn : Int)
    (serverToken : BitVec 64) :
    (authenticateClient host conn serverToken).Only
      (Call.OfAuthentication conn) := by
  have reply (code : List Byte) (failed succeeded : Int) :
      (send conn code >>= fun sent =>
        if sent < 0 then return failed else return succeeded).Only
          (Call.OfAuthentication conn) :=
    ⟨rfl, fun sent => .ite trivial trivial⟩
  refine ⟨rfl, fun hello => ?_⟩
  cases hello with
  | closed => trivial
  | error => trivial
  | data response nonempty fits =>
  refine .ite trivial ⟨rfl, fun sent => .ite trivial ?_⟩
  refine (longRandLoop_only conn 8 0).bind fun challenge => ?_
  refine (sendLong_only host conn _).bind fun sent => ?_
  refine .ite trivial ⟨rfl, fun message => ?_⟩
  cases message with
  | closed => trivial
  | error => trivial
  | data response nonempty fits =>
  refine ⟨trivial, fun _ => ⟨trivial, fun auth => ?_⟩⟩
  cases auth with
  | none => trivial
  | some auth =>
  refine ⟨trivial, fun enc1 => ?_⟩
  cases enc1 with
  | none => trivial
  | some enc1 =>
  refine ⟨trivial, fun enc2 => ?_⟩
  cases enc2 with
  | none => trivial
  | some enc2 =>
  exact .ite (reply _ _ _) (.ite (reply _ _ _) (reply _ _ _))

def Call.OfReceiving (co : Connection) (call : Call) : Prop :=
  call.OfAuthentication co.conn ∨ call = .inetNtop co.sinAddr ∨
    call = .indeterminate ∨ (∃ msg, call = .fill .msg msg) ∨
      call = .close co.conn ∨ call = .free co

theorem receiveRequest_only (host : Endian) (serverToken : BitVec 64)
    (co : Connection) :
    (receiveRequest host serverToken co).Only (Call.OfReceiving co) := by
  have closing : Call.OfReceiving co (.close co.conn) := by
    simp [Call.OfReceiving]
  have freeing : Call.OfReceiving co (.free co) := by
    simp [Call.OfReceiving]
  refine ⟨.inr (.inl rfl), fun ip => ?_⟩
  have authenticating := authenticateClient_only host co.conn serverToken
  refine (authenticating.mono fun call => Or.inl).bind fun auth => ?_
  refine .ite ⟨closing, fun _ => ⟨freeing, fun _ => trivial⟩⟩ ?_
  refine ⟨.inr (.inr (.inl rfl)), fun code => ⟨.inl rfl, fun msg => ?_⟩⟩
  cases msg with
  | data chars nonempty fits =>
      exact ⟨.inr (.inr (.inr (.inl ⟨chars, rfl⟩))), fun _ => trivial⟩
  | closed => exact ⟨freeing, fun _ => ⟨closing, fun _ => trivial⟩⟩
  | error => exact ⟨freeing, fun _ => ⟨closing, fun _ => trivial⟩⟩

/-! ## The beginning of a transfer -/

/-- The beginning of both transfers: the names, the file, and the code that
tells the client that the server is ready. -/
def beginTransfer (conn : Int) (name : List Byte → List Byte → List Byte)
    (mode result code : List Byte) (transfer : File → Prog Sys Outcome) :
    Prog Sys Outcome :=
  .op (.strtok none (bytes " ")) fun source =>
    match source with
    | none => .ret { ret := protoErr, result, code }
    | some source =>
        .op (.strtok none (bytes " ")) fun dest =>
          match dest with
          | none => .ret { ret := protoErr, result, code }
          | some dest =>
              .op (.fopen (name source dest) mode) fun file =>
                match file with
                | none => .ret { ret := intErr, result, code }
                | some file =>
                    .op (.send conn (bytes "200")) fun sent =>
                      if sent < 0 then .ret { ret := connErr, result, code }
                      else transfer file

/-- What `DOWNLOAD` does with its file. -/
def downloadInto (conn : Int) (result code : List Byte) (file : File) :
    Prog Sys Outcome := do
  let received ← receiveLoop conn file
  if received ≠ ok then
    return { ret := received, result, code }
  fclose file
  return { ret := ok, result := bytes "File downloaded." ++ terminationString
           code := bytes "200" }

/-- What `UPLOAD` does with its file. -/
def uploadFrom (conn : Int) (result code : List Byte) (file : File) :
    Prog Sys Outcome := do
  let sent ← sendLoop conn file
  if sent ≠ ok then
    return { ret := sent, result, code }
  fclose file
  let stale ← indeterminate
  match ← recv conn codeSize with
  | .error => return { ret := connErr, result, code }
  | .closed => executeUpload.checkReceived result code stale
  | .data chars _ _ =>
      executeUpload.checkReceived result code (overwrite chars stale)

theorem executeDownload_begins (conn : Int) (result code : List Byte) :
    executeDownload conn result code =
      beginTransfer conn (fun _ dest => dest) (bytes "wb") result code
        (downloadInto conn result code) := by
  refine congrArg (Prog.op _) (funext fun source => ?_)
  cases source with
  | none => rfl
  | some source =>
  refine congrArg (Prog.op _) (funext fun dest => ?_)
  cases dest with
  | none => rfl
  | some dest =>
  refine congrArg (Prog.op _) (funext fun file => ?_)
  cases file <;> rfl

theorem executeUpload_begins (conn : Int) (result code : List Byte) :
    executeUpload conn result code =
      beginTransfer conn (fun source _ => source) (bytes "rb") result code
        (uploadFrom conn result code) := by
  refine congrArg (Prog.op _) (funext fun source => ?_)
  cases source with
  | none => rfl
  | some source =>
  refine congrArg (Prog.op _) (funext fun dest => ?_)
  cases dest with
  | none => rfl
  | some dest =>
  refine congrArg (Prog.op _) (funext fun file => ?_)
  cases file <;> rfl

theorem beginTransfer_only {P : Call → Prop} {conn : Int}
    {name : List Byte → List Byte → List Byte} {mode result code : List Byte}
    {transfer : File → Prog Sys Outcome}
    (tokens : P (.strtok none (bytes " "))) (opens : ∀ path, P (.fopen path mode))
    (readies : P (.send conn (bytes "200")))
    (transfers : ∀ file, (transfer file).Only P) :
    (beginTransfer conn name mode result code transfer).Only P := by
  refine ⟨tokens, fun source => ?_⟩
  cases source with
  | none => trivial
  | some source =>
  refine ⟨tokens, fun dest => ?_⟩
  cases dest with
  | none => trivial
  | some dest =>
  refine ⟨opens _, fun file => ?_⟩
  cases file with
  | none => trivial
  | some file => exact ⟨readies, fun sent => .ite trivial (transfers file)⟩

/-! ## Execution -/

def Call.OfExecution (conn : Int) : Call → Prop
  | .recv other _ _ | .send other _ => other = conn
  | .strtok _ _ | .indeterminate => True
  | .fopen _ _ | .fread _ _ | .fwrite _ _ | .ferror _ | .feof _ => True
  | .fclose _ | .popen _ | .fgets _ _ | .pclose _ => True
  | _ => False

/-- A call that leaves the arrays alone, but for a `strtok` that goes on where
the last one has ended. -/
def Call.GoesOn : Call → Prop
  | .strtok source _ => source = none
  | .fill _ _ => False
  | _ => True

/-- The calls that run a given system command. -/
def Call.Running (cmd : List Byte) : Call → Prop
  | .popen other => other = cmd
  | .strtok _ _ | .fgets _ _ | .pclose _ => True
  | _ => False

theorem exec_calls (cmd result : List Byte) :
    (exec cmd result).Only fun call : Call => call.Running cmd ∧ call.GoesOn := by
  refine ⟨⟨rfl, trivial⟩, fun fp => ?_⟩
  cases fp with
  | none => trivial
  | some fp =>
  have allowed : True ∧ True := ⟨trivial, trivial⟩
  refine ⟨fun turn => ⟨allowed, fun output => ?_⟩, fun output => ?_⟩
  · cases output with
    | none => trivial
    | some buffer => exact .ite trivial trivial
  · exact ⟨allowed, fun status => .ite trivial trivial⟩

theorem exec_running (cmd result : List Byte) :
    (exec cmd result).Only (Call.Running cmd) :=
  (exec_calls cmd result).mono fun _ => And.left

theorem exec_goesOn (cmd result : List Byte) :
    (exec cmd result).Only Call.GoesOn :=
  (exec_calls cmd result).mono fun _ => And.right

theorem exec_only (conn : Int) (cmd result : List Byte) :
    (exec cmd result).Only (Call.OfExecution conn) := by
  apply (exec_running cmd result).mono
  intro call running
  cases call <;> first | exact running.elim | trivial

theorem executeList_only (conn : Int) (result : List Byte) :
    (executeList result).Only (Call.OfExecution conn) := by
  refine ⟨trivial, fun path => ?_⟩
  cases path with
  | none => exact exec_only conn _ _
  | some path => exact exec_only conn _ _

theorem executeExec_only (conn : Int) (result code : List Byte) :
    (executeExec result code).Only (Call.OfExecution conn) := by
  refine ⟨trivial, fun command => ?_⟩
  cases command with
  | none => trivial
  | some command => exact exec_only conn _ _

/-- The calls of a file transfer. -/
def Call.OfTransfer (conn : Int) : Call → Prop
  | .recv other _ _ | .send other _ => other = conn
  | .strtok _ _ | .indeterminate => True
  | .fopen _ _ | .fread _ _ | .fwrite _ _ | .ferror _ | .feof _ => True
  | .fclose _ => True
  | _ => False

theorem Call.OfTransfer.execution {conn : Int} {call : Call}
    (within : call.OfTransfer conn) : call.OfExecution conn := by
  cases call <;> first | exact within | trivial

theorem receiveLoop_calls (conn : Int) (file : File) :
    (receiveLoop conn file).Only fun call : Call =>
      call.OfTransfer conn ∧ call.GoesOn := by
  have allowed : True ∧ True := ⟨trivial, trivial⟩
  refine ⟨fun recvBytes => .ite ⟨⟨rfl, trivial⟩, fun received => ?_⟩ trivial,
    fun _ => trivial⟩
  cases received with
  | error => exact ⟨allowed, fun _ => trivial⟩
  | closed => exact ⟨allowed, fun _ => trivial⟩
  | data buffer nonempty fits =>
      exact ⟨allowed, fun written =>
        .ite ⟨allowed, fun _ => trivial⟩ trivial⟩

theorem executeDownload_calls (conn : Int) (result code : List Byte) :
    (executeDownload conn result code).Only fun call : Call =>
      call.OfTransfer conn ∧ call.GoesOn := by
  rw [executeDownload_begins]
  refine beginTransfer_only ⟨trivial, rfl⟩ (fun _ => ⟨trivial, trivial⟩)
    ⟨rfl, trivial⟩ fun file => ?_
  refine (receiveLoop_calls conn file).bind fun received => ?_
  exact .ite trivial ⟨⟨trivial, trivial⟩, fun _ => trivial⟩

theorem executeDownload_only (conn : Int) (result code : List Byte) :
    (executeDownload conn result code).Only (Call.OfTransfer conn) :=
  (executeDownload_calls conn result code).mono fun _ => And.left

/-- The calls of the loop that sends a file. -/
def Call.OfSending (conn : Int) : Call → Prop
  | .send other _ => other = conn
  | .fread _ _ | .ferror _ | .feof _ => True
  | _ => False

theorem Call.OfSending.transfer {conn : Int} {call : Call}
    (within : call.OfSending conn) : call.OfTransfer conn ∧ call.GoesOn := by
  cases call <;>
    first | exact ⟨within, trivial⟩ | exact ⟨trivial, trivial⟩ | exact within.elim

theorem sendLoop_only (conn : Int) (file : File) :
    (sendLoop conn file).Only (Call.OfSending conn) := by
  refine ⟨fun charsRead => .ite ⟨trivial, fun buffer => ?_⟩ trivial,
    fun _ => trivial⟩
  have sending : (send conn buffer.1 >>= fun sent =>
      if sent < 0 then return .inr connErr
      else return .inl (buffer.1.length : Int) : Prog Sys (Int ⊕ Int)).Only
        (Call.OfSending conn) :=
    ⟨rfl, fun sent => .ite trivial trivial⟩
  exact .ite
    ⟨trivial, fun error =>
      .ite trivial ⟨trivial, fun eof => .ite trivial sending⟩⟩ sending

theorem executeUpload_calls (conn : Int) (result code : List Byte) :
    (executeUpload conn result code).Only fun call : Call =>
      call.OfTransfer conn ∧ call.GoesOn := by
  have allowed : True ∧ True := ⟨trivial, trivial⟩
  rw [executeUpload_begins]
  refine beginTransfer_only ⟨trivial, rfl⟩ (fun _ => allowed) ⟨rfl, trivial⟩
    fun file => ?_
  refine ((sendLoop_only conn file).mono fun _ => Call.OfSending.transfer).bind
    fun sent => ?_
  refine .ite trivial ⟨allowed, fun _ => ⟨allowed, fun stale => ?_⟩⟩
  refine ⟨⟨rfl, trivial⟩, fun received => ?_⟩
  cases received with
  | error => trivial
  | closed => exact .ite trivial trivial
  | data chars nonempty fits => exact .ite trivial trivial

theorem executeUpload_only (conn : Int) (result code : List Byte) :
    (executeUpload conn result code).Only (Call.OfTransfer conn) :=
  (executeUpload_calls conn result code).mono fun _ => And.left

/-- `SIZE` is the only command that may go on with a `NULL` argument. -/
theorem executeSize_only (conn : Int) (result : List Byte) :
    (executeSize result).Only fun call : Call =>
      call.OfExecution conn ∨ call = .mark .nullArgument := by
  refine ⟨.inl trivial, fun filename => ?_⟩
  cases filename with
  | none => exact ⟨.inr rfl, fun _ => ⟨fun _ => trivial, fun _ => trivial⟩⟩
  | some filename => exact (exec_only conn _ _).mono fun call => Or.inl

theorem executeCommand_only (conn : Int) (result code : List Byte) :
    (executeCommand conn result code).Only fun call : Call =>
      call.OfExecution conn ∨ call = .mark .nullArgument := by
  refine ⟨.inl trivial, fun tag => ?_⟩
  cases tag with
  | none => trivial
  | some tag =>
  refine .ite ((executeList_only conn _).mono fun _ => Or.inl) ?_
  refine .ite ((executeExec_only conn _ _).mono fun _ => Or.inl) ?_
  refine .ite (executeSize_only conn _) ?_
  refine .ite ((executeDownload_only conn _ _).mono fun _ within =>
    .inl within.execution) ?_
  exact .ite ((executeUpload_only conn _ _).mono fun _ within =>
    .inl within.execution) trivial

/-! ## Logging -/

def Call.OfLogging : Call → Prop
  | .time | .localtime _ | .asctime _ | .gettid | .logFilename => True
  | .fill .timestamp _ | .contents .timestamp | .strtok _ _ => True
  | .mutexLock .logCs | .mutexUnlock .logCs => True
  | .fopen _ _ | .fwrite _ _ | .fclose _ => True
  | _ => False

theorem getTime_only : getTime.Only Call.OfLogging := by
  refine ⟨trivial, fun ltime => .ite trivial ⟨trivial, fun tm => ?_⟩⟩
  cases tm with
  | none => trivial
  | some tm =>
  refine ⟨trivial, fun text => ?_⟩
  cases text with
  | none => trivial
  | some text => exact ⟨trivial, fun _ => ⟨trivial, fun _ => trivial⟩⟩

theorem logRequest_only (threadId : Int) (ip : List Byte) (port : Int)
    (tag : Option (List Byte)) :
    (logRequest threadId ip port tag).Only Call.OfLogging := by
  refine getTime_only.bind fun time => .ite trivial ?_
  refine ⟨trivial, fun timestamp => ⟨trivial, fun filename => ?_⟩⟩
  cases filename with
  | none => trivial
  | some filename =>
  have entering : (enterCs .logCs).Only Call.OfLogging :=
    (enterCs_only .logCs).mono fun call same => by rw [same]; trivial
  have leaving : (leaveCs .logCs).Only Call.OfLogging :=
    (leaveCs_only .logCs).mono fun call same => by rw [same]; trivial
  refine entering.bind fun entered => .ite trivial ?_
  refine ⟨trivial, fun file => ?_⟩
  cases file with
  | none => trivial
  | some file =>
  refine ⟨trivial, fun written => ⟨trivial, fun _ => ?_⟩⟩
  exact leaving.bind fun _ => trivial

end RemoteCommand
