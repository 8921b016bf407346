import RemoteCommand.Authentication
import RemoteCommand.Commands
import RemoteCommand.Logging

/-!
# The worker thread of server.c

One iteration of the loop of `thread_exec`, and the loop.  The program runs
unchanged in every thread.
-/

namespace RemoteCommand

open Interaction Machine

/-- `send_error` sends as many bytes of its message as a pointer has. -/
def sendError (conn : Int) : Prog Sys Unit := do
  let _ ← send conn ((bytes "500 Server error.").take 8)

/-- Lines 208 to 230: wait for a connection and take it from the queue. -/
def takeConnection : Prog Sys (Option Connection) := do
  if (← waitSemaphore) = -1 then
    return none
  if (← enterCs .connectionsCs) ≠ ok then
    return none
  match ← Call.dequeue.perform with
  | none => return none
  | some co =>
  if (← leaveCs .connectionsCs) ≠ ok then
    sendError (getConn co)
    close (getConn co)
    free co
    return none
  return some co

/-- The locals of `thread_exec` when a request has been received. -/
structure Request where
  conn : Int
  ip : List Byte
  cport : Int
  code : List Byte

/-- Lines 233 to 267: authenticate the client and receive its request.  When
there is none, the connection is closed and freed. -/
def receiveRequest (host : Endian) (serverToken : BitVec 64)
    (co : Connection) : Prog Sys (Option Request) := do
  let conn := getConn co
  let ip := (← getIp co).getD (bytes "PARSING_ERROR")
  let cport := getPort host co
  let auth ← authenticateClient host conn serverToken
  if auth < 0 then
    close conn
    free co
    return none
  let code ← indeterminate
  match ← recv conn msgBufferSize with
  | .data msg _ _ =>
      fill .msg msg
      return some { conn, ip, cport, code }
  | .closed | .error =>
      free co
      close conn
      return none

/-- How an iteration of the loop ends. -/
inductive Next where
  | again
  | leave
  deriving DecidableEq, Repr

/-- Send code and result; tell whether both were sent. -/
def sendReply (conn : Int) (exec : Outcome) : Prog Sys Bool := do
  if (← send conn (cstr exec.code)) < 0 then
    return false
  if (← send conn (cstr exec.result)) < 0 then
    return false
  return true

/-- Lines 298 to 328: send code and result, log the request, clean up.  The
`break` after a failed `send` leaves the loop of the thread. -/
def reply (co : Connection) (request : Request) (exec : Outcome) :
    Prog Sys Next := do
  match ← sendReply request.conn exec with
  | false => return .leave
  | true =>
  let tag ← strtok (some .msg) (bytes " ")
  let threadId ← Call.gettid.perform
  let _ ← logRequest threadId request.ip request.cport tag
  free co
  close request.conn
  return .again

/-- Lines 271 to 328: execute the request and reply. -/
def serveRequest (co : Connection) (request : Request) : Prog Sys Next := do
  mark (.callExecuteCommand request.conn)
  let exec ← executeCommand request.conn [] request.code
  mark (.returnExecuteCommand exec.ret)
  reply co request exec

def sendAnswer (conn : Int) (exec : Outcome) : Prog Sys Outcome := do
  if ← sendReply conn exec then
    close conn
  return exec

/-- The execution of a request as the client sees it: the log and the record of
the connection are left out. -/
def answerRequest (conn : Int) (msg code : List Byte) : Prog Sys Outcome := do
  fill .msg msg
  let exec ← executeCommand conn [] code
  sendAnswer conn exec

def threadIteration (host : Endian) (serverToken : BitVec 64) :
    Prog Sys Next := do
  match ← takeConnection with
  | none => return .again
  | some co =>
  match ← receiveRequest host serverToken co with
  | none => return .again
  | some request => serveRequest co request

/-- Lines 232 to 328: what the iteration does with its connection. -/
def serveConnection (host : Endian) (serverToken : BitVec 64)
    (co : Connection) : Prog Sys Next := do
  match ← receiveRequest host serverToken co with
  | none => return .again
  | some request => serveRequest co request

/-- A turn of the loop of `thread_exec`. -/
def threadTurn (host : Endian) (serverToken : BitVec 64) (_ : Unit) :
    Prog Sys (Unit ⊕ Unit) := do
  match ← threadIteration host serverToken with
  | .again => return .inl ()
  | .leave => return .inr ()

def threadExec (host : Endian) (serverToken : BitVec 64) : Prog Sys Unit :=
  Prog.iterate (threadTurn host serverToken) ()

end RemoteCommand
