import RemoteCommand.Platform

/-!
# commands.h

The command execution of the server and the response handling of the client.
The arrays `result` (or `response`) and `code` belong to the caller: a function
gets the strings they hold and returns what it leaves there.
-/

namespace RemoteCommand

open Interaction Machine

/-- A return value, with the contents of the caller's two arrays. -/
structure Outcome where
  ret : Int
  result : List Byte
  code : List Byte
  deriving DecidableEq, Repr

/-! ## Execution of a system command -/

def wexitstatus (status : Int) : Int :=
  status / 256 % 256

/-- The loop that reads the output of the command.  `size` never falls below
one, so that comparing it with a `size_t` keeps its value. -/
def readOutput (fp : File) (result : List Byte) : Prog Sys (List Byte) :=
  Prog.iterate (fun (result, size) => do
    match ← (Call.fgets msgBufferSize fp).perform with
    | none => return .inr result
    | some buffer =>
        if strlen buffer.1 < size then
          return .inl (strcat result buffer.1, size - strlen buffer.1)
        else
          return .inr result) (result, msgBufferSize)

def exec (cmd result : List Byte) : Prog Sys Outcome := do
  match ← (Call.popen cmd).perform with
  | none =>
      return { ret := intErr, result := bytes "Could not popen."
               code := bytes "500" }
  | some fp =>
  let result ← readOutput fp result
  let result := strcat result terminationString
  let status := wexitstatus (← (Call.pclose fp).perform)
  if status = 0 then
    return { ret := ok, result, code := bytes "300" }
  else
    return { ret := commErr, result := decimal status.toNat
             code := bytes "400" }

def listCommand : List Byte := bytes "ls "

def sizeCommand : List Byte := bytes "stat --printf=%s\\\n "

def executeList (result : List Byte) : Prog Sys Outcome := do
  match ← strtok none (bytes "\x00") with
  | none => exec listCommand result
  | some path => exec (strcat listCommand path) result

def executeExec (result code : List Byte) : Prog Sys Outcome := do
  match ← strtok none (bytes "\x00") with
  | none => return { ret := protoErr, result, code }
  | some command => exec command result

/-- The file name is not checked: `strcat` gets `NULL` when there is none. -/
def executeSize (result : List Byte) : Prog Sys Outcome := do
  match ← strtok none (bytes "\x00") with
  | none =>
      mark .nullArgument
      Prog.diverge
  | some filename => exec (strcat sizeCommand filename) result

/-! ## File transfer

Both sides have the same two loops, one to send a file and one to receive it.
-/

/-- A turn of the loop of the sender: `UPLOAD` in `execute_command`,
`DOWNLOAD` in `handle_response`. -/
def sendTurn (conn : Int) (file : File) (charsRead : Int) :
    Prog Sys (Int ⊕ Int) :=
  if charsRead = msgBufferSize then do
    let buffer ← fread msgBufferSize file
    if buffer.1.length = 0 then
      if (← ferror file) ≠ 0 then
        return .inr intErr
      else if (← feof file) ≠ 0 then
        return .inr intErr
    if (← send conn buffer.1) < 0 then
      return .inr connErr
    return .inl buffer.1.length
  else
    return .inr ok

def sendLoop (conn : Int) (file : File) : Prog Sys Int :=
  Prog.iterate (sendTurn conn file) msgBufferSize

/-- A turn of the loop of the receiver: `DOWNLOAD` in `execute_command`,
`UPLOAD` in `handle_response`. -/
def receiveTurn (conn : Int) (file : File) (recvBytes : Int) :
    Prog Sys (Int ⊕ Int) :=
  if recvBytes = msgBufferSize then do
    match ← recv conn msgBufferSize with
    | .error =>
        fclose file
        return .inr connErr
    | .closed =>
        fclose file
        return .inr connErr
    | .data buffer _ _ =>
        if (← fwrite buffer file) ≠ buffer.length then
          fclose file
          return .inr intErr
        return .inl buffer.length
  else
    return .inr ok

def receiveLoop (conn : Int) (file : File) : Prog Sys Int :=
  Prog.iterate (receiveTurn conn file) msgBufferSize

def executeDownload (conn : Int) (result code : List Byte) :
    Prog Sys Outcome := do
  match ← strtok none (bytes " ") with
  | none => return { ret := protoErr, result, code }
  | some _ =>
  match ← strtok none (bytes " ") with
  | none => return { ret := protoErr, result, code }
  | some dest =>
  match ← fopen dest (bytes "wb") with
  | none => return { ret := intErr, result, code }
  | some file =>
  if (← send conn (bytes "200")) < 0 then
    return { ret := connErr, result, code }
  let received ← receiveLoop conn file
  if received ≠ ok then
    return { ret := received, result, code }
  fclose file
  return { ret := ok, result := bytes "File downloaded." ++ terminationString
           code := bytes "200" }

def executeUpload (conn : Int) (result code : List Byte) :
    Prog Sys Outcome := do
  match ← strtok none (bytes " ") with
  | none => return { ret := protoErr, result, code }
  | some source =>
  match ← strtok none (bytes " ") with
  | none => return { ret := protoErr, result, code }
  | some _ =>
  match ← fopen source (bytes "rb") with
  | none => return { ret := intErr, result, code }
  | some file =>
  if (← send conn (bytes "200")) < 0 then
    return { ret := connErr, result, code }
  let sent ← sendLoop conn file
  if sent ≠ ok then
    return { ret := sent, result, code }
  fclose file
  -- `received` has three bytes; the string goes on behind it.
  let stale ← indeterminate
  match ← recv conn codeSize with
  | .error => return { ret := connErr, result, code }
  | .closed => checkReceived stale
  | .data chars _ _ => checkReceived (overwrite chars stale)
where
  checkReceived (received : List Byte) : Prog Sys Outcome := do
    if strcmp received (bytes "200") = 0 then
      return { ret := ok, result := bytes "File uploaded." ++ terminationString
               code := bytes "200" }
    return { ret := protoErr, result, code }

/-- Execution of the request in `msg`. -/
def executeCommand (conn : Int) (result code : List Byte) :
    Prog Sys Outcome := do
  match ← strtok (some .msg) (bytes " ") with
  | none => return { ret := protoErr, result, code }
  | some tag =>
  if strcmp tag (bytes "LIST") = 0 then
    executeList result
  else if strcmp tag (bytes "EXEC") = 0 then
    executeExec result code
  else if strcmp tag (bytes "SIZE") = 0 then
    executeSize result
  else if strcmp tag (bytes "DOWNLOAD") = 0 then
    executeDownload conn result code
  else if strcmp tag (bytes "UPLOAD") = 0 then
    executeUpload conn result code
  else
    return { ret := protoErr, result := bytes "Command not supported."
             code := bytes "400" }

/-! ## Response handling, client side -/

def handleResult (conn : Int) (response code : List Byte) :
    Prog Sys Outcome := do
  if strcmp code (bytes "300") = 0 then
    match ← recv conn msgBufferSize with
    | .closed | .error => return { ret := connErr, result := [], code }
    | .data chars _ _ => return { ret := ok, result := chars, code }
  else
    return { ret := protoErr, result := response, code }

/-- The code and the result that follow a transfer. -/
def receiveReply (conn : Int) (response code : List Byte) :
    Prog Sys Outcome := do
  match ← recv conn codeSize with
  | .closed | .error => return { ret := connErr, result := response, code }
  | .data chars _ _ =>
  let code := overwrite chars code
  match ← recv conn msgBufferSize with
  | .closed | .error => return { ret := connErr, result := [], code }
  | .data chars _ _ => return { ret := ok, result := chars, code }

def handleDownload (conn : Int) (response code : List Byte) :
    Prog Sys Outcome := do
  if strcmp code (bytes "200") = 0 then
    match ← strtok none (bytes " ") with
    | none => return { ret := protoErr, result := response, code }
    | some filename =>
    match ← fopen filename (bytes "rb") with
    | none => return { ret := intErr, result := response, code }
    | some file =>
    let sent ← sendLoop conn file
    if sent ≠ ok then
      return { ret := sent, result := response, code }
    receiveReply conn response code
  else
    return { ret := protoErr, result := response, code }

def handleUpload (conn : Int) (response code : List Byte) :
    Prog Sys Outcome := do
  if strcmp code (bytes "200") = 0 then
    match ← strtok none (bytes " ") with
    | none => return { ret := protoErr, result := response, code }
    | some _ =>
    match ← strtok none (bytes " ") with
    | none => return { ret := protoErr, result := response, code }
    | some dest =>
    match ← fopen dest (bytes "wb") with
    | none => return { ret := intErr, result := response, code }
    | some file =>
    let received ← receiveLoop conn file
    if received ≠ ok then
      return { ret := received, result := response, code }
    fclose file
    if (← send conn (bytes "200")) < 0 then
      return { ret := connErr, result := response, code }
    receiveReply conn response code
  else
    return { ret := protoErr, result := response, code }

/-- Handling of the response to the command in `cmd`. -/
def handleResponse (conn : Int) (response code : List Byte) :
    Prog Sys Outcome := do
  match ← recv conn codeSize with
  | .closed | .error => return { ret := connErr, result := response, code }
  | .data chars _ _ =>
  let code := overwrite chars code
  match ← strtok (some .cmd) (bytes " ") with
  | none => return { ret := intErr, result := response, code }
  | some tag =>
  if strcmp tag (bytes "LIST") = 0 ∨ strcmp tag (bytes "SIZE") = 0 ∨
      strcmp tag (bytes "EXEC") = 0 then
    handleResult conn response code
  else if strcmp tag (bytes "DOWNLOAD") = 0 then
    handleDownload conn response code
  else if strcmp tag (bytes "UPLOAD") = 0 then
    handleUpload conn response code
  else
    return { ret := commErr, result := response, code }

end RemoteCommand
