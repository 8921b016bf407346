import RemoteCommand.Authentication
import RemoteCommand.Commands
import RemoteCommand.Configuration

/-!
# client.c

The command line, and `main` behind `connect`.  The arguments of the program
are `argv[1]` to `argv[argc - 1]`.  A command line that makes the program read
through a `NULL`, or write behind `cmd`, is a `Fault`.
-/

namespace RemoteCommand

open Interaction Machine

/-! ## The command line -/

/-- The switch of `parse_command`. -/
def commandTag (option : List Byte) : Option (List Byte) :=
  if option.getD 1 0 = char 'l' then some (bytes "LIST")
  else if option.getD 1 0 = char 'e' then some (bytes "EXEC")
  else if option.getD 1 0 = char 's' then some (bytes "SIZE")
  else if option.getD 1 0 = char 'u' then some (bytes "UPLOAD")
  else if option.getD 1 0 = char 'd' then some (bytes "DOWNLOAD")
  else none

/-- The loop of `parse_command`. -/
def appendArguments (cmd : List Byte) :
    List (List Byte) → Except Fault (List Byte)
  | [] => return cmd
  | argument :: arguments =>
      let cmd := strcat (strcat cmd (bytes " ")) argument
      if msgBufferSize ≤ cmd.length then
        throw .outOfBounds
      else
        appendArguments cmd arguments

/-- `parse_command`, for the arguments from `argv[i]` on: the result, and the
string in `cmd`. -/
def parseCommand : List (List Byte) → Except Fault (Int × List Byte)
  | [] => throw .outOfBounds
  | option :: arguments => do
      if option.getD 0 0 ≠ char '-' then
        return (paramErr, [])
      match commandTag option with
      | none => return (commErr, [])
      | some tag => return (ok, ← appendArguments tag arguments)

/-- What `get_parameters` leaves in `ip`, `port` and `cmd`, as far as it sets
them. -/
structure ClientParameters where
  ip : Option (List Byte)
  port : Option Int
  cmd : Option (List Byte)
  deriving DecidableEq, Repr

namespace ClientParameters

def unset : ClientParameters where
  ip := none
  port := none
  cmd := none

/-- The loop of `get_parameters`. -/
def getParameters (parameters : ClientParameters) :
    List (List Byte) → Except Fault (Int × ClientParameters)
  | [] => return (protoErr, parameters)
  | option :: arguments => do
      if option.getD 0 0 ≠ char '-' then
        return (protoErr, parameters)
      else if option.getD 1 0 = char 'h' then
        match arguments with
        | [] => return (protoErr, { parameters with ip := none })
        | ip :: arguments =>
            getParameters { parameters with ip := some ip } arguments
      else if option.getD 1 0 = char 'p' then
        match arguments with
        | [] => throw .outOfBounds
        | argument :: arguments =>
            let parameters := { parameters with port := some (atoi argument) }
            if atoi argument = 0 then
              return (paramErr, parameters)
            else
              getParameters parameters arguments
      else
        let (ret, cmd) ← parseCommand (option :: arguments)
        return (ret, { parameters with cmd := some cmd })

/-- `main` goes on to `connect` behind the errors that its switch knows. -/
def Connects (argv : List (List Byte)) (ret : Int) (cmd : List Byte) : Prop :=
  ∃ parameters, unset.getParameters argv = .ok (ret, parameters) ∧
    parameters.cmd = some cmd ∧ ret ≠ paramErr ∧ ret ≠ protoErr

end ClientParameters

/-! ## The session -/

def closeConnection (conn : Int) (handled : Outcome) : Prog Sys Outcome := do
  close conn
  return handled

/-- The end of `main`, when the command has been sent: `results` and `code`
are cleared, and the connection is closed whatever the response was. -/
def awaitResponse (conn : Int) (cmd : List Byte) : Prog Sys Outcome := do
  fill .cmd cmd
  let handled ← handleResponse conn [] []
  closeConnection conn handled

/-- `main` behind `connect`. -/
def runCommand (host : Endian) (conn : Int) (serverToken clientToken : BitVec 64)
    (cmd : List Byte) : Prog Sys Outcome := do
  let auth ← authenticateServer host conn serverToken clientToken
  if auth = authFail ∨ auth = connErr ∨ auth = protoErr then
    closeConnection conn { ret := auth, result := [], code := [] }
  else if (← send conn (cstr cmd)) < 0 then
    closeConnection conn { ret := connErr, result := [], code := [] }
  else
    awaitResponse conn cmd

end RemoteCommand
