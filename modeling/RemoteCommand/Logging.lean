import RemoteCommand.Platform

/-!
# timing.h and logging.h
-/

namespace RemoteCommand

open Interaction Machine

def getTime : Prog Sys Int := do
  let ltime ← Call.time.perform
  if ltime = -1 then
    return intErr
  match ← (Call.localtime ltime).perform with
  | none => return intErr
  | some tm =>
  match ← (Call.asctime tm).perform with
  | none => return intErr
  | some text =>
  fill .timestamp text
  let _ ← strtok (some .timestamp) (bytes "\n")
  return ok

/-- The text of `%d`. -/
def decimalInt (value : Int) : List Byte :=
  if value < 0 then bytes "-" ++ decimal value.natAbs
  else decimal value.natAbs

/-- The text of `%s`; a `NULL` is printed as `(null)`. -/
def printed (text : Option (List Byte)) : List Byte :=
  cstr (text.getD (bytes "(null)"))

def logRequest (threadId : Int) (ip : List Byte) (port : Int)
    (tag : Option (List Byte)) : Prog Sys Int := do
  if (← getTime) ≠ ok then
    return intErr
  let timestamp ← contents .timestamp
  let message := cstr timestamp ++ bytes ", " ++ cstr ip ++ bytes ", " ++
    decimalInt port ++ bytes ", " ++ printed tag ++ bytes ", t_id: " ++
    decimalInt threadId ++ bytes " \n"
  match ← Call.logFilename.perform with
  | none => return intErr
  | some filename =>
  if (← enterCs .logCs) ≠ ok then
    return intErr
  match ← fopen filename (bytes "a") with
  | none => return intErr
  | some file =>
  let _ ← fwrite message file
  fclose file
  let _ ← leaveCs .logCs
  return ok

end RemoteCommand
