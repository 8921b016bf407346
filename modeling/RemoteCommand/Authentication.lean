import RemoteCommand.Networking

/-!
# authentication.h
-/

namespace RemoteCommand

open Interaction Machine

/-- Authentication of a client by the server. -/
def authenticateClient (host : Endian) (conn : Int)
    (serverToken : BitVec 64) : Prog Sys Int := do
  -- Receive and check HELO.
  match ← recv conn 4 with
  | .closed | .error => return connErr
  | .data response _ _ =>
  if strcmp response (bytes "HELO") ≠ 0 then
    return protoErr
  if (← send conn (bytes "300")) < 0 then
    return connErr
  -- Calculate and send the challenge.
  let challenge ← longRand
  let xor := serverToken ^^^ challenge
  if (← sendLong host conn xor) < 0 then
    return connErr
  -- Receive and parse AUTH.
  match ← recv conn msgBufferSize with
  | .closed | .error => return connErr
  | .data response _ _ =>
  fill .response response
  match ← strtok (some .response) (bytes " ") with
  | none => return protoErr
  | some auth =>
  match ← strtok none (bytes " ") with
  | none => return protoErr
  | some enc1String =>
  match ← strtok none (bytes "\x00") with
  | none => return protoErr
  | some enc2String =>
  let enc1 := strtoull enc1String
  let enc2 := strtoull enc2String
  if strcmp auth (bytes "AUTH") ≠ 0 then
    if (← send conn (bytes "400")) < 0 then
      return connErr
    return protoErr
  -- Check the challenge.
  let clientToken := enc1 ^^^ xor
  let recvChallenge := enc2 ^^^ clientToken
  if challenge = recvChallenge then
    if (← send conn (bytes "200")) < 0 then
      return connErr
    return ok
  else
    if (← send conn (bytes "400")) < 0 then
      return connErr
    return authFail

/-- Authentication towards the server, by the client. -/
def authenticateServer (host : Endian) (conn : Int)
    (serverToken clientToken : BitVec 64) : Prog Sys Int := do
  if (← send conn (bytes "HELO")) < 0 then
    return connErr
  match ← recv conn codeSize with
  | .closed | .error => return connErr
  | .data response _ _ =>
  if strcmp response (bytes "300") ≠ 0 then
    return protoErr
  -- Receive the challenge.
  let (ret, xor) ← recvLong host conn
  if ret < 0 then
    return connErr
  let challenge := xor ^^^ serverToken
  -- Send the AUTH response.
  let enc1 := xor ^^^ clientToken
  let enc2 := challenge ^^^ clientToken
  let msg := bytes "AUTH " ++ decimal enc1.toNat ++ bytes " " ++
    decimal enc2.toNat
  if (← send conn msg) < 0 then
    return connErr
  match ← recv conn codeSize with
  | .closed | .error => return connErr
  | .data response _ _ =>
  if atoi response = 200 then
    return ok
  return authFail

end RemoteCommand
