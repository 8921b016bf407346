import RemoteCommand.Interaction.Program
import RemoteCommand.Machine.Numeral

/-!
# The system calls of client and server

Every call whose outcome the program does not determine is an operation: socket
and file calls, semaphore and mutex calls, `rand`, and the contents of arrays
that nobody has written yet.  `strtok` is an operation as well, because its
save pointer is shared by the threads of the process.  The Linux build is
modelled; what is printed on the terminal is left out.

A `send` to a connection that its peer has closed raises SIGPIPE, which nothing
in the program handles: such a call is not answered, and the process ends in it
(`Interaction.Fate`).

A `Mark` is no call.  It marks a point of the program in its trace.
-/

namespace RemoteCommand

open Interaction Machine

/-! ## constants.h -/

def codeSize : Nat := 3

def msgBufferSize : Nat := 2048

def terminationString : List Byte := bytes "\r\n\r\n"

def ok : Int := 0

def paramErr : Int := -1

def authFail : Int := -2

def connErr : Int := -3

def protoErr : Int := -4

def commErr : Int := -5

def intErr : Int := -6

/-! ## Data -/

inductive Endian where
  | little
  | big
  deriving DecidableEq, Repr

/-- A pointer to a `struct Connection`, with what it points to. -/
structure Connection where
  pointer : Nat
  conn : Int
  sinAddr : BitVec 32
  sinPort : BitVec 16
  deriving DecidableEq, Repr

/-- The arrays that `strtok` is called on. -/
inductive Buffer where
  | response
  | msg
  | cmd
  | timestamp
  deriving DecidableEq, Repr

inductive CriticalSection where
  | connectionsCs
  | logCs
  deriving DecidableEq, Repr

/-- A `FILE` pointer other than `NULL`. -/
abbrev File : Type := Nat

/-- The members of a `struct tm`. -/
abbrev Tm : Type := List Int

/-- The result of a `recv` that asks for `length` bytes. -/
inductive Received (length : Nat) where
  | data (chars : List Byte) (nonempty : chars ≠ [])
      (fits : chars.length ≤ length)
  | closed
  | error
  deriving DecidableEq

inductive Mark where
  | callExecuteCommand (conn : Int)
  | returnExecuteCommand (ret : Int)
  | nullArgument
  deriving DecidableEq, Repr

/-! ## Calls -/

inductive Call where
  | semWait
  | mutexLock (cs : CriticalSection)
  | mutexUnlock (cs : CriticalSection)
  | dequeue
  | free (co : Connection)
  | inetNtop (address : BitVec 32)
  | recv (conn offset : Int) (length : Nat)
  | send (conn : Int) (data : List Byte)
  | close (conn : Int)
  | fill (buffer : Buffer) (chars : List Byte)
  | contents (buffer : Buffer)
  | strtok (source : Option Buffer) (delim : List Byte)
  | indeterminate
  | rand
  | time
  | localtime (ltime : Int)
  | asctime (tm : Tm)
  | gettid
  | logFilename
  | fopen (path mode : List Byte)
  | fread (length : Nat) (file : File)
  | fwrite (chars : List Byte) (file : File)
  | ferror (file : File)
  | feof (file : File)
  | fclose (file : File)
  | popen (cmd : List Byte)
  | fgets (length : Nat) (file : File)
  | pclose (file : File)
  | mark (point : Mark)
  deriving DecidableEq

@[reducible]
def Call.Answer : Call → Type
  | semWait | mutexLock _ | mutexUnlock _ => Int
  | dequeue => Option Connection
  | inetNtop _ | strtok _ _ | asctime _ | logFilename => Option (List Byte)
  | recv _ _ length => Received length
  | send _ _ | time | gettid => Int
  | ferror _ | feof _ | pclose _ => Int
  | contents _ | indeterminate => List Byte
  | rand => BitVec 31
  | localtime _ => Option Tm
  | fopen _ _ | popen _ => Option File
  | fread length _ => { chars : List Byte // chars.length ≤ length }
  | fgets length _ => Option { chars : List Byte // chars.length < length }
  | fwrite _ _ => Nat
  | free _ | close _ | fill _ _ | fclose _ | mark _ => Unit

@[reducible]
def Sys : Signature where
  Op := Call
  Resp := Call.Answer

/-- The call on its own. -/
@[reducible]
def Call.perform (call : Call) : Prog Sys call.Answer :=
  .op call .ret

abbrev recv (conn : Int) (length : Nat) : Prog Sys (Received length) :=
  (Call.recv conn 0 length).perform

abbrev send (conn : Int) (data : List Byte) : Prog Sys Int :=
  (Call.send conn data).perform

abbrev close (conn : Int) : Prog Sys Unit :=
  (Call.close conn).perform

abbrev free (co : Connection) : Prog Sys Unit :=
  (Call.free co).perform

abbrev fill (buffer : Buffer) (chars : List Byte) : Prog Sys Unit :=
  (Call.fill buffer chars).perform

abbrev contents (buffer : Buffer) : Prog Sys (List Byte) :=
  (Call.contents buffer).perform

abbrev strtok (source : Option Buffer) (delim : List Byte) :
    Prog Sys (Option (List Byte)) :=
  (Call.strtok source delim).perform

/-- What an array or a variable holds that was not initialised. -/
abbrev indeterminate : Prog Sys (List Byte) :=
  Call.indeterminate.perform

abbrev fopen (path mode : List Byte) : Prog Sys (Option File) :=
  (Call.fopen path mode).perform

abbrev fread (length : Nat) (file : File) :
    Prog Sys { chars : List Byte // chars.length ≤ length } :=
  (Call.fread length file).perform

abbrev fwrite (chars : List Byte) (file : File) : Prog Sys Nat :=
  (Call.fwrite chars file).perform

abbrev ferror (file : File) : Prog Sys Int :=
  (Call.ferror file).perform

abbrev feof (file : File) : Prog Sys Int :=
  (Call.feof file).perform

abbrev fclose (file : File) : Prog Sys Unit :=
  (Call.fclose file).perform

abbrev mark (point : Mark) : Prog Sys Unit :=
  (Call.mark point).perform

/-! ## synchronization.h and connection.h -/

def waitSemaphore : Prog Sys Int :=
  Call.semWait.perform

def enterCs (cs : CriticalSection) : Prog Sys Int := do
  if (← (Call.mutexLock cs).perform) ≠ 0 then
    return intErr
  return ok

def leaveCs (cs : CriticalSection) : Prog Sys Int := do
  if (← (Call.mutexUnlock cs).perform) ≠ 0 then
    return intErr
  return ok

def getConn (co : Connection) : Int :=
  co.conn

/-- The text that `get_ip` leaves in `ip`, if it succeeds. -/
def getIp (co : Connection) : Prog Sys (Option (List Byte)) :=
  (Call.inetNtop co.sinAddr).perform

end RemoteCommand
