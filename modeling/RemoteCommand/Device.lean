import RemoteCommand.CallSteps

/-!
# A machine with files

The machines on both ends of a session: memory for `strtok`, a stream of
outputs of `rand`, a stream of contents of uninitialised arrays, and files.
Calls that a session has nothing to do with are answered in any way.  Files are
known by the path they are opened with, and opening fails only for a file to be
read that does not exist; what the other calls on a file do is up to its disk.
-/

namespace RemoteCommand

open Interaction Machine

/-- What a disk does to the files on it: how much of a file can be read before
a read error, how many bytes `fwrite` takes of so many, behind so many, and
what `fclose` leaves of what was taken. -/
structure Disk where
  readable : List Byte → List Byte
  takes : Nat → Nat → Nat
  keeps : List Byte → List Byte
  readable_prefix : ∀ content, readable content <+: content
  takes_le : ∀ written length, takes written length ≤ length
  keeps_prefix : ∀ written, keeps written <+: written

/-- A disk on which every call succeeds. -/
def Disk.sound : Disk where
  readable := id
  takes _ length := length
  keeps := id
  readable_prefix := List.prefix_refl
  takes_le _ := Nat.le_refl
  keeps_prefix := List.prefix_refl

/-- What a `FILE` pointer stands for; `short` says that the last `fread` got
less than it asked for. -/
inductive Handle where
  | reading (path : List Byte) (offset : Nat) (short : Bool)
  | writing (path : List Byte)

structure Device where
  memory : Strtok Buffer
  rands : Nat → BitVec 31
  stale : Nat → List Byte
  files : List Byte → Option (List Byte)
  handles : File → Option Handle
  nextFile : File
  elsewhere : (call : Call) → call.Answer

namespace Device

def content (device : Device) (path : List Byte) : List Byte :=
  (device.files path).getD []

def opened (device : Device) (handle : Handle) : Device :=
  { device with
    handles := Function.update device.handles device.nextFile (some handle)
    nextFile := device.nextFile + 1 }

def fopen (device : Device) (path mode : List Byte) : Option File × Device :=
  if mode = bytes "wb" then
    (some device.nextFile,
      { device.opened (.writing path) with
        files := Function.update device.files path (some []) })
  else if mode = bytes "rb" then
    if (device.files path).isSome then
      (some device.nextFile, device.opened (.reading path 0 false))
    else
      (none, device)
  else
    (device.elsewhere (.fopen path mode), device)

def fread (disk : Disk) (device : Device) (length : Nat) (file : File) :
    { chars : List Byte // chars.length ≤ length } × Device :=
  match device.handles file with
  | some (.reading path offset _) =>
      let chars :=
        ((disk.readable (device.content path)).drop offset).take length
      let handle := Handle.reading path (offset + chars.length)
        (chars.length < length)
      (⟨chars, List.length_take_le _ _⟩,
        { device with
          handles := Function.update device.handles file (some handle) })
  | _ => (⟨[], Nat.zero_le _⟩, device)

def fwrite (disk : Disk) (device : Device) (chars : List Byte) (file : File) :
    Nat × Device :=
  match device.handles file with
  | some (.writing path) =>
      let written := device.content path
      let taken := disk.takes written.length chars.length
      (taken,
        { device with
          files := Function.update device.files path
            (some (written ++ chars.take taken)) })
  | _ => (0, device)

/-- A short read that is not the end of the file is an error. -/
def ferror (disk : Disk) (device : Device) (file : File) : Int :=
  match device.handles file with
  | some (.reading path _ true) =>
      if disk.readable (device.content path) = device.content path then 0
      else 1
  | _ => 0

def feof (disk : Disk) (device : Device) (file : File) : Int :=
  match device.handles file with
  | some (.reading path _ true) =>
      if disk.readable (device.content path) = device.content path then 1
      else 0
  | _ => 0

def fclose (disk : Disk) (device : Device) (file : File) : Device :=
  let closed : Device :=
    { device with handles := Function.update device.handles file none }
  match device.handles file with
  | some (.writing path) =>
      { closed with
        files := Function.update device.files path
          ((device.files path).map disk.keeps) }
  | _ => closed

def answer (disk : Disk) (device : Device) :
    (call : Call) → call.Answer × Device
  | .fill buffer chars =>
      ((), { device with memory := device.memory.load buffer chars })
  | .contents buffer => (device.memory.buffer buffer, device)
  | .strtok source delim =>
      let (token, memory) := device.memory.strtok source delim
      (token, { device with memory })
  | .indeterminate =>
      (device.stale 0,
        { device with stale := fun index => device.stale (index + 1) })
  | .rand =>
      (device.rands 0,
        { device with rands := fun index => device.rands (index + 1) })
  | .fopen path mode => device.fopen path mode
  | .fread length file => device.fread disk length file
  | .fwrite chars file => device.fwrite disk chars file
  | .ferror file => (device.ferror disk file, device)
  | .feof file => (device.feof disk file, device)
  | .fclose file => ((), device.fclose disk file)
  | call => (device.elsewhere call, device)

variable {disk : Disk} {device : Device}

theorem answer_strtok {source : Option Buffer} {delim : List Byte}
    {token : Option (List Byte)} {memory : Strtok Buffer}
    (called : device.memory.strtok source delim = (token, memory)) :
    device.answer disk (.strtok source delim) =
      (token, { device with memory }) := by
  simp [answer, called]

theorem fclose_stale (file : File) :
    (device.fclose disk file).stale = device.stale := by
  unfold fclose
  split <;> rfl

/-- On a sound disk `fclose` leaves the files as they are. -/
theorem fclose_sound (file : File) :
    device.fclose .sound file =
      { device with handles := Function.update device.handles file none } := by
  unfold fclose
  split
  · simp [Disk.sound]
  · rfl

end Device

/-- A side of a session whose machine has its files on such a disk. -/
def diskHost (disk : Disk) : Host Sys Byte Device :=
  machineHost (Device.answer disk)

/-- A side of a session where all calls on files succeed. -/
def deviceHost : Host Sys Byte Device :=
  diskHost .sound

/-- A machine without files. -/
def Device.bare : Device where
  memory := { buffer := fun _ => [], save := none }
  rands _ := 0
  stale _ := []
  files _ := none
  handles _ := none
  nextFile := 0
  elsewhere
    | .semWait | .mutexLock _ | .mutexUnlock _ => (0 : Int)
    | .inetNtop _ | .strtok _ _ | .asctime _ | .logFilename =>
        (none : Option (List Byte))
    | .dequeue => none
    | .recv _ _ _ => .closed
    | .send _ _ | .time | .gettid | .ferror _ | .feof _ | .pclose _ => (0 : Int)
    | .contents _ | .indeterminate => ([] : List Byte)
    | .rand => (0 : BitVec 31)
    | .localtime _ => none
    | .fopen _ _ | .popen _ => none
    | .fread _ _ => ⟨[], Nat.zero_le _⟩
    | .fgets _ _ => none
    | .fwrite _ _ => (0 : Nat)
    | .free _ | .close _ | .fill _ _ | .fclose _ | .mark _ => ()

end RemoteCommand
