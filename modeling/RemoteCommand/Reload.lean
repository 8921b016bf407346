import RemoteCommand.Configuration
import RemoteCommand.Networking
import RemoteCommand.Transition.System

/-!
# The SIGHUP loop of `main`

The main thread of the server, from `get_parameters` on, with the handler of
SIGHUP between any two of its steps.  A step of `main` is one call, with its
arguments read from the variables at that moment; what the call answers, and
what the handler finds in the file, are labels of the step.  The workers are
counted: how many there are, and how many of them serve a request.

`create_thread_pool` and `destroy_thread_pool` return here whatever they find;
what they do to the pool is told in `ThreadPool`.  A computation that faults
ends the process.

`logCreated`, `startLogFile` and `stops` are history: whether the `create_cs` of
`set_logging` succeeded, the path it was given, and how often `stop_logging` has
been called since.
-/

namespace RemoteCommand

open Machine Transition

/-- What a pointer to a critical section refers to. -/
inductive CsPointer where
  | null
  | created
  | freed
  deriving DecidableEq, Repr

/-- The next call of `main`. -/
inductive MainPc where
  | getParameters
  | updateParameters
  | setLogging
  | sigaction
  /-- `sighup = 0`, where the SIGHUP loop begins -/
  | resetSighup
  | createSemaphore
  | createThreadPool
  | socket
  | setsockopt
  /-- `server.sin_port = htons(port)` -/
  | address
  | bind
  | listen
  | createQueue
  | createCs
  /-- `while (sighup != 1)` -/
  | test
  | accept
  | enqueue
  /-- `while (size(connections) != 0)` -/
  | waitPending
  | destroyQueue
  | destroyCs
  | closeSocket
  | stopLogging
  | destroyThreadPool
  | destroySemaphore
  /-- `main` has returned, or the process has ended -/
  | ended
  deriving DecidableEq, Repr

structure Process where
  arguments : Arguments
  pc : MainPc
  configuration : Configuration
  sighup : Bool
  /-- the handler is installed -/
  installed : Bool
  filename : Option (List Byte)
  logCs : CsPointer
  /-- the number of threads that `create_thread_pool` was called with -/
  requested : Option Int
  sinPort : BitVec 16
  /-- the port that `bind` was called with, of the open socket -/
  bound : Option (BitVec 16)
  backlog : Option Int
  capacity : Option Nat
  /-- the number of connections in the queue -/
  pending : Nat
  workers : Nat
  serving : Nat
  logCreated : Bool
  startLogFile : Option (List Byte)
  stops : Nat

/-- What a call of `main` answers. -/
inductive Answer where
  | done
  | failed
  /-- `accept` is interrupted by a signal -/
  | interrupted
  /-- `create_thread_pool` has started this many threads -/
  | started (threads : Nat)
  | file (found : ConfFile)
  deriving DecidableEq, Repr

/-- `htons`, which swaps the bytes as `ntohs` does. -/
def htons (host : Endian) (value : BitVec 16) : BitVec 16 :=
  ntohs host value

theorem ntohs_htons (host : Endian) (value : BitVec 16) :
    ntohs host (htons host value) = value := by
  cases host with
  | little =>
      apply BitVec.eq_of_getLsbD_eq
      intro bit inside
      simp only [htons, ntohs, BitVec.getLsbD_append,
        BitVec.getLsbD_extractLsb']
      by_cases low : bit < 8
      · simp [low]
      · have high : bit - 8 < 8 := by omega
        simp [low, high, show 8 + (bit - 8) = bit by omega]
  | big => rfl

namespace Process

inductive Action where
  | main (answer : Answer)
  /-- SIGHUP is delivered, and the handler finds this file -/
  | sighup (file : ConfFile)
  /-- a worker takes a connection from the queue -/
  | take
  /-- a worker has finished its request -/
  | finish
  /-- a worker leaves its loop -/
  | exit
  deriving DecidableEq, Repr

/-- The process at the beginning of `main`. -/
def start (arguments : Arguments) : Process where
  arguments
  pc := .getParameters
  configuration := .initial
  sighup := false
  installed := false
  filename := none
  logCs := .null
  requested := none
  sinPort := 0
  bound := none
  backlog := none
  capacity := none
  pending := 0
  workers := 0
  serving := 0
  logCreated := false
  startLogFile := none
  stops := 0

/-- Go on at `pc`. -/
def goto (process : Process) (pc : MainPc) : Process :=
  { process with pc }

theorem goto_self (process : Process) {pc : MainPc} (atPc : process.pc = pc) :
    process.goto pc = process := by
  rw [← atPc]
  rfl

/-- `set_logging(log_file)`, whose `create_cs` may fail. -/
def setLogging (process : Process) (succeeds : Bool) : Process :=
  { process with
    filename := process.configuration.logFile
    logCs := if succeeds then .created else .null
    logCreated := succeeds
    startLogFile := process.configuration.logFile
    stops := 0 }

/-- `stop_logging`: the pointer is freed and keeps its value. -/
def stopLogging (process : Process) : Process :=
  { process with
    logCs := if process.logCs = .null then .null else .freed
    stops := process.stops + 1 }

/-- The next call of `main`; `none` when it does not answer so. -/
def mainStep (host : Endian) (process : Process) (answer : Answer) :
    Option Process :=
  match process.pc, answer with
  | .getParameters, .done =>
      match process.configuration.getParameters process.arguments with
      | .error _ => process.goto .ended
      | .ok (ret, configuration) =>
          if ret ≠ ok then process.goto .ended
          else some { process with configuration, pc := .updateParameters }
  | .updateParameters, .file found =>
      match process.configuration.updateParameters found with
      | .error _ => process.goto .ended
      | .ok (_, configuration) =>
          some { process with configuration, pc := .setLogging }
  | .setLogging, .done => (process.setLogging true).goto .sigaction
  | .setLogging, .failed => (process.setLogging false).goto .sigaction
  | .sigaction, .done =>
      some { process with installed := true, pc := .resetSighup }
  | .sigaction, .failed => process.goto .resetSighup
  | .resetSighup, .done =>
      some { process with sighup := false, pc := .createSemaphore }
  | .createSemaphore, .done => process.goto .createThreadPool
  | .createThreadPool, .started threads =>
      if threads ≤ process.configuration.nThreads.toNat then
        some { process with
          requested := process.configuration.nThreads
          workers := threads
          pc := .socket }
      else none
  | .socket, .done => process.goto .setsockopt
  | .setsockopt, .done | .setsockopt, .failed => process.goto .address
  | .address, .done =>
      some { process with
        sinPort := htons host (BitVec.ofInt 16 process.configuration.port)
        pc := .bind }
  | .bind, .done =>
      some { process with bound := ntohs host process.sinPort, pc := .listen }
  | .listen, .done =>
      some { process with
        backlog := process.configuration.nThreads, pc := .createQueue }
  | .createQueue, .done =>
      some { process with
        capacity := toUnsigned process.configuration.nThreads
        pending := 0
        pc := .createCs }
  | .createCs, .done => process.goto .test
  | .createSemaphore, .failed | .socket, .failed | .bind, .failed
  | .listen, .failed | .createQueue, .failed | .createCs, .failed =>
      process.goto .ended
  | .test, .done =>
      process.goto (if process.sighup then .waitPending else .accept)
  | .accept, .done => process.goto .enqueue
  | .accept, .failed => process.goto .test
  | .accept, .interrupted => process.goto .waitPending
  | .enqueue, .done =>
      -- a full queue sends `main` to sleep, and it tries again
      if some process.pending = process.capacity then process
      else some { process with pending := process.pending + 1, pc := .test }
  | .waitPending, .done =>
      if process.pending = 0 then process.goto .destroyQueue else process
  | .destroyQueue, .done =>
      some { process with capacity := none, pc := .destroyCs }
  | .destroyCs, .done => process.goto .closeSocket
  | .closeSocket, .done =>
      some { process with bound := none, backlog := none, pc := .stopLogging }
  | .stopLogging, .done => process.stopLogging.goto .destroyThreadPool
  | .destroyThreadPool, .done =>
      some { process with workers := 0, serving := 0, pc := .destroySemaphore }
  | .destroyThreadPool, .failed => process.goto .ended
  | .destroySemaphore, .done => process.goto .resetSighup
  | _, _ => none

/-- SIGHUP: the handler runs to its end, and without a handler the process
ends. -/
def handle (process : Process) (file : ConfFile) : Process :=
  if process.installed then
    match process.configuration.sighupHandler file process.sighup with
    | .error _ => process.goto .ended
    | .ok (configuration, sighup) => { process with configuration, sighup }
  else
    process.goto .ended

def step (host : Endian) (process : Process) (action : Action) :
    Option Process :=
  if process.pc = .ended then
    none
  else
    match action with
    | .main answer => process.mainStep host answer
    | .sighup file => process.handle file
    | .take =>
        if process.serving < process.workers ∧ 0 < process.pending then
          some { process with
            serving := process.serving + 1, pending := process.pending - 1 }
        else none
    | .finish =>
        if 0 < process.serving then
          some { process with serving := process.serving - 1 }
        else none
    | .exit =>
        if 0 < process.serving then
          some { process with
            serving := process.serving - 1, workers := process.workers - 1 }
        else none

def system (host : Endian) : System Process Action where
  step := step host

/-! ## What one step can do -/

end Process

namespace MainPc

/-- How many of the values of a cycle have been read: the number of threads,
the port, the port of the socket, the backlog and the capacity. -/
def reads : MainPc → Nat
  | socket | setsockopt | address => 1
  | bind => 2
  | listen => 3
  | createQueue => 4
  | createCs | test | accept | enqueue => 5
  | _ => 0

/-- There is no pool yet, or none any more. -/
def poolless : MainPc → Bool
  | getParameters | updateParameters | setLogging | sigaction
  | resetSighup | createSemaphore | createThreadPool | destroySemaphore => true
  | _ => false

/-- Going on at `next` reads nothing and leaves the pool as it is. -/
structure Moves (pc next : MainPc) : Prop where
  reads : next.reads ≤ pc.reads
  poolless : next.poolless = true → pc.poolless = true
  logging : pc ≠ stopLogging

theorem moves_ended {pc : MainPc} (logging : pc ≠ stopLogging) :
    pc.Moves ended :=
  ⟨Nat.zero_le _, nofun, logging⟩

end MainPc

namespace Process

/-- The calls of `main` by cases. -/
inductive MainStep (host : Endian) (process : Process) :
    Answer → Process → Prop
  | configured {configuration : Configuration} :
      process.pc = .getParameters →
      process.configuration.getParameters process.arguments =
        .ok (ok, configuration) →
      MainStep host process .done
        { process with configuration, pc := .updateParameters }
  | updated {found : ConfFile} {ret : Int} {configuration : Configuration} :
      process.pc = .updateParameters →
      process.configuration.updateParameters found = .ok (ret, configuration) →
      MainStep host process (.file found)
        { process with configuration, pc := .setLogging }
  | setLogging {answer : Answer} (succeeds : Bool) :
      process.pc = .setLogging →
      MainStep host process answer
        ((process.setLogging succeeds).goto .sigaction)
  | installed : process.pc = .sigaction →
      MainStep host process .done
        { process with installed := true, pc := .resetSighup }
  | resetSighup : process.pc = .resetSighup →
      MainStep host process .done
        { process with sighup := false, pc := .createSemaphore }
  | started {threads : Nat} : process.pc = .createThreadPool →
      MainStep host process (.started threads)
        { process with
          requested := process.configuration.nThreads
          workers := threads
          pc := .socket }
  | address : process.pc = .address →
      MainStep host process .done
        { process with
          sinPort := htons host (BitVec.ofInt 16 process.configuration.port)
          pc := .bind }
  | bound : process.pc = .bind →
      MainStep host process .done
        { process with bound := ntohs host process.sinPort, pc := .listen }
  | listening : process.pc = .listen →
      MainStep host process .done
        { process with
          backlog := process.configuration.nThreads, pc := .createQueue }
  | queue : process.pc = .createQueue →
      MainStep host process .done
        { process with
          capacity := toUnsigned process.configuration.nThreads
          pending := 0
          pc := .createCs }
  | enqueued : process.pc = .enqueue →
      MainStep host process .done
        { process with pending := process.pending + 1, pc := .test }
  | destroyQueue : process.pc = .destroyQueue →
      MainStep host process .done
        { process with capacity := none, pc := .destroyCs }
  | closeSocket : process.pc = .closeSocket →
      MainStep host process .done
        { process with bound := none, backlog := none, pc := .stopLogging }
  | stopLogging : process.pc = .stopLogging →
      MainStep host process .done (process.stopLogging.goto .destroyThreadPool)
  | destroyThreadPool : process.pc = .destroyThreadPool →
      MainStep host process .done
        { process with workers := 0, serving := 0, pc := .destroySemaphore }
  | moves {answer : Answer} {pc : MainPc} : process.pc.Moves pc →
      MainStep host process answer (process.goto pc)

theorem mainStep_cases {host : Endian} {process next : Process}
    {answer : Answer} (stepped : process.mainStep host answer = some next) :
    process.MainStep host answer next := by
  have moves {pc target : MainPc} (atPc : process.pc = pc)
      (moving : pc.Moves target)
      (same : process.goto target = next) :
      process.MainStep host answer next :=
    same ▸ .moves (atPc ▸ moving)
  unfold mainStep at stepped
  cases atPc : process.pc <;> cases answer <;>
    simp only [atPc, reduceCtorEq, Option.some.injEq] at stepped
  case getParameters.done =>
    split at stepped
    · exact moves atPc (MainPc.moves_ended nofun) (Option.some.inj stepped)
    · rename_i ret _ called
      split at stepped <;> cases stepped
      · exact moves atPc (MainPc.moves_ended nofun) rfl
      · have accepted : ret = ok := not_not.mp ‹_›
        exact .configured atPc (accepted ▸ called)
  case updateParameters.file =>
    split at stepped <;> cases stepped
    · exact moves atPc (MainPc.moves_ended nofun) rfl
    · exact .updated atPc ‹_›
  case createThreadPool.started =>
    split at stepped <;> cases stepped
    exact .started atPc
  case test.done =>
    split at stepped
    · exact moves atPc ⟨by decide, by decide, nofun⟩ stepped
    · exact moves atPc ⟨by decide, by decide, nofun⟩ stepped
  case enqueue.done =>
    split at stepped <;> cases stepped
    · exact moves atPc ⟨le_refl _, id, nofun⟩ (process.goto_self atPc)
    · exact .enqueued atPc
  case waitPending.done =>
    split at stepped <;> cases stepped
    · exact moves atPc ⟨by decide, by decide, nofun⟩ rfl
    · exact moves atPc ⟨le_refl _, id, nofun⟩ (process.goto_self atPc)
  -- every other call stores its values, or goes on
  all_goals first
    | exact moves atPc ⟨by decide, by decide, nofun⟩ stepped
    | (cases stepped; constructor; exact atPc)

/-- The variables stay `int` values. -/
theorem mainStep_areInts {host : Endian} {process next : Process}
    {answer : Answer} (areInts : process.configuration.AreInts)
    (stepped : process.mainStep host answer = some next) :
    next.configuration.AreInts := by
  cases mainStep_cases stepped with
  | configured _ called => exact Configuration.getParameters_areInts areInts called
  | updated _ called => exact Configuration.updateParameters_areInts areInts called
  | _ => exact areInts

theorem handle_areInts {process : Process}
    (areInts : process.configuration.AreInts) (file : ConfFile) :
    (process.handle file).configuration.AreInts := by
  unfold handle
  split
  · split
    · exact areInts
    · exact Configuration.sighupHandler_areInts areInts ‹_›
  · exact areInts

/-- The handler does nothing when `conf_file` is `NULL`. -/
theorem handle_ignored {process : Process} (installed : process.installed)
    (unset : process.configuration.confFile = none) (file : ConfFile) :
    process.handle file = process := by
  rw [handle, if_pos installed, Configuration.sighupHandler, if_pos unset]
  rfl

/-- It raises the flag otherwise, unless it ends the process. -/
theorem handle_heeded {process : Process} (installed : process.installed)
    (isSet : process.configuration.confFile ≠ none) (file : ConfFile) :
    process.handle file = process.goto .ended ∨
      ∃ configuration,
        process.handle file = { process with configuration, sighup := true } := by
  rw [handle, if_pos installed, Configuration.sighupHandler, if_neg isSet]
  cases process.configuration.updateParameters file with
  | error => exact .inl rfl
  | ok result => exact .inr ⟨result.2, rfl⟩

/-- What the handler does: it stores new values and raises the flag, or leaves
both as they are, or ends the process. -/
theorem handle_cases (process : Process) (file : ConfFile) :
    process.handle file = process.goto .ended ∨
      process.handle file = process ∨
      ∃ configuration,
        process.handle file = { process with configuration, sighup := true } := by
  by_cases installed : process.installed = true
  · by_cases unset : process.configuration.confFile = none
    · exact .inr (.inl (handle_ignored installed unset file))
    · exact (handle_heeded installed unset file).imp_right .inr
  · exact .inl (if_neg installed)

/-- The step function by cases. -/
inductive Step (host : Endian) (process : Process) : Action → Process → Prop
  | main {answer : Answer} {next : Process} :
      process.mainStep host answer = some next →
      Step host process (.main answer) next
  | sighup {file : ConfFile} :
      Step host process (.sighup file) (process.handle file)
  | take : process.serving < process.workers →
      Step host process .take
        { process with
          serving := process.serving + 1, pending := process.pending - 1 }
  | finish : 0 < process.serving →
      Step host process .finish
        { process with serving := process.serving - 1 }
  | exit : 0 < process.serving →
      Step host process .exit
        { process with
          serving := process.serving - 1, workers := process.workers - 1 }

theorem step_cases {host : Endian} {process next : Process} {action : Action}
    (stepped : process.step host action = some next) :
    process.Step host action next := by
  unfold step at stepped
  split at stepped
  · cases stepped
  · cases action with
    | main answer => exact .main stepped
    | sighup file =>
        cases stepped
        exact .sighup
    | take =>
        obtain ⟨guard, same⟩ := Option.ite_none_right_eq_some.mp stepped
        cases same
        exact .take guard.1
    | finish =>
        obtain ⟨guard, same⟩ := Option.ite_none_right_eq_some.mp stepped
        cases same
        exact .finish guard
    | exit =>
        obtain ⟨guard, same⟩ := Option.ite_none_right_eq_some.mp stepped
        cases same
        exact .exit guard

theorem step_areInts {host : Endian} {process next : Process}
    {action : Action} (areInts : process.configuration.AreInts)
    (stepped : process.step host action = some next) :
    next.configuration.AreInts := by
  cases step_cases stepped with
  | main called => exact mainStep_areInts areInts called
  | sighup => exact handle_areInts areInts _
  | take | finish | exit => exact areInts

end Process

end RemoteCommand
