import RemoteCommand.Platform
import RemoteCommand.Transition.System
import Mathlib.Algebra.BigOperators.Group.List.Basic

/-!
# daemonize.h

The processes that come into being between the `sigaction` of `main` and its
SIGHUP loop.  A process is a program counter with what it inherits; a step is one
call of one process, which succeeds or fails, or a SIGHUP for one process.  The
processes go on in any order.

`open` answers the lowest descriptor that is not open, which may be a standard
one when the server is started without it.  `dup2` and `close` are not checked:
a `dup2` that fails leaves the descriptor as it was, and behind a `close` the
descriptor is not open, whatever it answers.

`sa_flags` and `sa_mask` of `main` are not initialised and left out, and so is
what the handler does.  The `sigaction` calls of `daemonize` have valid arguments
and do not fail.
-/

namespace RemoteCommand

open Transition

/-- What SIGHUP does to a process. -/
inductive Disposition where
  /-- it ends the process -/
  | default
  | ignore
  /-- it runs `sighup_handler` -/
  | handler
  deriving DecidableEq, Repr

/-- What a standard descriptor refers to. -/
inductive Target where
  | closed
  /-- what the server was started with -/
  | inherited
  /-- the file `REDIRECTION_FILE_PATH` -/
  | redirection
  deriving DecidableEq, Repr

inductive Descriptor where
  | stdin
  | stdout
  | stderr
  /-- any other one -/
  | other
  deriving DecidableEq, Repr

/-- The standard descriptors of a process. -/
structure Descriptors where
  stdin : Target
  stdout : Target
  stderr : Target
  deriving DecidableEq, Repr

namespace Descriptors

/-- The lowest descriptor that is not open. -/
def lowest (descriptors : Descriptors) : Descriptor :=
  if descriptors.stdin = .closed then .stdin
  else if descriptors.stdout = .closed then .stdout
  else if descriptors.stderr = .closed then .stderr
  else .other

def set (descriptors : Descriptors) (fd : Descriptor) (target : Target) :
    Descriptors :=
  match fd with
  | .stdin => { descriptors with stdin := target }
  | .stdout => { descriptors with stdout := target }
  | .stderr => { descriptors with stderr := target }
  | .other => descriptors

end Descriptors

/-- Which of the standard descriptors are open when the server is started. -/
structure Terminal where
  stdin : Bool
  stdout : Bool
  stderr : Bool
  deriving DecidableEq, Repr

namespace Terminal

def descriptors (terminal : Terminal) : Descriptors where
  stdin := if terminal.stdin then .inherited else .closed
  stdout := if terminal.stdout then .inherited else .closed
  stderr := if terminal.stderr then .inherited else .closed

/-- A file that is opened gets none of the two descriptors for output: the
standard input is not open, or both of them are. -/
def LeavesOutput (terminal : Terminal) : Prop :=
  terminal.stdin = false ∨ terminal.stdout = true ∧ terminal.stderr = true

theorem leavesOutput_iff (terminal : Terminal) :
    terminal.LeavesOutput ↔
      terminal.descriptors.lowest ≠ .stdout ∧
        terminal.descriptors.lowest ≠ .stderr := by
  obtain ⟨stdin, stdout, stderr⟩ := terminal
  cases stdin <;> cases stdout <;> cases stderr <;>
    simp [LeavesOutput, descriptors, Descriptors.lowest]

/-- Nothing is redirected before the file is open. -/
theorem not_redirected (terminal : Terminal) :
    terminal.descriptors.stdout ≠ .redirection ∧
      terminal.descriptors.stderr ≠ .redirection := by
  obtain ⟨stdin, stdout, stderr⟩ := terminal
  cases stdout <;> cases stderr <;> simp [descriptors]

end Terminal

/-- The next call of a process. -/
inductive DaemonPc where
  /-- the `sigaction` of `main` -/
  | setHandler
  | fork
  /-- `exit(0)` in the process that was started -/
  | exitParent
  | setsid
  | ignoreHangup
  | forkAgain (oldAction : Disposition)
  /-- `exit(0)` in the leader of the session -/
  | exitLeader
  | restoreHangup (oldAction : Disposition)
  | openRedirection
  /-- `dup2(fd, STDOUT_FILENO)` -/
  | dupOutput (fd : Descriptor)
  /-- `dup2(fd, STDERR_FILENO)` -/
  | dupError (fd : Descriptor)
  /-- `close(fd)` -/
  | closeFile (fd : Descriptor)
  /-- `close(STDIN_FILENO)` -/
  | closeInput
  /-- `daemonize` has returned, and `main` is in its SIGHUP loop -/
  | serve (ret : Int)
  | exited
  | killed
  deriving DecidableEq, Repr

structure ForkedProcess where
  pc : DaemonPc
  hangup : Disposition
  /-- the leader of the session, unless it is the session of the terminal -/
  session : Option Nat
  descriptors : Descriptors
  /-- history: what SIGHUP did when `main` called `daemonize` -/
  installed : Disposition
  /-- history: no `dup2` has failed -/
  duplicated : Bool
  deriving DecidableEq, Repr

namespace ForkedProcess

/-- A call of the process number `pid`: what becomes of it, and the child that a
`fork` makes. -/
def call (pid : Nat) (process : ForkedProcess) (succeeds : Bool) :
    Option (ForkedProcess × Option ForkedProcess) :=
  match process.pc, succeeds with
  | .setHandler, true =>
      some ({ process with
        pc := .fork, hangup := .handler, installed := .handler }, none)
  | .setHandler, false =>
      some ({ process with pc := .fork, installed := process.hangup }, none)
  | .fork, true =>
      some ({ process with pc := .exitParent },
        some { process with pc := .setsid })
  | .setsid, true =>
      some ({ process with pc := .ignoreHangup, session := some pid }, none)
  | .ignoreHangup, true =>
      some ({ process with
        pc := .forkAgain process.hangup, hangup := .ignore }, none)
  | .forkAgain oldAction, true =>
      some ({ process with pc := .exitLeader },
        some { process with pc := .restoreHangup oldAction })
  | .restoreHangup oldAction, true =>
      some ({ process with pc := .openRedirection, hangup := oldAction }, none)
  | .openRedirection, true =>
      let fd := process.descriptors.lowest
      some ({ process with
        pc := .dupOutput fd
        descriptors := process.descriptors.set fd .redirection }, none)
  | .dupOutput fd, true =>
      some ({ process with
        pc := .dupError fd
        descriptors := process.descriptors.set .stdout .redirection }, none)
  | .dupError fd, true =>
      some ({ process with
        pc := .closeFile fd
        descriptors := process.descriptors.set .stderr .redirection }, none)
  | .dupOutput fd, false =>
      some ({ process with pc := .dupError fd, duplicated := false }, none)
  | .dupError fd, false =>
      some ({ process with pc := .closeFile fd, duplicated := false }, none)
  | .closeFile fd, _ =>
      some ({ process with
        pc := .closeInput
        descriptors := process.descriptors.set fd .closed }, none)
  | .closeInput, _ =>
      some ({ process with
        pc := .serve ok
        descriptors := process.descriptors.set .stdin .closed }, none)
  | .exitParent, true | .exitLeader, true =>
      some ({ process with pc := .exited }, none)
  -- `daemonize` returns, and `main` goes on: "Could not daemonize."
  | .fork, false | .setsid, false | .forkAgain _, false
  | .openRedirection, false =>
      some ({ process with pc := .serve intErr }, none)
  | _, _ => none

/-- The calls by cases. -/
inductive Calls (pid : Nat) (process : ForkedProcess) :
    Bool → ForkedProcess → Option ForkedProcess → Prop
  | setHandler : process.pc = .setHandler →
      Calls pid process true
        { process with pc := .fork, hangup := .handler, installed := .handler }
        none
  | handlerNotSet : process.pc = .setHandler →
      Calls pid process false
        { process with pc := .fork, installed := process.hangup } none
  | fork : process.pc = .fork →
      Calls pid process true { process with pc := .exitParent }
        (some { process with pc := .setsid })
  | setsid : process.pc = .setsid →
      Calls pid process true
        { process with pc := .ignoreHangup, session := some pid } none
  | ignoreHangup : process.pc = .ignoreHangup →
      Calls pid process true
        { process with pc := .forkAgain process.hangup, hangup := .ignore } none
  | forkAgain {oldAction : Disposition} : process.pc = .forkAgain oldAction →
      Calls pid process true { process with pc := .exitLeader }
        (some { process with pc := .restoreHangup oldAction })
  | restoreHangup {oldAction : Disposition} :
      process.pc = .restoreHangup oldAction →
      Calls pid process true
        { process with pc := .openRedirection, hangup := oldAction } none
  | openRedirection : process.pc = .openRedirection →
      Calls pid process true
        { process with
          pc := .dupOutput process.descriptors.lowest
          descriptors :=
            process.descriptors.set process.descriptors.lowest .redirection }
        none
  | dupOutput {fd : Descriptor} : process.pc = .dupOutput fd →
      Calls pid process true
        { process with
          pc := .dupError fd
          descriptors := process.descriptors.set .stdout .redirection } none
  | dupError {fd : Descriptor} : process.pc = .dupError fd →
      Calls pid process true
        { process with
          pc := .closeFile fd
          descriptors := process.descriptors.set .stderr .redirection } none
  | outputNotDuplicated {fd : Descriptor} : process.pc = .dupOutput fd →
      Calls pid process false
        { process with pc := .dupError fd, duplicated := false } none
  | errorNotDuplicated {fd : Descriptor} : process.pc = .dupError fd →
      Calls pid process false
        { process with pc := .closeFile fd, duplicated := false } none
  | closeFile {fd : Descriptor} {succeeds : Bool} : process.pc = .closeFile fd →
      Calls pid process succeeds
        { process with
          pc := .closeInput
          descriptors := process.descriptors.set fd .closed } none
  | closeInput {succeeds : Bool} : process.pc = .closeInput →
      Calls pid process succeeds
        { process with
          pc := .serve ok
          descriptors := process.descriptors.set .stdin .closed } none
  | exit : process.pc = .exitParent ∨ process.pc = .exitLeader →
      Calls pid process true { process with pc := .exited } none
  | notForked : process.pc = .fork ∨ process.pc = .setsid →
      Calls pid process false { process with pc := .serve intErr } none
  | notForkedAgain {oldAction : Disposition} :
      process.pc = .forkAgain oldAction →
      Calls pid process false { process with pc := .serve intErr } none
  | notOpened : process.pc = .openRedirection →
      Calls pid process false { process with pc := .serve intErr } none

theorem Calls.of {pid : Nat} {process behind : ForkedProcess}
    {succeeds : Bool} {child : Option ForkedProcess}
    (called : process.call pid succeeds = some (behind, child)) :
    Calls pid process succeeds behind child := by
  unfold call at called
  split at called <;> cases called
  · exact .setHandler ‹_›
  · exact .handlerNotSet ‹_›
  · exact .fork ‹_›
  · exact .setsid ‹_›
  · exact .ignoreHangup ‹_›
  · exact .forkAgain ‹_›
  · exact .restoreHangup ‹_›
  · exact .openRedirection ‹_›
  · exact .dupOutput ‹_›
  · exact .dupError ‹_›
  · exact .outputNotDuplicated ‹_›
  · exact .errorNotDuplicated ‹_›
  · exact .closeFile ‹_›
  · exact .closeInput ‹_›
  · exact .exit (.inl ‹_›)
  · exact .exit (.inr ‹_›)
  · exact .notForked (.inl ‹_›)
  · exact .notForked (.inr ‹_›)
  · exact .notForkedAgain ‹_›
  · exact .notOpened ‹_›

/-- A SIGHUP for the process. -/
def receiveHangup (process : ForkedProcess) : Option ForkedProcess :=
  match process.pc, process.hangup with
  | .exited, _ | .killed, _ => none
  | _, .default => some { process with pc := .killed }
  | _, .ignore | _, .handler => some process

end ForkedProcess

/-- The processes in the order in which they were made. -/
abbrev ProcessTree : Type :=
  List ForkedProcess

namespace ProcessTree

inductive Action where
  | call (pid : Nat) (succeeds : Bool)
  | hangup (pid : Nat)
  deriving DecidableEq, Repr

/-- The process that was started, with what SIGHUP does to it. -/
def started (inherited : Disposition) (terminal : Terminal) :
    ForkedProcess where
  pc := .setHandler
  hangup := inherited
  session := none
  descriptors := terminal.descriptors
  installed := inherited
  duplicated := true

def start (inherited : Disposition) (terminal : Terminal) : ProcessTree :=
  [started inherited terminal]

def step (tree : ProcessTree) : Action → Option ProcessTree
  | .call pid succeeds => do
      let process ← tree[pid]?
      let (behind, child) ← process.call pid succeeds
      return tree.set pid behind ++ child.toList
  | .hangup pid => do
      let process ← tree[pid]?
      return tree.set pid (← process.receiveHangup)

def system : System ProcessTree Action where
  step := step

/-! ## What one step can do -/

theorem call_cases {tree next : ProcessTree} {pid : Nat} {succeeds : Bool}
    (stepped : tree.step (.call pid succeeds) = some next) :
    ∃ process behind child, tree[pid]? = some process ∧
      process.Calls pid succeeds behind child ∧
      next = tree.set pid behind ++ child.toList := by
  obtain ⟨process, found, rest⟩ := Option.bind_eq_some_iff.mp stepped
  obtain ⟨⟨behind, child⟩, called, same⟩ := Option.bind_eq_some_iff.mp rest
  exact ⟨process, behind, child, found, .of called,
    (Option.some.inj same).symm⟩

theorem hangup_cases {tree next : ProcessTree} {pid : Nat}
    (stepped : tree.step (.hangup pid) = some next) :
    ∃ process behind, tree[pid]? = some process ∧
      process.receiveHangup = some behind ∧ next = tree.set pid behind := by
  obtain ⟨process, found, rest⟩ := Option.bind_eq_some_iff.mp stepped
  obtain ⟨behind, received, same⟩ := Option.bind_eq_some_iff.mp rest
  exact ⟨process, behind, found, received, (Option.some.inj same).symm⟩

/-- A SIGHUP changes nothing in a process that it does not end. -/
theorem receiveHangup_cases {process behind : ForkedProcess}
    (received : process.receiveHangup = some behind) :
    behind = process ∨
      process.hangup = .default ∧ behind = { process with pc := .killed } := by
  unfold ForkedProcess.receiveHangup at received
  split at received <;> cases received
  · exact .inr ⟨‹_›, rfl⟩
  · exact .inl rfl
  · exact .inl rfl

/-- A property of every process, with its number. -/
def Everywhere (property : Nat → ForkedProcess → Prop)
    (tree : ProcessTree) : Prop :=
  ∀ pid process, tree[pid]? = some process → property pid process

section Everywhere

variable {property : Nat → ForkedProcess → Prop} {tree next : ProcessTree}
  {pid : Nat} {behind : ForkedProcess}

theorem start_everywhere {inherited : Disposition} {terminal : Terminal}
    (first : property 0 (started inherited terminal)) :
    (start inherited terminal).Everywhere property := by
  intro pid process found
  cases pid with
  | zero =>
      cases found
      exact first
  | succ => cases found

theorem Everywhere.set (holds : tree.Everywhere property)
    (here : property pid behind) :
    Everywhere property (tree.set pid behind) := by
  intro other process found
  rw [List.getElem?_set] at found
  split at found
  · rename_i same
    split at found
    · cases found
      rw [← same]
      exact here
    · cases found
  · exact holds other process found

/-- A child has a higher number than the process that makes it. -/
theorem Everywhere.fork {child : Option ForkedProcess}
    (holds : tree.Everywhere property)
    (forked : ∀ process ∈ child, property tree.length process) :
    Everywhere property (tree ++ child.toList) := by
  intro other process found
  cases child with
  | none =>
      rw [Option.toList_none, List.append_nil] at found
      exact holds other process found
  | some child =>
      rw [Option.toList_some, List.getElem?_append] at found
      split at found
      · exact holds other process found
      · rename_i notBefore
        rw [List.getElem?_singleton] at found
        split at found
        · cases found
          have isLast : other = tree.length := by omega
          rw [isLast]
          exact forked _ rfl
        · cases found

/-- What the calls of a process keep, for it and for its children, and what a
SIGHUP keeps, holds of every process. -/
theorem Everywhere.step {action : Action}
    (calls : ∀ pid process succeeds behind child, property pid process →
      process.Calls pid succeeds behind child →
        property pid behind ∧
          ∀ forked ∈ child, ∀ other, pid < other → property other forked)
    (hangups : ∀ pid process, property pid process →
      property pid { process with pc := .killed })
    (holds : tree.Everywhere property)
    (stepped : tree.step action = some next) : next.Everywhere property := by
  cases action with
  | call pid succeeds =>
      obtain ⟨process, behind, child, found, called, rfl⟩ := call_cases stepped
      obtain ⟨here, forks⟩ := calls pid process succeeds behind child
        (holds pid process found) called
      refine (holds.set here).fork fun forked member => ?_
      refine forks forked member _ ?_
      rw [List.length_set]
      exact (List.getElem?_eq_some_iff.mp found).1
  | hangup pid =>
      obtain ⟨process, behind, found, received, rfl⟩ := hangup_cases stepped
      refine holds.set ?_
      rcases receiveHangup_cases received with rfl | ⟨_, rfl⟩
      · exact holds pid behind found
      · exact hangups pid process (holds pid process found)

end Everywhere

/-! ## What `daemonize` returns -/

/-- The process is in a session that is not that of the terminal, and not its
leader. -/
def InSession (pid : Nat) (process : ForkedProcess) : Prop :=
  ∃ leader, process.session = some leader ∧ leader ≠ pid

/-- The process has let go of the terminal. -/
structure Detached (pid : Nat) (process : ForkedProcess) : Prop where
  session : InSession pid process
  stdin : process.descriptors.stdin = .closed
  stdout : process.descriptors.stdout = .redirection
  stderr : process.descriptors.stderr = .redirection

/-- The descriptors are those that the server was started with. -/
def Untouched (terminal : Terminal) (process : ForkedProcess) : Prop :=
  process.descriptors = terminal.descriptors ∧ process.duplicated = true

/-- How far a process has come. -/
def Placed (terminal : Terminal) (pid : Nat) (process : ForkedProcess) : Prop :=
  match process.pc with
  | .setHandler | .fork | .setsid =>
      process.session = none ∧ Untouched terminal process
  | .ignoreHangup | .forkAgain _ =>
      process.session = some pid ∧ Untouched terminal process
  | .restoreHangup _ | .openRedirection =>
      InSession pid process ∧ Untouched terminal process
  | .dupOutput fd =>
      InSession pid process ∧ fd = terminal.descriptors.lowest ∧
        (fd ≠ .stderr → process.descriptors.stderr ≠ .redirection) ∧
        (fd ≠ .stdout → process.descriptors.stdout ≠ .redirection) ∧
        process.duplicated = true
  | .dupError fd =>
      InSession pid process ∧ fd = terminal.descriptors.lowest ∧
        (fd ≠ .stderr → process.descriptors.stderr ≠ .redirection) ∧
        (fd ≠ .stdout → (process.descriptors.stdout = .redirection ↔
          process.duplicated = true))
  | .closeFile fd =>
      InSession pid process ∧ fd = terminal.descriptors.lowest ∧
        (fd ≠ .stdout → fd ≠ .stderr →
          (process.descriptors.stdout = .redirection ∧
            process.descriptors.stderr = .redirection ↔
              process.duplicated = true))
  | .closeInput =>
      InSession pid process ∧
        (process.descriptors.stdout = .redirection ∧
          process.descriptors.stderr = .redirection ↔
            process.duplicated = true ∧ terminal.LeavesOutput)
  | .serve ret =>
      Detached pid process ↔
        ret = ok ∧ process.duplicated = true ∧ terminal.LeavesOutput
  | .exitParent | .exitLeader | .exited | .killed => True

theorem calls_placed {terminal : Terminal} {pid : Nat}
    {process behind : ForkedProcess} {succeeds : Bool}
    {child : Option ForkedProcess} (placed : Placed terminal pid process)
    (called : process.Calls pid succeeds behind child) :
    Placed terminal pid behind ∧
      ∀ forked ∈ child, ∀ other, pid < other →
        Placed terminal other forked := by
  have childless (process : ForkedProcess) (member : process ∈ none)
      (other : Nat) (_ : pid < other) : Placed terminal other process := by
    cases member
  have notOk {behind : ForkedProcess} (still : ¬ Detached pid behind) :
      Detached pid behind ↔ intErr = ok ∧ behind.duplicated = true ∧
        terminal.LeavesOutput :=
    iff_of_false still fun failed => absurd failed.1 (by decide)
  cases called with
  | setHandler atPc | handlerNotSet atPc | setsid atPc | ignoreHangup atPc
  | restoreHangup atPc =>
      simp only [Placed, atPc] at placed
      refine ⟨?_, childless⟩
      first
        | exact placed
        | exact ⟨rfl, placed.2⟩
  | fork atPc =>
      simp only [Placed, atPc] at placed
      refine ⟨trivial, fun forked member other _ => ?_⟩
      cases member
      exact placed
  | forkAgain atPc =>
      simp only [Placed, atPc] at placed
      refine ⟨trivial, fun forked member other later => ?_⟩
      cases member
      exact ⟨⟨pid, placed.1, Nat.ne_of_lt later⟩, placed.2⟩
  | openRedirection atPc =>
      simp only [Placed, atPc] at placed
      obtain ⟨session, same, duplicated⟩ := placed
      obtain ⟨output, errors⟩ := terminal.not_redirected
      refine ⟨⟨session, congrArg _ same, ?_, ?_, duplicated⟩, childless⟩
      · rw [same]
        cases terminal.descriptors.lowest <;> simp [Descriptors.set, errors]
      · rw [same]
        cases terminal.descriptors.lowest <;> simp [Descriptors.set, output]
  | dupOutput atPc =>
      simp only [Placed, atPc] at placed
      obtain ⟨session, lowest, errors, _, duplicated⟩ := placed
      exact ⟨⟨session, lowest, errors, fun _ => iff_of_true rfl duplicated⟩,
        childless⟩
  | outputNotDuplicated atPc =>
      simp only [Placed, atPc] at placed
      obtain ⟨session, lowest, errors, output, _⟩ := placed
      exact ⟨⟨session, lowest, errors,
        fun other => iff_of_false (output other) Bool.false_ne_true⟩, childless⟩
  | dupError atPc =>
      simp only [Placed, atPc] at placed
      obtain ⟨session, lowest, _, output⟩ := placed
      exact ⟨⟨session, lowest, fun other _ =>
        (and_iff_left rfl).trans (output other)⟩, childless⟩
  | errorNotDuplicated atPc =>
      simp only [Placed, atPc] at placed
      obtain ⟨session, lowest, errors, _⟩ := placed
      exact ⟨⟨session, lowest, fun _ other => iff_of_false
        (fun redirected => errors other redirected.2) Bool.false_ne_true⟩,
        childless⟩
  | @closeFile fd _ atPc =>
      simp only [Placed, atPc] at placed
      obtain ⟨session, lowest, redirected⟩ := placed
      refine ⟨⟨session, ?_⟩, childless⟩
      rw [terminal.leavesOutput_iff, ← lowest]
      cases fd with
      | stdout | stderr => simp [Descriptors.set]
      | stdin | other =>
          simpa [Descriptors.set] using redirected (by decide) (by decide)
  | closeInput atPc =>
      simp only [Placed, atPc] at placed
      obtain ⟨session, redirected⟩ := placed
      refine ⟨?_, childless⟩
      constructor
      · exact fun detached =>
          ⟨rfl, redirected.mp ⟨detached.stdout, detached.stderr⟩⟩
      · rintro ⟨_, kept⟩
        obtain ⟨stdout, stderr⟩ := redirected.mpr kept
        exact ⟨session, rfl, stdout, stderr⟩
  | exit => exact ⟨trivial, childless⟩
  | notForked atPc =>
      refine ⟨notOk fun detached => ?_, childless⟩
      obtain ⟨leader, session, _⟩ := detached.session
      rcases atPc with atPc | atPc <;> simp only [Placed, atPc] at placed <;>
        cases placed.1.symm.trans session
  | notForkedAgain atPc =>
      simp only [Placed, atPc] at placed
      refine ⟨notOk fun detached => ?_, childless⟩
      obtain ⟨leader, session, other⟩ := detached.session
      cases placed.1.symm.trans session
      exact other rfl
  | notOpened atPc =>
      simp only [Placed, atPc] at placed
      refine ⟨notOk fun detached => ?_, childless⟩
      have output := detached.stdout
      rw [placed.2.1] at output
      exact terminal.not_redirected.1 output

/-- In every run, whatever calls fail and in whatever order the processes go on,
a process in the SIGHUP loop is detached from the terminal (in a new session and
not its leader, without standard input and with its output redirected) exactly
when `daemonize` has returned `OK` in it, no `dup2` has failed, and the file did
not get a descriptor for output, which the `close` of the file would close. -/
theorem daemonize_detached_iff (inherited : Disposition) (terminal : Terminal)
    (actions : List Action) {tree : ProcessTree}
    (ran : system.run (start inherited terminal) actions = some tree)
    (pid : Nat) (process : ForkedProcess) (found : tree[pid]? = some process)
    (ret : Int) (serves : process.pc = .serve ret) :
    Detached pid process ↔
      ret = ok ∧ process.duplicated = true ∧ terminal.LeavesOutput := by
  have initial : (start inherited terminal).Everywhere (Placed terminal) :=
    start_everywhere ⟨rfl, rfl, rfl⟩
  have keeps {state next : ProcessTree} {action : Action}
      (holds : state.Everywhere (Placed terminal))
      (stepped : state.step action = some next) :
      next.Everywhere (Placed terminal) :=
    holds.step (fun _ _ _ _ _ placed called => calls_placed placed called)
      (fun _ _ _ => trivial) stepped
  have placed : tree.Everywhere (Placed terminal) :=
    system.run_invariant keeps actions initial ran
  have here := placed pid process found
  simpa only [Placed, serves] using here

/-- All calls succeed; the leader of the session exits late. -/
def successfulStart : List Action :=
  [.call 0 true, .call 0 true, .call 0 true, .call 1 true, .call 1 true,
    .call 1 true, .call 2 true, .call 2 true, .call 2 true, .call 2 true,
    .call 2 true, .call 2 true, .call 1 true]

/-- The server is started with all standard descriptors. -/
def allOpen : Terminal := ⟨true, true, true⟩

/-- It is started without one for output, as by `./server >&-`. -/
def withoutOutput : Terminal := ⟨true, false, true⟩

def daemonProcess : ForkedProcess where
  pc := .serve ok
  hangup := .handler
  session := some 1
  descriptors := ⟨.closed, .redirection, .redirection⟩
  installed := .handler
  duplicated := true

/-- The file gets the descriptor of the output, which is closed in the end. -/
def silentProcess : ForkedProcess :=
  { daemonProcess with descriptors := ⟨.closed, .closed, .redirection⟩ }

theorem daemonize_detached_iff_daemon :
    Detached 2 daemonProcess ∧ ¬ Detached 2 silentProcess := by
  constructor
  · exact (daemonize_detached_iff .default allOpen successfulStart rfl 2
      daemonProcess rfl ok rfl).mpr ⟨rfl, rfl, .inr ⟨rfl, rfl⟩⟩
  · intro detached
    have kept := ((daemonize_detached_iff .default withoutOutput successfulStart
      rfl 2 silentProcess rfl ok rfl).mp detached).2.2
    rcases kept with closed | ⟨output, _⟩
    · cases closed
    · cases output

/-! ## What SIGHUP does to the server -/

/-- What `main` has set up for SIGHUP is in force, or `daemonize` remembers it
where it ignores the signal. -/
def Remembered (_ : Nat) (process : ForkedProcess) : Prop :=
  match process.pc with
  | .fork | .setsid | .ignoreHangup | .openRedirection | .dupOutput _
  | .dupError _ | .closeFile _ | .closeInput =>
      process.hangup = process.installed
  | .forkAgain oldAction =>
      oldAction = process.installed ∧ process.hangup = .ignore
  | .restoreHangup oldAction => oldAction = process.installed
  | _ => True

theorem calls_remembered {pid : Nat} {process behind : ForkedProcess}
    {succeeds : Bool} {child : Option ForkedProcess}
    (remembered : Remembered pid process)
    (called : process.Calls pid succeeds behind child) :
    Remembered pid behind ∧
      ∀ forked ∈ child, ∀ other, pid < other → Remembered other forked := by
  have childless (process : ForkedProcess) (member : process ∈ none)
      (other : Nat) (_ : pid < other) : Remembered other process := by
    cases member
  cases called with
  | setHandler | handlerNotSet => exact ⟨rfl, childless⟩
  | fork atPc =>
      simp only [Remembered, atPc] at remembered
      refine ⟨trivial, fun forked member other _ => ?_⟩
      cases member
      exact remembered
  | forkAgain atPc =>
      simp only [Remembered, atPc] at remembered
      refine ⟨trivial, fun forked member other _ => ?_⟩
      cases member
      exact remembered.1
  | setsid atPc | restoreHangup atPc | openRedirection atPc | dupOutput atPc
  | dupError atPc | outputNotDuplicated atPc | errorNotDuplicated atPc
  | closeFile atPc =>
      simp only [Remembered, atPc] at remembered
      exact ⟨remembered, childless⟩
  | ignoreHangup atPc =>
      simp only [Remembered, atPc] at remembered
      exact ⟨⟨remembered, rfl⟩, childless⟩
  | closeInput | exit | notForked | notForkedAgain | notOpened =>
      exact ⟨trivial, childless⟩

/-- In the SIGHUP loop SIGHUP does what `main` has set up. -/
def Heeds (_ : Nat) (process : ForkedProcess) : Prop :=
  ∀ ret, process.pc = .serve ret → process.hangup = process.installed

/-- The condition on a step: the second `fork` does not fail, or SIGHUP is ignored
anyway, since the server was started so and the `sigaction` of `main` failed. -/
def ForksAgain (tree : ProcessTree) : Action → Prop
  | .call pid false => ∀ process oldAction, tree[pid]? = some process →
      process.pc = .forkAgain oldAction → process.installed = .ignore
  | _ => True

theorem forksAgain_of_ne {tree : ProcessTree} {pid : Nat}
    {process : ForkedProcess} (found : tree[pid]? = some process)
    (elsewhere : ∀ oldAction, process.pc ≠ .forkAgain oldAction)
    (succeeds : Bool) : ForksAgain tree (.call pid succeeds) := by
  cases succeeds with
  | true => trivial
  | false =>
      intro other oldAction foundToo atPc
      cases found.symm.trans foundToo
      exact absurd atPc (elsewhere oldAction)

/-- What a call leaves in the process that makes it. -/
theorem calls_heeds_iff {tree : ProcessTree} {pid : Nat}
    {process behind : ForkedProcess} {succeeds : Bool}
    {child : Option ForkedProcess} (found : tree[pid]? = some process)
    (remembered : Remembered pid process)
    (called : process.Calls pid succeeds behind child) :
    Heeds pid behind ↔ ForksAgain tree (.call pid succeeds) := by
  have elsewhere (unserved : Heeds pid behind)
      (others : ∀ oldAction, process.pc ≠ .forkAgain oldAction) :
      Heeds pid behind ↔ ForksAgain tree (.call pid succeeds) :=
    iff_of_true unserved (forksAgain_of_ne found others succeeds)
  cases called with
  | setHandler atPc | handlerNotSet atPc | fork atPc | setsid atPc
  | ignoreHangup atPc | restoreHangup atPc | openRedirection atPc
  | dupOutput atPc | dupError atPc | outputNotDuplicated atPc
  | errorNotDuplicated atPc | closeFile atPc =>
      refine elsewhere (fun ret serves => by cases serves) fun oldAction => ?_
      rw [atPc]
      exact fun same => by cases same
  | forkAgain => exact iff_of_true (fun ret serves => by cases serves) trivial
  | exit =>
      exact iff_of_true (fun ret serves => by cases serves) trivial
  | closeInput atPc =>
      simp only [Remembered, atPc] at remembered
      refine elsewhere (fun _ _ => remembered) fun oldAction same => ?_
      cases atPc.symm.trans same
  | notForked atPc =>
      rcases atPc with atPc | atPc <;>
        simp only [Remembered, atPc] at remembered <;>
        refine elsewhere (fun _ _ => remembered) fun oldAction same => ?_ <;>
        cases atPc.symm.trans same
  | notOpened atPc =>
      simp only [Remembered, atPc] at remembered
      refine elsewhere (fun _ _ => remembered) fun oldAction same => ?_
      cases atPc.symm.trans same
  | notForkedAgain atPc =>
      simp only [Remembered, atPc] at remembered
      constructor
      · intro heeds other oldAction foundToo _
        cases found.symm.trans foundToo
        exact (heeds intErr rfl).symm.trans remembered.2
      · intro ignored ret _
        exact remembered.2.trans (ignored process _ found atPc).symm

theorem step_heeds_iff {tree next : ProcessTree} {action : Action}
    (remembered : tree.Everywhere Remembered) (heeds : tree.Everywhere Heeds)
    (stepped : tree.step action = some next) :
    next.Everywhere Heeds ↔ ForksAgain tree action := by
  cases action with
  | hangup pid =>
      refine iff_of_true ?_ trivial
      obtain ⟨process, behind, found, received, rfl⟩ := hangup_cases stepped
      refine heeds.set ?_
      rcases receiveHangup_cases received with rfl | ⟨_, rfl⟩
      · exact heeds pid behind found
      · exact fun ret serves => by cases serves
  | call pid succeeds =>
      obtain ⟨process, behind, child, found, called, rfl⟩ := call_cases stepped
      have exactly := calls_heeds_iff found (remembered pid process found) called
      rw [← exactly]
      have inside := (List.getElem?_eq_some_iff.mp found).1
      constructor
      · intro everywhere
        refine everywhere pid behind ?_
        rw [List.getElem?_append_left (by rw [List.length_set]; exact inside),
          List.getElem?_set_self inside]
      · intro here
        refine (heeds.set here).fork fun forked member ret serves => ?_
        cases called <;> cases member <;> cases serves

/-- SIGHUP does to the server what `main` has set up for it, in every state of a
run, exactly when no second `fork` fails in the run of a process that would not
ignore SIGHUP anyway: behind one that does, `daemonize` returns with SIGHUP still
ignored, and the server cannot be made to read its configuration again. -/
theorem hangup_heeded_iff (inherited : Disposition) (terminal : Terminal)
    (actions : List Action) :
    system.StatesMeet (Everywhere Heeds) (start inherited terminal) actions ↔
      system.StepsMeet ForksAgain (start inherited terminal) actions := by
  have remembered : (start inherited terminal).Everywhere Remembered :=
    start_everywhere trivial
  have heeds : (start inherited terminal).Everywhere Heeds :=
    start_everywhere fun ret serves => by cases serves
  exact system.statesMeet_iff_stepsMeet
    (fun remembered stepped => remembered.step
      (fun _ _ _ _ _ here called => calls_remembered here called)
      (fun _ _ _ => trivial) stepped)
    step_heeds_iff actions remembered heeds

/-! ## How many servers there are -/

end ProcessTree

namespace DaemonPc

/-- On the way to `exit`. -/
def leaves : DaemonPc → Bool
  | exitParent | exitLeader | exited => true
  | _ => false

/-- The calls that are left, with those of the children. -/
def left : DaemonPc → Nat
  | setHandler => 13
  | fork => 12
  | setsid => 10
  | ignoreHangup => 9
  | forkAgain _ => 8
  | restoreHangup _ => 6
  | openRedirection => 5
  | dupOutput _ => 4
  | dupError _ => 3
  | closeFile _ => 2
  | closeInput | exitParent | exitLeader => 1
  | serve _ | exited | killed => 0

end DaemonPc

namespace ProcessTree

/-- The last process that was made is the only one that is not on its way to
`exit`. -/
def OneServer (tree : ProcessTree) : Prop :=
  ∃ earlier server, tree = earlier ++ [server] ∧ server.pc.leaves = false ∧
    ∀ process ∈ earlier, process.pc.leaves = true ∨ process.pc = .killed

/-- A process that is on its way to `exit` only exits. -/
theorem calls_leaving {pid : Nat} {process behind : ForkedProcess}
    {succeeds : Bool} {child : Option ForkedProcess}
    (leaving : process.pc.leaves = true ∨ process.pc = .killed)
    (called : process.Calls pid succeeds behind child) :
    behind.pc.leaves = true ∧ child = none := by
  cases called with
  | exit => exact ⟨rfl, rfl⟩
  | notForked atPc =>
      rcases atPc with atPc | atPc <;> rw [atPc] at leaving <;>
        rcases leaving with leaves | killed <;> contradiction
  | setHandler atPc | handlerNotSet atPc | fork atPc | setsid atPc
  | ignoreHangup atPc | forkAgain atPc | restoreHangup atPc
  | openRedirection atPc | dupOutput atPc | dupError atPc
  | outputNotDuplicated atPc | errorNotDuplicated atPc | closeFile atPc
  | closeInput atPc | notForkedAgain atPc | notOpened atPc =>
      rw [atPc] at leaving
      rcases leaving with leaves | killed <;> contradiction

/-- The server goes on, or its child does and it leaves. -/
theorem calls_staying {pid : Nat} {process behind : ForkedProcess}
    {succeeds : Bool} {child : Option ForkedProcess}
    (staying : process.pc.leaves = false)
    (called : process.Calls pid succeeds behind child) :
    child = none ∧ behind.pc.leaves = false ∨
      ∃ server, child = some server ∧ server.pc.leaves = false ∧
        behind.pc.leaves = true := by
  cases called with
  | fork | forkAgain => exact .inr ⟨_, rfl, rfl, rfl⟩
  | exit atPc => rcases atPc with atPc | atPc <;> rw [atPc] at staying <;>
      contradiction
  | _ => exact .inl ⟨rfl, rfl⟩

/-- A SIGHUP leaves every process where it is, or ends it. -/
theorem receiveHangup_pc {process behind : ForkedProcess}
    (received : process.receiveHangup = some behind) :
    behind.pc = process.pc ∨ behind.pc = .killed := by
  rcases receiveHangup_cases received with rfl | ⟨_, rfl⟩
  · exact .inl rfl
  · exact .inr rfl

theorem step_oneServer {tree next : ProcessTree} {action : Action}
    (one : tree.OneServer) (stepped : tree.step action = some next) :
    next.OneServer := by
  obtain ⟨earlier, server, rfl, staying, leaving⟩ := one
  cases action with
  | call pid succeeds =>
      obtain ⟨process, behind, child, found, called, rfl⟩ := call_cases stepped
      rcases Nat.lt_or_ge pid earlier.length with before | last
      · rw [List.getElem?_append_left before] at found
        have member := List.mem_of_getElem? found
        obtain ⟨leaves, rfl⟩ := calls_leaving (leaving process member) called
        refine ⟨earlier.set pid behind, server, ?_, staying, ?_⟩
        · rw [List.set_append_left _ _ before, Option.toList_none,
            List.append_nil]
        · intro other inside
          rcases List.mem_or_eq_of_mem_set inside with old | rfl
          · exact leaving other old
          · exact .inl leaves
      · have isLast : pid = earlier.length := by
          have inside := (List.getElem?_eq_some_iff.mp found).1
          rw [List.length_append, List.length_singleton] at inside
          omega
        subst isLast
        rw [List.getElem?_append_right (Nat.le_refl _), Nat.sub_self] at found
        cases found
        rw [List.set_append_right _ _ (Nat.le_refl _), Nat.sub_self]
        rcases calls_staying staying called with
          ⟨rfl, stays⟩ | ⟨server, rfl, stays, leaves⟩
        · exact ⟨earlier, behind, List.append_nil _, stays, leaving⟩
        · refine ⟨earlier ++ [behind], server, rfl, stays, ?_⟩
          intro other inside
          rcases List.mem_append.mp inside with old | new
          · exact leaving other old
          · rw [List.mem_singleton.mp new]
            exact .inl leaves
  | hangup pid =>
      obtain ⟨process, behind, found, received, rfl⟩ := hangup_cases stepped
      have moved := receiveHangup_pc received
      rcases Nat.lt_or_ge pid earlier.length with before | last
      · rw [List.getElem?_append_left before] at found
        have member := List.mem_of_getElem? found
        refine ⟨earlier.set pid behind, server, ?_, staying, ?_⟩
        · rw [List.set_append_left _ _ before]
        · intro other inside
          rcases List.mem_or_eq_of_mem_set inside with old | rfl
          · exact leaving other old
          · rcases moved with same | killed
            · rw [same]
              exact leaving process member
            · exact .inr killed
      · have isLast : pid = earlier.length := by
          have inside := (List.getElem?_eq_some_iff.mp found).1
          rw [List.length_append, List.length_singleton] at inside
          omega
        subst isLast
        rw [List.getElem?_append_right (Nat.le_refl _), Nat.sub_self] at found
        cases found
        rw [List.set_append_right _ _ (Nat.le_refl _), Nat.sub_self]
        refine ⟨earlier, behind, rfl, ?_, leaving⟩
        rcases moved with same | killed
        · rw [same]
          exact staying
        · rw [killed]
          rfl

/-- The calls that are left in the whole tree. -/
def left (tree : ProcessTree) : Nat :=
  (tree.map fun process => process.pc.left).sum

theorem left_append (first second : ProcessTree) :
    left (first ++ second) = first.left + second.left := by
  simp only [left, List.map_append, List.sum_append]

theorem left_set {tree : ProcessTree} {pid : Nat} {process : ForkedProcess}
    (found : tree[pid]? = some process) (behind : ForkedProcess) :
    left (tree.set pid behind) + process.pc.left =
      tree.left + behind.pc.left := by
  induction tree generalizing pid with
  | nil => cases found
  | cons first rest inductionHypothesis =>
      cases pid with
      | zero =>
          cases found
          simp only [List.set_cons_zero, left, List.map_cons, List.sum_cons]
          omega
      | succ pid =>
          have later := inductionHypothesis found
          simp only [List.set_cons_succ, left, List.map_cons, List.sum_cons]
            at later ⊢
          omega

theorem calls_left {pid : Nat} {process behind : ForkedProcess}
    {succeeds : Bool} {child : Option ForkedProcess}
    (called : process.Calls pid succeeds behind child) :
    behind.pc.left + left child.toList < process.pc.left := by
  cases called with
  | exit atPc | notForked atPc =>
      rcases atPc with atPc | atPc <;> rw [atPc] <;>
        simp [DaemonPc.left, left]
  | setHandler atPc | handlerNotSet atPc | fork atPc | setsid atPc
  | ignoreHangup atPc | forkAgain atPc | restoreHangup atPc
  | openRedirection atPc | dupOutput atPc | dupError atPc
  | outputNotDuplicated atPc | errorNotDuplicated atPc | closeFile atPc
  | closeInput atPc | notForkedAgain atPc | notOpened atPc =>
      rw [atPc]
      simp [DaemonPc.left, left]

def Action.isCall : Action → Bool
  | .call _ _ => true
  | .hangup _ => false

theorem step_left {tree next : ProcessTree} {action : Action}
    (stepped : tree.step action = some next) :
    action.isCall.toNat + next.left ≤ tree.left := by
  cases action with
  | call pid succeeds =>
      obtain ⟨process, behind, child, found, called, rfl⟩ := call_cases stepped
      have balance := left_set found behind
      have used := calls_left called
      rw [left_append]
      simp only [Action.isCall, Bool.toNat_true]
      omega
  | hangup pid =>
      obtain ⟨process, behind, found, received, rfl⟩ := hangup_cases stepped
      have balance := left_set found behind
      have fewer : behind.pc.left ≤ process.pc.left := by
        rcases receiveHangup_pc received with same | killed
        · rw [same]
        · rw [killed]
          exact Nat.zero_le _
      simp only [Action.isCall, Bool.toNat_false]
      omega

/-- Every call uses up one of those that are left. -/
theorem run_left (actions : List Action) {tree final : ProcessTree}
    (ran : system.run tree actions = some final) :
    (actions.filter Action.isCall).length + final.left ≤ tree.left := by
  induction actions generalizing tree with
  | nil =>
      cases ran
      exact Nat.le_of_eq (Nat.zero_add _)
  | cons action actions inductionHypothesis =>
      obtain ⟨next, stepped, rest⟩ := (system.run_cons).mp ran
      have here := step_left stepped
      have later := inductionHypothesis rest
      cases kind : action.isCall <;>
        simp only [List.filter_cons, kind, Bool.toNat_true, Bool.toNat_false,
          if_true, if_false, List.length_cons, Bool.false_eq_true] at here ⊢ <;>
        omega

/-- The process is in the SIGHUP loop of `main`. -/
def Serves (tree : ProcessTree) (pid : Nat) : Prop :=
  ∃ process ret, tree[pid]? = some process ∧ process.pc = .serve ret

/-- No process has a call to make. -/
def Quiet (tree : ProcessTree) : Prop :=
  ∀ pid succeeds, tree.step (.call pid succeeds) = none

theorem Quiet.pc {tree : ProcessTree} (quiet : tree.Quiet) {pid : Nat}
    {process : ForkedProcess} (found : tree[pid]? = some process) :
    (∃ ret, process.pc = .serve ret) ∨ process.pc = .exited ∨
      process.pc = .killed := by
  have silent := quiet pid true
  simp only [step, found, Option.bind_eq_bind, Option.bind_some] at silent
  cases atPc : process.pc with
  | serve ret => exact .inl ⟨ret, rfl⟩
  | exited => exact .inr (.inl rfl)
  | killed => exact .inr (.inr rfl)
  | _ => simp [ForkedProcess.call, atPc] at silent

/-- One server comes out of `daemonize`.  In every run, whatever calls fail, in
whatever order the processes go on and whenever SIGHUPs come, there are at most
thirteen calls and at most one process in the SIGHUP loop of `main`; and when no
process has a call to make any more and no SIGHUP has ended one, exactly one is
there and the others have exited. -/
theorem daemonize_one_server (inherited : Disposition) (terminal : Terminal)
    (actions : List Action) {tree : ProcessTree}
    (ran : system.run (start inherited terminal) actions = some tree) :
    (actions.filter Action.isCall).length ≤ 13 ∧
    (∀ first second, tree.Serves first → tree.Serves second →
      first = second) ∧
    (tree.Quiet → (∀ process ∈ tree, process.pc ≠ .killed) →
      ∃ earlier server ret, tree = earlier ++ [server] ∧
        server.pc = .serve ret ∧
        ∀ process ∈ earlier, process.pc = .exited) := by
  have initial : (start inherited terminal).OneServer :=
    ⟨[], started inherited terminal, rfl, rfl,
      fun process member => by cases member⟩
  have one : tree.OneServer :=
    system.run_invariant step_oneServer actions initial ran
  obtain ⟨earlier, server, rfl, staying, leaving⟩ := one
  have notServing {process : ForkedProcess} (member : process ∈ earlier)
      (ret : Int) : process.pc ≠ .serve ret := by
    intro serves
    rcases leaving process member with leaves | killed
    · rw [serves] at leaves
      cases leaves
    · rw [serves] at killed
      cases killed
  refine ⟨?_, ?_, ?_⟩
  · have bound := run_left actions ran
    have first : (start inherited terminal).left = 13 := rfl
    omega
  · have isLast {pid : Nat} (serves : Serves (earlier ++ [server]) pid) :
        pid = earlier.length := by
      obtain ⟨process, ret, found, atPc⟩ := serves
      have inside := (List.getElem?_eq_some_iff.mp found).1
      rw [List.length_append, List.length_singleton] at inside
      rcases Nat.lt_or_ge pid earlier.length with before | last
      · rw [List.getElem?_append_left before] at found
        exact absurd atPc (notServing (List.mem_of_getElem? found) ret)
      · omega
    exact fun first second serves serves' =>
      (isLast serves).trans (isLast serves').symm
  · intro quiet alive
    have atEnd {process : ForkedProcess} (member : process ∈ earlier ++ [server]) :
        (∃ ret, process.pc = .serve ret) ∨ process.pc = .exited := by
      obtain ⟨pid, found⟩ := List.getElem?_of_mem member
      rcases quiet.pc found with serves | exited | killed
      · exact .inl serves
      · exact .inr exited
      · exact absurd killed (alive process member)
    have last : server ∈ earlier ++ [server] :=
      List.mem_append_right _ (List.mem_singleton.mpr rfl)
    rcases atEnd last with ⟨ret, serves⟩ | exited
    · refine ⟨earlier, server, ret, rfl, serves, fun process member => ?_⟩
      rcases atEnd (List.mem_append_left _ member) with ⟨other, serves⟩ | exited
      · exact absurd serves (notServing member other)
      · exact exited
    · rw [exited] at staying
      cases staying

/-- What is left behind them. -/
def settledTree : ProcessTree :=
  [{ started .default allOpen with
      pc := .exited, hangup := .handler, installed := .handler },
    { started .default allOpen with
      pc := .exited, hangup := .ignore, session := some 1,
      installed := .handler },
    daemonProcess]

theorem daemonize_one_server_daemon :
    ∃ earlier server ret, settledTree = earlier ++ [server] ∧
      server.pc = .serve ret ∧
      ∀ process ∈ earlier, process.pc = .exited := by
  have quiet : settledTree.Quiet := by
    intro pid succeeds
    rcases pid with _ | _ | _ | pid <;> cases succeeds <;> rfl
  exact (daemonize_one_server .default allOpen successfulStart rfl).2.2 quiet
    (by decide)

end ProcessTree

end RemoteCommand
