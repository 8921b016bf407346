import RemoteCommand.ReloadCoherence

/-!
# The log across reloads

`set_logging` is called once, before the SIGHUP loop, and `stop_logging` in
every turn of it.  So `log_cs` refers to a critical section until the first
`stop_logging` and never again, and the path of the log stays the one that
`log_file` had before the loop.
-/

namespace RemoteCommand.Process

open Machine Transition

variable {host : Endian}

/-- While workers serve requests, `log_cs` refers to a critical section that was
created and not freed, and the path of the log is the current `log_file`. -/
def LogMeets (process : Process) : Prop :=
  0 < process.serving →
    process.logCs = .created ∧
      process.filename = process.configuration.logFile

/-- What the static variables of `logging.h` are, and when there are workers. -/
structure LogInvariant (process : Process) : Prop where
  filename : process.filename = process.startLogFile
  logCs : process.logCs = .created ↔
    process.logCreated = true ∧ process.stops = 0
  workers : process.pc.poolless = true → process.workers = 0
  serving : process.serving ≤ process.workers

theorem LogInvariant.idle {process : Process} (holds : process.LogInvariant)
    (poolless : process.pc.poolless = true) : process.serving = 0 := by
  have none := holds.workers poolless
  have few := holds.serving
  omega

/-- The condition on a step: a worker takes a request only in the first cycle,
before `stop_logging`, and with the `log_file` of the start of the server; a
SIGHUP that changes `log_file` and `stop_logging` find no worker serving. -/
def LogCondition (process : Process) : Action → Prop
  | .take => process.logCreated = true ∧ process.stops = 0 ∧
      process.configuration.logFile = process.startLogFile
  | .sighup file => 0 < process.serving →
      (process.handle file).configuration.logFile = process.startLogFile
  | .main _ => process.pc = .stopLogging → process.serving = 0
  | .finish | .exit => True

theorem mainStep_logInvariant {process next : Process} {answer : Answer}
    (holds : process.LogInvariant)
    (stepped : process.mainStep host answer = some next) :
    next.LogInvariant := by
  cases mainStep_cases stepped with
  | setLogging succeeds atPc =>
      have poolless : process.pc.poolless = true := by rw [atPc]; rfl
      exact
        { filename := rfl
          logCs := by cases succeeds <;> simp [setLogging, goto]
          workers := fun _ => holds.workers poolless
          serving := holds.serving }
  | started atPc =>
      have idle := holds.idle (by rw [atPc]; rfl)
      exact { holds with
        workers := nofun
        serving := idle.trans_le (Nat.zero_le _) }
  | stopLogging atPc =>
      exact { holds with
        logCs := by
          by_cases null : process.logCs = .null <;>
            simp [stopLogging, goto, null]
        workers := nofun }
  | destroyThreadPool =>
      exact { holds with
        workers := fun _ => rfl
        serving := Nat.le_refl 0 }
  | moves moving =>
      exact { holds with
        workers := fun poolless => holds.workers (moving.poolless poolless) }
  | configured atPc | updated atPc | installed atPc | resetSighup atPc =>
      exact { holds with workers := fun _ => holds.workers (by rw [atPc]; rfl) }
  | address | bound | listening | queue | enqueued
  | destroyQueue | closeSocket =>
      exact { holds with workers := nofun }

theorem step_logInvariant {process next : Process} {action : Action}
    (holds : process.LogInvariant)
    (stepped : process.step host action = some next) :
    next.LogInvariant := by
  cases step_cases stepped with
  | main called => exact mainStep_logInvariant holds called
  | @sighup file =>
      rcases handle_cases process file with ended | same | ⟨_, raised⟩
      · rw [ended]
        exact { holds with workers := nofun }
      · rw [same]
        exact holds
      · rw [raised]
        exact { holds with }
  | take idle =>
      exact { holds with
        workers := holds.workers
        serving := idle }
  | finish busy =>
      exact { holds with
        workers := holds.workers
        serving := (Nat.sub_le _ _).trans holds.serving }
  | exit busy =>
      exact { holds with
        workers := fun poolless => by
          have none := holds.workers poolless
          change process.workers - 1 = 0
          omega
        serving := Nat.sub_le_sub_right holds.serving 1 }

/-- A call of `main` keeps the property, unless it is a `stop_logging` while a
worker serves. -/
theorem mainStep_logMeets {process next : Process} {answer : Answer}
    (holds : process.LogInvariant) (meets : process.LogMeets)
    (stepped : process.mainStep host answer = some next) :
    next.LogMeets ↔ (process.pc = .stopLogging → process.serving = 0) := by
  have keeps (different : process.pc ≠ .stopLogging) (meets : next.LogMeets) :
      next.LogMeets ↔ (process.pc = .stopLogging → process.serving = 0) :=
    iff_of_true meets fun same => absurd same different
  cases mainStep_cases stepped with
  | configured atPc | updated atPc | setLogging _ atPc =>
      have idle := holds.idle (by rw [atPc]; rfl)
      exact keeps (by rw [atPc]; nofun) fun busy => absurd idle busy.ne'
  | destroyThreadPool atPc =>
      exact keeps (by rw [atPc]; nofun) fun busy => absurd rfl busy.ne'
  | stopLogging atPc =>
      constructor
      · intro nextMeets _
        by_contra busy
        have created := (nextMeets (Nat.pos_of_ne_zero busy)).1
        by_cases null : process.logCs = .null <;>
          simp [stopLogging, goto, null] at created
      · intro idle busy
        exact absurd (idle atPc) busy.ne'
  | installed atPc | resetSighup atPc | started atPc | address atPc
  | bound atPc | listening atPc | queue atPc | enqueued atPc
  | destroyQueue atPc | closeSocket atPc =>
      exact keeps (by rw [atPc]; nofun) meets
  | moves moving => exact keeps moving.logging meets

theorem handle_logMeets {process : Process} (holds : process.LogInvariant)
    (meets : process.LogMeets) (file : ConfFile) :
    (process.handle file).LogMeets ↔
      (0 < process.serving →
        (process.handle file).configuration.logFile =
          process.startLogFile) := by
  have frame : (process.handle file).serving = process.serving ∧
      (process.handle file).logCs = process.logCs ∧
      (process.handle file).filename = process.startLogFile := by
    rcases handle_cases process file with same | same | ⟨_, same⟩ <;>
      (rw [same]; exact ⟨rfl, rfl, holds.filename⟩)
  obtain ⟨serving, logCs, filename⟩ := frame
  rw [LogMeets, serving, logCs, filename]
  constructor
  · exact fun nextMeets busy => (nextMeets busy).2.symm
  · exact fun same busy => ⟨(meets busy).1, (same busy).symm⟩

/-- From a state that meets the property, a step leads to one exactly when it
meets the condition. -/
theorem step_logMeets {process next : Process} {action : Action}
    (holds : process.LogInvariant) (meets : process.LogMeets)
    (stepped : process.step host action = some next) :
    next.LogMeets ↔ process.LogCondition action := by
  cases step_cases stepped with
  | main called => exact mainStep_logMeets holds meets called
  | sighup => exact handle_logMeets holds meets _
  | take =>
      have always : 0 < process.serving + 1 := Nat.succ_pos _
      calc
        _ ↔ process.logCs = .created ∧
            process.filename = process.configuration.logFile :=
          ⟨fun nextMeets => nextMeets always, fun sound _ => sound⟩
        _ ↔ process.LogCondition .take := by
          rw [holds.logCs, holds.filename, and_assoc, LogCondition,
            @eq_comm _ process.startLogFile]
  | finish busy | exit busy =>
      exact iff_of_true (fun _ => meets busy) trivial

/-- In every run of the server: in all states in which workers serve requests,
`log_cs` refers to a critical section that was created and not freed and the
path of the log is the current `log_file`, exactly when every step meets the
condition. -/
theorem log_sound_iff (host : Endian) (arguments : Arguments)
    (actions : List Action) :
    (system host).StatesMeet LogMeets (start arguments) actions ↔
      (system host).StepsMeet LogCondition (start arguments) actions := by
  have initial : (start arguments).LogInvariant :=
    { filename := rfl
      logCs := ⟨nofun, nofun⟩
      workers := fun _ => rfl
      serving := Nat.le_refl 0 }
  exact (system host).statesMeet_iff_stepsMeet step_logInvariant step_logMeets
    actions initial nofun

/-- A client is accepted, and a worker takes its connection. -/
def oneRequest : List Action :=
  [.main .done, .main .done, .main .done, .take]

/-- While a worker serves, a SIGHUP that names another log leaves the request to
the old one, and the teardown after a SIGHUP frees `log_cs`. -/
theorem log_unsound :
    ¬ (system .little).StatesMeet LogMeets (start withConfFile)
        (startUp "-n 1\n" ++ setUp 1 ++ oneRequest ++
          [.sighup (.line (bytes "-l /var/log/server.log\n"))]) ∧
      ¬ (system .little).StatesMeet LogMeets (start withConfFile)
        (startUp "-n 1\n" ++ setUp 1 ++ oneRequest ++
          .sighup (.line (bytes "-n 1\n")) ::
            List.replicate 6 (.main .done)) := by
  constructor
  · intro meets
    have sound := meets.last rfl Nat.one_pos
    exact absurd sound.2 (by decide)
  · intro meets
    have sound := meets.last rfl Nat.one_pos
    exact absurd sound.1 (by decide)

end RemoteCommand.Process
