import RemoteCommand.ReloadCoherence

/-!
# The ways out of the accept loop

Two things lead from the accept loop into the teardown: the flag that
`sighup_handler` raises, and an `accept` that fails with `EINTR`.  The handler
leaves the flag down when `conf_file` is `NULL`; the interruption does not ask
for `conf_file`.

`Hangups` is the process of `main` with what is remembered of the SIGHUPs of a
cycle.  An `accept` is interrupted only by a SIGHUP that was delivered during
it.  Whether it is, the system decides: `sa_flags` is not initialised.
-/

namespace RemoteCommand

open Machine Transition

namespace MainPc

/-- The handler is not installed yet. -/
def early : MainPc → Bool
  | getParameters | updateParameters | setLogging | sigaction => true
  | _ => false

/-- The accept loop has been left for the teardown. -/
def leaving : MainPc → Bool
  | waitPending | destroyQueue | destroyCs | closeSocket | stopLogging
  | destroyThreadPool | destroySemaphore => true
  | _ => false

end MainPc

namespace Process

/-- What the process `found` had set up is unchanged in `now`: the variables,
the pool, the socket, its backlog and the queue. -/
structure Kept (found now : Process) : Prop where
  configuration : now.configuration = found.configuration
  reads : found.pc.reads ≤ now.pc.reads
  pool : 1 ≤ found.pc.reads → now.requested = found.requested
  socket : 3 ≤ found.pc.reads → now.bound = found.bound
  listening : 4 ≤ found.pc.reads → now.backlog = found.backlog
  queue : 5 ≤ found.pc.reads → now.capacity = found.capacity

theorem Kept.refl (process : Process) : process.Kept process :=
  ⟨rfl, Nat.le_refl _, fun _ => rfl, fun _ => rfl, fun _ => rfl, fun _ => rfl⟩

theorem Kept.trans {first second third : Process} (before : first.Kept second)
    (behind : second.Kept third) : first.Kept third where
  configuration := behind.configuration.trans before.configuration
  reads := before.reads.trans behind.reads
  pool built :=
    (behind.pool (built.trans before.reads)).trans (before.pool built)
  socket built :=
    (behind.socket (built.trans before.reads)).trans (before.socket built)
  listening built :=
    (behind.listening (built.trans before.reads)).trans
      (before.listening built)
  queue built :=
    (behind.queue (built.trans before.reads)).trans (before.queue built)

/-- What a call of `main` does to the flag and to what is set up. -/
structure Turn (process : Process) (answer : Answer) (next : Process) :
    Prop where
  flag : next.sighup =
    if process.pc = .resetSighup then false else process.sighup
  early : next.pc.early = true →
    process.pc.early = true ∧ next.installed = process.installed
  leaving : next.pc.leaving = true → process.pc ≠ .resetSighup ∧
    (process.pc.leaving = true ∨ process.sighup = true ∨
      answer = .interrupted)
  interrupted : answer = .interrupted → next.pc.leaving = true
  kept : process.pc.early = false → process.pc.leaving = false →
    next.pc.leaving = false → next.pc ≠ .ended → process.Kept next

theorem turn_ended (process : Process) {answer : Answer}
    (going : answer ≠ .interrupted) (atPc : process.pc ≠ .resetSighup) :
    process.Turn answer (process.goto .ended) where
  flag := by rw [if_neg atPc]; rfl
  early := nofun
  leaving := nofun
  interrupted same := absurd same going
  kept _ _ _ running := absurd rfl running

theorem mainStep_turn {host : Endian} {process next : Process}
    {answer : Answer} (stepped : process.mainStep host answer = some next) :
    process.Turn answer next := by
  unfold mainStep at stepped
  cases atPc : process.pc <;> cases answer <;>
    simp only [atPc, reduceCtorEq, Option.some.injEq] at stepped
  case getParameters.done =>
    split at stepped
    · cases stepped
      exact turn_ended process nofun (by rw [atPc]; nofun)
    · split at stepped <;> cases stepped
      · exact turn_ended process nofun (by rw [atPc]; nofun)
      · constructor <;> simp [atPc, MainPc.early, MainPc.leaving]
  case updateParameters.file =>
    split at stepped <;> cases stepped
    · exact turn_ended process nofun (by rw [atPc]; nofun)
    · constructor <;> simp [atPc, MainPc.early, MainPc.leaving]
  case createThreadPool.started =>
    split at stepped <;> cases stepped
    constructor <;> simp [atPc, MainPc.early, MainPc.leaving]
    constructor <;> simp [atPc, MainPc.reads]
  case test.done =>
    split at stepped <;> cases stepped <;>
      constructor <;> simp_all [MainPc.early, MainPc.leaving, goto]
    constructor <;> simp [atPc, MainPc.reads]
  case enqueue.done =>
    split at stepped <;> cases stepped <;>
      constructor <;> simp [atPc, MainPc.early, MainPc.leaving] <;>
      constructor <;> simp [atPc, MainPc.reads]
  case waitPending.done =>
    split at stepped <;> cases stepped <;>
      constructor <;> simp [atPc, MainPc.early, MainPc.leaving, goto]
  all_goals
    cases stepped
    constructor <;> simp [atPc, MainPc.early, MainPc.leaving, goto]
  -- the calls that set something up leave what was there before
  all_goals
    constructor <;> simp [atPc, MainPc.reads]

end Process

structure Hangups where
  process : Process
  /-- a SIGHUP has been delivered since `main` came to `accept` -/
  during : Bool
  /-- a SIGHUP of this cycle has found `conf_file` set -/
  heeded : Bool
  /-- the process as the SIGHUPs of this cycle found it, where `conf_file` was
  `NULL` -/
  ignored : List Process

namespace Hangups

def start (arguments : Arguments) : Hangups where
  process := .start arguments
  during := false
  heeded := false
  ignored := []

/-- The state behind a step to `process`. -/
def remember (state : Hangups) (process : Process) : Process.Action → Hangups
  | .sighup _ =>
      if state.process.installed then
        if state.process.configuration.confFile = none then
          { state with
            process
            during := state.during || state.process.pc = .accept
            ignored := state.process :: state.ignored }
        else
          { state with
            process
            during := state.during || state.process.pc = .accept
            heeded := true }
      else { state with process }
  | .main _ =>
      if state.process.pc = .resetSighup then
        { process, during := false, heeded := false, ignored := [] }
      else { state with process, during := false }
  | .take | .finish | .exit => { state with process }

def step (host : Endian) (state : Hangups) (action : Process.Action) :
    Option Hangups :=
  if action = .main .interrupted ∧ state.during = false then
    none
  else
    (state.process.step host action).map fun process =>
      state.remember process action

def system (host : Endian) : System Hangups Process.Action where
  step := step host

/-- The accept loop has been left only if a SIGHUP of the cycle found
`conf_file` set; and if none did, what the others found set up is there. -/
structure Heeding (state : Hangups) : Prop where
  left : state.process.pc.leaving = true → state.heeded = true
  kept : state.heeded = false → state.process.pc ≠ .ended →
    ∀ found ∈ state.ignored, found.Kept state.process

/-- The condition on a step: an `accept` is not interrupted while the flag is
down. -/
def FlagRaised (state : Hangups) : Process.Action → Prop
  | .main .interrupted => state.process.sighup = true
  | _ => True

structure Invariant (state : Hangups) : Prop where
  flag : state.process.pc ≠ .ended → state.process.sighup = state.heeded
  early : state.process.pc.early = true →
    state.process.installed = false ∧ state.ignored = []

/-! ## What one step can do -/

theorem step_cases {host : Endian} {state next : Hangups}
    {action : Process.Action} (stepped : state.step host action = some next) :
    state.process.pc ≠ .ended ∧
      ∃ process, state.process.Step host action process ∧
        next = state.remember process action := by
  obtain ⟨_, called⟩ := Option.ite_none_left_eq_some.mp stepped
  obtain ⟨process, moved, rfl⟩ := Option.map_eq_some_iff.mp called
  refine ⟨?_, process, Process.step_cases moved, rfl⟩
  intro ended
  simp only [Process.step, if_pos ended, reduceCtorEq] at moved

section Turns

variable {state : Hangups} {next : Process} {answer : Answer}

/-- A process that has ended is in no loop. -/
theorem ended_sound (ended : state.process.pc = .ended) :
    state.Invariant ∧ state.Heeding := by
  constructor
  · refine ⟨fun running => absurd ended running, fun early => ?_⟩
    rw [ended] at early
    cases early
  · refine ⟨fun leaving => ?_, fun _ running => absurd ended running⟩
    rw [ended] at leaving
    cases leaving

theorem main_invariant (holds : state.Invariant)
    (running : state.process.pc ≠ .ended)
    (turn : state.process.Turn answer next) :
    (state.remember next (.main answer)).Invariant := by
  simp only [remember]
  split
  case isTrue atPc =>
    refine ⟨fun _ => turn.flag.trans (if_pos atPc), fun early => ?_⟩
    have before := (turn.early early).1
    rw [atPc] at before
    cases before
  case isFalse other =>
    constructor
    · intro _
      exact (turn.flag.trans (if_neg other)).trans (holds.flag running)
    · intro early
      obtain ⟨before, same⟩ := turn.early early
      obtain ⟨notInstalled, nothing⟩ := holds.early before
      exact ⟨same.trans notInstalled, nothing⟩

/-- A call of `main` keeps the property, unless it is an `accept` that is
interrupted while the flag is down. -/
theorem main_heeding (holds : state.Invariant) (heeding : state.Heeding)
    (running : state.process.pc ≠ .ended)
    (turn : state.process.Turn answer next) :
    (state.remember next (.main answer)).Heeding ↔
      state.FlagRaised (.main answer) := by
  have flag := holds.flag running
  by_cases interrupted : answer = .interrupted
  · have leaving := turn.interrupted interrupted
    have other := (turn.leaving leaving).1
    subst interrupted
    simp only [remember, if_neg other, FlagRaised, flag]
    constructor
    · exact fun after => after.left leaving
    · intro heeded
      refine ⟨fun _ => heeded, fun unheeded => ?_⟩
      simp only [heeded, Bool.true_eq_false] at unheeded
  · have met : state.FlagRaised (.main answer) := by
      cases answer <;> trivial
    refine iff_of_true ?_ met
    have left : next.pc.leaving = true → state.heeded = true := by
      intro leaving
      rcases (turn.leaving leaving).2 with before | raised | same
      · exact heeding.left before
      · exact flag.symm.trans raised
      · exact absurd same interrupted
    simp only [remember]
    split
    case isTrue atPc =>
      constructor
      · exact fun leaving => absurd atPc (turn.leaving leaving).1
      · exact fun _ _ found member => absurd member List.not_mem_nil
    case isFalse other =>
      refine ⟨left, fun unheeded stays found member => ?_⟩
      have late : state.process.pc.early = false := by
        by_contra early
        rw [Bool.not_eq_false] at early
        rw [(holds.early early).2] at member
        cases member
      have inside {pc : MainPc} (left : pc.leaving = true → state.heeded = true) :
          pc.leaving = false :=
        Bool.eq_false_iff.mpr fun leaving => by
          simp only [left leaving, Bool.true_eq_false] at unheeded
      exact (heeding.kept unheeded running found member).trans
        (turn.kept late (inside heeding.left) (inside left) stays)

theorem sighup_invariant (holds : state.Invariant) (file : ConfFile) :
    (state.remember (state.process.handle file) (.sighup file)).Invariant := by
  simp only [remember]
  split
  case isTrue installed =>
    have late {pc : MainPc} (same : pc = state.process.pc)
        (early : pc.early = true) : False := by
      have notInstalled := (holds.early (same ▸ early)).1
      simp only [installed, Bool.true_eq_false] at notInstalled
    split
    case isTrue unset =>
      rw [Process.handle_ignored installed unset]
      exact ⟨holds.flag, fun early => (late rfl early).elim⟩
    case isFalse isSet =>
      rcases Process.handle_heeded installed isSet file with
        ended | ⟨configuration, raised⟩
      · rw [ended]
        exact (ended_sound rfl).1
      · rw [raised]
        exact ⟨fun _ => rfl, fun early => (late rfl early).elim⟩
  case isFalse notInstalled =>
    rw [Process.handle, if_neg notInstalled]
    exact (ended_sound rfl).1

/-- The handler keeps the property at any moment. -/
theorem sighup_heeding (heeding : state.Heeding)
    (running : state.process.pc ≠ .ended) (file : ConfFile) :
    (state.remember (state.process.handle file) (.sighup file)).Heeding := by
  simp only [remember]
  split
  case isTrue installed =>
    split
    case isTrue unset =>
      rw [Process.handle_ignored installed unset]
      refine ⟨heeding.left, fun unheeded stays found member => ?_⟩
      rcases List.mem_cons.mp member with now | before
      · rw [now]
        exact .refl state.process
      · exact heeding.kept unheeded running found before
    case isFalse isSet =>
      exact ⟨fun _ => rfl, fun unheeded => Bool.noConfusion unheeded⟩
  case isFalse notInstalled =>
    rw [Process.handle, if_neg notInstalled]
    exact (ended_sound rfl).2

end Turns

theorem step_invariant {host : Endian} {state next : Hangups}
    {action : Process.Action} (holds : state.Invariant)
    (stepped : state.step host action = some next) : next.Invariant := by
  obtain ⟨running, process, step, rfl⟩ := step_cases stepped
  cases step with
  | main called =>
      exact main_invariant holds running (Process.mainStep_turn called)
  | sighup => exact sighup_invariant holds _
  | take | finish | exit => exact ⟨holds.flag, holds.early⟩

/-- From a state that has the property, a step leads to one exactly when it is
not the interruption of an `accept` while the flag is down. -/
theorem step_heeding {host : Endian} {state next : Hangups}
    {action : Process.Action} (holds : state.Invariant)
    (heeding : state.Heeding)
    (stepped : state.step host action = some next) :
    next.Heeding ↔ state.FlagRaised action := by
  obtain ⟨running, process, step, rfl⟩ := step_cases stepped
  cases step with
  | main called =>
      exact main_heeding holds heeding running (Process.mainStep_turn called)
  | sighup => exact iff_of_true (sighup_heeding heeding running _) trivial
  | take | finish | exit =>
      -- the workers touch nothing of what is kept
      refine iff_of_true ⟨heeding.left, fun unheeded stays found member => ?_⟩
        trivial
      exact { heeding.kept unheeded stays found member with }

/-- In every run of the server, with a SIGHUP at any moment: the handler changes
nothing when `conf_file` is `NULL`, and the accept loop of a cycle is left for
the teardown only if a SIGHUP of the cycle found `conf_file` set, and what the
other SIGHUPs found set up stays until then, exactly when no `accept` is
interrupted while `sighup` is 0. -/
theorem accept_loop_left_iff (host : Endian) (arguments : Arguments)
    (actions : List Process.Action) :
    (∀ (process : Process) (file : ConfFile), process.installed = true →
      process.configuration.confFile = none →
        process.handle file = process) ∧
    ((system host).StatesMeet Heeding (start arguments) actions ↔
      (system host).StepsMeet FlagRaised (start arguments) actions) := by
  refine ⟨fun process file installed unset =>
    Process.handle_ignored installed unset file, ?_⟩
  have initial : (start arguments).Invariant :=
    ⟨fun _ => rfl, fun _ => ⟨rfl, rfl⟩⟩
  exact (system host).statesMeet_iff_stepsMeet step_invariant step_heeding
    actions initial
    ⟨nofun, fun _ _ found member => absurd member List.not_mem_nil⟩

/-- A server without a configuration file, whose first `accept` is interrupted
by a SIGHUP. -/
def interruptedAccept : List Process.Action :=
  Process.startUp "" ++ Process.setUp 10 ++
    [.main .done, .sighup .notOpened, .main .interrupted]

/-- That SIGHUP takes the server into the teardown. -/
theorem interrupted_accept_leaves :
    ¬ (system .little).StatesMeet Heeding
      (start { argc := 1, argv := fun _ => none }) interruptedAccept := by
  intro meets
  have heeding := meets.last rfl
  exact absurd (heeding.left rfl) (by decide)

end Hangups

end RemoteCommand
