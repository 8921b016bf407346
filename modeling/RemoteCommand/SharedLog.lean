import RemoteCommand.RequestBounds
import RemoteCommand.Transition.System
import RemoteCommand.Transition.Lock

/-!
# Workers that log

Any number of workers call `log_request`, each as often as it likes, and their
calls interleave.  They share `log_cs` and the log file.  What `get_time`,
`fopen` and the calls on the lock answer are labels of the steps; an `enter_cs`
that succeeds waits for the lock.  `fwrite` leaves the message with the stream,
and its bytes reach the end of the file one by one, at any time before `fclose`
returns.  These two calls succeed, and a message fits in its array.

`entries` and `returned` are history: the messages in the order in which their
streams were closed, and what the calls of each worker have returned.
-/

namespace RemoteCommand

open Interaction Machine Transition

/-- The arguments of `log_request`. -/
structure LogRequest where
  threadId : Int
  ip : List Byte
  port : Int
  tag : Option (List Byte)
  deriving DecidableEq, Repr

def LogRequest.program (request : LogRequest) : Prog Sys Int :=
  logRequest request.threadId request.ip request.port request.tag

def LogRequest.message (request : LogRequest) (timestamp : List Byte) :
    List Byte :=
  formatMessage timestamp request.ip request.port request.tag request.threadId

/-- The next call of `log_request`. -/
inductive LogPc where
  /-- the worker is not in `log_request` -/
  | idle
  | getTime (request : LogRequest)
  /-- `if (filename == NULL)` -/
  | testFilename (message : List Byte)
  | enterCs (message path : List Byte)
  | fopen (message path : List Byte)
  | fwrite (message : List Byte) (file : File)
  /-- `written` is in the file, `pending` with the stream -/
  | fclose (message written pending : List Byte) (file : File)
  | leaveCs (message : List Byte)
  deriving DecidableEq, Repr

namespace LogPc

/-- Between `enter_cs` and `leave_cs`. -/
def inside : LogPc → Bool
  | fopen _ _ | fwrite _ _ | fclose _ _ _ _ | leaveCs _ => true
  | _ => false

/-- What a stream that is open has put into the file. -/
def written : LogPc → List Byte
  | fclose _ written _ _ => written
  | _ => []

/-- The message of a call that has closed its stream and not returned. -/
def logged : LogPc → List (List Byte)
  | leaveCs message => [message]
  | _ => []

end LogPc

/-- The workers, by `ι`, with what they share. -/
structure Loggers (ι : Type) where
  pc : ι → LogPc
  /-- the holder of `log_cs` -/
  holder : Option ι
  /-- the contents of the log file -/
  file : List Byte
  entries : List (ι × List Byte)
  /-- the results of the calls of each worker, with their messages -/
  returned : ι → List (Int × List Byte)

namespace Loggers

variable {ι : Type} [DecidableEq ι]

inductive Action (ι : Type) where
  /-- `thread_exec` calls `log_request` -/
  | call (index : ι) (request : LogRequest)
  /-- `get_time` leaves a timestamp, or fails -/
  | getTime (index : ι) (timestamp : Option (List Byte))
  | testFilename (index : ι)
  | enterCs (index : ι) (succeeds : Bool)
  | fopen (index : ι) (file : Option File)
  | fwrite (index : ι)
  /-- the next byte of a stream reaches the file -/
  | flush (index : ι)
  | fclose (index : ι)
  | leaveCs (index : ι) (succeeds : Bool)
  deriving DecidableEq, Repr

/-- The worker that takes the step. -/
def Action.worker : Action ι → ι
  | call index _ | getTime index _ | testFilename index | enterCs index _
  | fopen index _ | fwrite index | flush index | fclose index
  | leaveCs index _ => index

def start (contents : List Byte) : Loggers ι where
  pc := fun _ => .idle
  holder := none
  file := contents
  entries := []
  returned := fun _ => []

def setPc (state : Loggers ι) (index : ι) (pc : LogPc) : Loggers ι :=
  { state with pc := Function.update state.pc index pc }

/-- The call of a worker returns `result`. -/
def finish (state : Loggers ι) (index : ι) (result : Int)
    (message : List Byte) : Loggers ι :=
  { state.setPc index .idle with
    returned := Function.update state.returned index
      (state.returned index ++ [(result, message)]) }

/-- One step; `filename` is the path that `set_logging` was called with. -/
def step (filename : Option (List Byte)) (state : Loggers ι) :
    Action ι → Option (Loggers ι)
  | .call index request =>
      match state.pc index with
      | .idle => some (state.setPc index (.getTime request))
      | _ => none
  | .getTime index timestamp =>
      match state.pc index, timestamp with
      | .getTime request, some timestamp =>
          some (state.setPc index (.testFilename (request.message timestamp)))
      | .getTime _, none => some (state.finish index intErr [])
      | _, _ => none
  | .testFilename index =>
      match state.pc index, filename with
      | .testFilename message, some path =>
          some (state.setPc index (.enterCs message path))
      | .testFilename message, none =>
          some (state.finish index intErr message)
      | _, _ => none
  | .enterCs index succeeds =>
      match state.pc index with
      | .enterCs message path =>
          if succeeds then
            if state.holder = none then
              some { state.setPc index (.fopen message path) with
                holder := some index }
            else none
          else some (state.finish index intErr message)
      | _ => none
  | .fopen index file =>
      match state.pc index, file with
      | .fopen message _, some file =>
          some (state.setPc index (.fwrite message file))
      -- "Could not open log file.": no `leave_cs`
      | .fopen message _, none => some (state.finish index intErr message)
      | _, _ => none
  | .fwrite index =>
      match state.pc index with
      | .fwrite message file =>
          some (state.setPc index (.fclose message [] message file))
      | _ => none
  | .flush index =>
      match state.pc index with
      | .fclose message written (next :: pending) file =>
          some { state.setPc index
              (.fclose message (written ++ [next]) pending file) with
            file := state.file ++ [next] }
      | _ => none
  | .fclose index =>
      match state.pc index with
      | .fclose message _ [] _ =>
          some { state.setPc index (.leaveCs message) with
            entries := state.entries ++ [(index, message)] }
      | _ => none
  | .leaveCs index succeeds =>
      match state.pc index with
      | .leaveCs message =>
          some { state.finish index ok message with
            holder := if succeeds then none else state.holder }
      | _ => none

def system (filename : Option (List Byte)) :
    System (Loggers ι) (Action ι) where
  step := step filename

/-- The messages that a worker has logged, in order. -/
def entriesOf (state : Loggers ι) (index : ι) : List (List Byte) :=
  (state.entries.filter fun entry => entry.1 = index).map Prod.snd

/-- The messages of the calls of a worker that have returned `OK`. -/
def returnedOk (state : Loggers ι) (index : ι) : List (List Byte) :=
  ((state.returned index).filter fun call => call.1 = ok).map Prod.snd

/-- What the holder of the lock has put into the file of a message that is not
yet logged. -/
def part (state : Loggers ι) : List Byte :=
  match state.holder with
  | some index => (state.pc index).written
  | none => []

/-- The worker can go on to the release of the lock without any other. -/
def Releasable (filename : Option (List Byte)) (state : Loggers ι)
    (index : ι) : Prop :=
  ∃ actions final, (∀ action ∈ actions, action.worker = index) ∧
    (system filename).run state actions = some final ∧ final.holder = none

/-- The lock is held by a call in progress, which can go on to release it without
any other; the file has grown by the logged messages, each in one piece, and by
what the holder of the lock has written; and a worker has logged one message for
each of its calls that has returned `OK`, and for one that is about to. -/
structure Sound (filename : Option (List Byte)) (contents : List Byte)
    (state : Loggers ι) : Prop where
  held : ∀ index, state.holder = some index → state.pc index ≠ .idle
  released : ∀ index, state.holder = some index →
    state.Releasable filename index
  file : state.file =
    contents ++ (state.entries.map Prod.snd).flatten ++ state.part
  logged : ∀ index,
    state.entriesOf index = state.returnedOk index ++ (state.pc index).logged

/-- The condition on a step: no `fopen` fails, nor a `leave_cs`. -/
def Releases : Action ι → Prop
  | .fopen _ none | .leaveCs _ false => False
  | _ => True

structure Invariant (contents : List Byte) (state : Loggers ι) : Prop where
  exclusive : Exclusive (fun index => (state.pc index).inside) state.holder
  whole : ∀ index message written pending file,
    state.pc index = .fclose message written pending file →
      written ++ pending = message
  file : state.file =
    contents ++ (state.entries.map Prod.snd).flatten ++ state.part
  logged : ∀ index,
    state.entriesOf index = state.returnedOk index ++ (state.pc index).logged

section Moves

variable {state : Loggers ι} {index other : ι} {pc : LogPc}
  {contents message : List Byte}

@[simp]
theorem setPc_self (state : Loggers ι) (index : ι) (pc : LogPc) :
    (state.setPc index pc).pc index = pc := by
  simp only [setPc, Function.update_self]

theorem setPc_other (state : Loggers ι) (pc : LogPc) (different : other ≠ index) :
    (state.setPc index pc).pc other = state.pc other := by
  simp only [setPc, Function.update_of_ne different]

/-- A worker that does not hold the lock does not change what the holder has
written. -/
theorem part_setPc (pc : LogPc) (outside : state.holder ≠ some index) :
    (state.setPc index pc).part = state.part := by
  unfold part
  cases holding : state.holder with
  | none => simp only [setPc, holding]
  | some other =>
      have different : other ≠ index := fun same =>
        outside (holding.trans (congrArg some same))
      simp only [setPc, holding, Function.update_of_ne different]

omit [DecidableEq ι] in
theorem part_at (holding : state.holder = some index)
    (atPc : state.pc index = pc) : state.part = pc.written := by
  simp only [part, holding, atPc]

theorem Invariant.holding (holds : state.Invariant contents)
    (atPc : state.pc index = pc) (inside : pc.inside = true) :
    state.holder = some index :=
  (holds.exclusive index).mp <| by
    simp only [atPc, inside]

theorem inside_setPc_other (state : Loggers ι) (index : ι) (pc : LogPc)
    (other : ι) (different : other ≠ index) :
    ((state.setPc index pc).pc other).inside = (state.pc other).inside := by
  rw [setPc_other state pc different]

theorem whole_setPc (holds : state.Invariant contents)
    (moved : ∀ message written pending file,
      pc = .fclose message written pending file → written ++ pending = message)
    (other : ι) (message written pending : List Byte) (file : File)
    (atClose : (state.setPc index pc).pc other =
      .fclose message written pending file) : written ++ pending = message := by
  by_cases same : other = index
  · subst same
    rw [setPc_self] at atClose
    exact moved _ _ _ _ atClose
  · rw [setPc_other state pc same] at atClose
    exact holds.whole _ _ _ _ _ atClose

theorem logged_setPc (holds : state.Invariant contents)
    (same : pc.logged = (state.pc index).logged) (other : ι) :
    state.entriesOf other =
      state.returnedOk other ++ ((state.setPc index pc).pc other).logged := by
  by_cases self : other = index
  · rw [self, setPc_self, same]
    exact holds.logged index
  · rw [setPc_other state pc self]
    exact holds.logged other

/-- A worker outside the lock that stays there. -/
theorem Invariant.outside (holds : state.Invariant contents)
    (before : (state.pc index).inside = false) (behind : pc.inside = false) :
    (state.setPc index pc).Invariant contents := by
  have notHolder : state.holder ≠ some index := by
    intro holding
    have inside := (holds.exclusive index).mpr holding
    simp only [before, Bool.false_eq_true] at inside
  have unlogged {pc : LogPc} (outside : pc.inside = false) : pc.logged = [] := by
    cases pc <;> first | rfl | cases outside
  exact
    { exclusive := holds.exclusive.keep (inside_setPc_other state index pc)
        (by rw [setPc_self, before, behind])
      whole := whole_setPc holds fun _ _ _ _ atClose => by
        rw [atClose] at behind
        cases behind
      file := by
        rw [part_setPc pc notHolder]
        exact holds.file
      logged := logged_setPc holds
        ((unlogged behind).trans (unlogged before).symm) }

/-- A call outside the lock that returns an error. -/
theorem Invariant.fails (holds : state.Invariant contents)
    (before : (state.pc index).inside = false) :
    (state.finish index intErr message).Invariant contents := by
  have moved : (state.setPc index .idle).Invariant contents :=
    holds.outside before rfl
  refine { moved with logged := fun other => ?_ }
  have same : (state.finish index intErr message).returnedOk other =
      state.returnedOk other := by
    by_cases self : other = index
    · subst self
      simp [returnedOk, finish, ok, intErr]
    · simp only [returnedOk, finish, Function.update_of_ne self]
  rw [same]
  exact moved.logged other

/-- A worker takes the free lock. -/
theorem Invariant.enters {path : List Byte} (holds : state.Invariant contents)
    (guard : state.pc index = .enterCs message path)
    (free : state.holder = none) :
    Invariant contents
      { state.setPc index (.fopen message path) with
        holder := some index } where
  exclusive := by
    have exclusive := holds.exclusive
    rw [free] at exclusive
    exact exclusive.enter (inside_setPc_other state index _)
      (by rw [setPc_self]; rfl)
  whole := whole_setPc holds nofun
  file := by
    have before := holds.file
    have nothing : state.part = [] := by simp only [part, free]
    have part : part { state.setPc index (.fopen message path) with
        holder := some index } = (LogPc.fopen message path).written :=
      part_at rfl (setPc_self ..)
    rw [nothing] at before
    rw [part]
    exact before
  logged := logged_setPc holds (by rw [guard]; rfl)

/-- The holder of the lock goes on, before it closes the stream. -/
theorem Invariant.stays (holds : state.Invariant contents)
    (before : (state.pc index).inside = true) (behind : pc.inside = true)
    (written : pc.written = (state.pc index).written)
    (whole : ∀ message written pending file,
      pc = .fclose message written pending file →
        written ++ pending = message)
    (logged : pc.logged = (state.pc index).logged) :
    (state.setPc index pc).Invariant contents where
  exclusive := holds.exclusive.keep (inside_setPc_other state index pc)
    (by rw [setPc_self, before, behind])
  whole := whole_setPc holds whole
  file := by
    have holding := holds.holding rfl before
    have file := holds.file
    have part : (state.setPc index pc).part = pc.written :=
      part_at holding (setPc_self ..)
    rw [part_at holding rfl, ← written, ← part] at file
    exact file
  logged := logged_setPc holds logged

/-- A byte reaches the file. -/
theorem Invariant.flushes {written pending : List Byte} {next : Byte}
    {file : File} (holds : state.Invariant contents)
    (guard : state.pc index = .fclose message written (next :: pending) file) :
    Invariant contents
      { state.setPc index (.fclose message (written ++ [next]) pending file) with
        file := state.file ++ [next] } where
  exclusive := holds.exclusive.keep (inside_setPc_other state index _)
    (by simp only [setPc_self, guard]; rfl)
  whole := whole_setPc holds fun _ _ _ _ atClose => by
    cases atClose
    rw [List.append_assoc]
    exact holds.whole _ _ _ _ _ guard
  file := by
    have holding := holds.holding guard rfl
    have before := holds.file
    rw [part_at holding guard] at before
    have part : part { state.setPc index
          (.fclose message (written ++ [next]) pending file) with
        file := state.file ++ [next] } =
        (LogPc.fclose message (written ++ [next]) pending file).written :=
      part_at holding (setPc_self ..)
    rw [part]
    exact (congrArg (· ++ [next]) before).trans (List.append_assoc ..)
  logged := logged_setPc holds (by rw [guard]; rfl)

/-- The stream is closed, and the message is in the file. -/
theorem Invariant.closes {written : List Byte} {file : File}
    (holds : state.Invariant contents)
    (guard : state.pc index = .fclose message written [] file) :
    Invariant contents
      { state.setPc index (.leaveCs message) with
        entries := state.entries ++ [(index, message)] } where
  exclusive := holds.exclusive.keep (inside_setPc_other state index _)
    (by simp only [setPc_self, guard]; rfl)
  whole := whole_setPc holds nofun
  file := by
    have holding := holds.holding guard rfl
    have complete := holds.whole _ _ _ _ _ guard
    rw [List.append_nil] at complete
    have before := holds.file
    rw [part_at holding guard] at before
    have part : part { state.setPc index (.leaveCs message) with
        entries := state.entries ++ [(index, message)] } =
        (LogPc.leaveCs message).written :=
      part_at holding (setPc_self ..)
    rw [part]
    simpa [setPc, LogPc.written, complete] using before
  logged := fun other => by
    have before := holds.logged other
    by_cases self : other = index
    · subst self
      rw [guard] at before
      simp only [entriesOf, LogPc.logged, List.append_nil] at before
      simp only [entriesOf, List.filter_append, List.map_append, before,
        setPc_self, LogPc.logged]
      simp [returnedOk, setPc]
    · have different : index ≠ other := fun same => self same.symm
      simp only [setPc_other state _ self]
      simpa [entriesOf, returnedOk, setPc, different] using before

/-- A call that has logged its message returns `OK`. -/
theorem Invariant.returns (holds : state.Invariant contents)
    (guard : state.pc index = .leaveCs message) :
    Invariant contents { state.finish index ok message with holder := none } where
  exclusive := holds.exclusive.leave (inside_setPc_other state index .idle)
    (by rw [guard]; rfl) (by simp only [finish, setPc_self]; rfl)
  whole := whole_setPc holds nofun
  file := by
    have before := holds.file
    rw [part_at (holds.holding guard rfl) guard] at before
    exact before
  logged := fun other => by
    have before := holds.logged other
    by_cases self : other = index
    · subst self
      rw [guard] at before
      simpa [entriesOf, returnedOk, finish, setPc, LogPc.logged] using before
    · simp only [finish, setPc_other state _ self, returnedOk,
        Function.update_of_ne self]
      exact before

end Moves

/-! ## What one step can do -/

section Steps

variable {filename : Option (List Byte)} {contents : List Byte}
  {state next : Loggers ι} {action : Action ι}

/-- The step function by cases. -/
inductive Step (filename : Option (List Byte)) (state : Loggers ι) :
    Action ι → Loggers ι → Prop
  | call {index : ι} {request : LogRequest} : state.pc index = .idle →
      Step filename state (.call index request)
        (state.setPc index (.getTime request))
  | time {index : ι} {request : LogRequest} {timestamp : List Byte} :
      state.pc index = .getTime request →
      Step filename state (.getTime index (some timestamp))
        (state.setPc index (.testFilename (request.message timestamp)))
  | timeError {index : ι} {request : LogRequest} :
      state.pc index = .getTime request →
      Step filename state (.getTime index none) (state.finish index intErr [])
  | fileSet {index : ι} {message path : List Byte} :
      state.pc index = .testFilename message → filename = some path →
      Step filename state (.testFilename index)
        (state.setPc index (.enterCs message path))
  | fileNotSet {index : ι} {message : List Byte} :
      state.pc index = .testFilename message → filename = none →
      Step filename state (.testFilename index)
        (state.finish index intErr message)
  | enter {index : ι} {message path : List Byte} :
      state.pc index = .enterCs message path → state.holder = none →
      Step filename state (.enterCs index true)
        { state.setPc index (.fopen message path) with holder := some index }
  | enterError {index : ι} {message path : List Byte} :
      state.pc index = .enterCs message path →
      Step filename state (.enterCs index false)
        (state.finish index intErr message)
  | opened {index : ι} {message path : List Byte} {file : File} :
      state.pc index = .fopen message path →
      Step filename state (.fopen index (some file))
        (state.setPc index (.fwrite message file))
  | openError {index : ι} {message path : List Byte} :
      state.pc index = .fopen message path →
      Step filename state (.fopen index none)
        (state.finish index intErr message)
  | write {index : ι} {message : List Byte} {file : File} :
      state.pc index = .fwrite message file →
      Step filename state (.fwrite index)
        (state.setPc index (.fclose message [] message file))
  | flush {index : ι} {message written pending : List Byte} {byte : Byte}
      {file : File} :
      state.pc index = .fclose message written (byte :: pending) file →
      Step filename state (.flush index)
        { state.setPc index (.fclose message (written ++ [byte]) pending file)
          with file := state.file ++ [byte] }
  | close {index : ι} {message written : List Byte} {file : File} :
      state.pc index = .fclose message written [] file →
      Step filename state (.fclose index)
        { state.setPc index (.leaveCs message) with
          entries := state.entries ++ [(index, message)] }
  | leave {index : ι} {message : List Byte} {succeeds : Bool} :
      state.pc index = .leaveCs message →
      Step filename state (.leaveCs index succeeds)
        { state.finish index ok message with
          holder := if succeeds then none else state.holder }

theorem step_cases (stepped : state.step filename action = some next) :
    state.Step filename action next := by
  cases action with
  | call index request =>
      simp only [step] at stepped
      split at stepped <;> cases stepped
      exact .call ‹_›
  | getTime index timestamp =>
      simp only [step] at stepped
      split at stepped <;> cases stepped
      · exact .time ‹_›
      · exact .timeError ‹_›
  | testFilename index =>
      simp only [step] at stepped
      split at stepped <;> cases stepped
      · exact .fileSet ‹_› rfl
      · exact .fileNotSet ‹_› rfl
  | enterCs index succeeds =>
      simp only [step] at stepped
      split at stepped
      case h_2 => cases stepped
      case h_1 message path guard =>
        cases succeeds with
        | true =>
            obtain ⟨free, same⟩ := Option.ite_none_right_eq_some.mp stepped
            cases same
            exact .enter guard free
        | false =>
            cases stepped
            exact .enterError guard
  | fopen index file =>
      simp only [step] at stepped
      split at stepped <;> cases stepped
      · exact .opened ‹_›
      · exact .openError ‹_›
  | fwrite index =>
      simp only [step] at stepped
      split at stepped <;> cases stepped
      exact .write ‹_›
  | flush index =>
      simp only [step] at stepped
      split at stepped <;> cases stepped
      exact .flush ‹_›
  | fclose index =>
      simp only [step] at stepped
      split at stepped <;> cases stepped
      exact .close ‹_›
  | leaveCs index succeeds =>
      simp only [step] at stepped
      split at stepped <;> cases stepped
      exact .leave ‹_›

/-- Steps that meet the condition keep the invariant. -/
theorem step_invariant (holds : state.Invariant contents)
    (met : Releases action)
    (stepped : state.step filename action = some next) :
    next.Invariant contents := by
  cases step_cases stepped with
  | call guard => exact holds.outside (by rw [guard]; rfl) rfl
  | time guard => exact holds.outside (by rw [guard]; rfl) rfl
  | fileSet guard => exact holds.outside (by rw [guard]; rfl) rfl
  | timeError guard => exact holds.fails (by rw [guard]; rfl)
  | fileNotSet guard => exact holds.fails (by rw [guard]; rfl)
  | enterError guard => exact holds.fails (by rw [guard]; rfl)
  | enter guard free => exact holds.enters guard free
  | opened guard =>
      exact holds.stays (by rw [guard]; rfl) rfl (by rw [guard]; rfl) nofun
        (by rw [guard]; rfl)
  | openError => cases met
  | write guard =>
      refine holds.stays (by rw [guard]; rfl) rfl (by rw [guard]; rfl) ?_
        (by rw [guard]; rfl)
      intro _ _ _ _ atClose
      cases atClose
      rfl
  | flush guard => exact holds.flushes guard
  | close guard => exact holds.closes guard
  | @leave _ _ succeeds guard =>
      cases succeeds with
      | true => exact holds.returns guard
      | false => cases met

/-! ## The lock is released -/

theorem Releasable.step {index : ι}
    (stepped : state.step filename action = some next)
    (own : action.worker = index) (rest : next.Releasable filename index) :
    state.Releasable filename index := by
  obtain ⟨actions, final, others, ran, free⟩ := rest
  refine ⟨action :: actions, final, ?_, ?_, free⟩
  · exact List.forall_mem_cons.mpr ⟨own, others⟩
  · exact ((system filename).run_cons).mpr ⟨next, stepped, ran⟩

theorem leaving_releasable {index : ι} {message : List Byte}
    (atPc : state.pc index = .leaveCs message) :
    state.Releasable filename index := by
  have stepped : state.step filename (.leaveCs index true) =
      some { state.finish index ok message with holder := none } := by
    simp only [step, atPc, if_true]
  exact .step stepped rfl ⟨[], _, nofun, rfl, rfl⟩

/-- The bytes that are pending reach the file first. -/
theorem closing_releasable {index : ι} {message : List Byte} {file : File}
    (pending : List Byte) :
    ∀ {state : Loggers ι} {written : List Byte},
      state.pc index = .fclose message written pending file →
        state.Releasable filename index := by
  induction pending with
  | nil =>
      intro state written atPc
      have stepped : state.step filename (.fclose index) =
          some { state.setPc index (.leaveCs message) with
            entries := state.entries ++ [(index, message)] } := by
        simp only [step, atPc]
      exact .step stepped rfl (leaving_releasable (setPc_self ..))
  | cons next pending inductionHypothesis =>
      intro state written atPc
      have stepped : state.step filename (.flush index) =
          some { state.setPc index
              (.fclose message (written ++ [next]) pending file) with
            file := state.file ++ [next] } := by
        simp only [step, atPc]
      exact .step stepped rfl (inductionHypothesis (setPc_self ..))

theorem writing_releasable {index : ι} {message : List Byte} {file : File}
    (atPc : state.pc index = .fwrite message file) :
    state.Releasable filename index := by
  have stepped : state.step filename (.fwrite index) =
      some (state.setPc index (.fclose message [] message file)) := by
    simp only [step, atPc]
  exact .step stepped rfl (closing_releasable message (setPc_self ..))

theorem inside_releasable {index : ι}
    (inside : (state.pc index).inside = true) :
    state.Releasable filename index := by
  cases atPc : state.pc index with
  | idle | getTime | testFilename | enterCs =>
      rw [atPc] at inside
      cases inside
  | fopen message path =>
      have stepped : state.step filename (.fopen index (some 0)) =
          some (state.setPc index (.fwrite message 0)) := by
        simp only [step, atPc]
      exact .step stepped rfl (writing_releasable (setPc_self ..))
  | fwrite message file => exact writing_releasable atPc
  | fclose message written pending file =>
      exact closing_releasable pending atPc
  | leaveCs message => exact leaving_releasable atPc

/-! ## When the calls are sound -/

theorem Invariant.sound (holds : state.Invariant contents) :
    state.Sound filename contents where
  held := fun index holding idle => by
    have inside := (holds.exclusive index).mpr holding
    simp only [idle, LogPc.inside, Bool.false_eq_true] at inside
  released := fun index holding =>
    inside_releasable ((holds.exclusive index).mpr holding)
  file := holds.file
  logged := holds.logged

/-- A call that returns between `enter_cs` and a `leave_cs` that succeeds leaves
the lock held by nobody in progress. -/
theorem step_sound (holds : state.Invariant contents)
    (stepped : state.step filename action = some next) :
    next.Sound filename contents ↔ Releases action := by
  by_cases met : Releases action
  · exact iff_of_true (step_invariant holds met stepped).sound met
  refine iff_of_false (fun sound => ?_) met
  cases step_cases stepped with
  | @openError index _ _ guard =>
      exact sound.held index (holds.holding guard rfl) (setPc_self ..)
  | @leave index _ succeeds guard =>
      cases succeeds with
      | true => exact met trivial
      | false =>
          exact sound.held index (holds.holding guard rfl) (setPc_self ..)
  | call | time | timeError | fileSet | fileNotSet | enter | enterError
  | opened | write | flush | close => exact met trivial

end Steps

/-! ## All interleavings -/

theorem start_invariant (contents : List Byte) :
    (start contents : Loggers ι).Invariant contents where
  exclusive := fun index => by
    constructor
    · intro inside
      cases inside
    · intro holding
      cases holding
  whole := fun index message written pending file atPc => by cases atPc
  file := by simp [start, part]
  logged := fun index => rfl

/-- In every run of any number of workers, with any outcome of `get_time`,
`fopen` and the calls on the lock: in all states the lock is held by a call in
progress only, which can go on to release it, and the file has grown by one
whole message for each call that has returned `OK` and by nothing for the
others, exactly when no `fopen` fails, nor a `leave_cs`. -/
theorem log_requests_iff (filename : Option (List Byte)) (contents : List Byte)
    (actions : List (Action ι)) :
    (system filename).StatesMeet (Sound filename contents) (start contents)
        actions ↔
      (system filename).StepsMeet (fun _ => Releases) (start contents)
        actions := by
  have initial : (start contents : Loggers ι).Invariant contents :=
    start_invariant contents
  exact (system filename).statesMeet_iff_of_met step_invariant
    (fun holds _ stepped => step_sound holds stepped) actions initial
    initial.sound

/-- A worker of two whose `fopen` fails. -/
def failedOpen : List (Action (Fin 2)) :=
  [.call 0 ⟨1, bytes "10.0.0.1", 40000, some (bytes "EXEC")⟩,
    .getTime 0 (some (bytes "Mon Jan  1 00:00:00 2024")), .testFilename 0,
    .enterCs 0 true, .fopen 0 none]

/-- Its call has returned, and `log_cs` is held. -/
theorem failed_open_holds_lock :
    ¬ (system (some (bytes "/tmp/server.log"))).StatesMeet
      (Sound (some (bytes "/tmp/server.log")) []) (start []) failedOpen := by
  intro meets
  have sound := meets.last rfl
  exact sound.held 0 rfl rfl

end Loggers

end RemoteCommand
