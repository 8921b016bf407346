import RemoteCommand.SharedLog

/-!
# The calls of workers that log

The steps of a worker that logs are those of `log_request`: what is left of a
call in progress is a rest of that program, and what a call has returned is the
result of a run of it.
-/

namespace RemoteCommand.Loggers

open Interaction Machine Transition

variable {ι : Type} [DecidableEq ι]

/-- What is left of `log_request` behind its `fclose`. -/
def leaveLog : Prog Sys Int := do
  let _ ← leaveCs .logCs
  return ok

def closeLog (file : File) : Prog Sys Int := do
  RemoteCommand.fclose file
  leaveLog

def writeMessage (message : List Byte) (file : File) : Prog Sys Int := do
  let _ ← RemoteCommand.fwrite message file
  closeLog file

def openLog (message path : List Byte) : Prog Sys Int := do
  match ← RemoteCommand.fopen path (bytes "a") with
  | none => return intErr
  | some file => writeMessage message file

def enterLog (message path : List Byte) : Prog Sys Int := do
  if (← RemoteCommand.enterCs .logCs) ≠ ok then
    return intErr
  openLog message path

/-- What is left of a call in progress. -/
def restOf : LogPc → Option (Prog Sys Int)
  | .idle => none
  | .getTime request => request.program
  | .testFilename message => writeLog message
  | .enterCs message path => enterLog message path
  | .fopen message path => openLog message path
  | .fwrite message file => writeMessage message file
  | .fclose _ _ _ file => closeLog file
  | .leaveCs _ => leaveLog

/-- The calls in progress and the calls that have returned are runs of
`log_request`. -/
structure Performs (state : Loggers ι) : Prop where
  current : ∀ index rest, restOf (state.pc index) = some rest →
    ∃ request : LogRequest, Leads request.program rest
  finished : ∀ index result message,
    (result, message) ∈ state.returned index →
      ∃ request : LogRequest, Leads request.program (.ret result)

/-- A `get_time` that succeeds leaves any timestamp in its array. -/
theorem leads_writeLog (request : LogRequest) (timestamp : List Byte) :
    Leads request.program (writeLog (request.message timestamp)) := by
  unfold LogRequest.program
  rw [logRequest_eq]
  exact .op (0 : Int) <| .op (some []) <| .op (some []) <| .op () <|
    .op none <| .op timestamp <| .refl _

theorem leads_timeError (request : LogRequest) :
    Leads request.program (.ret intErr) := by
  unfold LogRequest.program
  rw [logRequest_eq]
  exact .op (-1 : Int) (.refl _)

section Performs

variable {state : Loggers ι} {index : ι} {pc : LogPc}

theorem Performs.move (holds : state.Performs)
    (leads : ∀ rest, restOf pc = some rest →
      ∃ request : LogRequest, Leads request.program rest) :
    (state.setPc index pc).Performs where
  current := fun other rest isRest => by
    by_cases self : other = index
    · rw [self, setPc_self] at isRest
      exact leads rest isRest
    · rw [setPc_other state pc self] at isRest
      exact holds.current other rest isRest
  finished := holds.finished

/-- A call that goes on. -/
theorem Performs.go {program rest : Prog Sys Int} (holds : state.Performs)
    (before : restOf (state.pc index) = some program)
    (behind : restOf pc = some rest) (leads : Leads program rest) :
    (state.setPc index pc).Performs := by
  obtain ⟨request, reached⟩ := holds.current index program before
  refine holds.move fun other isRest => ?_
  rw [behind, Option.some.injEq] at isRest
  exact ⟨request, isRest ▸ reached.trans leads⟩

/-- A call that returns. -/
theorem Performs.finish {program : Prog Sys Int} {result : Int}
    {message : List Byte} (holds : state.Performs)
    (before : restOf (state.pc index) = some program)
    (leads : Leads program (.ret result)) :
    (state.finish index result message).Performs where
  current := by
    have idle : (state.setPc index .idle).Performs :=
      holds.move fun rest isRest => by
        simp only [restOf, reduceCtorEq] at isRest
    exact idle.current
  finished := fun other value text member => by
    obtain ⟨request, reached⟩ := holds.current index program before
    by_cases self : other = index
    · subst self
      simp only [Loggers.finish, Function.update_self, List.mem_append,
        List.mem_singleton, Prod.mk.injEq] at member
      rcases member with earlier | ⟨same, _⟩
      · exact holds.finished other value text earlier
      · exact ⟨request, same ▸ reached.trans leads⟩
    · simp only [Loggers.finish, Function.update_of_ne self] at member
      exact holds.finished other value text member

end Performs

/-- Every step is one that the call of its worker can take. -/
theorem step_performs {filename : Option (List Byte)} {state next : Loggers ι}
    {action : Action ι} (holds : state.Performs)
    (stepped : state.step filename action = some next) : next.Performs := by
  cases step_cases stepped with
  | @call index request guard =>
      refine holds.move fun rest isRest => ⟨request, ?_⟩
      cases isRest
      exact .refl _
  | @time _ request timestamp guard =>
      exact holds.go (by rw [guard]; rfl) rfl (leads_writeLog request timestamp)
  | @timeError _ request guard =>
      exact holds.finish (by rw [guard]; rfl) (leads_timeError request)
  | @fileSet _ _ path guard =>
      exact holds.go (by rw [guard]; rfl) rfl (.op (some path) (.refl _))
  | fileNotSet guard =>
      exact holds.finish (by rw [guard]; rfl) (.op none (.refl _))
  | @enter _ message path guard =>
      have gone := holds.go (by rw [guard]; rfl)
        (rfl : restOf (.fopen message path) = _) (.op (0 : Int) (.refl _))
      exact ⟨gone.current, gone.finished⟩
  | enterError guard =>
      exact holds.finish (by rw [guard]; rfl) (.op (1 : Int) (.refl _))
  | @opened _ _ _ file guard =>
      exact holds.go (by rw [guard]; rfl) rfl (.op (some file) (.refl _))
  | openError guard =>
      exact holds.finish (by rw [guard]; rfl) (.op none (.refl _))
  | @write _ message _ guard =>
      exact holds.go (by rw [guard]; rfl) rfl (.op message.length (.refl _))
  | @flush _ message written pending byte file guard =>
      -- the bytes leave the stream without a call
      have gone := holds.go (by rw [guard]; rfl)
        (rfl : restOf (.fclose message (written ++ [byte]) pending file) = _)
        (.refl _)
      exact ⟨gone.current, gone.finished⟩
  | @close _ message _ _ guard =>
      have gone := holds.go (by rw [guard]; rfl)
        (rfl : restOf (.leaveCs message) = _) (.op () (.refl _))
      exact ⟨gone.current, gone.finished⟩
  | @leave index message _ guard =>
      have gone : (state.finish index ok message).Performs :=
        holds.finish (by rw [guard]; rfl) (.op (0 : Int) (.refl _))
      exact ⟨gone.current, gone.finished⟩

/-- What the calls have returned are results of runs of `log_request`. -/
theorem returned_runs (filename : Option (List Byte)) (contents : List Byte)
    (actions : List (Action ι)) {state : Loggers ι}
    (ran : (system filename).run (start contents) actions = some state)
    {index : ι} {result : Int} {message : List Byte}
    (member : (result, message) ∈ state.returned index) :
    ∃ (request : LogRequest) (trace : List (Event Sys)),
      Runs unconstrained request.program () trace (some result) () := by
  have initial : (start contents : Loggers ι).Performs :=
    { current := fun _ _ isRest => by cases isRest
      finished := fun _ _ _ member => absurd member List.not_mem_nil }
  have performs := (system filename).run_invariant step_performs actions
    initial ran
  obtain ⟨request, leads⟩ := performs.finished index result message member
  obtain ⟨trace, run⟩ := leads.runs (.ret result ())
  exact ⟨request, _, run⟩

end RemoteCommand.Loggers
