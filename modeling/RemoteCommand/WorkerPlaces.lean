import RemoteCommand.WorkerLife
import RemoteCommand.Interaction.Monitor

/-!
# The places of a worker thread

Seen through its calls on the semaphore, the lock and the queue, a thread that
runs `thread_exec` goes from place to place: it waits, enters the critical
section, takes a connection, leaves and serves.  A monitor of these calls says
which may come where; the other calls leave a thread where it is.
-/

namespace RemoteCommand

open Interaction Machine Prog

/-- Where a thread is between its calls on the shared objects. -/
inductive WorkerPlace where
  | waitSemaphore
  | enterCs
  | dequeue
  | leaveCs
  /-- it has a connection, or is done with it -/
  | serve
  deriving DecidableEq, Repr

namespace WorkerPlace

/-- The calls on the shared objects come in this order. -/
def step (place : WorkerPlace) : Event Sys → Option WorkerPlace
  | ⟨.semWait, waited⟩ =>
      if place = .waitSemaphore ∨ place = .serve then
        some (if waited = (-1 : Int) then .waitSemaphore else .enterCs)
      else none
  | ⟨.mutexLock .connectionsCs, locked⟩ =>
      if place = .enterCs then
        some (if locked = (0 : Int) then .dequeue else .waitSemaphore)
      else none
  | ⟨.dequeue, found⟩ =>
      if place = .dequeue then
        some (match found with
          | none => .waitSemaphore
          | some _ => .leaveCs)
      else none
  | ⟨.mutexUnlock .connectionsCs, unlocked⟩ =>
      if place = .leaveCs then
        some (if unlocked = (0 : Int) then .serve else .waitSemaphore)
      else none
  | _ => some place

def monitor : Monitor Sys WorkerPlace where
  step := step

/-- A call on none of the shared objects. -/
def Elsewhere : Call → Prop
  | .semWait | .dequeue => False
  | .mutexLock .connectionsCs | .mutexUnlock .connectionsCs => False
  | _ => True

theorem elsewhere_step (place : WorkerPlace) {call : Call}
    (response : call.Answer) (elsewhere : Elsewhere call) :
    place.step ⟨call, response⟩ = some place := by
  cases call with
  | semWait | dequeue => cases elsewhere
  | mutexLock cs | mutexUnlock cs =>
      cases cs with
      | connectionsCs => cases elsewhere
      | logCs => rfl
  | _ => rfl

/-- Part of a program that stays where it is. -/
theorem elsewhere_keeps {α : Type} {program : Prog Sys α}
    {place : WorkerPlace} (within : program.Only Elsewhere) :
    program.Keeps monitor place fun _ after => after = place := by
  refine Keeps.of_only ?_ within rfl
  rintro _ call response rfl elsewhere
  exact ⟨_, elsewhere_step _ response elsewhere, rfl⟩

/-- The places from which a thread comes to `wait_semaphore`. -/
def Rests (place : WorkerPlace) : Prop :=
  place = .waitSemaphore ∨ place = .serve

theorem enterCs_keeps :
    (RemoteCommand.enterCs .connectionsCs).Keeps monitor .enterCs
      fun entered after =>
        after = if entered = ok then dequeue else waitSemaphore := by
  intro locked
  refine ⟨if locked = (0 : Int) then dequeue else waitSemaphore, rfl, ?_⟩
  refine .ite (fun failed => ?_) fun entered => ?_
  · rw [if_neg failed]
    rfl
  · rw [if_pos (not_not.mp entered)]
    rfl

theorem leaveCs_keeps :
    (RemoteCommand.leaveCs .connectionsCs).Keeps monitor .leaveCs
      fun left after =>
        after = if left = ok then serve else waitSemaphore := by
  intro unlocked
  refine ⟨if unlocked = (0 : Int) then serve else waitSemaphore, rfl, ?_⟩
  refine .ite (fun failed => ?_) fun left => ?_
  · rw [if_neg failed]
    rfl
  · rw [if_pos (not_not.mp left)]
    rfl

theorem takeConnection_keeps {place : WorkerPlace} (rests : place.Rests) :
    takeConnection.Keeps monitor place fun found after =>
      match found with
      | none => after = .waitSemaphore
      | some _ => after = .serve := by
  intro waited
  refine ⟨if waited = (-1 : Int) then waitSemaphore else .enterCs,
    if_pos rests, .ite (fun failed => if_pos failed) fun passed => ?_⟩
  rw [if_neg passed]
  refine enterCs_keeps.seq fun entered after atPlace => ?_
  refine .ite (fun failed => atPlace.trans (if_neg failed)) fun success => ?_
  rw [atPlace, if_pos (not_not.mp success)]
  intro found
  cases found with
  | none => exact ⟨.waitSemaphore, rfl, rfl⟩
  | some co =>
  refine ⟨.leaveCs, rfl, leaveCs_keeps.seq fun left after atPlace => ?_⟩
  refine .ite (fun failed => ?_) fun success => ?_
  · rw [atPlace, if_neg failed]
    exact fun _ => ⟨_, rfl, fun _ => ⟨_, rfl, fun _ => ⟨_, rfl, rfl⟩⟩⟩
  · exact atPlace.trans (if_pos (not_not.mp success))

theorem receiving_elsewhere {co : Connection} {call : Call}
    (within : call.OfReceiving co) : Elsewhere call := by
  rcases within with authentication | rfl | rfl | ⟨msg, rfl⟩ | rfl | rfl
  · cases call <;> first | exact authentication.elim | trivial
  all_goals trivial

theorem logging_elsewhere {call : Call} (within : call.OfLogging) :
    Elsewhere call := by
  cases call with
  | mutexLock cs | mutexUnlock cs =>
      cases cs with
      | connectionsCs => exact within.elim
      | logCs => trivial
  | semWait | dequeue => exact within.elim
  | _ => trivial

/-- What a thread does with its connection it does elsewhere. -/
theorem serveConnection_elsewhere (host : Endian) (serverToken : BitVec 64)
    (co : Connection) :
    (serveConnection host serverToken co).Only Elsewhere := by
  have receiving := (receiveRequest_only host serverToken co).mono
    fun _ => receiving_elsewhere
  refine receiving.bind fun request => ?_
  cases request with
  | none => trivial
  | some request =>
  have executing : (executeCommand request.conn [] request.code).Only
      Elsewhere := by
    refine (executeCommand_only _ _ _).mono fun call within => ?_
    rcases within with execution | rfl
    · cases call <;> first | exact execution.elim | trivial
    · trivial
  refine ⟨trivial, fun _ => executing.bind fun exec => ⟨trivial, fun _ => ?_⟩⟩
  refine (reply_only co request exec).mono fun call within => ?_
  rcases within with logging | ⟨data, rfl⟩ | rfl | rfl
  · exact logging_elsewhere logging
  all_goals trivial

theorem threadIteration_keeps (host : Endian) (serverToken : BitVec 64)
    {place : WorkerPlace} (rests : place.Rests) :
    (threadIteration host serverToken).Keeps monitor place fun next after =>
      match next with
      | .again => after.Rests
      | .leave => after = .serve := by
  refine (takeConnection_keeps rests).seq fun found after atPlace => ?_
  cases found with
  | none => exact .inl atPlace
  | some co =>
  rw [show after = .serve from atPlace]
  refine (elsewhere_keeps
    (serveConnection_elsewhere host serverToken co)).mono ?_
  rintro next _ rfl
  cases next with
  | again => exact .inr rfl
  | leave => rfl

/-- A thread goes from place to place; when it ends, it has a connection. -/
theorem threadExec_keeps (host : Endian) (serverToken : BitVec 64) :
    (threadExec host serverToken).Keeps monitor .waitSemaphore
      fun _ after => after = .serve := by
  refine Keeps.iterate (fun _ place => place.Rests) (.inl rfl) ?_
  intro _ place rests
  refine (threadIteration_keeps host serverToken rests).seq
    fun next after holds => ?_
  cases next <;> exact holds

end WorkerPlace

end RemoteCommand
