import RemoteCommand.WorkerLife
import RemoteCommand.Interaction.Monitor

/-!
# The connection that a worker holds

A monitor for the connection records and their descriptors.  A worker holds one
connection at most, from its `dequeue` until it has closed the descriptor and
freed the record, in any order.  Meanwhile it sends, receives and executes on
this descriptor only, not behind the `close`, and it reads the record only
before the `free`; it waits for the next connection when it holds none.
-/

namespace RemoteCommand

open Interaction Machine Prog

structure HeldConnection where
  co : Connection
  closed : Bool
  freed : Bool
  deriving DecidableEq, Repr

/-- What a worker holds. -/
abbrev ConnectionUse : Type :=
  Option HeldConnection

namespace ConnectionUse

/-- A connection as it comes from the queue. -/
def taken (co : Connection) : ConnectionUse :=
  some { co, closed := false, freed := false }

/-- The descriptor belongs to the worker and is open. -/
def Owns (use : ConnectionUse) (conn : Int) : Prop :=
  ∃ held ∈ use, held.co.conn = conn ∧ held.closed = false

instance (use : ConnectionUse) (conn : Int) : Decidable (use.Owns conn) :=
  match use with
  | none => isFalse fun owns => by
      obtain ⟨held, member, _⟩ := owns
      cases member
  | some held =>
      decidable_of_iff (held.co.conn = conn ∧ held.closed = false) <| by
        simp [Owns]

/-- A connection that is closed and freed is not held any more. -/
def settle (held : HeldConnection) : ConnectionUse :=
  if held.closed ∧ held.freed then none else some held

def step (use : ConnectionUse) : Event Sys → Option ConnectionUse
  | ⟨.semWait, _⟩ => if use = none then some none else none
  | ⟨.dequeue, found⟩ => if use = none then some (found.bind taken) else none
  | ⟨.recv conn _ _, _⟩ | ⟨.send conn _, _⟩
  | ⟨.mark (.callExecuteCommand conn), _⟩ =>
      if use.Owns conn then some use else none
  | ⟨.inetNtop address, _⟩ =>
      match use with
      | some held =>
          if held.co.sinAddr = address ∧ held.freed = false then some use
          else none
      | none => none
  | ⟨.close conn, _⟩ =>
      match use with
      | some held =>
          if held.co.conn = conn ∧ held.closed = false then
            some (settle { held with closed := true })
          else none
      | none => none
  | ⟨.free co, _⟩ =>
      match use with
      | some held =>
          if held.co = co ∧ held.freed = false then
            some (settle { held with freed := true })
          else none
      | none => none
  | _ => some use

def monitor : Monitor Sys ConnectionUse where
  step := step

variable {co : Connection}

@[simp]
theorem owns_taken : (taken co).Owns co.conn :=
  ⟨_, rfl, rfl, rfl⟩

/-! ## What an iteration does with its connection -/

/-- A call that may happen while the connection is held. -/
def Call.OnHeld (conn : Int) : Call → Prop
  | .recv other _ _ | .send other _ => other = conn
  | .mark (.callExecuteCommand other) => other = conn
  | .semWait | .dequeue | .inetNtop _ | .close _ | .free _ => False
  | _ => True

theorem onHeld_step (current : ConnectionUse) (call : Call)
    (response : call.Answer) (held : current = taken co)
    (onHeld : Call.OnHeld co.conn call) :
    ∃ after, monitor.step current ⟨call, response⟩ = some after ∧
      after = taken co := by
  subst held
  cases call with
  | recv | send =>
      cases onHeld
      exact ⟨_, if_pos owns_taken, rfl⟩
  | mark point =>
      cases point with
      | callExecuteCommand =>
          cases onHeld
          exact ⟨_, if_pos owns_taken, rfl⟩
      | _ => exact ⟨_, rfl, rfl⟩
  | semWait | dequeue | inetNtop | close | free => cases onHeld
  | _ => exact ⟨_, rfl, rfl⟩

/-- A part of the iteration that neither takes nor gives back a connection. -/
theorem onHeld_keeps {α : Type} {program : Prog Sys α}
    (within : program.Only (Call.OnHeld co.conn)) :
    program.Keeps monitor (taken co) fun _ after => after = taken co :=
  Keeps.of_only onHeld_step within rfl

theorem close_free_keeps {α : Type} (value : α)
    {post : α → ConnectionUse → Prop} (holds : post value none) :
    (Prog.op (.close co.conn) fun _ => .op (.free co) fun _ => .ret value
      : Prog Sys α).Keeps monitor (taken co) post :=
  fun _ => ⟨_, if_pos ⟨rfl, rfl⟩, fun _ => ⟨_, if_pos ⟨rfl, rfl⟩, holds⟩⟩

theorem free_close_keeps {α : Type} (value : α)
    {post : α → ConnectionUse → Prop} (holds : post value none) :
    (Prog.op (.free co) fun _ => .op (.close co.conn) fun _ => .ret value
      : Prog Sys α).Keeps monitor (taken co) post :=
  fun _ => ⟨_, if_pos ⟨rfl, rfl⟩, fun _ => ⟨_, if_pos ⟨rfl, rfl⟩, holds⟩⟩

/-- The calls on the lock have nothing to do with the connection. -/
theorem lock_keeps (use : ConnectionUse) {α : Type} {program : Prog Sys α}
    (within : program.Only fun call : Call =>
      call = .mutexLock .connectionsCs ∨ call = .mutexUnlock .connectionsCs) :
    program.Keeps monitor use fun _ after => after = use := by
  refine Keeps.of_only ?_ within rfl
  rintro _ call response rfl (rfl | rfl) <;> exact ⟨_, rfl, rfl⟩

theorem takeConnection_keeps :
    takeConnection.Keeps monitor none fun found after =>
      after = found.bind taken := by
  refine fun waited => ⟨none, rfl, .ite (fun _ => rfl) fun _ => ?_⟩
  change ((enterCs .connectionsCs).bind _).Keeps _ _ _
  refine (lock_keeps none ((enterCs_only _).mono fun _ => .inl)).seq ?_
  rintro entered _ rfl
  refine .ite (fun _ => rfl) fun _ found => ⟨found.bind taken, rfl, ?_⟩
  cases found with
  | none => rfl
  | some co =>
  change ((leaveCs .connectionsCs).bind _).Keeps _ _ _
  refine (lock_keeps _ ((leaveCs_only _).mono fun _ => .inr)).seq ?_
  rintro left _ rfl
  refine .ite (fun _ sent => ⟨_, if_pos owns_taken, ?_⟩) fun _ => rfl
  exact close_free_keeps none rfl

theorem receiveRequest_keeps (host : Endian) (serverToken : BitVec 64)
    (co : Connection) :
    (receiveRequest host serverToken co).Keeps monitor (taken co)
      fun request after =>
        match request with
        | none => after = none
        | some request => after = taken co ∧ request.conn = co.conn := by
  refine fun ip => ⟨_, if_pos ⟨rfl, rfl⟩, ?_⟩
  have authenticating :
      (authenticateClient host co.conn serverToken).Only
        (Call.OnHeld co.conn) :=
    (authenticateClient_only host co.conn serverToken).mono fun call allowed => by
      cases call <;> first | exact allowed | trivial
  change ((authenticateClient host co.conn serverToken).bind _).Keeps _ _ _
  refine (onHeld_keeps authenticating).seq ?_
  rintro auth _ rfl
  refine .ite (fun _ => close_free_keeps none rfl) fun _ code => ⟨_, rfl, ?_⟩
  refine fun msg => ⟨_, if_pos owns_taken, ?_⟩
  cases msg with
  | closed => exact free_close_keeps none rfl
  | error => exact free_close_keeps none rfl
  | data chars nonempty fits => exact fun _ => ⟨_, rfl, rfl, rfl⟩

theorem executeCommand_onHeld (conn : Int) (result code : List Byte) :
    (executeCommand conn result code).Only (Call.OnHeld conn) := by
  refine (executeCommand_only conn result code).mono fun call allowed => ?_
  rcases allowed with execution | rfl
  · cases call <;> first | exact execution | trivial
  · trivial

theorem logRequest_onHeld (conn threadId : Int) (ip : List Byte) (port : Int)
    (tag : Option (List Byte)) :
    (logRequest threadId ip port tag).Only (Call.OnHeld conn) := by
  refine (logRequest_only threadId ip port tag).mono fun call logging => ?_
  cases call <;> first | exact logging.elim | trivial

theorem reply_keeps (co : Connection) {request : Request} (exec : Outcome)
    (same : request.conn = co.conn) :
    (reply co request exec).Keeps monitor (taken co) fun next after =>
      after = if next = .again then none else taken co := by
  have sending : (sendReply request.conn exec).Only (Call.OnHeld co.conn) :=
    ⟨same, fun sent => .ite trivial ⟨same, fun sent => .ite trivial trivial⟩⟩
  refine (onHeld_keeps sending).seq ?_
  rintro sent _ rfl
  cases sent with
  | false => rfl
  | true =>
  refine fun tag => ⟨_, rfl, fun threadId => ⟨_, rfl, ?_⟩⟩
  change ((logRequest _ _ _ _).bind _).Keeps _ _ _
  refine (onHeld_keeps (logRequest_onHeld co.conn _ _ _ _)).seq ?_
  rintro logged _ rfl
  rw [same]
  exact free_close_keeps _ rfl

theorem serveRequest_keeps (co : Connection) {request : Request}
    (same : request.conn = co.conn) :
    (serveRequest co request).Keeps monitor (taken co) fun next after =>
      after = if next = .again then none else taken co := by
  refine fun _ => ⟨_, if_pos (by rw [same]; exact owns_taken), ?_⟩
  change ((executeCommand request.conn [] request.code).bind _).Keeps _ _ _
  have executing : (executeCommand request.conn [] request.code).Only
      (Call.OnHeld co.conn) := by
    rw [same]
    exact executeCommand_onHeld _ _ _
  refine (onHeld_keeps executing).seq ?_
  rintro exec _ rfl
  exact fun _ => ⟨_, rfl, reply_keeps co exec same⟩

theorem threadIteration_keeps (host : Endian) (serverToken : BitVec 64) :
    (threadIteration host serverToken).Keeps monitor none fun next after =>
      match next with
      | .again => after = none
      | .leave => ∃ co, after = taken co := by
  refine takeConnection_keeps.seq ?_
  rintro found _ rfl
  cases found with
  | none => rfl
  | some co =>
  refine (receiveRequest_keeps host serverToken co).seq fun request after => ?_
  cases request with
  | none => exact fun holds => holds
  | some request =>
      rintro ⟨rfl, same⟩
      refine (serveRequest_keeps co same).mono fun next after holds => ?_
      cases next with
      | again => exact holds
      | leave => exact ⟨co, holds⟩

theorem threadExec_keeps (host : Endian) (serverToken : BitVec 64) :
    (threadExec host serverToken).Keeps monitor none fun _ after =>
      ∃ co, after = taken co := by
  refine Keeps.iterate (fun _ use => use = none) rfl ?_
  rintro _ _ rfl
  refine (threadIteration_keeps host serverToken).seq fun next after holds => ?_
  cases next <;> exact holds

/-- A SIGPIPE ends the process with the worker's connection open. -/
theorem brokenPipe_owns {host : Endian} {serverToken : BitVec 64}
    {trace : List (Event Sys)} {call : Call}
    (meets : Meets (threadExec host serverToken) trace (.ended call)) :
    ∃ conn data use, call = .send conn data ∧
      monitor.run none trace = some use ∧ use.Owns conn := by
  have raises : call.RaisesSigpipe := meets.raises
  cases call with
  | send conn data =>
      have run : Runs unconstrained (threadExec host serverToken) ()
          (trace ++ [⟨.send conn data, (-1 : Int)⟩]) none () :=
        meets.ended_run trivial
      obtain ⟨last, accepted, _⟩ :=
        (threadExec_keeps host serverToken).accepts run
      rw [monitor.run_append] at accepted
      obtain ⟨use, before, sending⟩ := Option.bind_eq_some_iff.1 accepted
      obtain ⟨_, sent, _⟩ := monitor.run_cons.1 sending
      refine ⟨conn, data, use, rfl, before, ?_⟩
      by_contra closed
      simp [monitor, step, closed] at sent
  | _ => cases raises

end ConnectionUse

open ConnectionUse in
/-- A worker touches no descriptor but that of the connection it holds, neither
behind its `close` nor with another one at hand, and no record behind its
`free`; it waits for a connection only when it has closed and freed the one
before.  This holds in every run of the thread, whatever the clients and the
calls do; when the thread ends, it ends with its last connection open and not
freed. -/
theorem worker_owns_connection {host : Endian} {serverToken : BitVec 64}
    {trace : List (Event Sys)} {outcome : Option Unit}
    (run : Runs unconstrained (threadExec host serverToken) () trace
      outcome ()) :
    ∃ use, monitor.run none trace = some use ∧
      (outcome = some () → ∃ co, use = taken co) := by
  obtain ⟨use, accepted, ends⟩ :=
    (threadExec_keeps host serverToken).accepts run
  exact ⟨use, accepted, ends ()⟩

open ConnectionUse in
theorem worker_owns_connection_vanishingClient :
    ∃ use, monitor.run none vanishingClient = some use ∧
      ∃ co, use = taken co := by
  have run : Runs unconstrained (threadExec .little 5) () vanishingClient
      (some ()) () := .ofReplayUnconstrained 60 (by decide)
  obtain ⟨use, accepted, ends⟩ := worker_owns_connection run
  exact ⟨use, accepted, ends rfl⟩

end RemoteCommand
