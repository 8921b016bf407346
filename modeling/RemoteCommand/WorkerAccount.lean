import RemoteCommand.Footprint
import RemoteCommand.Surroundings

/-!
# What a worker does with a connection

The trace of an iteration says which connections were taken from the queue,
which descriptors were closed and which records were freed.  One lemma for each
phase of the iteration gives its share.
-/

namespace RemoteCommand

open Interaction Machine Prog

/-! ## Accounts -/

def dequeuedBy : Event Sys → Option Connection
  | ⟨.dequeue, co⟩ => co
  | _ => none

def closedBy : Event Sys → Option Int
  | ⟨.close conn, _⟩ => some conn
  | _ => none

def freedBy : Event Sys → Option Connection
  | ⟨.free co, _⟩ => some co
  | _ => none

abbrev dequeued : List (Event Sys) → List Connection :=
  entries dequeuedBy

abbrev closed : List (Event Sys) → List Int :=
  entries closedBy

abbrev freed : List (Event Sys) → List Connection :=
  entries freedBy

/-- The descriptor was closed once, the record freed once, and nothing else. -/
def Released (co : Connection) (trace : List (Event Sys)) : Prop :=
  closed trace = [co.conn] ∧ freed trace = [co]

/-- Nothing was closed or freed. -/
def Kept (trace : List (Event Sys)) : Prop :=
  closed trace = [] ∧ freed trace = []

instance (co : Connection) (trace : List (Event Sys)) :
    Decidable (Released co trace) :=
  inferInstanceAs (Decidable (_ ∧ _))

/-- The calls that the accounts and the marks of an iteration are about. -/
def Call.Accounted : Call → Prop
  | .dequeue | .close _ | .free _ => True
  | .mark (.callExecuteCommand _) | .mark (.returnExecuteCommand _) => True
  | _ => False

def isCall : Event Sys → Bool
  | ⟨.mark (.callExecuteCommand _), _⟩ => true
  | _ => false

def isReturn : Event Sys → Bool
  | ⟨.mark (.returnExecuteCommand _), _⟩ => true
  | _ => false

/-- A trace of other calls leaves no entry and no mark. -/
structure Quiet (trace : List (Event Sys)) : Prop where
  dequeued : dequeued trace = []
  closed : closed trace = []
  freed : freed trace = []
  noCall : ∀ event ∈ trace, isCall event = false
  noReturn : ∀ event ∈ trace, isReturn event = false

theorem Quiet.of {trace : List (Event Sys)}
    (none : ∀ event ∈ trace, ¬ event.1.Accounted) : Quiet trace where
  dequeued := by
    refine entries_eq_nil _ ?_
    rintro ⟨call, response⟩ member
    cases call with
    | dequeue => exact absurd trivial (none _ member)
    | _ => rfl
  closed := by
    refine entries_eq_nil _ ?_
    rintro ⟨call, response⟩ member
    cases call with
    | close conn => exact absurd trivial (none _ member)
    | _ => rfl
  freed := by
    refine entries_eq_nil _ ?_
    rintro ⟨call, response⟩ member
    cases call with
    | free co => exact absurd trivial (none _ member)
    | _ => rfl
  noCall := by
    rintro ⟨call, response⟩ member
    cases call with
    | mark point =>
        cases point with
        | callExecuteCommand conn => exact absurd trivial (none _ member)
        | _ => rfl
    | _ => rfl
  noReturn := by
    rintro ⟨call, response⟩ member
    cases call with
    | mark point =>
        cases point with
        | returnExecuteCommand ret => exact absurd trivial (none _ member)
        | _ => rfl
    | _ => rfl

theorem Call.OfAuthentication.quiet {conn : Int} {call : Call}
    (within : call.OfAuthentication conn) : ¬ call.Accounted := by
  cases call <;> simp_all [Call.OfAuthentication, Call.Accounted]

theorem Call.OfExecution.quiet {conn : Int} {call : Call}
    (within : call.OfExecution conn ∨ call = .mark .nullArgument) :
    ¬ call.Accounted := by
  cases call <;> simp_all [Call.OfExecution, Call.Accounted]

theorem Call.OfLogging.quiet {call : Call} (within : call.OfLogging) :
    ¬ call.Accounted := by
  cases call <;> simp_all [Call.OfLogging, Call.Accounted]

/-! ## Taking a connection and receiving its request -/

theorem takeConnection_ensures :
    Ensures unconstrained takeConnection () fun trace taken _ =>
      match taken with
      | none => dequeued trace = [] ∨
          ∃ co, dequeued trace = [co] ∧ Released co trace
      | some co => dequeued trace = [co] ∧ Kept trace := by
  unfold takeConnection waitSemaphore
  simp only [bind_eq, op_bind, ret_bind, pure_eq]
  refine (ensures_op _ _).2 fun waited _ _ => ?_
  refine (ensures_ite _ _ _).2 ⟨fun _ => ?_, fun _ => ?_⟩
  · simp [dequeuedBy]
  refine Ensures.only_bind (enterCs_only _) fun entering entered _ inside => ?_
  have entering : Quiet entering :=
    .of fun event member => by simp [inside event member, Call.Accounted]
  refine (ensures_ite _ _ _).2 ⟨fun _ => ?_, fun _ => ?_⟩
  · simp [dequeuedBy, entering.dequeued]
  refine (ensures_op _ _).2 fun co _ _ => ?_
  cases co with
  | none => simp [dequeuedBy, entering.dequeued]
  | some co =>
  refine Ensures.only_bind (leaveCs_only _) fun leaving left _ inside => ?_
  have leaving : Quiet leaving :=
    .of fun event member => by simp [inside event member, Call.Accounted]
  refine (ensures_ite _ _ _).2 ⟨fun _ => ?_, fun _ => ?_⟩
  · simp [sendError, Released, dequeuedBy, closedBy, freedBy, getConn,
      entering.dequeued, entering.closed, entering.freed, leaving.dequeued,
      leaving.closed, leaving.freed]
  · simp [Kept, dequeuedBy, closedBy, freedBy,
      entering.dequeued, entering.closed, entering.freed, leaving.dequeued,
      leaving.closed, leaving.freed]

theorem receiveRequest_ensures (host : Endian) (serverToken : BitVec 64)
    (co : Connection) :
    Ensures unconstrained (receiveRequest host serverToken co) ()
      fun trace request _ => dequeued trace = [] ∧
        match request with
        | none => Released co trace
        | some request => Kept trace ∧ request.conn = co.conn := by
  unfold receiveRequest getIp
  simp only [bind_eq, op_bind, ret_bind, pure_eq]
  refine (ensures_op _ _).2 fun ip _ _ => ?_
  refine Ensures.only_bind (authenticateClient_only _ _ _)
    fun authenticating auth _ inside => ?_
  have authenticating : Quiet authenticating :=
    .of fun event member => (inside event member).quiet
  refine (ensures_ite _ _ _).2 ⟨fun _ => ?_, fun _ => ?_⟩
  · simp [Released, dequeuedBy, closedBy, freedBy, getConn,
      authenticating.dequeued, authenticating.closed, authenticating.freed]
  refine (ensures_op _ _).2 fun code _ _ => (ensures_op _ _).2 fun msg _ _ => ?_
  cases msg <;>
    simp [Released, Kept, dequeuedBy, closedBy, freedBy, getConn,
      authenticating.dequeued, authenticating.closed, authenticating.freed]

end RemoteCommand
