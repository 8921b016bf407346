import RemoteCommand.AuthenticationGate
import RemoteCommand.WorkerLife

/-!
# No execution without authentication

In every run of an iteration, finished or not, `execute_command` is called on
the connection that was taken from the queue, and only after that connection
delivered `HELO` and an acceptable message.  An iteration that does not get
there is over after a bounded number of calls and has closed the descriptor.
-/

namespace RemoteCommand

open Interaction Machine Prog

/-- The first `recv` on the connection brought `HELO`, a later one an
acceptable message. -/
def Authenticated (serverToken : BitVec 64) (conn : Int)
    (trace : List (Event Sys)) : Prop :=
  ∃ later message, received conn trace = some (bytes "HELO") :: later ∧
    some message ∈ later ∧ Accepts serverToken message

/-- What comes later does not take it away. -/
theorem Authenticated.append {serverToken : BitVec 64} {conn : Int}
    {trace : List (Event Sys)}
    (authenticated : Authenticated serverToken conn trace)
    (rest : List (Event Sys)) :
    Authenticated serverToken conn (trace ++ rest) := by
  obtain ⟨later, message, results, member, accepts⟩ := authenticated
  refine ⟨later ++ received conn rest, message, ?_, ?_, accepts⟩
  · simp [results]
  · exact List.mem_append_left _ member

theorem Authenticated.prepend {serverToken : BitVec 64} {conn : Int}
    {first trace : List (Event Sys)}
    (authenticated : Authenticated serverToken conn trace)
    (nothing : received conn first = []) :
    Authenticated serverToken conn (first ++ trace) := by
  obtain ⟨later, message, results, member, accepts⟩ := authenticated
  exact ⟨later, message, by simp [nothing, results], member, accepts⟩

/-! ## The phases before the execution -/

def Call.NoRecv : Call → Prop
  | .recv _ _ _ => False
  | _ => True

theorem noRecv_received {trace : List (Event Sys)} (conn : Int)
    (none : ∀ event ∈ trace, event.1.NoRecv) : received conn trace = [] := by
  refine entries_eq_nil _ ?_
  rintro ⟨call, response⟩ member
  cases call with
  | recv other offset length => exact absurd (none _ member) id
  | _ => rfl

theorem takeConnection_noRecv : takeConnection.Only Call.NoRecv :=
  takeConnection_only.mono fun call within => by
    cases call <;> trivial

theorem receiveRequest_authenticated (host : Endian)
    (serverToken : BitVec 64) (co : Connection) (memory : Strtok Buffer) :
    Ensures anyOutcome (receiveRequest host serverToken co) memory
      fun trace request _ => request.isSome →
        Authenticated serverToken co.conn trace := by
  unfold receiveRequest getIp
  simp only [bind_eq, op_bind, ret_bind, pure_eq]
  refine (ensures_op _ _).2 fun ip _ answered => ?_
  refine Ensures.bind ((authenticateClient_ensures _ _ _ _).mono ?_)
  rintro trace auth _ (negative | ⟨rfl, message, results, accepts⟩)
  · refine (ensures_ite _ _ _).2 ⟨fun _ => ?_, fun absurd => ?_⟩
    · simp
    · exact (absurd negative).elim
  · intro rest request _ _ _
    have first : Authenticated serverToken co.conn
        (⟨.inetNtop co.sinAddr, ip⟩ :: trace) :=
      ⟨[some message], message, by simpa [receivedBy, getConn] using results,
        by simp, accepts⟩
    exact first.append rest

/-! ## The iteration -/

theorem takeConnection_within : takeConnection.Within 7 := by
  have entering : (enterCs .connectionsCs).Within 1 :=
    fun _ => .ite trivial trivial
  have leaving : (leaveCs .connectionsCs).Within 1 :=
    fun _ => .ite trivial trivial
  refine fun waited => .ite trivial ?_
  refine entering.bind fun entered => .ite trivial fun co => ?_
  cases co with
  | none => trivial
  | some co =>
  refine leaving.bind fun left => .ite ?_ trivial
  exact fun _ _ _ => trivial

theorem longRandLoop_within (turns : Nat) (random : BitVec 64) :
    (longRandLoop turns random).Within turns := by
  induction turns generalizing random with
  | zero => trivial
  | succ turns inductionHypothesis => exact fun temp => inductionHypothesis _

theorem authenticateClient_within (host : Endian) (conn : Int)
    (serverToken : BitVec 64) :
    (authenticateClient host conn serverToken).Within 17 := by
  have reply (code : List Byte) (failed succeeded : Int) :
      (send conn code >>= fun sent =>
        if sent < 0 then return failed else return succeeded).Within 1 :=
    fun sent => .ite trivial trivial
  have sending (xor : BitVec 64) : (sendLong host conn xor).Within 1 :=
    fun sent => .ite trivial trivial
  intro hello
  cases hello with
  | closed => trivial
  | error => trivial
  | data response nonempty fits =>
  refine .ite trivial fun sent => .ite trivial ?_
  refine (longRandLoop_within 8 0).bind fun challenge => ?_
  refine (sending _).bind fun sent => .ite trivial fun message => ?_
  cases message with
  | closed => trivial
  | error => trivial
  | data response nonempty fits =>
  intro _ auth
  cases auth with
  | none => trivial
  | some auth =>
  intro enc1
  cases enc1 with
  | none => trivial
  | some enc1 =>
  intro enc2
  cases enc2 with
  | none => trivial
  | some enc2 =>
  exact .ite (reply _ _ _) (.ite (reply _ _ _) (reply _ _ _))

theorem receiveRequest_within (host : Endian) (serverToken : BitVec 64)
    (co : Connection) : (receiveRequest host serverToken co).Within 22 := by
  intro ip
  refine (authenticateClient_within host _ serverToken).bind fun auth => ?_
  refine .ite (fun _ _ => trivial) fun code msg => ?_
  cases msg with
  | data chars nonempty fits => exact fun _ => trivial
  | closed => exact fun _ _ => trivial
  | error => exact fun _ _ => trivial

/-- An entry of a list is in the first or in the second part of it. -/
theorem split_append {α : Type} {first second before after : List α}
    {entry : α} (split : first ++ second = before ++ entry :: after) :
    (∃ middle, first = before ++ entry :: middle) ∨
      ∃ middle, before = first ++ middle ∧
        second = middle ++ entry :: after := by
  rcases List.append_eq_append_iff.1 split with
    ⟨middle, same, tail⟩ | ⟨middle, same, tail⟩
  · exact .inr ⟨middle, same, tail⟩
  · cases middle with
    | nil => exact .inr ⟨[], by simpa using same.symm, by simpa using tail.symm⟩
    | cons head middle =>
        cases tail
        exact .inl ⟨middle, same⟩

/-- The mark of a call is not in what comes before the first mark. -/
theorem prefix_of_unmarked {first rest before after : List (Event Sys)}
    {event : Event Sys} (called : isCall event = true)
    (unmarked : ∀ event ∈ first, isCall event = false)
    (split : first ++ rest = before ++ event :: after) :
    ∃ middle, before = first ++ middle ∧ rest = middle ++ event :: after := by
  rcases split_append split with ⟨middle, same⟩ | found
  · have marked := unmarked event (by simp [same])
    rw [called] at marked
    cases marked
  · exact found

def Call.OfServing (co : Connection) (conn : Int) (call : Call) : Prop :=
  call.OfExecution conn ∨ call.OfReply co conn ∨
    call = .mark .nullArgument ∨ call = .mark (.callExecuteCommand conn) ∨
      ∃ ret, call = .mark (.returnExecuteCommand ret)

theorem serveRequest_only (co : Connection) (request : Request) :
    (serveRequest co request).Only (Call.OfServing co request.conn) := by
  rw [serveRequest_eq]
  refine ⟨.inr (.inr (.inr (.inl rfl))), fun _ => ?_⟩
  refine ((executeCommand_only _ _ _).mono ?_).bind fun exec => ?_
  · rintro call (executing | null)
    · exact .inl executing
    · exact .inr (.inr (.inl null))
  refine ⟨.inr (.inr (.inr (.inr ⟨_, rfl⟩))), fun _ => ?_⟩
  exact (reply_only co request exec).mono fun call => .inr ∘ .inl

/-- `execute_command` gets the descriptor of the request. -/
theorem callExecuteCommand_conn {co : Connection} {conn other : Int}
    (serving : Call.OfServing co conn (.mark (.callExecuteCommand other))) :
    other = conn := by
  simpa [Call.OfServing, Call.OfExecution, Call.OfReply, Call.OfLogging]
    using serving

theorem serving_dequeued {co : Connection} {conn : Int}
    {trace : List (Event Sys)}
    (within : ∀ event ∈ trace, Call.OfServing co conn event.1) :
    dequeued trace = [] := by
  refine entries_eq_nil _ ?_
  rintro ⟨call, response⟩ member
  cases call with
  | dequeue =>
      have serving := within _ member
      simp [Call.OfServing, Call.OfExecution, Call.OfReply, Call.OfLogging]
        at serving
  | _ => rfl

/-- The calls of an iteration before it executes a request. -/
def Call.BeforeServing (call : Call) : Prop :=
  call.OfTaking ∨ ∃ co, call.OfReceiving co

theorem Call.BeforeServing.noMark {call : Call}
    (before : call.BeforeServing) : call.NoMark := by
  cases call with
  | mark point =>
      simp [Call.BeforeServing, Call.OfTaking, Call.OfReceiving,
        Call.OfAuthentication] at before
  | _ => trivial

/-- A run of an iteration either stays before the execution of a request, with
few calls, or gets to it. -/
theorem threadIteration_cases {env : Env Sys (Strtok Buffer)}
    {host : Endian} {serverToken : BitVec 64} {memory final : Strtok Buffer}
    {trace : List (Event Sys)} {outcome : Option Next}
    (run : Runs env (threadIteration host serverToken) memory trace outcome
      final) :
    ((∀ event ∈ trace, event.1.BeforeServing) ∧ trace.length ≤ 29) ∨
      ∃ co request memory₁ memory₂ taking receiving serving,
        trace = taking ++ receiving ++ serving ∧
        Runs env takeConnection memory taking (some (some co)) memory₁ ∧
        Runs env (receiveRequest host serverToken co) memory₁ receiving
          (some (some request)) memory₂ ∧
        Runs env (serveRequest co request) memory₂ serving outcome final := by
  have ofTaking : takeConnection.Only Call.BeforeServing :=
    takeConnection_only.mono fun _ => Or.inl
  have ofReceiving (co : Connection) :
      (receiveRequest host serverToken co).Only Call.BeforeServing :=
    (receiveRequest_only _ _ _).mono fun _ within => .inr ⟨co, within⟩
  rcases run.bind_cases with ⟨_, taking⟩ | found
  · have few := taking.length_le takeConnection_within
    exact .inl ⟨taking.only ofTaking, by omega⟩
  obtain ⟨co, memory₁, first, rest, taking, inner, rfl⟩ := found
  have firstBefore := taking.only ofTaking
  have firstFew := taking.length_le takeConnection_within
  cases co with
  | none =>
      obtain ⟨rfl, _⟩ := inner.ret_cases
      refine .inl ⟨by simpa using firstBefore, ?_⟩
      simp
      omega
  | some co =>
  have merge {second : List (Event Sys)}
      (secondBefore : ∀ event ∈ second, event.1.BeforeServing)
      (few : second.length ≤ 22) :
      (∀ event ∈ first ++ second, event.1.BeforeServing) ∧
        (first ++ second).length ≤ 29 := by
    constructor
    · intro event member
      rcases List.mem_append.1 member with before | after
      · exact firstBefore event before
      · exact secondBefore event after
    · rw [List.length_append]
      omega
  rcases inner.bind_cases with ⟨_, receiving⟩ | found
  · exact .inl (merge (receiving.only (ofReceiving co))
      (receiving.length_le (receiveRequest_within _ _ _)))
  obtain ⟨request, memory₂, second, third, receiving, serving, rfl⟩ := found
  cases request with
  | none =>
      obtain ⟨rfl, _⟩ := serving.ret_cases
      rw [List.append_nil]
      exact .inl (merge (receiving.only (ofReceiving co))
        (receiving.length_le (receiveRequest_within _ _ _)))
  | some request =>
      exact .inr ⟨co, request, memory₁, memory₂, first, second, third,
        (List.append_assoc _ _ _).symm, taking, receiving, serving⟩

/-- In every run of an iteration, finished or not: when `execute_command` is
called, the descriptor is that of the connection taken from the queue, and the
peer has authenticated on it.  A connection whose peer has not authenticated
gets no command executed; after at most 29 calls the iteration is over, and then
the descriptor is closed. -/
theorem executes_only_authenticated {host : Endian}
    {serverToken : BitVec 64} {memory final : Strtok Buffer}
    {trace : List (Event Sys)} {outcome : Option Next}
    (run : Runs anyOutcome (threadIteration host serverToken) memory trace
      outcome final) :
    (∀ before conn after,
      trace = before ++ ⟨.mark (.callExecuteCommand conn), ()⟩ :: after →
        ∃ co, dequeued before = [co] ∧ co.conn = conn ∧
          Authenticated serverToken conn before) ∧
    ∀ co, dequeued trace = [co] →
      ¬ Authenticated serverToken co.conn trace →
        (∀ event ∈ trace, isCall event = false) ∧ trace.length ≤ 29 ∧
          (outcome.isSome → closed trace = [co.conn]) := by
  rcases threadIteration_cases run with ⟨before, few⟩ | found
  · have noMark : ∀ event ∈ trace, event.1.NoMark :=
      fun event member => (before event member).noMark
    have noCall := noMark_isCall noMark
    constructor
    · rintro before conn after rfl
      have called := noCall ⟨.mark (.callExecuteCommand conn), ()⟩ (by simp)
      cases called
    · intro co taken _
      refine ⟨noCall, few, fun ended => ?_⟩
      obtain ⟨next, rfl⟩ := Option.isSome_iff_exists.1 ended
      obtain ⟨_, ended⟩ := threadIteration_ensures _ _ _ _ _ run.forget
      cases next with
      | again =>
          rcases ended.2 with none | ⟨other, same, released⟩
          · rw [taken] at none
            cases none
          · rw [taken] at same
            cases same
            exact released.1
      | leave =>
          have quiet := replyFailed_append (noMark_isReturn noMark) []
          rw [List.append_nil, ended.1] at quiet
          cases quiet
  · obtain ⟨co, request, memory₁, memory₂, first, second, third, rfl, taking,
      receiving, serving⟩ := found
    have taken := takeConnection_ensures _ _ _ taking.forget
    have requested := receiveRequest_ensures _ _ _ _ _ _ receiving.forget
    have authenticated : Authenticated serverToken co.conn (first ++ second) :=
      (receiveRequest_authenticated _ _ _ _ _ _ _ receiving rfl).prepend
        (noRecv_received _ (taking.only takeConnection_noRecv))
    have unmarked : ∀ event ∈ first ++ second, isCall event = false := by
      refine noMark_isCall fun event member => ?_
      rcases List.mem_append.1 member with before | after
      · exact taking.only takeConnection_noMark event before
      · exact receiving.only (receiveRequest_noMark _ _ _) event after
    have within := serving.only (serveRequest_only co request)
    constructor
    · intro before conn after split
      obtain ⟨middle, rfl, tail⟩ := prefix_of_unmarked rfl unmarked split
      have called := within ⟨.mark (.callExecuteCommand conn), ()⟩
        (by simp [tail])
      have sameConn := (callExecuteCommand_conn called).trans requested.2.2
      have nothing : dequeued middle = [] :=
        serving_dequeued fun event member =>
          within event (by simp [tail, member])
      refine ⟨co, ?_, sameConn.symm, ?_⟩
      · simp [taken.1, requested.1, nothing]
      · rw [sameConn]
        exact authenticated.append middle
    · intro other only not
      have nothing := serving_dequeued within
      simp only [entries_append, taken.1, requested.1, nothing] at only
      cases only
      exact absurd (authenticated.append third) not

theorem executes_only_authenticated_vanishingClient :
    ∃ co, dequeued (vanishingClient.take 25) = [co] ∧ co.conn = 7 ∧
      Authenticated 5 7 (vanishingClient.take 25) := by
  let memory : Strtok Buffer := { buffer := fun _ => [], save := none }
  have replayed : (threadIteration .little 5).replay Call.after 60 memory
      vanishingClient = some (some .leave) := by
    decide
  obtain ⟨final, run⟩ := Runs.ofReplay Call.answers_of_after 60 replayed
  exact (executes_only_authenticated run).1 _ 7 (vanishingClient.drop 26) rfl

end RemoteCommand
