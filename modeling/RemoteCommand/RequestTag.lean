import RemoteCommand.RequestBounds

/-!
# The name under which a request is logged

`thread_exec` calls `strtok` on `msg` once more when the request has been
executed.  Until then `strtok` has put a `NUL` behind the first token, and the
calls that went on have changed nothing before it.
-/

namespace RemoteCommand

open Interaction Machine Prog

/-! ## The first token -/

/-- The first part of a message without blanks, when the blanks in front of it
are left out. -/
def firstToken (message : List Byte) : Option (List Byte) :=
  (words (bytes " ") (cstr message)).head?

theorem tagOf_firstToken (message : List Byte) :
    tagOf message = firstToken message :=
  Strtok.strtok_token (Strtok.ofArray message) () (bytes " ")

example : firstToken (bytes "  LIST  a b\x00c") = some (bytes "LIST") := by
  decide

/-! ## Calls that leave the request alone -/

/-- No new search in `msg`, and no other message in it. -/
def Call.OffRequest : Call → Prop
  | .strtok source _ => source ≠ some .msg
  | .fill buffer _ => buffer ≠ .msg
  | _ => True

theorem Call.GoesOn.offRequest {call : Call} (goesOn : call.GoesOn) :
    call.OffRequest := by
  cases call with
  | strtok source delim =>
      cases goesOn
      exact nofun
  | fill => exact goesOn.elim
  | _ => trivial

theorem sendReply_goesOn (conn : Int) (exec : Outcome) :
    (sendReply conn exec).Only Call.GoesOn :=
  (sendReply_only conn exec).mono fun _ sends => by
    obtain ⟨data, rfl⟩ := sends
    trivial

theorem logRequest_offRequest (threadId : Int) (ip : List Byte) (port : Int)
    (tag : Option (List Byte)) :
    (logRequest threadId ip port tag).Only Call.OffRequest := by
  have apart : (Buffer.timestamp : Buffer) ≠ .msg := nofun
  have timing : getTime.Only Call.OffRequest := by
    refine ⟨trivial, fun ltime => .ite trivial ⟨trivial, fun tm => ?_⟩⟩
    cases tm with
    | none => trivial
    | some tm =>
    refine ⟨trivial, fun text => ?_⟩
    cases text with
    | none => trivial
    | some text => exact ⟨apart, fun _ => ⟨nofun, fun _ => trivial⟩⟩
  refine timing.bind fun time => .ite trivial ⟨trivial, fun timestamp => ?_⟩
  refine ⟨trivial, fun filename => ?_⟩
  cases filename with
  | none => trivial
  | some filename =>
  refine ⟨trivial, fun entered => Only.bind (.ite trivial trivial) fun _ => ?_⟩
  refine .ite trivial ⟨trivial, fun file => ?_⟩
  cases file with
  | none => trivial
  | some file =>
  refine ⟨trivial, fun _ => ⟨trivial, fun _ => ⟨trivial, fun left => ?_⟩⟩⟩
  exact Only.bind (.ite trivial trivial) fun _ => trivial

theorem longRandLoop_offRequest (turns : Nat) (random : BitVec 64) :
    (longRandLoop turns random).Only Call.OffRequest := by
  induction turns generalizing random with
  | zero => trivial
  | succ turns inductionHypothesis =>
      exact ⟨trivial, fun temp => inductionHypothesis _⟩

/-- The authentication searches in `response`. -/
theorem authenticateClient_offRequest (host : Endian) (conn : Int)
    (serverToken : BitVec 64) :
    (authenticateClient host conn serverToken).Only Call.OffRequest := by
  have reply (code : List Byte) (failed succeeded : Int) :
      (send conn code >>= fun sent =>
        if sent < 0 then return failed else return succeeded).Only
          Call.OffRequest :=
    ⟨trivial, fun sent => .ite trivial trivial⟩
  refine ⟨trivial, fun hello => ?_⟩
  cases hello with
  | closed => trivial
  | error => trivial
  | data response nonempty fits =>
  refine .ite trivial ⟨trivial, fun sent => .ite trivial ?_⟩
  refine (longRandLoop_offRequest 8 0).bind fun challenge => ?_
  refine Only.bind ⟨trivial, fun _ => .ite trivial trivial⟩ fun sent => ?_
  refine .ite trivial ⟨trivial, fun message => ?_⟩
  cases message with
  | closed => trivial
  | error => trivial
  | data response nonempty fits =>
  refine ⟨nofun, fun _ => ⟨nofun, fun auth => ?_⟩⟩
  cases auth with
  | none => trivial
  | some auth =>
  refine ⟨nofun, fun enc1 => ?_⟩
  cases enc1 with
  | none => trivial
  | some enc1 =>
  refine ⟨nofun, fun enc2 => ?_⟩
  cases enc2 with
  | none => trivial
  | some enc2 =>
  exact .ite (reply _ _ _) (.ite (reply _ _ _) (reply _ _ _))

/-! ## The two searches in the request -/

/-- A search that starts in `msg` finds the first token of the message. -/
def FindsFirst (message : List Byte) (trace : List (Event Sys)) : Prop :=
  ∀ delim token, ⟨.strtok (some .msg) delim, token⟩ ∈ trace →
    token = firstToken message

section FindsFirst

variable {message : List Byte} {first second : List (Event Sys)}

theorem FindsFirst.append (left : FindsFirst message first)
    (right : FindsFirst message second) :
    FindsFirst message (first ++ second) := by
  intro delim token member
  rcases List.mem_append.1 member with inFirst | inSecond
  · exact left delim token inFirst
  · exact right delim token inSecond

@[simp]
theorem findsFirst_nil : FindsFirst message [] :=
  nofun

theorem findsFirst_of_only {α : Type} {program : Prog Sys α}
    {memory final : Strtok Buffer} {outcome : Option α}
    (run : Runs anyOutcome program memory first outcome final)
    (off : program.Only Call.OffRequest) : FindsFirst message first :=
  fun _ _ member => absurd rfl (run.only off _ member)

/-- The search itself. -/
theorem FindsFirst.cons {delim : List Byte} {token : Option (List Byte)}
    (found : token = firstToken message) (rest : FindsFirst message first) :
    FindsFirst message (⟨.strtok (some .msg) delim, token⟩ :: first) := by
  intro other again member
  rcases List.mem_cons.1 member with same | later
  · cases same
    exact found
  · exact rest other again later

end FindsFirst

/-- A trace in which a request is executed as a command and logged under the
same name. -/
inductive LogsCommand (co : Connection) (request : Request) (tag : List Byte) :
    List (Event Sys) → Prop
  | intro {executing sending logging : List (Event Sys)}
      {tagged executed searched logged : Strtok Buffer} {exec : Outcome}
      {threadId ret : Int} :
      Runs anyOutcome (executeTag request.conn request.code tag) tagged
        executing (some exec) executed →
      Runs anyOutcome
        (logRequest threadId request.ip request.cport (some tag)) searched
        logging (some ret) logged →
      LogsCommand co request tag
        (⟨.mark (.callExecuteCommand request.conn), ()⟩ ::
          (⟨.strtok (some .msg) (bytes " "), some tag⟩ :: executing ++
            ⟨.mark (.returnExecuteCommand exec.ret), ()⟩ ::
              (sending ++ ⟨.strtok (some .msg) (bytes " "), some tag⟩ ::
                ⟨.gettid, threadId⟩ ::
                  (logging ++ [⟨.free co, ()⟩, ⟨.close request.conn, ()⟩]))))

section Requests

variable {co : Connection} {request : Request} {conn : Int} {code : List Byte}
  {memory final : Strtok Buffer} {trace : List (Event Sys)}

/-- `execute_command` finds the token, and goes on behind it. -/
theorem executeCommand_tag {outcome : Option Outcome}
    (run : Runs anyOutcome (executeCommand conn [] code) memory trace outcome
      final) :
    FindsFirst (memory.buffer .msg) trace ∧
      (outcome.isSome → ∃ middle rest,
        trace = ⟨.strtok (some .msg) (bytes " "),
          firstToken (memory.buffer .msg)⟩ :: rest ∧
        Runs anyOutcome
          (executeToken conn code (firstToken (memory.buffer .msg))) middle rest
          outcome final) := by
  rw [executeCommand_eq] at run
  rcases run.op_cases with
    ⟨rfl, rfl, _⟩ | ⟨tag, middle, rest, answered, inner, rfl⟩
  · exact ⟨findsFirst_nil, nofun⟩
  change memory.strtok (some .msg) (bytes " ") = (tag, middle) at answered
  have found := memory.strtok_token .msg (bytes " ")
  rw [answered] at found
  change tag = firstToken (memory.buffer .msg) at found
  have goesOn : (executeToken conn code tag).Only Call.GoesOn := by
    cases tag with
    | none => trivial
    | some tag => exact executeTag_goesOn conn code tag
  exact ⟨.cons found (findsFirst_of_only inner
      (goesOn.mono fun _ => Call.GoesOn.offRequest)),
    fun _ => ⟨middle, rest, found ▸ rfl, found ▸ inner⟩⟩

/-- The reply searches once more, and logs what it finds. -/
theorem reply_tag {exec : Outcome} {outcome : Option Next}
    {message : List Byte}
    (again : ∀ sending middle,
      Runs anyOutcome (sendReply request.conn exec) memory sending (some true)
        middle →
      (middle.strtok (some .msg) (bytes " ")).1 = firstToken message)
    (run : Runs anyOutcome (reply co request exec) memory trace outcome final) :
    FindsFirst message trace ∧
      (outcome = some .again → ∃ sending threadId logging searched logged ret,
        Runs anyOutcome
          (logRequest threadId request.ip request.cport (firstToken message))
          searched logging (some ret) logged ∧
        trace = sending ++ ⟨.strtok (some .msg) (bytes " "),
            firstToken message⟩ :: ⟨.gettid, threadId⟩ ::
          (logging ++ [⟨.free co, ()⟩, ⟨.close request.conn, ()⟩])) := by
  have quiet {first : List (Event Sys)} {sent : Option Bool}
      {middle : Strtok Buffer}
      (sending : Runs anyOutcome (sendReply request.conn exec) memory first
        sent middle) : FindsFirst message first :=
    findsFirst_of_only sending
      ((sendReply_goesOn _ _).mono fun _ => Call.GoesOn.offRequest)
  rw [reply_eq] at run
  rcases run.bind_cases with ⟨rfl, sending⟩ | found
  · exact ⟨quiet sending, nofun⟩
  obtain ⟨sent, middle, first, second, sending, going, rfl⟩ := found
  cases sent with
  | false =>
      obtain ⟨rfl, _, rfl | rfl⟩ := going.ret_cases
      · exact ⟨(quiet sending).append findsFirst_nil, nofun⟩
      · exact ⟨(quiet sending).append findsFirst_nil, nofun⟩
  | true =>
  have token := again first middle sending
  rcases going.op_cases with
    ⟨rfl, rfl, _⟩ | ⟨tag, searched, others, answered, later, rfl⟩
  · exact ⟨(quiet sending).append findsFirst_nil, nofun⟩
  change middle.strtok (some .msg) (bytes " ") = (tag, searched) at answered
  rw [answered] at token
  change tag = firstToken message at token
  subst token
  -- Nothing behind the search concerns the request.
  have behind : FindsFirst message others := by
    refine findsFirst_of_only later ⟨trivial, fun threadId => ?_⟩
    exact (logRequest_offRequest _ _ _ _).bind fun _ =>
      ⟨trivial, fun _ => ⟨trivial, fun _ => trivial⟩⟩
  refine ⟨(quiet sending).append (.cons rfl behind), ?_⟩
  rintro rfl
  obtain ⟨_, ⟨⟩, _⟩ | ⟨threadId, numbered, _, _, ending, rfl⟩ := later.op_cases
  obtain ⟨⟨⟩, _⟩ | ⟨ret, logged, logging, cleaning, logs, cleans, rfl⟩ :=
    ending.bind_cases
  obtain ⟨_, ⟨⟩, _⟩ | ⟨_, _, closing, _, closes, rfl⟩ := cleans.op_cases
  obtain ⟨_, ⟨⟩, _⟩ | ⟨_, _, _, _, ends, rfl⟩ := closes.op_cases
  obtain ⟨rfl, _⟩ := ends.ret_cases
  exact ⟨first, threadId, logging, _, _, ret, logs, rfl⟩

theorem serveRequest_tag {outcome : Option Next}
    (run : Runs anyOutcome (serveRequest co request) memory trace outcome
      final) :
    FindsFirst (memory.buffer .msg) trace ∧
      (outcome = some .again →
        ∀ tag, firstToken (memory.buffer .msg) = some tag →
          LogsCommand co request tag trace) := by
  have marked {point : Mark} {rest : List (Event Sys)}
      (first : FindsFirst (memory.buffer .msg) rest) :
      FindsFirst (memory.buffer .msg) (⟨.mark point, ()⟩ :: rest) := by
    intro delim token member
    rcases List.mem_cons.1 member with same | later
    · cases same
    · exact first delim token later
  rw [serveRequest_eq] at run
  rcases run.op_cases with
    ⟨rfl, rfl, _⟩ | ⟨_, _, rest, answered, serving, rfl⟩
  · exact ⟨findsFirst_nil, nofun⟩
  cases answered
  rcases serving.bind_cases with ⟨rfl, executing⟩ | found
  · exact ⟨marked (executeCommand_tag executing).1, nofun⟩
  obtain ⟨exec, executed, first, second, executing, replying, rfl⟩ := found
  obtain ⟨finds, dispatches⟩ := executeCommand_tag executing
  rcases replying.op_cases with
    ⟨rfl, rfl, _⟩ | ⟨_, _, last, answered, replying, rfl⟩
  · exact ⟨marked (finds.append findsFirst_nil), nofun⟩
  cases answered
  have again (sending : List (Event Sys)) (middle : Strtok Buffer)
      (sends : Runs anyOutcome (sendReply request.conn exec) executed sending
        (some true) middle) :
      (middle.strtok (some .msg) (bytes " ")).1 =
        firstToken (memory.buffer .msg) := by
    have answers : Runs anyOutcome (answerClient request.conn request.code)
        memory (first ++ sending) (some true) middle := executing.bind sends
    rw [logged_tag rfl answers, tagOf_firstToken]
  obtain ⟨findsAgain, logs⟩ := reply_tag again replying
  refine ⟨marked (finds.append (marked findsAgain)), fun completed tag found => ?_⟩
  obtain ⟨tagged, rest, rfl, executes⟩ := dispatches rfl
  obtain ⟨sending, threadId, logging, searched, logged, ret, inLog, rfl⟩ :=
    logs completed
  rw [found] at executes inLog ⊢
  exact .intro executes inLog

/-- What `receive_request` leaves in `msg` is what it has put there. -/
theorem receiveRequest_fill (host : Endian) (serverToken : BitVec 64)
    (co : Connection) (memory : Strtok Buffer) :
    Ensures anyOutcome (receiveRequest host serverToken co) memory
      fun trace request final => ∀ data, ⟨.fill .msg data, ()⟩ ∈ trace →
        request.isSome ∧ final.buffer .msg = data := by
  unfold receiveRequest getIp
  simp only [bind_eq, op_bind, ret_bind, pure_eq]
  refine (ensures_op _ _).2 fun ip _ _ => ?_
  refine Ensures.only_bind (authenticateClient_offRequest _ _ _)
    fun first auth middle off => ?_
  have early (data : List Byte) : ⟨.fill .msg data, ()⟩ ∉ first :=
    fun member => off _ member rfl
  refine (ensures_ite _ _ _).2 ⟨fun _ => ?_, fun _ => ?_⟩
  · simp [early]
  refine (ensures_op _ _).2 fun code _ _ => (ensures_op _ _).2 ?_
  intro msg _ _
  cases msg with
  | closed => simp [early]
  | error => simp [early]
  | data chars nonempty fits =>
      refine (ensures_op _ _).2 fun _ after answered => (ensures_ret _).2 ?_
      cases answered
      intro data member
      simp [early] at member
      simp [Strtok.load, member]

theorem receiveRequest_noSearch (host : Endian) (serverToken : BitVec 64)
    (co : Connection) :
    (receiveRequest host serverToken co).Only fun call : Call =>
      ∀ delim, call ≠ .strtok (some .msg) delim := by
  refine ⟨nofun, fun ip => ?_⟩
  have authenticating := authenticateClient_offRequest host co.conn serverToken
  refine (authenticating.mono ?_).bind fun auth => ?_
  · rintro call off delim rfl
    exact off rfl
  refine .ite ⟨nofun, fun _ => ⟨nofun, fun _ => trivial⟩⟩ ?_
  refine ⟨nofun, fun code => ⟨nofun, fun msg => ?_⟩⟩
  cases msg with
  | data chars nonempty fits => exact ⟨nofun, fun _ => trivial⟩
  | closed => exact ⟨nofun, fun _ => ⟨nofun, fun _ => trivial⟩⟩
  | error => exact ⟨nofun, fun _ => ⟨nofun, fun _ => trivial⟩⟩

/-- The request is executed and logged under the first token of the message, as
it was received. -/
theorem request_logged_as_dispatched {host : Endian} {serverToken : BitVec 64}
    {data : List Byte} {outcome : Option Next}
    (run : Runs anyOutcome (serveConnection host serverToken co) memory trace
      outcome final)
    (received : ⟨.fill .msg data, ()⟩ ∈ trace) :
    FindsFirst data trace ∧
      (outcome = some .again → ∀ tag, firstToken data = some tag →
        ∃ request receiving serving,
          trace = receiving ++ serving ∧
            LogsCommand co request tag serving) := by
  have quiet {receiving : List (Event Sys)} {got : Option (Option Request)}
      {middle : Strtok Buffer}
      (receives : Runs anyOutcome (receiveRequest host serverToken co) memory
        receiving got middle) : FindsFirst data receiving :=
    fun delim token member =>
      absurd rfl (receives.only (receiveRequest_noSearch _ _ _) _ member delim)
  change Runs anyOutcome ((receiveRequest host serverToken co).bind _) memory
    trace outcome final at run
  rcases run.bind_cases with ⟨rfl, receives⟩ | found
  · refine ⟨quiet receives, fun again => ?_⟩
    cases again
  obtain ⟨taken, middle, receiving, serving, receives, serves, rfl⟩ := found
  cases taken with
  | none =>
      obtain ⟨rfl, _⟩ := serves.ret_cases
      rw [List.append_nil] at received
      have nothing := (receiveRequest_fill _ _ _ _ _ _ _ receives data received).1
      cases nothing
  | some request =>
  have noFill : (⟨.fill .msg data, ()⟩ : Event Sys) ∉ serving := by
    intro member
    have within : (serveRequest co request).Only fun call : Call =>
        call ≠ .fill .msg data := by
      rw [serveRequest_eq]
      refine ⟨by simp, fun _ => Only.bind ?_ fun exec =>
        ⟨by simp, fun _ => ?_⟩⟩
      · refine (executeCommand_only request.conn [] request.code).mono ?_
        rintro call executes rfl
        rcases executes with executes | same
        · exact executes
        · cases same
      · refine (reply_only co request exec).mono ?_
        rintro call replies rfl
        simp [Call.OfReply, Call.OfLogging] at replies
    exact serves.only within _ member rfl
  have early : (⟨.fill .msg data, ()⟩ : Event Sys) ∈ receiving :=
    (List.mem_append.1 received).resolve_right noFill
  obtain ⟨_, rfl⟩ := receiveRequest_fill _ _ _ _ _ _ _ receives data early
  obtain ⟨finds, logs⟩ := serveRequest_tag serves
  exact ⟨(quiet receives).append finds, fun completed tag found =>
    ⟨request, receiving, serving, rfl, logs completed tag found⟩⟩

end Requests

/-- A client that gets its answer. -/
def answeredClient : List (Event Sys) :=
  (requestEvents someConnection (bytes "  X X") (by decide) (by decide)).drop 4 ++
    [⟨.strtok (some .msg) (bytes " "), some (bytes "X")⟩,
      ⟨.mark (.returnExecuteCommand protoErr), ()⟩,
      ⟨.send 7 (bytes "400"), (3 : Int)⟩,
      ⟨.send 7 (bytes "Command not supported."), (22 : Int)⟩,
      ⟨.strtok (some .msg) (bytes " "), some (bytes "X")⟩, ⟨.gettid, (1 : Int)⟩,
      ⟨.time, (-1 : Int)⟩, ⟨.free someConnection, ()⟩, ⟨.close 7, ()⟩]

theorem request_logged_as_dispatched_answered :
    ∃ request receiving serving, answeredClient = receiving ++ serving ∧
      LogsCommand someConnection request (bytes "X") serving := by
  have replayed : (serveConnection .little 5 someConnection).replay Call.after 60
      Script.bare.memory answeredClient = some (some .again) := by
    decide
  obtain ⟨final, run⟩ := Runs.ofReplay Call.answers_of_after 60 replayed
  have received : (⟨.fill .msg (bytes "  X X"), ()⟩ : Event Sys) ∈
      answeredClient := by
    simp [answeredClient, requestEvents, takingEvents]
  exact (request_logged_as_dispatched run received).2 rfl (bytes "X")
    (by decide)

end RemoteCommand
