import Mathlib.Data.Fintype.Card
import RemoteCommand.Interaction.Fate
import RemoteCommand.WorkerAccount

/-!
# The life of a worker

An iteration of `thread_exec` that took a connection has to close and free it
and go on with the next one.  Three things prevent this: a `send` that raises
SIGPIPE, which the program neither handles nor ignores, the `break` after a
failed `send` of the reply, and a `SIZE` request without a file name, for which
`strcat` gets a `NULL`.  Nothing else does, whatever the client and the calls of
the system do; the answers of `strtok` are arbitrary here, as other threads may
call it in between.
-/

namespace RemoteCommand

open Interaction Machine Prog

/-! ## Marks -/

def sendFailed : Event Sys → Bool
  | ⟨.send _ _, sent⟩ => decide (sent < (0 : Int))
  | _ => false

/-- After `execute_command` returned, a `send` failed. -/
def replyFailed (trace : List (Event Sys)) : Bool :=
  (trace.dropWhile fun event => ! isReturn event).any sendFailed

/-- The first two calls of `strtok` find the tag `SIZE` and no file name. -/
def asksNamelessSize : List (Event Sys) → Bool
  | ⟨.strtok (some .msg) _, some tag⟩ :: ⟨.strtok none _, none⟩ :: _ =>
      decide (strcmp tag (bytes "SIZE") = 0)
  | _ => false

/-- The request that is executed is `SIZE` without a file name. -/
def namelessSize (trace : List (Event Sys)) : Bool :=
  asksNamelessSize (trace.dropWhile fun event => ! isCall event).tail

/-- A `send` to a connection that its client has left may raise SIGPIPE, which
ends the process. -/
def Call.RaisesSigpipe : Call → Prop
  | .send _ _ => True
  | _ => False

/-- A `send` raised SIGPIPE. -/
def brokenPipe {α : Type} : Fate Sys α → Bool
  | .ended _ => true
  | .unfinished | .returned _ => false

/-- The process used a `NULL` argument. -/
def Crashed (trace : List (Event Sys)) : Prop :=
  ⟨.mark .nullArgument, ()⟩ ∈ trace

theorem replyFailed_cons (event : Event Sys) (rest : List (Event Sys)) :
    replyFailed (event :: rest) =
      if isReturn event then (event :: rest).any sendFailed
      else replyFailed rest := by
  cases marked : isReturn event <;> simp [replyFailed, marked]

theorem replyFailed_append {first : List (Event Sys)}
    (unmarked : ∀ event ∈ first, isReturn event = false)
    (rest : List (Event Sys)) :
    replyFailed (first ++ rest) = replyFailed rest := by
  rw [replyFailed, List.dropWhile_append_of_pos, replyFailed]
  intro event member
  simp [unmarked event member]

theorem namelessSize_cons (event : Event Sys) (rest : List (Event Sys)) :
    namelessSize (event :: rest) =
      if isCall event then asksNamelessSize rest else namelessSize rest := by
  cases marked : isCall event <;> simp [namelessSize, marked]

theorem namelessSize_append {first : List (Event Sys)}
    (unmarked : ∀ event ∈ first, isCall event = false)
    (rest : List (Event Sys)) :
    namelessSize (first ++ rest) = namelessSize rest := by
  rw [namelessSize, List.dropWhile_append_of_pos, namelessSize]
  intro event member
  simp [unmarked event member]

theorem asksNamelessSize_of_strcmp_ne {tag : List Byte}
    (other : strcmp tag (bytes "SIZE") ≠ 0) (delim : List Byte)
    (rest : List (Event Sys)) :
    asksNamelessSize (⟨.strtok (some .msg) delim, some tag⟩ :: rest) =
      false := by
  unfold asksNamelessSize
  split
  · rename_i same
    cases same
    exact decide_eq_false other
  · rfl

theorem strcmp_ne_of_size {tag : List Byte}
    (size : strcmp tag (bytes "SIZE") = 0) {name : String}
    (different : cstr (bytes "SIZE") ≠ cstr (bytes name)) :
    strcmp tag (bytes name) ≠ 0 := by
  rw [strcmp_eq_zero_iff] at size
  rw [Ne, strcmp_eq_zero_iff, size]
  exact different

/-- A tag that is `SIZE` gets to the `SIZE` branch. -/
theorem executeCommand_size (conn : Int) (result code : List Byte) :
    executeCommand conn result code =
      .op (.strtok (some .msg) (bytes " ")) fun
        | none => .ret { ret := protoErr, result, code }
        | some tag =>
            if strcmp tag (bytes "SIZE") = 0 then executeSize result
            else if strcmp tag (bytes "LIST") = 0 then executeList result
            else if strcmp tag (bytes "EXEC") = 0 then
              executeExec result code
            else if strcmp tag (bytes "DOWNLOAD") = 0 then
              executeDownload conn result code
            else if strcmp tag (bytes "UPLOAD") = 0 then
              executeUpload conn result code
            else .ret { ret := protoErr
                        result := bytes "Command not supported."
                        code := bytes "400" } := by
  refine congrArg _ (funext fun tag => ?_)
  cases tag with
  | none => rfl
  | some tag =>
  by_cases size : strcmp tag (bytes "SIZE") = 0
  · have notList : strcmp tag (bytes "LIST") ≠ 0 :=
      strcmp_ne_of_size size (by decide)
    have notExec : strcmp tag (bytes "EXEC") ≠ 0 :=
      strcmp_ne_of_size size (by decide)
    simp [size, notList, notExec]
  · simp [size]

theorem executeCommand_completes (conn : Int) (result code : List Byte) :
    Ensures unconstrained (executeCommand conn result code) ()
      fun trace _ _ => ∀ rest, asksNamelessSize (trace ++ rest) = false := by
  rw [executeCommand_size]
  refine (ensures_op _ _).2 fun tag _ _ => ?_
  cases tag with
  | none => exact (ensures_ret _).2 fun rest => rfl
  | some tag =>
  refine (ensures_ite _ _ _).2 ⟨fun _ => ?_, fun other => ?_⟩
  · refine (ensures_op _ _).2 fun filename _ _ => ?_
    cases filename with
    | none => exact (ensures_op _ _).2 fun _ _ _ => ensures_diverge
    | some filename => exact fun _ _ _ _ rest => rfl
  · exact fun _ _ _ _ rest => asksNamelessSize_of_strcmp_ne other _ _

/-- A crash is one of `SIZE` without a file name, and ends everything. -/
theorem executeCommand_crash {conn : Int} {result code : List Byte}
    {trace : List (Event Sys)} {outcome : Option Outcome}
    (run : Runs unconstrained (executeCommand conn result code) () trace
      outcome ())
    (crashed : Crashed trace) :
    outcome = none ∧ asksNamelessSize trace = true := by
  have calm {program : Prog Sys Outcome}
      (within : program.Only (Call.OfExecution conn))
      {rest : List (Event Sys)}
      (run : Runs unconstrained program () rest outcome ()) :
      ¬ Crashed rest :=
    fun member => run.only within _ member
  rw [executeCommand_size] at run
  rcases run.op_cases with ⟨rfl, _⟩ | ⟨tag, _, rest, _, branch, rfl⟩
  · cases crashed
  replace crashed : Crashed rest := by
    simpa [Crashed] using crashed
  cases tag with
  | none =>
      obtain ⟨rfl, _⟩ := branch.ret_cases
      cases crashed
  | some tag =>
  by_cases size : strcmp tag (bytes "SIZE") = 0
  · simp only [size, if_true] at branch
    rcases branch.op_cases with ⟨rfl, _⟩ | ⟨filename, _, last, _, tail, rfl⟩
    · cases crashed
    replace crashed : Crashed last := by
      simpa [Crashed] using crashed
    cases filename with
    | none =>
        rcases tail.op_cases with ⟨rfl, _⟩ | ⟨_, _, after, _, ending, rfl⟩
        · cases crashed
        · exact ⟨ending.diverge_outcome, decide_eq_true size⟩
    | some filename => exact absurd crashed (calm (exec_only _ _ _) tail)
  · simp only [size, if_false] at branch
    refine absurd crashed (calm (.ite (executeList_only _ _) ?_) branch)
    refine .ite (executeExec_only _ _ _) ?_
    refine .ite ((executeDownload_only _ _ _).mono fun _ within =>
      within.execution) ?_
    exact .ite ((executeUpload_only _ _ _).mono fun _ within =>
      within.execution) trivial

def Call.NoMark : Call → Prop
  | .mark _ => False
  | _ => True

theorem noMark_isCall {trace : List (Event Sys)}
    (none : ∀ event ∈ trace, event.1.NoMark) :
    ∀ event ∈ trace, isCall event = false := by
  rintro ⟨call, response⟩ member
  cases call with
  | mark point => exact absurd (none _ member) id
  | _ => rfl

theorem noMark_isReturn {trace : List (Event Sys)}
    (none : ∀ event ∈ trace, event.1.NoMark) :
    ∀ event ∈ trace, isReturn event = false := by
  rintro ⟨call, response⟩ member
  cases call with
  | mark point => exact absurd (none _ member) id
  | _ => rfl

theorem takeConnection_noMark : takeConnection.Only Call.NoMark :=
  takeConnection_only.mono fun call within => by
    cases call <;> trivial

theorem receiveRequest_noMark (host : Endian) (serverToken : BitVec 64)
    (co : Connection) :
    (receiveRequest host serverToken co).Only Call.NoMark :=
  (receiveRequest_only host serverToken co).mono fun call within => by
    cases call <;> simp_all [Call.OfReceiving, Call.OfAuthentication,
      Call.NoMark]

def Call.OfReply (co : Connection) (conn : Int) (call : Call) : Prop :=
  call.OfLogging ∨ (∃ data, call = .send conn data) ∨ call = .free co ∨
    call = .close conn

theorem sendReply_only (conn : Int) (exec : Outcome) :
    (sendReply conn exec).Only fun call : Call =>
      ∃ data, call = .send conn data :=
  ⟨⟨_, rfl⟩, fun _ => .ite trivial ⟨⟨_, rfl⟩, fun _ => .ite trivial trivial⟩⟩

theorem reply_only (co : Connection) (request : Request) (exec : Outcome) :
    (reply co request exec).Only (Call.OfReply co request.conn) := by
  refine ((sendReply_only _ _).mono fun _ => .inr ∘ .inl).bind fun sent => ?_
  cases sent with
  | false => trivial
  | true =>
  refine ⟨.inl trivial, fun tag => ⟨.inl trivial, fun id => ?_⟩⟩
  refine ((logRequest_only _ _ _ _).mono fun _ => Or.inl).bind fun _ => ?_
  exact ⟨.inr (.inr (.inl rfl)), fun _ =>
    ⟨.inr (.inr (.inr rfl)), fun _ => trivial⟩⟩

theorem sendReply_ensures (conn : Int) (exec : Outcome) :
    Ensures unconstrained (sendReply conn exec) () fun trace sent _ =>
      dequeued trace = [] ∧ Kept trace ∧ trace.any sendFailed = !sent := by
  unfold sendReply
  simp only [bind_eq, op_bind, ret_bind, pure_eq]
  refine (ensures_op _ _).2 fun sent _ _ => ?_
  refine (ensures_ite _ _ _).2 ⟨fun failed => ?_, fun succeeded => ?_⟩
  · simp [sendFailed, failed, Kept, dequeuedBy, closedBy, freedBy]
  refine (ensures_op _ _).2 fun sentResult _ _ => ?_
  refine (ensures_ite _ _ _).2 ⟨fun failed => ?_, fun succeededResult => ?_⟩
  · simp [sendFailed, failed, Kept, dequeuedBy, closedBy, freedBy]
  · simp [sendFailed, Kept, dequeuedBy, closedBy, freedBy,
      Int.not_lt.1 succeeded, Int.not_lt.1 succeededResult]

theorem reply_ensures {co : Connection} {request : Request}
    (same : request.conn = co.conn) (exec : Outcome) :
    Ensures unconstrained (reply co request exec) () fun trace next _ =>
      dequeued trace = [] ∧
        match next with
        | .again => Released co trace ∧ trace.any sendFailed = false
        | .leave => Kept trace ∧ trace.any sendFailed = true := by
  refine Ensures.bind ((sendReply_ensures request.conn exec).mono ?_)
  rintro sending sent _ ⟨nothing, ⟨open_, kept⟩, failed⟩
  cases sent with
  | false => simp [nothing, Kept, open_, kept, failed]
  | true =>
  simp only [bind_eq, op_bind, ret_bind, pure_eq]
  refine (ensures_op _ _).2 fun tag _ _ => (ensures_op _ _).2 fun id _ _ => ?_
  refine Ensures.only_bind (logRequest_only _ _ _ _)
    fun logging _ _ inside => ?_
  have logged : Quiet logging :=
    .of fun event member => (inside event member).quiet
  have noSend : ∀ event ∈ logging, sendFailed event = false := by
    rintro ⟨call, response⟩ member
    cases call with
    | send conn data => exact absurd (inside _ member) not_false
    | _ => rfl
  simpa [sendFailed, Released, logged.dequeued, logged.closed, logged.freed,
    dequeuedBy, closedBy, freedBy, nothing, open_, kept, failed, same]
    using fun _ _ _ _ => noSend

theorem serveRequest_eq (co : Connection) (request : Request) :
    serveRequest co request =
      .op (.mark (.callExecuteCommand request.conn)) fun _ =>
        (executeCommand request.conn [] request.code).bind fun exec =>
          .op (.mark (.returnExecuteCommand exec.ret)) fun _ =>
            reply co request exec :=
  rfl

theorem serveRequest_ensures {co : Connection} {request : Request}
    (same : request.conn = co.conn) :
    Ensures unconstrained (serveRequest co request) () fun trace next _ =>
      dequeued trace = [] ∧ namelessSize trace = false ∧
        match next with
        | .again => Released co trace ∧ replyFailed trace = false
        | .leave => Kept trace ∧ replyFailed trace = true := by
  rw [serveRequest_eq]
  refine (ensures_op _ _).2 fun _ _ _ => ?_
  refine Ensures.bind fun executing exec _ run => ?_
  have quiet : Quiet executing :=
    .of fun event member => @Call.OfExecution.quiet request.conn _ <|
      run.only (executeCommand_only _ _ _) event member
  have named (rest : List (Event Sys)) :
      asksNamelessSize (executing ++ rest) = false :=
    executeCommand_completes _ _ _ _ _ _ run rest
  have marked := replyFailed_append quiet.noReturn
  refine (ensures_op _ _).2 fun _ _ _ => ?_
  refine (reply_ensures same exec).mono fun replying next _ replied => ?_
  cases next <;>
    simpa [namelessSize_cons, isCall, named, replyFailed_cons, isReturn,
      marked, Released, Kept, quiet.dequeued, quiet.closed, quiet.freed,
      dequeuedBy, closedBy, freedBy, sendFailed] using replied

theorem serveRequest_crash {co : Connection} {request : Request}
    {trace : List (Event Sys)} {outcome : Option Next}
    (run : Runs unconstrained (serveRequest co request) () trace outcome ())
    (crashed : Crashed trace) :
    outcome = none ∧ namelessSize trace = true := by
  rw [serveRequest_eq] at run
  rcases run.op_cases with ⟨rfl, _⟩ | ⟨_, _, rest, _, serving, rfl⟩
  · cases crashed
  replace crashed : Crashed rest := by
    simpa [Crashed] using crashed
  rcases serving.bind_cases with ⟨stopped, executing⟩ | found
  · have executed := executeCommand_crash executing crashed
    exact ⟨stopped, by simp [namelessSize_cons, isCall, executed.2]⟩
  · obtain ⟨exec, _, first, second, executing, replying, rfl⟩ := found
    exfalso
    rcases List.mem_append.1 crashed with within | after
    · cases (executeCommand_crash executing within).1
    · rcases replying.op_cases with ⟨rfl, _⟩ | ⟨_, _, last, _, tail, rfl⟩
      · cases after
      · replace after : Crashed last := by
          simpa [Crashed] using after
        have within := tail.only (reply_only co request exec) _ after
        simp [Call.OfReply, Call.OfLogging] at within

theorem threadIteration_crash {host : Endian} {serverToken : BitVec 64}
    {trace : List (Event Sys)} {outcome : Option Next}
    (run : Runs unconstrained (threadIteration host serverToken) () trace
      outcome ())
    (crashed : Crashed trace) :
    outcome = none ∧ namelessSize trace = true := by
  have calm {rest : List (Event Sys)}
      (none : ∀ event ∈ rest, event.1.NoMark) : ¬ Crashed rest :=
    fun member => none _ member
  rcases run.bind_cases with ⟨_, taking⟩ | found
  · exact absurd crashed (calm (taking.only takeConnection_noMark))
  obtain ⟨co, _, first, second, taking, inner, rfl⟩ := found
  have first := taking.only takeConnection_noMark
  replace crashed : Crashed second :=
    (List.mem_append.1 crashed).resolve_left (calm first)
  rw [namelessSize_append (noMark_isCall first)]
  cases co with
  | none =>
      obtain ⟨rfl, _⟩ := inner.ret_cases
      cases crashed
  | some co =>
  rcases inner.bind_cases with ⟨_, receiving⟩ | found
  · exact absurd crashed
      (calm (receiving.only (receiveRequest_noMark host serverToken co)))
  obtain ⟨request, _, before, after, receiving, serving, rfl⟩ := found
  have before := receiving.only (receiveRequest_noMark host serverToken co)
  replace crashed : Crashed after :=
    (List.mem_append.1 crashed).resolve_left (calm before)
  rw [namelessSize_append (noMark_isCall before)]
  cases request with
  | none =>
      obtain ⟨rfl, _⟩ := serving.ret_cases
      cases crashed
  | some request => exact serveRequest_crash serving crashed

theorem threadIteration_ensures (host : Endian) (serverToken : BitVec 64) :
    Ensures unconstrained (threadIteration host serverToken) ()
      fun trace next _ => namelessSize trace = false ∧
        match next with
        | .again => replyFailed trace = false ∧
            (dequeued trace = [] ∨
              ∃ co, dequeued trace = [co] ∧ Released co trace)
        | .leave => replyFailed trace = true ∧ Kept trace := by
  unfold threadIteration
  refine Ensures.bind fun first co _ taking => ?_
  have taken := takeConnection_ensures _ _ _ taking
  have unmarked := taking.only takeConnection_noMark
  simp only [namelessSize_append (noMark_isCall unmarked),
    replyFailed_append (noMark_isReturn unmarked)]
  cases co with
  | none => exact (ensures_ret _).2 ⟨rfl, rfl, by simpa using taken⟩
  | some co =>
  refine Ensures.bind fun second request _ receiving => ?_
  have received := receiveRequest_ensures _ _ _ _ _ _ receiving
  have unmarked := receiving.only (receiveRequest_noMark host serverToken co)
  simp only [namelessSize_append (noMark_isCall unmarked),
    replyFailed_append (noMark_isReturn unmarked)]
  obtain ⟨noneTaken, received⟩ := received
  obtain ⟨taken, noneClosed, noneFreed⟩ := taken
  cases request with
  | none =>
      refine (ensures_ret _).2 ⟨rfl, rfl, .inr ⟨co, ?_⟩⟩
      simpa [taken, noneTaken, Released, noneClosed, noneFreed] using received
  | some request =>
  obtain ⟨⟨keptOpen, keptRecord⟩, same⟩ := received
  refine (serveRequest_ensures same).mono fun third next _ served => ?_
  obtain ⟨nothing, named, served⟩ := served
  cases next with
  | again =>
      refine ⟨named, served.2, .inr ⟨co, ?_⟩⟩
      simpa [taken, noneTaken, nothing, Released, noneClosed, noneFreed,
        keptOpen, keptRecord] using served.1
  | leave =>
      refine ⟨named, served.2, ?_⟩
      simpa [Kept, noneClosed, noneFreed, keptOpen, keptRecord] using served.1

/-! ## Iterations and runs -/

/-- A run of a program of the worker, with what became of it. -/
abbrev Meets {α : Type} (program : Prog Sys α) (trace : List (Event Sys))
    (fate : Fate Sys α) : Prop :=
  Fares unconstrained Call.RaisesSigpipe program () trace fate ()

/-- An iteration is over when it has returned, or the process has ended. -/
def Over : Fate Sys Next → List (Event Sys) → Prop
  | .unfinished, trace => Crashed trace
  | .returned _, _ | .ended _, _ => True

/-- The connection was closed and freed, and the loop goes on. -/
def ReleasedAgain (co : Connection) (trace : List (Event Sys))
    (fate : Fate Sys Next) : Prop :=
  Released co trace ∧ fate = .returned .again

theorem iteration_released {host : Endian} {serverToken : BitVec 64}
    {trace : List (Event Sys)} {fate : Fate Sys Next} {co : Connection}
    (meets : Meets (threadIteration host serverToken) trace fate)
    (ended : Over fate trace) (taken : dequeued trace = [co]) :
    ReleasedAgain co trace fate ↔
      brokenPipe fate = false ∧ replyFailed trace = false ∧
        namelessSize trace = false := by
  have run := meets.run
  cases fate with
  | unfinished =>
      simp [ReleasedAgain, (threadIteration_crash run ended).2]
  | ended call => simp [ReleasedAgain, brokenPipe]
  | returned next =>
      obtain ⟨named, finished⟩ := threadIteration_ensures _ _ _ _ _ run
      cases next with
      | again =>
          obtain ⟨replied, none | ⟨other, same, released⟩⟩ := finished
          · rw [taken] at none
            cases none
          · rw [taken] at same
            cases same
            simp [ReleasedAgain, brokenPipe, named, replied, released]
      | leave => simp [ReleasedAgain, finished.1]

/-- A turn of the loop is an iteration. -/
theorem threadTurn_run {σ : Type} {env : Env Sys σ} {host : Endian}
    {serverToken : BitVec 64} {turn : Unit} {state final : σ}
    {trace : List (Event Sys)} {outcome : Option (Unit ⊕ Unit)}
    (run : Runs env (threadTurn host serverToken turn) state trace outcome
      final) :
    ∃ ending, Runs env (threadIteration host serverToken) state trace
        ending final ∧
      (outcome = some (.inl ()) → ending = some .again) ∧
        (outcome = some (.inr ()) → ending = some .leave) := by
  rcases run.bind_cases with ⟨rfl, inside⟩ | found
  · exact ⟨none, inside, by simp, by simp⟩
  · obtain ⟨next, _, first, second, complete, ending, rfl⟩ := found
    refine ⟨some next, ?_, ?_⟩
    · cases next <;>
        · obtain ⟨rfl, rfl, _⟩ := ending.ret_cases
          simpa using complete
    · cases next <;>
        · obtain ⟨_, _, rfl | rfl⟩ := ending.ret_cases <;> simp

/-- The iterations of a run of a worker, and what it is in the middle of. -/
abbrev WorkerRun (host : Endian) (serverToken : BitVec 64)
    (turns : List (List (Event Sys))) (last : List (Event Sys))
    (outcome : Option Unit) : Prop :=
  Iterates unconstrained (threadTurn host serverToken) () () turns last
    outcome ()

theorem iterates_turns_again {host : Endian} {serverToken : BitVec 64}
    {turn state final : Unit} {turns : List (List (Event Sys))}
    {last : List (Event Sys)} {outcome : Option Unit}
    (run : Iterates unconstrained (threadTurn host serverToken) turn state
      turns last outcome final) :
    ∀ turn ∈ turns, Runs unconstrained (threadIteration host serverToken) ()
      turn (some .again) () := by
  induction run with
  | inside => simp
  | leave => simp
  | again turn _ inductionHypothesis =>
      obtain ⟨ending, iteration, goesOn, _⟩ := threadTurn_run turn
      rw [goesOn rfl] at iteration
      simpa [iteration] using inductionHypothesis

theorem iterates_last {host : Endian} {serverToken : BitVec 64}
    {turn state final : Unit} {turns : List (List (Event Sys))}
    {last : List (Event Sys)} {outcome : Option Unit}
    (run : Iterates unconstrained (threadTurn host serverToken) turn state
      turns last outcome final) :
    ∃ ending, Runs unconstrained (threadIteration host serverToken) () last
        ending () ∧
      (outcome.isSome → ending = some .leave) := by
  induction run with
  | inside turn =>
      obtain ⟨ending, iteration, _⟩ := threadTurn_run turn
      exact ⟨ending, iteration, by simp⟩
  | leave turn =>
      obtain ⟨ending, iteration, _, leaves⟩ := threadTurn_run turn
      exact ⟨ending, iteration, fun _ => leaves rfl⟩
  | again _ _ inductionHypothesis => exact inductionHypothesis

theorem WorkerRun.stays {host : Endian} {serverToken : BitVec 64}
    {turns : List (List (Event Sys))} {last : List (Event Sys)}
    {outcome : Option Unit}
    (run : WorkerRun host serverToken turns last outcome)
    (replied : replyFailed last = false) (named : namelessSize last = false) :
    outcome = none ∧ ¬ Crashed last := by
  obtain ⟨ending, iteration, leaves⟩ := iterates_last run
  constructor
  · cases outcome with
    | none => rfl
    | some value =>
        rw [leaves rfl] at iteration
        have ended := threadIteration_ensures _ _ _ _ _ iteration
        rw [ended.2.1] at replied
        cases replied
  · intro crashed
    rw [(threadIteration_crash iteration crashed).2] at named
    cases named

instance (last : List (Event Sys)) : Decidable (Crashed last) :=
  decidable_of_iff
    (last.any fun event => decide (event.1 = .mark .nullArgument)) <| by
    simp only [List.any_eq_true, decide_eq_true_eq, Crashed]
    constructor
    · rintro ⟨⟨call, response⟩, member, rfl⟩
      exact member
    · intro member
      exact ⟨_, member, rfl⟩

/-- No worker has ended the process, by a `NULL` argument or by SIGPIPE. -/
def ProcessLives {n : Nat} (last : Fin n → List (Event Sys))
    (fate : Fin n → Fate Sys Unit) : Prop :=
  ∀ worker, ¬ Crashed (last worker) ∧ brokenPipe (fate worker) = false

instance {n : Nat} (last : Fin n → List (Event Sys))
    (fate : Fin n → Fate Sys Unit) : Decidable (ProcessLives last fate) :=
  inferInstanceAs (Decidable (∀ _, _ ∧ _))

/-- How many of `n` workers are in their loops; none when the process has
ended. -/
def liveWorkers {n : Nat} (last : Fin n → List (Event Sys))
    (fate : Fin n → Fate Sys Unit) : Nat :=
  if ProcessLives last fate then
    (Finset.univ.filter fun worker => (fate worker).outcome = none).card
  else 0

/-- An iteration that took a connection and is over has released it and goes
on exactly when no `send` raised SIGPIPE, no `send` of the reply failed and the
request was not `SIZE` without a file name.  Workers whose iterations are all of
this kind stay in their loops, all `n` of them, and release every connection. -/
theorem worker_releases_iff (host : Endian) (serverToken : BitVec 64) :
    (∀ trace fate co,
      Meets (threadIteration host serverToken) trace fate →
      Over fate trace → dequeued trace = [co] →
        (ReleasedAgain co trace fate ↔
          brokenPipe fate = false ∧ replyFailed trace = false ∧
            namelessSize trace = false)) ∧
    ∀ (n : Nat) (trace : Fin n → List (Event Sys))
      (fate : Fin n → Fate Sys Unit),
      (∀ worker, Meets (threadExec host serverToken) (trace worker)
        (fate worker)) →
      ∃ (turns : Fin n → List (List (Event Sys)))
        (last : Fin n → List (Event Sys)),
        (∀ worker, WorkerRun host serverToken (turns worker) (last worker)
            (fate worker).outcome ∧
          trace worker = (turns worker).flatten ++ last worker) ∧
        ((∀ worker, brokenPipe (fate worker) = false ∧
            replyFailed (last worker) = false ∧
              namelessSize (last worker) = false) →
          liveWorkers last fate = n ∧
            ∀ worker, ∀ turn ∈ turns worker, ∀ co,
              dequeued turn = [co] → Released co turn) := by
  constructor
  · intro trace fate co meets ended taken
    exact iteration_released meets ended taken
  · intro n trace fate meets
    choose turns last cut whole using fun worker => (meets worker).run.iterates
    refine ⟨turns, last, fun worker => ⟨cut worker, whole worker⟩, ?_⟩
    intro fine
    constructor
    · have stays (worker : Fin n) := WorkerRun.stays (cut worker)
        (fine worker).2.1 (fine worker).2.2
      have lives : ProcessLives last fate := fun worker =>
        ⟨(stays worker).2, (fine worker).1⟩
      simp [liveWorkers, lives, fun worker => (stays worker).1]
    · intro worker turn member co taken
      have again := iterates_turns_again (cut worker) turn member
      have ended := threadIteration_ensures _ _ _ _ _ again
      obtain ⟨named, replied, _⟩ := ended
      exact ((iteration_released (.of_run again) trivial taken).2
        ⟨rfl, replied, named⟩).1

/-- A connection of a client. -/
def someConnection : Connection :=
  { pointer := 1, conn := 7, sinAddr := 0, sinPort := 0 }

/-- The events of taking a connection from the queue. -/
def takingEvents (co : Connection) : List (Event Sys) :=
  [⟨.semWait, (0 : Int)⟩, ⟨.mutexLock .connectionsCs, (0 : Int)⟩,
    ⟨.dequeue, some co⟩, ⟨.mutexUnlock .connectionsCs, (0 : Int)⟩,
    ⟨.inetNtop co.sinAddr, none⟩]

/-- A client that closes the connection at once. -/
def silentClient : List (Event Sys) :=
  takingEvents someConnection ++
    [⟨.recv 7 0 4, .closed⟩, ⟨.close 7, ()⟩, ⟨.free someConnection, ()⟩]

theorem worker_releases_iff_silentClient :
    ReleasedAgain someConnection silentClient (.returned .again) :=
  ((worker_releases_iff .little 5).1 silentClient (.returned .again)
    someConnection (.of_run (.ofReplayUnconstrained 20 (by decide))) trivial
    rfl).2 (by decide)

/-- A client that authenticates, and sends a request. -/
def requestEvents (co : Connection) (msg : List Byte) (nonempty : msg ≠ [])
    (fits : msg.length ≤ msgBufferSize) : List (Event Sys) :=
  takingEvents co ++
    [⟨.recv co.conn 0 4, .data (bytes "HELO") (by decide) (by decide)⟩,
      ⟨.send co.conn (bytes "300"), (3 : Int)⟩] ++
    List.replicate 8 ⟨.rand, (0 : BitVec 31)⟩ ++
    [⟨.send co.conn (memoryOf .little (htonll .little 5)), (8 : Int)⟩,
      ⟨.recv co.conn 0 msgBufferSize,
        .data (bytes "AUTH 5 0") (by decide) (by decide)⟩,
      ⟨.fill .response (bytes "AUTH 5 0"), ()⟩,
      ⟨.strtok (some .response) (bytes " "), some (bytes "AUTH")⟩,
      ⟨.strtok none (bytes " "), some (bytes "5")⟩,
      ⟨.strtok none (bytes "\x00"), some (bytes "0")⟩,
      ⟨.send co.conn (bytes "200"), (3 : Int)⟩,
      ⟨.indeterminate, []⟩,
      ⟨.recv co.conn 0 msgBufferSize, .data msg nonempty fits⟩,
      ⟨.fill .msg msg, ()⟩,
      ⟨.mark (.callExecuteCommand co.conn), ()⟩]

/-- The events of logging a request that `strtok` finds this tag in. -/
def loggingEvents (co : Connection) (tag : List Byte) : List (Event Sys) :=
  [⟨.strtok (some .msg) (bytes " "), some tag⟩, ⟨.gettid, (2 : Int)⟩,
    ⟨.time, (0 : Int)⟩, ⟨.localtime 0, some []⟩,
    ⟨.asctime [], some (bytes "now\n")⟩, ⟨.fill .timestamp (bytes "now\n"), ()⟩,
    ⟨.strtok (some .timestamp) (bytes "\n"), some (bytes "now")⟩,
    ⟨.contents .timestamp, bytes "now"⟩, ⟨.logFilename, some (bytes "log")⟩,
    ⟨.mutexLock .logCs, (0 : Int)⟩, ⟨.fopen (bytes "log") (bytes "a"), some 5⟩,
    ⟨.fwrite (bytes "now, PARSING_ERROR, 0, " ++ tag ++ bytes ", t_id: 2 \n") 5,
      tag.length + 34⟩,
    ⟨.fclose 5, ()⟩, ⟨.mutexUnlock .logCs, (0 : Int)⟩, ⟨.free co, ()⟩,
    ⟨.close co.conn, ()⟩]

/-- A client that has a command executed. -/
def servedClient : List (Event Sys) :=
  requestEvents someConnection (bytes "EXEC echo") (by decide) (by decide) ++
    [⟨.strtok (some .msg) (bytes " "), some (bytes "EXEC")⟩,
      ⟨.strtok none (bytes "\x00"), some (bytes "echo")⟩,
      ⟨.popen (bytes "echo"), some 4⟩,
      ⟨.fgets msgBufferSize 4, some ⟨bytes "\n", by decide⟩⟩,
      ⟨.fgets msgBufferSize 4, none⟩, ⟨.pclose 4, (0 : Int)⟩,
      ⟨.mark (.returnExecuteCommand ok), ()⟩,
      ⟨.send 7 (bytes "300"), (3 : Int)⟩,
      ⟨.send 7 (bytes "\n\r\n\r\n"), (5 : Int)⟩] ++
    loggingEvents someConnection (bytes "EXEC")

/-- A client that is gone when the worker sends the code back. -/
def vanishingClient : List (Event Sys) :=
  requestEvents someConnection (bytes "X") (by decide) (by decide) ++
    [⟨.strtok (some .msg) (bytes " "), some (bytes "X")⟩,
      ⟨.mark (.returnExecuteCommand protoErr), ()⟩,
      ⟨.send 7 (bytes "400"), (-1 : Int)⟩]

/-- The worker leaves its loop, and the connection stays open. -/
theorem vanishing_client_leaks :
    ¬ ∀ trace fate co,
      Meets (threadIteration .little 5) trace fate →
      Over fate trace → dequeued trace = [co] →
        ReleasedAgain co trace fate := by
  intro always
  have run : Runs unconstrained (threadIteration .little 5) ()
      vanishingClient (some .leave) () :=
    .ofReplayUnconstrained 60 (by decide)
  have released := always _ _ someConnection (.of_run run) trivial (by decide)
  cases released.2

end RemoteCommand
