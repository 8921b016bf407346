import RemoteCommand.AuthenticatedExecution
import RemoteCommand.Interaction.Interleaving

/-!
# Workers that share the save pointer of `strtok`

Every worker has arrays of its own, but the process has one save pointer.  As
long as a call without a source finds the pointer where the last call of the
same worker left it, every worker gets the tokens it would get alone.  Nothing
in the code sees to that, and a worker may execute the command of the client of
another one.
-/

namespace RemoteCommand

open Interaction Machine Prog Transition

variable {ι : Type} [DecidableEq ι]

/-- The memory of the process, by the events of its workers. -/
def processMemory (ι : Type) [DecidableEq ι] :
    System (Strtok (ι × Buffer)) (ι × Event Sys) where
  step memory label := label.2.1.afterAt (label.1, ·) memory label.2.2

/-- The memory of a worker that runs alone. -/
def workerMemory : System (Strtok Buffer) (Event Sys) where
  step memory event := event.1.after memory event.2

/-- `strtok(NULL, …)`: the call goes on where the last one stopped. -/
def Call.continues : Call → Bool
  | .strtok none _ => true
  | _ => false

/-- A call that goes on finds the save pointer in an array of its worker, or
nobody has called `strtok` yet. -/
def Undisturbed (memory : Strtok (ι × Buffer)) (label : ι × Event Sys) :
    Prop :=
  label.2.1.continues = true → ∀ place ∈ memory.save, place.1.1 = label.1

instance (memory : Strtok (ι × Buffer)) (label : ι × Event Sys) :
    Decidable (Undisturbed memory label) :=
  inferInstanceAs (Decidable (_ → _))

/-- What each worker would see of the memory alone.  The save pointer is its
own while it points into no array of another worker. -/
structure Views (memory : Strtok (ι × Buffer))
    (views : ι → Strtok Buffer) : Prop where
  buffer : ∀ worker key,
    memory.buffer (worker, key) = (views worker).buffer key
  save : ∀ worker, (∀ place ∈ memory.save, place.1.1 = worker) →
    memory.save = (views worker).save.map (Prod.map (worker, ·) id)

/-- A step of one worker keeps the views of the others. -/
theorem Views.update {memory next : Strtok (ι × Buffer)}
    {views : ι → Strtok Buffer} {worker : ι} {view : Strtok Buffer}
    (holds : Views memory views)
    (ownBuffers : ∀ key, next.buffer (worker, key) = view.buffer key)
    (ownSave : (∀ place ∈ next.save, place.1.1 = worker) →
      next.save = view.save.map (Prod.map (worker, ·) id))
    (otherBuffers : ∀ other, other ≠ worker → ∀ key,
      next.buffer (other, key) = memory.buffer (other, key))
    (otherSave : next.save = memory.save ∨
      ∃ place, next.save = some place ∧ place.1.1 = worker) :
    Views next (Function.update views worker view) := by
  constructor
  · intro other key
    by_cases same : other = worker
    · subst same
      rw [Function.update_self]
      exact ownBuffers key
    · rw [Function.update_of_ne same, otherBuffers other same]
      exact holds.buffer other key
  · intro other inside
    by_cases same : other = worker
    · subst same
      rw [Function.update_self]
      exact ownSave inside
    · rw [Function.update_of_ne same]
      rcases otherSave with kept | ⟨place, moved, here⟩
      · rw [kept] at inside ⊢
        exact holds.save other inside
      · exact absurd ((inside place moved).symm.trans here) same

theorem Views.step_strtok {memory : Strtok (ι × Buffer)}
    {views : ι → Strtok Buffer} {worker : ι} {source : Option Buffer}
    (holds : Views memory views) (delim : List Byte)
    (aimed : source = none →
      ∀ place ∈ memory.save, place.1.1 = worker) :
    ∃ token after view,
      memory.strtok (source.map (worker, ·)) delim = (token, after) ∧
        (views worker).strtok source delim = (token, view) ∧
          Views after (Function.update views worker view) := by
  obtain ⟨token, after, view, called, alone, sees⟩ :=
    Strtok.strtok_embed (Prod.mk_right_injective worker)
      (holds.buffer worker) source
      (fun noSource => holds.save worker (aimed noSource)) delim
  have frame := memory.strtok_frame (source.map (worker, ·)) delim
  refine ⟨token, after, view, called, alone, ?_⟩
  rw [called] at frame
  cases aim : (source.map (worker, ·)).map (·, 0) <|> memory.save with
  | none =>
      rw [aim] at frame
      cases frame
      exact holds.update sees.buffer (fun _ => sees.save)
        (fun _ _ _ => rfl) (.inl rfl)
  | some place =>
      obtain ⟨⟨owner, key⟩, start⟩ := place
      rw [aim] at frame
      obtain ⟨others, stop, stopped⟩ := frame
      have own : owner = worker := by
        cases source with
        | none => exact aimed rfl _ aim
        | some buffer =>
            cases aim
            rfl
      subst own
      refine holds.update sees.buffer (fun _ => sees.save) ?_
        (.inr ⟨_, stopped, rfl⟩)
      intro other different name
      exact others _ fun same => different (congrArg Prod.fst same)

/-- Undisturbed steps are steps of the worker alone. -/
theorem Views.step {memory next : Strtok (ι × Buffer)}
    {views : ι → Strtok Buffer} {worker : ι} {event : Event Sys}
    (holds : Views memory views)
    (undisturbed : Undisturbed memory (worker, event))
    (stepped : (processMemory ι).step memory (worker, event) = some next) :
    ∃ view, workerMemory.step (views worker) event = some view ∧
      Views next (Function.update views worker view) := by
  obtain ⟨call, response⟩ := event
  have unchanged : Views memory (Function.update views worker (views worker)) := by
    rwa [Function.update_eq_self]
  change call.afterAt (worker, ·) memory response = some next at stepped
  change ∃ view, call.after (views worker) response = some view ∧ _
  cases call with
  | fill buffer chars =>
      cases stepped
      refine ⟨_, rfl, holds.update ?_ ?_ ?_ (.inl rfl)⟩
      · intro key
        by_cases same : key = buffer
        · subst same
          simp [Strtok.load]
        · simp [Strtok.load, same, holds.buffer]
      · exact holds.save worker
      · intro other different key
        simp [Strtok.load, different]
  | contents buffer =>
      simp only [Call.afterAt, Option.ite_none_right_eq_some] at stepped
      obtain ⟨held, same⟩ := stepped
      cases same
      refine ⟨views worker, ?_, unchanged⟩
      simp [Call.afterAt, held, holds.buffer]
  | strtok source delim =>
      have aimed (noSource : source = none) :=
        undisturbed (by rw [noSource]; rfl)
      obtain ⟨token, after, view, called, alone, seen⟩ :=
        holds.step_strtok delim aimed
      simp only [Call.afterAt, called, Option.ite_none_right_eq_some] at stepped
      obtain ⟨rfl, same⟩ := stepped
      cases same
      exact ⟨view, by simp [Call.afterAt, alone], seen⟩
  | _ =>
      cases stepped
      exact ⟨views worker, rfl, unchanged⟩

/-! ## The command of a message -/

/-- The system command that `execute_command` makes of the message in an
array, when nobody else calls `strtok`. -/
def commandIn {κ : Type} [DecidableEq κ] (memory : Strtok κ) (key : κ) :
    Option (List Byte) :=
  match memory.strtok (some key) (bytes " ") with
  | (none, _) => none
  | (some tag, memory) =>
  let argument := (memory.strtok none (bytes "\x00")).1
  if strcmp tag (bytes "LIST") = 0 then
    some (argument.elim listCommand (strcat listCommand))
  else if strcmp tag (bytes "EXEC") = 0 then
    argument
  else if strcmp tag (bytes "SIZE") = 0 then
    argument.map (strcat sizeCommand)
  else
    none

def commandOf (message : List Byte) : Option (List Byte) :=
  commandIn { buffer := fun _ : Unit => message, save := none } ()

/-- The command depends on the array only. -/
theorem commandIn_eq {κ : Type} [DecidableEq κ] (memory : Strtok κ) (key : κ) :
    commandIn memory key = commandOf (memory.buffer key) := by
  have injective : Function.Injective fun _ : Unit => key := fun _ _ _ => rfl
  change commandIn memory key = commandIn (.ofArray (memory.buffer key)) ()
  unfold commandIn
  obtain ⟨tag, _, _, call, alone, sees⟩ :=
    memory.strtok_ofArray key (bytes " ")
  rw [call, alone]
  cases tag with
  | none => rfl
  | some tag =>
  obtain ⟨argument, _, _, call, alone, _⟩ :=
    sees.strtok injective (bytes "\x00")
  simp only [call, alone]

def Call.NoPopen : Call → Prop
  | .popen _ => False
  | _ => True

/-- What follows a token decides about the command. -/
theorem argument_running
    (command : Option (List Byte) → Option (List Byte))
    {next : Option (List Byte) → Prog Sys Outcome}
    (each : ∀ argument, (next argument).Only Call.NoPopen ∨
      ∃ cmd, command argument = some cmd ∧
        (next argument).Only (Call.Running cmd))
    {memory final : Strtok Buffer} {trace : List (Event Sys)}
    {outcome : Option Outcome}
    (run : Runs anyOutcome (.op (.strtok none (bytes "\x00")) next) memory
      trace outcome final) :
    (∀ event ∈ trace, event.1.NoPopen) ∨
      ∃ cmd, command (memory.strtok none (bytes "\x00")).1 = some cmd ∧
        ∀ event ∈ trace, event.1.Running cmd := by
  rcases run.op_cases with ⟨rfl, _⟩ | ⟨argument, _, rest, called, branch, rfl⟩
  · exact .inl (by simp)
  change Strtok.strtok _ _ _ = _ at called
  rw [called]
  rcases each argument with quiet | ⟨cmd, same, running⟩
  · left
    intro event member
    rcases List.mem_cons.1 member with rfl | later
    · trivial
    · exact branch.only quiet event later
  · right
    refine ⟨cmd, same, fun event member => ?_⟩
    rcases List.mem_cons.1 member with rfl | later
    · trivial
    · exact branch.only running event later

/-- A run of `execute_command` runs the command of the message, or none. -/
theorem executeCommand_running {conn : Int} {result code : List Byte}
    {memory final : Strtok Buffer} {trace : List (Event Sys)}
    {outcome : Option Outcome}
    (run : Runs anyOutcome (executeCommand conn result code) memory trace
      outcome final) :
    (∀ event ∈ trace, event.1.NoPopen) ∨
      ∃ cmd, commandOf (memory.buffer .msg) = some cmd ∧
        ∀ event ∈ trace, event.1.Running cmd := by
  rw [← commandIn_eq, commandIn]
  unfold executeCommand at run
  simp only [bind_eq, op_bind, ret_bind, pure_eq] at run
  rcases run.op_cases with ⟨rfl, _⟩ | ⟨tag, middle, rest, called, branch, rfl⟩
  · exact .inl (by simp)
  change Strtok.strtok _ _ _ = _ at called
  rw [called]
  -- The token itself runs nothing; what matters are the events after it.
  suffices (∀ event ∈ rest, event.1.NoPopen) ∨
      ∃ cmd, _ = some cmd ∧ ∀ event ∈ rest, event.1.Running cmd by
    rcases this with quiet | ⟨cmd, same, running⟩
    · exact .inl (List.forall_mem_cons.2 ⟨trivial, quiet⟩)
    · exact .inr ⟨cmd, same, List.forall_mem_cons.2 ⟨trivial, running⟩⟩
  have transfer {program : Prog Sys Outcome}
      (within : program.Only (Call.OfTransfer conn))
      (run : Runs anyOutcome program middle rest outcome final) :
      ∀ event ∈ rest, event.1.NoPopen := by
    refine run.only (within.mono ?_)
    intro call inside
    cases call <;> trivial
  cases tag with
  | none =>
      obtain ⟨rfl, _⟩ := branch.ret_cases
      exact .inl (by simp)
  | some tag =>
  dsimp only at branch ⊢
  by_cases list : strcmp tag (bytes "LIST") = 0
  · rw [if_pos list] at branch ⊢
    refine argument_running (fun argument =>
      some (argument.elim listCommand (strcat listCommand)))
        (fun argument => .inr ?_) branch
    cases argument with
    | none => exact ⟨_, rfl, exec_running _ _⟩
    | some path => exact ⟨_, rfl, exec_running _ _⟩
  rw [if_neg list] at branch ⊢
  by_cases isExec : strcmp tag (bytes "EXEC") = 0
  · rw [if_pos isExec] at branch ⊢
    refine argument_running id (fun argument => ?_) branch
    cases argument with
    | none => exact .inl trivial
    | some command => exact .inr ⟨_, rfl, exec_running _ _⟩
  rw [if_neg isExec] at branch ⊢
  by_cases size : strcmp tag (bytes "SIZE") = 0
  · rw [if_pos size] at branch ⊢
    refine argument_running (Option.map (strcat sizeCommand))
      (fun argument => ?_) branch
    cases argument with
    | none =>
        exact .inl ⟨trivial, fun _ => ⟨fun _ => trivial, fun _ => trivial⟩⟩
    | some filename => exact .inr ⟨_, rfl, exec_running _ _⟩
  rw [if_neg size] at branch ⊢
  left
  by_cases download : strcmp tag (bytes "DOWNLOAD") = 0
  · rw [if_pos download] at branch
    exact transfer (executeDownload_only _ _ _) branch
  rw [if_neg download] at branch
  by_cases upload : strcmp tag (bytes "UPLOAD") = 0
  · rw [if_pos upload] at branch
    exact transfer (executeUpload_only _ _ _) branch
  · rw [if_neg upload] at branch
    obtain ⟨rfl, _⟩ := branch.ret_cases
    simp

/-! ## Whose command a worker executes -/

/-- Every system command is that of the message that came last on the
connection that was taken last. -/
def OwnCommands (trace : List (Event Sys)) : Prop :=
  ∀ before cmd fp after, trace = before ++ ⟨.popen cmd, fp⟩ :: after →
    ∃ co message, (dequeued before).getLast? = some co ∧
      (received co.conn before).getLast? = some (some message) ∧
        commandOf message = some cmd

theorem ownCommands_of_noPopen {trace : List (Event Sys)}
    (none : ∀ event ∈ trace, event.1.NoPopen) : OwnCommands trace := by
  rintro before cmd fp after rfl
  exact absurd (none ⟨.popen cmd, fp⟩ (by simp)) id

theorem OwnCommands.append {first second : List (Event Sys)}
    (left : OwnCommands first) (right : OwnCommands second) :
    OwnCommands (first ++ second) := by
  intro before cmd fp after split
  rcases split_append split with ⟨middle, inFirst⟩ | ⟨middle, rfl, inSecond⟩
  · exact left before cmd fp middle inFirst
  · obtain ⟨co, message, taken, last, command⟩ :=
      right middle cmd fp after inSecond
    refine ⟨co, message, ?_, ?_, command⟩
    · simp [List.getLast?_append, taken]
    · simp [List.getLast?_append, last]

/-- The message of a request is the last that was received, and is in `msg`. -/
theorem receiveRequest_message (host : Endian) (serverToken : BitVec 64)
    (co : Connection) (memory : Strtok Buffer) :
    Ensures anyOutcome (receiveRequest host serverToken co) memory
      fun trace request final => request.isSome →
        (received co.conn trace).getLast? = some (some (final.buffer .msg)) := by
  unfold receiveRequest getIp
  simp only [bind_eq, op_bind, ret_bind, pure_eq]
  refine (ensures_op _ _).2 fun ip _ _ => Ensures.bind ?_
  intro first auth middle _
  refine (ensures_ite _ _ _).2 ⟨fun _ => ?_, fun _ => ?_⟩
  · simp
  refine (ensures_op _ _).2 fun code _ _ => (ensures_op _ _).2 ?_
  intro msg _ _
  cases msg with
  | closed => simp
  | error => simp
  | data chars nonempty fits =>
      refine (ensures_op _ _).2 fun _ after answered => (ensures_ret _).2 ?_
      cases answered
      simp [receivedBy, getConn, Strtok.load, List.getLast?_append]

/-- The command is that of the message in `msg`, and nothing is taken or
received before it is run. -/
theorem serveRequest_running {co : Connection} {request : Request}
    {memory final : Strtok Buffer} {trace : List (Event Sys)}
    {outcome : Option Next}
    (run : Runs anyOutcome (serveRequest co request) memory trace outcome
      final)
    {before after : List (Event Sys)} {cmd : List Byte} {fp : Option File}
    (split : trace = before ++ ⟨.popen cmd, fp⟩ :: after) :
    commandOf (memory.buffer .msg) = some cmd ∧ dequeued before = [] ∧
      ∀ conn, received conn before = [] := by
  rw [serveRequest_eq] at run
  rcases run.op_cases with ⟨rfl, _⟩ | ⟨_, _, rest, answered, serving, rfl⟩
  · simp at split
  cases answered
  obtain ⟨head, before, rfl⟩ :
      ∃ head others, before = head :: others := by
    cases before with
    | nil => cases split
    | cons head others => exact ⟨head, others, rfl⟩
  obtain ⟨rfl, tail⟩ := List.cons.inj split
  -- The call is one of `execute_command`: the reply runs nothing.
  obtain ⟨executing, middle, ended, running, inside⟩ :
      ∃ executing middle ended, (∃ done,
        Runs anyOutcome (executeCommand request.conn [] request.code) memory
          executing done ended) ∧
        executing = before ++ ⟨.popen cmd, fp⟩ :: middle := by
    rcases serving.bind_cases with ⟨_, executing⟩ | found
    · exact ⟨rest, after, final, ⟨none, executing⟩, tail⟩
    · obtain ⟨exec, ended, first, second, executing, replying, rfl⟩ := found
      rcases split_append tail with ⟨middle, inFirst⟩ | ⟨middle, _, inSecond⟩
      · exact ⟨first, middle, ended, ⟨some exec, executing⟩, inFirst⟩
      · exfalso
        have called : (⟨.popen cmd, fp⟩ : Event Sys) ∈ second := by
          simp [inSecond]
        rcases replying.op_cases with ⟨rfl, _⟩ | ⟨_, _, last, _, reply, rfl⟩
        · cases called
        · have inReply : (⟨.popen cmd, fp⟩ : Event Sys) ∈ last := by
            simpa using called
          have within := reply.only (reply_only co request exec) _ inReply
          simp [Call.OfReply, Call.OfLogging] at within
  obtain ⟨done, running⟩ := running
  subst inside
  rcases executeCommand_running running with quiet | ⟨other, command, within⟩
  · exact absurd (quiet ⟨.popen cmd, fp⟩ (by simp)) id
  have same : cmd = other := within ⟨.popen cmd, fp⟩ (by simp)
  subst same
  have noRecv {call : Call} (running : call.Running cmd) : call.NoRecv := by
    cases call <;> trivial
  have early : ∀ event ∈ before, event.1.Running cmd :=
    fun event member => within event (by simp [member])
  refine ⟨command, ?_, fun conn => ?_⟩
  · have nothing : dequeued before = [] := by
      refine entries_eq_nil _ ?_
      rintro ⟨call, response⟩ member
      cases call with
      | dequeue => exact absurd (early _ member) id
      | _ => rfl
    simp [dequeuedBy, nothing]
  · have nothing : received conn before = [] :=
      noRecv_received conn fun event member => noRecv (early event member)
    simp [receivedBy, nothing]

/-- Alone, a worker executes commands of its own clients only. -/
theorem threadIteration_ownCommands {host : Endian} {serverToken : BitVec 64}
    {memory final : Strtok Buffer} {trace : List (Event Sys)}
    {outcome : Option Next}
    (run : Runs anyOutcome (threadIteration host serverToken) memory trace
      outcome final) : OwnCommands trace := by
  have quiet {call : Call} (early : call.BeforeServing) : call.NoPopen := by
    cases call with
    | popen cmd =>
        simp [Call.BeforeServing, Call.OfTaking, Call.OfReceiving,
          Call.OfAuthentication] at early
    | _ => trivial
  rcases threadIteration_cases run with ⟨early, _⟩ | found
  · exact ownCommands_of_noPopen fun event member => quiet (early event member)
  obtain ⟨co, request, memory₁, memory₂, first, second, third, rfl, taking,
    receiving, serving⟩ := found
  have taken := takeConnection_ensures _ _ _ taking.forget
  have requested := receiveRequest_ensures _ _ _ _ _ _ receiving.forget
  have last := receiveRequest_message _ _ _ _ _ _ _ receiving rfl
  intro before cmd fp after split
  rcases split_append split with ⟨middle, inside⟩ | ⟨middle, rfl, inside⟩
  · exfalso
    have called : (⟨.popen cmd, fp⟩ : Event Sys) ∈ first ++ second := by
      simp [inside]
    rcases List.mem_append.1 called with inFirst | inSecond
    · exact taking.only (takeConnection_only.mono fun _ within =>
        quiet (.inl within)) _ inFirst
    · exact receiving.only ((receiveRequest_only _ _ _).mono fun _ within =>
        quiet (.inr ⟨co, within⟩)) _ inSecond
  · obtain ⟨command, noneTaken, noneReceived⟩ :=
      serveRequest_running serving inside
    refine ⟨co, memory₂.buffer .msg, ?_, ?_, command⟩
    · simp [taken.1, requested.1, noneTaken]
    · simp [List.getLast?_append, last, noneReceived]

theorem iterates_ownCommands {host : Endian} {serverToken : BitVec 64}
    {turn : Unit} {memory final : Strtok Buffer}
    {turns : List (List (Event Sys))} {last : List (Event Sys)}
    {outcome : Option Unit}
    (run : Iterates anyOutcome (threadTurn host serverToken) turn memory turns
      last outcome final) :
    OwnCommands (turns.flatten ++ last) := by
  induction run with
  | inside turn =>
      obtain ⟨ending, iteration, _⟩ := threadTurn_run turn
      simpa using threadIteration_ownCommands iteration
  | leave turn =>
      obtain ⟨ending, iteration, _⟩ := threadTurn_run turn
      simpa using threadIteration_ownCommands iteration
  | again turn _ inductionHypothesis =>
      obtain ⟨ending, iteration, _⟩ := threadTurn_run turn
      simpa using (threadIteration_ownCommands iteration).append
        inductionHypothesis

/-- What a worker does alone: its memory answers every `strtok`, and the
commands it executes are those of its own clients. -/
def AsAlone (host : Endian) (serverToken : BitVec 64)
    (memory : Strtok Buffer) (trace : List (Event Sys)) : Prop :=
  (∃ outcome after, Runs anyOutcome (threadExec host serverToken) memory trace
    outcome after) ∧ OwnCommands trace

/-- A process that starts: nobody has called `strtok`. -/
def started {κ : Type} (buffer : κ → List Byte) : Strtok κ :=
  { buffer, save := none }

/-- In every interleaving of workers whose steps are all undisturbed, every
worker gets the tokens it would get alone, and executes the commands of its
own clients. -/
theorem undisturbed_asAlone (host : Endian) (serverToken : BitVec 64)
    (buffer : ι × Buffer → List Byte) (trace : List (ι × Event Sys))
    (run : Interleaving (processMemory ι)
      (fun _ => threadExec host serverToken) (started buffer) trace)
    (undisturbed :
      (processMemory ι).StepsMeet Undisturbed (started buffer) trace)
    (worker : ι) :
    AsAlone host serverToken (started fun key => buffer (worker, key))
      (own worker trace) := by
  have views : Views (started buffer)
      fun worker => started fun key => buffer (worker, key) :=
    ⟨fun _ _ => rfl, fun _ _ => rfl⟩
  obtain ⟨final, possible⟩ := run.possible
  obtain ⟨view, alone⟩ :=
    runs_own Views.step trace views possible undisturbed worker
  obtain ⟨outcome, performed⟩ := run.performs worker
  have asAlone : Runs anyOutcome (threadExec host serverToken)
      (started fun key => buffer (worker, key)) (own worker trace) outcome
        view :=
    performed.inSurroundings Call.answers_of_after alone
  obtain ⟨turns, last, cut, whole⟩ := asAlone.iterates
  exact ⟨⟨outcome, view, asAlone⟩, whole ▸ iterates_ownCommands cut⟩

/-- Recorded traces of the workers give an interleaving. -/
theorem interleaving_ofReplay {trace : List (Bool × Event Sys)} (fuel : Nat)
    (possible :
      ((processMemory Bool).run (started fun _ => []) trace).isSome)
    (performs : ∀ worker, ((threadExec .little 5).replay (fun _ _ _ => some ())
      fuel () (own worker trace)).isSome) :
    Interleaving (processMemory Bool) (fun _ => threadExec .little 5)
      (started fun _ => []) trace where
  possible := Option.isSome_iff_exists.1 possible
  performs worker := by
    obtain ⟨outcome, replayed⟩ := Option.isSome_iff_exists.1 (performs worker)
    exact ⟨outcome, .ofReplayUnconstrained fuel replayed⟩

/-- Two workers whose clients ask for the execution of `a` and of `b`. -/
def twoRequests : List (Bool × Event Sys) :=
  let other : Connection := { someConnection with pointer := 2, conn := 8 }
  (requestEvents someConnection (bytes "EXEC a") (by decide) (by decide)).map
      (fun event => (false, event)) ++
    (requestEvents other (bytes "EXEC b") (by decide) (by decide)).map
      (fun event => (true, event))

/-- One worker gets its tokens behind the other. -/
def turningWorkers : List (Bool × Event Sys) :=
  twoRequests ++
    [(false, ⟨.strtok (some .msg) (bytes " "), some (bytes "EXEC")⟩),
      (false, ⟨.strtok none (bytes "\x00"), some (bytes "a")⟩),
      (true, ⟨.strtok (some .msg) (bytes " "), some (bytes "EXEC")⟩),
      (false, ⟨.popen (bytes "a"), none⟩),
      (true, ⟨.strtok none (bytes "\x00"), some (bytes "b")⟩),
      (true, ⟨.popen (bytes "b"), none⟩)]

theorem undisturbed_asAlone_turningWorkers :
    AsAlone .little 5 (started fun _ => []) (own false turningWorkers) ∧
      AsAlone .little 5 (started fun _ => []) (own true turningWorkers) := by
  have interleaving : Interleaving (processMemory Bool)
      (fun _ => threadExec .little 5) (started fun _ => []) turningWorkers :=
    interleaving_ofReplay 80 (by decide) (by decide)
  have undisturbed : (processMemory Bool).StepsMeet Undisturbed
      (started fun _ => []) turningWorkers := by decide
  exact ⟨undisturbed_asAlone .little 5 (fun _ => []) turningWorkers interleaving
      undisturbed false,
    undisturbed_asAlone .little 5 (fun _ => []) turningWorkers interleaving
      undisturbed true⟩

/-- The second worker cuts off its tag between the two calls of the first. -/
def crossedWorkers : List (Bool × Event Sys) :=
  twoRequests ++
    [(false, ⟨.strtok (some .msg) (bytes " "), some (bytes "EXEC")⟩),
      (true, ⟨.strtok (some .msg) (bytes " "), some (bytes "EXEC")⟩),
      (false, ⟨.strtok none (bytes "\x00"), some (bytes "b")⟩),
      (false, ⟨.popen (bytes "b"), none⟩)]

/-- The first worker executes the command of the second client. -/
theorem crossed_workers_interfere :
    ¬ ∀ trace : List (Bool × Event Sys),
      Interleaving (processMemory Bool) (fun _ => threadExec .little 5)
        (started fun _ => []) trace →
      ∀ worker, AsAlone .little 5 (started fun _ => []) (own worker trace) := by
  intro always
  obtain ⟨⟨outcome, after, alone⟩, _⟩ := always crossedWorkers
    (interleaving_ofReplay 80 (by decide) (by decide)) false
  have possible : workerMemory.run (started fun _ => [])
      (own false crossedWorkers) = some after :=
    alone.surroundings_run Call.after_eq_some_iff.2
  have impossible : (workerMemory.run (started fun _ => [])
      (own false crossedWorkers)).isSome = false := by
    decide
  rw [possible] at impossible
  cases impossible

end RemoteCommand
