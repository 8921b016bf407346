import RemoteCommand.WorkerLife
import RemoteCommand.Client
import RemoteCommand.Interaction.Monitor

/-!
# The streams of a worker and of the client

A monitor for the `FILE` pointers.  A stream is opened while no other is in
use; it is used for what it was opened for, and not behind its `fclose` or
`pclose`.  `execute_command` may return with its file still open: the monitor
then puts it with the streams that nobody will close, and it accepts this only
when a `send` failed or the file reported an error or its end.
-/

namespace RemoteCommand

open Interaction Machine Prog

/-- What a stream was opened for. -/
inductive StreamKind where
  | reading
  | writing
  | pipe
  deriving DecidableEq, Repr

structure StreamUse where
  current : Option (File × StreamKind)
  /-- since `execute_command` was called, a `send` has failed, or a file has
  reported an error or its end -/
  failed : Bool
  /-- left open by `execute_command` -/
  abandoned : List File
  deriving DecidableEq, Repr

namespace StreamUse

def unused : StreamUse where
  current := none
  failed := false
  abandoned := []

def kindOf (mode : List Byte) : StreamKind :=
  if mode = bytes "rb" then .reading else .writing

def opens (use : StreamUse) (stream : File × StreamKind) : Option StreamUse :=
  if use.current = none then some { use with current := some stream }
  else none

def uses (use : StreamUse) (stream : File × StreamKind) : Option StreamUse :=
  if use.current = some stream then some use else none

def closes (use : StreamUse) (stream : File × StreamKind) : Option StreamUse :=
  if use.current = some stream then some { use with current := none }
  else none

def notes (use : StreamUse) (failure : Bool) : StreamUse :=
  { use with failed := use.failed || failure }

/-- `execute_command` returns. -/
def leaves (use : StreamUse) : Option StreamUse :=
  if use.current.isSome = use.failed then
    some
      { current := none
        failed := false
        abandoned := (use.current.map Prod.fst).toList ++ use.abandoned }
  else none

/-- The rule for one event; `fcloses` says which files are closed at all. -/
def step (fcloses : StreamKind → Bool) (use : StreamUse) :
    Event Sys → Option StreamUse
  | ⟨.fopen _ mode, some file⟩ => use.opens (file, kindOf mode)
  | ⟨.popen _, some file⟩ => use.opens (file, .pipe)
  | ⟨.fread _ file, _⟩ => use.uses (file, .reading)
  | ⟨.ferror file, error⟩ =>
      (use.uses (file, .reading)).map (notes · (decide (error ≠ 0)))
  | ⟨.feof file, ended⟩ =>
      (use.uses (file, .reading)).map (notes · (decide (ended ≠ 0)))
  | ⟨.fwrite _ file, _⟩ => use.uses (file, .writing)
  | ⟨.fgets _ file, _⟩ => use.uses (file, .pipe)
  | ⟨.fclose file, _⟩ =>
      match use.current with
      | some (other, kind) =>
          if other = file ∧ fcloses kind then some { use with current := none }
          else none
      | none => none
  | ⟨.pclose file, _⟩ => use.closes (file, .pipe)
  | ⟨.send _ _, sent⟩ => some (use.notes (decide (sent < 0)))
  | ⟨.mark (.callExecuteCommand _), _⟩ => some { use with failed := false }
  | ⟨.mark (.returnExecuteCommand _), _⟩ => use.leaves
  | _ => some use

/-- The monitor of a program that closes the files it can. -/
def monitor (fcloses : StreamKind → Bool) : Monitor Sys StreamUse where
  step := step fcloses

variable {fcloses : StreamKind → Bool} {use : StreamUse} {file : File}

/-! ## Files -/

theorem notes_decide (use : StreamUse) (failure : Prop) [Decidable failure] :
    use.notes (decide failure) = if failure then use.notes true else use := by
  by_cases failed : failure
  · rw [decide_eq_true failed, if_pos failed]
  · rw [decide_eq_false failed, if_neg failed]
    simp only [notes, Bool.or_false]

/-- The loop of the sender fails when it notes a failure. -/
theorem sendLoop_keeps (conn : Int)
    (reads : use.current = some (file, .reading)) :
    (sendLoop conn file).Keeps (monitor fcloses) use fun ret after =>
      after = if ret = ok then use else use.notes true := by
  have used : use.uses (file, .reading) = some use := if_pos reads
  have sending (chars : List Byte) :
      (Prog.op (.send conn chars) fun sent => if sent < 0 then
          .ret (.inr connErr) else .ret (.inl (chars.length : Int))
          : Prog Sys (Int ⊕ Int)).Keeps (monitor fcloses) use
        fun result after => result.elim (fun _ => use = after) fun ret =>
          after = if ret = ok then use else use.notes true := by
    intro sent
    refine ⟨_, congrArg some (use.notes_decide (sent < 0)), ?_⟩
    refine .ite (fun failed => ?_) fun noError => ?_
    · rw [if_pos failed]
      rfl
    · rw [if_neg noError]
      rfl
  have reporting (failure : Prop) [Decidable failure] :
      (use.uses (file, .reading)).map (notes · (decide failure)) =
        some (if failure then use.notes true else use) := by
    rw [used, Option.map_some, notes_decide]
  refine Keeps.iterate (fun _ current => use = current) rfl ?_
  rintro charsRead _ rfl
  refine .ite (fun _ buffer => ⟨_, used, ?_⟩) fun _ => rfl
  refine .ite (fun _ error => ?_) fun _ => sending _
  refine ⟨_, reporting (error ≠ 0), .ite (fun failed => ?_) ?_⟩
  · rw [if_pos failed]
    rfl
  intro noError
  rw [if_neg noError]
  refine fun ended => ⟨_, reporting (ended ≠ 0), .ite (fun failed => ?_) ?_⟩
  · rw [if_pos failed]
    rfl
  intro goesOn
  rw [if_neg goesOn]
  exact sending _

theorem fclose_step {kind : StreamKind} (closable : fcloses kind = true)
    (opened : use.current = some (file, kind)) (event : Unit) :
    (monitor fcloses).step use ⟨.fclose file, event⟩ =
      some { use with current := none } := by
  simp only [monitor, step, opened, closable, and_self, if_true]

/-- The loop of the receiver closes the file when it fails. -/
theorem receiveLoop_keeps (conn : Int) (closable : fcloses .writing = true)
    (writes : use.current = some (file, .writing)) :
    (receiveLoop conn file).Keeps (monitor fcloses) use fun ret after =>
      after = if ret = ok then use else { use with current := none } := by
  have closing := fclose_step closable writes
  refine Keeps.iterate (fun _ current => use = current) rfl ?_
  rintro recvBytes _ rfl
  refine .ite (fun _ chars => ⟨_, rfl, ?_⟩) fun _ => rfl
  cases chars with
  | error => exact fun event => ⟨_, closing event, rfl⟩
  | closed => exact fun event => ⟨_, closing event, rfl⟩
  | data buffer nonempty fits =>
      refine fun written => ⟨_, if_pos writes, .ite (fun _ => ?_) fun _ => rfl⟩
      exact fun event => ⟨_, closing event, rfl⟩

/-! ## Commands -/

/-- The output of a command is read from its pipe, up to its end or to what
fits. -/
theorem readOutput_keeps (result : List Byte)
    (reads : use.current = some (file, .pipe)) :
    (readOutput file result).Keeps (monitor fcloses) use fun _ after =>
      after = use := by
  refine Keeps.iterate (fun _ current => use = current) rfl ?_
  rintro ⟨result, size⟩ _ rfl
  refine fun output => ⟨_, if_pos reads, ?_⟩
  cases output with
  | none => rfl
  | some buffer => exact .ite (fun _ => rfl) fun _ => rfl

theorem exec_keeps (cmd result : List Byte) (idle : use.current = none) :
    (exec cmd result).Keeps (monitor fcloses) use fun _ after =>
      after = use := by
  intro fp
  cases fp with
  | none => exact ⟨_, rfl, rfl⟩
  | some fp =>
  refine ⟨_, if_pos idle, ?_⟩
  change ((readOutput fp result).bind _).Keeps _ _ _
  refine (readOutput_keeps result rfl).seq ?_
  rintro result _ rfl status
  have same : { use with current := none } = use := by
    rw [← idle]
  exact ⟨_, if_pos rfl, .ite (fun _ => same) fun _ => same⟩

/-- A command has released its stream, or it noted a failure and left it
open. -/
def Released (use after : StreamUse) : Prop :=
  after.current.isSome = after.failed ∧ after.abandoned = use.abandoned

theorem released_self (idle : use.current = none)
    (unfailed : use.failed = false) : use.Released use := by
  simp only [Released, idle, unfailed, Option.isSome_none, and_self]

theorem beginTransfer_keeps {conn : Int}
    {name : List Byte → List Byte → List Byte} {mode result code : List Byte}
    {transfer : File → Prog Sys Outcome} (idle : use.current = none)
    (unfailed : use.failed = false)
    (transfers : ∀ file, (transfer file).Keeps (monitor fcloses)
      { use with current := some (file, kindOf mode) }
      fun _ after => use.Released after) :
    (beginTransfer conn name mode result code transfer).Keeps
      (monitor fcloses) use fun _ after => use.Released after := by
  have released := released_self idle unfailed
  refine fun source => ⟨_, rfl, ?_⟩
  cases source with
  | none => exact released
  | some source =>
  refine fun dest => ⟨_, rfl, ?_⟩
  cases dest with
  | none => exact released
  | some dest =>
  intro file
  cases file with
  | none => exact ⟨_, rfl, released⟩
  | some file =>
  refine ⟨_, if_pos idle, fun sent => ⟨_, congrArg some (notes_decide _ _), ?_⟩⟩
  refine .ite (fun failed => ?_) fun noError => ?_
  · rw [if_pos failed]
    exact ⟨by simp only [notes, Bool.or_true, Option.isSome_some], rfl⟩
  · rw [if_neg noError]
    exact transfers file

theorem downloadInto_keeps (conn : Int) (result code : List Byte)
    (closable : fcloses .writing = true) (unfailed : use.failed = false)
    (writes : use.current = some (file, .writing)) :
    (downloadInto conn result code file).Keeps (monitor fcloses) use
      fun _ after => use.Released after := by
  have released : use.Released { use with current := none } :=
    ⟨by simp only [unfailed, Option.isSome_none], rfl⟩
  refine (receiveLoop_keeps conn closable writes).seq ?_
  rintro ret _ rfl
  refine .ite (fun failed => ?_) fun done => ?_
  · rw [if_neg failed]
    exact released
  · rw [if_pos (Decidable.not_not.mp done)]
    exact fun event => ⟨_, fclose_step closable writes event, released⟩

theorem checkReceived_keeps (result code received : List Byte)
    {post : StreamUse → Prop} (holds : post use) :
    (executeUpload.checkReceived result code received).Keeps (monitor fcloses)
      use fun _ after => post after :=
  .ite (fun _ => holds) fun _ => holds

theorem uploadFrom_keeps (conn : Int) (result code : List Byte)
    (closable : fcloses .reading = true) (unfailed : use.failed = false)
    (reads : use.current = some (file, .reading)) :
    (uploadFrom conn result code file).Keeps (monitor fcloses) use
      fun _ after => use.Released after := by
  have released : use.Released { use with current := none } :=
    ⟨by simp only [unfailed, Option.isSome_none], rfl⟩
  refine (sendLoop_keeps conn reads).seq ?_
  rintro ret _ rfl
  refine .ite (fun failed => ?_) fun done => ?_
  · rw [if_neg failed]
    exact ⟨by simp only [notes, reads, Bool.or_true, Option.isSome_some], rfl⟩
  rw [if_pos (Decidable.not_not.mp done)]
  refine fun event => ⟨_, fclose_step closable reads event, ?_⟩
  -- the confirmation of the client; the file is closed
  refine fun stale => ⟨_, rfl, fun answer => ⟨_, rfl, ?_⟩⟩
  cases answer with
  | error => exact released
  | closed => exact checkReceived_keeps _ _ _ released
  | data chars nonempty fits => exact checkReceived_keeps _ _ _ released

theorem executeCommand_keeps (conn : Int) (result code : List Byte)
    (closable : ∀ kind, kind ≠ .pipe → fcloses kind = true)
    (idle : use.current = none) (unfailed : use.failed = false) :
    (executeCommand conn result code).Keeps (monitor fcloses) use
      fun _ after => use.Released after := by
  have released := released_self idle unfailed
  have execs (cmd : List Byte) :
      (exec cmd result).Keeps (monitor fcloses) use
        fun _ after => use.Released after :=
    (exec_keeps cmd result idle).mono fun _ after same => by
      rw [same]
      exact released
  have lists : (executeList result).Keeps (monitor fcloses) use
      fun _ after => use.Released after := by
    refine fun path => ⟨_, rfl, ?_⟩
    cases path <;> exact execs _
  have runs : (executeExec result code).Keeps (monitor fcloses) use
      fun _ after => use.Released after := by
    refine fun command => ⟨_, rfl, ?_⟩
    cases command with
    | none => exact released
    | some command => exact execs _
  have sizes : (executeSize result).Keeps (monitor fcloses) use
      fun _ after => use.Released after := by
    refine fun filename => ⟨_, rfl, ?_⟩
    cases filename with
    | none => exact fun _ => ⟨_, rfl, Keeps.diverge _⟩
    | some filename => exact execs _
  have downloads : (executeDownload conn result code).Keeps (monitor fcloses)
      use fun _ after => use.Released after := by
    rw [executeDownload_begins]
    exact beginTransfer_keeps idle unfailed fun file =>
      downloadInto_keeps conn result code (closable _ (by decide)) unfailed rfl
  have uploads : (executeUpload conn result code).Keeps (monitor fcloses)
      use fun _ after => use.Released after := by
    rw [executeUpload_begins]
    exact beginTransfer_keeps idle unfailed fun file =>
      uploadFrom_keeps conn result code (closable _ (by decide)) unfailed rfl
  refine fun tag => ⟨_, rfl, ?_⟩
  cases tag with
  | none => exact released
  | some tag =>
  exact .ite (fun _ => lists) fun _ => .ite (fun _ => runs) fun _ =>
    .ite (fun _ => sizes) fun _ => .ite (fun _ => downloads) fun _ =>
      .ite (fun _ => uploads) fun _ => released

/-! ## The worker -/

/-- The call opens, uses and closes no stream, and `execute_command` neither
begins nor ends with it. -/
def Call.Streamless : Call → Prop
  | .fopen _ _ | .fread _ _ | .fwrite _ _ | .ferror _ | .feof _ => False
  | .fclose _ | .popen _ | .fgets _ _ | .pclose _ | .mark _ => False
  | _ => True

def Idle (use : StreamUse) : Prop :=
  use.current = none

/-- The same streams are open. -/
def Quiet (use after : StreamUse) : Prop :=
  after.current = use.current ∧ after.abandoned = use.abandoned

theorem streamless_step (current : StreamUse) (call : Call)
    (response : call.Answer) (quiet : use.Quiet current)
    (streamless : Call.Streamless call) :
    ∃ after, (monitor fcloses).step current ⟨call, response⟩ = some after ∧
      use.Quiet after := by
  cases call with
  | send => exact ⟨_, rfl, quiet⟩
  | fopen | fread | fwrite | ferror | feof | fclose | popen | fgets | pclose
  | mark => cases streamless
  | _ => exact ⟨_, rfl, quiet⟩

theorem streamless_keeps {program : Prog Sys α}
    (within : program.Only Call.Streamless) :
    program.Keeps (monitor fcloses) use fun _ after => use.Quiet after :=
  Keeps.of_only streamless_step within ⟨rfl, rfl⟩

theorem takeConnection_keeps :
    takeConnection.Keeps (monitor fcloses) use
      fun _ after => use.Quiet after := by
  refine streamless_keeps (takeConnection_only.mono fun call taking => ?_)
  cases call <;> trivial

theorem receiveRequest_keeps (host : Endian) (serverToken : BitVec 64)
    (co : Connection) :
    (receiveRequest host serverToken co).Keeps (monitor fcloses) use
      fun _ after => use.Quiet after := by
  refine streamless_keeps
    ((receiveRequest_only host serverToken co).mono fun call receiving => ?_)
  rcases receiving with
    authenticating | rfl | rfl | ⟨msg, rfl⟩ | rfl | rfl
  · cases call <;> trivial
  all_goals trivial

theorem getTime_streamless : getTime.Only Call.Streamless := by
  refine ⟨trivial, fun ltime => .ite trivial ⟨trivial, fun tm => ?_⟩⟩
  cases tm with
  | none => trivial
  | some tm =>
  refine ⟨trivial, fun text => ?_⟩
  cases text with
  | none => trivial
  | some text => exact ⟨trivial, fun _ => ⟨trivial, fun _ => trivial⟩⟩

/-- A line of the log is written to a stream of its own. -/
theorem logRequest_keeps (threadId : Int) (ip : List Byte) (port : Int)
    (tag : Option (List Byte)) (closable : fcloses .writing = true)
    (idle : use.Idle) :
    (logRequest threadId ip port tag).Keeps (monitor fcloses) use
      fun _ after => after.Idle := by
  have entering : (enterCs .logCs).Only Call.Streamless :=
    (enterCs_only .logCs).mono fun call same => by rw [same]; trivial
  have leaving : (leaveCs .logCs).Only Call.Streamless :=
    (leaveCs_only .logCs).mono fun call same => by rw [same]; trivial
  refine (streamless_keeps getTime_streamless).seq ?_
  rintro time after ⟨same, _⟩
  replace idle : after.Idle := same.trans idle
  refine .ite (fun _ => ?_) fun _ timestamp => ⟨_, rfl, ?_⟩
  · exact idle
  refine fun filename => ⟨_, rfl, ?_⟩
  cases filename with
  | none => exact idle
  | some filename =>
  change ((enterCs .logCs).bind _).Keeps _ _ _
  refine (streamless_keeps entering).seq ?_
  rintro entered after ⟨same, _⟩
  replace idle : after.Idle := same.trans idle
  refine .ite (fun _ => ?_) fun _ file => ?_
  · exact idle
  cases file with
  | none => exact ⟨_, rfl, idle⟩
  | some file =>
  refine ⟨_, if_pos idle, fun written => ⟨_, if_pos rfl, fun closed => ?_⟩⟩
  refine ⟨_, fclose_step closable rfl closed, ?_⟩
  change ((leaveCs .logCs).bind _).Keeps _ _ _
  exact (streamless_keeps leaving).seq fun left after quiet => quiet.1

theorem sendReply_keeps (conn : Int) (exec : Outcome) :
    (sendReply conn exec).Keeps (monitor fcloses) use
      fun _ after => use.Quiet after := by
  refine streamless_keeps ⟨trivial, fun sent => .ite trivial ?_⟩
  exact ⟨trivial, fun sent => .ite trivial trivial⟩

theorem reply_keeps (co : Connection) (request : Request) (exec : Outcome)
    (closable : fcloses .writing = true) (idle : use.Idle) :
    (reply co request exec).Keeps (monitor fcloses) use
      fun _ after => after.Idle := by
  refine (sendReply_keeps request.conn exec).seq ?_
  rintro sent after ⟨same, _⟩
  replace idle : after.Idle := same.trans idle
  cases sent with
  | false => exact idle
  | true =>
  refine fun tag => ⟨_, rfl, fun threadId => ⟨_, rfl, ?_⟩⟩
  change ((logRequest _ _ _ _).bind _).Keeps _ _ _
  refine (logRequest_keeps _ _ _ _ closable idle).seq fun logged after idle => ?_
  exact fun _ => ⟨_, rfl, fun _ => ⟨_, rfl, idle⟩⟩

theorem serveRequest_keeps (co : Connection) (request : Request)
    (closable : ∀ kind, kind ≠ .pipe → fcloses kind = true)
    (idle : use.Idle) :
    (serveRequest co request).Keeps (monitor fcloses) use
      fun _ after => after.Idle := by
  refine fun _ => ⟨_, rfl, ?_⟩
  change ((executeCommand request.conn [] request.code).bind _).Keeps _ _ _
  have begun : Idle { use with failed := false } := idle
  refine (executeCommand_keeps _ _ _ closable begun rfl).seq ?_
  refine fun exec after released => fun _ => ⟨_, if_pos released.1, ?_⟩
  exact reply_keeps co request exec (closable _ (by decide)) rfl

theorem threadIteration_keeps (host : Endian) (serverToken : BitVec 64)
    (closable : ∀ kind, kind ≠ .pipe → fcloses kind = true)
    (idle : use.Idle) :
    (threadIteration host serverToken).Keeps (monitor fcloses) use
      fun _ after => after.Idle := by
  refine takeConnection_keeps.seq ?_
  rintro co after ⟨same, _⟩
  replace idle : after.Idle := same.trans idle
  cases co with
  | none => exact idle
  | some co =>
  refine (receiveRequest_keeps host serverToken co).seq ?_
  rintro request after ⟨same, _⟩
  replace idle : after.Idle := same.trans idle
  cases request with
  | none => exact idle
  | some request => exact serveRequest_keeps co request closable idle

theorem threadExec_keeps (host : Endian) (serverToken : BitVec 64)
    (closable : ∀ kind, kind ≠ .pipe → fcloses kind = true)
    (idle : use.Idle) :
    (threadExec host serverToken).Keeps (monitor fcloses) use
      fun _ after => after.Idle := by
  refine Keeps.iterate (fun _ current => current.Idle) idle ?_
  intro _ current idle
  refine (threadIteration_keeps host serverToken closable idle).seq ?_
  intro next after idle
  cases next <;> exact idle

/-! ## The account of the streams -/

def opensStream : Event Sys → Nat
  | ⟨.fopen _ _, some _⟩ | ⟨.popen _, some _⟩ => 1
  | _ => 0

def closesStream : Event Sys → Nat
  | ⟨.fclose _, _⟩ | ⟨.pclose _, _⟩ => 1
  | _ => 0

/-- How many streams are open. -/
def stillOpen (use : StreamUse) : Nat :=
  use.current.toList.length + use.abandoned.length

section Account

variable {after : StreamUse} {stream : File × StreamKind}

theorem opens_account (accepted : use.opens stream = some after) :
    use.stillOpen + 1 = after.stillOpen := by
  obtain ⟨idle, same⟩ := Option.ite_none_right_eq_some.mp accepted
  cases same
  simp only [stillOpen, idle, Option.toList_none, Option.toList_some,
    List.length_nil, List.length_singleton]
  omega

theorem uses_account (accepted : use.uses stream = some after) :
    use = after :=
  Option.some.inj (Option.ite_none_right_eq_some.mp accepted).2

theorem reports_account {failure : Bool}
    (accepted : (use.uses stream).map (notes · failure) = some after) :
    use.stillOpen = after.stillOpen := by
  obtain ⟨middle, used, same⟩ := Option.map_eq_some_iff.mp accepted
  cases uses_account used
  cases same
  rfl

/-- A stream that is in use is closed. -/
theorem closed_account (opened : use.current = some stream) :
    use.stillOpen = ({ use with current := none } : StreamUse).stillOpen + 1 := by
  simp only [stillOpen, opened, Option.toList_none, Option.toList_some,
    List.length_nil, List.length_singleton]
  omega

theorem leaves_account (accepted : use.leaves = some after) :
    use.stillOpen = after.stillOpen := by
  obtain ⟨_, same⟩ := Option.ite_none_right_eq_some.mp accepted
  cases same
  cases opened : use.current <;> simp [stillOpen, opened]
  omega

theorem step_account {event : Event Sys}
    (accepted : step fcloses use event = some after) :
    use.stillOpen + opensStream event =
      after.stillOpen + closesStream event := by
  obtain ⟨call, response⟩ := event
  cases call with
  | fopen path mode =>
      cases response with
      | none =>
          cases accepted
          rfl
      | some file => exact opens_account accepted
  | popen cmd =>
      cases response with
      | none =>
          cases accepted
          rfl
      | some file => exact opens_account accepted
  | fread length file =>
      cases uses_account accepted
      rfl
  | fwrite chars file =>
      cases uses_account accepted
      rfl
  | fgets length file =>
      cases uses_account accepted
      rfl
  | ferror file => exact reports_account accepted
  | feof file => exact reports_account accepted
  | fclose file =>
      simp only [step] at accepted
      split at accepted
      · rename_i opened
        obtain ⟨_, same⟩ := Option.ite_none_right_eq_some.mp accepted
        cases same
        exact closed_account opened
      · cases accepted
  | pclose file =>
      obtain ⟨opened, same⟩ := Option.ite_none_right_eq_some.mp accepted
      cases same
      exact closed_account opened
  | mark point =>
      cases point with
      | returnExecuteCommand => exact leaves_account accepted
      | _ =>
          cases accepted
          rfl
  | _ =>
      cases accepted
      rfl

end Account

/-- The streams that were opened are closed or still open. -/
theorem run_account (trace : List (Event Sys)) {after : StreamUse}
    (accepted : (monitor fcloses).run use trace = some after) :
    use.stillOpen + (trace.map opensStream).sum =
      after.stillOpen + (trace.map closesStream).sum := by
  induction trace generalizing use with
  | nil =>
      cases accepted
      rfl
  | cons event trace inductionHypothesis =>
      obtain ⟨middle, first, rest⟩ := ((monitor fcloses).run_cons).mp accepted
      have here := step_account first
      have later := inductionHypothesis rest
      simp only [List.map_cons, List.sum_cons]
      omega

/-- `fclose` is for files, `pclose` for pipes. -/
def closesFiles (kind : StreamKind) : Bool :=
  decide (kind ≠ .pipe)

end StreamUse

open StreamUse in
/-- A worker uses its streams by the rules, in every run of it, and the streams
that it has opened are closed, or it is using them, or they were left open by
an `execute_command` in which a `send` failed or a file reported an error or its
end. -/
theorem worker_streams_accounted {host : Endian} {serverToken : BitVec 64}
    {trace : List (Event Sys)} {outcome : Option Unit}
    (run : Runs unconstrained (threadExec host serverToken) () trace
      outcome ()) :
    ∃ use, (monitor closesFiles).run unused trace = some use ∧
      (trace.map opensStream).sum =
        (trace.map closesStream).sum + use.stillOpen := by
  have closable (kind : StreamKind) (isFile : kind ≠ .pipe) :
      closesFiles kind = true := decide_eq_true isFile
  have idle : unused.Idle := rfl
  obtain ⟨use, accepted, _⟩ :=
    (threadExec_keeps host serverToken closable idle).accepts run
  refine ⟨use, accepted, ?_⟩
  have account := run_account trace accepted
  have nothing : unused.stillOpen = 0 := rfl
  omega

open StreamUse in
/-- The worker opens a pipe and the file of the log, and closes them. -/
theorem worker_streams_accounted_servedClient :
    ∃ use,
      (monitor closesFiles).run unused (servedClient ++ vanishingClient) =
        some use ∧ (servedClient.map opensStream).sum = 2 ∧
      ((servedClient ++ vanishingClient).map opensStream).sum =
        ((servedClient ++ vanishingClient).map closesStream).sum +
          use.stillOpen := by
  have run : Runs unconstrained (threadExec .little 5) ()
      (servedClient ++ vanishingClient) (some ()) () :=
    .ofReplayUnconstrained 120 (by decide)
  obtain ⟨use, accepted, account⟩ := worker_streams_accounted run
  exact ⟨use, accepted, rfl, account⟩

end RemoteCommand
