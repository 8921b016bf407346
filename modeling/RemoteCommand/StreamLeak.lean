import RemoteCommand.StreamUse
import RemoteCommand.TokenSecrecy
import RemoteCommand.TransferSession

/-!
# Streams that stay open

A worker leaves a file open behind every `UPLOAD` that finds the file empty, and
goes on: a client can ask for this as often as it likes.  The client closes the
files that it writes, and never those that it reads.
-/

namespace RemoteCommand

open Interaction Machine Prog StreamUse Transition

/-! ## The worker -/

/-- An iteration behind another one. -/
theorem threadExec_again {σ : Type} {env : Env Sys σ} {host : Endian}
    {serverToken : BitVec 64} {state middle final : σ}
    {first second : List (Event Sys)} {outcome : Option Unit}
    (iteration : Runs env (threadIteration host serverToken) state first
      (some .again) middle)
    (rest : Runs env (threadExec host serverToken) middle second outcome
      final) :
    Runs env (threadExec host serverToken) state (first ++ second) outcome
      final := by
  have turn : Runs env (threadTurn host serverToken ()) state (first ++ [])
      (some (.inl ())) middle := iteration.bind (.ret _ _)
  rw [List.append_nil] at turn
  exact .loop (turn.bind rest)

/-- The request for an upload. -/
def uploadRequest (source dest : Word) : List Byte :=
  bytes "UPLOAD" ++ 32 :: (source.chars ++ 32 :: dest.chars)

/-- The worker leaves the file open and goes on with its next connection. -/
def LeavesOpen (file : File) (trace : List (Event Sys)) : Prop :=
  ∀ use : StreamUse, use.Idle →
    ∃ after, (monitor closesFiles).run use trace = some after ∧ after.Idle ∧
      after.abandoned = file :: use.abandoned

/-- The sender gives up at once when the file is empty. -/
theorem sendLoop_empty_runs (conn : Int) (file : File)
    (memory : Strtok Buffer) :
    Runs anyOutcome (sendLoop conn file) memory
      [⟨.fread msgBufferSize file, ⟨[], Nat.zero_le _⟩⟩,
        ⟨.ferror file, (0 : Int)⟩, ⟨.feof file, (1 : Int)⟩]
      (some intErr) memory := by
  refine .loop ?_
  unfold unroll sendTurn
  rw [if_pos rfl]
  simp only [bind_eq, op_bind, ret_bind, pure_eq]
  refine .op rfl ?_
  simp only [List.length_nil, if_true, op_bind]
  refine .op rfl ?_
  simp only [ne_eq, not_true, if_false, op_bind]
  refine .op rfl ?_
  simp only [one_ne_zero, not_false_eq_true, if_true, ret_bind, Sum.elim_inr]
  exact .ret _ _

/-- The execution of an upload of an empty file. -/
def emptyUpload (conn : Int) (source dest : Word) (file : File) :
    List (Event Sys) :=
  [⟨.strtok (some .msg) (bytes " "), some (bytes "UPLOAD")⟩,
    ⟨.strtok none (bytes " "), some source.chars⟩,
    ⟨.strtok none (bytes " "), some dest.chars⟩,
    ⟨.fopen source.chars (bytes "rb"), some file⟩,
    ⟨.send conn (bytes "200"), (3 : Int)⟩,
    ⟨.fread msgBufferSize file, ⟨[], Nat.zero_le _⟩⟩,
    ⟨.ferror file, (0 : Int)⟩, ⟨.feof file, (1 : Int)⟩]

theorem executeCommand_upload_runs (conn : Int) (result code : List Byte)
    (source dest : Word) (file : File) (memory : Strtok Buffer) :
    ∃ after, Runs anyOutcome (executeCommand conn result code)
      (memory.load .msg (uploadRequest source dest))
      (emptyUpload conn source dest file)
      (some { ret := intErr, result, code }) after := by
  have blank : ∀ byte ∈ cstr (bytes " "), byte = 32 := by decide
  obtain ⟨memory₁, memory₂, memory₃, first, second, third⟩ :=
    Strtok.strtok_words memory Buffer.msg uploadTag source dest blank
  refine ⟨memory₃, ?_⟩
  unfold executeCommand
  simp only [bind_eq, op_bind, ret_bind]
  refine .op first ?_
  dsimp only
  rw [if_neg (by decide), if_neg (by decide), if_neg (by decide),
    if_neg (by decide), if_pos (by decide), executeUpload_begins]
  refine .op second (.op third (.op rfl (.op rfl ?_)))
  dsimp only
  rw [if_neg (show ¬ (3 : Int) < 0 by decide)]
  exact (sendLoop_empty_runs conn file memory₃).bind (.ret _ _)

/-- The answer to it, and the end of the iteration; the clock cannot be
read. -/
def answerUnlogged (co : Connection) (request : Request)
    (tag : Option (List Byte)) : List (Event Sys) :=
  [⟨.mark (.returnExecuteCommand intErr), ()⟩,
    ⟨.send request.conn (cstr request.code), (0 : Int)⟩,
    ⟨.send request.conn (cstr []), (0 : Int)⟩,
    ⟨.strtok (some .msg) (bytes " "), tag⟩, ⟨.gettid, (0 : Int)⟩,
    ⟨.time, (-1 : Int)⟩, ⟨.free co, ()⟩, ⟨.close request.conn, ()⟩]

theorem answerUnlogged_runs (co : Connection) (request : Request)
    {tag : Option (List Byte)} {memory after : Strtok Buffer}
    (parsed : memory.strtok (some .msg) (bytes " ") = (tag, after)) :
    Runs anyOutcome
      (Prog.bind (mark (.returnExecuteCommand intErr)) fun _ =>
        reply co request { ret := intErr, result := [], code := request.code })
      memory (answerUnlogged co request tag) (some .again) after := by
  have logging : Runs anyOutcome
      (logRequest 0 request.ip request.cport tag) after
      [⟨.time, (-1 : Int)⟩] (some intErr) after := by
    refine .op rfl ?_
    dsimp only
    exact .ret _ _
  have sending : Runs anyOutcome (sendReply request.conn
      { ret := intErr, result := [], code := request.code }) memory
      [⟨.send request.conn (cstr request.code), (0 : Int)⟩,
        ⟨.send request.conn (cstr []), (0 : Int)⟩] (some true) memory := by
    refine .op rfl ?_
    dsimp only
    rw [ret_bind, if_neg (by decide)]
    refine .op rfl ?_
    dsimp only
    rw [ret_bind, if_neg (by decide)]
    exact .ret _ _
  refine .op rfl (sending.bind ?_)
  exact .op parsed (.op rfl (logging.bind (.op rfl (.op rfl (.ret _ _)))))

/-- The worker that finds an empty file for an upload leaves it open, answers
and goes on. -/
theorem serveRequest_leaves (co : Connection) (request : Request)
    (source dest : Word) (file : File) (memory : Strtok Buffer) :
    ∃ trace after,
      Runs anyOutcome (serveRequest co request)
        (memory.load .msg (uploadRequest source dest)) trace (some .again)
        after ∧
      LeavesOpen file trace := by
  obtain ⟨memory₁, executing⟩ := executeCommand_upload_runs request.conn []
    request.code source dest file memory
  obtain ⟨tag, memory₂, parsed⟩ : ∃ tag memory₂,
      memory₁.strtok (some Buffer.msg) (bytes " ") = (tag, memory₂) :=
    ⟨_, _, rfl⟩
  have replying := answerUnlogged_runs co request parsed
  refine ⟨⟨.mark (.callExecuteCommand request.conn), ()⟩ ::
    (emptyUpload request.conn source dest file ++
      answerUnlogged co request tag), memory₂, .op rfl ?_, ?_⟩
  · exact executing.bind replying
  · rintro ⟨current, failed, abandoned⟩ idle
    cases idle
    refine ⟨⟨none, false, file :: abandoned⟩, ?_, rfl, rfl⟩
    simp [emptyUpload, answerUnlogged, System.run, monitor, step, opens, uses,
      leaves, notes, kindOf]

theorem takeConnection_runs (co : Connection) (memory : Strtok Buffer) :
    Runs anyOutcome takeConnection memory
      [⟨.semWait, (0 : Int)⟩, ⟨.mutexLock .connectionsCs, (0 : Int)⟩,
        ⟨.dequeue, some co⟩, ⟨.mutexUnlock .connectionsCs, (0 : Int)⟩]
      (some (some co)) memory := by
  unfold takeConnection waitSemaphore enterCs leaveCs
  simp only [bind_eq, op_bind, ret_bind, pure_eq]
  refine .op rfl ?_
  rw [if_neg (by decide)]
  refine .op rfl ?_
  simp only [ne_eq, not_true, if_false, ret_bind]
  refine .op rfl (.op rfl ?_)
  simp only [not_true, if_false, ret_bind]
  exact .ret _ _

/-- A client that knows the token and asks for something. -/
theorem receiveRequest_runs (host : Endian) (serverToken : BitVec 64)
    (co : Connection) {msg : List Byte} (nonempty : msg ≠ [])
    (fits : msg.length ≤ msgBufferSize) (memory : Strtok Buffer) :
    ∃ trace request, ∃ middle : Strtok Buffer,
      Runs anyOutcome (receiveRequest host serverToken co) memory trace
        (some (some request)) (middle.load .msg msg) := by
  obtain ⟨field1, field2, fields, number1, number2⟩ :=
    authFields_authMessage serverToken 0
  have accepts : Accepts serverToken (authMessage serverToken 0) :=
    ⟨field1, field2, fields, by rw [number1, number2]; exact BitVec.xor_zero⟩
  obtain ⟨trace, middle, authenticating, _⟩ :=
    authenticateClient_accepts host co.conn accepts
      (authMessage_length_le _ _) 0 memory
  refine ⟨⟨.inetNtop co.sinAddr, none⟩ :: (trace ++
    [⟨.indeterminate, ([] : List Byte)⟩,
      ⟨.recv co.conn 0 msgBufferSize, .data msg nonempty fits⟩,
      ⟨.fill .msg msg, ()⟩]),
    { conn := co.conn, ip := bytes "PARSING_ERROR", cport := getPort host co,
      code := [] }, middle, .op rfl ?_⟩
  refine authenticating.bind ?_
  dsimp only
  rw [if_neg (by decide)]
  exact .op rfl (.op rfl (.op rfl (.ret _ _)))

/-- What the other parts of an iteration do leaves nothing open. -/
theorem leaves_behind {taking receiving serving : List (Event Sys)}
    {host : Endian} {serverToken : BitVec 64} {co : Connection} {file : File}
    {memory middle after : Strtok Buffer} {request : Request}
    (taken : Runs anyOutcome takeConnection memory taking (some (some co))
      middle)
    (received : Runs anyOutcome (receiveRequest host serverToken co) middle
      receiving (some (some request)) after)
    (leaves : LeavesOpen file serving) :
    LeavesOpen file (taking ++ (receiving ++ serving)) := by
  intro use idle
  obtain ⟨first, accepted, quiet⟩ := takeConnection_keeps.accepts taken
  obtain ⟨current₁, same₁⟩ := quiet _ rfl
  obtain ⟨second, accepted', quiet'⟩ :=
    (receiveRequest_keeps host serverToken co).accepts received
  obtain ⟨current₂, same₂⟩ := quiet' _ rfl
  have idle₂ : second.Idle := current₂.trans (current₁.trans idle)
  obtain ⟨last, accepted'', idle₃, abandons⟩ := leaves second idle₂
  refine ⟨last, ?_, idle₃, by rw [abandons, same₂, same₁]⟩
  rw [System.run_append, accepted, Option.bind_some, System.run_append,
    accepted', Option.bind_some, accepted'']

/-- The worker is at the head of its loop: whatever it does from there is what
it does behind the trace. -/
def AtHead (host : Endian) (serverToken : BitVec 64) (memory : Strtok Buffer)
    (trace : List (Event Sys)) (after : Strtok Buffer) : Prop :=
  ∀ rest outcome final,
    Runs anyOutcome (threadExec host serverToken) after rest outcome final →
    Runs anyOutcome (threadExec host serverToken) memory (trace ++ rest)
      outcome final

/-- An iteration that serves the connection with an upload of an empty file. -/
theorem threadIteration_leaves (host : Endian) (serverToken : BitVec 64)
    (source dest : Word)
    (fits : (uploadRequest source dest).length ≤ msgBufferSize)
    (co : Connection) (file : File) (memory : Strtok Buffer) :
    ∃ trace after,
      Runs anyOutcome (threadIteration host serverToken) memory trace
        (some .again) after ∧
      dequeued trace = [co] ∧ LeavesOpen file trace := by
  have nonempty : uploadRequest source dest ≠ [] :=
    List.ne_nil_of_length_pos (by simp [uploadRequest])
  obtain ⟨taking, taken⟩ : ∃ taking, Runs anyOutcome takeConnection memory
    taking (some (some co)) memory := ⟨_, takeConnection_runs co memory⟩
  obtain ⟨receiving, request, middle, received⟩ :=
    receiveRequest_runs host serverToken co nonempty fits memory
  obtain ⟨serving, after, served, leaves⟩ :=
    serveRequest_leaves co request source dest file middle
  have takes := takeConnection_ensures _ _ _ taken.forget
  have receives := receiveRequest_ensures host serverToken co _ _ _
    received.forget
  have serves := serveRequest_ensures receives.2.2 _ _ _ served.forget
  refine ⟨taking ++ (receiving ++ serving), after,
    taken.bind (received.bind served), ?_, leaves_behind taken received leaves⟩
  simp [takes.1, receives.1, serves.1]

/-- One connection after another asks for an upload of an empty file. -/
theorem threadExec_leaks (host : Endian) (serverToken : BitVec 64)
    (source dest : Word)
    (fits : (uploadRequest source dest).length ≤ msgBufferSize)
    (leaks : List (Connection × File)) (memory : Strtok Buffer)
    {use : StreamUse} (idle : use.Idle) :
    ∃ trace after last,
      AtHead host serverToken memory trace after ∧
      dequeued trace = leaks.map Prod.fst ∧
      (monitor closesFiles).run use trace = some last ∧ last.Idle ∧
      last.abandoned = (leaks.map Prod.snd).reverse ++ use.abandoned := by
  induction leaks generalizing memory use with
  | nil => exact ⟨[], memory, use, fun _ _ _ run => run, rfl, rfl, idle, rfl⟩
  | cons leak leaks inductionHypothesis =>
      obtain ⟨co, file⟩ := leak
      obtain ⟨first, behind, iteration, taken, leaves⟩ :=
        threadIteration_leaves host serverToken source dest fits co file memory
      obtain ⟨middle, accepted, idle₁, abandons⟩ := leaves use idle
      obtain ⟨second, after, last, atHead, takes, accepted', idle₂, abandoned⟩ :=
        inductionHypothesis behind idle₁
      refine ⟨first ++ second, after, last, ?_, ?_, ?_, idle₂, ?_⟩
      · intro rest outcome final run
        rw [List.append_assoc]
        exact threadExec_again iteration (atHead rest outcome final run)
      · simp [taken, takes]
      · rw [System.run_append, accepted, Option.bind_some, accepted']
      · rw [abandoned, abandons]
        simp

/-- A client can make a worker leave as many files open as it likes, and the
worker goes on: for all connections and `FILE` pointers, in any number, there is
a run that takes these connections and is back at the head of the loop, behind
which these files are open and will not be closed.  The last one comes first. -/
theorem worker_leaks (host : Endian) (serverToken : BitVec 64)
    (source dest : Word)
    (fits : (uploadRequest source dest).length ≤ msgBufferSize)
    (leaks : List (Connection × File)) (memory : Strtok Buffer) :
    ∃ trace after,
      Runs anyOutcome (threadExec host serverToken) memory trace none after ∧
      AtHead host serverToken memory trace after ∧
      dequeued trace = leaks.reverse.map Prod.fst ∧
      ∃ use, (monitor closesFiles).run unused trace = some use ∧
        use.current = none ∧ use.abandoned = leaks.map Prod.snd := by
  have idle : unused.Idle := rfl
  obtain ⟨trace, after, use, atHead, taken, accepted, idle, abandoned⟩ :=
    threadExec_leaks host serverToken source dest fits leaks.reverse memory
      idle
  have run := atHead [] none after (.stop _ _)
  rw [List.append_nil] at run
  refine ⟨trace, after, run, atHead, taken, use, accepted, idle, ?_⟩
  rw [abandoned, List.map_reverse, List.reverse_reverse]
  exact List.append_nil _

def emptyFileName : Word where
  chars := bytes "empty"
  nonempty := by decide
  plain := by decide

theorem worker_leaks_two :
    ∃ trace after,
      Runs anyOutcome (threadExec .little 5)
        { buffer := fun _ => [], save := none } trace none after ∧
      AtHead .little 5 { buffer := fun _ => [], save := none } trace after ∧
      dequeued trace = [someConnection, someConnection] ∧
      ∃ use, (monitor closesFiles).run unused trace = some use ∧
        use.current = none ∧ use.abandoned = [21, 22] :=
  worker_leaks .little 5 emptyFileName emptyFileName (by decide)
    [(someConnection, 21), (someConnection, 22)] _

/-! ## The client -/

/-- The client closes the files that it writes. -/
def closesWritten (kind : StreamKind) : Bool :=
  decide (kind = .writing)

theorem authenticateServer_streamless (host : Endian) (conn : Int)
    (serverToken clientToken : BitVec 64) :
    (authenticateServer host conn serverToken clientToken).Only
      Call.Streamless := by
  refine ⟨trivial, fun sent => .ite trivial ⟨trivial, fun code => ?_⟩⟩
  cases code with
  | closed => trivial
  | error => trivial
  | data response nonempty fits =>
  refine .ite trivial (Only.bind ⟨trivial, fun stale => ?_⟩ fun number => ?_)
  · refine ⟨?_, fun nVal => trivial⟩
    rintro ⟨recvBytes, nVal⟩
    refine .ite ⟨trivial, fun response => ?_⟩ trivial
    cases response <;> trivial
  · refine .ite trivial ⟨trivial, fun sent => .ite trivial ?_⟩
    refine ⟨trivial, fun verdict => ?_⟩
    cases verdict with
    | closed => trivial
    | error => trivial
    | data response nonempty fits => exact .ite trivial trivial

theorem receiveReply_streamless (conn : Int) (response code : List Byte) :
    (receiveReply conn response code).Only Call.Streamless := by
  refine ⟨trivial, fun code => ?_⟩
  cases code with
  | closed => trivial
  | error => trivial
  | data chars nonempty fits =>
  refine ⟨trivial, fun result => ?_⟩
  cases result <;> trivial

/-- Nothing is open but a file that is read. -/
def ReadsOnly (use : StreamUse) : Prop :=
  ∀ stream, use.current = some stream → stream.2 = .reading

theorem ReadsOnly.quiet {use after : StreamUse} (reads : ReadsOnly use)
    (quiet : use.Quiet after) : ReadsOnly after :=
  fun stream opened => reads stream (quiet.1.symm.trans opened)

section Client

variable {use : StreamUse}

theorem quiet_keeps {program : Prog Sys Outcome} (reads : ReadsOnly use)
    (within : program.Only Call.Streamless) :
    program.Keeps (monitor closesWritten) use fun _ after => ReadsOnly after :=
  (streamless_keeps within).mono fun _ _ quiet => reads.quiet quiet

theorem readsOnly_idle (idle : use.Idle) : ReadsOnly use :=
  fun stream opened => by
    rw [idle] at opened
    cases opened

theorem handleDownload_keeps (conn : Int) (response code : List Byte)
    (idle : use.Idle) :
    (handleDownload conn response code).Keeps (monitor closesWritten) use
      fun _ after => ReadsOnly after := by
  have nothing := readsOnly_idle idle
  refine .ite (fun _ filename => ⟨_, rfl, ?_⟩) fun _ => nothing
  cases filename with
  | none => exact nothing
  | some filename =>
  intro file
  cases file with
  | none => exact ⟨_, rfl, nothing⟩
  | some file =>
  have reads : ReadsOnly { use with current := some (file, .reading) } := by
    rintro stream opened
    cases opened
    rfl
  refine ⟨_, if_pos idle, ?_⟩
  change ((sendLoop conn file).bind _).Keeps _ _ _
  refine (sendLoop_keeps conn rfl).seq ?_
  rintro ret after same
  have still : ReadsOnly after := by
    rw [same]
    split
    · exact reads
    · exact reads
  exact .ite (fun _ => still) fun _ =>
    quiet_keeps still (receiveReply_streamless conn response code)

theorem handleUpload_keeps (conn : Int) (response code : List Byte)
    (idle : use.Idle) :
    (handleUpload conn response code).Keeps (monitor closesWritten) use
      fun _ after => ReadsOnly after := by
  have nothing := readsOnly_idle idle
  refine .ite (fun _ source => ⟨_, rfl, ?_⟩) fun _ => nothing
  cases source with
  | none => exact nothing
  | some source =>
  refine fun dest => ⟨_, rfl, ?_⟩
  cases dest with
  | none => exact nothing
  | some dest =>
  intro file
  cases file with
  | none => exact ⟨_, rfl, nothing⟩
  | some file =>
  have closed : ReadsOnly { use with current := none } := readsOnly_idle rfl
  have closable : closesWritten .writing = true := by decide
  refine ⟨_, if_pos idle, ?_⟩
  change ((receiveLoop conn file).bind _).Keeps _ _ _
  refine (receiveLoop_keeps conn closable rfl).seq ?_
  rintro ret _ rfl
  refine .ite (fun failed => ?_) fun done => ?_
  · rw [if_neg failed]
    exact closed
  · rw [if_pos (Decidable.not_not.mp done)]
    refine fun event => ⟨_, fclose_step closable rfl event, fun sent => ?_⟩
    refine ⟨_, rfl, .ite (fun _ => closed) fun _ => ?_⟩
    exact quiet_keeps closed (receiveReply_streamless conn response code)

theorem handleResponse_keeps (conn : Int) (response code : List Byte)
    (idle : use.Idle) :
    (handleResponse conn response code).Keeps (monitor closesWritten) use
      fun _ after => ReadsOnly after := by
  have nothing := readsOnly_idle idle
  refine fun received => ⟨_, rfl, ?_⟩
  cases received with
  | closed => exact nothing
  | error => exact nothing
  | data chars nonempty fits =>
  refine fun tag => ⟨_, rfl, ?_⟩
  cases tag with
  | none => exact nothing
  | some tag =>
  refine .ite (fun _ => ?_) fun _ => .ite (fun _ => ?_) fun _ =>
    .ite (fun _ => ?_) fun _ => nothing
  · refine .ite (fun _ result => ⟨_, rfl, ?_⟩) fun _ => nothing
    cases result <;> exact nothing
  · exact handleDownload_keeps conn response _ idle
  · exact handleUpload_keeps conn response _ idle

theorem runCommand_keeps (host : Endian) (conn : Int)
    (serverToken clientToken : BitVec 64) (cmd : List Byte)
    (idle : use.Idle) :
    (runCommand host conn serverToken clientToken cmd).Keeps
      (monitor closesWritten) use fun _ after => ReadsOnly after := by
  refine (streamless_keeps
    (authenticateServer_streamless host conn serverToken clientToken)).seq ?_
  rintro auth after ⟨same, _⟩
  replace idle : after.Idle := same.trans idle
  refine .ite (fun _ _ => ⟨_, rfl, readsOnly_idle idle⟩) fun _ sent => ?_
  refine ⟨_, rfl, .ite (fun _ _ => ⟨_, rfl, readsOnly_idle idle⟩) fun _ _ => ?_⟩
  refine ⟨_, rfl, ?_⟩
  change ((handleResponse conn [] []).bind _).Keeps _ _ _
  have sending : Idle (after.notes (decide (sent < 0))) := idle
  refine (handleResponse_keeps conn [] [] sending).seq ?_
  exact fun handled after reads _ => ⟨_, rfl, reads⟩

end Client

/-! ### What the client leaves open -/

/-- The program has not closed the file. -/
def Open (file : File) (use : StreamUse) : Prop :=
  use.current = some (file, .reading) ∨ file ∈ use.abandoned

section Open

variable {use after : StreamUse} {file : File}

theorem Open.opens {stream : File × StreamKind} (isOpen : Open file use)
    (accepted : use.opens stream = some after) : Open file after := by
  obtain ⟨idle, same⟩ := Option.ite_none_right_eq_some.mp accepted
  cases same
  rcases isOpen with current | abandoned
  · rw [idle] at current
    cases current
  · exact .inr abandoned

theorem Open.closes {stream : File × StreamKind} (isOpen : Open file use)
    (inUse : use.current = some stream) (other : stream.2 ≠ .reading) :
    Open file { use with current := none } := by
  rcases isOpen with current | abandoned
  · rw [inUse] at current
    cases current
    exact absurd rfl other
  · exact .inr abandoned

theorem Open.reports {stream : File × StreamKind} {failure : Bool}
    (isOpen : Open file use)
    (accepted : (use.uses stream).map (notes · failure) = some after) :
    Open file after := by
  obtain ⟨middle, used, same⟩ := Option.map_eq_some_iff.mp accepted
  cases uses_account used
  cases same
  exact isOpen

theorem Open.leaves (isOpen : Open file use)
    (accepted : use.leaves = some after) : Open file after := by
  obtain ⟨_, same⟩ := Option.ite_none_right_eq_some.mp accepted
  cases same
  refine .inr (List.mem_append.mpr ?_)
  rcases isOpen with current | abandoned
  · exact .inl (by simp [current])
  · exact .inr abandoned

/-- Who never closes a file that is read leaves it open. -/
theorem Open.step {event : Event Sys} (isOpen : Open file use)
    (accepted : StreamUse.step closesWritten use event = some after) :
    Open file after := by
  obtain ⟨call, response⟩ := event
  cases call with
  | fopen path mode =>
      cases response with
      | none =>
          cases accepted
          exact isOpen
      | some opened => exact isOpen.opens accepted
  | popen cmd =>
      cases response with
      | none =>
          cases accepted
          exact isOpen
      | some opened => exact isOpen.opens accepted
  | fread | fwrite | fgets =>
      cases uses_account accepted
      exact isOpen
  | ferror | feof => exact isOpen.reports accepted
  | fclose closing =>
      simp only [StreamUse.step] at accepted
      split at accepted
      · rename_i other kind inUse
        obtain ⟨⟨_, written⟩, same⟩ :=
          Option.ite_none_right_eq_some.mp accepted
        cases same
        have isWritten : kind = .writing := of_decide_eq_true written
        refine isOpen.closes inUse fun reading => ?_
        cases isWritten.symm.trans reading
      · cases accepted
  | pclose closing =>
      obtain ⟨inUse, same⟩ := Option.ite_none_right_eq_some.mp accepted
      cases same
      exact isOpen.closes inUse fun same => by cases same
  | mark point =>
      cases point with
      | returnExecuteCommand => exact isOpen.leaves accepted
      | _ =>
          cases accepted
          exact isOpen
  | _ =>
      cases accepted
      exact isOpen

theorem run_opened {trace : List (Event Sys)} {path : List Byte}
    (accepted : (monitor closesWritten).run use trace = some after)
    (opened : ⟨.fopen path (bytes "rb"), some file⟩ ∈ trace) :
    Open file after := by
  induction trace generalizing use with
  | nil => cases opened
  | cons event trace inductionHypothesis =>
      obtain ⟨middle, first, rest⟩ :=
        ((monitor closesWritten).run_cons).mp accepted
      rcases List.mem_cons.mp opened with rfl | later
      · obtain ⟨_, same⟩ := Option.ite_none_right_eq_some.mp first
        cases same
        exact (monitor closesWritten).run_invariant
          (fun isOpen stepped => isOpen.step stepped) trace (.inl rfl) rest
      · exact inductionHypothesis rest later

end Open

/-- The client keeps to the rules for its streams, whatever the server and the
calls do.  It never closes a file that it reads for `DOWNLOAD`, and when `main`
returns nothing else is open. -/
theorem client_streams {host : Endian} {conn : Int}
    {serverToken clientToken : BitVec 64} {cmd : List Byte}
    {trace : List (Event Sys)} {outcome : Option Outcome}
    (run : Runs unconstrained
      (runCommand host conn serverToken clientToken cmd) () trace outcome ()) :
    ∃ use, (monitor closesWritten).run unused trace = some use ∧
      (∀ path file, ⟨.fopen path (bytes "rb"), some file⟩ ∈ trace →
        Open file use) ∧
      (∀ handled, outcome = some handled → ReadsOnly use) := by
  have idle : unused.Idle := rfl
  obtain ⟨use, accepted, returns⟩ :=
    (runCommand_keeps host conn serverToken clientToken cmd idle).accepts run
  exact ⟨use, accepted, fun path file => run_opened accepted, returns⟩

/-- A `recv` of a status code. -/
def codeAnswer (code : List Byte)
    (answers : code ≠ [] ∧ code.length ≤ codeSize) : Received codeSize :=
  .data code answers.1 answers.2

/-- The client sends its file and finds the connection closed. -/
def brokenDownload : List (Event Sys) :=
  [⟨.send 3 (bytes "HELO"), (4 : Int)⟩,
    ⟨.recv 3 0 codeSize, codeAnswer (bytes "300") (by decide)⟩,
    ⟨.indeterminate, []⟩,
    ⟨.recv 3 0 8, .data (List.replicate 8 0) (by decide) (by decide)⟩,
    ⟨.send 3 (bytes "AUTH 0 0"), (8 : Int)⟩,
    ⟨.recv 3 0 codeSize, codeAnswer (bytes "200") (by decide)⟩,
    ⟨.send 3 (bytes "DOWNLOAD a b"), (12 : Int)⟩,
    ⟨.fill .cmd (bytes "DOWNLOAD a b"), ()⟩,
    ⟨.recv 3 0 codeSize, codeAnswer (bytes "200") (by decide)⟩,
    ⟨.strtok (some .cmd) (bytes " "), some (bytes "DOWNLOAD")⟩,
    ⟨.strtok none (bytes " "), some (bytes "a")⟩,
    ⟨.fopen (bytes "a") (bytes "rb"), some 4⟩,
    ⟨.fread msgBufferSize 4, ⟨bytes "x", by decide⟩⟩,
    ⟨.send 3 (bytes "x"), (1 : Int)⟩,
    ⟨.recv 3 0 codeSize, .closed⟩, ⟨.close 3, ()⟩]

theorem client_streams_brokenDownload :
    ∃ use, (monitor closesWritten).run unused brokenDownload = some use ∧
      Open 4 use ∧ ReadsOnly use := by
  have run : Runs unconstrained
      (runCommand .little 3 0 0 (bytes "DOWNLOAD a b")) () brokenDownload
      (some { ret := connErr, result := [], code := bytes "200" }) () :=
    .ofReplayUnconstrained 60 (by decide)
  obtain ⟨use, accepted, opened, returns⟩ := client_streams run
  exact ⟨use, accepted, opened (bytes "a") 4 (by simp [brokenDownload]),
    returns _ rfl⟩

end RemoteCommand
