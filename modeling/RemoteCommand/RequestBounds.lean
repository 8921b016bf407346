import RemoteCommand.CommandArguments
import RemoteCommand.StatusCode

/-!
# The strings that are built from a request

The string in `msg`, the command that `execute_command` assembles and the line
of the log.  Each has an array of `MSG_BUFFER_SIZE` bytes; none of them is
checked.  A request without a `NUL` that fills `msg` is no string, the prefix of
`SIZE` is longer than its name, and the log adds four fields to the name of a
command.
-/

namespace RemoteCommand

open Interaction Machine Prog

/-! ## The line of the log -/

/-- `SMALL_BUFFER_SIZE`. -/
def smallBufferSize : Nat := 32

/-- What `log_request` prints into `message`. -/
def formatMessage (timestamp ip : List Byte) (port : Int)
    (tag : Option (List Byte)) (threadId : Int) : List Byte :=
  cstr timestamp ++ bytes ", " ++ cstr ip ++ bytes ", " ++ decimalInt port ++
    bytes ", " ++ printed tag ++ bytes ", t_id: " ++ decimalInt threadId ++
    bytes " \n"

/-- The part of `log_request` that writes to the log file. -/
def writeLog (message : List Byte) : Prog Sys Int := do
  match ← Call.logFilename.perform with
  | none => return intErr
  | some filename =>
  if (← enterCs .logCs) ≠ ok then
    return intErr
  match ← fopen filename (bytes "a") with
  | none => return intErr
  | some file =>
  let _ ← fwrite message file
  fclose file
  let _ ← leaveCs .logCs
  return ok

theorem logRequest_eq (threadId : Int) (ip : List Byte) (port : Int)
    (tag : Option (List Byte)) :
    logRequest threadId ip port tag =
      getTime.bind fun time =>
        if time ≠ ok then .ret intErr
        else .op (.contents .timestamp) fun timestamp =>
          writeLog (formatMessage timestamp ip port tag threadId) :=
  rfl

/-- What a line of the log has besides the name of the command: two strings in
their arrays and two `int` values. -/
structure LogFields where
  timestamp : List Byte
  ip : List Byte
  port : Int
  threadId : Int
  timestamp_fits : strlen timestamp < smallBufferSize
  ip_fits : strlen ip < smallBufferSize
  port_isInt : intMin ≤ port ∧ port ≤ intMax
  threadId_isInt : intMin ≤ threadId ∧ threadId ≤ intMax

namespace LogFields

def message (log : LogFields) (tag : Option (List Byte)) : List Byte :=
  formatMessage log.timestamp log.ip log.port tag log.threadId

/-- The length of the line without the name of the command. -/
def length (log : LogFields) : Nat :=
  strlen log.timestamp + strlen log.ip + (decimalInt log.port).length +
    (decimalInt log.threadId).length + 16

theorem length_message (log : LogFields) (tag : Option (List Byte)) :
    (log.message tag).length = log.length + (printed tag).length := by
  have comma : (bytes ", ").length = 2 := rfl
  have thread : (bytes ", t_id: ").length = 8 := rfl
  have ending : (bytes " \n").length = 2 := rfl
  unfold message formatMessage length strlen
  simp only [List.length_append, comma, thread, ending]
  omega

theorem length_decimalInt_le {value : Int}
    (isInt : intMin ≤ value ∧ value ≤ intMax) :
    (decimalInt value).length ≤ 11 := by
  have digits : (decimal value.natAbs).length ≤ 10 := by
    refine decimal_length_le (by decide) ?_
    unfold intMin intMax at isInt
    omega
  unfold decimalInt
  split_ifs
  · rw [List.length_append]
    exact Nat.add_le_add (Nat.le_refl 1) digits
  · omega

/-- Four fields are short. -/
theorem length_le (log : LogFields) : log.length ≤ 100 := by
  have timestamp := log.timestamp_fits
  have ip := log.ip_fits
  have port := length_decimalInt_le log.port_isInt
  have threadId := length_decimalInt_le log.threadId_isInt
  unfold smallBufferSize at timestamp ip
  unfold length
  omega

end LogFields

/-! ## The name that is logged -/

theorem executeTag_goesOn (conn : Int) (code tag : List Byte) :
    (executeTag conn code tag).Only Call.GoesOn := by
  refine .ite ⟨rfl, fun path => ?_⟩ (.ite ⟨rfl, fun command => ?_⟩
    (.ite ⟨rfl, fun filename => ?_⟩
      (.ite ((executeDownload_calls conn [] code).mono fun _ => And.right)
        (.ite ((executeUpload_calls conn [] code).mono fun _ => And.right)
          trivial))))
  · cases path <;> exact exec_goesOn _ _
  · cases command with
    | none => trivial
    | some command => exact exec_goesOn _ _
  · cases filename with
    | none => exact ⟨trivial, fun _ => ⟨fun _ => trivial, fun _ => trivial⟩⟩
    | some filename => exact exec_goesOn _ _

/-- Behind the string of an array, a program that goes on leaves the string. -/
theorem run_keeps_string {α : Type} {program : Prog Sys α} {key : Buffer}
    {memory final : Strtok Buffer} {trace : List (Event Sys)}
    {outcome : Option α} {start : Nat}
    (run : Runs anyOutcome program memory trace outcome final)
    (goesOn : program.Only Call.GoesOn)
    (saved : memory.save = some (key, start))
    (behind : (cstr (memory.buffer key)).length ≤ start) :
    cstr (final.buffer key) = cstr (memory.buffer key) := by
  induction run generalizing start with
  | stop => rfl
  | ret => rfl
  | @op call next response memory middle final trace outcome answered rest
      inductionHypothesis =>
      have later := goesOn.2 response
      cases call with
      | strtok source delim =>
          cases goesOn.1
          change memory.strtok none delim = (response, middle) at answered
          obtain ⟨same, stop, savedThere, further⟩ :=
            Strtok.strtok_behind saved behind delim
          rw [answered] at same savedThere
          rw [← same]
          exact inductionHypothesis later savedThere
            (by rw [same]; exact behind.trans further)
      | fill => exact goesOn.1.elim
      | contents =>
          cases answered.2
          exact inductionHypothesis later saved behind
      | _ =>
          cases answered
          exact inductionHypothesis later saved behind
  | loop _ inductionHypothesis =>
      exact inductionHypothesis goesOn.unroll saved behind

/-- The part of `thread_exec` between a request and its line in the log. -/
def answerClient (conn : Int) (code : List Byte) : Prog Sys Bool := do
  let exec ← executeCommand conn [] code
  sendReply conn exec

theorem reply_eq (co : Connection) (request : Request) (exec : Outcome) :
    reply co request exec =
      (sendReply request.conn exec).bind fun sent =>
        match sent with
        | false => .ret .leave
        | true =>
            .op (.strtok (some .msg) (bytes " ")) fun tag =>
              .op .gettid fun threadId =>
                (logRequest threadId request.ip request.cport tag).bind fun _ =>
                  .op (.free co) fun _ =>
                    .op (.close request.conn) fun _ => .ret .again := by
  unfold reply
  rfl

/-- The name that is logged is the first word of the request, whatever has
happened in between. -/
theorem logged_tag {conn : Int} {code data : List Byte}
    {memory final : Strtok Buffer} {trace : List (Event Sys)} {sent : Bool}
    (loaded : memory.buffer .msg = data)
    (run : Runs anyOutcome (answerClient conn code) memory trace (some sent)
      final) :
    (final.strtok (some .msg) (bytes " ")).1 = tagOf data := by
  rw [answerClient, executeCommand_eq, bind_eq, op_bind] at run
  rcases run.op_cases with ⟨_, unfinished, _⟩ | found
  · cases unfinished
  obtain ⟨tag, middle, rest, answered, inner, _⟩ := found
  change memory.strtok (some .msg) (bytes " ") = (tag, middle) at answered
  obtain ⟨alone, stop, saved, behind⟩ := memory.strtok_first .msg (bytes " ")
  rw [answered] at alone saved behind
  have goesOn : ((executeToken conn code tag).bind (sendReply conn)).Only
      Call.GoesOn := by
    refine Only.bind ?_ fun exec =>
      ⟨trivial, fun _ => .ite trivial ⟨trivial, fun _ => .ite trivial trivial⟩⟩
    cases tag with
    | none => trivial
    | some tag => exact executeTag_goesOn conn code tag
  have kept := run_keeps_string inner goesOn saved behind
  rw [Strtok.strtok_token, kept, alone, tagOf_eq loaded, answered]
  cases tag <;> rfl

/-! ## The commands that are run -/

/-- The name and the argument are parts of the string in `msg`. -/
theorem length_fields_le {data tag argument delim : List Byte}
    (found : fields data [bytes " ", delim] = [some tag, some argument]) :
    tag.length + 1 + argument.length ≤ strlen data := by
  obtain ⟨skipped, word, behind, after, rest, cuts, called, there, left⟩ :=
    @Strtok.strtok_cuts Unit _ { Strtok.ofArray data with save := some ((), 0) }
      () [] data ⟨rfl, rfl⟩ (bytes " ")
  obtain ⟨skips, second, more, last, others, cutsAgain, calledAgain, _⟩ :=
    Strtok.strtok_cuts there delim
  simp only [fields, Strtok.tokens, Strtok.strtok_source, called, calledAgain,
    List.cons.injEq, and_true, Option.ite_none_left_eq_some,
    Option.some.injEq] at found
  obtain ⟨⟨_, rfl⟩, some_second, rfl⟩ := found
  have string := congrArg List.length cuts.whole
  have remainder := congrArg List.length cutsAgain.whole
  rw [left] at remainder
  have further := List.length_pos_of_ne_nil some_second
  simp only [List.length_append, List.length_tail] at string remainder
  unfold strlen
  omega

/-- The commands that `execute_command` can assemble from a request. -/
inductive Assembles (data : List Byte) : List Byte → Prop
  | all : Assembles data listCommand
  | list {tag path : List Byte} :
      fields data [bytes " ", bytes "\x00"] = [some tag, some path] →
      strcmp tag (bytes "LIST") = 0 →
      Assembles data (strcat listCommand path)
  | exec {tag command : List Byte} :
      fields data [bytes " ", bytes "\x00"] = [some tag, some command] →
      strcmp tag (bytes "EXEC") = 0 → Assembles data command
  | size {tag filename : List Byte} :
      fields data [bytes " ", bytes "\x00"] = [some tag, some filename] →
      strcmp tag (bytes "SIZE") = 0 →
      Assembles data (strcat sizeCommand filename)

section Commands

variable {σ : Type} {env : Env Sys σ} {α : Type} {conn : Int}
  {code data cmd : List Byte} {fp : Option File} {trace : List (Event Sys)}

theorem popen_exec {state final : σ} {given : List Byte}
    {outcome : Option Outcome}
    (run : Runs env (exec given []) state trace outcome final)
    (started : ⟨.popen cmd, fp⟩ ∈ trace) : cmd = given :=
  run.only (exec_running given []) _ started

/-- Behind the name there is a call of `strtok`, and then the rest. -/
theorem popen_argument {memory final : Strtok Buffer} {delim : List Byte}
    {next : Option (List Byte) → Prog Sys α} {outcome : Option α}
    (run : Runs anyOutcome (.op (.strtok none delim) next) memory trace outcome
      final)
    (started : ⟨.popen cmd, fp⟩ ∈ trace) :
    ∃ argument after rest,
      memory.strtok none delim = (argument, after) ∧
        Runs anyOutcome (next argument) after rest outcome final ∧
        ⟨.popen cmd, fp⟩ ∈ rest := by
  rcases run.op_cases with ⟨rfl, _, _⟩ | found
  · cases started
  · obtain ⟨argument, after, rest, answered, inner, rfl⟩ := found
    rcases List.mem_cons.1 started with same | later
    · cases same
    · exact ⟨argument, after, rest, answered, inner, later⟩

/-- Whatever is run has been assembled. -/
theorem popen_assembles {memory final : Strtok Buffer}
    {outcome : Option Outcome} (loaded : memory.buffer .msg = data)
    (run : Runs anyOutcome (executeCommand conn [] code) memory trace outcome
      final)
    (started : ⟨.popen cmd, fp⟩ ∈ trace) : Assembles data cmd := by
  have both := fields_eq loaded [bytes " ", bytes "\x00"]
  rw [executeCommand_eq] at run
  rcases run.op_cases with ⟨rfl, _, _⟩ | found
  · cases started
  obtain ⟨tag, middle, rest, answered, inner, rfl⟩ := found
  change memory.strtok (some .msg) (bytes " ") = (tag, middle) at answered
  simp only [Strtok.tokens, answered] at both
  rcases List.mem_cons.1 started with same | later
  · cases same
  cases tag with
  | none =>
      rw [(inner.ret_cases).1] at later
      cases later
  | some tag =>
  rw [executeToken, executeTag] at inner
  split_ifs at inner with isList isExec isSize
  · obtain ⟨path, after, rest, called, inner, later⟩ :=
      popen_argument inner later
    rw [called] at both
    cases path with
    | none => exact popen_exec inner later ▸ .all
    | some path => exact popen_exec inner later ▸ .list both isList
  · obtain ⟨command, after, rest, called, inner, later⟩ :=
      popen_argument inner later
    rw [called] at both
    cases command with
    | none =>
        rw [(inner.ret_cases).1] at later
        cases later
    | some command => exact popen_exec inner later ▸ .exec both isExec
  · obtain ⟨filename, after, rest, called, inner, later⟩ :=
      popen_argument inner later
    rw [called] at both
    cases filename with
    | none =>
        have noPopen : (.op (Call.mark .nullArgument) fun _ => .diverge :
            Prog Sys Outcome).Only fun call => call = Call.mark .nullArgument :=
          ⟨rfl, fun _ => ⟨fun _ => trivial, fun _ => trivial⟩⟩
        cases inner.only noPopen _ later
    | some filename => exact popen_exec inner later ▸ .size both isSize
  · exact (inner.only (executeDownload_only conn [] code) _ later).elim
  · exact (inner.only (executeUpload_only conn [] code) _ later).elim
  · rw [(inner.ret_cases).1] at later
    cases later

end Commands

/-! ## Requests that fit -/

/-- `msg` holds a string, and everything that is built from it fits in its
array: what `popen` gets, and the line of the log. -/
structure RequestFits (data : List Byte) (log : LogFields) : Prop where
  terminated : 0 ∈ data ++ List.replicate (msgBufferSize - data.length) 0
  command : ∀ {conn code memory trace outcome final cmd fp},
    memory.buffer .msg = data →
    Runs anyOutcome (executeCommand conn [] code) memory trace outcome final →
    ⟨.popen cmd, fp⟩ ∈ trace → cmd.length < msgBufferSize
  message : ∀ {conn code memory trace final},
    memory.buffer .msg = data →
    Runs anyOutcome (answerClient conn code) memory trace (some true) final →
    (log.message (final.strtok (some .msg) (bytes " ")).1).length <
      msgBufferSize

/-- The request does not fill `msg` without a `NUL`, a file name behind `SIZE`
leaves room for the prefix, and the name of the command for the rest of the
line. -/
structure RequestShort (data : List Byte) (log : LogFields) : Prop where
  string : data.length < msgBufferSize ∨ 0 ∈ data
  size : ∀ filename,
    fields data [bytes " ", bytes "\x00"] =
        [some (bytes "SIZE"), some filename] →
      sizeCommand.length + filename.length < msgBufferSize
  tag : ∀ tag, tagOf data = some tag →
    log.length + tag.length < msgBufferSize

section Fits

variable {data : List Byte} {log : LogFields}

theorem length_strcat_le (first second : List Byte) :
    (strcat first second).length ≤ first.length + second.length := by
  rw [strcat, List.length_append]
  exact Nat.add_le_add (List.takeWhile_prefix _).length_le
    (List.takeWhile_prefix _).length_le

theorem zero_notMem_tagOf {tag : List Byte} (found : tagOf data = some tag) :
    0 ∉ tag := by
  unfold tagOf at found
  exact Strtok.zero_notMem_token (Prod.ext found rfl)

theorem zero_notMem_argument {tag argument delim : List Byte}
    (found : fields data [bytes " ", delim] = [some tag, some argument]) :
    0 ∉ argument := by
  simp only [fields, Strtok.tokens, List.cons.injEq, and_true] at found
  exact Strtok.zero_notMem_token (Prod.ext found.2 rfl)

theorem strlen_lt (received : data.length ≤ msgBufferSize)
    (string : data.length < msgBufferSize ∨ 0 ∈ data) :
    strlen data < msgBufferSize := by
  have isPrefix : cstr data <+: data := List.takeWhile_prefix _
  refine lt_of_le_of_ne (isPrefix.length_le.trans received) fun full => ?_
  have whole : cstr data = data := by
    refine isPrefix.eq_of_length_le ?_
    exact received.trans full.ge
  rcases string with short | inside
  · rw [← whole] at short
    exact absurd full short.ne
  · exact zero_notMem_cstr data (whole.symm ▸ inside)

theorem terminated_iff :
    0 ∈ data ++ List.replicate (msgBufferSize - data.length) 0 ↔
      data.length < msgBufferSize ∨ 0 ∈ data := by
  rw [List.mem_append, List.mem_replicate, or_comm]
  have room : msgBufferSize - data.length ≠ 0 ↔ data.length < msgBufferSize :=
    Nat.sub_ne_zero_iff_lt
  simp [room]

/-- What is assembled from a short request fits. -/
theorem Assembles.fits {cmd : List Byte} (assembles : Assembles data cmd)
    (received : data.length ≤ msgBufferSize) (short : RequestShort data log) :
    cmd.length < msgBufferSize := by
  have string := strlen_lt received short.string
  have plain {tag argument : List Byte}
      (found : fields data [bytes " ", bytes "\x00"] =
        [some tag, some argument]) : 0 ∉ tag :=
    zero_notMem_tagOf (List.cons.inj found).1
  cases assembles with
  | all => decide
  | @list tag path found isList =>
      have parts := length_fields_le found
      rw [eq_of_strcmp isList (plain found) (by decide)] at parts
      have joined := length_strcat_le listCommand path
      have lengths : listCommand.length ≤ (bytes "LIST").length := by decide
      exact (joined.trans (by omega)).trans_lt string
  | exec found isExec =>
      have parts := length_fields_le found
      omega
  | size found isSize =>
      rw [eq_of_strcmp isSize (plain found) (by decide)] at found
      exact (length_strcat_le _ _).trans_lt (short.size _ found)

/-- The memory of a thread that has just received a request. -/
def receivedIn (data : List Byte) : Strtok Buffer :=
  Script.bare.memory.load .msg data

theorem receivedIn_msg (data : List Byte) :
    (receivedIn data).buffer .msg = data := by
  simp [receivedIn, Strtok.load]

/-- The server runs `stat` for any file name. -/
theorem popen_size {filename : List Byte}
    (found : fields data [bytes " ", bytes "\x00"] =
      [some (bytes "SIZE"), some filename]) :
    ∃ trace final,
      Runs anyOutcome (executeCommand 0 [] []) (receivedIn data) trace none
          final ∧
        ⟨.popen (strcat sizeCommand filename), none⟩ ∈ trace := by
  rw [fields_eq (receivedIn_msg data)] at found
  simp only [Strtok.tokens, List.cons.injEq, and_true] at found
  let first := ((receivedIn data).strtok (some .msg) (bytes " ")).2
  let second := (first.strtok none (bytes "\x00")).2
  have isSize : executeTag 0 [] (bytes "SIZE") = executeSize [] := by
    unfold executeTag
    rw [if_neg (by decide), if_neg (by decide), if_pos (by decide)]
  refine ⟨[⟨.strtok (some .msg) (bytes " "), some (bytes "SIZE")⟩,
    ⟨.strtok none (bytes "\x00"), some filename⟩,
    ⟨.popen (strcat sizeCommand filename), none⟩], second, ?_, by simp⟩
  rw [executeCommand_eq]
  refine .op (Prod.ext found.1 rfl : _ = (_, first)) ?_
  rw [executeToken, isSize]
  refine .op (Prod.ext found.2 rfl : _ = (_, second)) (.op rfl (.stop _ _))

/-- A command that is not known is answered, and then logged. -/
theorem logs_unknown {tag : List Byte} (found : tagOf data = some tag)
    (unknown : ∀ name ∈ commandTags, tag ≠ name.chars) :
    ∃ trace final,
      Runs anyOutcome (answerClient 0 []) (receivedIn data) trace (some true)
        final := by
  have plain := zero_notMem_tagOf found
  rw [tagOf_eq (receivedIn_msg data)] at found
  have different (name : Word) (member : name ∈ commandTags) :
      strcmp tag name.chars ≠ 0 := fun isTag =>
    unknown name member (eq_of_strcmp isTag plain fun inside =>
      (name.plain 0 inside).1 rfl)
  have noList := different listTag (by simp [commandTags])
  have noExec := different execTag (by simp [commandTags])
  have noSize := different sizeTag (by simp [commandTags])
  have noDownload := different downloadTag (by simp [commandTags])
  have noUpload := different uploadTag (by simp [commandTags])
  have refused : executeTag 0 [] tag =
      .ret { ret := protoErr, result := bytes "Command not supported."
             code := bytes "400" } :=
    (if_neg noList).trans ((if_neg noExec).trans ((if_neg noSize).trans
      ((if_neg noDownload).trans (if_neg noUpload))))
  let first := ((receivedIn data).strtok (some .msg) (bytes " ")).2
  refine ⟨[⟨.strtok (some .msg) (bytes " "), some tag⟩,
    ⟨.send 0 (bytes "400"), (0 : Int)⟩,
    ⟨.send 0 (bytes "Command not supported."), (0 : Int)⟩], first, ?_⟩
  rw [answerClient, executeCommand_eq, bind_eq, op_bind]
  refine .op (Prod.ext found rfl : _ = (_, first)) ?_
  rw [executeToken, refused]
  exact .op rfl (.op rfl (.ret true first))

/-- A request that fits is short: each condition is met by a run. -/
theorem RequestFits.short (fits : RequestFits data log) :
    RequestShort data log := by
  refine ⟨terminated_iff.1 fits.terminated, ?_, ?_⟩
  · intro filename found
    obtain ⟨trace, final, run, started⟩ := popen_size found
    have room := fits.command (receivedIn_msg data) run started
    rwa [strcat_plain (by decide) (zero_notMem_argument found),
      List.length_append] at room
  · intro tag found
    have few := log.length_le
    by_cases known : ∀ name ∈ commandTags, tag ≠ name.chars
    · obtain ⟨trace, final, run⟩ := logs_unknown found known
      have room := fits.message (receivedIn_msg data) run
      rw [LogFields.length_message, logged_tag (receivedIn_msg data) run, found,
        printed, Option.getD_some,
        cstr_eq_self (zero_notMem_tagOf found)] at room
      exact room
    · push Not at known
      obtain ⟨name, member, rfl⟩ := known
      have short : ∀ name ∈ commandTags, name.chars.length ≤ 8 := by decide
      have within := short name member
      unfold msgBufferSize
      omega

/-- Everything that is built from a request fits exactly when the request is
short. -/
theorem request_fits_iff (received : data.length ≤ msgBufferSize) :
    RequestFits data log ↔ RequestShort data log := by
  refine ⟨RequestFits.short, fun short => ⟨?_, ?_, ?_⟩⟩
  · exact terminated_iff.2 short.string
  · intro conn code memory trace outcome final cmd fp loaded run started
    exact (popen_assembles loaded run started).fits received short
  · intro conn code memory trace final loaded run
    have few := log.length_le
    rw [LogFields.length_message, logged_tag loaded run]
    cases found : tagOf data with
    | none =>
        have absent : (printed none).length = 6 := rfl
        rw [absent]
        unfold msgBufferSize
        omega
    | some tag =>
        have within : (printed (some tag)).length ≤ tag.length :=
          (List.takeWhile_prefix _).length_le
        have room := short.tag tag found
        omega

end Fits

/-- A line of the log, on an ordinary day. -/
def ordinaryLog : LogFields where
  timestamp := bytes "Mon Jan  1 12:00:00 2024"
  ip := bytes "127.0.0.1"
  port := 40000
  threadId := 1234
  timestamp_fits := by decide
  ip_fits := by decide
  port_isInt := by decide
  threadId_isInt := by decide

theorem request_fits_iff_size :
    RequestFits (bytes "SIZE file") ordinaryLog := by
  refine (request_fits_iff (by decide)).mpr ⟨.inl (by decide), ?_, ?_⟩
  · intro filename found
    have parsed : fields (bytes "SIZE file") [bytes " ", bytes "\x00"] =
        [some (bytes "SIZE"), some (bytes "file")] := rfl
    cases parsed.symm.trans found
    decide
  · intro tag found
    have first : tagOf (bytes "SIZE file") = some (bytes "SIZE") := rfl
    cases first.symm.trans found
    decide

/-- The request that asks for the size of a file. -/
def sizeRequest (filename : List Byte) : List Byte :=
  bytes "SIZE " ++ filename

theorem fields_sizeRequest {filename : List Byte} (nonempty : filename ≠ [])
    (plain : 0 ∉ filename)
    (fits : (sizeRequest filename).length < msgBufferSize) :
    fields (sizeRequest filename) [bytes " ", bytes "\x00"] =
      [some (bytes "SIZE"), some filename] := by
  have joined : joinArguments [filename] = 32 :: filename := by
    simp [joinArguments]
  have given : ∀ argument ∈ [filename], 0 ∉ argument := by simpa using plain
  let inquiry := Inquiry.ofArguments sizeTag (.inr (.inr rfl)) [filename] given
    (by rw [joined]; exact fits)
  have same : inquiry.cmd = sizeRequest filename :=
    congrArg (sizeTag.chars ++ ·) joined
  have argument : inquiry.argument = some filename := by
    refine (argumentOf_joinArguments sizeTag [filename]).trans ?_
    rw [List.intercalate_singleton, if_neg nonempty]
  obtain ⟨first, second, called, calledAgain⟩ :=
    inquiry.tokens Script.bare.memory .msg
  rw [same] at called
  rw [argument] at calledAgain
  rw [fields_eq (receivedIn_msg _), receivedIn]
  simp only [Strtok.tokens, called, calledAgain]
  rfl

/-- A request that fills `msg`, and a file name of 2029 characters. -/
theorem requests_overflow :
    ¬ RequestFits (List.replicate 2048 120) ordinaryLog ∧
      ¬ RequestFits (sizeRequest (List.replicate 2029 120)) ordinaryLog := by
  constructor
  · intro fits
    have terminated := fits.terminated
    rw [terminated_iff, List.length_replicate] at terminated
    rcases terminated with short | inside
    · exact absurd short (by decide)
    · exact absurd (List.eq_of_mem_replicate inside) (by decide)
  · intro fits
    have count : (List.replicate 2029 (120 : Byte)).length = 2029 :=
      List.length_replicate
    have plain : (0 : Byte) ∉ List.replicate 2029 120 := fun member =>
      absurd (List.eq_of_mem_replicate member) (by decide)
    have nonempty : List.replicate 2029 (120 : Byte) ≠ [] :=
      List.ne_nil_of_length_pos (by rw [count]; decide)
    generalize List.replicate 2029 (120 : Byte) = filename at *
    have length : (sizeRequest filename).length = 5 + filename.length :=
      List.length_append
    have found := fields_sizeRequest nonempty plain (by
      rw [length, count]
      decide)
    have room := fits.short.size filename found
    rw [count] at room
    exact absurd room (by decide)

end RemoteCommand
