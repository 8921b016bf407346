import RemoteCommand.Machine.Format
import RemoteCommand.PrintedNumbers
import RemoteCommand.RequestTag
import RemoteCommand.SharedLog

/-!
# Reading the log

The entries of the log as a format: two commas end the timestamp and the
address, and the name of a command is what comes before the next blank, without
its comma.  `strtok` has cut the name off at a blank, so whatever a client
sends, its name cannot be taken for the end of an entry.  It may contain line
breaks.

As in `Loggers`, `fwrite` and `fclose` bring the whole message into the file, and
the messages are those that fit in their array (`RequestBounds` tells which).
-/

namespace RemoteCommand

open Interaction Machine Transition

structure LogEntry where
  timestamp : List Byte
  ip : List Byte
  port : Int
  /-- as it is printed -/
  tag : List Byte
  threadId : Int
  deriving DecidableEq, Repr

def comma : Byte := 44#8

def blank : Byte := 32#8

def newline : Byte := 10#8

/-! ## The format of an entry -/

/-- A field that ends with a comma and a blank. -/
def fieldFormat : Format Byte (List Byte) :=
  (Format.upTo comma).followedBy [blank]

def portFormat : Format Byte Int :=
  fieldFormat.via decimalInt readInt IsInt readInt_iff

/-- The name without the comma that is printed behind it. -/
def dropComma (word : List Byte) : Option (List Byte) :=
  if word.getLast? = some comma then some word.dropLast else none

theorem dropComma_iff {word tag : List Byte} :
    dropComma word = some tag ↔ True ∧ word = tag ++ [comma] := by
  constructor
  · intro found
    obtain ⟨last, same⟩ := Option.ite_none_right_eq_some.mp found
    cases same
    exact ⟨trivial, (List.dropLast_append_getLast? comma last).symm⟩
  · rintro ⟨_, rfl⟩
    simp [dropComma]

def tagFormat : Format Byte (List Byte) :=
  ((Format.upTo blank).via (· ++ [comma]) dropComma (fun _ => True)
    dropComma_iff).followedBy (bytes "t_id: ")

def threadFormat : Format Byte Int :=
  ((Format.upTo blank).via decimalInt readInt IsInt readInt_iff).followedBy
    [newline]

def LogEntry.fields (entry : LogEntry) :
    List Byte × List Byte × Int × List Byte × Int :=
  (entry.timestamp, entry.ip, entry.port, entry.tag, entry.threadId)

def LogEntry.ofFields
    (fields : List Byte × List Byte × Int × List Byte × Int) : LogEntry :=
  ⟨fields.1, fields.2.1, fields.2.2.1, fields.2.2.2.1, fields.2.2.2.2⟩

/-- An entry of the log. -/
def logFormat : Format Byte LogEntry :=
  (fieldFormat.andThen <| fieldFormat.andThen <| portFormat.andThen <|
    tagFormat.andThen threadFormat).via LogEntry.fields
      (fun fields => some (.ofFields fields)) (fun _ => True) <| by
    intro fields entry
    constructor
    · intro same
      cases same
      exact ⟨trivial, rfl⟩
    · rintro ⟨_, rfl⟩
      rfl

namespace LogEntry

/-- The fields can be told apart. -/
structure Plain (entry : LogEntry) : Prop where
  timestamp : comma ∉ entry.timestamp
  ip : comma ∉ entry.ip
  port : IsInt entry.port
  tag : blank ∉ entry.tag
  threadId : IsInt entry.threadId

theorem Plain.valid {entry : LogEntry} (plain : entry.Plain) :
    logFormat.Valid entry := by
  have word : blank ∉ entry.tag ++ [comma] := by
    rw [List.mem_append, List.mem_singleton]
    rintro (member | same)
    · exact plain.tag member
    · revert same
      decide
  exact ⟨trivial, plain.timestamp, plain.ip,
    ⟨plain.port, notMem_decimalInt (by decide) _⟩, ⟨trivial, word⟩,
    plain.threadId, notMem_decimalInt (by decide) _⟩

theorem print_eq (entry : LogEntry) :
    logFormat.print entry =
      entry.timestamp ++ bytes ", " ++ entry.ip ++ bytes ", " ++
        decimalInt entry.port ++ bytes ", " ++ entry.tag ++
        bytes ", t_id: " ++ decimalInt entry.threadId ++ bytes " \n" := by
  have separator : bytes ", " = [comma] ++ [blank] := by decide
  have thread : bytes ", t_id: " = [comma] ++ [blank] ++ bytes "t_id: " := by
    decide
  have ending : bytes " \n" = [blank] ++ [newline] := by decide
  rw [separator, thread, ending]
  simp only [logFormat, fieldFormat, portFormat, tagFormat, threadFormat,
    Format.via, Format.andThen, Format.followedBy, Format.upTo, fields,
    List.append_assoc]

theorem print_ne_nil (entry : LogEntry) : logFormat.print entry ≠ [] := by
  rw [print_eq]
  intro nothing
  have ending := (List.append_eq_nil_iff.mp nothing).2
  revert ending
  decide

end LogEntry

/-! ## The messages of the workers -/

theorem blank_notMem_tagOf {data tag : List Byte}
    (found : tagOf data = some tag) : blank ∉ tag := by
  rw [tagOf_firstToken] at found
  have member := List.mem_of_head? found
  exact fun inside => (mem_words member).2 blank inside (by decide)

namespace LogRequest

def entry (request : LogRequest) (timestamp : List Byte) : LogEntry where
  timestamp := cstr timestamp
  ip := cstr request.ip
  port := request.port
  tag := printed request.tag
  threadId := request.threadId

theorem print_entry (request : LogRequest) (timestamp : List Byte) :
    logFormat.print (request.entry timestamp) = request.message timestamp :=
  LogEntry.print_eq _

/-- The request comes from `thread_exec`: the name of the command has been cut
off at a blank, the address is printed without commas, and the numbers have
type `int`. -/
structure FromWorker (request : LogRequest) : Prop where
  ip : comma ∉ cstr request.ip
  port : IsInt request.port
  threadId : IsInt request.threadId
  tag : ∃ data, request.tag = tagOf data

theorem FromWorker.blank_notMem {request : LogRequest}
    (fromWorker : request.FromWorker) : blank ∉ printed request.tag := by
  obtain ⟨data, same⟩ := fromWorker.tag
  rw [same]
  cases found : tagOf data with
  | none => decide
  | some tag =>
      intro inside
      have prefixed : cstr tag <+: tag := List.takeWhile_prefix _
      exact blank_notMem_tagOf found (prefixed.subset inside)

theorem FromWorker.valid {request : LogRequest} {timestamp : List Byte}
    (fromWorker : request.FromWorker) (plain : comma ∉ cstr timestamp) :
    logFormat.Valid (request.entry timestamp) :=
  LogEntry.Plain.valid
    { timestamp := plain
      ip := fromWorker.ip
      port := fromWorker.port
      tag := fromWorker.blank_notMem
      threadId := fromWorker.threadId }

end LogRequest

/-! ## What is in the file -/

namespace LogPc

/-- The message that the call will write, or has written. -/
def text : LogPc → Option (List Byte)
  | idle | getTime _ => none
  | testFilename message | enterCs message _ | fopen message _
  | fwrite message _ | fclose message _ _ _ | leaveCs message => some message

/-- The message is in the file, and the stream is still open. -/
def arrived : LogPc → List (List Byte)
  | fclose message _ [] _ => [message]
  | _ => []

/-- What is in the file of a message of which a part is missing. -/
def torn : LogPc → List Byte
  | fclose _ written (_ :: _) _ => written
  | _ => []

end LogPc

/-- A message of a worker: what `log_request` was called with, and what the
clock said. -/
structure Logged (ι : Type) where
  worker : ι
  request : LogRequest
  timestamp : List Byte

def Logged.message {ι : Type} (logged : Logged ι) : List Byte :=
  logged.request.message logged.timestamp

def Logged.entry {ι : Type} (logged : Logged ι) : LogEntry :=
  logged.request.entry logged.timestamp

namespace Loggers

variable {ι : Type} [DecidableEq ι]

/-- The messages that are in the file, with their workers. -/
def whole (state : Loggers ι) : List (ι × List Byte) :=
  state.entries ++
    match state.holder with
    | some index => ((state.pc index).arrived).map (index, ·)
    | none => []

/-- What is in the file behind them. -/
def torn (state : Loggers ι) : List Byte :=
  match state.holder with
  | some index => (state.pc index).torn
  | none => []

/-- The message comes from a call of the run. -/
def MadeIn (actions : List (Action ι)) (logged : Logged ι) : Prop :=
  .call logged.worker logged.request ∈ actions ∧
    .getTime logged.worker (some logged.timestamp) ∈ actions

/-- Where the arguments and the message of a call come from. -/
def Known (actions : List (Action ι)) (index : ι) : LogPc → Prop
  | .getTime request => .call index request ∈ actions
  | pc => ∀ message, pc.text = some message →
      ∃ logged, MadeIn actions logged ∧ logged.worker = index ∧
        logged.message = message

structure Traced (actions : List (Action ι)) (state : Loggers ι) : Prop where
  known : ∀ index, Known actions index (state.pc index)
  entries : ∀ entry ∈ state.entries, ∃ logged, MadeIn actions logged ∧
    (logged.worker, logged.message) = entry

section Traced

variable {actions : List (Action ι)} {state next : Loggers ι} {index : ι}
  {pc : LogPc}

theorem Traced.setPc (traced : state.Traced actions)
    (known : Known actions index pc) : (state.setPc index pc).Traced actions where
  known := by
    intro other
    by_cases same : other = index
    · rw [same, setPc_self]
      exact known
    · rw [setPc_other state pc same]
      exact traced.known other
  entries := traced.entries

omit [DecidableEq ι] in
/-- A call keeps its message. -/
theorem Traced.keeps {message : List Byte} (traced : state.Traced actions)
    (before : (state.pc index).text = some message)
    (behind : pc.text = some message) : Known actions index pc := by
  have known := traced.known index
  have made : ∃ logged, MadeIn actions logged ∧ logged.worker = index ∧
      logged.message = message := by
    cases atPc : state.pc index with
    | idle | getTime =>
        rw [atPc] at before
        cases before
    | testFilename | enterCs | fopen | fwrite | fclose | leaveCs =>
        rw [atPc] at before known
        exact known message before
  cases pc with
  | idle | getTime => cases behind
  | testFilename | enterCs | fopen | fwrite | fclose | leaveCs =>
      intro other same
      cases behind.symm.trans same
      exact made

omit [DecidableEq ι] in
theorem known_idle : Known actions index .idle := by
  intro message impossible
  cases impossible

theorem step_traced {filename : Option (List Byte)} {action : Action ι}
    (traced : state.Traced actions) (inRun : action ∈ actions)
    (stepped : state.step filename action = some next) :
    next.Traced actions := by
  have gone (index : ι) : (state.setPc index .idle).Traced actions :=
    traced.setPc known_idle
  have kept {index : ι} {pc before : LogPc} {message : List Byte}
      (guard : state.pc index = before) (text : before.text = some message)
      (behind : pc.text = some message) :
      (state.setPc index pc).Traced actions := by
    rw [← guard] at text
    exact traced.setPc (traced.keeps text behind)
  cases step_cases stepped with
  | call guard => exact traced.setPc inRun
  | @time index request timestamp guard =>
      have called := traced.known index
      rw [guard] at called
      refine traced.setPc fun message same => ?_
      cases same
      exact ⟨⟨index, request, timestamp⟩, ⟨called, inRun⟩, rfl, rfl⟩
  | timeError | fileNotSet | enterError | openError =>
      exact { gone _ with }
  | leave => exact { gone _ with }
  | fileSet guard => exact kept guard rfl rfl
  | enter guard => exact { kept guard rfl rfl with }
  | opened guard => exact kept guard rfl rfl
  | write guard => exact kept guard rfl rfl
  | flush guard => exact { kept guard rfl rfl with }
  | @close index message written file guard =>
      refine { kept guard rfl rfl with entries := fun entry member => ?_ }
      rcases List.mem_append.mp member with before | now
      · exact traced.entries entry before
      · cases List.mem_singleton.mp now
        have known := traced.known index
        rw [guard] at known
        obtain ⟨logged, made, worker, same⟩ := known message rfl
        exact ⟨logged, made, by rw [worker, same]⟩

end Traced

/-! ## Reading it -/

/-- The step has arguments as `thread_exec` and `asctime` make them. -/
def FromThread : Action ι → Prop
  | .call _ request => request.FromWorker
  | .getTime _ (some timestamp) => comma ∉ cstr timestamp
  | _ => True

section Reading

variable {contents : List Byte} {actions : List (Action ι)}
  {state : Loggers ι}

/-- The file is a list of messages, and what is there of one more. -/
theorem Invariant.file_eq (holds : state.Invariant contents) :
    state.file =
      contents ++ ((state.whole.map Prod.snd).flatten ++ state.torn) := by
  rw [holds.file, List.append_assoc]
  unfold part Loggers.whole torn
  cases state.holder with
  | none => simp
  | some index =>
      cases atPc : state.pc index with
      | fclose message written pending file =>
          have complete := holds.whole index message written pending file atPc
          cases pending with
          | nil =>
              rw [List.append_nil] at complete
              simp [atPc, LogPc.written, LogPc.arrived, LogPc.torn, complete]
          | cons next pending =>
              simp [atPc, LogPc.written, LogPc.arrived, LogPc.torn]
      | _ => simp [atPc, LogPc.written, LogPc.arrived, LogPc.torn]

omit [DecidableEq ι] in
theorem MadeIn.valid (fromThreads : ∀ action ∈ actions, FromThread action)
    {logged : Logged ι} (made : MadeIn actions logged) :
    logFormat.Valid logged.entry := by
  have request := fromThreads _ made.1
  have timestamp := fromThreads _ made.2
  exact LogRequest.FromWorker.valid request timestamp

/-- A message of which a part is missing is not read. -/
theorem torn_unread (holds : state.Invariant contents)
    (traced : state.Traced actions)
    (fromThreads : ∀ action ∈ actions, FromThread action) :
    logFormat.read state.torn = none := by
  have nothing : logFormat.read [] = none := rfl
  unfold torn
  split
  · rename_i index _
    cases atPc : state.pc index with
    | fclose message written pending file =>
        cases pending with
        | nil => exact nothing
        | cons next pending =>
            have complete := holds.whole index _ _ _ _ atPc
            have known := traced.known index
            rw [atPc] at known
            obtain ⟨logged, made, _, same⟩ := known message rfl
            have printed : logFormat.print logged.entry =
                written ++ next :: pending :=
              (LogRequest.print_entry _ _).trans (same.trans complete.symm)
            exact logFormat.read_cut (made.valid fromThreads) printed
              (List.cons_ne_nil next pending)
    | _ => exact nothing
  · exact nothing

omit [DecidableEq ι] in
theorem Traced.whole_made (traced : state.Traced actions)
    (entry : ι × List Byte) (member : entry ∈ state.whole) :
    ∃ logged, MadeIn actions logged ∧
      (logged.worker, logged.message) = entry := by
  rcases List.mem_append.mp member with before | now
  · exact traced.entries entry before
  · split at now
    · rename_i index _
      obtain ⟨message, arrived, rfl⟩ := List.mem_map.mp now
      have known := traced.known index
      cases atPc : state.pc index with
      | fclose text written pending file =>
          rw [atPc] at arrived known
          cases pending with
          | nil =>
              have isText := List.mem_singleton.mp arrived
              obtain ⟨logged, made, worker, same⟩ := known text rfl
              rw [isText]
              exact ⟨logged, made, Prod.ext worker same⟩
          | cons => cases arrived
      | _ =>
          rw [atPc] at arrived
          cases arrived
    · cases now

/-- What every element of a list is made of makes up a list. -/
theorem exists_map_eq {α β : Type} {property : α → Prop} {image : α → β}
    {items : List β}
    (made : ∀ item ∈ items, ∃ source, property source ∧ image source = item) :
    ∃ sources : List α, (∀ source ∈ sources, property source) ∧
      sources.map image = items := by
  induction items with
  | nil => exact ⟨[], List.forall_mem_nil property, rfl⟩
  | cons item items inductionHypothesis =>
      obtain ⟨source, here, rfl⟩ := made item List.mem_cons_self
      obtain ⟨sources, all, rfl⟩ := inductionHypothesis fun other member =>
        made other (List.mem_cons_of_mem _ member)
      exact ⟨source :: sources, List.forall_mem_cons.mpr ⟨here, all⟩, rfl⟩

theorem run_traced {filename : Option (List Byte)}
    (ran : (system filename).run (start contents) actions = some state) :
    state.Traced actions := by
  have initial : (start contents : Loggers ι).Traced actions :=
    { known := fun index => known_idle
      entries := fun entry member => by cases member }
  exact (system filename).run_invariant_of_met step_traced actions initial
    ((system filename).stepsMeet_of_forall (fun _ member => member) _) ran

/-- What has been added to the file, and how it is read. -/
theorem reads_whole {filename : Option (List Byte)}
    (releases : (system filename).StepsMeet (fun _ => Releases)
      (start contents) actions)
    (fromThreads : ∀ action ∈ actions, FromThread action)
    (ran : (system filename).run (start contents) actions = some state) :
    ∃ logged : List (Logged ι),
      (∀ each ∈ logged, MadeIn actions each) ∧
      logged.map (fun each => (each.worker, each.message)) = state.whole ∧
      state.file.drop contents.length =
        ((logged.map Logged.entry).map logFormat.print).flatten ++
          state.torn ∧
      logFormat.readAll (state.file.drop contents.length) =
        (logged.map Logged.entry, state.torn) := by
  have holds : state.Invariant contents :=
    (system filename).run_invariant_of_met step_invariant actions
      (start_invariant contents) releases ran
  have traced := run_traced ran
  obtain ⟨logged, made, same⟩ := exists_map_eq traced.whole_made
  have printed : (logged.map Logged.entry).map logFormat.print =
      state.whole.map Prod.snd := by
    rw [← same, List.map_map, List.map_map]
    exact List.map_congr_left fun each _ => LogRequest.print_entry _ _
  have added : state.file.drop contents.length =
      ((logged.map Logged.entry).map logFormat.print).flatten ++
        state.torn := by
    rw [holds.file_eq, List.drop_left, printed]
  refine ⟨logged, made, same, added, ?_⟩
  rw [added]
  refine logFormat.readAll_prints (torn_unread holds traced fromThreads)
    LogEntry.print_ne_nil _ fun entry member => ?_
  obtain ⟨each, inLogged, rfl⟩ := List.mem_map.mp member
  exact (made each inLogged).valid fromThreads

/-- The log is read back.  In every state of every run of any number of workers
in which no `fopen` and no `leave_cs` fails and all messages are written whole,
what has been added to the file is read as exactly the messages that are there,
in their order, each with the fields that its worker has put in, and what is left
over is what is there of a message that is being written.  No name of a command
makes an entry be missed, be split or appear. -/
theorem log_reads_back {filename : Option (List Byte)}
    (releases : (system filename).StepsMeet (fun _ => Releases)
      (start contents) actions)
    (fromThreads : ∀ action ∈ actions, FromThread action)
    (ran : (system filename).run (start contents) actions = some state) :
    ∃ logged : List (Logged ι),
      (∀ each ∈ logged, MadeIn actions each) ∧
      logged.map (fun each => (each.worker, each.message)) = state.whole ∧
      logFormat.readAll (state.file.drop contents.length) =
        (logged.map Logged.entry, state.torn) := by
  obtain ⟨logged, made, same, _, reads⟩ :=
    reads_whole releases fromThreads ran
  exact ⟨logged, made, same, reads⟩

/-! ## Lines -/

/-- The step has arguments without line breaks, the command apart. -/
def OneLine : Action ι → Prop
  | .call _ request => newline ∉ cstr request.ip
  | .getTime _ (some timestamp) => newline ∉ cstr timestamp
  | _ => True

omit [DecidableEq ι] in
theorem MadeIn.count_newline (oneLine : ∀ action ∈ actions, OneLine action)
    {logged : Logged ι} (made : MadeIn actions logged) :
    (logFormat.print logged.entry).count newline =
      logged.entry.tag.count newline + 1 := by
  have ip : newline ∉ logged.entry.ip := oneLine _ made.1
  have timestamp : newline ∉ logged.entry.timestamp := oneLine _ made.2
  have separator : (bytes ", ").count newline = 0 := by decide
  have thread : (bytes ", t_id: ").count newline = 0 := by decide
  have ending : (bytes " \n").count newline = 1 := by decide
  have number (value : Int) : (decimalInt value).count newline = 0 :=
    List.count_eq_zero_of_not_mem (notMem_decimalInt (by decide) value)
  rw [LogEntry.print_eq]
  simp only [List.count_append, List.count_eq_zero_of_not_mem ip,
    List.count_eq_zero_of_not_mem timestamp, separator, thread, ending, number]
  omega

omit [DecidableEq ι] in
/-- A line for each message, and one more for each line break in a command. -/
theorem count_lines (oneLine : ∀ action ∈ actions, OneLine action)
    (logged : List (Logged ι)) (made : ∀ each ∈ logged, MadeIn actions each) :
    ((logged.map Logged.entry).map logFormat.print).flatten.count newline =
      logged.length +
        (logged.map fun each => each.entry.tag.count newline).sum := by
  induction logged with
  | nil => rfl
  | cons each logged inductionHypothesis =>
      obtain ⟨here, others⟩ := List.forall_mem_cons.mp made
      have first := here.count_newline oneLine
      have later := inductionHypothesis others
      simp only [List.map_cons, List.flatten_cons, List.count_append,
        List.length_cons, List.sum_cons, first, later]
      omega

/-- Who reads the log line by line is deceived by commands with line breaks, and
by nothing else.  In every state of such a run in which no message is half
written, what has been added to the file has as many lines as entries exactly
when no entry has a line break in its command. -/
theorem lines_agree_iff {filename : Option (List Byte)}
    (releases : (system filename).StepsMeet (fun _ => Releases)
      (start contents) actions)
    (fromThreads : ∀ action ∈ actions, FromThread action)
    (oneLine : ∀ action ∈ actions, OneLine action)
    (ran : (system filename).run (start contents) actions = some state)
    (wholeMessages : state.torn = []) :
    (state.file.drop contents.length).count newline =
        (logFormat.readAll (state.file.drop contents.length)).1.length ↔
      ∀ entry ∈ (logFormat.readAll (state.file.drop contents.length)).1,
        newline ∉ entry.tag := by
  obtain ⟨logged, made, _, added, reads⟩ :=
    reads_whole releases fromThreads ran
  have lines := count_lines oneLine logged made
  rw [reads, added, wholeMessages, List.append_nil, lines, List.length_map,
    Nat.add_eq_left, List.sum_eq_zero_iff_forall_eq_nat]
  simp only [List.mem_map, forall_exists_index, and_imp,
    forall_apply_eq_imp_iff₂, List.count_eq_zero]

end Reading

/-- A client has sent a line break in its command. -/
def brokenRequest : LogRequest :=
  ⟨2, bytes "I", 1, tagOf (bytes "A\nB C")⟩

def plainRequest : LogRequest :=
  ⟨1, bytes "I", 7, tagOf []⟩

theorem brokenRequest_fromWorker : brokenRequest.FromWorker :=
  ⟨by decide, by decide, by decide, _, rfl⟩

theorem plainRequest_fromWorker : plainRequest.FromWorker :=
  ⟨by decide, by decide, by decide, _, rfl⟩

def brokenLine : List (Action (Fin 2)) :=
  [.call secondThread brokenRequest, .getTime secondThread (some (bytes "T")),
    .testFilename secondThread, .enterCs secondThread true,
    .fopen secondThread (some 4), .fwrite secondThread] ++
  List.replicate 23 (.flush secondThread) ++
  [.fclose secondThread, .leaveCs secondThread true]

/-- The next message is not complete yet. -/
def tornMessage : List (Action (Fin 2)) :=
  brokenLine ++
    [.call firstThread plainRequest, .getTime firstThread (some (bytes "T")),
      .testFilename firstThread, .enterCs firstThread true,
      .fopen firstThread (some 4), .fwrite firstThread, .flush firstThread,
      .flush firstThread]

theorem log_reads_back_torn :
    ∃ state, (system (some [])).run (start []) tornMessage = some state ∧
      ∃ logged : List (Logged (Fin 2)),
        (∀ each ∈ logged, MadeIn tornMessage each) ∧
        logged.map (fun each => (each.worker, each.message)) = state.whole ∧
        logFormat.readAll (state.file.drop 0) =
          (logged.map Logged.entry, state.torn) := by
  obtain ⟨state, ran⟩ := Option.isSome_iff_exists.mp
    (by decide : ((system (some [])).run (start []) tornMessage).isSome)
  have timestamp : comma ∉ cstr (bytes "T") := by decide
  have releases : ∀ action ∈ tornMessage, Releases action := by
    simp [tornMessage, brokenLine, Releases]
  have fromThreads : ∀ action ∈ tornMessage, FromThread action := by
    simp [tornMessage, brokenLine, FromThread, brokenRequest_fromWorker,
      plainRequest_fromWorker, timestamp]
  exact ⟨state, ran, log_reads_back
    ((system _).stepsMeet_of_forall releases _) fromThreads ran⟩

theorem lines_agree_iff_broken :
    ∃ state, (system (some [])).run (start []) brokenLine = some state ∧
      ((state.file.drop 0).count newline =
          (logFormat.readAll (state.file.drop 0)).1.length ↔
        ∀ entry ∈ (logFormat.readAll (state.file.drop 0)).1,
          newline ∉ entry.tag) := by
  obtain ⟨state, ran⟩ := Option.isSome_iff_exists.mp
    (by decide : ((system (some [])).run (start []) brokenLine).isSome)
  have atEnd : ((system (some [])).run (start []) brokenLine).map torn =
      some [] := by decide
  rw [ran] at atEnd
  have timestamp : comma ∉ cstr (bytes "T") := by decide
  have oneLine : newline ∉ cstr (bytes "T") := by decide
  have address : newline ∉ cstr brokenRequest.ip := by decide
  have releases : ∀ action ∈ brokenLine, Releases action := by
    simp [brokenLine, Releases]
  have fromThreads : ∀ action ∈ brokenLine, FromThread action := by
    simp [brokenLine, FromThread, brokenRequest_fromWorker, timestamp]
  have oneLines : ∀ action ∈ brokenLine, OneLine action := by
    simp [brokenLine, OneLine, oneLine, address]
  exact ⟨state, ran, lines_agree_iff ((system _).stepsMeet_of_forall releases _)
    fromThreads oneLines ran (Option.some.inj atEnd)⟩

end Loggers

end RemoteCommand
