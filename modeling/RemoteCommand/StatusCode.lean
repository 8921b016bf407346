import RemoteCommand.WorkerLife

/-!
# The status that `execute_command` leaves

`exec` sets the status on every path, and an unsupported tag gets one.  The
other paths set it at their very end only: whatever goes wrong before leaves
`code` as it was, which nobody has initialised.
-/

namespace RemoteCommand

open Interaction Machine Prog

/-! ## Requests and outcomes of calls -/

/-- A status, as the string in `code`. -/
def ThreeDigits (text : List Byte) : Prop :=
  text.length = 3 ∧ ∀ byte ∈ text, 48 ≤ byte.toNat ∧ byte.toNat ≤ 57

instance (text : List Byte) : Decidable (ThreeDigits text) :=
  inferInstanceAs (Decidable (_ ∧ _))

/-- The fields of a request, for the delimiters that `strtok` gets. -/
def fields (message : List Byte) (delims : List (List Byte)) :
    List (Option (List Byte)) :=
  (Strtok.ofArray message).tokens (some ()) delims

/-- The first field. -/
def tagOf (message : List Byte) : Option (List Byte) :=
  ((Strtok.ofArray message).strtok (some ()) (bytes " ")).1

/-- Something follows the tag. -/
def HasArgument (message : List Byte) : Prop :=
  ∃ tag argument,
    fields message [bytes " ", bytes "\x00"] = [some tag, some argument]

/-- Two words follow the tag. -/
def HasNames (message : List Byte) : Prop :=
  ∃ tag source dest, fields message [bytes " ", bytes " ", bytes " "] =
    [some tag, some source, some dest]

/-- The request is `SIZE`, and nothing follows. -/
def SizeWithoutName (message : List Byte) : Prop :=
  ∃ tag, fields message [bytes " ", bytes "\x00"] = [some tag, none] ∧
    strcmp tag (bytes "SIZE") = 0

/-- No error is reported by the call, and no end of the file. -/
def Succeeds : Event Sys → Prop
  | ⟨.fopen _ _, file⟩ => file ≠ none
  | ⟨.send _ _, sent⟩ => (0 : Int) ≤ sent
  | ⟨.recv _ _ _, .error⟩ => False
  | ⟨.fwrite chars _, written⟩ => written = chars.length
  | ⟨.ferror _, error⟩ => error = (0 : Int)
  | ⟨.feof _, eof⟩ => eof = (0 : Int)
  | _ => True

/-- The call does not find that the peer has closed the connection. -/
def StaysOpen : Event Sys → Prop
  | ⟨.recv _ _ _, .closed⟩ => False
  | _ => True

def isIndeterminate : Event Sys → Bool
  | ⟨.indeterminate, _⟩ => true
  | _ => false

/-- The string that the server compares with `200` after an `UPLOAD`: what the
last `recv` brought, and behind it what `received` and the memory after it held
before. -/
def confirmation (trace : List (Event Sys)) : List Byte :=
  match trace.dropWhile fun event => ! isIndeterminate event with
  | ⟨.indeterminate, stale⟩ :: ⟨.recv _ _ _, .data chars _ _⟩ :: _ =>
      overwrite chars stale
  | ⟨.indeterminate, stale⟩ :: _ => stale
  | _ => []

def Confirmed (trace : List (Event Sys)) : Prop :=
  strcmp (confirmation trace) (bytes "200") = 0

/-- The request and the outcomes of the calls are such that `execute_command`
gets to a place where it sets the status. -/
def SetsStatus (message : List Byte) (trace : List (Event Sys)) : Prop :=
  ∃ tag, tagOf message = some tag ∧
    if strcmp tag (bytes "LIST") = 0 then
      True
    else if strcmp tag (bytes "EXEC") = 0 ∨ strcmp tag (bytes "SIZE") = 0 then
      HasArgument message
    else if strcmp tag (bytes "DOWNLOAD") = 0 then
      HasNames message ∧ ∀ event ∈ trace, Succeeds event ∧ StaysOpen event
    else if strcmp tag (bytes "UPLOAD") = 0 then
      HasNames message ∧ (∀ event ∈ trace, Succeeds event) ∧ Confirmed trace
    else
      True

theorem confirmation_append {first : List (Event Sys)}
    (certain : ∀ event ∈ first, isIndeterminate event = false)
    (rest : List (Event Sys)) :
    confirmation (first ++ rest) = confirmation rest := by
  rw [confirmation, List.dropWhile_append_of_pos, confirmation]
  intro event member
  simp [certain event member]

/-! ## exec -/

theorem exec_status {σ : Type} (env : Env Sys σ) (cmd result : List Byte)
    (state : σ) :
    Ensures env (exec cmd result) state
      fun _ exec _ => ThreeDigits (cstr exec.code) := by
  unfold exec
  simp only [bind_eq, op_bind, ret_bind, pure_eq]
  refine (ensures_op _ _).2 fun fp _ _ => ?_
  cases fp with
  | none => exact (ensures_ret _).2 (by decide)
  | some fp =>
  refine Ensures.bind fun reading result middle _ => ?_
  refine (ensures_op _ _).2 fun status _ _ => ?_
  refine (ensures_ite _ _ _).2 ⟨fun _ => ?_, fun _ => ?_⟩
  · exact (ensures_ret _).2 (show ThreeDigits (cstr (bytes "300")) by decide)
  · exact (ensures_ret _).2 (show ThreeDigits (cstr (bytes "400")) by decide)

/-! ## The loops of a transfer -/

section Loops

variable {σ : Type} (env : Env Sys σ) (conn : Int) (file : File) (state : σ)

/-- All calls are good, or the return value tells that one is not. -/
def Told (good : Event Sys → Prop) (trace : List (Event Sys)) (ret : Int) :
    Prop :=
  (ret = ok ∧ ∀ event ∈ trace, good event) ∨
    (ret ≠ ok ∧ ∃ event ∈ trace, ¬ good event)

theorem Told.append {good : Event Sys → Prop} {first last : List (Event Sys)}
    {ret : Int} (before : ∀ event ∈ first, good event)
    (told : Told good last ret) : Told good (first ++ last) ret := by
  rcases told with ⟨same, all⟩ | ⟨different, event, member, bad⟩
  · refine .inl ⟨same, fun event member => ?_⟩
    exact (List.mem_append.1 member).elim (before event) (all event)
  · exact .inr ⟨different, event, List.mem_append_right _ member, bad⟩

theorem receiveLoop_told :
    Ensures env (receiveLoop conn file) state fun trace ret _ =>
      Told (fun event => Succeeds event ∧ StaysOpen event) trace ret := by
  refine Ensures.iterate (fun recvBytes state => ?_) Told.append _ _
  refine (ensures_ite _ _ _).2 ⟨fun _ => ?_, fun _ => ?_⟩
  swap
  · exact (ensures_ret _).2 (.inl ⟨rfl, by simp⟩)
  refine (ensures_op _ _).2 fun received _ _ => ?_
  rcases received with ⟨buffer, _, _⟩ | _ | _
  · refine (ensures_op _ _).2 fun written _ _ => (ensures_ite _ _ _).2 ?_
    constructor
    · intro short
      refine (ensures_op _ _).2 fun _ _ _ => (ensures_ret _).2 (.inr ?_)
      exact ⟨by decide, ⟨.fwrite buffer file, written⟩, by simp,
        fun good => short good.1⟩
    · intro complete
      refine (ensures_ret _).2 ?_
      simpa [Succeeds, StaysOpen] using not_not.1 complete
  · refine (ensures_op _ _).2 fun _ _ _ => (ensures_ret _).2 (.inr ?_)
    exact ⟨by decide, ⟨.recv conn 0 msgBufferSize, .closed⟩, by simp,
      fun good => good.2⟩
  · refine (ensures_op _ _).2 fun _ _ _ => (ensures_ret _).2 (.inr ?_)
    exact ⟨by decide, ⟨.recv conn 0 msgBufferSize, .error⟩, by simp,
      fun good => good.1⟩

/-- A turn of the loop ends with good events, or leaves the loop and tells. -/
def TurnTold (trace : List (Event Sys)) (result : Int ⊕ Int) : Prop :=
  result.elim (fun _ => ∀ event ∈ trace, Succeeds event) (Told Succeeds trace)

theorem TurnTold.cons {event : Event Sys} {trace : List (Event Sys)}
    {result : Int ⊕ Int} (good : Succeeds event)
    (told : TurnTold trace result) : TurnTold (event :: trace) result := by
  cases result with
  | inl next => exact List.forall_mem_cons.2 ⟨good, told⟩
  | inr ret =>
      have first : ∀ before ∈ [event], Succeeds before :=
        List.forall_mem_singleton.2 good
      exact told.append first

/-- The loop is left because of a call that did not succeed. -/
theorem TurnTold.fail {event : Event Sys} {trace : List (Event Sys)}
    {ret : Int} (failed : ret ≠ ok) (bad : ¬ Succeeds event) :
    TurnTold (event :: trace) (.inr ret) :=
  .inr ⟨failed, event, List.mem_cons_self, bad⟩

theorem sendLoop_told :
    Ensures env (sendLoop conn file) state fun trace ret _ =>
      Told Succeeds trace ret := by
  have sending (buffer : List Byte) (state : σ) :
      Ensures env ((send conn buffer).bind fun sent =>
          if sent < 0 then .ret (.inr connErr)
          else .ret (.inl (buffer.length : Int))) state
        fun trace result _ => TurnTold trace result := by
    refine (ensures_op _ _).2 fun sent _ _ => (ensures_ite _ _ _).2 ?_
    refine ⟨fun failed => (ensures_ret _).2 ?_,
      fun done => (ensures_ret _).2 ?_⟩
    · exact .fail (by decide) (Int.not_le.2 failed)
    · exact List.forall_mem_singleton.2 (Int.not_lt.1 done)
  refine Ensures.iterate (fun charsRead state => ?_) Told.append _ _
  change Ensures env _ state fun trace result _ => TurnTold trace result
  refine (ensures_ite _ _ _).2 ⟨fun _ => ?_, fun _ => ?_⟩
  swap
  · exact (ensures_ret _).2 (.inl ⟨rfl, by simp⟩)
  refine (ensures_op _ _).2 fun buffer middle _ => (ensures_ite _ _ _).2 ?_
  refine ⟨fun _ => ?_, fun _ => ?_⟩
  swap
  · exact (sending _ _).mono fun _ _ _ => .cons trivial
  refine (ensures_op _ _).2 fun error middle _ => (ensures_ite _ _ _).2 ?_
  refine ⟨fun failed => ?_, fun noError => ?_⟩
  · exact (ensures_ret _).2 (.cons trivial (.fail (by decide) failed))
  refine (ensures_op _ _).2 fun eof middle _ => (ensures_ite _ _ _).2 ?_
  refine ⟨fun ended => ?_, fun notEnded => ?_⟩
  · exact (ensures_ret _).2
      (.cons trivial (.cons (not_not.1 noError) (.fail (by decide) ended)))
  · exact (sending _ _).mono fun _ _ _ told =>
      .cons trivial (.cons (not_not.1 noError) (.cons (not_not.1 notEnded) told))

end Loops

/-! ## The transfers -/

/-- The status is `200` if `sets` holds, and nothing is set if not. -/
def Settles (sets : Prop) (code : List Byte) (exec : Outcome) : Prop :=
  (sets ∧ exec.code = bytes "200") ∨ (¬ sets ∧ exec.code = code)

/-- A transfer that settles behind its beginning settles. -/
theorem beginTransfer_settles {conn : Int}
    {name : List Byte → List Byte → List Byte} {mode result code : List Byte}
    {transfer : File → Prog Sys Outcome} {good : Event Sys → Prop}
    {confirms : List (Event Sys) → Prop}
    (tokens : ∀ token, good ⟨.strtok none (bytes " "), token⟩)
    (opens : ∀ path file, good ⟨.fopen path mode, file⟩ ↔ file ≠ none)
    (readies : ∀ sent, good ⟨.send conn (bytes "200"), sent⟩ ↔ (0 : Int) ≤ sent)
    (further : ∀ event trace, isIndeterminate event = false →
      (confirms (event :: trace) ↔ confirms trace))
    (transfers : ∀ file state, Ensures anyOutcome (transfer file) state
      fun trace exec _ =>
        Settles ((∀ event ∈ trace, good event) ∧ confirms trace) code exec)
    (memory : Strtok Buffer) :
    Ensures anyOutcome (beginTransfer conn name mode result code transfer) memory
      fun trace exec _ => Settles
        ((∃ source dest, memory.tokens none [bytes " ", bytes " "] =
            [some source, some dest]) ∧
          (∀ event ∈ trace, good event) ∧ confirms trace)
        code exec := by
  refine (ensures_op _ _).2 fun source after called => ?_
  change memory.strtok none (bytes " ") = _ at called
  cases source with
  | none =>
      refine (ensures_ret _).2 (.inr ⟨?_, rfl⟩)
      simp [Strtok.tokens, called]
  | some source =>
  refine (ensures_op _ _).2 fun dest later calledAgain => ?_
  change after.strtok none (bytes " ") = _ at calledAgain
  cases dest with
  | none =>
      refine (ensures_ret _).2 (.inr ⟨?_, rfl⟩)
      simp [Strtok.tokens, called, calledAgain]
  | some dest =>
  have names : ∃ source dest, memory.tokens none [bytes " ", bytes " "] =
      [some source, some dest] :=
    ⟨source, dest, by simp [Strtok.tokens, called, calledAgain]⟩
  refine (ensures_op _ _).2 fun file _ _ => ?_
  cases file with
  | none =>
      refine (ensures_ret _).2 (.inr ⟨fun sets => ?_, rfl⟩)
      exact (opens (name source dest) none).1 (sets.2.1 _ (by simp)) rfl
  | some file =>
  refine (ensures_op _ _).2 fun sent _ _ => (ensures_ite _ _ _).2 ?_
  refine ⟨fun failed => (ensures_ret _).2 (.inr ⟨fun sets => ?_, rfl⟩),
    fun done => (transfers file _).mono fun trace exec _ settles => ?_⟩
  · exact Int.not_le.2 failed ((readies sent).1 (sets.2.1 _ (by simp)))
  · have opened := (opens (name source dest) (some file)).2
      (Option.some_ne_none file)
    have ready := (readies sent).2 (Int.not_lt.1 done)
    have confirmed := (further ⟨.strtok none (bytes " "), some source⟩ _ rfl).trans
      ((further ⟨.strtok none (bytes " "), some dest⟩ _ rfl).trans
        ((further ⟨.fopen (name source dest) mode, some file⟩ _ rfl).trans
          (further ⟨.send conn (bytes "200"), sent⟩ trace rfl)))
    simpa [names, tokens, opened, ready, confirmed] using settles

theorem downloadInto_settles (conn : Int) (result code : List Byte)
    (file : File) (state : Strtok Buffer) :
    Ensures anyOutcome (downloadInto conn result code file) state
      fun trace exec _ =>
        Settles (∀ event ∈ trace, Succeeds event ∧ StaysOpen event) code
          exec := by
  refine Ensures.bind ((receiveLoop_told _ _ _ _).mono ?_)
  rintro trace ret _ (⟨rfl, good⟩ | ⟨failed, event, member, bad⟩)
  · refine (ensures_ite _ _ _).2 ⟨fun absurd => (absurd rfl).elim, fun _ => ?_⟩
    refine (ensures_op _ _).2 fun _ _ _ => (ensures_ret _).2 (.inl ⟨?_, rfl⟩)
    rintro event member
    rcases List.mem_append.1 member with early | late
    · exact good event early
    · cases List.mem_singleton.1 late
      exact ⟨trivial, trivial⟩
  · refine (ensures_ite _ _ _).2 ⟨fun _ => ?_, fun absurd => ?_⟩
    · refine (ensures_ret _).2 (.inr ⟨fun sets => bad (sets event ?_), rfl⟩)
      simp [member]
    · exact (absurd failed).elim

theorem executeDownload_settles (conn : Int) (result code : List Byte)
    (memory : Strtok Buffer) :
    Ensures anyOutcome (executeDownload conn result code) memory
      fun trace exec _ => Settles
        ((∃ source dest, memory.tokens none [bytes " ", bytes " "] =
            [some source, some dest]) ∧
          ∀ event ∈ trace, Succeeds event ∧ StaysOpen event)
        code exec := by
  rw [executeDownload_begins]
  refine (@beginTransfer_settles conn _ (bytes "wb") result code _
    (fun event => Succeeds event ∧ StaysOpen event) (fun _ => True)
    (fun _ => ⟨trivial, trivial⟩) (fun _ _ => and_iff_left trivial)
    (fun _ => and_iff_left trivial) (fun _ _ _ => Iff.rfl)
    (fun file state => ?_) memory).mono fun trace exec _ settles => ?_
  · simpa only [and_true] using
      downloadInto_settles conn result code file state
  · simpa only [and_true] using settles

/-- The events before a last `recv` do not matter for what it confirms. -/
theorem checkReceived_settles {result code stale text : List Byte}
    {last : Received codeSize} {before : List (Event Sys)}
    (succeeds : ∀ event ∈ before, Succeeds event)
    (certain : ∀ event ∈ before, isIndeterminate event = false) {conn : Int}
    (fine : Succeeds ⟨.recv conn 0 codeSize, last⟩)
    (read : confirmation [⟨.indeterminate, stale⟩,
      ⟨.recv conn 0 codeSize, last⟩] = text) (state : Strtok Buffer) :
    Ensures anyOutcome (executeUpload.checkReceived result code text) state
      fun rest exec _ =>
        let trace := before ++ ⟨.indeterminate, stale⟩ ::
          ⟨.recv conn 0 codeSize, last⟩ :: rest
        Settles ((∀ event ∈ trace, Succeeds event) ∧ Confirmed trace) code
          exec := by
  refine (ensures_ite _ _ _).2 ⟨fun same => ?_, fun different => ?_⟩
  · refine (ensures_ret _).2 (.inl ⟨⟨?_, ?_⟩, rfl⟩)
    · intro event member
      rcases List.mem_append.1 member with early | late
      · exact succeeds event early
      · rcases List.mem_pair.1 late with rfl | rfl
        · trivial
        · exact fine
    · rw [Confirmed, confirmation_append certain, read]
      exact same
  · refine (ensures_ret _).2 (.inr ⟨fun sets => different ?_, rfl⟩)
    rw [Confirmed, confirmation_append certain, read] at sets
    exact sets.2

theorem uploadFrom_settles (conn : Int) (result code : List Byte)
    (file : File) (state : Strtok Buffer) :
    Ensures anyOutcome (uploadFrom conn result code file) state
      fun trace exec _ => Settles
        ((∀ event ∈ trace, Succeeds event) ∧ Confirmed trace) code exec := by
  refine Ensures.bind fun trace ret middle run => ?_
  have certain : ∀ event ∈ trace, isIndeterminate event = false := by
    rintro ⟨call, answer⟩ member
    have sending := run.only (sendLoop_only conn file) _ member
    cases call <;> first | rfl | exact sending.elim
  rcases sendLoop_told _ _ _ _ _ _ _ run with
    ⟨rfl, good⟩ | ⟨failed, event, member, bad⟩
  swap
  · refine (ensures_ite _ _ _).2 ⟨fun _ => ?_, fun absurd => ?_⟩
    · refine (ensures_ret _).2 (.inr ⟨fun sets => bad (sets.1 event ?_), rfl⟩)
      simp [member]
    · exact (absurd failed).elim
  refine (ensures_ite _ _ _).2 ⟨fun absurd => (absurd rfl).elim, fun _ => ?_⟩
  refine (ensures_op _ _).2 fun _ _ _ => ?_
  refine (ensures_op _ _).2 fun stale _ _ => ?_
  refine (ensures_op _ _).2 fun received _ _ => ?_
  -- the calls before the last `recv`
  let before : List (Event Sys) := trace ++ [⟨.fclose file, ()⟩]
  have succeeds : ∀ event ∈ before, Succeeds event :=
    List.forall_mem_append.2 ⟨good, List.forall_mem_singleton.2 trivial⟩
  have known : ∀ event ∈ before, isIndeterminate event = false :=
    List.forall_mem_append.2 ⟨certain, List.forall_mem_singleton.2 rfl⟩
  have regroup (last : List (Event Sys)) :
      trace ++ ⟨.fclose file, ()⟩ :: last = before ++ last :=
    List.append_cons _ _ _
  simp only [regroup]
  rcases received with ⟨chars, nonempty, fits⟩ | _ | _
  · exact @checkReceived_settles result code stale _
      (.data chars nonempty fits) before succeeds known conn trivial rfl _
  · exact @checkReceived_settles result code stale _ .closed before succeeds
      known conn trivial rfl _
  · refine (ensures_ret _).2 (.inr ⟨fun sets => ?_, rfl⟩)
    exact sets.1 ⟨.recv conn 0 codeSize, .error⟩ (by simp)

theorem executeUpload_settles (conn : Int) (result code : List Byte)
    (memory : Strtok Buffer) :
    Ensures anyOutcome (executeUpload conn result code) memory
      fun trace exec _ => Settles
        ((∃ source dest, memory.tokens none [bytes " ", bytes " "] =
            [some source, some dest]) ∧
          (∀ event ∈ trace, Succeeds event) ∧ Confirmed trace)
        code exec := by
  have further (event : Event Sys) (trace : List (Event Sys))
      (known : isIndeterminate event = false) :
      Confirmed (event :: trace) ↔ Confirmed trace := by
    have same := @confirmation_append [event]
      (List.forall_mem_singleton.2 known) trace
    rw [List.singleton_append] at same
    rw [Confirmed, Confirmed, same]
  rw [executeUpload_begins]
  exact beginTransfer_settles (fun _ => trivial) (fun _ _ => Iff.rfl)
    (fun _ => Iff.rfl) further
    (fun file state => uploadFrom_settles conn result code file state) memory

/-! ## execute_command -/

/-- Nothing is missing in the request, and the status has three digits if it is
set and is the old one if not. -/
def Leaves (message code : List Byte) (trace : List (Event Sys))
    (exec : Outcome) : Prop :=
  ¬ SizeWithoutName message ∧
    (SetsStatus message trace ∧ ThreeDigits (cstr exec.code) ∨
      ¬ SetsStatus message trace ∧ exec.code = code)

/-- The fields that a thread finds when it is alone with its request. -/
theorem fields_eq {memory : Strtok Buffer} {message : List Byte}
    (loaded : memory.buffer .msg = message) (delims : List (List Byte)) :
    fields message delims = memory.tokens (some .msg) delims := by
  rw [memory.tokens_ofArray, loaded, fields]

theorem tagOf_eq {memory : Strtok Buffer} {message : List Byte}
    (loaded : memory.buffer .msg = message) :
    tagOf message = (memory.strtok (some .msg) (bytes " ")).1 := by
  have same := fields_eq loaded [bytes " "]
  simpa [fields, tagOf, Strtok.tokens] using same

theorem executeCommand_leaves (conn : Int) (code : List Byte)
    {memory : Strtok Buffer} {message : List Byte}
    (loaded : memory.buffer .msg = message) :
    Ensures anyOutcome (executeCommand conn [] code) memory
      fun trace exec _ => Leaves message code trace exec := by
  have tagged := tagOf_eq loaded
  have twoFields := fields_eq loaded [bytes " ", bytes "\x00"]
  have threeFields := fields_eq loaded [bytes " ", bytes " ", bytes " "]
  refine (ensures_op _ _).2 fun tag after called => ?_
  change memory.strtok (some .msg) (bytes " ") = _ at called
  rw [called] at tagged
  simp only [Strtok.tokens, called] at twoFields threeFields
  cases tag with
  | none =>
      refine (ensures_ret _).2 ⟨?_, .inr ⟨?_, rfl⟩⟩
      · simp [SizeWithoutName, twoFields]
      · simp [SetsStatus, tagged]
  | some tag =>
  have named (notSize : strcmp tag (bytes "SIZE") ≠ 0) :
      ¬ SizeWithoutName message := by
    rintro ⟨other, found, isSize⟩
    rw [twoFields, List.cons.injEq, Option.some.injEq] at found
    exact notSize (found.1 ▸ isSize)
  have noSize {name : String} (isTag : strcmp tag (bytes name) = 0)
      (different : cstr (bytes "SIZE") ≠ cstr (bytes name)) :
      ¬ SizeWithoutName message :=
    named fun size => strcmp_ne_of_size size different isTag
  refine (ensures_ite _ _ _).2 ⟨fun isList => ?list, fun notList => ?_⟩
  case list =>
    have sets (trace : List (Event Sys)) : SetsStatus message trace :=
      ⟨tag, tagged, by simp [isList]⟩
    refine (ensures_op _ _).2 fun path _ _ => ?_
    cases path <;>
      exact (exec_status _ _ _ _).mono fun _ _ _ digits =>
        ⟨noSize isList (by decide), .inl ⟨sets _, digits⟩⟩
  refine (ensures_ite _ _ _).2 ⟨fun isExec => ?exec, fun notExec => ?_⟩
  case exec =>
    refine (ensures_op _ _).2 fun command _ answered => ?_
    change after.strtok none (bytes "\x00") = _ at answered
    rw [answered] at twoFields
    cases command with
    | none =>
        refine (ensures_ret _).2
          ⟨noSize isExec (by decide), .inr ⟨?_, rfl⟩⟩
        simp [SetsStatus, tagged, notList, isExec, HasArgument, twoFields]
    | some command =>
        refine (exec_status _ _ _ _).mono fun _ _ _ digits =>
          ⟨noSize isExec (by decide), .inl ⟨?_, digits⟩⟩
        simp [SetsStatus, tagged, notList, isExec, HasArgument, twoFields]
  refine (ensures_ite _ _ _).2 ⟨fun isSize => ?size, fun notSize => ?_⟩
  case size =>
    refine (ensures_op _ _).2 fun filename _ answered => ?_
    change after.strtok none (bytes "\x00") = _ at answered
    rw [answered] at twoFields
    cases filename with
    | none => exact (ensures_op _ _).2 fun _ _ _ => ensures_diverge
    | some filename =>
        refine (exec_status _ _ _ _).mono fun _ _ _ digits =>
          ⟨?_, .inl ⟨?_, digits⟩⟩
        · simp [SizeWithoutName, twoFields]
        · simp [SetsStatus, tagged, notList, isSize, HasArgument, twoFields]
  have haveNames : HasNames message ↔ ∃ source dest,
      after.tokens none [bytes " ", bytes " "] = [some source, some dest] := by
    simp [HasNames, threeFields, Strtok.tokens]
  have digits : ThreeDigits (cstr (bytes "200")) := by decide
  refine (ensures_ite _ _ _).2 ⟨fun isDownload => ?download,
    fun notDownload => ?_⟩
  case download =>
    refine (executeDownload_settles _ _ _ _).mono fun trace exec _ settles => ?_
    have sets : SetsStatus message
        (⟨.strtok (some .msg) (bytes " "), some tag⟩ :: trace) ↔
        HasNames message ∧
          ∀ event ∈ trace, Succeeds event ∧ StaysOpen event := by
      simp [SetsStatus, tagged, notList, notExec, notSize, isDownload,
        Succeeds, StaysOpen]
    refine ⟨named notSize, ?_⟩
    rw [sets, haveNames]
    rcases settles with ⟨good, set⟩ | ⟨bad, unset⟩
    · exact .inl ⟨good, by rw [set]; exact digits⟩
    · exact .inr ⟨bad, unset⟩
  refine (ensures_ite _ _ _).2 ⟨fun isUpload => ?upload, fun notUpload => ?_⟩
  case upload =>
    refine (executeUpload_settles _ _ _ _).mono fun trace exec _ settles => ?_
    have sets : SetsStatus message
        (⟨.strtok (some .msg) (bytes " "), some tag⟩ :: trace) ↔
        HasNames message ∧ (∀ event ∈ trace, Succeeds event) ∧
          Confirmed trace := by
      simp [SetsStatus, tagged, notList, notExec, notSize, notDownload,
        isUpload, Succeeds, Confirmed, confirmation, isIndeterminate]
    refine ⟨named notSize, ?_⟩
    rw [sets, haveNames]
    rcases settles with ⟨good, set⟩ | ⟨bad, unset⟩
    · exact .inl ⟨good, by rw [set]; exact digits⟩
    · exact .inr ⟨bad, unset⟩
  refine (ensures_ret _).2 ⟨named notSize, .inl ⟨?_, by decide⟩⟩
  simp [SetsStatus, tagged, notList, notExec, notSize, notDownload, notUpload]

/-- A crash is one of `SIZE` without a name. -/
theorem executeCommand_crashes {conn : Int} {code message : List Byte}
    {memory final : Strtok Buffer} {trace : List (Event Sys)}
    {outcome : Option Outcome} (loaded : memory.buffer .msg = message)
    (run : Runs anyOutcome (executeCommand conn [] code) memory trace outcome
      final) (crashed : Crashed trace) :
    outcome = none ∧ SizeWithoutName message := by
  obtain ⟨stopped, asks⟩ := executeCommand_crash run.forget crashed
  refine ⟨stopped, ?_⟩
  have twoFields := fields_eq loaded [bytes " ", bytes "\x00"]
  rw [executeCommand_size] at run
  rcases run.op_cases with ⟨rfl, _⟩ | ⟨tag, after, rest, called, branch, rfl⟩
  · cases asks
  change memory.strtok (some .msg) (bytes " ") = _ at called
  cases tag with
  | none => cases asks
  | some tag =>
  by_cases size : strcmp tag (bytes "SIZE") = 0
  swap
  · rw [asksNamelessSize_of_strcmp_ne size] at asks
    cases asks
  simp only [size, if_true] at branch
  rcases branch.op_cases with ⟨rfl, _⟩ | ⟨name, _, last, named, _, rfl⟩
  · cases asks
  change after.strtok none (bytes "\x00") = _ at named
  cases name with
  | some name => cases asks
  | none => exact ⟨tag, by simp [twoFields, Strtok.tokens, called, named], size⟩

theorem SizeWithoutName.unset {message : List Byte}
    (nameless : SizeWithoutName message) (trace : List (Event Sys)) :
    ¬ SetsStatus message trace := by
  obtain ⟨tag, twoFields, isSize⟩ := nameless
  have tagged : tagOf message = some tag := by
    simp only [fields, Strtok.tokens, List.cons.injEq] at twoFields
    exact twoFields.1
  have notList : strcmp tag (bytes "LIST") ≠ 0 :=
    strcmp_ne_of_size isSize (by decide)
  simp [SetsStatus, tagged, notList, isSize, HasArgument, twoFields]

theorem sendReply_sent {σ : Type} {env : Env Sys σ} {conn : Int}
    {exec : Outcome} {state final : σ} {trace : List (Event Sys)}
    {done : Option Bool}
    (run : Runs env (sendReply conn exec) state trace done final) :
    sent conn trace <+: [cstr exec.code, cstr exec.result] := by
  have quiet {program : Prog Sys Bool} {state final : σ}
      {trace : List (Event Sys)} {value : Bool}
      (run : Runs env program state trace done final)
      (returns : program = .ret value) : trace = [] := by
    subst returns
    exact run.ret_cases.1
  unfold sendReply at run
  simp only [bind_eq, op_bind, ret_bind, pure_eq] at run
  rcases run.op_cases with ⟨rfl, _⟩ | ⟨first, _, rest, _, tail, rfl⟩
  · exact List.nil_prefix
  by_cases failed : first < (0 : Int)
  · simp only [failed, if_true] at tail
    simp [sentBy, quiet tail rfl]
  · simp only [failed, if_false] at tail
    rcases tail.op_cases with ⟨rfl, _⟩ | ⟨second, _, last, _, ending, rfl⟩
    · simp [sentBy]
    · have over_ : last = [] := by
        by_cases failed : second < (0 : Int)
        · simp only [failed, if_true] at ending
          exact quiet ending rfl
        · simp only [failed, if_false] at ending
          exact quiet ending rfl
      simp [sentBy, over_]

/-- No `NULL` was used, the status has three digits, and so the reply is three
bytes and then the result, as far as it gets. -/
structure StatusSet (conn : Int) (trace : List (Event Sys))
    (outcome : Option Outcome) : Prop where
  noNull : ¬ Crashed trace
  code : ∀ exec, outcome = some exec → ThreeDigits (cstr exec.code)
  reply : ∀ exec, outcome = some exec → ∀ sending done,
    Runs unconstrained (sendReply conn exec) () sending done () →
      sent conn sending <+: [cstr exec.code, cstr exec.result] ∧
        (cstr exec.code).length = 3

theorem statusSet_iff (conn : Int) {trace : List (Event Sys)}
    {outcome : Option Outcome} :
    StatusSet conn trace outcome ↔ ¬ Crashed trace ∧
      ∀ exec, outcome = some exec → ThreeDigits (cstr exec.code) :=
  ⟨fun set => ⟨set.noNull, set.code⟩, fun ⟨noNull, code⟩ =>
    ⟨noNull, code, fun exec returned _ _ run =>
      ⟨sendReply_sent run, (code exec returned).1⟩⟩⟩

/-- A run that has returned or crashed leaves a status exactly when it has set
one, or when there was one in `code` before and no file name is missing. -/
theorem status_set_iff {conn : Int} {code message : List Byte}
    {memory final : Strtok Buffer} {trace : List (Event Sys)}
    {outcome : Option Outcome} (loaded : memory.buffer .msg = message)
    (run : Runs anyOutcome (executeCommand conn [] code) memory trace outcome
      final) (ended : outcome.isSome ∨ Crashed trace) :
    StatusSet conn trace outcome ↔
      SetsStatus message trace ∨
        ThreeDigits (cstr code) ∧ ¬ SizeWithoutName message := by
  rw [statusSet_iff]
  by_cases crashed : Crashed trace
  · obtain ⟨_, nameless⟩ := executeCommand_crashes loaded run crashed
    simp [crashed, nameless, nameless.unset trace]
  · obtain ⟨exec, rfl⟩ := Option.isSome_iff_exists.1
      (ended.resolve_right crashed)
    obtain ⟨named, left⟩ := executeCommand_leaves conn code loaded _ _ _ run
    rcases left with ⟨sets, digits⟩ | ⟨unset, same⟩
    · simp [crashed, sets, digits]
    · simp [crashed, unset, same, named]

/-- The memory of a thread that has received the request `EXEC`. -/
def bareExec : Strtok Buffer where
  buffer _ := bytes "EXEC"
  save := none

def bareExecCalls : List (Event Sys) :=
  [⟨.strtok (some .msg) (bytes " "), some (bytes "EXEC")⟩,
    ⟨.strtok none (bytes "\x00"), none⟩]

theorem bareExec_runs (code : List Byte) :
    ∃ final, Runs anyOutcome (executeCommand 7 [] code) bareExec bareExecCalls
      (some { ret := protoErr, result := [], code }) final :=
  ⟨_, .op rfl (.op rfl (.ret _ _))⟩

theorem status_set_iff_bareExec :
    StatusSet 7 bareExecCalls
        (some { ret := protoErr, result := [], code := bytes "400" }) ↔
      SetsStatus (bytes "EXEC") bareExecCalls ∨
        ThreeDigits (cstr (bytes "400")) ∧ ¬ SizeWithoutName (bytes "EXEC") := by
  obtain ⟨final, run⟩ := bareExec_runs (bytes "400")
  exact status_set_iff rfl run (.inl rfl)

/-- `EXEC` without a command leaves the status as it was. -/
theorem status_unset :
    ¬ ∀ (conn : Int) (code message : List Byte) (memory final : Strtok Buffer)
      (trace : List (Event Sys)) (outcome : Option Outcome),
      memory.buffer .msg = message →
      Runs anyOutcome (executeCommand conn [] code) memory trace outcome final →
        (outcome.isSome ∨ Crashed trace) → StatusSet conn trace outcome := by
  intro set
  obtain ⟨final, run⟩ := bareExec_runs []
  have digits := (set _ _ _ _ _ _ _ rfl run (.inl rfl)).code _ rfl
  exact absurd digits (by decide)

end RemoteCommand
