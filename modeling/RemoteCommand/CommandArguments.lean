import RemoteCommand.Machine.Words
import RemoteCommand.SystemCommand

/-!
# Arguments on both sides

`parse_command` joins the arguments of the client with blanks.  For `LIST`,
`EXEC` and `SIZE` the server takes everything behind the first blank, so that
the joined arguments arrive as they were.  For `UPLOAD` and `DOWNLOAD` both
sides take the words behind the first blank, which are the arguments only if
there are no blanks in them.
-/

namespace RemoteCommand

open Interaction Machine Prog

/-! ## What parse_command builds -/

/-- Every argument behind a blank. -/
def joinArguments (arguments : List (List Byte)) : List Byte :=
  arguments.flatMap fun argument => 32 :: argument

theorem append_joinArguments_cons (cmd argument : List Byte)
    (arguments : List (List Byte)) :
    cmd ++ joinArguments (argument :: arguments) =
      cmd ++ [32] ++ argument ++ joinArguments arguments := by
  simp [joinArguments]

/-- A turn of the loop puts a blank and the argument behind the command. -/
theorem strcat_argument {cmd argument : List Byte} (clean : 0 ∉ cmd)
    (plain : 0 ∉ argument) :
    strcat (strcat cmd (bytes " ")) argument = cmd ++ [32] ++ argument ∧
      0 ∉ cmd ++ [32] ++ argument := by
  have blank : cstr (bytes " ") = [32] := by decide
  have together : 0 ∉ cmd ++ [32] := by
    rw [List.mem_append, List.mem_singleton]
    rintro (inside | inside)
    · exact clean inside
    · exact absurd inside (by decide)
  constructor
  · rw [strcat, strcat, cstr_eq_self clean, blank, cstr_eq_self together,
      cstr_eq_self plain]
  · rw [List.mem_append]
    exact fun member => member.elim together plain

theorem appendArguments_joins {arguments : List (List Byte)}
    (plain : ∀ argument ∈ arguments, 0 ∉ argument) :
    ∀ {cmd : List Byte}, 0 ∉ cmd →
      (cmd ++ joinArguments arguments).length < msgBufferSize →
      appendArguments cmd arguments = .ok (cmd ++ joinArguments arguments) := by
  induction arguments with
  | nil =>
      intro cmd _ _
      rw [joinArguments, List.flatMap_nil, List.append_nil]
      rfl
  | cons argument arguments inductionHypothesis =>
      intro cmd clean fits
      obtain ⟨first, others⟩ := List.forall_mem_cons.1 plain
      obtain ⟨turn, stillClean⟩ := strcat_argument clean first
      rw [append_joinArguments_cons] at fits ⊢
      have short : ¬ msgBufferSize ≤ (cmd ++ [32] ++ argument).length := by
        rw [List.length_append] at fits
        omega
      rw [appendArguments, turn, if_neg short]
      exact inductionHypothesis others stillClean fits

/-- The first two characters of an option, which choose the command. -/
def IsFlag (letter : Char) (option : List Byte) : Prop :=
  option.getD 0 0 = char '-' ∧ option.getD 1 0 = char letter

instance (letter : Char) (option : List Byte) :
    Decidable (IsFlag letter option) :=
  inferInstanceAs (Decidable (_ ∧ _))

/-- The command of each letter. -/
theorem IsFlag.commandTag {letter : Char} {tag : Word} {flag : List Byte}
    (isFlag : IsFlag letter flag)
    (chosen : (letter, tag) ∈ [('l', listTag), ('e', execTag), ('s', sizeTag),
      ('u', uploadTag), ('d', downloadTag)]) :
    commandTag flag = some tag.chars := by
  unfold RemoteCommand.commandTag
  rw [isFlag.2]
  simp only [List.mem_cons, Prod.mk.injEq, List.not_mem_nil, or_false] at chosen
  rcases chosen with ⟨rfl, rfl⟩ | ⟨rfl, rfl⟩ | ⟨rfl, rfl⟩ | ⟨rfl, rfl⟩ |
    ⟨rfl, rfl⟩ <;> decide

theorem parseCommand_joins {tag : Word} {flag : List Byte}
    (dash : flag.getD 0 0 = char '-') (found : commandTag flag = some tag.chars)
    {arguments : List (List Byte)}
    (plain : ∀ argument ∈ arguments, 0 ∉ argument)
    (fits : (tag.chars ++ joinArguments arguments).length < msgBufferSize) :
    parseCommand (flag :: arguments) =
      .ok (ok, tag.chars ++ joinArguments arguments) := by
  have clean : 0 ∉ tag.chars := fun member => (tag.plain 0 member).1 rfl
  rw [parseCommand, if_neg (not_not.2 dash), found]
  dsimp only
  rw [appendArguments_joins plain clean fits]
  rfl

/-- Behind the first blank stand the arguments, joined by single blanks. -/
theorem joinArguments_cons (argument : List Byte)
    (arguments : List (List Byte)) :
    joinArguments (argument :: arguments) =
      32 :: List.intercalate [32] (argument :: arguments) := by
  induction arguments generalizing argument with
  | nil => simp [joinArguments]
  | cons next arguments inductionHypothesis =>
      have unfolds : joinArguments (argument :: next :: arguments) =
          32 :: argument ++ joinArguments (next :: arguments) := rfl
      rw [unfolds, inductionHypothesis, List.intercalate_cons_cons]
      simp

theorem zero_notMem_joinArguments {arguments : List (List Byte)}
    (plain : ∀ argument ∈ arguments, 0 ∉ argument) :
    0 ∉ joinArguments arguments := by
  intro member
  obtain ⟨argument, given, inside⟩ := List.mem_flatMap.1 member
  rcases List.mem_cons.1 inside with blank | inside
  · exact absurd blank (by decide)
  · exact plain argument given inside

/-! ## The first calls of strtok -/

/-- A program whose first calls of `strtok` are answered by a memory: the
memory behind them, and the program that is left. -/
def tokenize {α : Type} : Strtok Buffer → Prog Sys α →
    Strtok Buffer × Prog Sys α
  | memory, .op (.strtok source delim) next =>
      let (token, memory) := memory.strtok source delim
      tokenize memory (next token)
  | memory, program => (memory, program)

theorem tokenize_strtok {α : Type} {memory after : Strtok Buffer}
    {source : Option Buffer} {delim : List Byte} {token : Option (List Byte)}
    (called : memory.strtok source delim = (token, after))
    (next : Option (List Byte) → Prog Sys α) :
    tokenize memory (.op (.strtok source delim) next) =
      tokenize after (next token) := by
  rw [tokenize, called]

/-! ## LIST, EXEC and SIZE -/

/-- `execute_command` behind its first call of `strtok`. -/
def executeToken (conn : Int) (code : List Byte) :
    Option (List Byte) → Prog Sys Outcome
  | none => .ret { ret := protoErr, result := [], code }
  | some tag => executeTag conn code tag

theorem executeCommand_eq (conn : Int) (code : List Byte) :
    executeCommand conn [] code =
      .op (.strtok (some .msg) (bytes " ")) (executeToken conn code) := by
  unfold executeCommand
  simp only [bind_eq, op_bind, ret_bind]
  rfl

/-- What `execute_command` does with the command `cmd` in `msg`, when no other
call of `strtok` comes between its own. -/
def executed (memory : Strtok Buffer) (conn : Int) (code cmd : List Byte) :
    Prog Sys Outcome :=
  (tokenize (memory.load .msg cmd) (executeCommand conn [] code)).2

/-- The arguments make an inquiry. -/
def Inquiry.ofArguments (tag : Word)
    (known : tag = listTag ∨ tag = execTag ∨ tag = sizeTag)
    (arguments : List (List Byte))
    (plain : ∀ argument ∈ arguments, 0 ∉ argument)
    (fits : (tag.chars ++ joinArguments arguments).length < msgBufferSize) :
    Inquiry where
  tag := tag
  known := known
  cmd := tag.chars ++ joinArguments arguments
  named := by
    cases arguments with
    | nil => exact .inl (List.append_nil _)
    | cons argument arguments =>
        rw [joinArguments_cons]
        exact .inr ⟨_, rfl⟩
  fits := fits
  plain := by
    rw [List.mem_append]
    rintro (inside | inside)
    · exact (tag.plain 0 inside).1 rfl
    · exact zero_notMem_joinArguments plain inside

/-- Whatever the memory, `execute_command` gets to what it executes. -/
theorem Inquiry.executed_eq (inquiry : Inquiry) (memory : Strtok Buffer)
    (conn : Int) (code : List Byte) :
    executed memory conn code inquiry.cmd =
      match inquiry.command with
      | some cmd => exec cmd []
      | none => inquiry.refusal code := by
  obtain ⟨memory₁, memory₂, first, second⟩ := inquiry.tokens memory .msg
  rw [executed, executeCommand_eq, tokenize_strtok first, executeToken,
    inquiry.executeTag_eq, tokenize_strtok second]
  unfold Inquiry.command
  cases systemCommand inquiry.tag inquiry.argument with
  | some cmd => rfl
  | none =>
      dsimp only [Inquiry.refusal]
      split_ifs <;> rfl

/-- The argument of an inquiry is what its arguments are joined to. -/
theorem argumentOf_joinArguments (tag : Word) (arguments : List (List Byte)) :
    argumentOf tag (tag.chars ++ joinArguments arguments) =
      if List.intercalate [32] arguments = [] then none
      else some (List.intercalate [32] arguments) := by
  cases arguments with
  | nil =>
      rw [argumentOf, joinArguments, List.flatMap_nil, List.append_nil,
        List.drop_of_length_le (Nat.le_succ _)]
      rfl
  | cons argument arguments =>
      rw [argumentOf, joinArguments_cons, List.drop_length_add_append,
        List.drop_succ_cons, List.drop_zero]
      split_ifs with empty
      · rw [empty]
      · split
        · exact absurd ‹_› empty
        · rfl

/-- `exec` gets `cmd`, which fits in its array. -/
def HandsToExec (program : Prog Sys Outcome) (cmd : List Byte) : Prop :=
  program = exec cmd [] ∧ cmd.length < msgBufferSize

/-- `parse_command` encodes the arguments, and on the encoded command
`execute_command` does what `expected` says, on any connection and whatever
`strtok` was used for before. -/
def Arrives (flag : List Byte) (arguments : List (List Byte))
    (expected : List Byte → Prog Sys Outcome → Prop) : Prop :=
  ∃ cmd, parseCommand (flag :: arguments) = .ok (ok, cmd) ∧
    ∀ memory conn code, expected code (executed memory conn code cmd)

/-- What an inquiry of arguments makes the server execute. -/
theorem arrives_inquiry {tag : Word} {flag : List Byte}
    {arguments : List (List Byte)}
    (known : tag = listTag ∨ tag = execTag ∨ tag = sizeTag)
    (dash : flag.getD 0 0 = char '-') (found : commandTag flag = some tag.chars)
    (plain : ∀ argument ∈ arguments, 0 ∉ argument)
    (fits : (tag.chars ++ joinArguments arguments).length < msgBufferSize)
    {expected : List Byte → Prog Sys Outcome → Prop}
    (executes : ∀ code, expected code
      (match systemCommand tag (if List.intercalate [32] arguments = [] then
          none else some (List.intercalate [32] arguments)) with
        | some cmd => exec cmd []
        | none => (Inquiry.ofArguments tag known arguments plain fits).refusal
            code)) :
    Arrives flag arguments expected := by
  refine ⟨_, parseCommand_joins dash found plain fits,
    fun memory conn code => ?_⟩
  have whole := (Inquiry.ofArguments tag known arguments plain fits).executed_eq
    memory conn code
  have argument : (Inquiry.ofArguments tag known arguments plain fits).argument =
      _ := argumentOf_joinArguments tag arguments
  rw [Inquiry.command, argument] at whole
  exact whole ▸ executes code

theorem zero_notMem_intercalate {arguments : List (List Byte)}
    (plain : ∀ argument ∈ arguments, 0 ∉ argument) :
    0 ∉ List.intercalate [32] arguments := by
  cases arguments with
  | nil => exact List.not_mem_nil
  | cons argument arguments =>
      have joined := zero_notMem_joinArguments plain
      rw [joinArguments_cons] at joined
      exact fun inside => joined (List.mem_cons_of_mem _ inside)

theorem length_intercalate_le (arguments : List (List Byte)) :
    (List.intercalate [32] arguments).length ≤
      (joinArguments arguments).length := by
  cases arguments with
  | nil => exact Nat.le_refl _
  | cons argument arguments =>
      rw [joinArguments_cons]
      exact Nat.le_succ _

theorem strcat_plain {first second : List Byte} (plain : 0 ∉ first)
    (alsoPlain : 0 ∉ second) : strcat first second = first ++ second := by
  rw [strcat, cstr_eq_self plain, cstr_eq_self alsoPlain]

/-- Without an argument `LIST` lists all the same. -/
theorem systemCommand_list {joined : List Byte} (plain : 0 ∉ joined) :
    systemCommand listTag (if joined = [] then none else some joined) =
      some (listCommand ++ joined) := by
  unfold systemCommand
  rw [if_pos rfl]
  split_ifs with empty
  · rw [empty, List.append_nil]
  · exact congrArg some (strcat_plain (by decide) plain)

theorem systemCommand_exec (argument : Option (List Byte)) :
    systemCommand execTag argument = argument := by
  unfold systemCommand
  rw [if_neg (by decide), if_pos rfl]

theorem systemCommand_size {joined : List Byte} (plain : 0 ∉ joined) :
    systemCommand sizeTag (some joined) = some (sizeCommand ++ joined) := by
  unfold systemCommand
  rw [if_neg (by decide), if_neg (by decide), Option.map_some,
    strcat_plain (by decide) plain]

/-- The arguments of `-l`, `-e` and `-s`, joined by single blanks, arrive at
`exec`. -/
theorem arguments_arrive (flag : List Byte) (arguments : List (List Byte))
    (plain : ∀ argument ∈ arguments, 0 ∉ argument) :
    let joined := List.intercalate [32] arguments
    (IsFlag 'l' flag →
      (listTag.chars ++ joinArguments arguments).length < msgBufferSize →
      Arrives flag arguments fun _ program =>
        HandsToExec program (listCommand ++ joined)) ∧
    (IsFlag 'e' flag →
      (execTag.chars ++ joinArguments arguments).length < msgBufferSize →
      Arrives flag arguments fun code program =>
        (joined ≠ [] → HandsToExec program joined) ∧
          (joined = [] →
            program = .ret { ret := protoErr, result := [], code })) ∧
    (IsFlag 's' flag →
      (sizeTag.chars ++ joinArguments arguments).length < msgBufferSize →
      joined ≠ [] → (sizeCommand ++ joined).length < msgBufferSize →
      Arrives flag arguments fun _ program =>
        HandsToExec program (sizeCommand ++ joined)) := by
  have noNull := zero_notMem_intercalate plain
  have shorter := length_intercalate_le arguments
  refine ⟨fun isFlag fits => ?_, fun isFlag fits => ?_,
    fun isFlag fits nonempty room => ?_⟩
  · apply arrives_inquiry (.inl rfl) isFlag.1 (isFlag.commandTag (by simp))
      plain fits
    intro code
    rw [systemCommand_list noNull]
    refine ⟨rfl, ?_⟩
    have prefixes : listCommand.length ≤ listTag.chars.length := by decide
    rw [List.length_append] at fits ⊢
    omega
  · apply arrives_inquiry (.inr (.inl rfl)) isFlag.1
      (isFlag.commandTag (by simp)) plain fits
    intro code
    rw [systemCommand_exec]
    split_ifs with empty
    · refine ⟨fun nonempty => absurd empty nonempty, fun _ => ?_⟩
      exact if_pos rfl
    · refine ⟨fun _ => ⟨rfl, ?_⟩, fun absent => absurd absent empty⟩
      rw [List.length_append] at fits
      omega
  · apply arrives_inquiry (.inr (.inr rfl)) isFlag.1
      (isFlag.commandTag (by simp)) plain fits
    intro code
    rw [if_neg nonempty, systemCommand_size noNull]
    exact ⟨rfl, room⟩

/-- Blanks and empty arguments arrive as well. -/
theorem arguments_arrive_blanks :
    Arrives (bytes "-e") [bytes "echo ", [], bytes "a b"] fun _ program =>
      HandsToExec program (bytes "echo   a b") := by
  obtain ⟨cmd, parsed, hands⟩ :=
    (arguments_arrive (bytes "-e") [bytes "echo ", [], bytes "a b"]
      (by decide)).2.1 (by decide) (by decide)
  exact ⟨cmd, parsed, fun memory conn code =>
    (hands memory conn code).1 (by decide)⟩

end RemoteCommand
