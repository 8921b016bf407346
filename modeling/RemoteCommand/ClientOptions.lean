import RemoteCommand.CommandArguments

/-!
# The options of the client

`USAGE` says `./client -h <ip_addr> -p <port> <cmd>`.  `get_parameters` reads
pairs of an option and a value up to the first other argument; it asks neither
whether an option has a value, nor in the end whether both were there.
-/

namespace RemoteCommand

open Interaction Machine

/-! ## The command line of USAGE -/

/-- The strings of `argv`, without `argv[0]` and without the `NULL` at the
end. -/
structure ArgumentVector where
  arguments : List (List Byte)
  strings : ∀ argument ∈ arguments, 0 ∉ argument

/-- An option with its value. -/
inductive Setting where
  | ip (text : List Byte)
  | port (text : List Byte)
  deriving DecidableEq

namespace Setting

def ip? : Setting → Option (List Byte)
  | ip text => some text
  | port _ => none

def port? : Setting → Option (List Byte)
  | ip _ => none
  | port text => some text

end Setting

/-- The last value that `-h` has. -/
def lastIp (settings : List Setting) : Option (List Byte) :=
  (settings.filterMap Setting.ip?).getLast?

/-- The last value that `-p` has. -/
def lastPort (settings : List Setting) : Option (List Byte) :=
  (settings.filterMap Setting.port?).getLast?

/-- No port is zero. -/
def Acceptable (settings : List Setting) : Prop :=
  ∀ text, .port text ∈ settings → atoi text ≠ 0

/-- Pairs of an option and a value, one behind the other. -/
inductive Pairs : List Setting → List (List Byte) → Prop
  | done : Pairs [] []
  | ip {option text : List Byte} {settings : List Setting}
      {arguments : List (List Byte)} :
      IsFlag 'h' option → Pairs settings arguments →
      Pairs (.ip text :: settings) (option :: text :: arguments)
  | port {option text : List Byte} {settings : List Setting}
      {arguments : List (List Byte)} :
      IsFlag 'p' option → Pairs settings arguments →
      Pairs (.port text :: settings) (option :: text :: arguments)

/-- The flags of the commands. -/
def commandFlags : List (Char × Word) :=
  [('l', listTag), ('e', execTag), ('s', sizeTag), ('u', uploadTag),
    ('d', downloadTag)]

/-- Acceptable options, and behind them the flag of a command with its
arguments. -/
structure Asks (argv : List (List Byte)) (settings : List Setting) (tag : Word)
    (arguments : List (List Byte)) : Prop where
  acceptable : Acceptable settings
  spelled : ∃ pairs letter flag, Pairs settings pairs ∧
    (letter, tag) ∈ commandFlags ∧ IsFlag letter flag ∧
      argv = pairs ++ flag :: arguments

/-- What the client is told to do, as `USAGE` states: both options are there. -/
structure Usage (argv : List (List Byte)) (settings : List Setting) (tag : Word)
    (arguments : List (List Byte)) : Prop
    extends Asks argv settings tag arguments where
  hasIp : (lastIp settings).isSome
  hasPort : (lastPort settings).isSome

/-- The values that `get_parameters` takes for its options; `none` is the `NULL`
behind the last argument. -/
def optionValues : List (List Byte) → List (Option (List Byte))
  | [] => []
  | option :: arguments =>
      if option.getD 0 0 ≠ char '-' then
        []
      else if option.getD 1 0 = char 'h' then
        match arguments with
        | [] => [none]
        | ip :: arguments => some ip :: optionValues arguments
      else if option.getD 1 0 = char 'p' then
        match arguments with
        | [] => [none]
        | argument :: arguments =>
            if atoi argument = 0 then [some argument]
            else some argument :: optionValues arguments
      else
        []

/-- What is claimed of `get_parameters`: it returns, with `OK` for the command
lines of `USAGE` only; it leaves the last values and the encoded command, and
never takes `NULL` for a value. -/
structure Conforms (argv : ArgumentVector) : Prop where
  returns : ∃ ret parameters,
    ClientParameters.unset.getParameters argv.arguments =
        .ok (ret, parameters) ∧
      (ret = ok ↔ ∃ settings tag arguments,
        Usage argv.arguments settings tag arguments) ∧
      ∀ settings tag arguments, Usage argv.arguments settings tag arguments →
        parameters =
          { ip := lastIp settings
            port := (lastPort settings).map atoi
            cmd := some (tag.chars ++ joinArguments arguments) }
  noNull : none ∉ optionValues argv.arguments

/-- Every option has a value, both options are there before a command, and the
command fits in `cmd`. -/
structure Complete (argv : ArgumentVector) : Prop where
  valued : ∀ settings pairs option, Acceptable settings →
    Pairs settings pairs → argv.arguments = pairs ++ [option] →
      ¬ IsFlag 'h' option ∧ ¬ IsFlag 'p' option
  given : ∀ settings tag arguments, Asks argv.arguments settings tag arguments →
    (lastIp settings).isSome ∧ (lastPort settings).isSome ∧
      (tag.chars ++ joinArguments arguments).length < msgBufferSize

/-! ## One way to read a command line -/

theorem IsFlag.letter_eq {first second : Char} {option : List Byte}
    (one : IsFlag first option) (another : IsFlag second option) :
    char first = char second :=
  one.2.symm.trans another.2

/-- The flags of the commands are no options. -/
theorem commandFlag_ne {letter : Char} {tag : Word} {flag : List Byte}
    (known : (letter, tag) ∈ commandFlags) (isFlag : IsFlag letter flag) :
    ¬ IsFlag 'h' flag ∧ ¬ IsFlag 'p' flag := by
  have different : ∀ entry ∈ commandFlags,
      char entry.1 ≠ char 'h' ∧ char entry.1 ≠ char 'p' := by
    decide
  obtain ⟨noIp, noPort⟩ := different _ known
  exact ⟨fun ip => noIp (isFlag.letter_eq ip),
    fun port => noPort (isFlag.letter_eq port)⟩

theorem Acceptable.tail {setting : Setting} {settings : List Setting}
    (acceptable : Acceptable (setting :: settings)) : Acceptable settings :=
  fun text member => acceptable text (List.mem_cons_of_mem _ member)

/-- No further pair stands at the beginning. -/
def Stops (rest : List (List Byte)) : Prop :=
  ∀ option text arguments, rest = option :: text :: arguments →
    ¬ IsFlag 'h' option ∧ (IsFlag 'p' option → atoi text = 0)

theorem stops_of_command {letter : Char} {tag : Word} {flag : List Byte}
    (known : (letter, tag) ∈ commandFlags) (isFlag : IsFlag letter flag)
    (arguments : List (List Byte)) : Stops (flag :: arguments) := by
  intro option text others same
  obtain ⟨rfl, _⟩ := List.cons.inj same
  obtain ⟨noIp, noPort⟩ := commandFlag_ne known isFlag
  exact ⟨noIp, fun port => absurd port noPort⟩

theorem stops_singleton (option : List Byte) : Stops [option] := by
  intro other text arguments same
  cases same

theorem pairs_unique {settings others : List Setting}
    {pairs more rest last : List (List Byte)} (first : Pairs settings pairs)
    (acceptable : Acceptable settings) (second : Pairs others more)
    (alsoAcceptable : Acceptable others) (stops : Stops rest)
    (alsoStops : Stops last) (same : pairs ++ rest = more ++ last) :
    settings = others ∧ rest = last := by
  induction first generalizing others more with
  | done =>
      cases second with
      | done => exact ⟨rfl, same⟩
      | ip isIp _ => exact absurd isIp (stops _ _ _ same).1
      | port isPort _ =>
          exact absurd ((stops _ _ _ same).2 isPort)
            (alsoAcceptable _ List.mem_cons_self)
  | ip isIp _ inductionHypothesis =>
      cases second with
      | done => exact absurd isIp (alsoStops _ _ _ same.symm).1
      | ip _ later =>
          simp only [List.cons_append, List.cons.injEq] at same
          obtain ⟨rfl, rfl, same⟩ := same
          obtain ⟨rfl, rfl⟩ := inductionHypothesis acceptable.tail later
            alsoAcceptable.tail same
          exact ⟨rfl, rfl⟩
      | port isPort _ =>
          obtain ⟨rfl, _⟩ := List.cons.inj same
          exact absurd (isIp.letter_eq isPort) (by decide)
  | port isPort _ inductionHypothesis =>
      cases second with
      | done =>
          exact absurd ((alsoStops _ _ _ same.symm).2 isPort)
            (acceptable _ List.mem_cons_self)
      | ip isIp _ =>
          obtain ⟨rfl, _⟩ := List.cons.inj same
          exact absurd (isPort.letter_eq isIp) (by decide)
      | port _ later =>
          simp only [List.cons_append, List.cons.injEq] at same
          obtain ⟨rfl, rfl, same⟩ := same
          obtain ⟨rfl, rfl⟩ := inductionHypothesis acceptable.tail later
            alsoAcceptable.tail same
          exact ⟨rfl, rfl⟩

/-- What can stand behind the pairs. -/
inductive Rest : List (List Byte) → Prop
  | none : Rest []
  | noOption {argument : List Byte} {arguments : List (List Byte)} :
      argument.getD 0 0 ≠ char '-' → Rest (argument :: arguments)
  | lastIp {option : List Byte} : IsFlag 'h' option → Rest [option]
  | lastPort {option : List Byte} : IsFlag 'p' option → Rest [option]
  | zeroPort {option text : List Byte} {arguments : List (List Byte)} :
      IsFlag 'p' option → atoi text = 0 → Rest (option :: text :: arguments)
  | flag {flag : List Byte} {arguments : List (List Byte)} :
      flag.getD 0 0 = char '-' → flag.getD 1 0 ≠ char 'h' →
      flag.getD 1 0 ≠ char 'p' → Rest (flag :: arguments)

theorem Rest.stops {rest : List (List Byte)} (behind : Rest rest) :
    Stops rest := by
  cases behind with
  | none => exact nofun
  | lastIp _ => exact stops_singleton _
  | lastPort _ => exact stops_singleton _
  | noOption noDash =>
      intro option text arguments same
      obtain ⟨rfl, _⟩ := List.cons.inj same
      exact ⟨fun ip => noDash ip.1, fun port => absurd port.1 noDash⟩
  | zeroPort isPort zero =>
      intro other value arguments same
      simp only [List.cons.injEq] at same
      obtain ⟨rfl, rfl, _⟩ := same
      exact ⟨fun ip => absurd (ip.letter_eq isPort) (by decide), fun _ => zero⟩
  | flag _ noIp noPort =>
      intro option text arguments same
      obtain ⟨rfl, _⟩ := List.cons.inj same
      exact ⟨fun ip => noIp ip.2, fun port => absurd port.2 noPort⟩

/-- Every command line begins with pairs, as many as there are. -/
theorem exists_pairs (argv : List (List Byte)) :
    ∃ settings pairs rest, Pairs settings pairs ∧ Acceptable settings ∧
      Rest rest ∧ argv = pairs ++ rest := by
  have nothing : Acceptable [] := fun _ member => nomatch member
  fun_induction optionValues argv with
  | case1 => exact ⟨[], [], [], .done, nothing, .none, rfl⟩
  | case2 option arguments noDash =>
      exact ⟨[], [], _, .done, nothing, .noOption noDash, rfl⟩
  | case3 option dash isIp =>
      exact ⟨[], [], _, .done, nothing, .lastIp ⟨not_not.1 dash, isIp⟩, rfl⟩
  | case4 option dash isIp ip arguments inductionHypothesis =>
      obtain ⟨settings, pairs, rest, spelled, acceptable, behind, rfl⟩ :=
        inductionHypothesis
      refine ⟨.ip ip :: settings, option :: ip :: pairs, rest,
        .ip ⟨not_not.1 dash, isIp⟩ spelled, fun text member => ?_, behind, rfl⟩
      exact acceptable text (by simpa using member)
  | case5 option dash noIp isPort =>
      exact ⟨[], [], _, .done, nothing, .lastPort ⟨not_not.1 dash, isPort⟩, rfl⟩
  | case6 option dash noIp isPort argument arguments zero =>
      exact ⟨[], [], _, .done, nothing,
        .zeroPort ⟨not_not.1 dash, isPort⟩ zero, rfl⟩
  | case7 option dash noIp isPort argument arguments positive
      inductionHypothesis =>
      obtain ⟨settings, pairs, rest, spelled, acceptable, behind, rfl⟩ :=
        inductionHypothesis
      refine ⟨.port argument :: settings, option :: argument :: pairs, rest,
        .port ⟨not_not.1 dash, isPort⟩ spelled, fun text member => ?_, behind,
        rfl⟩
      rcases List.mem_cons.1 member with same | later
      · cases same
        exact positive
      · exact acceptable text later
  | case8 option arguments dash noIp noPort =>
      exact ⟨[], [], _, .done, nothing, .flag (not_not.1 dash) noIp noPort, rfl⟩

/-! ## What the function does with it -/

theorem optionValues_pairs {settings : List Setting}
    {pairs : List (List Byte)} (spelled : Pairs settings pairs)
    (acceptable : Acceptable settings) (rest : List (List Byte)) :
    none ∈ optionValues (pairs ++ rest) ↔ none ∈ optionValues rest := by
  induction spelled with
  | done => rfl
  | ip isIp _ inductionHypothesis =>
      rw [List.cons_append, List.cons_append, optionValues,
        if_neg (not_not.2 isIp.1), if_pos isIp.2]
      simpa using inductionHypothesis acceptable.tail
  | port isPort _ inductionHypothesis =>
      have noIp : char 'p' ≠ char 'h' := by decide
      rw [List.cons_append, List.cons_append, optionValues,
        if_neg (not_not.2 isPort.1), isPort.2, if_neg noIp, if_pos rfl,
        if_neg (acceptable _ List.mem_cons_self)]
      simpa using inductionHypothesis acceptable.tail

namespace ClientParameters

/-- The parameters after an option. -/
def set (parameters : ClientParameters) : Setting → ClientParameters
  | .ip text => { parameters with ip := some text }
  | .port text => { parameters with port := some (atoi text) }

theorem getParameters_pairs {settings : List Setting}
    {pairs : List (List Byte)} (spelled : Pairs settings pairs)
    (acceptable : Acceptable settings) (rest : List (List Byte))
    (parameters : ClientParameters) :
    parameters.getParameters (pairs ++ rest) =
      (settings.foldl set parameters).getParameters rest := by
  induction spelled generalizing parameters with
  | done => rfl
  | ip isIp _ inductionHypothesis =>
      rw [List.cons_append, List.cons_append, getParameters,
        if_neg (not_not.2 isIp.1), if_pos isIp.2]
      exact inductionHypothesis acceptable.tail _
  | port isPort _ inductionHypothesis =>
      have noIp : char 'p' ≠ char 'h' := by decide
      rw [List.cons_append, List.cons_append, getParameters,
        if_neg (not_not.2 isPort.1), isPort.2, if_neg noIp, if_pos rfl]
      dsimp only
      rw [if_neg (acceptable _ List.mem_cons_self)]
      exact inductionHypothesis acceptable.tail _

/-- The last value of each option is kept. -/
theorem foldl_set_unset (settings : List Setting) :
    settings.foldl set unset =
      { ip := lastIp settings, port := (lastPort settings).map atoi
        cmd := none } := by
  induction settings using List.reverseRecOn with
  | nil => rfl
  | append_singleton settings setting inductionHypothesis =>
      rw [List.foldl_append, inductionHypothesis]
      cases setting <;>
        simp [set, lastIp, lastPort, Setting.ip?, Setting.port?,
          List.filterMap_append]

/-! ## Where the loop ends -/

theorem getParameters_noOption (parameters : ClientParameters)
    {argument : List Byte} (noDash : argument.getD 0 0 ≠ char '-')
    (arguments : List (List Byte)) :
    parameters.getParameters (argument :: arguments) =
      .ok (protoErr, parameters) := by
  rw [getParameters.eq_def]
  exact if_pos noDash

theorem getParameters_zeroPort (parameters : ClientParameters)
    {option text : List Byte} (isPort : IsFlag 'p' option)
    (zero : atoi text = 0) (arguments : List (List Byte)) :
    parameters.getParameters (option :: text :: arguments) =
      .ok (paramErr, { parameters with port := some (atoi text) }) := by
  have noIp : char 'p' ≠ char 'h' := by decide
  rw [getParameters, if_neg (not_not.2 isPort.1), isPort.2, if_neg noIp,
    if_pos rfl]
  exact if_pos zero

theorem getParameters_flag (parameters : ClientParameters) {flag : List Byte}
    (dash : flag.getD 0 0 = char '-') (notIp : flag.getD 1 0 ≠ char 'h')
    (notPort : flag.getD 1 0 ≠ char 'p') (arguments : List (List Byte)) :
    parameters.getParameters (flag :: arguments) = do
      let (ret, cmd) ← parseCommand (flag :: arguments)
      return (ret, { parameters with cmd := some cmd }) := by
  rw [getParameters.eq_def]
  dsimp only
  rw [if_neg (not_not.2 dash), if_neg notIp, if_neg notPort]

end ClientParameters

theorem optionValues_noOption {argument : List Byte}
    (noDash : argument.getD 0 0 ≠ char '-') (arguments : List (List Byte)) :
    optionValues (argument :: arguments) = [] := by
  rw [optionValues.eq_def]
  exact if_pos noDash

theorem optionValues_flag {flag : List Byte} (dash : flag.getD 0 0 = char '-')
    (notIp : flag.getD 1 0 ≠ char 'h') (notPort : flag.getD 1 0 ≠ char 'p')
    (arguments : List (List Byte)) : optionValues (flag :: arguments) = [] := by
  rw [optionValues.eq_def]
  dsimp only
  rw [if_neg (not_not.2 dash), if_neg notIp, if_neg notPort]

theorem optionValues_zeroPort {option text : List Byte}
    (isPort : IsFlag 'p' option) (zero : atoi text = 0)
    (arguments : List (List Byte)) :
    optionValues (option :: text :: arguments) = [some text] := by
  have noIp : char 'p' ≠ char 'h' := by decide
  rw [optionValues, if_neg (not_not.2 isPort.1), isPort.2, if_neg noIp,
    if_pos rfl, if_pos zero]

/-- An option without a value gets the `NULL` at the end of `argv`. -/
theorem optionValues_last {option : List Byte}
    (isOption : IsFlag 'h' option ∨ IsFlag 'p' option) :
    optionValues [option] = [none] := by
  have noIp : char 'p' ≠ char 'h' := by decide
  rcases isOption with isIp | isPort
  · rw [optionValues, if_neg (not_not.2 isIp.1), if_pos isIp.2]
  · rw [optionValues, if_neg (not_not.2 isPort.1), isPort.2, if_neg noIp,
      if_pos rfl]

/-- `strcat` writes behind `cmd` when the arguments are too long. -/
theorem appendArguments_overflows {arguments : List (List Byte)}
    (plain : ∀ argument ∈ arguments, 0 ∉ argument) :
    ∀ {cmd : List Byte}, 0 ∉ cmd → cmd.length < msgBufferSize →
      msgBufferSize ≤ (cmd ++ joinArguments arguments).length →
      appendArguments cmd arguments = .error .outOfBounds := by
  induction arguments with
  | nil =>
      intro cmd _ fits long
      rw [joinArguments, List.flatMap_nil, List.append_nil] at long
      exact absurd fits (Nat.not_lt.2 long)
  | cons argument arguments inductionHypothesis =>
      intro cmd clean _ long
      obtain ⟨first, others⟩ := List.forall_mem_cons.1 plain
      obtain ⟨turn, stillClean⟩ := strcat_argument clean first
      rw [append_joinArguments_cons] at long
      rw [appendArguments, turn]
      split_ifs with tooLong
      · rfl
      · exact inductionHypothesis others stillClean (Nat.lt_of_not_le tooLong)
          long

theorem exists_commandFlag {flag tag : List Byte}
    (dash : flag.getD 0 0 = char '-') (found : commandTag flag = some tag) :
    ∃ letter word, (letter, word) ∈ commandFlags ∧ IsFlag letter flag ∧
      word.chars = tag := by
  unfold commandTag at found
  split_ifs at found with isList isExec isSize isUpload isDownload
  · exact ⟨'l', listTag, by simp [commandFlags], ⟨dash, isList⟩,
      Option.some.inj found⟩
  · exact ⟨'e', execTag, by simp [commandFlags], ⟨dash, isExec⟩,
      Option.some.inj found⟩
  · exact ⟨'s', sizeTag, by simp [commandFlags], ⟨dash, isSize⟩,
      Option.some.inj found⟩
  · exact ⟨'u', uploadTag, by simp [commandFlags], ⟨dash, isUpload⟩,
      Option.some.inj found⟩
  · exact ⟨'d', downloadTag, by simp [commandFlags], ⟨dash, isDownload⟩,
      Option.some.inj found⟩

section Reading

variable {argv : ArgumentVector} {settings : List Setting}
  {pairs rest : List (List Byte)}

/-- What the program is asked stands behind the pairs. -/
theorem asks_iff (spelled : Pairs settings pairs)
    (acceptable : Acceptable settings) (stops : Stops rest)
    (whole : argv.arguments = pairs ++ rest) {others : List Setting}
    {tag : Word} {arguments : List (List Byte)} :
    Asks argv.arguments others tag arguments ↔
      others = settings ∧ ∃ letter flag, (letter, tag) ∈ commandFlags ∧
        IsFlag letter flag ∧ rest = flag :: arguments := by
  constructor
  · rintro ⟨alsoAcceptable, more, letter, flag, again, known, isFlag, same⟩
    obtain ⟨rfl, rfl⟩ := pairs_unique spelled acceptable again alsoAcceptable
      stops (stops_of_command known isFlag arguments) (whole.symm.trans same)
    exact ⟨rfl, letter, flag, known, isFlag, rfl⟩
  · rintro ⟨rfl, letter, flag, known, isFlag, rfl⟩
    exact ⟨acceptable, pairs, letter, flag, spelled, known, isFlag, whole⟩

/-- A command line that asks for nothing is refused. -/
theorem conforms_iff_refused (spelled : Pairs settings pairs)
    (acceptable : Acceptable settings) (stops : Stops rest)
    (whole : argv.arguments = pairs ++ rest) {ret : Int}
    {parameters : ClientParameters}
    (noCommand : ∀ flag arguments, rest = flag :: arguments →
      ∀ entry ∈ commandFlags, ¬ IsFlag entry.1 flag)
    (returns : ClientParameters.getParameters
      { ip := lastIp settings, port := (lastPort settings).map atoi
        cmd := none } rest = .ok (ret, parameters))
    (refused : ret ≠ ok) (noNull : none ∉ optionValues rest)
    (valued : ∀ option, rest = [option] →
      ¬ IsFlag 'h' option ∧ ¬ IsFlag 'p' option) :
    Conforms argv ↔ Complete argv := by
  have nothing (others : List Setting) (tag : Word)
      (arguments : List (List Byte)) :
      ¬ Asks argv.arguments others tag arguments := by
    rw [asks_iff spelled acceptable stops whole]
    rintro ⟨_, letter, flag, known, isFlag, same⟩
    exact noCommand flag arguments same _ known isFlag
  have parses := ClientParameters.getParameters_pairs spelled acceptable rest
    .unset
  rw [ClientParameters.foldl_set_unset, ← whole] at parses
  have values := optionValues_pairs spelled acceptable rest
  rw [← whole] at values
  refine iff_of_true ⟨⟨ret, parameters, parses.trans returns,
      iff_of_false refused ?_, ?_⟩, fun inside => noNull (values.1 inside)⟩
    ⟨?_, fun _ _ _ asks => absurd asks (nothing _ _ _)⟩
  · rintro ⟨others, tag, arguments, usage⟩
    exact nothing _ _ _ usage.toAsks
  · exact fun _ _ _ usage => absurd usage.toAsks (nothing _ _ _)
  · intro others more option alsoAcceptable again same
    exact valued option (pairs_unique spelled acceptable again alsoAcceptable
      stops (stops_singleton option) (whole.symm.trans same)).2

/-- An option without a value takes `NULL`. -/
theorem conforms_iff_last (spelled : Pairs settings pairs)
    (acceptable : Acceptable settings) {option : List Byte}
    (isOption : IsFlag 'h' option ∨ IsFlag 'p' option)
    (whole : argv.arguments = pairs ++ [option]) :
    Conforms argv ↔ Complete argv := by
  have values := optionValues_pairs spelled acceptable [option]
  rw [← whole, optionValues_last isOption] at values
  refine iff_of_false (fun conforms => ?_) fun complete => ?_
  · exact conforms.noNull (values.2 (List.mem_singleton_self none))
  · obtain ⟨notIp, notPort⟩ := complete.valued _ _ _ acceptable spelled whole
    exact isOption.elim notIp notPort

section Command

variable {letter : Char} {tag : Word} {flag : List Byte}
  {arguments : List (List Byte)}

theorem asks_command_iff (spelled : Pairs settings pairs)
    (acceptable : Acceptable settings) (known : (letter, tag) ∈ commandFlags)
    (isFlag : IsFlag letter flag)
    (whole : argv.arguments = pairs ++ flag :: arguments)
    {others : List Setting} {other : Word} {given : List (List Byte)} :
    Asks argv.arguments others other given ↔
      others = settings ∧ other = tag ∧ given = arguments := by
  rw [asks_iff spelled acceptable (stops_of_command known isFlag arguments)
    whole]
  constructor
  · rintro ⟨rfl, again, another, alsoKnown, alsoFlag, same⟩
    obtain ⟨rfl, rfl⟩ := List.cons.inj same
    have tags := (alsoFlag.commandTag alsoKnown).symm.trans
      (isFlag.commandTag known)
    exact ⟨rfl, Word.eq_of_chars (Option.some.inj tags), rfl⟩
  · rintro ⟨rfl, rfl, rfl⟩
    exact ⟨rfl, letter, flag, known, isFlag, rfl⟩

/-- A command is parsed without a look at the options before it. -/
theorem getParameters_command (spelled : Pairs settings pairs)
    (acceptable : Acceptable settings) (known : (letter, tag) ∈ commandFlags)
    (isFlag : IsFlag letter flag)
    (whole : argv.arguments = pairs ++ flag :: arguments) :
    (ClientParameters.unset.getParameters argv.arguments = do
      let (ret, cmd) ← parseCommand (flag :: arguments)
      return (ret,
        { ip := lastIp settings, port := (lastPort settings).map atoi
          cmd := some cmd })) ∧
      none ∉ optionValues argv.arguments := by
  obtain ⟨noIp, noPort⟩ := commandFlag_ne known isFlag
  have notIp : flag.getD 1 0 ≠ char 'h' := fun ip => noIp ⟨isFlag.1, ip⟩
  have notPort : flag.getD 1 0 ≠ char 'p' := fun port =>
    noPort ⟨isFlag.1, port⟩
  rw [whole]
  constructor
  · rw [ClientParameters.getParameters_pairs spelled acceptable,
      ClientParameters.foldl_set_unset,
      ClientParameters.getParameters_flag _ isFlag.1 notIp notPort]
  · rw [optionValues_pairs spelled acceptable,
      optionValues_flag isFlag.1 notIp notPort]
    exact List.not_mem_nil

theorem complete_command_iff (spelled : Pairs settings pairs)
    (acceptable : Acceptable settings) (known : (letter, tag) ∈ commandFlags)
    (isFlag : IsFlag letter flag)
    (whole : argv.arguments = pairs ++ flag :: arguments) :
    Complete argv ↔ (lastIp settings).isSome ∧ (lastPort settings).isSome ∧
      (tag.chars ++ joinArguments arguments).length < msgBufferSize := by
  constructor
  · intro complete
    exact complete.given _ _ _ <|
      (asks_command_iff spelled acceptable known isFlag whole).2 ⟨rfl, rfl, rfl⟩
  · intro given
    constructor
    · intro more pairs' option alsoAcceptable again same
      obtain ⟨_, last⟩ := pairs_unique spelled acceptable again alsoAcceptable
        (stops_of_command known isFlag arguments) (stops_singleton option)
        (whole.symm.trans same)
      obtain ⟨rfl, _⟩ := List.cons.inj last
      exact commandFlag_ne known isFlag
    · intro others other arguments' asked
      obtain ⟨rfl, rfl, rfl⟩ :=
        (asks_command_iff spelled acceptable known isFlag whole).1 asked
      exact given

/-- A command that does not fit is written behind `cmd`. -/
theorem parseCommand_overflows (known : (letter, tag) ∈ commandFlags)
    (isFlag : IsFlag letter flag)
    (plain : ∀ argument ∈ arguments, 0 ∉ argument)
    (long : ¬ (tag.chars ++ joinArguments arguments).length < msgBufferSize) :
    parseCommand (flag :: arguments) = .error .outOfBounds := by
  have short : tag.chars.length < msgBufferSize := by
    have all : ∀ entry ∈ commandFlags,
        entry.2.chars.length < msgBufferSize := by
      decide
    exact all _ known
  rw [parseCommand, if_neg (not_not.2 isFlag.1), isFlag.commandTag known]
  dsimp only
  rw [appendArguments_overflows plain (fun member => (tag.plain 0 member).1 rfl)
    short (Nat.not_lt.1 long)]
  rfl

theorem conforms_iff_command (spelled : Pairs settings pairs)
    (acceptable : Acceptable settings) (known : (letter, tag) ∈ commandFlags)
    (isFlag : IsFlag letter flag)
    (whole : argv.arguments = pairs ++ flag :: arguments) :
    Conforms argv ↔ Complete argv := by
  obtain ⟨parses, noNull⟩ :=
    getParameters_command spelled acceptable known isFlag whole
  have asks {others : List Setting} {other : Word}
      {given : List (List Byte)} :=
    @asks_command_iff argv settings pairs letter tag flag arguments spelled
      acceptable known isFlag whole others other given
  have plain : ∀ argument ∈ arguments, 0 ∉ argument := fun argument member =>
    argv.strings argument (by simp [whole, member])
  rw [complete_command_iff spelled acceptable known isFlag whole]
  by_cases fits : (tag.chars ++ joinArguments arguments).length < msgBufferSize
  · rw [parseCommand_joins isFlag.1 (isFlag.commandTag known) plain fits]
      at parses
    constructor
    · intro conforms
      obtain ⟨ret, parameters, returns, accepts, _⟩ := conforms.returns
      rw [parses] at returns
      obtain ⟨rfl, _⟩ := Prod.mk.inj (Except.ok.inj returns)
      obtain ⟨others, other, given, usage⟩ := accepts.1 rfl
      obtain ⟨rfl, rfl, rfl⟩ := asks.1 usage.toAsks
      exact ⟨usage.hasIp, usage.hasPort, fits⟩
    · intro ⟨hasIp, hasPort, _⟩
      have usage : Usage argv.arguments settings tag arguments :=
        ⟨asks.2 ⟨rfl, rfl, rfl⟩, hasIp, hasPort⟩
      refine ⟨⟨ok, _, parses, iff_of_true rfl ⟨_, _, _, usage⟩, ?_⟩, noNull⟩
      intro others other given another
      obtain ⟨rfl, rfl, rfl⟩ := asks.1 another.toAsks
      rfl
  · refine iff_of_false (fun conforms => ?_) fun given => fits given.2.2
    obtain ⟨ret, parameters, returns, _⟩ := conforms.returns
    rw [parses, parseCommand_overflows known isFlag plain fits] at returns
    cases returns

end Command

end Reading

/-- `get_parameters` does what `USAGE` states exactly for the complete command
lines. -/
theorem conforms_iff_complete (argv : ArgumentVector) :
    Conforms argv ↔ Complete argv := by
  obtain ⟨settings, pairs, rest, spelled, acceptable, behind, whole⟩ :=
    exists_pairs argv.arguments
  have stops := behind.stops
  cases behind with
  | none =>
      refine conforms_iff_refused spelled acceptable stops whole nofun rfl
        (by decide : protoErr ≠ ok) List.not_mem_nil nofun
  | noOption noDash =>
      refine conforms_iff_refused spelled acceptable stops whole ?_
        (ClientParameters.getParameters_noOption _ noDash _)
        (by decide : protoErr ≠ ok) ?_ ?_
      · rintro flag others same entry _ isFlag
        obtain ⟨rfl, _⟩ := List.cons.inj same
        exact noDash isFlag.1
      · rw [optionValues_noOption noDash]
        exact List.not_mem_nil
      · intro option same
        obtain ⟨rfl, _⟩ := List.cons.inj same
        exact ⟨fun ip => noDash ip.1, fun port => noDash port.1⟩
  | lastIp isIp => exact conforms_iff_last spelled acceptable (.inl isIp) whole
  | lastPort isPort =>
      exact conforms_iff_last spelled acceptable (.inr isPort) whole
  | zeroPort isPort zero =>
      refine conforms_iff_refused spelled acceptable stops whole ?_
        (ClientParameters.getParameters_zeroPort _ isPort zero _)
        (by decide : paramErr ≠ ok) ?_ nofun
      · rintro flag others same entry known isFlag
        obtain ⟨rfl, _⟩ := List.cons.inj same
        exact (commandFlag_ne known isFlag).2 isPort
      · rw [optionValues_zeroPort isPort zero]
        simp
  | @flag flag arguments dash notIp notPort =>
      cases found : commandTag flag with
      | some tag =>
          obtain ⟨letter, word, known, isFlag, _⟩ :=
            exists_commandFlag dash found
          exact conforms_iff_command spelled acceptable known isFlag whole
      | none =>
      have unknown : parseCommand (flag :: arguments) = .ok (commErr, []) := by
        rw [parseCommand, if_neg (not_not.2 dash), found]
        rfl
      let left : ClientParameters :=
        { ip := lastIp settings, port := (lastPort settings).map atoi
          cmd := some [] }
      refine @conforms_iff_refused argv settings pairs _ spelled acceptable
        stops whole commErr left ?_ ?_ (by decide) ?_ ?_
      · rintro other others same entry known isFlag
        obtain ⟨rfl, _⟩ := List.cons.inj same
        rw [isFlag.commandTag known] at found
        cases found
      · rw [ClientParameters.getParameters_flag _ dash notIp notPort, unknown]
        rfl
      · rw [optionValues_flag dash notIp notPort]
        exact List.not_mem_nil
      · intro option same
        obtain ⟨rfl, _⟩ := List.cons.inj same
        exact ⟨fun ip => notIp ip.2, fun port => notPort port.2⟩

/-- `-l .` is accepted without an address and a port, and `-h` takes `NULL`. -/
theorem options_not_checked :
    ¬ Conforms ⟨[bytes "-l", bytes "."], by decide⟩ ∧
      ¬ Conforms ⟨[bytes "-h"], by decide⟩ := by
  have nothing : Acceptable [] := fun _ member => nomatch member
  constructor
  · intro conforms
    have complete := (@conforms_iff_command
      ⟨[bytes "-l", bytes "."], by decide⟩ [] [] 'l' listTag (bytes "-l")
      [bytes "."] .done nothing List.mem_cons_self (by decide) rfl).1 conforms
    have given := complete.given [] listTag [bytes "."]
      ⟨nothing, [], 'l', bytes "-l", .done, List.mem_cons_self, by decide, rfl⟩
    cases given.1
  · intro conforms
    have complete := (@conforms_iff_last ⟨[bytes "-h"], by decide⟩ [] [] .done
      nothing (bytes "-h") (.inl (by decide)) rfl).1 conforms
    exact (complete.valued [] [] (bytes "-h") nothing .done rfl).1 (by decide)

end RemoteCommand
