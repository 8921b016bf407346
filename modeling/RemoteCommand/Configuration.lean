import RemoteCommand.Machine.Int
import RemoteCommand.Machine.Numeral
import RemoteCommand.Platform

/-!
# The configuration variables of server.c

`get_parameters`, `parse_conf_file`, `update_parameters` and `sighup_handler`.
The arguments of a program are `argv[1]` to `argv[argc - 1]`, and `none` is a
`NULL`.  A computation that reads through a `NULL` or writes behind `argv` is a
`Fault`.

The variables change together, behind a parsing without errors; otherwise they
all keep their values.
-/

namespace RemoteCommand

open Machine

structure Configuration where
  port : Int
  nThreads : Int
  confFile : Option (List Byte)
  logFile : Option (List Byte)
  s : Bool
  deriving DecidableEq, Repr

/-- `argc` and `argv`. -/
structure Arguments where
  argc : Nat
  argv : Nat → Option (List Byte)

/-- `ARGV_SIZE`. -/
def argvSize : Nat := 10

def char (letter : Char) : Byte :=
  BitVec.ofNat 8 letter.toNat

/-- What the file of a configuration is found to be: it cannot be opened, it
has no line, or its first line is read. -/
inductive ConfFile where
  | notOpened
  | notRead
  | line (text : List Byte)
  deriving DecidableEq, Repr

namespace Configuration

/-- The values before `main`. -/
def initial : Configuration where
  port := 8888
  nThreads := 10
  confFile := none
  logFile := some (bytes "/tmp/server.log")
  s := false

/-- An `int` option: the argument is read with `atoi`, and `0` is refused. -/
def number (argument : Option (List Byte)) : Except Fault (Option Int) :=
  match argument with
  | none => throw .outOfBounds
  | some text =>
      let value := atoi text
      return if value = 0 then none else some value

/-- The loop of `get_parameters` from `argv[index]` on, which turns at most
`turns` times; `none` is `PARAM_ERR`. -/
def parseFrom (arguments : Arguments) : Nat → Nat → Configuration →
    Except Fault (Option Configuration)
  | 0, _, temporary => return some temporary
  | turns + 1, index, temporary =>
      if arguments.argc ≤ index then
        return some temporary
      else
        match arguments.argv index with
        | none => throw .outOfBounds
        | some option => do
            let argument := arguments.argv (index + 1)
            if option.getD 0 0 ≠ char '-' then
              return none
            else if option.getD 1 0 = char 'p' then
              match ← number argument with
              | none => return none
              | some port =>
                  parseFrom arguments turns (index + 2) { temporary with port }
            else if option.getD 1 0 = char 'n' then
              match ← number argument with
              | none => return none
              | some nThreads =>
                  parseFrom arguments turns (index + 2)
                    { temporary with nThreads }
            else if option.getD 1 0 = char 's' then
              parseFrom arguments turns (index + 1) { temporary with s := true }
            else if option.getD 1 0 = char 'c' then
              parseFrom arguments turns (index + 2)
                { temporary with confFile := argument }
            else if option.getD 1 0 = char 'l' then
              parseFrom arguments turns (index + 2)
                { temporary with logFile := argument }
            else
              return none

/-- `get_parameters`: the result, and the variables behind the call. -/
def getParameters (arguments : Arguments) (current : Configuration) :
    Except Fault (Int × Configuration) := do
  match ← parseFrom arguments arguments.argc 1 current with
  | none => return (paramErr, current)
  | some temporary => return (ok, temporary)

/-- The `while` of `parse_conf_file`, when `argv[c]` has been stored: store the
next token until there is none, and return the place of the `NULL`.  The test
of `c` against `ARGV_SIZE` comes behind the store, so it never stops the loop:
the store into `argv[ARGV_SIZE]` comes first. -/
def fillArgv : Nat → Nat → Strtok Unit → (Nat → Option (List Byte)) →
    Except Fault (Nat × (Nat → Option (List Byte)))
  | 0, _, _, _ => throw .outOfBounds
  | turns + 1, c, parser, argv =>
      let (token, parser) := parser.strtok none (bytes " ")
      if argvSize ≤ c + 1 then
        throw .outOfBounds
      else
        let argv := Function.update argv (c + 1) token
        if token.isNone then
          return (c + 1, argv)
        else
          fillArgv turns (c + 1) parser argv

/-- `parse_conf_file` for the file that it finds behind a name. -/
def parseConfFile (fname : Option (List Byte)) (file : ConfFile) :
    Except Fault (Int × Option Arguments) :=
  match fname, file with
  | none, _ | _, .notOpened | _, .notRead => return (intErr, none)
  | some _, .line text => do
      let parser : Strtok Unit := { buffer := fun _ => text, save := none }
      let (first, parser) := parser.strtok (some ()) (bytes " ")
      let (c, argv) ← fillArgv argvSize 1 parser
        (Function.update (fun _ => none) 1 first)
      return (ok, some { argc := c - 1, argv })

/-- `update_parameters`: an error of `get_parameters` is printed only. -/
def updateParameters (file : ConfFile) (current : Configuration) :
    Except Fault (Int × Configuration) := do
  if current.confFile = none then
    return (ok, current)
  else
    match ← parseConfFile current.confFile file with
    | (_, none) => return (intErr, current)
    | (_, some arguments) =>
        let (_, updated) ← getParameters arguments current
        return (ok, updated)

/-- `sighup_handler`: the variables and the flag behind it. -/
def sighupHandler (file : ConfFile) (current : Configuration)
    (sighup : Bool) : Except Fault (Configuration × Bool) := do
  if current.confFile = none then
    return (current, sighup)
  else
    let (_, updated) ← updateParameters file current
    return (updated, true)

/-! ## The numbers are `int` values -/

structure AreInts (current : Configuration) : Prop where
  port : IsInt current.port
  nThreads : IsInt current.nThreads

theorem initial_areInts : initial.AreInts :=
  ⟨by decide, by decide⟩

theorem number_isInt {argument : Option (List Byte)} {value : Int}
    (read : number argument = .ok (some value)) : IsInt value := by
  cases argument with
  | none => cases read
  | some text =>
      obtain ⟨_, same⟩ := Option.ite_none_left_eq_some.mp (Except.ok.inj read)
      cases same
      exact atoi_isInt text

theorem parseFrom_areInts (arguments : Arguments) (turns : Nat) :
    ∀ (index : Nat) {temporary settled : Configuration}, temporary.AreInts →
      parseFrom arguments turns index temporary = .ok (some settled) →
        settled.AreInts := by
  induction turns with
  | zero =>
      intro index temporary settled areInts parsed
      cases parsed
      exact areInts
  | succ turns inductionHypothesis =>
      intro index temporary settled areInts parsed
      have ⟨port, nThreads⟩ := areInts
      unfold parseFrom at parsed
      split at parsed
      · cases parsed
        exact areInts
      split at parsed
      · cases parsed
      dsimp only at parsed
      split_ifs at parsed
      · cases parsed
      · -- `-p`
        obtain ⟨value, read, rest⟩ := bind_eq_ok parsed
        cases value with
        | none => cases rest
        | some value =>
            refine inductionHypothesis _ ?_ rest
            exact ⟨number_isInt read, nThreads⟩
      · -- `-n`
        obtain ⟨value, read, rest⟩ := bind_eq_ok parsed
        cases value with
        | none => cases rest
        | some value =>
            refine inductionHypothesis _ ?_ rest
            exact ⟨port, number_isInt read⟩
      -- `-s`, `-c` and `-l` set no number
      iterate 3
        · refine inductionHypothesis _ ?_ parsed
          exact ⟨port, nThreads⟩
      · cases parsed

theorem getParameters_areInts {arguments : Arguments}
    {current updated : Configuration} {ret : Int} (areInts : current.AreInts)
    (called : current.getParameters arguments = .ok (ret, updated)) :
    updated.AreInts := by
  obtain ⟨settled, parsed, rest⟩ := bind_eq_ok called
  cases settled with
  | none =>
      cases rest
      exact areInts
  | some settled =>
      cases rest
      exact parseFrom_areInts arguments _ _ areInts parsed

theorem updateParameters_areInts {file : ConfFile}
    {current updated : Configuration} {ret : Int} (areInts : current.AreInts)
    (called : current.updateParameters file = .ok (ret, updated)) :
    updated.AreInts := by
  unfold updateParameters at called
  split at called
  · cases called
    exact areInts
  obtain ⟨⟨_, line⟩, _, rest⟩ := bind_eq_ok called
  cases line with
  | none =>
      cases rest
      exact areInts
  | some arguments =>
      obtain ⟨_, result, rest⟩ := bind_eq_ok rest
      cases rest
      exact getParameters_areInts areInts result

theorem sighupHandler_areInts {file : ConfFile}
    {current updated : Configuration} {sighup raised : Bool}
    (areInts : current.AreInts)
    (handled : current.sighupHandler file sighup = .ok (updated, raised)) :
    updated.AreInts := by
  unfold sighupHandler at handled
  split at handled
  · cases handled
    exact areInts
  · obtain ⟨_, result, rest⟩ := bind_eq_ok handled
    cases rest
    exact updateParameters_areInts areInts result

end Configuration

end RemoteCommand
