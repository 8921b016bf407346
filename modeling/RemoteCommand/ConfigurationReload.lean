import RemoteCommand.ConfigurationBounds
import RemoteCommand.ConfigurationLine
import RemoteCommand.PrintedNumbers

/-!
# Settings in the configuration file

A configuration file can hold every setting but `s`, which no line turns off:
the paths first, and the port at the end, where `atoi` does not mind the line
break.  A reload from such a line installs the settings whatever the server had
before.  A reload that does not change the name of the file settles the
configuration: further reloads from the same files change nothing.
-/

namespace RemoteCommand

open Machine

/-! ## Settings that can be written -/

/-- Settings that `get_parameters` accepts, with paths that stay in one piece on
a line. -/
structure WrittenSettings where
  port : Int
  nThreads : Int
  confFile : List Byte
  logFile : List Byte
  port_isInt : IsInt port
  nThreads_isInt : IsInt nThreads
  port_ne_zero : port ≠ 0
  nThreads_ne_zero : nThreads ≠ 0
  confFile_isToken : IsToken confFile
  logFile_isToken : IsToken logFile

namespace WrittenSettings

variable (settings : WrittenSettings)

/-- The words on the line in front of the port. -/
def front : List (List Byte) :=
  [bytes "-l", settings.logFile, bytes "-c", settings.confFile, bytes "-n",
    decimalInt settings.nThreads, bytes "-p"]

def line : List Byte :=
  lineOf (settings.front ++ [decimalInt settings.port])

def install (current : Configuration) : Configuration where
  port := settings.port
  nThreads := settings.nThreads
  confFile := some settings.confFile
  logFile := some settings.logFile
  s := current.s

theorem isToken_decimalInt (value : Int) : IsToken (decimalInt value) := by
  constructor
  · unfold decimalInt
    split_ifs
    · exact List.append_ne_nil_of_left_ne_nil (by decide) _
    · exact decimal_ne_nil _
  · intro byte member
    rcases mem_decimalInt member with rfl | digits
    · decide
    · constructor
      · rintro rfl
        revert digits
        decide
      · simp only [isspace, decide_eq_false_iff_not]
        omega

theorem lineWords_line :
    lineWords settings.line =
      settings.front ++ [decimalInt settings.port ++ [10]] := by
  refine lineWords_lineOf (isToken_decimalInt _) ?_
  simp only [front, List.forall_mem_cons]
  exact ⟨by decide, settings.logFile_isToken, by decide,
    settings.confFile_isToken, by decide, isToken_decimalInt _, by decide,
    List.forall_mem_nil _⟩

theorem room_line : Configuration.Room settings.line := by
  rw [Configuration.room_iff, lineWords_line]
  exact Nat.le_refl 8

theorem accepted_path {option : List Byte} (value : Option (List Byte))
    (isOption : parameterOf option ≠ none)
    (path : parameterOf option ≠ some .port ∧ parameterOf option ≠ some .nThreads) :
    (entryAt option value).Accepted :=
  ⟨isOption, fun numeric => (numeric.elim path.1 path.2).elim⟩

theorem accepted_number {option text : List Byte} (takes : TakesValue option)
    (nonzero : atoi text ≠ 0) : (entryAt option (some text)).Accepted := by
  refine ⟨takes.1, fun _ => ?_⟩
  rw [Entry.number, entryAt, if_pos takes]
  exact nonzero

theorem atoi_port : atoi (decimalInt settings.port ++ [10]) = settings.port := by
  have isToken := isToken_decimalInt settings.port
  rw [atoi_newline isToken.1 fun byte member => (isToken.2 byte member).2,
    atoi_decimalInt settings.port_isInt]

theorem atoi_nThreads : atoi (decimalInt settings.nThreads) = settings.nThreads :=
  atoi_decimalInt settings.nThreads_isInt

/-- The scan of the line. -/
def entries : List Entry :=
  [entryAt (bytes "-l") (some settings.logFile),
    entryAt (bytes "-c") (some settings.confFile),
    entryAt (bytes "-n") (some (decimalInt settings.nThreads)),
    entryAt (bytes "-p") (some (decimalInt settings.port ++ [10]))]

theorem entries_accepted : ∀ entry ∈ settings.entries, entry.Accepted := by
  simp only [entries, List.forall_mem_cons]
  refine ⟨accepted_path _ (by decide) (by decide),
    accepted_path _ (by decide) (by decide),
    accepted_number (by decide) ?_, accepted_number (by decide) ?_,
    List.forall_mem_nil _⟩
  · rw [atoi_nThreads]
    exact settings.nThreads_ne_zero
  · rw [atoi_port]
    exact settings.port_ne_zero

theorem scan_front :
    scan (some (decimalInt settings.port ++ [10])) settings.front =
      settings.entries := by
  have accepted := settings.entries_accepted
  simp only [entries, List.forall_mem_cons] at accepted
  obtain ⟨logFile, confFile, nThreads, _⟩ := accepted
  rw [front, scan_value (by decide), if_pos logFile, scan_value (by decide),
    if_pos confFile, scan_value (by decide), if_pos nThreads, scan_last]
  rfl

theorem lastSettings_entries (current : Configuration) :
    lastSettings settings.entries current = settings.install current := by
  have applied : lastSettings settings.entries current =
      { settings.install current with
        port := atoi (decimalInt settings.port ++ [10])
        nThreads := atoi (decimalInt settings.nThreads) } :=
    (foldl_apply settings.entries current).symm
  rw [applied, settings.atoi_port, settings.atoi_nThreads]
  rfl

/-- The line is read as the settings that were written, whatever the server had
before. -/
theorem updateParameters_line {current : Configuration}
    (isSet : current.confFile ≠ none) :
    current.updateParameters (.line settings.line) =
      .ok (ok, settings.install current) := by
  rw [updateParameters_settle settings.room_line isSet, lineWords_line,
    List.getLast?_append_of_ne_nil _ (List.cons_ne_nil _ _),
    List.dropLast_concat, List.getLast?_singleton, scan_front]
  obtain ⟨settled, settles, outcome⟩ := settle_outcome
    (fun entry member => (settings.entries_accepted entry member).not_convertsNull)
    current
  rw [settles]
  have installed : settled.getD current = settings.install current := by
    rw [outcome, outcomeOf, if_pos settings.entries_accepted,
      lastSettings_entries]
  rw [← installed]
  rfl

end WrittenSettings

/-! ## Reloads -/

/-- What is found behind the names of files. -/
abbrev Files : Type :=
  List Byte → ConfFile

namespace Configuration

/-- The file that the configuration names. -/
def file (files : Files) (current : Configuration) : ConfFile :=
  (current.confFile.map files).getD .notOpened

/-- A SIGHUP, with what `sighup_handler` finds. -/
def reload (files : Files) (current : Configuration) :
    Except Fault Configuration := do
  let (updated, _) ← current.sighupHandler (current.file files) false
  return updated

def reloads (files : Files) : Nat → Configuration → Except Fault Configuration
  | 0, current => return current
  | count + 1, current => do
      reloads files count (← current.reload files)

end Configuration

/-- Settings that have been installed are installed again as they are. -/
theorem outcomeOf_idem (entries : List Entry) (current : Configuration) :
    outcomeOf entries (outcomeOf entries current) =
      outcomeOf entries current := by
  by_cases accepted : ∀ entry ∈ entries, entry.Accepted
  · simp only [outcomeOf, if_pos accepted]
    unfold lastSettings
    congr 1
    · cases lastValue .port entries <;> rfl
    · cases lastValue .nThreads entries <;> rfl
    · cases lastValue .confFile entries <;> rfl
    · cases lastValue .logFile entries <;> rfl
    · cases lastValue .s entries <;> rfl
  · simp only [outcomeOf, if_neg accepted]

/-- A line that fits in `argv` has the outcome of its places. -/
theorem updateParameters_outcome {text : List Byte} {current : Configuration}
    (room : Configuration.Room text) (isSet : current.confFile ≠ none) :
    current.updateParameters (.line text) =
      let places := scan (lineWords text).getLast? (lineWords text).dropLast
      if ∃ entry ∈ places, entry.ConvertsNull then .error .outOfBounds
      else .ok (ok, outcomeOf places current) := by
  rw [updateParameters_settle room isSet]
  dsimp only
  split_ifs with converts
  · rw [settle_scan _ converts]
    rfl
  · obtain ⟨settled, settles, outcome⟩ :=
      settle_outcome (by simpa using converts) current
    rw [settles, ← outcome]
    rfl

/-- A line that is read once more changes nothing. -/
theorem updateParameters_again {text : List Byte} {current updated : Configuration}
    {ret : Int} (isSet : current.confFile ≠ none)
    (updates : current.updateParameters (.line text) = .ok (ret, updated))
    (stillSet : updated.confFile ≠ none) :
    updated.updateParameters (.line text) = .ok (ret, updated) := by
  by_cases room : Configuration.Room text
  · rw [updateParameters_outcome room isSet] at updates
    rw [updateParameters_outcome room stillSet]
    dsimp only at updates ⊢
    split_ifs at updates ⊢ with converts
    cases updates
    rw [outcomeOf_idem]
  · obtain ⟨fname, named⟩ := Option.ne_none_iff_exists'.1 isSet
    rw [Configuration.updateParameters, if_neg isSet, named,
      Configuration.parseConfFile_noRoom room fname] at updates
    cases updates

namespace Configuration

theorem sighupHandler_ok {file : ConfFile} {current updated : Configuration}
    {ret : Int} (updates : current.updateParameters file = .ok (ret, updated)) :
    ∃ flag, current.sighupHandler file false = .ok (updated, flag) := by
  by_cases isSet : current.confFile = none
  · refine ⟨false, ?_⟩
    rw [updateParameters, if_pos isSet] at updates
    cases updates
    exact if_pos isSet
  · refine ⟨true, ?_⟩
    rw [sighupHandler, if_neg isSet, updates]
    rfl

theorem reload_ok_iff {files : Files} {current updated : Configuration} :
    current.reload files = .ok updated ↔
      ∃ ret, current.updateParameters (current.file files) =
        .ok (ret, updated) := by
  constructor
  · intro reloaded
    by_cases isSet : current.confFile = none
    · rw [reload, sighupHandler, if_pos isSet] at reloaded
      cases reloaded
      exact ⟨ok, if_pos isSet⟩
    · rw [reload, sighupHandler, if_neg isSet] at reloaded
      cases updates : current.updateParameters (current.file files) with
      | error fault =>
          rw [updates] at reloaded
          cases reloaded
      | ok result =>
          rw [updates] at reloaded
          cases reloaded
          exact ⟨result.1, rfl⟩
  · rintro ⟨ret, updates⟩
    obtain ⟨flag, handled⟩ := sighupHandler_ok updates
    rw [reload, handled]
    rfl

/-- A reload that leaves the name of the file has settled the configuration. -/
theorem reload_again {files : Files} {current updated : Configuration}
    (reloaded : current.reload files = .ok updated)
    (sameFile : updated.confFile = current.confFile) :
    updated.reload files = .ok updated := by
  obtain ⟨ret, updates⟩ := reload_ok_iff.1 reloaded
  have file : updated.file files = current.file files := by
    rw [Configuration.file, sameFile, Configuration.file]
  rw [reload_ok_iff, file]
  by_cases isSet : current.confFile = none
  · exact Settings.updateParameters_kept (.inl (sameFile.trans isSet))
  · cases found : current.file files with
    | notOpened => exact Settings.updateParameters_kept (.inr (.inl rfl))
    | notRead => exact Settings.updateParameters_kept (.inr (.inr rfl))
    | line text =>
        rw [found] at updates
        exact ⟨ret, updateParameters_again isSet updates
          (sameFile.symm ▸ isSet)⟩

theorem reloads_of_again {files : Files} {current : Configuration}
    (again : current.reload files = .ok current) (count : Nat) :
    current.reloads files count = .ok current := by
  induction count with
  | zero => rfl
  | succ count inductionHypothesis =>
      rw [reloads, again]
      exact inductionHypothesis

end Configuration

/-- Reloads from the same files change nothing behind a reload that left the
name of the file. -/
theorem reload_settles {files : Files} {current updated : Configuration}
    (reloaded : current.reload files = .ok updated)
    (sameFile : updated.confFile = current.confFile) (count : Nat) :
    updated.reloads files count = .ok updated :=
  Configuration.reloads_of_again
    (Configuration.reload_again reloaded sameFile) count

/-- `-n` is given and the port is refused, so the variables keep their values
at every reload. -/
theorem reload_settles_refused :
    ({ Configuration.initial with confFile := some (bytes "c") } :
        Configuration).reloads (fun _ => .line (bytes "-n 3 -p x\n")) 4 =
      .ok { Configuration.initial with confFile := some (bytes "c") } :=
  @reload_settles (fun _ => .line (bytes "-n 3 -p x\n"))
    { Configuration.initial with confFile := some (bytes "c") } _ rfl rfl 4

end RemoteCommand
