import RemoteCommand.ConfigurationLine
import RemoteCommand.Transition.System

/-!
# The numbers of the configuration

`get_parameters` refuses the number `0` and nothing else, and it converts the
argument behind `-p` and `-n` also where there is none.  The calls of
`get_parameters` and `update_parameters` are the steps of a system; the numbers
of every state are in range exactly when every call keeps them there.
-/

namespace RemoteCommand

open Machine

/-- A call that sets the configuration variables. -/
inductive SettingCall where
  | getParameters (words : List (List Byte))
  | updateParameters (file : ConfFile)
  deriving DecidableEq, Repr

/-- The variables behind the calls, or a `NULL` was converted with `atoi`. -/
inductive Settings where
  | configured (current : Configuration)
  | nullConverted
  deriving DecidableEq, Repr

namespace Settings

/-- What a call leaves. -/
def behind : Except Fault (Int × Configuration) → Settings
  | .error _ => .nullConverted
  | .ok (_, updated) => .configured updated

/-- The calls as steps.  There is no state behind a line that does not fit in
`argv`. -/
def calls : Transition.System Settings SettingCall where
  step
    | .nullConverted, _ => none
    | .configured current, .getParameters words =>
        some (behind (current.getParameters (.ofWords words)))
    | .configured current, .updateParameters file =>
        match Configuration.parseConfFile current.confFile file with
        | .error _ => none
        | .ok _ => some (behind (current.updateParameters file))

end Settings

/-! ## Numbers in range -/

/-- The port is one that `htons` keeps, and the number of threads is a capacity
that `createQueue` keeps. -/
structure Configuration.Valid (current : Configuration) : Prop where
  port : 1 ≤ current.port ∧ current.port ≤ 65535
  nThreads : 1 ≤ current.nThreads
  address : ((BitVec.ofInt 16 current.port).toNat : Int) = current.port
  capacity : (toUnsigned current.nThreads : Int) = current.nThreads

namespace Configuration

theorem valid_iff {current : Configuration} (areInts : current.AreInts) :
    current.Valid ↔
      (1 ≤ current.port ∧ current.port ≤ 65535) ∧ 1 ≤ current.nThreads := by
  constructor
  · exact fun valid => ⟨valid.port, valid.nThreads⟩
  · rintro ⟨port, nThreads⟩
    refine ⟨port, nThreads, ?_, ?_⟩
    · rw [BitVec.toNat_ofInt]
      omega
    · have fits := areInts.nThreads.2
      unfold intMax at fits
      unfold toUnsigned
      omega

end Configuration

/-- The numbers that the places of a scan set are in range: no `NULL` is
converted, and where everything is accepted, the last port and the last number
of threads count. -/
structure InRange (entries : List Entry) : Prop where
  noNull : ∀ entry ∈ entries, ¬ entry.ConvertsNull
  port : (∀ entry ∈ entries, entry.Accepted) →
    ∀ value ∈ lastValue .port entries,
      1 ≤ atoi (value.getD []) ∧ atoi (value.getD []) ≤ 65535
  nThreads : (∀ entry ∈ entries, entry.Accepted) →
    ∀ value ∈ lastValue .nThreads entries, 1 ≤ atoi (value.getD [])

theorem lastSettings_areInts {current : Configuration}
    (areInts : current.AreInts) (entries : List Entry) :
    (lastSettings entries current).AreInts := by
  unfold lastSettings
  constructor
  · cases lastValue .port entries with
    | none => exact areInts.port
    | some value => exact atoi_isInt _
  · cases lastValue .nThreads entries with
    | none => exact areInts.nThreads
    | some value => exact atoi_isInt _

/-- Without a `NULL`, valid variables stay valid exactly when the numbers of
the scan are in range. -/
theorem outcomeOf_valid_iff {current : Configuration}
    (areInts : current.AreInts) (valid : current.Valid) {entries : List Entry}
    (noNull : ∀ entry ∈ entries, ¬ entry.ConvertsNull) :
    (outcomeOf entries current).Valid ↔ InRange entries := by
  unfold outcomeOf
  split_ifs with accepted
  · rw [Configuration.valid_iff (lastSettings_areInts areInts entries)]
    constructor
    · rintro ⟨port, nThreads⟩
      refine ⟨noNull, fun _ value last => ?_, fun _ value last => ?_⟩
      · simpa [lastSettings, Option.mem_def.1 last] using port
      · simpa [lastSettings, Option.mem_def.1 last] using nThreads
    · intro inRange
      constructor
      · cases last : lastValue .port entries with
        | none => simpa [lastSettings, last] using valid.port
        | some value =>
            simpa [lastSettings, last] using inRange.port accepted value last
      · cases last : lastValue .nThreads entries with
        | none => simpa [lastSettings, last] using valid.nThreads
        | some value =>
            simpa [lastSettings, last] using
              inRange.nThreads accepted value last
  · exact iff_of_true valid
      ⟨noNull, fun all => absurd all accepted, fun all => absurd all accepted⟩

/-! ## One call -/

/-- A scan meets a `NULL` at its end only. -/
theorem settle_scan (beyond : Option (List Byte)) {words : List (List Byte)}
    (converts : ∃ entry ∈ scan beyond words, entry.ConvertsNull) :
    ∀ current, settle (scan beyond words) current = .error .outOfBounds := by
  induction words using scan_induction with
  | nil => exact absurd converts (by simp [scan])
  | last option takes =>
      obtain ⟨entry, member, null⟩ := converts
      rw [scan_last, List.mem_singleton] at member
      subst member
      exact fun _ => if_pos null
  | place words entry rest begins inductionHypothesis =>
      intro current
      rw [begins.scan_eq] at converts ⊢
      split_ifs at converts ⊢ with accepted
      · rw [settle, if_neg begins.not_convertsNull, if_pos accepted]
        refine inductionHypothesis ?_ _
        simpa [begins.not_convertsNull] using converts
      · simp [begins.not_convertsNull] at converts

namespace Settings

def Valid : Settings → Prop
  | .configured current => current.Valid
  | .nullConverted => False

def AreInts : Settings → Prop
  | .configured current => current.AreInts
  | .nullConverted => True

/-- The places that the scan of a call gets to. -/
def placesOf : Settings → SettingCall → List Entry
  | .configured _, .getParameters words => scan none words
  | .configured current, .updateParameters (.line text) =>
      if current.confFile = none then []
      else scan (lineWords text).getLast? (lineWords text).dropLast
  | _, _ => []

/-- What a scan leaves. -/
theorem behind_settle {beyond : Option (List Byte)} {words : List (List Byte)}
    (current : Configuration) (ret : Option Configuration → Int) :
    behind ((settle (scan beyond words) current).map fun settled =>
        (ret settled, settled.getD current)) =
      if ∃ entry ∈ scan beyond words, entry.ConvertsNull then .nullConverted
      else .configured (outcomeOf (scan beyond words) current) := by
  split_ifs with converts
  · rw [settle_scan beyond converts]
    rfl
  · obtain ⟨settled, found, same⟩ :=
      settle_outcome (by simpa using converts) current
    rw [found, ← same]
    rfl

theorem behind_areInts {result : Except Fault (Int × Configuration)}
    (areInts : ∀ ret updated, result = .ok (ret, updated) → updated.AreInts) :
    (behind result).AreInts := by
  cases result with
  | error => trivial
  | ok found => exact areInts _ _ rfl

/-- Without a line there is nothing to set. -/
theorem updateParameters_kept {current : Configuration} {file : ConfFile}
    (noLine : current.confFile = none ∨ file = .notOpened ∨ file = .notRead) :
    ∃ ret, current.updateParameters file = .ok (ret, current) := by
  by_cases isSet : current.confFile = none
  · exact ⟨ok, if_pos isSet⟩
  · obtain ⟨fname, named⟩ := Option.ne_none_iff_exists'.1 isSet
    rw [Configuration.updateParameters, if_neg isSet, named]
    rcases noLine with unset | rfl | rfl
    · exact absurd unset isSet
    · exact ⟨intErr, rfl⟩
    · exact ⟨intErr, rfl⟩

/-- A line with room for its words leaves what `update_parameters` leaves. -/
theorem calls_update {current : Configuration} {file : ConfFile}
    {next : Settings}
    (stepped : calls.step (.configured current) (.updateParameters file) =
      some next) : next = behind (current.updateParameters file) := by
  change (match Configuration.parseConfFile current.confFile file with
    | .error _ => none
    | .ok _ => some (behind (current.updateParameters file))) =
      some next at stepped
  split at stepped
  · cases stepped
  · exact (Option.some.inj stepped).symm

/-- A call leaves the outcome of its scan. -/
theorem calls_step {current : Configuration} {call : SettingCall}
    {next : Settings}
    (stepped : calls.step (.configured current) call = some next) :
    next =
      let places := placesOf (.configured current) call
      if ∃ entry ∈ places, entry.ConvertsNull then .nullConverted
      else .configured (outcomeOf places current) := by
  cases call with
  | getParameters words =>
      cases stepped
      rw [getParameters_settle (Arguments.from_ofWords words)]
      refine Eq.trans ?_ (@behind_settle none words current fun settled =>
        settled.elim paramErr fun _ => ok)
      rcases settle (scan none words) current with fault | settled
      · rfl
      · cases settled <;> rfl
  | updateParameters file =>
      have nextIs := calls_update stepped
      have unchanged (noLine : current.confFile = none ∨ file = .notOpened ∨
          file = .notRead) : next = .configured current := by
        obtain ⟨ret, kept⟩ := updateParameters_kept noLine
        rw [nextIs, kept]
        rfl
      cases file with
      | notOpened => exact unchanged (.inr (.inl rfl))
      | notRead => exact unchanged (.inr (.inr rfl))
      | line text =>
          by_cases isSet : current.confFile = none
          · have places : placesOf (.configured current)
                (.updateParameters (.line text)) = [] := if_pos isSet
            rw [places]
            exact unchanged (.inl isSet)
          have places : placesOf (.configured current)
              (.updateParameters (.line text)) =
                scan (lineWords text).getLast? (lineWords text).dropLast :=
            if_neg isSet
          by_cases room : Configuration.Room text
          · rw [nextIs, updateParameters_settle room isSet, places]
            exact behind_settle current fun _ => ok
          · obtain ⟨fname, named⟩ := Option.ne_none_iff_exists'.1 isSet
            have overflows := Configuration.parseConfFile_noRoom room fname
            simp [calls, named, overflows] at stepped

/-! ## Every sequence of calls -/

theorem initial_valid : Valid (.configured .initial) :=
  (Configuration.valid_iff Configuration.initial_areInts).2 (by decide)

theorem calls_areInts {state : Settings} {call : SettingCall} {next : Settings}
    (areInts : state.AreInts) (stepped : calls.step state call = some next) :
    next.AreInts := by
  cases state with
  | nullConverted => cases stepped
  | configured current =>
      cases call with
      | getParameters words =>
          cases stepped
          exact behind_areInts fun _ _ =>
            Configuration.getParameters_areInts areInts
      | updateParameters file =>
          rw [calls_update stepped]
          exact behind_areInts fun _ _ =>
            Configuration.updateParameters_areInts areInts

/-- A call keeps the numbers valid exactly when its scan sets them in range. -/
theorem calls_valid_iff {state : Settings} {call : SettingCall}
    {next : Settings} (areInts : state.AreInts) (valid : state.Valid)
    (stepped : calls.step state call = some next) :
    next.Valid ↔ InRange (placesOf state call) := by
  cases state with
  | nullConverted => cases stepped
  | configured current =>
      rw [calls_step stepped]
      dsimp only
      split_ifs with converts
      · obtain ⟨entry, member, null⟩ := converts
        exact iff_of_false id fun inRange => inRange.noNull entry member null
      · exact outcomeOf_valid_iff areInts valid (by simpa using converts)

/-- From the values before `main`, no `NULL` is converted and every
configuration is valid exactly in the runs whose calls all set their numbers in
range. -/
theorem valid_iff_inRange (sequence : List SettingCall) :
    calls.StatesMeet Valid (.configured .initial) sequence ↔
      calls.StepsMeet (fun state call => InRange (placesOf state call))
        (.configured .initial) sequence :=
  calls.statesMeet_iff_stepsMeet calls_areInts calls_valid_iff sequence
    Configuration.initial_areInts initial_valid

/-- The port 70000, the number of threads -1 and a `-p` without a number are
not refused. -/
theorem not_valid_unchecked :
    ¬ calls.StatesMeet Valid (.configured .initial)
        [.getParameters [bytes "-p", bytes "70000"]] ∧
      ¬ calls.StatesMeet Valid (.configured .initial)
        [.getParameters [bytes "-n", bytes "-1"]] ∧
      ¬ calls.StatesMeet Valid (.configured .initial)
        [.getParameters [bytes "-p"]] := by
  have large : calls.run (.configured .initial)
      [.getParameters [bytes "-p", bytes "70000"]] =
        some (.configured { Configuration.initial with port := 70000 }) := rfl
  have negative : calls.run (.configured .initial)
      [.getParameters [bytes "-n", bytes "-1"]] =
        some (.configured { Configuration.initial with nThreads := -1 }) := rfl
  have missing : calls.run (.configured .initial)
      [.getParameters [bytes "-p"]] = some .nullConverted := rfl
  refine ⟨fun meets => ?_, fun meets => ?_, fun meets => ?_⟩
  · exact absurd (meets.last large).port.2 (by decide)
  · exact absurd (meets.last negative).nThreads (by decide)
  · exact meets.last missing

end Settings

end RemoteCommand
