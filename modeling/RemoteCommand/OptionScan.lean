import RemoteCommand.Configuration

/-!
# The scan of the options of the server

`get_parameters` goes through its arguments from the left.  An argument at the
place of an option is one of five options or none; four of the options take the
next argument as their value, whatever it looks like.  The scan ends behind the
arguments, or at the first option that is not accepted.
-/

namespace RemoteCommand

open Machine

/-! ## Options and their values -/

inductive Parameter where
  | port
  | nThreads
  | s
  | confFile
  | logFile
  deriving DecidableEq, Repr

/-- The option that an argument is, by its first two characters. -/
def parameterOf (option : List Byte) : Option Parameter :=
  if option.getD 0 0 ≠ char '-' then none
  else if option.getD 1 0 = char 'p' then some .port
  else if option.getD 1 0 = char 'n' then some .nThreads
  else if option.getD 1 0 = char 's' then some .s
  else if option.getD 1 0 = char 'c' then some .confFile
  else if option.getD 1 0 = char 'l' then some .logFile
  else none

/-- The option is followed by a value. -/
def TakesValue (option : List Byte) : Prop :=
  parameterOf option ≠ none ∧ parameterOf option ≠ some .s

instance (option : List Byte) : Decidable (TakesValue option) :=
  inferInstanceAs (Decidable (_ ∧ _))

/-- A place of the scan: an argument at the place of an option, with the value
that it takes. -/
structure Entry where
  option : List Byte
  value : Option (List Byte)
  deriving DecidableEq, Repr

/-- The place at which `option` is followed by `next`. -/
def entryAt (option : List Byte) (next : Option (List Byte)) : Entry where
  option := option
  value := if TakesValue option then next else none

namespace Entry

def parameter (entry : Entry) : Option Parameter :=
  parameterOf entry.option

/-- The option takes a number. -/
def Numeric (entry : Entry) : Prop :=
  entry.parameter = some .port ∨ entry.parameter = some .nThreads

instance (entry : Entry) : Decidable entry.Numeric :=
  inferInstanceAs (Decidable (_ ∨ _))

/-- The number that the value is read as. -/
def number (entry : Entry) : Int :=
  atoi (entry.value.getD [])

/-- A `NULL` is converted with `atoi`. -/
def ConvertsNull (entry : Entry) : Prop :=
  entry.Numeric ∧ entry.value = none

instance (entry : Entry) : Decidable entry.ConvertsNull :=
  inferInstanceAs (Decidable (_ ∧ _))

/-- The argument is an option, and its value is no number that is refused. -/
def Accepted (entry : Entry) : Prop :=
  entry.parameter ≠ none ∧ (entry.Numeric → entry.number ≠ 0)

instance (entry : Entry) : Decidable entry.Accepted :=
  inferInstanceAs (Decidable (_ ∧ (_ → _)))

/-- What an accepted option sets. -/
def apply (entry : Entry) (current : Configuration) : Configuration :=
  match entry.parameter with
  | none => current
  | some .port => { current with port := entry.number }
  | some .nThreads => { current with nThreads := entry.number }
  | some .s => { current with s := true }
  | some .confFile => { current with confFile := entry.value }
  | some .logFile => { current with logFile := entry.value }

/-- A number is a value. -/
theorem Numeric.takesValue {entry : Entry} (numeric : entry.Numeric) :
    TakesValue entry.option := by
  constructor <;> rcases numeric with same | same <;>
    simp [show parameterOf entry.option = _ from same]

end Entry

/-- The places that the scan of `words` gets to, when `beyond` stands behind
the words. -/
def scan (beyond : Option (List Byte)) : List (List Byte) → List Entry
  | [] => []
  | [option] => [entryAt option beyond]
  | option :: value :: rest =>
      let entry := entryAt option (some value)
      entry ::
        if ¬ entry.Accepted then []
        else if TakesValue option then scan beyond rest
        else scan beyond (value :: rest)

section Scan

variable {beyond : Option (List Byte)} {option value : List Byte}
  {rest : List (List Byte)}

theorem scan_last : scan beyond [option] = [entryAt option beyond] :=
  rfl

theorem scan_value (takes : TakesValue option) :
    scan beyond (option :: value :: rest) =
      entryAt option (some value) ::
        if (entryAt option (some value)).Accepted then scan beyond rest
        else [] := by
  rw [scan, if_pos takes, ite_not]

theorem entryAt_plain (plain : ¬ TakesValue option)
    (next : Option (List Byte)) : entryAt option next = entryAt option none := by
  rw [entryAt, entryAt, if_neg plain, if_neg plain]

theorem scan_plain (plain : ¬ TakesValue option) :
    scan beyond (option :: rest) =
      entryAt option none ::
        if (entryAt option none).Accepted then scan beyond rest else [] := by
  cases rest with
  | nil =>
      rw [scan_last, entryAt_plain plain, scan, ite_self]
  | cons value rest =>
      rw [scan, if_neg plain, ite_not, entryAt_plain plain]

/-- The scan begins with the place `entry`, an option with its value or an
argument alone, and goes on with `rest`. -/
inductive Begins : List (List Byte) → Entry → List (List Byte) → Prop
  | value {option value : List Byte} (rest : List (List Byte))
      (takes : TakesValue option) :
      Begins (option :: value :: rest) (entryAt option (some value)) rest
  | plain {option : List Byte} (rest : List (List Byte))
      (plain : ¬ TakesValue option) :
      Begins (option :: rest) (entryAt option none) rest

namespace Begins

variable {words : List (List Byte)} {entry : Entry}

theorem scan_eq (begins : Begins words entry rest)
    (beyond : Option (List Byte)) :
    scan beyond words =
      entry :: if entry.Accepted then scan beyond rest else [] := by
  cases begins with
  | value rest takes => exact scan_value takes
  | plain rest plain => exact scan_plain plain

theorem append (begins : Begins words entry rest)
    (more : List (List Byte)) : Begins (words ++ more) entry (rest ++ more) := by
  cases begins with
  | value rest takes => exact .value _ takes
  | plain rest plain => exact .plain _ plain

/-- The value is there. -/
theorem given (begins : Begins words entry rest)
    (takes : TakesValue entry.option) : entry.value ≠ none := by
  cases begins with
  | value rest isOption =>
      rw [entryAt, if_pos isOption]
      exact Option.some_ne_none _
  | plain rest plain => exact absurd takes plain

theorem not_convertsNull (begins : Begins words entry rest) :
    ¬ entry.ConvertsNull :=
  fun converts => begins.given converts.1.takesValue converts.2

end Begins

/-- Words are taken as the scan takes them. -/
@[elab_as_elim]
theorem scan_induction {motive : List (List Byte) → Prop} (nil : motive [])
    (last : ∀ option, TakesValue option → motive [option])
    (place : ∀ words entry rest, Begins words entry rest → motive rest →
      motive words) : ∀ words, motive words
  | [] => nil
  | [option] =>
      if takes : TakesValue option then last option takes
      else place _ _ _ (.plain [] takes) nil
  | option :: next :: rest =>
      if takes : TakesValue option then
        place _ _ _ (.value rest takes) (scan_induction nil last place rest)
      else
        place _ _ _ (.plain (next :: rest) takes)
          (scan_induction nil last place (next :: rest))

end Scan

/-- The effect of the options of a scan: all of them, or nothing. -/
def settle : List Entry → Configuration →
    Except Fault (Option Configuration)
  | [], current => .ok (some current)
  | entry :: entries, current =>
      if entry.ConvertsNull then .error .outOfBounds
      else if entry.Accepted then settle entries (entry.apply current)
      else .ok none

/-! ## get_parameters follows the scan -/

/-- From `argv[index]` on the arguments are `words`, and behind them there is
`beyond`. -/
def Arguments.From (arguments : Arguments) (beyond : Option (List Byte)) :
    Nat → List (List Byte) → Prop
  | index, [] => arguments.argc ≤ index ∧ arguments.argv index = beyond
  | index, word :: rest =>
      index < arguments.argc ∧ arguments.argv index = some word ∧
        arguments.From beyond (index + 1) rest

namespace Configuration

/-- A turn of the loop at an argument, by the option that it is. -/
theorem parseFrom_option {arguments : Arguments} {index : Nat}
    {option : List Byte} (inside : index < arguments.argc)
    (holds : arguments.argv index = some option) (turns : Nat)
    (current : Configuration) :
    parseFrom arguments (turns + 1) index current =
      let argument := arguments.argv (index + 1)
      match parameterOf option with
      | none => .ok none
      | some .port => (number argument).bind fun value =>
          match value with
          | none => .ok none
          | some port =>
              parseFrom arguments turns (index + 2) { current with port }
      | some .nThreads => (number argument).bind fun value =>
          match value with
          | none => .ok none
          | some nThreads =>
              parseFrom arguments turns (index + 2) { current with nThreads }
      | some .s =>
          parseFrom arguments turns (index + 1) { current with s := true }
      | some .confFile =>
          parseFrom arguments turns (index + 2)
            { current with confFile := argument }
      | some .logFile =>
          parseFrom arguments turns (index + 2)
            { current with logFile := argument } := by
  rw [parseFrom, if_neg (Nat.not_le_of_lt inside), holds]
  unfold parameterOf
  dsimp only
  split_ifs <;> rfl

section Turn

variable {entry : Entry} {stop refuse accept : Except Fault (Option Configuration)}

theorem turn_numeric (numeric : entry.Numeric)
    (next : Int → Except Fault (Option Configuration)) :
    ((number entry.value).bind fun value =>
        match value with
        | none => .ok none
        | some value => next value) =
      if entry.ConvertsNull then .error .outOfBounds
      else if entry.Accepted then next entry.number
      else .ok none := by
  have known : entry.parameter ≠ none := by
    rcases numeric with same | same <;> simp [same]
  cases value : entry.value with
  | none =>
      rw [if_pos ⟨numeric, value⟩]
      rfl
  | some text =>
      have converts : ¬ entry.ConvertsNull := fun converts => by
        simp [Entry.ConvertsNull, value] at converts
      have read : atoi text = entry.number := by rw [Entry.number, value]; rfl
      rw [if_neg converts]
      by_cases refused : entry.number = 0
      · rw [if_neg fun accepted => accepted.2 numeric refused]
        simp [number, read, refused, Except.bind, pure, Except.pure]
      · rw [if_pos ⟨known, fun _ => refused⟩]
        simp [number, read, refused, Except.bind, pure, Except.pure]

theorem turn_plain (numeric : ¬ entry.Numeric) (known : entry.parameter ≠ none) :
    (if entry.ConvertsNull then stop
      else if entry.Accepted then accept else refuse) = accept := by
  rw [if_neg fun converts => numeric converts.1,
    if_pos ⟨known, fun isNumeric => absurd isNumeric numeric⟩]

theorem turn_unknown (unknown : entry.parameter = none) :
    (if entry.ConvertsNull then stop
      else if entry.Accepted then accept else refuse) = refuse := by
  have numeric : ¬ entry.Numeric := by simp [Entry.Numeric, unknown]
  rw [if_neg fun converts => numeric converts.1,
    if_neg fun accepted => accepted.1 unknown]

end Turn

/-- A turn of the loop, by the place of the scan. -/
theorem parseFrom_step {arguments : Arguments} {index : Nat}
    {option : List Byte} (inside : index < arguments.argc)
    (holds : arguments.argv index = some option) (turns : Nat)
    (current : Configuration) :
    parseFrom arguments (turns + 1) index current =
      if (entryAt option (arguments.argv (index + 1))).ConvertsNull then
        .error .outOfBounds
      else if (entryAt option (arguments.argv (index + 1))).Accepted then
        parseFrom arguments turns
          (if TakesValue option then index + 2 else index + 1)
          ((entryAt option (arguments.argv (index + 1))).apply current)
      else .ok none := by
  rw [parseFrom_option inside holds]
  generalize whole : entryAt option (arguments.argv (index + 1)) = entry
  have same : entry.parameter = parameterOf option := by rw [← whole]; rfl
  have value (takes : TakesValue option) :
      entry.value = arguments.argv (index + 1) := by
    rw [← whole]
    exact if_pos takes
  dsimp only
  unfold Entry.apply
  rw [same]
  cases found : parameterOf option with
  | none => rw [turn_unknown (same.trans found)]
  | some parameter =>
      rw [found] at same
      have known : entry.parameter ≠ none := by simp [same]
      by_cases takes : TakesValue option
      · rw [if_pos takes, ← value takes]
        cases parameter with
        | port => exact turn_numeric (.inl same) _
        | nThreads => exact turn_numeric (.inr same) _
        | s => exact absurd found takes.2
        | confFile => rw [turn_plain (by simp [Entry.Numeric, same]) known]
        | logFile => rw [turn_plain (by simp [Entry.Numeric, same]) known]
      · rw [if_neg takes]
        have isS : parameter = .s := by
          simpa [TakesValue, found] using takes
        subst isS
        rw [turn_plain (by simp [Entry.Numeric, same]) known]

theorem parseFrom_done {arguments : Arguments} {index : Nat}
    (behind : arguments.argc ≤ index) (turns : Nat) (current : Configuration) :
    parseFrom arguments turns index current = .ok (some current) := by
  cases turns with
  | zero => rfl
  | succ turns => exact if_pos behind

/-- The loop is the scan of the arguments that are left. -/
theorem parseFrom_scan {arguments : Arguments} {beyond : Option (List Byte)}
    (turns : Nat) :
    ∀ {index : Nat} {words : List (List Byte)} {current : Configuration},
      words.length ≤ turns → arguments.From beyond index words →
      parseFrom arguments turns index current =
        settle (scan beyond words) current := by
  induction turns with
  | zero =>
      intro index words current enough holds
      cases words with
      | nil => rfl
      | cons => exact absurd enough (Nat.not_succ_le_zero _)
  | succ turns inductionHypothesis =>
      intro index words current enough holds
      match words, holds with
      | [], ⟨behind, _⟩ => exact parseFrom_done behind _ _
      | [option], ⟨inside, isOption, behind, next⟩ =>
          rw [parseFrom_step inside isOption, next,
            parseFrom_done (by split <;> omega)]
          rfl
      | option :: value :: rest, ⟨inside, isOption, further⟩ =>
          have next : arguments.argv (index + 1) = some value := further.2.1
          have fewer : rest.length + 1 ≤ turns := by
            simpa using enough
          rw [parseFrom_step inside isOption, next, scan, settle]
          congr 1
          by_cases accepted : (entryAt option (some value)).Accepted
          · rw [if_pos accepted, if_pos accepted, if_neg (not_not.2 accepted)]
            split_ifs with takes
            · exact inductionHypothesis (by omega) further.2.2
            · exact inductionHypothesis fewer further
          · rw [if_neg accepted, if_neg accepted]

end Configuration

theorem Arguments.From.length_le {arguments : Arguments}
    {beyond : Option (List Byte)} {words : List (List Byte)} :
    ∀ {index : Nat}, arguments.From beyond index words →
      words.length ≤ arguments.argc := by
  have count : ∀ {index : Nat}, arguments.From beyond index words →
      words = [] ∨ index + words.length ≤ arguments.argc := by
    induction words with
    | nil => exact fun _ => .inl rfl
    | cons word rest inductionHypothesis =>
        intro index holds
        rcases inductionHypothesis holds.2.2 with rfl | within
        · exact .inr holds.1
        · exact .inr (by rw [List.length_cons]; omega)
  intro index holds
  rcases count holds with rfl | within
  · exact Nat.zero_le _
  · omega

theorem Arguments.from_of_argv {arguments : Arguments}
    {beyond : Option (List Byte)} {words : List (List Byte)} :
    ∀ {before : List (List Byte)},
      arguments.argc = (before ++ words).length + 1 →
      (∀ index < (before ++ words).length,
        arguments.argv (index + 1) = (before ++ words)[index]?) →
      arguments.argv arguments.argc = beyond →
      arguments.From beyond (before.length + 1) words := by
  induction words with
  | nil =>
      intro before count _ behind
      rw [List.append_nil] at count
      exact ⟨count.le, count ▸ behind⟩
  | cons word rest inductionHypothesis =>
      intro before count texts behind
      have inside : before.length < (before ++ word :: rest).length := by simp
      refine ⟨by omega, ?_, ?_⟩
      · rw [texts _ inside]
        simp
      · have together : before ++ word :: rest = (before ++ [word]) ++ rest :=
          List.append_cons before word rest
        rw [together] at count texts
        have further := inductionHypothesis count texts behind
        rwa [List.length_append] at further

/-- The arguments of `main`: behind the last there is a `NULL`. -/
def Arguments.ofWords (words : List (List Byte)) : Arguments where
  argc := words.length + 1
  argv
    | 0 => none
    | index + 1 => words[index]?

theorem Arguments.from_ofWords (words : List (List Byte)) :
    (ofWords words).From none 1 words :=
  @from_of_argv _ _ words [] rfl (fun _ _ => rfl) (by simp [ofWords])

/-! ## What the options set -/

/-- The value of the last place with this option. -/
def lastValue (parameter : Parameter) (entries : List Entry) :
    Option (Option (List Byte)) :=
  ((entries.filter fun entry => entry.parameter = some parameter).getLast?).map
    Entry.value

/-- The last value of each option, and without one what there was before. -/
def lastSettings (entries : List Entry) (current : Configuration) :
    Configuration where
  port := (lastValue .port entries).elim current.port fun value =>
    atoi (value.getD [])
  nThreads := (lastValue .nThreads entries).elim current.nThreads fun value =>
    atoi (value.getD [])
  confFile := (lastValue .confFile entries).getD current.confFile
  logFile := (lastValue .logFile entries).getD current.logFile
  s := (lastValue .s entries).elim current.s fun _ => true

theorem lastValue_append (parameter : Parameter) (entries : List Entry)
    (entry : Entry) :
    lastValue parameter (entries ++ [entry]) =
      if entry.parameter = some parameter then some entry.value
      else lastValue parameter entries := by
  unfold lastValue
  rw [List.filter_append]
  split_ifs with same <;> simp [same]

/-- An option overrides what the same option has set before. -/
theorem foldl_apply (entries : List Entry) (current : Configuration) :
    entries.foldl (fun settings entry => entry.apply settings) current =
      lastSettings entries current := by
  induction entries using List.reverseRecOn with
  | nil => rfl
  | append_singleton entries entry inductionHypothesis =>
      rw [List.foldl_append, inductionHypothesis, List.foldl_cons,
        List.foldl_nil]
      unfold Entry.apply lastSettings
      simp only [lastValue_append]
      cases entry.parameter with
      | none => simp
      | some parameter => cases parameter <;> simp [Entry.number]

/-- A scan that converts no `NULL` sets everything, or nothing. -/
theorem settle_eq {entries : List Entry} :
    (∀ entry ∈ entries, ¬ entry.ConvertsNull) →
    ∀ current, settle entries current =
      .ok (if ∀ entry ∈ entries, entry.Accepted then
        some (entries.foldl (fun settings entry => entry.apply settings) current)
        else none) := by
  induction entries with
  | nil => exact fun _ _ => rfl
  | cons entry entries inductionHypothesis =>
      intro noNull current
      obtain ⟨first, rest⟩ := List.forall_mem_cons.1 noNull
      rw [settle, if_neg first]
      by_cases accepted : entry.Accepted
      · rw [if_pos accepted, inductionHypothesis rest]
        simp [accepted]
      · simp [accepted]

/-! ## get_parameters -/

section GetParameters

variable {arguments : Arguments} {words : List (List Byte)}
  {beyond : Option (List Byte)}

theorem getParameters_settle (holds : arguments.From beyond 1 words)
    (current : Configuration) :
    current.getParameters arguments =
      (settle (scan beyond words) current).map fun settled =>
        match settled with
        | none => (paramErr, current)
        | some updated => (ok, updated) := by
  rw [Configuration.getParameters,
    Configuration.parseFrom_scan _ holds.length_le holds]
  rcases settle (scan beyond words) current with fault | settled
  · rfl
  · cases settled <;> rfl

/-- Every option with a value is followed by an argument. -/
def Followed (words : List (List Byte)) : Prop :=
  ∀ entry ∈ scan none words, TakesValue entry.option → entry.value ≠ none

instance (words : List (List Byte)) : Decidable (Followed words) :=
  inferInstanceAs (Decidable (∀ _ ∈ _, _ → _))

section Followed

variable {option : List Byte} {rest : List (List Byte)}

theorem not_followed_last (takes : TakesValue option) : ¬ Followed [option] :=
  fun followed =>
    followed _ (List.mem_singleton.2 rfl) takes (if_pos takes)

theorem Begins.followed {words : List (List Byte)} {entry : Entry}
    (begins : Begins words entry rest) :
    Followed words ↔ (entry.Accepted → Followed rest) := by
  unfold Followed
  rw [begins.scan_eq, List.forall_mem_cons, and_iff_right begins.given]
  split_ifs with accepted <;> simp [accepted]

end Followed

/-- Then it does not matter what stands behind the arguments. -/
theorem Followed.scan_eq (beyond : Option (List Byte)) :
    Followed words → scan beyond words = scan none words := by
  induction words using scan_induction with
  | nil => exact fun _ => rfl
  | last option takes =>
      exact fun followed => absurd followed (not_followed_last takes)
  | place words entry rest begins inductionHypothesis =>
      intro followed
      rw [begins.scan_eq, begins.scan_eq]
      congr 1
      split_ifs with accepted
      · exact inductionHypothesis (begins.followed.1 followed accepted)
      · rfl

theorem Followed.noNull (followed : Followed words) :
    ∀ entry ∈ scan none words, ¬ entry.ConvertsNull := by
  rintro entry member ⟨numeric, null⟩
  exact followed entry member numeric.takesValue null

/-- `get_parameters` accepts exactly the scans whose places are all accepted;
then the last value of each option counts, and otherwise nothing changes. -/
theorem getParameters_scan (holds : arguments.From beyond 1 words)
    (followed : Followed words) (current : Configuration) :
    ∃ ret updated,
      current.getParameters arguments = .ok (ret, updated) ∧
        (ret = ok ∨ ret = paramErr) ∧
        (ret = ok ↔ ∀ entry ∈ scan none words, entry.Accepted) ∧
        (ret = ok → updated = lastSettings (scan none words) current) ∧
        (ret = paramErr → updated = current) := by
  have different : paramErr ≠ ok := by decide
  have settled := settle_eq followed.noNull current
  rw [foldl_apply] at settled
  rw [getParameters_settle holds, followed.scan_eq, settled]
  by_cases accepted : ∀ entry ∈ scan none words, entry.Accepted
  · rw [if_pos accepted]
    exact ⟨ok, _, rfl, .inl rfl, iff_of_true rfl accepted, fun _ => rfl,
      fun failed => absurd failed.symm different⟩
  · rw [if_neg accepted]
    exact ⟨paramErr, current, rfl, .inr rfl, iff_of_false different accepted,
      fun succeeded => absurd succeeded different, fun _ => rfl⟩

end GetParameters

/-- The value of an option may look like an option, and the last port counts. -/
def portTwice : List (List Byte) :=
  [bytes "-p", bytes "80", bytes "-l", bytes "-s", bytes "-p", bytes "81"]

theorem getParameters_scan_portTwice :
    Configuration.initial.getParameters (.ofWords portTwice) =
      .ok (ok, { Configuration.initial with
        port := 81, logFile := some (bytes "-s") }) := by
  obtain ⟨ret, updated, called, _, succeeds, last, _⟩ :=
    getParameters_scan (Arguments.from_ofWords portTwice) (by decide)
      Configuration.initial
  have succeeded : ret = ok := succeeds.mpr (by decide)
  rw [called, last succeeded, succeeded]
  rfl

end RemoteCommand
