import RemoteCommand.ConfigurationFile

/-!
# Options on the command line and in the configuration file

The same words as arguments of the program and as the line of the configuration
file.  In the file the last word carries the end of the line, and it is never an
option.
-/

namespace RemoteCommand

open Machine

/-! ## Lines of words -/

/-- A word that white space can separate from others. -/
def IsToken (text : List Byte) : Prop :=
  text ≠ [] ∧ ∀ byte ∈ text, byte ≠ 0 ∧ isspace byte = false

instance (text : List Byte) : Decidable (IsToken text) :=
  inferInstanceAs (Decidable (_ ∧ _))

/-- The words on a line of a file. -/
def lineOf (tokens : List (List Byte)) : List Byte :=
  List.intercalate [32] tokens ++ [10]

theorem IsToken.noBlank {text : List Byte} (token : IsToken text) :
    ∀ byte ∈ text, byte ∉ [(32 : Byte)] := by
  intro byte member inside
  rw [List.mem_singleton] at inside
  have space := (token.2 byte member).2
  rw [inside] at space
  cases space

theorem zero_notMem_lineOf {tokens : List (List Byte)}
    (areTokens : ∀ token ∈ tokens, IsToken token) : 0 ∉ lineOf tokens := by
  have joined : 0 ∉ List.intercalate [32] tokens := by
    induction tokens with
    | nil => exact List.not_mem_nil
    | cons token tokens inductionHypothesis =>
        obtain ⟨isToken, others⟩ := List.forall_mem_cons.1 areTokens
        have plain : 0 ∉ token := fun member => (isToken.2 0 member).1 rfl
        cases tokens with
        | nil => simpa using plain
        | cons next rest =>
            have later := inductionHypothesis others
            rw [List.intercalate_cons_cons, List.mem_append, List.mem_append,
              List.mem_singleton]
            rintro ((inside | blank) | inside)
            · exact plain inside
            · exact absurd blank (by decide)
            · exact later inside
  rw [lineOf, List.mem_append, List.mem_singleton]
  rintro (inside | ending)
  · exact joined inside
  · exact absurd ending (by decide)

theorem lineWords_lineOf {last : List Byte} (isToken : IsToken last)
    {init : List (List Byte)} (areTokens : ∀ token ∈ init, IsToken token) :
    lineWords (lineOf (init ++ [last])) = init ++ [last ++ [10]] := by
  have ended : words [32] (last ++ [10]) = [last ++ [10]] := by
    refine words_single (by simp) fun byte member => ?_
    rcases List.mem_append.1 member with inside | ending
    · exact isToken.noBlank byte inside
    · rw [List.mem_singleton.1 ending]
      decide
  have found : words [32] (lineOf (init ++ [last])) =
      init ++ [last ++ [10]] := by
    unfold lineOf
    induction init with
    | nil => simpa using ended
    | cons token init inductionHypothesis =>
        obtain ⟨isToken, others⟩ := List.forall_mem_cons.1 areTokens
        obtain ⟨next, rest, later⟩ := List.exists_cons_of_ne_nil
          (List.append_ne_nil_of_right_ne_nil init (List.cons_ne_nil last []))
        have continued := inductionHypothesis others
        rw [List.cons_append, later, List.intercalate_cons_cons,
          List.append_assoc, List.append_assoc, List.singleton_append,
          words_append_cons (List.mem_singleton.2 rfl),
          words_single isToken.1 isToken.noBlank, ← later, continued]
        rfl
  have plain : 0 ∉ lineOf (init ++ [last]) := by
    refine zero_notMem_lineOf fun token member => ?_
    rcases List.mem_append.1 member with inside | final
    · exact areTokens token inside
    · exact List.mem_singleton.1 final ▸ isToken
  rw [lineWords, cstr_eq_self plain, found]

/-! ## The scans of both -/

section Scans

variable {init : List (List Byte)}

/-- Where everything is accepted, the scan goes on with what follows. -/
theorem scan_append (beyond : Option (List Byte)) (more : List (List Byte)) :
    Followed init → (∀ entry ∈ scan none init, entry.Accepted) →
      scan beyond (init ++ more) = scan none init ++ scan beyond more := by
  induction init using scan_induction with
  | nil => exact fun _ _ => rfl
  | last option takes =>
      exact fun followed => absurd followed (not_followed_last takes)
  | place init entry rest begins inductionHypothesis =>
      intro followed accepted
      rw [begins.scan_eq] at accepted ⊢
      obtain ⟨first, others⟩ := List.forall_mem_cons.1 accepted
      rw [if_pos first] at others
      rw [(begins.append more).scan_eq, if_pos first, if_pos first,
        List.cons_append,
        inductionHypothesis (begins.followed.1 followed first) others]

/-- The scan stops at what is not accepted. -/
theorem scan_stops (beyond : Option (List Byte)) (more : List (List Byte)) :
    Followed init → (∃ entry ∈ scan none init, ¬ entry.Accepted) →
      scan beyond (init ++ more) = scan none init := by
  induction init using scan_induction with
  | nil => exact fun _ ⟨_, member, _⟩ => absurd member List.not_mem_nil
  | last option takes =>
      exact fun followed => absurd followed (not_followed_last takes)
  | place init entry rest begins inductionHypothesis =>
      intro followed refused
      rw [begins.scan_eq] at refused ⊢
      rw [(begins.append more).scan_eq]
      congr 1
      split_ifs at refused ⊢ with first
      · refine inductionHypothesis (begins.followed.1 followed first) ?_
        simpa [first] using refused
      · rfl

/-- The last option of `init` takes what follows as its value. -/
theorem scan_unfinished : ¬ Followed init →
    ∃ entries option, TakesValue option ∧
      (∀ entry ∈ entries, entry.Accepted) ∧
      (∀ beyond, scan beyond init = entries ++ [entryAt option beyond]) ∧
      ∀ last, scan none (init ++ [last]) =
        entries ++ [entryAt option (some last)] := by
  induction init using scan_induction with
  | nil => exact fun unfinished => absurd (by decide) unfinished
  | last option takes =>
      intro _
      refine ⟨[], option, takes, by simp, fun _ => rfl, fun last => ?_⟩
      rw [List.singleton_append, scan_value takes]
      split_ifs <;> rfl
  | place init entry rest begins inductionHypothesis =>
      intro unfinished
      rw [begins.followed, Classical.not_imp] at unfinished
      obtain ⟨first, later⟩ := unfinished
      obtain ⟨entries, final, isLast, accepted, before, behind⟩ :=
        inductionHypothesis later
      refine ⟨entry :: entries, final, isLast,
        List.forall_mem_cons.2 ⟨first, accepted⟩, fun beyond => ?_,
        fun last => ?_⟩
      · rw [begins.scan_eq, if_pos first, before, List.cons_append]
      · rw [(begins.append [last]).scan_eq, if_pos first, behind,
          List.cons_append]

end Scans

/-! ## The effect of both -/

/-- The last word on the line has the effect that it has as an argument: it is
the value of a `-p` or `-n`, or the scan ends before it, or it is an option
without which the result is the same. -/
def SameOnLine (init : List (List Byte)) (last : List Byte)
    (current : Configuration) : Prop :=
  if Followed init then
    (∃ entry ∈ scan none init, ¬ entry.Accepted) ∨
      (parameterOf last = some .s ∧
        (lastSettings (scan none init) current).s = true) ∨
      (parameterOf last = none ∧
        lastSettings (scan none init) current = current)
  else
    ∃ entry ∈ scan none init, entry.ConvertsNull

/-- The configuration behind a scan. -/
def outcomeOf (entries : List Entry) (current : Configuration) :
    Configuration :=
  if ∀ entry ∈ entries, entry.Accepted then lastSettings entries current
  else current

theorem settle_outcome {entries : List Entry}
    (noNull : ∀ entry ∈ entries, ¬ entry.ConvertsNull)
    (current : Configuration) :
    ∃ settled, settle entries current = .ok settled ∧
      settled.getD current = outcomeOf entries current := by
  refine ⟨_, settle_eq noNull current, ?_⟩
  rw [foldl_apply, outcomeOf]
  split_ifs <;> rfl

theorem outcomeOf_append {entries : List Entry}
    (accepted : ∀ entry ∈ entries, entry.Accepted) (entry : Entry)
    (current : Configuration) :
    outcomeOf (entries ++ [entry]) current =
      if entry.Accepted then entry.apply (lastSettings entries current)
      else current := by
  have together : (∀ other ∈ entries ++ [entry], other.Accepted) ↔
      entry.Accepted := by
    rw [List.forall_mem_append, List.forall_mem_singleton]
    exact and_iff_right accepted
  have applied : lastSettings (entries ++ [entry]) current =
      entry.apply (lastSettings entries current) := by
    rw [← foldl_apply, List.foldl_append, List.foldl_cons, List.foldl_nil,
      foldl_apply]
  simp only [outcomeOf, together, applied]

theorem Entry.Accepted.not_convertsNull {entry : Entry}
    (accepted : entry.Accepted) : ¬ entry.ConvertsNull := by
  rintro ⟨numeric, null⟩
  apply accepted.2 numeric
  rw [Entry.number, null]
  rfl

theorem updateParameters_settle {text : List Byte} (room : Configuration.Room text)
    {current : Configuration} (isSet : current.confFile ≠ none) :
    current.updateParameters (.line text) =
      (settle (scan (lineWords text).getLast? (lineWords text).dropLast)
        current).map fun settled => (ok, settled.getD current) := by
  obtain ⟨fname, named⟩ := Option.ne_none_iff_exists'.1 isSet
  obtain ⟨arguments, parsed, _, holds⟩ :=
    Configuration.parseConfFile_room room fname
  rw [Configuration.updateParameters, if_neg isSet, named, parsed]
  have called := getParameters_settle holds current
  change (current.getParameters arguments).bind
    (fun result => .ok (ok, result.2)) = _
  rw [called]
  rcases settle (scan (lineWords text).getLast? (lineWords text).dropLast)
    current with fault | settled
  · rfl
  · cases settled <;> rfl

/-- Both leave the same configuration. -/
def LeavesSame (tokens : List (List Byte)) (current : Configuration) : Prop :=
  ∃ fromLine fromCommand updated,
    current.updateParameters (.line (lineOf tokens)) =
        .ok (fromLine, updated) ∧
      current.getParameters (.ofWords tokens) = .ok (fromCommand, updated)

section Line

variable {init : List (List Byte)} {last : List Byte} {current : Configuration}

theorem leavesSame_iff (isToken : IsToken last)
    (areTokens : ∀ token ∈ init, IsToken token)
    (fits : (init ++ [last]).length ≤ argvSize - 2)
    (followed : Followed (init ++ [last])) (isSet : current.confFile ≠ none)
    (noNull : ∀ entry ∈ scan (some (last ++ [10])) init, ¬ entry.ConvertsNull) :
    LeavesSame (init ++ [last]) current ↔
      outcomeOf (scan (some (last ++ [10])) init) current =
        outcomeOf (scan none (init ++ [last])) current := by
  have found := lineWords_lineOf isToken areTokens
  have room : Configuration.Room (lineOf (init ++ [last])) := by
    rw [Configuration.room_iff, found, List.length_append]
    rwa [List.length_append] at fits
  have line := updateParameters_settle room isSet
  have command := getParameters_settle
    (Arguments.from_ofWords (init ++ [last])) current
  rw [found, List.getLast?_append_of_ne_nil _ (List.cons_ne_nil _ _),
    List.dropLast_concat, List.getLast?_singleton] at line
  obtain ⟨fromLine, settledLine, left⟩ := settle_outcome noNull current
  obtain ⟨fromCommand, settledCommand, right⟩ :=
    settle_outcome followed.noNull current
  rw [settledLine] at line
  rw [settledCommand] at command
  unfold LeavesSame
  rw [line, command, ← left, ← right]
  constructor
  · rintro ⟨_, _, updated, sameLine, sameCommand⟩
    have line := (Prod.mk.inj (Except.ok.inj sameLine)).2
    have command := (Prod.mk.inj (Except.ok.inj sameCommand)).2
    rw [line, ← command]
    cases fromCommand <;> rfl
  · intro same
    cases fromCommand with
    | none => exact ⟨ok, paramErr, _, rfl, congrArg _ (congrArg _ same.symm)⟩
    | some updated => exact ⟨ok, ok, _, rfl, congrArg _ (congrArg _ same.symm)⟩

/-- A last word at the place of an option is left out on the line. -/
theorem last_option_iff (plain : ¬ TakesValue last)
    (accepted : ¬ ∃ entry ∈ scan none init, ¬ entry.Accepted) :
    lastSettings (scan none init) current =
        (if (entryAt last none).Accepted then
          (entryAt last none).apply (lastSettings (scan none init) current)
        else current) ↔
      (∃ entry ∈ scan none init, ¬ entry.Accepted) ∨
        (parameterOf last = some .s ∧
          (lastSettings (scan none init) current).s = true) ∨
        (parameterOf last = none ∧
          lastSettings (scan none init) current = current) := by
  generalize lastSettings (scan none init) current = settings
  rw [or_iff_right accepted]
  cases found : parameterOf last with
  | none =>
      have refused : ¬ (entryAt last none).Accepted :=
        fun accepted => accepted.1 found
      simp [refused]
  | some parameter =>
      have isS : parameter = .s := by
        simpa [TakesValue, found] using plain
      subst isS
      have same : (entryAt last none).parameter = some .s := found
      have accepts : (entryAt last none).Accepted :=
        ⟨by simp [same], fun numeric => by simp [Entry.Numeric, same] at numeric⟩
      have sets : (entryAt last none).apply settings =
          { settings with s := true } := by
        rw [Entry.apply, same]
      rw [if_pos accepts, sets]
      constructor
      · intro unchanged
        rw [unchanged]
        exact .inl ⟨rfl, rfl⟩
      · rintro (⟨_, isSet⟩ | ⟨absent, _⟩)
        · rw [← isSet]
        · cases absent

/-- A number with the end of the line behind it is read as the same number. -/
theorem numeric_newline {option : List Byte} (takes : TakesValue option)
    (isToken : IsToken last)
    (numeric : (entryAt option (some last)).Numeric)
    (settings : Configuration) :
    ((entryAt option (some (last ++ [10]))).Accepted ↔
        (entryAt option (some last)).Accepted) ∧
      (entryAt option (some (last ++ [10]))).apply settings =
        (entryAt option (some last)).apply settings := by
  let onLine := entryAt option (some (last ++ [10]))
  let given := entryAt option (some last)
  have lineValue : onLine.value = some (last ++ [10]) := if_pos takes
  have givenValue : given.value = some last := if_pos takes
  have noSpace (byte : Byte) (member : byte ∈ last) : isspace byte = false :=
    (isToken.2 byte member).2
  have sameNumber : onLine.number = given.number := by
    rw [Entry.number, Entry.number, lineValue, givenValue]
    exact atoi_newline isToken.1 noSpace
  have sameParameter : onLine.parameter = given.parameter := rfl
  change (onLine.Accepted ↔ given.Accepted) ∧
    onLine.apply settings = given.apply settings
  constructor
  · unfold Entry.Accepted
    rw [sameNumber]
    exact Iff.rfl
  · rcases numeric with found | found <;>
      rw [Entry.apply, Entry.apply, sameParameter, found, sameNumber]

/-- A path with the end of the line behind it is another path. -/
theorem path_newline {option : List Byte} (takes : TakesValue option)
    (path : ¬ (entryAt option (some last)).Numeric)
    (settings : Configuration) :
    (entryAt option (some (last ++ [10]))).apply settings ≠
      (entryAt option (some last)).apply settings := by
  let onLine := entryAt option (some (last ++ [10]))
  let given := entryAt option (some last)
  have different : onLine.value ≠ given.value := by
    rw [show onLine.value = some (last ++ [10]) from if_pos takes,
      show given.value = some last from if_pos takes]
    simp
  change onLine.apply settings ≠ given.apply settings
  intro same
  cases found : given.parameter with
  | none => exact takes.1 found
  | some parameter =>
      have alsoLine : onLine.parameter = some parameter := found
      rw [Entry.apply, Entry.apply, alsoLine, found] at same
      cases parameter with
      | port => exact path (.inl found)
      | nThreads => exact path (.inr found)
      | s => exact takes.2 found
      | confFile => exact different (congrArg Configuration.confFile same)
      | logFile => exact different (congrArg Configuration.logFile same)

/-- A last word that is a value carries the end of the line. -/
theorem last_value_iff {entries : List Entry} {option : List Byte}
    (takes : TakesValue option) (isToken : IsToken last)
    (accepted : ∀ entry ∈ entries, entry.Accepted) :
    ((if (entryAt option (some (last ++ [10]))).Accepted then
          (entryAt option (some (last ++ [10]))).apply
            (lastSettings entries current)
        else current) =
        if (entryAt option (some last)).Accepted then
          (entryAt option (some last)).apply (lastSettings entries current)
        else current) ↔
      ∃ entry ∈ entries ++ [entryAt option none], entry.ConvertsNull := by
  generalize lastSettings entries current = settings
  by_cases numeric : (entryAt option (some last)).Numeric
  · obtain ⟨sameAccepted, sameApply⟩ :=
      numeric_newline takes isToken numeric settings
    rw [sameApply]
    simp only [sameAccepted, true_iff]
    exact ⟨entryAt option none, by simp, numeric, if_pos takes⟩
  · have fails : ¬ ∃ entry ∈ entries ++ [entryAt option none],
        entry.ConvertsNull := by
      rintro ⟨entry, member, converts⟩
      rcases List.mem_append.1 member with earlier | final
      · exact (accepted entry earlier).not_convertsNull converts
      · rw [List.mem_singleton.1 final] at converts
        exact numeric converts.1
    have accepts (value : List Byte) : (entryAt option (some value)).Accepted :=
      ⟨takes.1, fun isNumeric => absurd isNumeric numeric⟩
    rw [if_pos (accepts _), if_pos (accepts _)]
    exact iff_of_false (path_newline takes numeric settings) fails

/-- The line and the arguments have the same effect exactly when the last word
has. -/
theorem line_agrees_iff (isToken : IsToken last)
    (areTokens : ∀ token ∈ init, IsToken token)
    (fits : (init ++ [last]).length ≤ argvSize - 2)
    (followed : Followed (init ++ [last]))
    (isSet : current.confFile ≠ none) :
    LeavesSame (init ++ [last]) current ↔ SameOnLine init last current := by
  unfold SameOnLine
  by_cases complete : Followed init
  · have scanned := complete.scan_eq (some (last ++ [10]))
    rw [leavesSame_iff isToken areTokens fits followed isSet
      (scanned ▸ complete.noNull), scanned, if_pos complete]
    by_cases refused : ∃ entry ∈ scan none init, ¬ entry.Accepted
    · rw [scan_stops none [last] complete refused]
      exact iff_of_true rfl (.inl refused)
    · have accepted : ∀ entry ∈ scan none init, entry.Accepted := by
        simpa using refused
      have goesOn := scan_append none [last] complete accepted
      have plain : ¬ TakesValue last := by
        intro takes
        refine followed (entryAt last none) ?_ takes (if_pos takes)
        rw [goesOn, scan_last]
        exact List.mem_append_right _ (List.mem_singleton.2 rfl)
      rw [goesOn, scan_last, outcomeOf_append accepted, outcomeOf,
        if_pos accepted]
      exact last_option_iff plain refused
  · rw [if_neg complete]
    obtain ⟨entries, option, takes, accepted, before, behind⟩ :=
      scan_unfinished complete
    have scanned := before (some (last ++ [10]))
    rw [leavesSame_iff isToken areTokens fits followed isSet, scanned,
      behind, before, outcomeOf_append accepted, outcomeOf_append accepted]
    · exact last_value_iff takes isToken accepted
    · rw [scanned]
      intro entry member
      rcases List.mem_append.1 member with earlier | final
      · exact (accepted entry earlier).not_convertsNull
      · rw [List.mem_singleton.1 final]
        intro converts
        cases (if_pos takes).symm.trans converts.2

end Line

/-- The configuration of a server that was given a file. -/
def fileGiven : Configuration :=
  { Configuration.initial with confFile := some (bytes "server.conf") }

theorem sameOnLine_port : SameOnLine [bytes "-p"] (bytes "80") fileGiven := by
  have unfinished : ¬ Followed [bytes "-p"] := by decide
  unfold SameOnLine
  rw [if_neg unfinished]
  exact ⟨_, List.mem_singleton.2 rfl, by decide⟩

/-- A port is the same on the line. -/
theorem line_agrees_iff_port : LeavesSame [bytes "-p", bytes "80"] fileGiven :=
  (@line_agrees_iff [bytes "-p"] (bytes "80") fileGiven (by decide) (by decide)
    (by decide) (by decide) (by decide)).mpr sameOnLine_port

/-- The option `-s` alone on the line sets nothing. -/
theorem line_loses_option : ¬ LeavesSame [bytes "-s"] fileGiven := by
  rintro ⟨fromLine, fromCommand, updated, line, command⟩
  have unchanged : fileGiven.updateParameters (.line (lineOf [bytes "-s"])) =
      .ok (ok, fileGiven) := rfl
  have changed : fileGiven.getParameters (.ofWords [bytes "-s"]) =
      .ok (ok, { fileGiven with s := true }) := rfl
  have same := (Prod.mk.inj (Except.ok.inj (unchanged.symm.trans line))).2
  have other := (Prod.mk.inj (Except.ok.inj (changed.symm.trans command))).2
  rw [← same] at other
  cases congrArg Configuration.s other

end RemoteCommand
