import RemoteCommand.Machine.Words
import RemoteCommand.OptionScan

/-!
# The line of the configuration file

`parse_conf_file` stores the words of the line from `argv[1]` on, and a `NULL`
behind the last.  It counts one argument less than there are words, so that the
last word is no option; as a value it is read.  Its array ends with
`argv[ARGV_SIZE - 1]`.
-/

namespace RemoteCommand

open Machine

/-- The words of a line; the end of the line belongs to the last one. -/
def lineWords (text : List Byte) : List (List Byte) :=
  words [32] (cstr text)

theorem strtok_lineWords {state : Strtok Unit} {before text : List Byte}
    (here : state.At () before text) :
    ∃ after before' rest,
      state.strtok none (bytes " ") = ((lineWords text).head?, after) ∧
      after.At () before' rest ∧
      lineWords rest = (lineWords text).tail :=
  Strtok.strtok_next here (bytes " ")

namespace Configuration

/-! ## The loop that fills argv -/

/-- Where there is room for the words and the `NULL`, they are stored. -/
theorem fillArgv_stores (turns : Nat) :
    ∀ {c : Nat} {parser : Strtok Unit} {argv : Nat → Option (List Byte)}
      {before text : List Byte}, parser.At () before text →
      (lineWords text).length < turns →
      c + (lineWords text).length + 1 < argvSize →
      ∃ filled,
        fillArgv turns c parser argv =
          .ok (c + (lineWords text).length + 1, filled) ∧
        (∀ index ≤ c, filled index = argv index) ∧
        ∀ index, filled (c + 1 + index) =
          if index ≤ (lineWords text).length then (lineWords text)[index]?
          else argv (c + 1 + index) := by
  induction turns with
  | zero => exact fun _ enough => absurd enough (Nat.not_lt_zero _)
  | succ turns inductionHypothesis =>
      intro c parser argv before text here enough room
      obtain ⟨after, before', rest, called, behind, left⟩ :=
        strtok_lineWords here
      have inside : ¬ argvSize ≤ c + 1 := by omega
      rw [fillArgv, called]
      dsimp only
      rw [if_neg inside]
      cases found : lineWords text with
      | nil =>
          refine ⟨_, rfl, fun index below => ?_, fun index => ?_⟩
          · exact Function.update_of_ne (by omega) _ _
          · cases index with
            | zero => simp
            | succ index => simp
      | cons word others =>
          rw [found, List.tail_cons] at left
          rw [found, List.length_cons] at enough room
          obtain ⟨filled, fills, kept, stored⟩ := @inductionHypothesis (c + 1)
            after (Function.update argv (c + 1) (some word)) before' rest behind
            (by rw [left]; omega) (by rw [left]; omega)
          refine ⟨filled, ?_, fun index below => ?_, fun index => ?_⟩
          · rw [List.head?_cons, Option.isNone_some, if_neg Bool.false_ne_true,
              fills, left, List.length_cons]
            congr 2
            omega
          · rw [kept index (by omega), Function.update_of_ne (by omega)]
          · cases index with
            | zero =>
                rw [Nat.add_zero, kept (c + 1) (Nat.le_refl _)]
                simp
            | succ index =>
                have place : c + 1 + (index + 1) = c + 1 + 1 + index := by omega
                rw [place, stored, left, Function.update_of_ne (by omega)]
                simp

/-- Where there is no room, the loop stores behind the array. -/
theorem fillArgv_overflows (turns : Nat) :
    ∀ {c : Nat} {parser : Strtok Unit} {argv : Nat → Option (List Byte)}
      {before text : List Byte}, parser.At () before text →
      argvSize ≤ c + (lineWords text).length + 1 →
      fillArgv turns c parser argv = .error .outOfBounds := by
  induction turns with
  | zero => exact fun _ _ => rfl
  | succ turns inductionHypothesis =>
      intro c parser argv before text here full
      obtain ⟨after, before', rest, called, behind, left⟩ :=
        strtok_lineWords here
      rw [fillArgv, called]
      dsimp only
      by_cases outside : argvSize ≤ c + 1
      · exact if_pos outside
      · rw [if_neg outside]
        cases found : lineWords text with
        | nil =>
            rw [found] at full
            exact absurd full outside
        | cons word others =>
            rw [found, List.tail_cons] at left
            rw [found, List.length_cons] at full
            rw [List.head?_cons, Option.isNone_some, if_neg Bool.false_ne_true]
            exact inductionHypothesis behind (by rw [left]; omega)

/-! ## The arguments of the line -/

/-- The array has room for the words of the line and the `NULL`. -/
def Room (text : List Byte) : Prop :=
  (lineWords text).tail.length + 2 < argvSize

instance (text : List Byte) : Decidable (Room text) :=
  inferInstanceAs (Decidable (_ < _))

theorem strtok_line (text : List Byte) :
    ∃ (after : Strtok Unit) (before rest : List Byte),
      Strtok.strtok { buffer := fun _ => text, save := none } (some ())
          (bytes " ") = ((lineWords text).head?, after) ∧
        after.At () before rest ∧ lineWords rest = (lineWords text).tail := by
  rw [Strtok.strtok_source]
  exact @strtok_lineWords _ [] text ⟨rfl, rfl⟩

/-- The last word of the line is behind the arguments. -/
theorem parseConfFile_room {text : List Byte} (room : Room text)
    (fname : List Byte) :
    ∃ arguments : Arguments,
      parseConfFile (some fname) (.line text) = .ok (ok, some arguments) ∧
        arguments.argc = (lineWords text).tail.length + 1 ∧
        arguments.From (lineWords text).getLast? 1
          (lineWords text).dropLast := by
  obtain ⟨after, before, rest, called, here, left⟩ := strtok_line text
  unfold Room argvSize at room
  rw [← left] at room ⊢
  obtain ⟨filled, fills, kept, stored⟩ := @fillArgv_stores argvSize 1 after
    (Function.update (fun _ => none) 1 (lineWords text).head?) before rest here
    (by unfold argvSize; omega) (by unfold argvSize; omega)
  have count : 1 + (lineWords rest).length + 1 - 1 =
      (lineWords rest).length + 1 := by omega
  refine ⟨⟨1 + (lineWords rest).length + 1 - 1, filled⟩, ?_, count, ?_⟩
  · rw [parseConfFile]
    simp only [called, fills]
    rfl
  have texts (index : Nat) (inside : index ≤ (lineWords text).tail.length + 1) :
      filled (index + 1) = (lineWords text)[index]? := by
    cases index with
    | zero =>
        rw [kept 1 (Nat.le_refl _), Function.update_self,
          List.head?_eq_getElem?]
    | succ index =>
        have place : index + 1 + 1 = 1 + 1 + index := by omega
        rw [place, stored, left, if_pos (by omega), List.getElem?_tail]
  rw [left] at count ⊢
  rcases List.eq_nil_or_concat (lineWords text) with empty | ⟨init, last, found⟩
  · rw [empty] at count texts ⊢
    exact ⟨count.le, texts 0 (Nat.zero_le _)⟩
  · have fewer : (lineWords text).tail.length = init.length := by
      rw [List.length_tail, found, List.concat_eq_append, List.length_append]
      rfl
    rw [fewer] at count texts ⊢
    rw [found, List.concat_eq_append] at texts ⊢
    rw [List.getLast?_append_of_ne_nil _ (List.cons_ne_nil _ _),
      List.dropLast_concat]
    apply @Arguments.from_of_argv _ _ _ [] count
    · intro index inside
      rw [List.nil_append] at inside ⊢
      exact (texts index (by omega)).trans (List.getElem?_append_left inside)
    · dsimp only
      rw [count, texts _ (by omega)]
      simp

theorem parseConfFile_noRoom {text : List Byte} (full : ¬ Room text)
    (fname : List Byte) :
    parseConfFile (some fname) (.line text) = .error .outOfBounds := by
  obtain ⟨after, before, rest, called, here, left⟩ := strtok_line text
  have overflows := @fillArgv_overflows argvSize 1 after
    (Function.update (fun _ => none) 1 (lineWords text).head?) before rest here
    (by unfold Room at full; rw [left]; omega)
  rw [parseConfFile]
  simp only [called, overflows]
  rfl

/-! ## What is stored and what is read -/

/-- The places of `argv` that the loop of `parse_conf_file` stores at.  The
test of `c` comes behind the store. -/
def fillStores : Nat → Nat → Strtok Unit → List Nat
  | 0, _, _ => []
  | turns + 1, c, parser =>
      let (token, parser) := parser.strtok none (bytes " ")
      (c + 1) ::
        if token.isSome ∧ c + 1 < argvSize then fillStores turns (c + 1) parser
        else []

/-- The places that `parse_conf_file` stores at. -/
def storesOf (text : List Byte) : List Nat :=
  let parser : Strtok Unit := { buffer := fun _ => text, save := none }
  1 :: fillStores argvSize 1 (parser.strtok (some ()) (bytes " ")).2

theorem mem_fillStores (turns : Nat) :
    ∀ {c : Nat} {parser : Strtok Unit} {before text : List Byte} {index : Nat},
      parser.At () before text → c < argvSize → argvSize ≤ c + turns →
      (index ∈ fillStores turns c parser ↔
        c < index ∧ index ≤ min (c + (lineWords text).length + 1) argvSize) := by
  induction turns with
  | zero =>
      intro c _ _ _ _ _ inside full
      exact absurd full (Nat.not_le_of_lt inside)
  | succ turns inductionHypothesis =>
      intro c parser before text index here inside full
      obtain ⟨after, before', rest, called, behind, left⟩ :=
        strtok_lineWords here
      rw [fillStores, called]
      dsimp only
      cases found : lineWords text with
      | nil => simp; omega
      | cons word others =>
          rw [found, List.tail_cons] at left
          by_cases goesOn : c + 1 < argvSize
          · have later := @inductionHypothesis (c + 1) after before' rest index
              behind goesOn (by omega)
            rw [left] at later
            rw [List.head?_cons, if_pos ⟨rfl, goesOn⟩, List.mem_cons, later,
              List.length_cons]
            omega
          · rw [if_neg fun both => goesOn both.2, List.mem_singleton,
              List.length_cons]
            omega

theorem mem_storesOf {text : List Byte} {index : Nat} :
    index ∈ storesOf text ↔
      1 ≤ index ∧ index ≤ min ((lineWords text).tail.length + 2) argvSize := by
  obtain ⟨after, before, rest, called, here, left⟩ := strtok_line text
  have later := @mem_fillStores argvSize 1 after before rest index here
    (by decide) (by decide)
  unfold storesOf
  dsimp only
  rw [called, List.mem_cons, later, left]
  unfold argvSize
  omega

/-- The places of `argv` that the loop of `get_parameters` reads. -/
def readsFrom (arguments : Arguments) : Nat → Nat → List Nat
  | 0, _ => []
  | turns + 1, index =>
      if arguments.argc ≤ index then
        []
      else
        index ::
          match arguments.argv index with
          | none => []
          | some option =>
              let entry := entryAt option (arguments.argv (index + 1))
              if TakesValue option then
                (index + 1) ::
                  if entry.Accepted then readsFrom arguments turns (index + 2)
                  else []
              else
                if entry.Accepted then readsFrom arguments turns (index + 1)
                else []

def readsOf (arguments : Arguments) : List Nat :=
  readsFrom arguments arguments.argc 1

/-- Reading ends with the value behind the last argument. -/
theorem mem_readsFrom {arguments : Arguments} (turns : Nat) :
    ∀ {start index : Nat}, index ∈ readsFrom arguments turns start →
      start ≤ index ∧ index ≤ arguments.argc ∧ start < arguments.argc := by
  induction turns with
  | zero => exact fun member => absurd member List.not_mem_nil
  | succ turns inductionHypothesis =>
      intro start index member
      rw [readsFrom] at member
      split_ifs at member with behind
      · exact absurd member List.not_mem_nil
      have inside := Nat.lt_of_not_le behind
      rcases List.mem_cons.1 member with rfl | member
      · exact ⟨Nat.le_refl _, inside.le, inside⟩
      split at member
      · exact absurd member List.not_mem_nil
      · dsimp only at member
        split_ifs at member
        · rcases List.mem_cons.1 member with rfl | later
          · exact ⟨by omega, inside, inside⟩
          · obtain ⟨after, within, _⟩ := inductionHypothesis later
            exact ⟨by omega, within, inside⟩
        · rw [List.mem_singleton] at member
          exact ⟨by omega, by omega, inside⟩
        · obtain ⟨after, within, _⟩ := inductionHypothesis member
          exact ⟨by omega, within, inside⟩
        · exact absurd member List.not_mem_nil

/-- The loop of `get_parameters` depends on the places that it reads only. -/
theorem parseFrom_congr {first second : Arguments}
    (sameCount : first.argc = second.argc) (turns : Nat) :
    ∀ {index : Nat} {current : Configuration},
      (∀ place ∈ readsFrom first turns index,
        first.argv place = second.argv place) →
      parseFrom first turns index current =
        parseFrom second turns index current := by
  induction turns with
  | zero => exact fun _ => rfl
  | succ turns inductionHypothesis =>
      intro index current same
      rw [readsFrom] at same
      by_cases behind : first.argc ≤ index
      · rw [parseFrom_done behind, parseFrom_done (sameCount ▸ behind)]
      rw [if_neg behind] at same
      have inside := Nat.lt_of_not_le behind
      obtain ⟨sameOption, later⟩ := List.forall_mem_cons.1 same
      cases holds : first.argv index with
      | none =>
          rw [parseFrom, parseFrom, if_neg behind, if_neg (sameCount ▸ behind),
            ← sameOption, holds]
      | some option =>
          rw [holds] at later
          dsimp only at later
          have sameEntry : entryAt option (first.argv (index + 1)) =
              entryAt option (second.argv (index + 1)) := by
            by_cases takes : TakesValue option
            · rw [if_pos takes] at later
              rw [later _ List.mem_cons_self]
            · simp [entryAt, takes]
          rw [parseFrom_step inside holds,
            parseFrom_step (sameCount ▸ inside) (sameOption ▸ holds),
            ← sameEntry]
          congr 1
          by_cases accepted : (entryAt option (first.argv (index + 1))).Accepted
          · rw [if_pos accepted, if_pos accepted]
            rw [if_pos accepted, if_pos accepted] at later
            split_ifs at later ⊢
            · exact inductionHypothesis (List.forall_mem_cons.1 later).2
            · exact inductionHypothesis later
          · rw [if_neg accepted, if_neg accepted]

/-- So does `get_parameters`. -/
theorem getParameters_congr {first second : Arguments}
    (sameCount : first.argc = second.argc)
    (same : ∀ place ∈ readsOf first, first.argv place = second.argv place)
    (current : Configuration) :
    current.getParameters first = current.getParameters second := by
  rw [getParameters, getParameters, ← sameCount, parseFrom_congr sameCount]
  exact same

/-- `parse_conf_file` goes wrong exactly if it stores behind `argv`. -/
theorem parseConfFile_error_iff (fname text : List Byte) :
    parseConfFile (some fname) (.line text) = .error .outOfBounds ↔
      ∃ index ∈ storesOf text, argvSize ≤ index := by
  by_cases room : Room text
  · obtain ⟨arguments, parses, _⟩ := parseConfFile_room room fname
    rw [parses]
    refine iff_of_false (fun fails => by cases fails) ?_
    rintro ⟨index, stored, outside⟩
    have within := (mem_storesOf.1 stored).2
    unfold Room at room
    omega
  · refine iff_of_true (parseConfFile_noRoom room fname) ?_
    refine ⟨argvSize, mem_storesOf.2 ⟨by decide, ?_⟩, Nat.le_refl _⟩
    unfold Room at room
    omega

/-- `parse_conf_file` stays within `argv`, and `get_parameters` reads what it
has stored. -/
structure Confined (text : List Byte) : Prop where
  stores : ∀ index ∈ storesOf text, 1 ≤ index ∧ index ≤ argvSize - 1
  reads : ∀ fname arguments,
    parseConfFile (some fname) (.line text) = .ok (ok, some arguments) →
      ∀ index ∈ readsOf arguments, index ∈ storesOf text

theorem room_iff {text : List Byte} :
    Room text ↔ (lineWords text).length ≤ argvSize - 2 := by
  unfold Room argvSize
  rw [List.length_tail]
  omega

theorem Room.confined {text : List Byte} (room : Room text) :
    Confined text := by
  refine ⟨fun index stored => ?_, fun fname arguments parsed index read => ?_⟩
  · obtain ⟨low, high⟩ := mem_storesOf.1 stored
    unfold Room at room
    exact ⟨low, by omega⟩
  · obtain ⟨found, parses, count, _⟩ := parseConfFile_room room fname
    rw [parses] at parsed
    cases parsed
    obtain ⟨low, high, _⟩ := mem_readsFrom _ read
    unfold Room at room
    exact mem_storesOf.2 ⟨low, by omega⟩

/-- The array is not left exactly when the line has at most `ARGV_SIZE - 2`
words. -/
theorem confined_iff (text : List Byte) :
    Confined text ↔ (lineWords text).length ≤ argvSize - 2 := by
  rw [← room_iff]
  constructor
  · intro confined
    by_contra noRoom
    obtain ⟨index, stored, outside⟩ :=
      (parseConfFile_error_iff [] text).1 (parseConfFile_noRoom noRoom [])
    have inside := (confined.stores index stored).2
    unfold argvSize at inside outside
    omega
  · exact Room.confined

/-- What the places of `argv` held that were not stored does not matter. -/
theorem getParameters_stored {text fname : List Byte} {arguments : Arguments}
    (confined : Confined text)
    (parsed : parseConfFile (some fname) (.line text) =
      .ok (ok, some arguments))
    (memory : Nat → Option (List Byte)) (current : Configuration) :
    current.getParameters
        { arguments with
          argv := fun place =>
            if place ∈ storesOf text then arguments.argv place
            else memory place } =
      current.getParameters arguments := by
  symm
  apply getParameters_congr
  · rfl
  · intro place read
    exact (if_pos (confined.reads fname arguments parsed place read)).symm

/-- Elsewhere the array holds what looks like options. -/
theorem getParameters_stored_port :
    ∃ arguments : Arguments,
      parseConfFile (some (bytes "f")) (.line (bytes "-p 80 -s\n")) =
          .ok (ok, some arguments) ∧
        initial.getParameters
            { arguments with
              argv := fun place =>
                if place ∈ storesOf (bytes "-p 80 -s\n") then
                  arguments.argv place
                else
                  some (bytes "-n") } =
          .ok (ok, { initial with port := 80 }) := by
  have confined : Confined (bytes "-p 80 -s\n") := Room.confined (by decide)
  obtain ⟨arguments, parsed, _, holds⟩ :=
    @parseConfFile_room (bytes "-p 80 -s\n") (by decide) (bytes "f")
  refine ⟨arguments, parsed, ?_⟩
  rw [getParameters_stored confined parsed, getParameters_settle holds]
  rfl

/-- Nine words: the `NULL` is stored behind the array. -/
theorem not_confined_nine :
    ¬ Confined (bytes "-s -s -s -s -s -s -s -s -s\n") := by
  intro confined
  exact absurd (confined.stores 10 (by decide)).2 (by decide)

end Configuration

end RemoteCommand
