import RemoteCommand.Machine.CString

/-!
# The words of a text

What stands between delimiters, and that successive calls of `strtok` with one
set of delimiters find the words one by one.
-/

namespace RemoteCommand.Machine

/-- The words of a text: its longest non-empty parts without delimiters. -/
def words (delims text : List Byte) : List (List Byte) :=
  (text.splitOnP delims.contains).filter (· ≠ [])

section Words

variable {delims : List Byte}

@[simp]
theorem words_nil : words delims [] = [] := by
  simp [words]

/-- A text is split at a delimiter. -/
theorem words_append_cons {delim : Byte} (separates : delim ∈ delims)
    (first second : List Byte) :
    words delims (first ++ delim :: second) =
      words delims first ++ words delims second := by
  unfold words
  rw [List.splitOnP_append_cons first second (by simpa using separates),
    List.filter_append]

/-- A delimiter in front does not matter. -/
theorem words_cons {delim : Byte} (separates : delim ∈ delims)
    (text : List Byte) :
    words delims (delim :: text) = words delims text := by
  simpa using words_append_cons separates [] text

theorem words_dropWhile (text : List Byte) :
    words delims (text.dropWhile (· ∈ delims)) = words delims text := by
  induction text with
  | nil => rfl
  | cons byte text inductionHypothesis =>
      by_cases separates : byte ∈ delims
      · rw [List.dropWhile_cons_of_pos (by simpa using separates),
          inductionHypothesis, words_cons separates]
      · rw [List.dropWhile_cons_of_neg (by simpa using separates)]

/-- Delimiters in front do not matter. -/
theorem words_skip {skipped : List Byte}
    (skips : ∀ byte ∈ skipped, byte ∈ delims) (text : List Byte) :
    words delims (skipped ++ text) = words delims text := by
  rw [← words_dropWhile, List.dropWhile_append_of_pos
    (fun byte member => by simpa using skips byte member), words_dropWhile]

/-- A text without delimiters is a word. -/
theorem words_single {word : List Byte} (nonempty : word ≠ [])
    (plain : ∀ byte ∈ word, byte ∉ delims) : words delims word = [word] := by
  unfold words
  rw [List.splitOnP_eq_singleton fun byte member => by
    simpa using plain byte member]
  simp [nonempty]

/-- There are no delimiters in the parts of a split text. -/
theorem notMem_of_mem_splitOnP {text : List Byte} :
    ∀ part ∈ text.splitOnP delims.contains, ∀ byte ∈ part, byte ∉ delims := by
  induction text with
  | nil => simp [List.splitOnP_nil]
  | cons first text inductionHypothesis =>
      intro part member
      rw [List.splitOnP_cons_eq_if_modifyHead] at member
      split_ifs at member with separates
      · rcases List.mem_cons.1 member with rfl | later
        · simp
        · exact inductionHypothesis part later
      · obtain ⟨head, tail, split⟩ := List.exists_cons_of_ne_nil
          (List.splitOnP_ne_nil delims.contains text)
        rw [split] at inductionHypothesis
        rw [split, List.modifyHead_cons] at member
        rcases List.mem_cons.1 member with rfl | later
        · intro byte inside
          rcases List.mem_cons.1 inside with rfl | further
          · simpa using separates
          · exact inductionHypothesis head List.mem_cons_self byte further
        · exact inductionHypothesis part (List.mem_cons_of_mem _ later)

theorem mem_words {text word : List Byte} (member : word ∈ words delims text) :
    word ≠ [] ∧ ∀ byte ∈ word, byte ∉ delims := by
  obtain ⟨part, nonempty⟩ := List.mem_filter.1 member
  exact ⟨by simpa using nonempty, notMem_of_mem_splitOnP word part⟩

end Words

/-- Behind its string an array holds the empty string. -/
theorem cstr_drop_strlen (array : List Byte) :
    cstr (array.drop (cstr array).length) = [] := by
  induction array with
  | nil => rfl
  | cons byte array inductionHypothesis =>
      rw [cstr_cons]
      split_ifs with terminator
      · rw [List.length_nil, List.drop_zero, cstr_cons, if_pos terminator]
      · exact inductionHypothesis

theorem cstr_append_drop (array : List Byte) :
    cstr array ++ array.drop (cstr array).length = array := by
  have isPrefix : cstr array <+: array := List.takeWhile_prefix _
  exact List.prefix_iff_eq_append.1 isPrefix

/-- A `NUL` that is stored ends the string there. -/
theorem cstr_set (array : List Byte) (index : Nat) :
    cstr (array.set index 0) = (cstr array).take index := by
  induction array generalizing index with
  | nil => simp
  | cons byte array inductionHypothesis =>
      cases index with
      | zero => rw [List.set_cons_zero, cstr_cons, if_pos rfl, List.take_zero]
      | succ index =>
          rw [List.set_cons_succ, cstr_cons, cstr_cons, inductionHypothesis]
          split_ifs
          · rfl
          · rw [List.take_succ_cons]

namespace Strtok

variable {κ : Type} [DecidableEq κ]

/-- How a call cuts its string: delimiters are skipped, the word ends at the
next delimiter, which is overwritten, or with the string. -/
structure Cuts (delim text skipped word behind : List Byte) : Prop where
  whole : cstr text = skipped ++ (word ++ behind)
  skips : ∀ byte ∈ skipped, byte ∈ cstr delim
  plain : ∀ byte ∈ word, byte ∉ cstr delim
  ends : ∀ byte ∈ behind.head?, byte ∈ cstr delim
  complete : word = [] → behind = []

theorem cuts_parts (delim text : List Byte) :
    let rest := (cstr text).dropWhile (· ∈ cstr delim)
    Cuts delim text ((cstr text).takeWhile (· ∈ cstr delim))
      (rest.takeWhile (· ∉ cstr delim)) (rest.dropWhile (· ∉ cstr delim)) := by
  have whole : (cstr text).takeWhile (· ∈ cstr delim) ++
      (cstr text).dropWhile (· ∈ cstr delim) = cstr text :=
    List.takeWhile_append_dropWhile
  have outside := List.head?_dropWhile_not (· ∈ cstr delim) (cstr text)
  dsimp only
  generalize (cstr text).dropWhile (· ∈ cstr delim) = rest at whole outside
  refine ⟨?_, ?_, ?_, ?_, ?_⟩
  · rw [List.takeWhile_append_dropWhile, whole]
  · exact fun byte member => by simpa using List.mem_takeWhile_imp member
  · exact fun byte member => by simpa using List.mem_takeWhile_imp member
  · intro byte first
    have stops := List.head?_dropWhile_not (· ∉ cstr delim) rest
    rw [Option.mem_def.1 first] at stops
    exact not_not.1 (of_decide_eq_false stops)
  · intro noWord
    cases rest with
    | nil => rfl
    | cons head more =>
        have plain : head ∉ cstr delim := of_decide_eq_false outside
        rw [List.takeWhile_cons_of_pos (by simpa using plain)] at noWord
        cases noWord

/-- The words of the string are the word and what is left. -/
theorem Cuts.words_eq {delim text skipped word behind : List Byte}
    (cuts : Cuts delim text skipped word behind) :
    words (cstr delim) (cstr text) =
      (if word = [] then [] else [word]) ++
        words (cstr delim) behind.tail := by
  rw [cuts.whole, words_skip cuts.skips]
  split_ifs with noWord
  · rw [noWord, cuts.complete noWord]
    rfl
  · cases ended : behind with
    | nil =>
        rw [List.append_nil, words_single noWord cuts.plain, List.tail_nil,
          words_nil, List.append_nil]
    | cons delimiter more =>
        have separates := cuts.ends delimiter (by rw [ended]; rfl)
        rw [words_append_cons separates, words_single noWord cuts.plain]
        rfl

/-- Behind a delimiter that is overwritten the text goes on. -/
theorem at_overwritten (buffer : κ → List Byte) (key : κ)
    (before front more : List Byte) (delimiter : Byte) :
    At { buffer := Function.update buffer key
          ((before ++ (front ++ delimiter :: more)).set
            (before.length + front.length) 0)
         save := some (key, before.length + front.length + 1) } key
      (before ++ (front ++ [0])) more where
  buffer := by
    have place : before.length + front.length = (before ++ front).length :=
      List.length_append.symm
    dsimp only
    rw [Function.update_self, ← List.append_assoc, place,
      List.set_append_right _ _ (Nat.le_refl _), Nat.sub_self,
      List.set_cons_zero]
    simp
  save := by simp [Nat.add_assoc]

/-- A call, by the parts of its string. -/
theorem strtok_parts {state : Strtok κ} {key : κ} {before text : List Byte}
    (here : state.At key before text) (delim : List Byte) :
    ∃ skipped word behind, Cuts delim text skipped word behind ∧
      state.strtok none delim =
        let stop := before.length + skipped.length + word.length
        if behind = [] then
          (if word = [] then none else some word,
            { state with save := some (key, stop) })
        else
          (some word,
            { buffer := Function.update state.buffer key
                ((before ++ text).set stop 0)
              save := some (key, stop + 1) }) := by
  have called := strtok_at here delim
  have cuts := cuts_parts delim text
  have skips : (cstr text).length -
      ((cstr text).dropWhile (· ∈ cstr delim)).length =
        ((cstr text).takeWhile (· ∈ cstr delim)).length := by
    have whole := congrArg List.length (@List.takeWhile_append_dropWhile _
      (· ∈ cstr delim) (cstr text))
    rw [List.length_append] at whole
    omega
  dsimp only at called cuts
  rw [skips] at called
  generalize (cstr text).takeWhile (· ∈ cstr delim) = skipped at called cuts
  generalize (cstr text).dropWhile (· ∈ cstr delim) = rest at called cuts
  have parts : rest.takeWhile (· ∉ cstr delim) ++
      rest.dropWhile (· ∉ cstr delim) = rest := List.takeWhile_append_dropWhile
  generalize rest.takeWhile (· ∉ cstr delim) = word at called cuts parts
  generalize rest.dropWhile (· ∉ cstr delim) = behind at cuts parts
  subst parts
  refine ⟨skipped, word, behind, cuts, called.trans ?_⟩
  cases behind with
  | nil =>
      rw [List.append_nil, if_pos rfl, if_pos rfl]
      split_ifs with noWord
      · rw [noWord, List.length_nil, Nat.add_zero]
      · rfl
  | cons delimiter more =>
      have some_rest : word ++ delimiter :: more ≠ [] := by simp
      have further : word ≠ word ++ delimiter :: more := by simp
      rw [if_neg some_rest, if_neg further, if_neg (List.cons_ne_nil _ _)]

/-- A call finds the word, and goes on behind the delimiter that ends it. -/
theorem strtok_cuts {state : Strtok κ} {key : κ} {before text : List Byte}
    (here : state.At key before text) (delim : List Byte) :
    ∃ skipped word behind after rest,
      Cuts delim text skipped word behind ∧
        state.strtok none delim =
          (if word = [] then none else some word, after) ∧
        after.At key
          (before ++ (skipped ++ (word ++ if behind = [] then [] else [0])))
          rest ∧
        cstr rest = behind.tail := by
  obtain ⟨skipped, word, behind, cuts, called⟩ := strtok_parts here delim
  have holds := cstr_append_drop text
  rw [cuts.whole] at holds
  generalize left : text.drop (skipped ++ (word ++ behind)).length = rest at holds
  have ended : cstr rest = [] := by
    rw [← left, ← cuts.whole, cstr_drop_strlen]
  cases behind with
  | nil =>
      -- the word ends with the string
      refine ⟨skipped, word, [], _, rest, cuts, called, ⟨?_, ?_⟩, ended⟩
      · rw [List.append_nil] at holds
        rw [if_pos rfl, List.append_nil, List.append_assoc, holds]
        exact here.buffer
      · simp [Nat.add_assoc]
  | cons delimiter more =>
      -- the word ends at a delimiter, which is overwritten
      have noWord : word ≠ [] := fun empty => by cases cuts.complete empty
      have clean : 0 ∉ more := by
        intro member
        apply zero_notMem_cstr text
        rw [cuts.whole]
        exact List.mem_append_right _
          (List.mem_append_right _ (List.mem_cons_of_mem _ member))
      have split : text = (skipped ++ word) ++ delimiter :: (more ++ rest) := by
        rw [← holds]
        simp
      refine ⟨skipped, word, delimiter :: more, (state.strtok none delim).2,
        more ++ rest, cuts, ?_, ?_, ?_⟩
      · rw [called, if_neg noWord]
        rfl
      · have there := at_overwritten state.buffer key before (skipped ++ word)
          (more ++ rest) delimiter
        rw [← split, List.length_append, ← Nat.add_assoc, List.append_assoc]
          at there
        rw [called]
        exact there
      · rw [cstr_append clean, ended, List.append_nil]
        rfl

/-- A call finds the next word, and leaves the words behind it. -/
theorem strtok_next {state : Strtok κ} {key : κ} {before text : List Byte}
    (here : state.At key before text) (delim : List Byte) :
    ∃ after before' rest,
      state.strtok none delim =
        ((words (cstr delim) (cstr text)).head?, after) ∧
      after.At key before' rest ∧
      words (cstr delim) (cstr rest) =
        (words (cstr delim) (cstr text)).tail := by
  obtain ⟨skipped, word, behind, after, rest, cuts, called, there, left⟩ :=
    strtok_cuts here delim
  refine ⟨after, _, rest, ?_, there, ?_⟩
  · rw [called, cuts.words_eq]
    by_cases noWord : word = []
    · rw [if_pos noWord, if_pos noWord, cuts.complete noWord]
      simp
    · rw [if_neg noWord, if_neg noWord]
      rfl
  · rw [left, cuts.words_eq]
    by_cases noWord : word = []
    · rw [if_pos noWord, cuts.complete noWord]
      simp
    · rw [if_neg noWord]
      rfl

/-- A call with a source finds the first word of the array. -/
theorem strtok_token (state : Strtok κ) (key : κ) (delim : List Byte) :
    (state.strtok (some key) delim).1 =
      (words (cstr delim) (cstr (state.buffer key))).head? := by
  obtain ⟨after, _, _, called, _⟩ := @strtok_next κ _
    { state with save := some (key, 0) } key [] (state.buffer key) ⟨rfl, rfl⟩
    delim
  rw [strtok_source, called]

/-- It leaves a string of the array with this word only, and goes on behind
it. -/
theorem strtok_first (state : Strtok κ) (key : κ) (delim : List Byte) :
    words (cstr delim) (cstr ((state.strtok (some key) delim).2.buffer key)) =
        (state.strtok (some key) delim).1.toList ∧
      ∃ stop, (state.strtok (some key) delim).2.save = some (key, stop) ∧
        (cstr ((state.strtok (some key) delim).2.buffer key)).length ≤
          stop := by
  obtain ⟨skipped, word, behind, after, rest, cuts, called, there, left⟩ :=
    @strtok_cuts κ _ { state with save := some (key, 0) } key []
      (state.buffer key) ⟨rfl, rfl⟩ delim
  rw [strtok_source, called]
  have clean : 0 ∉ skipped ++ word := by
    intro member
    apply zero_notMem_cstr (state.buffer key)
    rw [cuts.whole, ← List.append_assoc]
    exact List.mem_append_left _ member
  have string : cstr (after.buffer key) = skipped ++ word := by
    rw [there.buffer, List.nil_append, List.append_assoc, List.append_assoc,
      ← List.append_assoc, cstr_append clean]
    split_ifs with last
    · rw [List.nil_append, left, last, List.tail_nil, List.append_nil]
    · rw [List.singleton_append, cstr_cons, if_pos rfl, List.append_nil]
  dsimp only
  rw [string]
  refine ⟨?_, _, there.save, ?_⟩
  · rw [words_skip cuts.skips]
    split_ifs with noWord
    · rw [noWord, words_nil]
      rfl
    · exact words_single noWord cuts.plain
  · simp only [List.length_append, List.length_nil]
    omega

/-- A call that goes on behind the string of an array leaves the string. -/
theorem strtok_behind {state : Strtok κ} {key : κ} {start : Nat}
    (saved : state.save = some (key, start))
    (behind : (cstr (state.buffer key)).length ≤ start) (delim : List Byte) :
    cstr ((state.strtok none delim).2.buffer key) = cstr (state.buffer key) ∧
      ∃ stop, (state.strtok none delim).2.save = some (key, stop) ∧
        start ≤ stop := by
  have place : ((none : Option κ).map (·, 0) <|> some (key, start)) =
      some (key, start) := rfl
  rw [strtok, saved, place]
  dsimp only
  split_ifs
  · exact ⟨rfl, _, rfl, Nat.le_add_right _ _⟩
  · exact ⟨rfl, _, rfl, by omega⟩
  · refine ⟨?_, _, rfl, by omega⟩
    dsimp only
    rw [Function.update_self, cstr_set, List.take_of_length_le (by omega)]

end Strtok

end RemoteCommand.Machine
