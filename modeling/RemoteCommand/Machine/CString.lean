import Mathlib.Data.List.TakeDrop
import Mathlib.Data.List.TakeWhile
import Mathlib.Logic.Function.Basic

/-!
# C strings and `strtok`

A character array is the list of its bytes.  The string it holds ends at the
first `NUL`, or at the end of the list: an array that was cleared before it was
filled is the list of the bytes that were written.

`strtok` keeps one save pointer for the process.  The keys of its memory name
the arrays it is called on.
-/

namespace RemoteCommand.Machine

abbrev Byte : Type := BitVec 8

/-- The bytes of a string literal. -/
def bytes (text : String) : List Byte :=
  text.toList.map fun char => BitVec.ofNat 8 char.toNat

/-- The string that an array holds. -/
def cstr (array : List Byte) : List Byte :=
  array.takeWhile (· ≠ 0)

def strlen (array : List Byte) : Nat :=
  (cstr array).length

def strcmp : List Byte → List Byte → Int
  | [], [] => 0
  | [], right :: _ => if right = 0 then 0 else -1
  | left :: _, [] => if left = 0 then 0 else 1
  | left :: lefts, right :: rights =>
      if left = right then
        if left = 0 then 0 else strcmp lefts rights
      else if left < right then -1 else 1

def strcat (target source : List Byte) : List Byte :=
  cstr target ++ cstr source

/-- The array after `data` was stored at its beginning. -/
def overwrite (data array : List Byte) : List Byte :=
  data ++ array.drop data.length

@[simp]
theorem cstr_nil : cstr [] = [] :=
  rfl

theorem cstr_cons (byte : Byte) (array : List Byte) :
    cstr (byte :: array) = if byte = 0 then [] else byte :: cstr array := by
  by_cases terminator : byte = 0#8 <;>
    simp [cstr, terminator]

theorem cstr_eq_self {array : List Byte} (noTerminator : 0 ∉ array) :
    cstr array = array := by
  apply List.takeWhile_eq_self_iff.2
  intro byte member
  have different : byte ≠ 0 := fun same => noTerminator (same ▸ member)
  simpa using different

theorem zero_notMem_cstr (array : List Byte) : 0 ∉ cstr array := by
  intro member
  have := List.mem_takeWhile_imp member
  simp at this

theorem cstr_append {array : List Byte} (noTerminator : 0 ∉ array)
    (rest : List Byte) :
    cstr (array ++ rest) = array ++ cstr rest := by
  apply List.takeWhile_append_of_pos
  intro byte member
  have different : byte ≠ 0 := fun same => noTerminator (same ▸ member)
  simpa using different

theorem strlen_strcat (target source : List Byte) :
    strlen (strcat target source) = strlen target + strlen source := by
  rw [strlen, strcat, cstr_append (zero_notMem_cstr target),
    cstr_eq_self (zero_notMem_cstr source), List.length_append]
  rfl

theorem strcmp_eq_zero_iff (left right : List Byte) :
    strcmp left right = 0 ↔ cstr left = cstr right := by
  induction left generalizing right with
  | nil =>
      cases right with
      | nil => simp [strcmp]
      | cons head tail => by_cases terminator : head = 0#8 <;>
          simp [strcmp, cstr_cons, terminator]
  | cons head tail inductionHypothesis =>
      cases right with
      | nil => by_cases terminator : head = 0#8 <;>
          simp [strcmp, cstr_cons, terminator]
      | cons other others =>
          by_cases same : head = other
          · subst same
            by_cases terminator : head = 0#8 <;>
              simp [strcmp, cstr_cons, terminator, inductionHypothesis]
          · have nonzero : strcmp (head :: tail) (other :: others) ≠ 0 := by
              rw [strcmp, if_neg same]
              split <;> decide
            have different :
                cstr (head :: tail) ≠ cstr (other :: others) := by
              rw [cstr_cons, cstr_cons]
              split <;> split <;> simp_all
            simp [nonzero, different]

/-- A string without `NUL` that compares equal is the same array. -/
theorem eq_of_strcmp {array text : List Byte}
    (equal : strcmp array text = 0) (noTerminator : 0 ∉ array)
    (literal : 0 ∉ text) : array = text := by
  rwa [strcmp_eq_zero_iff, cstr_eq_self noTerminator, cstr_eq_self literal]
    at equal

/-- An array that is no longer than the string it holds is that string. -/
theorem eq_of_strcmp_of_length_le {array text : List Byte}
    (equal : strcmp array text = 0) (literal : 0 ∉ text)
    (fits : array.length ≤ text.length) : array = text := by
  rw [strcmp_eq_zero_iff, cstr_eq_self literal] at equal
  have isPrefix : text <+: array := equal ▸ List.takeWhile_prefix _
  exact (isPrefix.eq_of_length_le fits).symm

/-- A text without `NUL` and blanks. -/
structure Word where
  chars : List Byte
  nonempty : chars ≠ []
  plain : ∀ byte ∈ chars, byte ≠ 0 ∧ byte ≠ 32

theorem Word.eq_of_chars {first second : Word}
    (same : first.chars = second.chars) : first = second := by
  cases first
  cases second
  cases same
  rfl

/-- The static state of `strtok`: the arrays it works on, and the place where
the next token is looked for. -/
structure Strtok (κ : Type) where
  buffer : κ → List Byte
  save : Option (κ × Nat)

namespace Strtok

variable {κ : Type} [DecidableEq κ]

/-- The state after an array got new contents. -/
def load (state : Strtok κ) (key : κ) (contents : List Byte) : Strtok κ :=
  { state with buffer := Function.update state.buffer key contents }

/-- `strtok(source, delim)`: skip delimiters, cut the token off at the next
delimiter by storing a `NUL` there, and go on behind it the next time.  Without
a source the search starts at the save pointer. -/
def strtok (state : Strtok κ) (source : Option κ) (delim : List Byte) :
    Option (List Byte) × Strtok κ :=
  match source.map (·, 0) <|> state.save with
  | none => (none, state)
  | some (key, start) =>
      let text := cstr ((state.buffer key).drop start)
      let rest := text.dropWhile (· ∈ cstr delim)
      let first := start + (text.length - rest.length)
      let word := rest.takeWhile (· ∉ cstr delim)
      let stop := first + word.length
      if rest = [] then
        (none, { state with save := some (key, first) })
      else if word = rest then
        (some word, { state with save := some (key, stop) })
      else
        (some word,
          { buffer := Function.update state.buffer key
              ((state.buffer key).set stop 0)
            save := some (key, stop + 1) })

/-- The array `key` holds `before` and behind it `text`, where the search for
the next token starts. -/
structure At (state : Strtok κ) (key : κ) (before text : List Byte) : Prop where
  buffer : state.buffer key = before ++ text
  save : state.save = some (key, before.length)

/-- A call without a source at the save pointer is a call with a source on the
array that starts there. -/
theorem strtok_at {state : Strtok κ} {key : κ} {before text : List Byte}
    (here : state.At key before text) (delim : List Byte) :
    state.strtok none delim =
      let rest := (cstr text).dropWhile (· ∈ cstr delim)
      let first := before.length + ((cstr text).length - rest.length)
      let word := rest.takeWhile (· ∉ cstr delim)
      let stop := first + word.length
      if rest = [] then
        (none, { state with save := some (key, first) })
      else if word = rest then
        (some word, { state with save := some (key, stop) })
      else
        (some word,
          { buffer := Function.update state.buffer key
              ((before ++ text).set stop 0)
            save := some (key, stop + 1) }) := by
  simp [strtok, here.save, here.buffer]

theorem strtok_source (state : Strtok κ) (key : κ) (delim : List Byte) :
    state.strtok (some key) delim =
      { state with save := some (key, 0) }.strtok none delim := by
  simp [strtok]

/-- A non-empty token that ends at a delimiter. -/
theorem strtok_word {state : Strtok κ} {key : κ}
    {before word rest : List Byte} {separator : Byte} (delim : List Byte)
    (here : state.At key before (word ++ separator :: rest))
    (nonempty : word ≠ [])
    (isWord : ∀ byte ∈ word, byte ≠ 0 ∧ byte ∉ cstr delim)
    (isSeparator : separator ≠ 0 ∧ separator ∈ cstr delim) :
    ∃ after : Strtok κ,
      state.strtok none delim = (some word, after) ∧
        after.At key (before ++ word ++ [0]) rest ∧
        ∀ other, other ≠ key → after.buffer other = state.buffer other := by
  have text : cstr (word ++ separator :: rest) =
      word ++ separator :: cstr rest := by
    rw [cstr_append fun member => (isWord 0 member).1 rfl, cstr_cons,
      if_neg isSeparator.1]
  have skipped : (word ++ separator :: cstr rest).dropWhile
      (· ∈ cstr delim) = word ++ separator :: cstr rest := by
    obtain ⟨head, tail, rfl⟩ := List.exists_cons_of_ne_nil nonempty
    have outside := (isWord head (by simp)).2
    simp [outside]
  have taken : (word ++ separator :: cstr rest).takeWhile
      (· ∉ cstr delim) = word := by
    rw [List.takeWhile_append_of_pos fun byte member => by
      simpa using (isWord byte member).2]
    simp [isSeparator.2]
  let after : Strtok κ :=
    { buffer := Function.update state.buffer key (before ++ word ++ [0] ++ rest)
      save := some (key, before.length + word.length + 1) }
  refine ⟨after, ?_, ⟨?_, ?_⟩, ?_⟩
  · rw [strtok_at here]
    simp only [text, skipped, taken]
    simp [nonempty, after]
  · simp [after]
  · simp [after, Nat.add_assoc]
  · intro other different
    simp [after, different]

/-- A non-empty token that ends with the string. -/
theorem strtok_last {state : Strtok κ} {key : κ}
    {before word : List Byte} (delim : List Byte)
    (here : state.At key before word)
    (nonempty : word ≠ [])
    (isWord : ∀ byte ∈ word, byte ≠ 0 ∧ byte ∉ cstr delim) :
    state.strtok none delim =
      (some word,
        { state with save := some (key, before.length + word.length) }) := by
  have text : cstr word = word :=
    cstr_eq_self fun member => (isWord 0 member).1 rfl
  have skipped : word.dropWhile (· ∈ cstr delim) = word := by
    obtain ⟨head, tail, rfl⟩ := List.exists_cons_of_ne_nil nonempty
    have outside := (isWord head (by simp)).2
    simp [outside]
  have taken : word.takeWhile (· ∉ cstr delim) = word := by
    apply List.takeWhile_eq_self_iff.2
    intro byte member
    simpa using (isWord byte member).2
  rw [strtok_at here]
  simp only [text, skipped, taken]
  simp [nonempty]

/-- At the end of the string there is no token. -/
theorem strtok_end {state : Strtok κ} {key : κ} {before : List Byte}
    (here : state.At key before []) (delim : List Byte) :
    (state.strtok none delim).1 = none := by
  rw [strtok_at here]
  rfl

omit [DecidableEq κ] in
/-- Behind its last token the string is at its end. -/
theorem At.behind {state : Strtok κ} {key : κ} {before word : List Byte}
    (here : state.At key before word) :
    At { state with save := some (key, before.length + word.length) } key
      (before ++ word) [] where
  buffer := by rw [here.buffer, List.append_nil]
  save := by rw [List.length_append]

/-- Three words with a blank between them are three tokens, whatever the last
call is asked to stop at. -/
theorem strtok_words (memory : Strtok κ) (key : κ) (first second third : Word)
    {delim : List Byte} (blank : ∀ byte ∈ cstr delim, byte = 32) :
    ∃ memory₁ memory₂ memory₃,
      (memory.load key (first.chars ++ 32 :: (second.chars ++ 32 ::
          third.chars))).strtok (some key) (bytes " ") =
        (some first.chars, memory₁) ∧
      memory₁.strtok none (bytes " ") = (some second.chars, memory₂) ∧
      memory₂.strtok none delim = (some third.chars, memory₃) := by
  have isWord {delim : List Byte} (blank : ∀ byte ∈ cstr delim, byte = 32)
      (word : Word) : ∀ byte ∈ word.chars, byte ≠ 0 ∧ byte ∉ cstr delim :=
    fun byte member => ⟨(word.plain byte member).1, fun inside =>
      (word.plain byte member).2 (blank byte inside)⟩
  have space : ∀ byte ∈ cstr (bytes " "), byte = 32 := by decide
  let loaded : Strtok κ :=
    { memory.load key (first.chars ++ 32 :: (second.chars ++ 32 ::
        third.chars)) with
      save := some (key, 0) }
  have start : loaded.At key [] (first.chars ++ 32 :: (second.chars ++ 32 ::
      third.chars)) :=
    ⟨by simp [loaded, load], rfl⟩
  obtain ⟨memory₁, one, here, _⟩ :=
    strtok_word (bytes " ") start first.nonempty (isWord space first)
      (by decide)
  obtain ⟨memory₂, two, here, _⟩ :=
    strtok_word (bytes " ") here second.nonempty (isWord space second)
      (by decide)
  have three := strtok_last delim here third.nonempty (isWord blank third)
  refine ⟨memory₁, memory₂, _, ?_, two, three⟩
  rw [strtok_source]
  exact one

/-- A token contains no `NUL`. -/
theorem zero_notMem_token {state after : Strtok κ} {source : Option κ}
    {delim token : List Byte}
    (called : state.strtok source delim = (some token, after)) :
    0 ∉ token := by
  rw [strtok] at called
  split at called
  · cases called
  · rename_i key start _
    intro member
    have inRest : token = ((cstr ((state.buffer key).drop start)).dropWhile
        (· ∈ cstr delim)).takeWhile (· ∉ cstr delim) := by
      dsimp only at called
      split at called
      · cases called
      · split at called <;>
          · injection called with same
            injection same with same
            exact same.symm
    rw [inRest] at member
    exact zero_notMem_cstr _
      ((List.dropWhile_suffix _).subset
        ((List.takeWhile_prefix _).subset member))

/-- A call works on one array only, and leaves the save pointer there. -/
theorem strtok_frame (state : Strtok κ) (source : Option κ)
    (delim : List Byte) :
    match source.map (·, 0) <|> state.save with
    | none => state.strtok source delim = (none, state)
    | some (key, _) =>
        (∀ other, other ≠ key →
          (state.strtok source delim).2.buffer other = state.buffer other) ∧
        ∃ stop, (state.strtok source delim).2.save = some (key, stop) := by
  unfold strtok
  cases source.map (·, 0) <|> state.save with
  | none => rfl
  | some place =>
      obtain ⟨key, start⟩ := place
      dsimp only
      split
      · exact ⟨fun _ _ => rfl, _, rfl⟩
      · split
        · exact ⟨fun _ _ => rfl, _, rfl⟩
        · exact ⟨fun other different => Function.update_of_ne different _ _,
            _, rfl⟩

/-- `view` is the part of the memory that a single user of it sees, and the
save pointer is in that part. -/
structure Sees {ι : Type} (embed : κ → ι) (state : Strtok ι)
    (view : Strtok κ) : Prop where
  buffer : ∀ key, state.buffer (embed key) = view.buffer key
  save : state.save = view.save.map (Prod.map embed id)

/-- A call behaves on the whole memory as on the part of its user.  Without a
source this needs the save pointer to be in that part. -/
theorem strtok_embed {ι : Type} [DecidableEq ι] {embed : κ → ι}
    (injective : Function.Injective embed) {state : Strtok ι}
    {view : Strtok κ}
    (buffers : ∀ key, state.buffer (embed key) = view.buffer key)
    (source : Option κ)
    (aimed : source = none → state.save = view.save.map (Prod.map embed id))
    (delim : List Byte) :
    ∃ token after seen,
      state.strtok (source.map embed) delim = (token, after) ∧
        view.strtok source delim = (token, seen) ∧
          Sees embed after seen := by
  have place : ((source.map embed).map (·, 0) <|> state.save) =
      (source.map (·, 0) <|> view.save).map (Prod.map embed id) := by
    cases source with
    | none => simpa using aimed rfl
    | some key => rfl
  unfold strtok
  rw [place]
  cases here : (source.map (·, 0) <|> view.save) with
  | none =>
      have noSource : source = none := by
        cases source with
        | none => rfl
        | some key => cases here
      exact ⟨none, state, view, rfl, rfl, buffers, aimed noSource⟩
  | some found =>
      obtain ⟨key, start⟩ := found
      simp only [Option.map_some, Prod.map_apply, id_eq, buffers]
      split
      · exact ⟨_, _, _, rfl, rfl, buffers, rfl⟩
      · split
        · exact ⟨_, _, _, rfl, rfl, buffers, rfl⟩
        · refine ⟨_, _, _, rfl, rfl, fun other => ?_, rfl⟩
          by_cases same : other = key
          · subst same
            simp
          · simp [same, injective.ne same, buffers]

/-- A call that continues does so in the part of its user. -/
theorem Sees.strtok {ι : Type} [DecidableEq ι] {embed : κ → ι}
    {state : Strtok ι} {view : Strtok κ} (sees : Sees embed state view)
    (injective : Function.Injective embed) (delim : List Byte) :
    ∃ token after seen,
      state.strtok none delim = (token, after) ∧
        view.strtok none delim = (token, seen) ∧ Sees embed after seen :=
  strtok_embed injective sees.buffer none (fun _ => sees.save) delim

/-- The memory that has one array only. -/
def ofArray (array : List Byte) : Strtok Unit where
  buffer _ := array
  save := none

/-- A call with a source depends on that array only. -/
theorem strtok_ofArray (state : Strtok κ) (key : κ) (delim : List Byte) :
    ∃ token after seen,
      state.strtok (some key) delim = (token, after) ∧
        (ofArray (state.buffer key)).strtok (some ()) delim = (token, seen) ∧
          Sees (fun _ => key) after seen := by
  have injective : Function.Injective fun _ : Unit => key := fun _ _ _ => rfl
  have buffers (name : Unit) : state.buffer ((fun _ : Unit => key) name) =
      (ofArray (state.buffer key)).buffer name := rfl
  exact strtok_embed injective buffers (some ()) (by simp) delim

/-- The tokens of successive calls, one for each set of delimiters. -/
def tokens (state : Strtok κ) (source : Option κ) :
    List (List Byte) → List (Option (List Byte))
  | [] => []
  | delim :: delims =>
      (state.strtok source delim).1 ::
        tokens (state.strtok source delim).2 none delims

/-- The tokens depend on the array only. -/
theorem tokens_ofArray (state : Strtok κ) (key : κ)
    (delims : List (List Byte)) :
    state.tokens (some key) delims =
      (ofArray (state.buffer key)).tokens (some ()) delims := by
  have injective : Function.Injective fun _ : Unit => key := fun _ _ _ => rfl
  have continues (delims : List (List Byte)) :
      ∀ {after : Strtok κ} {seen : Strtok Unit},
        Sees (fun _ => key) after seen →
          after.tokens none delims = seen.tokens none delims := by
    induction delims with
    | nil => exact fun _ => rfl
    | cons delim delims inductionHypothesis =>
        intro after seen sees
        obtain ⟨token, next, seenNext, call, seenCall, rest⟩ :=
          sees.strtok injective delim
        simp only [tokens, call, seenCall, inductionHypothesis rest]
  cases delims with
  | nil => rfl
  | cons delim delims =>
      obtain ⟨token, after, seen, call, seenCall, sees⟩ :=
        state.strtok_ofArray key delim
      simp only [tokens, call, seenCall, continues delims sees]

end Strtok

end RemoteCommand.Machine
