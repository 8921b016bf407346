import RemoteCommand.AuthenticationFields
import RemoteCommand.TransferSession

/-!
# The command of a client

A client that goes on to `connect` has built a command: one of five names, and
behind a blank what else it was given.  Or it does not know the option; then
`cmd` is empty.
-/

namespace RemoteCommand

open Interaction Machine

/-! ## Commands -/

def listTag : Word := ⟨bytes "LIST", by decide, by decide⟩

def execTag : Word := ⟨bytes "EXEC", by decide, by decide⟩

def sizeTag : Word := ⟨bytes "SIZE", by decide, by decide⟩

def commandTags : List Word :=
  [listTag, execTag, sizeTag, uploadTag, downloadTag]

/-- The name of a command, and behind a blank what the program was given. -/
structure IsCommand (cmd : List Byte) : Prop where
  named : ∃ tag ∈ commandTags,
    cmd = tag.chars ∨ ∃ rest, cmd = tag.chars ++ 32 :: rest
  fits : cmd.length < msgBufferSize
  plain : 0 ∉ cmd

theorem commandTag_mem {option tag : List Byte}
    (found : commandTag option = some tag) :
    ∃ word ∈ commandTags, tag = word.chars := by
  unfold commandTag at found
  split_ifs at found <;>
    · cases found
      simp [commandTags, listTag, execTag, sizeTag, uploadTag, downloadTag]

/-- The arguments come behind blanks. -/
theorem appendArguments_eq {arguments : List (List Byte)} :
    ∀ {cmd final : List Byte}, 0 ∉ cmd → cmd.length < msgBufferSize →
      appendArguments cmd arguments = .ok final →
      final.length < msgBufferSize ∧ 0 ∉ final ∧
        (final = cmd ∨ ∃ rest, final = cmd ++ 32 :: rest) := by
  induction arguments with
  | nil =>
      intro cmd final plain fits built
      cases built
      exact ⟨fits, plain, .inl rfl⟩
  | cons argument arguments inductionHypothesis =>
      intro cmd final plain fits built
      have blank : cstr (bytes " ") = [32] := by decide
      have together : 0 ∉ cmd ++ [32] := by
        intro member
        rcases List.mem_append.1 member with old | new
        · exact plain old
        · exact absurd (List.mem_singleton.1 new) (by decide)
      have appended : strcat (strcat cmd (bytes " ")) argument =
          cmd ++ 32 :: cstr argument := by
        rw [strcat, strcat, cstr_eq_self plain, blank, cstr_eq_self together,
          List.append_assoc, List.singleton_append]
      have clean : 0 ∉ cmd ++ 32 :: cstr argument := by
        rw [← List.singleton_append, ← List.append_assoc]
        intro member
        exact (List.mem_append.1 member).elim together (zero_notMem_cstr _)
      rw [appendArguments, appended] at built
      split_ifs at built with long
      obtain ⟨short, plain, same | ⟨rest, same⟩⟩ := inductionHypothesis clean
        (Nat.lt_of_not_le long) built
      · exact ⟨short, plain, .inr ⟨_, same⟩⟩
      · exact ⟨short, plain, .inr ⟨_, same.trans (List.append_assoc _ _ _)⟩⟩

theorem parseCommand_cases {arguments : List (List Byte)} {ret : Int}
    {cmd : List Byte} (parsed : parseCommand arguments = .ok (ret, cmd)) :
    ret = ok ∧ IsCommand cmd ∨ ret ≠ ok ∧ cmd = [] := by
  cases arguments with
  | nil => cases parsed
  | cons option arguments =>
      rw [parseCommand] at parsed
      split_ifs at parsed with dash
      · cases parsed
        exact .inr ⟨by decide, rfl⟩
      · cases found : commandTag option with
        | none =>
            rw [found] at parsed
            cases parsed
            exact .inr ⟨by decide, rfl⟩
        | some tag =>
            rw [found] at parsed
            dsimp only at parsed
            obtain ⟨word, known, rfl⟩ := commandTag_mem found
            have short : word.chars.length < msgBufferSize := by
              have all : ∀ word ∈ commandTags,
                  word.chars.length < msgBufferSize := by decide
              exact all word known
            have plain : 0 ∉ word.chars := fun member =>
              (word.plain 0 member).1 rfl
            cases built : appendArguments word.chars arguments with
            | error fault =>
                rw [built] at parsed
                cases parsed
            | ok final =>
                rw [built] at parsed
                cases parsed
                obtain ⟨fits, clean, named⟩ :=
                  appendArguments_eq plain short built
                exact .inl ⟨rfl, ⟨word, known, named⟩, fits, clean⟩

/-- `cmd` is set only by `parse_command`. -/
theorem getParameters_cases {before after : ClientParameters}
    {argv : List (List Byte)} {ret : Int} {cmd : List Byte}
    (parsed : before.getParameters argv = .ok (ret, after))
    (holds : after.cmd = some cmd) (unset : before.cmd = none) :
    ret = ok ∧ IsCommand cmd ∨ ret ≠ ok ∧ cmd = [] := by
  fun_induction ClientParameters.getParameters before argv with
  | case1 => cases parsed; rw [unset] at holds; cases holds
  | case2 => cases parsed; rw [unset] at holds; cases holds
  | case3 => cases parsed; rw [unset] at holds; cases holds
  | case4 _ _ _ _ _ _ inductionHypothesis =>
      exact inductionHypothesis parsed unset
  | case5 => cases parsed
  | case6 =>
      have same := (Prod.mk.inj (Except.ok.inj parsed)).2
      rw [← same] at holds
      exact nomatch unset.symm.trans holds
  | case7 _ _ _ _ _ _ _ _ _ inductionHypothesis =>
      exact inductionHypothesis parsed unset
  | case8 _ option arguments =>
      cases parses : parseCommand (option :: arguments) with
      | error fault =>
          rw [parses] at parsed
          cases parsed
      | ok result =>
          rw [parses] at parsed
          cases parsed
          cases holds
          exact parseCommand_cases parses

/-- The first byte of a command tells which it is. -/
theorem tag_of_head {one another : Word} (known : one ∈ commandTags)
    (alsoKnown : another ∈ commandTags)
    (same : one.chars.head? = another.chars.head?) : one = another := by
  have distinct : ∀ one ∈ commandTags, ∀ another ∈ commandTags,
      one.chars.head? = another.chars.head? → one.chars = another.chars := by
    decide
  exact Word.eq_of_chars (distinct one known another alsoKnown same)

theorem head_of_named {cmd : List Byte} {tag : Word}
    (named : cmd = tag.chars ∨ ∃ rest, cmd = tag.chars ++ 32 :: rest) :
    ∃ first rest, cmd = first :: rest ∧ tag.chars.head? = some first ∧
      first ≠ 0 ∧ first ≠ 32 := by
  obtain ⟨first, word, chars⟩ := List.exists_cons_of_ne_nil tag.nonempty
  have plain := tag.plain first (chars ▸ List.mem_cons_self)
  rw [chars] at named ⊢
  rcases named with rfl | ⟨rest, rfl⟩
  · exact ⟨first, word, rfl, rfl, plain⟩
  · exact ⟨first, word ++ 32 :: rest, rfl, rfl, plain⟩

/-! ## The name of a command -/

/-- A text that does not begin with a blank has a first token, which begins as
the text does. -/
theorem strtok_head {κ : Type} [DecidableEq κ] {memory : Strtok κ} {key : κ}
    {first : Byte} {rest : List Byte} (holds : memory.buffer key = first :: rest)
    (plain : first ≠ 0 ∧ first ≠ 32) :
    ∃ word after,
      memory.strtok (some key) (bytes " ") = (some (first :: word), after) := by
  have blank : cstr (bytes " ") = [32] := by decide
  have text : cstr (first :: rest) = first :: cstr rest := by
    rw [cstr_cons, if_neg plain.1]
  have outside : first ∉ cstr (bytes " ") := by
    rw [blank, List.mem_singleton]
    exact plain.2
  let start : Strtok κ := { memory with save := some (key, 0) }
  have here : start.At key [] (first :: rest) := ⟨holds, rfl⟩
  have skipped : (first :: cstr rest).dropWhile (· ∈ cstr (bytes " ")) =
      first :: cstr rest := by
    rw [List.dropWhile_cons_of_neg]
    simpa using outside
  have taken : ∃ word, (first :: cstr rest).takeWhile
      (· ∉ cstr (bytes " ")) = first :: word := by
    rw [List.takeWhile_cons_of_pos (by simpa using outside)]
    exact ⟨_, rfl⟩
  obtain ⟨word, taken⟩ := taken
  rw [Strtok.strtok_source, Strtok.strtok_at here]
  simp only [text, skipped, taken]
  rw [if_neg (List.cons_ne_nil _ _)]
  split
  · exact ⟨word, _, rfl⟩
  · exact ⟨word, _, rfl⟩

/-- The first token of a command is its name. -/
theorem strtok_named {κ : Type} [DecidableEq κ] (memory : Strtok κ) (key : κ)
    {cmd : List Byte} {tag : Word}
    (named : cmd = tag.chars ∨ ∃ rest, cmd = tag.chars ++ 32 :: rest) :
    ∃ after, (memory.load key cmd).strtok (some key) (bytes " ") =
      (some tag.chars, after) := by
  let start : Strtok κ := { memory.load key cmd with save := some (key, 0) }
  have here : start.At key [] cmd := ⟨by simp [start, Strtok.load], rfl⟩
  rw [Strtok.strtok_source]
  rcases named with rfl | ⟨rest, rfl⟩
  · exact ⟨_, Strtok.strtok_last (bytes " ") here tag.nonempty
      (isWord_blank tag.plain)⟩
  · obtain ⟨after, called, _⟩ := Strtok.strtok_word (bytes " ") here
      tag.nonempty (isWord_blank tag.plain) (by decide)
    exact ⟨after, called⟩

/-! ## The session of a client -/

/-- The client behind the authentication. -/
def askAuthenticated (conn : Int) (cmd : List Byte) (auth : Int) :
    Prog Sys Outcome :=
  if auth = authFail ∨ auth = connErr ∨ auth = protoErr then
    closeConnection conn { ret := auth, result := [], code := [] }
  else
    .op (.send conn (cstr cmd)) fun sent =>
      if sent < 0 then
        closeConnection conn { ret := connErr, result := [], code := [] }
      else
        awaitResponse conn cmd

theorem runCommand_eq (host : Endian) (conn : Int)
    (serverToken clientToken : BitVec 64) (cmd : List Byte) :
    runCommand host conn serverToken clientToken cmd =
      (authenticateServer host conn serverToken clientToken).bind
        (askAuthenticated conn cmd) :=
  rfl

end RemoteCommand
