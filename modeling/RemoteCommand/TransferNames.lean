import RemoteCommand.CommandArguments
import RemoteCommand.Footprint
import RemoteCommand.UploadSession
import RemoteCommand.DownloadSession

/-!
# The names of a transfer

Both sides look for the names of the files among the words of the command.  The
names are the arguments of the client exactly if there is no blank in them.
-/

namespace RemoteCommand

open Interaction Machine Prog

/-- The call that a program performs next. -/
def nextCall {α : Type} : Prog Sys α → Option Call
  | .op call _ => some call
  | _ => none

/-- What the server calls with the command `cmd` in `msg`, behind the first
calls of `strtok`. -/
def serverCall (memory : Strtok Buffer) (conn : Int) (code cmd : List Byte) :
    Option Call :=
  nextCall (executed memory conn code cmd)

/-- What the client calls when it has received the code 200, behind the first
calls of `strtok` on its `cmd`. -/
def clientCall (memory : Strtok Buffer) (conn : Int) (cmd : List Byte) :
    Option Call :=
  nextCall (tokenize (memory.load .cmd cmd)
    (handleCode conn (.data (bytes "200") (by decide) (by decide)))).2

/-! ## The words of a command -/

/-- The first three calls of `strtok` on a command. -/
theorem strtok_command (memory : Strtok Buffer) (key : Buffer) (tag : Word)
    (rest : List Byte) :
    ∃ memory₁ memory₂ memory₃,
      (memory.load key (tag.chars ++ 32 :: rest)).strtok (some key)
          (bytes " ") = (some tag.chars, memory₁) ∧
        memory₁.strtok none (bytes " ") =
          ((words [32] (cstr rest)).head?, memory₂) ∧
        memory₂.strtok none (bytes " ") =
          ((words [32] (cstr rest)).tail.head?, memory₃) := by
  let start : Strtok Buffer :=
    { memory.load key (tag.chars ++ 32 :: rest) with save := some (key, 0) }
  have here : start.At key [] (tag.chars ++ 32 :: rest) :=
    ⟨by simp [start, Strtok.load], rfl⟩
  obtain ⟨memory₁, first, here, _⟩ := Strtok.strtok_word (bytes " ") here
    tag.nonempty (isWord_blank tag.plain) (by decide)
  obtain ⟨memory₂, _, _, second, here, left⟩ :=
    Strtok.strtok_next here (bytes " ")
  obtain ⟨memory₃, _, _, third, _, _⟩ := Strtok.strtok_next here (bytes " ")
  have blank : cstr (bytes " ") = [32] := by decide
  rw [left] at third
  rw [blank] at second third
  exact ⟨memory₁, memory₂, memory₃, first, second, third⟩

section Calls

variable (memory : Strtok Buffer) (conn : Int) (code rest : List Byte)

theorem executed_command (tag : Word) :
    ∃ memory₁ memory₂ memory₃,
      executed memory conn code (tag.chars ++ 32 :: rest) =
          (tokenize memory₁ (executeTag conn code tag.chars)).2 ∧
        memory₁.strtok none (bytes " ") =
          ((words [32] (cstr rest)).head?, memory₂) ∧
        memory₂.strtok none (bytes " ") =
          ((words [32] (cstr rest)).tail.head?, memory₃) := by
  obtain ⟨memory₁, memory₂, memory₃, first, second, third⟩ :=
    strtok_command memory .msg tag rest
  refine ⟨memory₁, memory₂, memory₃, ?_, second, third⟩
  rw [executed, executeCommand_eq, tokenize_strtok first, executeToken]

/-- Behind both names a transfer opens one of them. -/
theorem serverCall_begins {tag : Word}
    {name : List Byte → List Byte → List Byte} {mode : List Byte}
    {transfer : File → Prog Sys Outcome}
    (begins : executeTag conn code tag.chars =
      beginTransfer conn name mode [] code transfer) :
    serverCall memory conn code (tag.chars ++ 32 :: rest) =
      match words [32] (cstr rest) with
      | source :: dest :: _ => some (.fopen (name source dest) mode)
      | _ => none := by
  obtain ⟨memory₁, memory₂, memory₃, starts, first, second⟩ :=
    executed_command memory conn code rest tag
  rw [serverCall, starts, begins, beginTransfer, tokenize_strtok first]
  generalize words [32] (cstr rest) = found at first second
  rcases found with _ | ⟨source, _ | ⟨dest, more⟩⟩
  · rfl
  · simp only [List.head?_cons, tokenize_strtok second]
    rfl
  · simp only [List.head?_cons, tokenize_strtok second]
    rfl

theorem serverCall_upload :
    serverCall memory conn code (uploadTag.chars ++ 32 :: rest) =
      match words [32] (cstr rest) with
      | source :: _ :: _ => some (.fopen source (bytes "rb"))
      | _ => none :=
  serverCall_begins memory conn code rest
    ((executeTag_upload conn code).trans (executeUpload_begins conn [] code))

theorem serverCall_download :
    serverCall memory conn code (downloadTag.chars ++ 32 :: rest) =
      match words [32] (cstr rest) with
      | _ :: dest :: _ => some (.fopen dest (bytes "wb"))
      | _ => none :=
  serverCall_begins memory conn code rest
    ((executeTag_download conn code).trans
      (executeDownload_begins conn [] code))

theorem clientCall_upload :
    clientCall memory conn (uploadTag.chars ++ 32 :: rest) =
      match words [32] (cstr rest) with
      | [] => some (.close conn)
      | [_] => some (.close conn)
      | _ :: dest :: _ => some (.fopen dest (bytes "wb")) := by
  obtain ⟨memory₁, memory₂, memory₃, begins, first, second⟩ :=
    strtok_command memory .cmd uploadTag rest
  rw [clientCall, handleCode, tokenize_strtok begins]
  dsimp only
  rw [handleTag_upload, handleUpload_eq, tokenize_strtok first]
  generalize words [32] (cstr rest) = found at first second
  rcases found with _ | ⟨source, _ | ⟨dest, more⟩⟩
  · rfl
  · simp only [List.head?_cons, tokenize_strtok second]
    rfl
  · simp only [List.head?_cons, tokenize_strtok second]
    rfl

theorem clientCall_download :
    clientCall memory conn (downloadTag.chars ++ 32 :: rest) =
      match words [32] (cstr rest) with
      | [] => some (.close conn)
      | source :: _ => some (.fopen source (bytes "rb")) := by
  obtain ⟨memory₁, memory₂, _, begins, first, _⟩ :=
    strtok_command memory .cmd downloadTag rest
  rw [clientCall, handleCode, tokenize_strtok begins]
  dsimp only
  rw [handleTag_download, handleDownload_eq, tokenize_strtok first]
  generalize words [32] (cstr rest) = found at first
  rcases found with _ | ⟨source, more⟩
  · rfl
  · rfl

end Calls

/-! ## Names with and without blanks -/

/-- For `UPLOAD` the server reads the first file, and the client writes the
second. -/
structure UploadNames (first second cmd : List Byte) : Prop where
  server : ∀ memory conn code,
    serverCall memory conn code cmd = some (.fopen first (bytes "rb"))
  client : ∀ memory conn,
    clientCall memory conn cmd = some (.fopen second (bytes "wb"))

/-- For `DOWNLOAD` the client reads the first file, and the server writes the
second. -/
structure DownloadNames (first second cmd : List Byte) : Prop where
  client : ∀ memory conn,
    clientCall memory conn cmd = some (.fopen first (bytes "rb"))
  server : ∀ memory conn code,
    serverCall memory conn code cmd = some (.fopen second (bytes "wb"))

section Names

variable {first second : List Byte}

theorem words_names (nonempty : first ≠ [] ∧ second ≠ [])
    (plain : 0 ∉ first ∧ 0 ∉ second) (noBlank : 32 ∉ first ∧ 32 ∉ second) :
    words [32] (cstr (first ++ 32 :: second)) = [first, second] := by
  have single {name : List Byte} (some_name : name ≠ []) (clean : 32 ∉ name) :
      words [32] name = [name] := by
    refine words_single some_name fun byte member blank => ?_
    exact clean (List.mem_singleton.1 blank ▸ member)
  rw [cstr_append plain.1, cstr_cons, if_neg (by decide),
    cstr_eq_self plain.2, words_append_cons (List.mem_singleton.2 rfl),
    single nonempty.1 noBlank.1, single nonempty.2 noBlank.2]
  rfl

theorem noBlank_of_words {text : List Byte} {more : List (List Byte)}
    (found : words [32] text = first :: second :: more) :
    32 ∉ first ∧ 32 ∉ second := by
  have clean {word : List Byte} (member : word ∈ words [32] text) : 32 ∉ word :=
    fun blank => (mem_words member).2 32 blank (List.mem_singleton.2 rfl)
  rw [found] at clean
  exact ⟨clean List.mem_cons_self,
    clean (List.mem_cons_of_mem _ List.mem_cons_self)⟩

theorem joinArguments_names :
    joinArguments [first, second] = 32 :: (first ++ 32 :: second) := by
  simp [joinArguments]

theorem uploadNames_iff (nonempty : first ≠ [] ∧ second ≠ [])
    (plain : 0 ∉ first ∧ 0 ∉ second) :
    UploadNames first second
        (uploadTag.chars ++ 32 :: (first ++ 32 :: second)) ↔
      32 ∉ first ∧ 32 ∉ second := by
  constructor
  · intro names
    have server := names.server Script.bare.memory 0 []
    have client := names.client Script.bare.memory 0
    rw [serverCall_upload] at server
    rw [clientCall_upload] at client
    rcases found : words [32] (cstr (first ++ 32 :: second)) with
      _ | ⟨source, _ | ⟨dest, more⟩⟩ <;> rw [found] at server client
    · cases server
    · cases server
    · cases server
      cases client
      exact noBlank_of_words found
  · intro noBlank
    constructor
    · intro memory conn code
      rw [serverCall_upload, words_names nonempty plain noBlank]
    · intro memory conn
      rw [clientCall_upload, words_names nonempty plain noBlank]

theorem downloadNames_iff (nonempty : first ≠ [] ∧ second ≠ [])
    (plain : 0 ∉ first ∧ 0 ∉ second) :
    DownloadNames first second
        (downloadTag.chars ++ 32 :: (first ++ 32 :: second)) ↔
      32 ∉ first ∧ 32 ∉ second := by
  constructor
  · intro names
    have server := names.server Script.bare.memory 0 []
    have client := names.client Script.bare.memory 0
    rw [serverCall_download] at server
    rw [clientCall_download] at client
    rcases found : words [32] (cstr (first ++ 32 :: second)) with
      _ | ⟨source, _ | ⟨dest, more⟩⟩ <;> rw [found] at server client
    · cases server
    · cases server
    · cases server
      cases client
      exact noBlank_of_words found
  · intro noBlank
    constructor
    · intro memory conn
      rw [clientCall_download, words_names nonempty plain noBlank]
    · intro memory conn code
      rw [serverCall_download, words_names nonempty plain noBlank]

/-- The command of a transfer is built from its flag and two names, and the
files are opened under these names exactly if they are without blanks. -/
theorem names_kept_iff (flag : List Byte) (nonempty : first ≠ [] ∧ second ≠ [])
    (plain : 0 ∉ first ∧ 0 ∉ second) :
    (IsFlag 'u' flag →
      (uploadTag.chars ++ joinArguments [first, second]).length <
        msgBufferSize →
      ∃ cmd, parseCommand [flag, first, second] = .ok (ok, cmd) ∧
        (UploadNames first second cmd ↔ 32 ∉ first ∧ 32 ∉ second)) ∧
    (IsFlag 'd' flag →
      (downloadTag.chars ++ joinArguments [first, second]).length <
        msgBufferSize →
      ∃ cmd, parseCommand [flag, first, second] = .ok (ok, cmd) ∧
        (DownloadNames first second cmd ↔ 32 ∉ first ∧ 32 ∉ second)) := by
  have bothPlain : ∀ argument ∈ [first, second], 0 ∉ argument := by
    simpa using plain
  constructor
  · intro isFlag fits
    refine ⟨_, parseCommand_joins isFlag.1 (isFlag.commandTag (by simp))
      bothPlain fits, ?_⟩
    rw [joinArguments_names]
    exact uploadNames_iff nonempty plain
  · intro isFlag fits
    refine ⟨_, parseCommand_joins isFlag.1 (isFlag.commandTag (by simp))
      bothPlain fits, ?_⟩
    rw [joinArguments_names]
    exact downloadNames_iff nonempty plain

end Names

theorem names_kept_iff_plain :
    ∃ cmd, parseCommand [bytes "-u", bytes "from", bytes "to"] =
        .ok (ok, cmd) ∧
      UploadNames (bytes "from") (bytes "to") cmd := by
  obtain ⟨cmd, parsed, names⟩ :=
    (@names_kept_iff (bytes "from") (bytes "to") (bytes "-u") (by decide)
      (by decide)).1 (by decide) (by decide)
  exact ⟨cmd, parsed, names.2 (by decide)⟩

/-- With `-u "my file" copy` the server reads `my`, and the client writes
`file`. -/
theorem names_split_at_blank :
    ¬ ∃ cmd, parseCommand [bytes "-u", bytes "my file", bytes "copy"] =
        .ok (ok, cmd) ∧
      UploadNames (bytes "my file") (bytes "copy") cmd := by
  rintro ⟨cmd, parsed, names⟩
  have built : parseCommand [bytes "-u", bytes "my file", bytes "copy"] =
      .ok (ok, bytes "UPLOAD my file copy") := rfl
  cases built.symm.trans parsed
  have opened := names.server Script.bare.memory 0 []
  have opens : serverCall Script.bare.memory 0 [] (bytes "UPLOAD my file copy") =
      some (.fopen (bytes "my") (bytes "rb")) := rfl
  cases opens.symm.trans opened

end RemoteCommand
