import RemoteCommand.TransferOutcome

/-!
# Do server and client agree?

With all failures of the two machines, and with whatever the uninitialised
arrays `code` and `received` of the server hold, the client returns `OK` for the
requests for which the server does, apart from five cases.
-/

namespace RemoteCommand

open Interaction Machine Prog Transition

namespace Errand

variable (errand : Errand)

/-- None of the five cases in which only one side returns `OK`. -/
structure Consistent : Prop where
  /-- EXEC without a command: what `code` held passes for code and response. -/
  noCommand : wordOf errand.cmd 0 = some execTag.chars →
    argumentOf execTag errand.cmd = none →
      ¬ (errand.garbage.take codeSize = bytes "300" ∧
        codeSize < errand.garbage.length)
  /-- DOWNLOAD, when the server cannot open the file: what `code` held passes
  for both codes and the response. -/
  notOpened : wordOf errand.cmd 0 = some downloadTag.chars →
    errand.client.Sends (wordOf errand.cmd 1) →
      ¬ errand.server.Opens (wordOf errand.cmd 2) →
        ¬ (errand.garbage.take codeSize = bytes "200" ∧
          2 * codeSize < errand.garbage.length)
  /-- DOWNLOAD, when the server cannot write the file: what `code` held passes
  for the second code and the response. -/
  notWritten : wordOf errand.cmd 0 = some downloadTag.chars →
    errand.client.Sends (wordOf errand.cmd 1) →
      errand.server.Opens (wordOf errand.cmd 2) →
        ¬ errand.server.Writes (wordOf errand.cmd 2) errand.downloaded →
          errand.garbage.length ≤ codeSize
  /-- UPLOAD, when the client has stored the file: the server does not read the
  confirmation as such. -/
  misread : wordOf errand.cmd 0 = some uploadTag.chars →
    errand.server.Sends (wordOf errand.cmd 1) → wordOf errand.cmd 2 ≠ none →
      errand.client.Writes (wordOf errand.cmd 2) errand.uploaded →
        Confirms errand.stale ∨ errand.garbage.length ≤ codeSize
  /-- UPLOAD, when the client has not stored the file: the server takes what
  `received` held for a confirmation. -/
  notStored : wordOf errand.cmd 0 = some uploadTag.chars →
    errand.server.Sends (wordOf errand.cmd 1) → wordOf errand.cmd 2 ≠ none →
      ¬ errand.client.Writes (wordOf errand.cmd 2) errand.uploaded →
        strcmp errand.stale (bytes "200") ≠ 0

variable {errand}

/-- A request without transfer and without a bare EXEC. -/
theorem Consistent.of_word {word : List Byte}
    (begins : wordOf errand.cmd 0 = some word)
    (notDownload : word ≠ downloadTag.chars)
    (notUpload : word ≠ uploadTag.chars)
    (noCommand : word = execTag.chars → argumentOf execTag errand.cmd = none →
      ¬ (errand.garbage.take codeSize = bytes "300" ∧
        codeSize < errand.garbage.length)) :
    errand.Consistent := by
  have same {name : List Byte} (named : wordOf errand.cmd 0 = some name) :
      word = name :=
    Option.some.inj (begins.symm.trans named)
  exact ⟨fun named => noCommand (same named),
    fun named => absurd (same named) notDownload,
    fun named => absurd (same named) notDownload,
    fun named => absurd (same named) notUpload,
    fun named => absurd (same named) notUpload⟩

theorem agrees_command {inquiry : Inquiry} (same : inquiry.cmd = errand.cmd)
    {cmd : List Byte} (found : inquiry.command = some cmd) : errand.Agrees :=
  (errand.agrees_iff (errand.finishes_command same found)).2 Iff.rfl

/-- LIST, SIZE and EXEC. -/
theorem inquiry_agrees_iff (inquiry : Inquiry)
    (same : inquiry.cmd = errand.cmd) :
    errand.Agrees ↔ errand.Consistent := by
  have begins := wordOf_named inquiry.named
  rw [same] at begins
  have notTransfer : inquiry.tag.chars ≠ downloadTag.chars ∧
      inquiry.tag.chars ≠ uploadTag.chars := by
    rcases inquiry.known with known | known | known <;>
      · rw [known]
        decide
  by_cases isExec : inquiry.tag.chars = execTag.chars
  · have command : inquiry.command = argumentOf execTag errand.cmd := by
      have isTag : inquiry.tag = execTag := Word.eq_of_chars isExec
      unfold Inquiry.command Inquiry.argument systemCommand
      rw [isTag, same, if_neg (by decide), if_pos rfl]
    cases found : inquiry.command with
    | some cmd =>
        refine iff_of_true (agrees_command same found) ?_
        refine Consistent.of_word begins notTransfer.1 notTransfer.2 ?_
        intro _ none
        rw [← command, found] at none
        cases none
    | none =>
        rw [errand.agrees_iff (errand.finishes_noCommand same found isExec),
          false_iff]
        constructor
        · intro disagrees
          exact Consistent.of_word begins notTransfer.1 notTransfer.2
            fun _ _ => disagrees
        · intro consistent
          exact consistent.noCommand (isExec ▸ begins)
            (command.symm.trans found)
  · have consistent : errand.Consistent :=
      Consistent.of_word begins notTransfer.1 notTransfer.2
        fun same => absurd same isExec
    refine iff_of_true ?_ consistent
    cases found : inquiry.command with
    | some cmd => exact agrees_command same found
    | none => exact errand.agrees_noFile same found isExec

theorem download_agrees_iff
    (named : errand.cmd = downloadTag.chars ∨
      ∃ rest, errand.cmd = downloadTag.chars ++ 32 :: rest) :
    errand.Agrees ↔ errand.Consistent := by
  have begins := wordOf_named named
  rw [errand.agrees_iff (errand.finishes_download named)]
  have notExec : downloadTag.chars ≠ execTag.chars := by decide
  have notUpload : downloadTag.chars ≠ uploadTag.chars := by decide
  have same {name : List Byte} (called : wordOf errand.cmd 0 = some name) :
      downloadTag.chars = name :=
    Option.some.inj (begins.symm.trans called)
  constructor
  · intro agrees
    refine ⟨fun called => absurd (same called) notExec, ?_, ?_,
      fun called => absurd (same called) notUpload,
      fun called => absurd (same called) notUpload⟩
    · intro _ sends notOpened garbage
      have both := agrees.2 ⟨sends, .inr ⟨notOpened, garbage⟩⟩
      exact notOpened both.2.opens
    · intro _ sends opens notWritten
      by_contra long
      have both := agrees.2 ⟨sends, .inl ⟨opens, .inr (Nat.lt_of_not_le long)⟩⟩
      exact notWritten both.2
  · intro consistent
    constructor
    · rintro ⟨sends, writes⟩
      exact ⟨sends, .inl ⟨writes.opens, .inl writes⟩⟩
    · rintro ⟨sends, ⟨opens, writes | long⟩ | ⟨notOpened, garbage⟩⟩
      · exact ⟨sends, writes⟩
      · refine ⟨sends, ?_⟩
        by_contra notWritten
        exact absurd (consistent.notWritten begins sends opens notWritten)
          (Nat.not_le_of_lt long)
      · exact absurd garbage (consistent.notOpened begins sends notOpened)

theorem upload_agrees_iff
    (named : errand.cmd = uploadTag.chars ∨
      ∃ rest, errand.cmd = uploadTag.chars ++ 32 :: rest) :
    errand.Agrees ↔ errand.Consistent := by
  have begins := wordOf_named named
  rw [errand.agrees_iff (errand.finishes_upload named)]
  have notExec : uploadTag.chars ≠ execTag.chars := by decide
  have notDownload : uploadTag.chars ≠ downloadTag.chars := by decide
  have same {name : List Byte} (called : wordOf errand.cmd 0 = some name) :
      uploadTag.chars = name :=
    Option.some.inj (begins.symm.trans called)
  constructor
  · intro agrees
    refine ⟨fun called => absurd (same called) notExec,
      fun called => absurd (same called) notDownload,
      fun called => absurd (same called) notDownload, ?_, ?_⟩
    · intro _ sends named writes
      by_contra neither
      obtain ⟨unconfirmed, long⟩ := not_or.1 neither
      have server := agrees.2
        ⟨⟨sends, named⟩, writes, .inr (Nat.lt_of_not_le long)⟩
      rcases server.2 with ⟨_, confirms⟩ | ⟨notWritten, _⟩
      · exact unconfirmed confirms
      · exact notWritten writes
    · intro _ sends named notWritten taken
      have client := agrees.1 ⟨⟨sends, named⟩, .inr ⟨notWritten, taken⟩⟩
      exact notWritten client.2.1
  · intro consistent
    constructor
    · rintro ⟨⟨sends, named⟩, ⟨writes, confirms⟩ | ⟨notWritten, taken⟩⟩
      · exact ⟨⟨sends, named⟩, writes, .inl confirms⟩
      · exact absurd taken
          (consistent.notStored begins sends named notWritten)
    · rintro ⟨⟨sends, named⟩, writes, confirms | long⟩
      · exact ⟨⟨sends, named⟩, .inl ⟨writes, confirms⟩⟩
      · rcases consistent.misread begins sends named writes with
          confirms | short
        · exact ⟨⟨sends, named⟩, .inl ⟨writes, confirms⟩⟩
        · exact absurd short (Nat.not_le_of_lt long)

end Errand

/-- The client returns `OK` for the same requests as the server, apart from the
five cases. -/
theorem outcome_agrees_iff (errand : Errand) :
    errand.Agrees ↔ errand.Consistent := by
  obtain ⟨⟨tag, known, named⟩, fits, plain⟩ := errand.isCommand
  simp only [commandTags, List.mem_cons, List.not_mem_nil, or_false] at known
  rcases known with rfl | rfl | rfl | rfl | rfl
  · exact Errand.inquiry_agrees_iff
      { tag := listTag, known := .inl rfl, cmd := errand.cmd, named, fits
        plain } rfl
  · exact Errand.inquiry_agrees_iff
      { tag := execTag, known := .inr (.inl rfl), cmd := errand.cmd, named, fits
        plain } rfl
  · exact Errand.inquiry_agrees_iff
      { tag := sizeTag, known := .inr (.inr rfl), cmd := errand.cmd, named, fits
        plain } rfl
  · exact Errand.upload_agrees_iff named
  · exact Errand.download_agrees_iff named

def fullBlock : List Byte :=
  List.replicate msgBufferSize 120

theorem sentBlocks_fullBlocks (count : Nat) (reads : List (List Byte)) :
    sentBlocks (List.replicate count fullBlock ++ reads) =
      (List.replicate count fullBlock ++ (sentBlocks reads).1,
        (sentBlocks reads).2) := by
  have full : fullBlock.length = msgBufferSize := List.length_replicate
  have nonempty : fullBlock ≠ [] :=
    List.ne_nil_of_length_pos (by rw [full]; decide)
  induction count with
  | zero => rfl
  | succ count inductionHypothesis =>
      rw [List.replicate_succ, List.cons_append, sentBlocks,
        List.take_of_length_le (Nat.le_of_eq full), if_neg nonempty,
        if_pos full, inductionHypothesis]
      rfl

/-- A machine whose disk is full: it opens every file, and a stream takes the
8192 bytes of its buffer and no more.  A file has 8193 bytes, and an array that
is not initialised holds `200`. -/
def Script.diskFull : Script :=
  { Script.bare with
    reads := List.replicate 4 fullBlock ++ [bytes "x"]
    answers := fun index call =>
      match call with
      | .fopen _ _ => some (0 : Nat)
      | .fwrite block _ => if index ≤ 4 then block.length else (0 : Nat)
      | .indeterminate => bytes "200"
      | call => Device.bare.elsewhere call }

theorem Script.diskFull_reads :
    sentBlocks Script.diskFull.reads =
      (List.replicate 4 fullBlock ++ [bytes "x"], ok) :=
  sentBlocks_fullBlocks 4 [bytes "x"]

theorem Script.diskFull_not_writes (name : Option (List Byte)) :
    ¬ Script.diskFull.Writes name
      (List.replicate 4 fullBlock ++ [bytes "x"]) := by
  rintro ⟨_, file, _, _, _, _, _, _, last, _⟩
  exact absurd last (by decide : ¬ (0 : Nat) = 1)

/-- A download to a server that cannot write, whose array `code` is full. -/
def fullCode : Errand where
  cmd := bytes "DOWNLOAD a b"
  isCommand :=
    { named := ⟨downloadTag, by simp [commandTags], .inr ⟨bytes "a b", rfl⟩⟩
      fits := by decide
      plain := by decide }
  serverConn := 4
  clientConn := 3
  code := bytes "AAAA"
  server := .diskFull
  client := .diskFull

/-- An upload to a client that cannot open the file; the array `received` holds
the confirmation of an earlier upload. -/
def staleConfirmation : Errand where
  cmd := bytes "UPLOAD a b"
  isCommand :=
    { named := ⟨uploadTag, by simp [commandTags], .inr ⟨bytes "a b", rfl⟩⟩
      fits := by decide
      plain := by decide }
  serverConn := 4
  clientConn := 3
  code := []
  server := .diskFull
  client := .bare

/-- The client takes four bytes of garbage for code and response, and the
server takes an earlier confirmation for one of the client. -/
theorem outcome_disagrees : ¬ fullCode.Agrees ∧ ¬ staleConfirmation.Agrees := by
  have sends (name : List Byte) : Script.diskFull.Sends (some name) :=
    ⟨name, 0, rfl, rfl, congrArg Prod.snd Script.diskFull_reads⟩
  constructor
  · intro agrees
    have consistent := (@Errand.download_agrees_iff fullCode
      (.inr ⟨bytes "a b", rfl⟩)).1 agrees
    have short := consistent.notWritten (by decide) (sends (bytes "a"))
      ⟨bytes "b", 0, by decide, rfl⟩ ?_
    · exact absurd short (by decide)
    · have sent : fullCode.downloaded =
          List.replicate 4 fullBlock ++ [bytes "x"] :=
        congrArg Prod.fst Script.diskFull_reads
      rw [sent]
      exact Script.diskFull_not_writes _
  · intro agrees
    have consistent := (@Errand.upload_agrees_iff staleConfirmation
      (.inr ⟨bytes "a b", rfl⟩)).1 agrees
    have fresh := consistent.notStored (by decide) (sends (bytes "a"))
      (by decide) ?_
    · exact fresh (by decide)
    · rintro ⟨_, _, _, opened, _⟩
      cases opened

end RemoteCommand
