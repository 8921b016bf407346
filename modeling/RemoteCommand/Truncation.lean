import RemoteCommand.UploadSession

/-!
# Truncated files

A receiver that signals success has the whole file exactly if the pieces it
receives are the full blocks of the file and what is left of it, the sender can
read all of it, and its disk keeps all of it.  A `fwrite` that does not take
everything is noticed, a `fclose` that loses something and a read error within a
block are not.
-/

namespace RemoteCommand

open Interaction Machine Prog Transition

/-- Behind some full blocks comes the first piece that is no full block. -/
def FirstShort (size : Nat → Nat) (count : Nat) : Prop :=
  (∀ turn < count, msgBufferSize ≤ size turn) ∧ size count < msgBufferSize

/-- Of a file and what else is written behind it, up to so many bytes, the disk
keeps just the file. -/
def Disk.Drops (disk : Disk) (content : List Byte) (length : Nat) : Prop :=
  content.length ≤ length ∧
    ∀ tail, (content ++ tail).length = length → 0 ∉ tail →
      disk.keeps (content ++ tail) = content

namespace Transfer

variable (transfer : Transfer) (disk : Disk)

/-- When the client returns `OK`, it has the file. -/
def UploadFaithful : Prop :=
  Yields (diskHost disk) transfer.upload fun handled client =>
    handled.ret = ok →
      client.files transfer.dest.chars = some transfer.content

/-- How much of what can be read of the file the client receives. -/
def received : Nat :=
  receivedLength (transfer.readable disk).length transfer.pieceSizes

variable {transfer disk}

theorem uploadFaithful_of_failed
    {final : TransferSide transfer.clientCuts ×
      TransferSide transfer.serverCuts} {handled : Outcome}
    (reaches : Reaches (diskHost disk) transfer.upload final)
    (returned : final.1.program = .ret handled) (failed : handled.ret ≠ ok) :
    transfer.UploadFaithful disk := by
  refine reaches.yields returned ?_
  exact fun succeeds => absurd succeeds failed

theorem uploadFaithful_of_refused
    (partly : transfer.clientCuts.size 0 < codeSize) :
    transfer.UploadFaithful disk := by
  obtain ⟨handled, final, refused, returned, reaches⟩ :=
    transfer.upload_refused disk partly
  exact uploadFaithful_of_failed reaches returned refused

/-! ## A file that is not made of full blocks -/

theorem uploadFaithful_of_remainder
    (complete : codeSize ≤ transfer.clientCuts.size 0)
    (remainder : (transfer.readable disk).length % msgBufferSize ≠ 0)
    (holds : ¬ disk.Takes (transfer.received disk) ∨
      disk.keeps ((transfer.readable disk).take (transfer.received disk)) =
        transfer.content) :
    transfer.UploadFaithful disk := by
  by_cases takes : disk.Takes (transfer.received disk)
  · obtain ⟨handled, _, final, returned, _, stored, _, reaches⟩ :=
      transfer.upload_confirmed disk complete remainder takes
    refine reaches.yields returned fun _ => stored.trans ?_
    exact congrArg some (holds.resolve_left (not_not.2 takes))
  · obtain ⟨handled, final, failed, returned, reaches⟩ :=
      transfer.upload_refusedWrite disk complete remainder takes
    exact uploadFaithful_of_failed reaches returned failed

/-- Something else is stored, and both sides succeed. -/
theorem not_uploadFaithful_of_remainder
    (complete : codeSize ≤ transfer.clientCuts.size 0)
    (serverComplete : codeSize ≤ transfer.serverCuts.size 0)
    (nothing : transfer.server.stale 0 = [])
    (remainder : (transfer.readable disk).length % msgBufferSize ≠ 0)
    (takes : disk.Takes (transfer.received disk))
    (differs : disk.keeps ((transfer.readable disk).take
      (transfer.received disk)) ≠ transfer.content) :
    ¬ transfer.UploadFaithful disk := by
  intro faithful
  obtain ⟨handled, _, final, returned, _, stored, judges, reaches⟩ :=
    transfer.upload_confirmed disk complete remainder takes
  have confirms : Confirms (transfer.server.stale 0) := by
    rw [nothing]
    decide
  have whole := faithful final reaches handled returned
    ((judges serverComplete).2 confirms)
  exact differs (Option.some.inj (stored.symm.trans whole))

/-! ## A file of full blocks -/

/-- The client notices the end, or that `fwrite` does not take what follows the
file, or its disk drops what follows the file. -/
theorem uploadFaithful_of_blocks
    (complete : codeSize ≤ transfer.clientCuts.size 0)
    (blocks : (transfer.readable disk).length % msgBufferSize = 0)
    (holds : ∀ count, FirstShort transfer.pieceSizes count →
      ¬ disk.Takes (msgBufferSize * count + transfer.pieceSizes count) ∨
        transfer.readable disk = transfer.content ∧
          disk.Drops transfer.content
            (msgBufferSize * count + transfer.pieceSizes count)) :
    transfer.UploadFaithful disk := by
  obtain ⟨handled, final, returned, succeeds, _, reaches⟩ :=
    transfer.upload_unconfirmed disk complete blocks rfl
  refine reaches.yields returned fun success => ?_
  obtain ⟨takes, less, stored⟩ := succeeds success
  obtain ⟨count, full, short, length⟩ := exists_short_of_received_lt less
  rw [length] at takes less stored
  obtain ⟨whole, enough, drops⟩ :=
    (holds count ⟨full, short⟩).resolve_left (not_not.2 takes)
  rw [stored, whole, List.take_append, List.take_of_length_le enough]
  refine congrArg some (drops _ ?_ ?_)
  · rw [whole, List.length_append] at less
    rw [List.length_append, List.length_take]
    omega
  · exact fun member => zero_notMem_cstr _ (List.mem_of_mem_take member)

/-- Enough follows the file for a short piece, a code and a result. -/
theorem not_uploadFaithful_of_blocks
    (complete : codeSize ≤ transfer.clientCuts.size 0)
    (blocks : (transfer.readable disk).length % msgBufferSize = 0) {count : Nat}
    (short : FirstShort transfer.pieceSizes count)
    (takes : disk.Takes (msgBufferSize * count + transfer.pieceSizes count))
    (enough : msgBufferSize * count + transfer.pieceSizes count + codeSize <
      (transfer.readable disk ++ cstr transfer.code).length)
    (differs : disk.keeps ((transfer.readable disk ++ cstr transfer.code).take
      (msgBufferSize * count + transfer.pieceSizes count)) ≠
        transfer.content) :
    ¬ transfer.UploadFaithful disk := by
  intro faithful
  obtain ⟨handled, final, returned, succeeds, success, reaches⟩ :=
    transfer.upload_unconfirmed disk complete blocks rfl
  have length := receivedLength_short short.1 short.2
    ((Nat.le_add_right _ codeSize).trans enough.le)
  rw [length] at succeeds success
  have returns := success takes enough
  obtain ⟨_, _, stored⟩ := succeeds returns
  have whole := faithful final reaches handled returned returns
  exact differs (Option.some.inj (stored.symm.trans whole))

end Transfer

/-- A string that makes the client store something else than the file. -/
theorem exists_code {disk : Disk} {content readable : List Byte} {length : Nat}
    (isPrefix : readable <+: content)
    (keepsMore : ¬ (readable = content ∧ disk.Drops content length)) :
    ∃ code, 0 ∉ code ∧ length + codeSize < (readable ++ code).length ∧
      disk.keeps ((readable ++ code).take length) ≠ content := by
  by_cases inside : readable = content ∧ content.length ≤ length
  · -- The disk keeps something else than the file.
    obtain ⟨rfl, within⟩ := inside
    obtain ⟨tail, exact, noNul, differs⟩ : ∃ tail,
        (readable ++ tail).length = length ∧ 0 ∉ tail ∧
          disk.keeps (readable ++ tail) ≠ readable := by
      by_contra none
      push Not at none
      exact keepsMore ⟨rfl, within, none⟩
    refine ⟨tail ++ List.replicate 4 65, ?_, ?_, ?_⟩
    · intro member
      rcases List.mem_append.1 member with early | late
      · exact noNul early
      · exact absurd (List.eq_of_mem_replicate late) (by decide)
    · rw [← List.append_assoc, List.length_append, exact,
        List.length_replicate]
      exact Nat.add_lt_add_left (by decide) _
    · rwa [← List.append_assoc, ← exact, List.take_left]
  · -- The first byte behind what can be read is not that of the file.
    let byte : Byte := if content[readable.length]? = some 65 then 66 else 65
    have nonzero : byte ≠ 0 := by
      unfold byte
      split <;> decide
    have other : content[readable.length]? ≠ some byte := by
      unfold byte
      split
      · rename_i same
        rw [same]
        decide
      · assumption
    refine ⟨List.replicate (length + 4) byte, ?_, ?_, ?_⟩
    · exact fun member => nonzero (List.eq_of_mem_replicate member).symm
    · rw [List.length_append, List.length_replicate]
      exact Nat.lt_add_left _ (Nat.add_lt_add_left (by decide) _)
    · intro same
      have kept := disk.keeps_prefix
        ((readable ++ List.replicate (length + 4) byte).take length)
      rw [same] at kept
      have within : content.length ≤ length :=
        kept.length_le.trans (List.length_take_le _ _)
      have shorter : readable.length < content.length := by
        refine lt_of_le_of_ne isPrefix.length_le fun lengths => ?_
        exact inside ⟨isPrefix.eq_of_length lengths, within⟩
      obtain ⟨rest, whole⟩ := kept.trans (List.take_prefix _ _)
      apply other
      rw [← List.getElem?_append_left shorter, whole,
        List.getElem?_append_right le_rfl]
      simp

/-- A file `content` goes to a client whose stream is cut in this way. -/
def Transfer.toClient (transfer : Transfer) (content : List Byte)
    (cuts : Cutting) : Transfer :=
  { transfer with content, clientCuts := cuts }

/-- The condition under which every upload of a file to a client is
faithful. -/
theorem Transfer.uploads_faithful_iff (transfer : Transfer) (disk : Disk)
    (complete : codeSize ≤ transfer.clientCuts.size 0) :
    (∀ other : Transfer, (other.toClient transfer.content
        transfer.clientCuts).UploadFaithful disk) ↔
      if (transfer.readable disk).length % msgBufferSize = 0 then
        ∀ count, FirstShort transfer.pieceSizes count →
          ¬ disk.Takes (msgBufferSize * count + transfer.pieceSizes count) ∨
            transfer.readable disk = transfer.content ∧
              disk.Drops transfer.content
                (msgBufferSize * count + transfer.pieceSizes count)
      else
        ¬ disk.Takes (transfer.received disk) ∨
          FullBlocks (transfer.readable disk).length transfer.pieceSizes ∧
            transfer.readable disk = transfer.content ∧
              disk.keeps transfer.content = transfer.content := by
  split
  · rename_i blocks
    constructor
    · intro faithful count short
      by_contra neither
      obtain ⟨takes, keepsMore⟩ := not_or.1 neither
      obtain ⟨code, noNul, enough, differs⟩ :=
        exists_code (disk.readable_prefix transfer.content) keepsMore
      let other : Transfer :=
        { sampleTransfer transfer.content transfer.clientCuts with code }
      rw [← cstr_eq_self noNul] at enough differs
      exact @Transfer.not_uploadFaithful_of_blocks
        (other.toClient transfer.content transfer.clientCuts) disk complete
        blocks count short (not_not.1 takes) enough differs (faithful other)
    · exact fun holds other => Transfer.uploadFaithful_of_blocks complete
        blocks holds
  · rename_i remainder
    rw [← receivedLength_eq_iff, ← transfer.keeps_take_eq_iff disk
      receivedLength_le]
    constructor
    · intro faithful
      by_contra neither
      obtain ⟨takes, differs⟩ := not_or.1 neither
      let other := sampleTransfer transfer.content transfer.clientCuts
      exact @Transfer.not_uploadFaithful_of_remainder
        (other.toClient transfer.content transfer.clientCuts) disk complete
        complete rfl remainder (not_not.1 takes) differs (faithful other)
    · exact fun holds other => Transfer.uploadFaithful_of_remainder complete
        remainder holds

/-- The server that returns `OK` with code 200 has the file exactly if the
client has got a part of the code only, or `fwrite` does not take what the
server receives, or the pieces are full blocks of what can be read of the file
and either nothing is left behind them or this is the whole file and the disk
keeps it.  The client that returns `OK` has the file, whatever the server and
the machines are, under the same condition on the pieces after the code, unless
what can be read of the file is made of full blocks; then a first short piece
lies behind the end, and the client notices this in `fwrite` or its disk drops
what follows the file. -/
theorem transfer_faithful_iff (transfer : Transfer) (disk : Disk) :
    (transfer.DownloadFaithful disk ↔
      transfer.clientCuts.size 0 < codeSize ∨
      ¬ disk.Takes (receivedLength (transfer.readable disk).length
        transfer.serverCuts.size) ∨
      FullBlocks (transfer.readable disk).length transfer.serverCuts.size ∧
        ((transfer.readable disk).length % msgBufferSize = 0 ∨
          transfer.readable disk = transfer.content ∧
            disk.keeps transfer.content = transfer.content)) ∧
    ((∀ other : Transfer, (other.toClient transfer.content
        transfer.clientCuts).UploadFaithful disk) ↔
      transfer.clientCuts.size 0 < codeSize ∨
      if (transfer.readable disk).length % msgBufferSize = 0 then
        ∀ count, FirstShort transfer.pieceSizes count →
          ¬ disk.Takes (msgBufferSize * count + transfer.pieceSizes count) ∨
            transfer.readable disk = transfer.content ∧
              disk.Drops transfer.content
                (msgBufferSize * count + transfer.pieceSizes count)
      else
        ¬ disk.Takes (transfer.received disk) ∨
          FullBlocks (transfer.readable disk).length transfer.pieceSizes ∧
            transfer.readable disk = transfer.content ∧
              disk.keeps transfer.content = transfer.content) := by
  constructor
  · exact transfer.downloadFaithful_iff disk
  by_cases partly : transfer.clientCuts.size 0 < codeSize
  · exact iff_of_true (fun other => Transfer.uploadFaithful_of_refused partly)
      (.inl partly)
  · rw [or_iff_right partly]
    exact transfer.uploads_faithful_iff disk (Nat.le_of_not_lt partly)

/-- Pieces of three bytes. -/
def threes : Cutting where
  size _ := 3
  positive _ := by decide

/-- A disk that is full: `fwrite` puts everything into the buffer of the
stream, and `fclose` cannot write it. -/
def Disk.full : Disk :=
  { Disk.sound with
    keeps := fun _ => []
    keeps_prefix := fun _ => List.nil_prefix }

/-- Of a file of four bytes three are stored, on the server and on the client;
and nothing of a file of one byte is on a full disk of the server. -/
theorem short_pieces_truncate :
    ¬ (sampleTransfer (bytes "abcd") threes).DownloadFaithful .sound ∧
      ¬ (sampleTransfer (bytes "abcd") threes).UploadFaithful .sound ∧
        ¬ (sampleTransfer (bytes "a") Transfer.blockCuts).DownloadFaithful
          .full := by
  have complete : codeSize ≤ threes.size 0 := by decide
  refine ⟨?_, ?_, ?_⟩
  · rw [Transfer.downloadFaithful_iff]
    rintro (partly | refuses | ⟨full, _⟩)
    · exact absurd complete (Nat.not_le_of_lt partly)
    · exact refuses (Disk.sound_takes _)
    · exact absurd (full.2 (by decide)) (by decide)
  · refine Transfer.not_uploadFaithful_of_remainder complete complete rfl
      (by decide) (Disk.sound_takes _) ?_
    decide
  · rw [Transfer.downloadFaithful_iff]
    rintro (partly | refuses | ⟨_, nothing | ⟨_, keeps⟩⟩)
    · exact absurd partly (by decide)
    · exact refuses (Disk.sound_takes _)
    · exact absurd nothing (by decide)
    · exact absurd keeps (by decide)

end RemoteCommand
