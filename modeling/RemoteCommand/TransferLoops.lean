import RemoteCommand.Client
import RemoteCommand.Device
import RemoteCommand.Server

/-!
# The loops of a file transfer

The loop of the sender puts the whole file on the wire, in blocks, and fails
after the last one when the file is made of full blocks.  The loop of the
receiver stores what it receives, and ends with the first piece that is no full
block.
-/

namespace RemoteCommand

open Interaction Machine Prog

/-! ## Turns of the loops -/

section Turns

variable {σ α : Type} {answer : σ → (call : Call) → call.Answer × σ}
  {D : Delivery Byte} {machine : σ} {inbox : D.Stream} {closed : Bool}
  {conn : Int} {file : File} {next : Int → Prog Sys α}

theorem sendTurn_bind (conn : Int) (file : File)
    (after : Int ⊕ Int → Prog Sys α) :
    (sendTurn conn file msgBufferSize).bind after =
      let sending (buffer : List Byte) : Prog Sys α :=
        .op (.send conn buffer) fun sent =>
          if sent < 0 then after (.inr connErr)
          else after (.inl buffer.length)
      .op (.fread msgBufferSize file) fun buffer =>
        if buffer.1.length = 0 then
          .op (.ferror file) fun error =>
            if error ≠ 0 then after (.inr intErr)
            else
              .op (.feof file) fun eof =>
                if eof ≠ 0 then after (.inr intErr) else sending buffer.1
        else
          sending buffer.1 := by
  unfold sendTurn
  rw [if_pos rfl]
  simp only [bind_eq, op_bind, ite_bind, ret_bind, pure_eq]

/-- A read that gets nothing ends the loop, if one of the two calls tells
why. -/
theorem advances_sendTurn_end {after : σ} {error eof : Int}
    (read : answer machine (.fread msgBufferSize file) =
      (⟨[], Nat.zero_le _⟩, after))
    (errs : answer after (.ferror file) = (error, after))
    (ends : answer after (.feof file) = (eof, after))
    (told : error ≠ 0 ∨ eof ≠ 0) :
    Advances (machineHost answer)
      ⟨.loop (sendTurn conn file) msgBufferSize next, machine, inbox, closed⟩
      [] ⟨next intErr, after, inbox, closed⟩ := by
  apply Advances.loop
  unfold unroll
  rw [sendTurn_bind]
  refine advances_call rfl read ?_
  dsimp only
  rw [if_pos List.length_nil]
  refine advances_call rfl errs ?_
  by_cases failed : error = 0
  · rw [if_neg (not_not.2 failed)]
    refine advances_call rfl ends ?_
    rw [if_pos (told.resolve_left (not_not.2 failed))]
    exact .refl _
  · rw [if_pos failed]
    exact .refl _

/-- A read that gets something is sent. -/
theorem advances_sendTurn
    {chars : { chars : List Byte // chars.length ≤ msgBufferSize }} {after : σ}
    (read : answer machine (.fread msgBufferSize file) = (chars, after))
    (nonempty : chars.1.length ≠ 0) :
    Advances (machineHost answer)
      ⟨.loop (sendTurn conn file) msgBufferSize next, machine, inbox, false⟩
      [chars.1]
      ⟨.loop (sendTurn conn file) chars.1.length next, after, inbox, false⟩ := by
  apply Advances.loop
  unfold unroll
  rw [sendTurn_bind]
  refine advances_call rfl read ?_
  dsimp only
  rw [if_neg nonempty]
  apply advances_send
  exact .refl _

/-- After a block that is not full the loop of the sender ends. -/
theorem advances_sendTurn_done {charsRead : Int}
    (short : charsRead ≠ msgBufferSize) :
    Advances (machineHost answer)
      ⟨.loop (sendTurn conn file) charsRead next, machine, inbox, closed⟩ []
      ⟨next ok, machine, inbox, closed⟩ := by
  apply Advances.loop
  unfold unroll sendTurn
  rw [if_neg short]
  exact .refl _

theorem receiveTurn_bind (conn : Int) (file : File)
    (after : Int ⊕ Int → Prog Sys α) :
    (receiveTurn conn file msgBufferSize).bind after =
      .op (.recv conn 0 msgBufferSize) fun received =>
        match received with
        | .error => .op (.fclose file) fun _ => after (.inr connErr)
        | .closed => .op (.fclose file) fun _ => after (.inr connErr)
        | .data buffer _ _ =>
            .op (.fwrite buffer file) fun written =>
              if written ≠ buffer.length then
                .op (.fclose file) fun _ => after (.inr intErr)
              else
                after (.inl buffer.length) := by
  unfold receiveTurn
  rw [if_pos rfl]
  simp only [bind_eq, op_bind, pure_eq]
  congr 1
  funext received
  cases received with
  | closed => rfl
  | error => rfl
  | data buffer nonempty fits => simp only [op_bind, ite_bind, ret_bind]

/-- After a piece that is no full block the loop of the receiver ends. -/
theorem advances_receiveTurn_done {recvBytes : Int}
    (short : recvBytes ≠ msgBufferSize) :
    Advances (machineHost answer)
      ⟨.loop (receiveTurn conn file) recvBytes next, machine, inbox, closed⟩ []
      ⟨next ok, machine, inbox, closed⟩ := by
  apply Advances.loop
  unfold unroll receiveTurn
  rw [if_neg short]
  exact .refl _

end Turns

/-! ## The sender -/

namespace Device

variable {disk : Disk}

/-- A file is open for reading, up to some offset. -/
def atOffset (device : Device) (file : File) (path : List Byte) (offset : Nat)
    (short : Bool) : Device :=
  { device with
    handles :=
      Function.update device.handles file (some (.reading path offset short)) }

theorem fopen_atOffset {device : Device} {path content : List Byte}
    (holds : device.files path = some content) :
    device.fopen path (bytes "rb") =
      (some device.nextFile,
        Device.atOffset { device with nextFile := device.nextFile + 1 }
          device.nextFile path 0 false) := by
  simp only [fopen, holds]
  rfl

theorem fread_atOffset {device : Device} {path content : List Byte}
    (holds : device.files path = some content) (file : File) (offset : Nat)
    (short : Bool) (length : Nat) :
    (device.atOffset file path offset short).fread disk length file =
      (⟨((disk.readable content).drop offset).take length,
          List.length_take_le _ _⟩,
        device.atOffset file path
          (offset + (((disk.readable content).drop offset).take length).length)
          ((((disk.readable content).drop offset).take length).length <
            length)) := by
  simp [fread, atOffset, Device.content, holds]

/-- Behind a read that got nothing, `ferror` or `feof` tells why. -/
theorem atOffset_told (device : Device) (file : File) (path : List Byte)
    (offset : Nat) :
    (device.atOffset file path offset true).ferror disk file ≠ 0 ∨
      (device.atOffset file path offset true).feof disk file ≠ 0 := by
  simp only [ferror, feof, atOffset, Function.update_self]
  by_cases whole : disk.readable (device.content path) = device.content path
  · exact .inr (by simp [Device.content] at whole ⊢; simp [whole])
  · exact .inl (by simp [Device.content] at whole ⊢; simp [whole])

end Device

section Sender

variable {disk : Disk} {D : Delivery Byte} {α : Type} {device : Device}
  {inbox : D.Stream} {path content : List Byte} {next : Int → Prog Sys α}

/-- The loop from some offset on sends what can be read of the file. -/
theorem advances_sendLoop (conn : Int) (file : File)
    (holds : device.files path = some content) (remaining : Nat) :
    ∀ (offset : Nat) (short : Bool),
      (disk.readable content).length = offset + remaining →
      ∃ blocks reached ended,
        blocks.flatten = (disk.readable content).drop offset ∧
        Advances (diskHost disk)
          ⟨.loop (sendTurn conn file) msgBufferSize next,
            device.atOffset file path offset short, inbox, false⟩
          blocks
          ⟨next (if remaining % msgBufferSize = 0 then intErr else ok),
            device.atOffset file path reached ended, inbox, false⟩ := by
  induction remaining using Nat.strong_induction_on with
  | h remaining inductionHypothesis =>
  intro offset short lengths
  have read := @Device.fread_atOffset disk device path content holds file offset
    short msgBufferSize
  by_cases ended : (disk.readable content).drop offset = []
  · have nothing : remaining = 0 := by
      have := List.drop_eq_nil_iff.1 ended
      omega
    subst nothing
    simp only [ended, List.take_nil, List.length_nil, Nat.add_zero] at read
    exact ⟨[], offset, true, ended.symm,
      advances_sendTurn_end read rfl rfl (device.atOffset_told file path offset)⟩
  · have some_left : 0 < remaining := by
      have := List.length_pos_iff.2 ended
      rw [List.length_drop] at this
      omega
    have size : (((disk.readable content).drop offset).take
        msgBufferSize).length = min msgBufferSize remaining := by
      rw [List.length_take, List.length_drop]
      omega
    have nonempty : (((disk.readable content).drop offset).take
        msgBufferSize).length ≠ 0 := by
      rw [size]
      exact (Nat.lt_min.2 ⟨by decide, some_left⟩).ne'
    have sends := @advances_sendTurn Device α (Device.answer disk) D
      (device.atOffset file path offset short) inbox conn file next _ _ read
      nonempty
    by_cases full : msgBufferSize ≤ remaining
    · simp only [size, Nat.min_eq_left full] at sends
      have fewer : remaining - msgBufferSize < remaining :=
        Nat.sub_lt some_left (by decide)
      obtain ⟨blocks, reached, last, whole, rest⟩ :=
        inductionHypothesis _ fewer (offset + msgBufferSize) _
          (by rw [Nat.add_assoc, Nat.add_sub_cancel' full]; exact lengths)
      rw [← Nat.mod_eq_sub_mod full] at rest
      refine ⟨_ ++ blocks, reached, last, ?_, sends.trans rest⟩
      rw [List.flatten_append, whole, List.flatten_singleton,
        ← List.drop_drop, List.take_append_drop]
    · have less : remaining < msgBufferSize := Nat.lt_of_not_le full
      simp only [size, Nat.min_eq_right less.le] at sends
      have notFull : ((remaining : Nat) : Int) ≠ msgBufferSize := by
        omega
      rw [Nat.mod_eq_of_lt less, if_neg (by omega)]
      refine ⟨_ ++ [], _, _, ?_,
        sends.trans (advances_sendTurn_done notFull)⟩
      rw [List.append_nil, List.flatten_singleton, List.take_of_length_le]
      rw [List.length_drop]
      omega

end Sender

/-! ## Full blocks -/

/-- The pieces are the full blocks of a file, and then what is left of it. -/
def FullBlocks (length : Nat) (size : Nat → Nat) : Prop :=
  (∀ turn < length / msgBufferSize, msgBufferSize ≤ size turn) ∧
    (length % msgBufferSize ≠ 0 →
      length % msgBufferSize ≤ size (length / msgBufferSize))

/-- How many pieces are full blocks, of so many, before the first one that is
not. -/
def fullPieces : Nat → (Nat → Nat) → Nat
  | 0, _ => 0
  | blocks + 1, size =>
      if msgBufferSize ≤ size 0 then
        fullPieces blocks (fun turn => size (turn + 1)) + 1
      else 0

/-- What the loop of a receiver gets of some bytes: the full blocks and the
first piece that is no full block. -/
def receivedLength (length : Nat) (size : Nat → Nat) : Nat :=
  let count := fullPieces (length / msgBufferSize) size
  msgBufferSize * count + min (size count) (length - msgBufferSize * count)

section FullBlocks

variable {blocks length turn : Nat} {size : Nat → Nat}

theorem receivedLength_eq :
    receivedLength length size =
      msgBufferSize * fullPieces (length / msgBufferSize) size +
        min (size (fullPieces (length / msgBufferSize) size))
          (length - msgBufferSize *
            fullPieces (length / msgBufferSize) size) :=
  rfl

theorem fullPieces_le : fullPieces blocks size ≤ blocks := by
  induction blocks generalizing size with
  | zero => exact Nat.le_refl _
  | succ blocks inductionHypothesis =>
      rw [fullPieces]
      split
      · exact Nat.succ_le_succ inductionHypothesis
      · exact Nat.zero_le _

theorem full_of_lt (before : turn < fullPieces blocks size) :
    msgBufferSize ≤ size turn := by
  induction blocks generalizing size turn with
  | zero => exact absurd before (Nat.not_lt_zero _)
  | succ blocks inductionHypothesis =>
      rw [fullPieces] at before
      split at before
      · cases turn with
        | zero => assumption
        | succ turn =>
            exact @inductionHypothesis turn (fun turn => size (turn + 1))
              (Nat.succ_lt_succ_iff.1 before)
      · exact absurd before (Nat.not_lt_zero _)

theorem short_of_lt (before : fullPieces blocks size < blocks) :
    size (fullPieces blocks size) < msgBufferSize := by
  induction blocks generalizing size with
  | zero => exact absurd before (Nat.not_lt_zero _)
  | succ blocks inductionHypothesis =>
      rw [fullPieces] at before ⊢
      split
      · rw [if_pos ‹_›] at before
        exact inductionHypothesis (Nat.succ_lt_succ_iff.1 before)
      · exact Nat.lt_of_not_le ‹_›

theorem fullPieces_eq {count : Nat}
    (full : ∀ turn < count, msgBufferSize ≤ size turn)
    (inside : count ≤ blocks)
    (stops : count = blocks ∨ size count < msgBufferSize) :
    fullPieces blocks size = count := by
  have within := @fullPieces_le blocks size
  rcases Nat.lt_trichotomy (fullPieces blocks size) count with
    fewer | same | more
  · have short := short_of_lt (fewer.trans_le inside)
    exact absurd (full _ fewer) (Nat.not_le_of_lt short)
  · exact same
  · have whole := full_of_lt more
    omega

/-- The last piece is no full block, unless the blocks were all. -/
theorem last_short :
    let count := fullPieces (length / msgBufferSize) size
    min (size count) (length - msgBufferSize * count) < msgBufferSize := by
  intro count
  have within := @fullPieces_le (length / msgBufferSize) size
  have whole := Nat.div_add_mod length msgBufferSize
  have small : length % msgBufferSize < msgBufferSize :=
    Nat.mod_lt _ (by decide)
  rcases within.lt_or_eq with fewer | all
  · exact (Nat.min_le_left _ _).trans_lt (short_of_lt fewer)
  · have same : count = length / msgBufferSize := all
    rw [same]
    omega

theorem fullPieces_mul_le :
    msgBufferSize * fullPieces (length / msgBufferSize) size ≤ length := by
  have within := Nat.mul_le_mul_left msgBufferSize
    (@fullPieces_le (length / msgBufferSize) size)
  exact within.trans (Nat.mul_div_le _ _)

theorem receivedLength_le : receivedLength length size ≤ length := by
  have within := @fullPieces_mul_le length size
  rw [receivedLength_eq]
  omega

/-- The pieces in which the loop of the receiver gets what it gets. -/
theorem piece_eq {block : Nat}
    (before : msgBufferSize * block < receivedLength length size) :
    min msgBufferSize (min (size block) (length - msgBufferSize * block)) =
      min msgBufferSize (receivedLength length size - msgBufferSize * block) := by
  have within := @fullPieces_mul_le length size
  have short := @last_short length size
  simp only at short
  rw [receivedLength_eq] at before ⊢
  generalize counted : fullPieces (length / msgBufferSize) size = count at *
  rcases Nat.lt_trichotomy block count with earlier | same | later
  · have full : msgBufferSize ≤ size block := full_of_lt (counted ▸ earlier)
    have next : msgBufferSize * (block + 1) ≤ msgBufferSize * count :=
      Nat.mul_le_mul_left _ earlier
    rw [Nat.mul_succ] at next
    omega
  · subst same
    omega
  · have next : msgBufferSize * (count + 1) ≤ msgBufferSize * block :=
      Nat.mul_le_mul_left _ later
    rw [Nat.mul_succ] at next
    omega

/-- Everything is received exactly in full blocks and what is left of them. -/
theorem receivedLength_eq_iff :
    receivedLength length size = length ↔ FullBlocks length size := by
  have whole := Nat.div_add_mod length msgBufferSize
  have small : length % msgBufferSize < msgBufferSize :=
    Nat.mod_lt _ (by decide)
  have within := @fullPieces_le (length / msgBufferSize) size
  constructor
  · intro all
    have counted : fullPieces (length / msgBufferSize) size =
        length / msgBufferSize := by
      by_contra fewer
      have less := lt_of_le_of_ne within fewer
      have short := short_of_lt less
      have next : msgBufferSize * (fullPieces (length / msgBufferSize) size + 1) ≤
          msgBufferSize * (length / msgBufferSize) :=
        Nat.mul_le_mul_left _ less
      rw [Nat.mul_succ] at next
      rw [receivedLength_eq] at all
      omega
    refine ⟨fun turn before => full_of_lt (counted ▸ before), fun _ => ?_⟩
    rw [receivedLength_eq, counted] at all
    omega
  · intro full
    have counted : fullPieces (length / msgBufferSize) size =
        length / msgBufferSize :=
      fullPieces_eq full.1 le_rfl (.inl rfl)
    rw [receivedLength_eq, counted]
    by_cases blocks : length % msgBufferSize = 0
    · omega
    · have last := full.2 blocks
      omega

/-- A first short piece that does not reach behind the end. -/
theorem receivedLength_short {count : Nat}
    (full : ∀ turn < count, msgBufferSize ≤ size turn)
    (short : size count < msgBufferSize)
    (less : msgBufferSize * count + size count ≤ length) :
    receivedLength length size = msgBufferSize * count + size count := by
  have inside : count ≤ length / msgBufferSize := by
    rw [Nat.le_div_iff_mul_le (by decide), Nat.mul_comm]
    omega
  have counted := fullPieces_eq full inside (.inr short)
  rw [receivedLength_eq, counted]
  omega

/-- What the loop gets less than everything ends with a short piece. -/
theorem exists_short_of_received_lt
    (less : receivedLength length size < length) :
    ∃ count, (∀ turn < count, msgBufferSize ≤ size turn) ∧
      size count < msgBufferSize ∧
        receivedLength length size = msgBufferSize * count + size count := by
  have within := @fullPieces_mul_le length size
  have short := @last_short length size
  refine ⟨fullPieces (length / msgBufferSize) size, fun _ => full_of_lt, ?_, ?_⟩
  · rw [receivedLength_eq] at less
    omega
  · rw [receivedLength_eq] at less ⊢
    omega

end FullBlocks

/-! ## The receiver -/

/-- `fwrite` takes all of so many bytes, in blocks. -/
def Disk.Takes (disk : Disk) (length : Nat) : Prop :=
  ∀ block, msgBufferSize * block < length →
    disk.takes (msgBufferSize * block)
        (min msgBufferSize (length - msgBufferSize * block)) =
      min msgBufferSize (length - msgBufferSize * block)

theorem Disk.sound_takes (length : Nat) : Disk.sound.Takes length :=
  fun _ _ => rfl

theorem Disk.Takes.block {disk : Disk} {length turn : Nat}
    (takes : disk.Takes length)
    (inside : msgBufferSize * (turn + 1) ≤ length) :
    disk.takes (msgBufferSize * turn) msgBufferSize = msgBufferSize := by
  rw [Nat.mul_succ] at inside
  have positive : 0 < msgBufferSize := by decide
  have taken := takes turn (by omega)
  rwa [Nat.min_eq_left (by omega)] at taken

namespace Device

variable {disk : Disk}

/-- A file is open for writing, and holds what was written. -/
def storing (device : Device) (file : File) (path written : List Byte) :
    Device :=
  { device with
    files := Function.update device.files path (some written)
    handles := Function.update device.handles file (some (.writing path)) }

theorem fopen_storing (device : Device) (path : List Byte) :
    device.fopen path (bytes "wb") =
      (some device.nextFile,
        Device.storing { device with nextFile := device.nextFile + 1 }
          device.nextFile path []) :=
  rfl

theorem storing_fclose (device : Device) (file : File)
    (path written : List Byte) :
    ((device.storing file path written).fclose disk file).files path =
      some (disk.keeps written) := by
  simp [fclose, storing]

theorem fwrite_storing (device : Device) (file : File)
    (path written chars : List Byte) :
    (device.storing file path written).fwrite disk chars file =
      (disk.takes written.length chars.length, device.storing file path
        (written ++ chars.take (disk.takes written.length chars.length))) := by
  simp [fwrite, storing, Device.content]

end Device

section Receiver

variable {disk : Disk} {α γ : Type} {device : Device} {cutting other : Cutting}
  {peer : Endpoint Sys Device (other.delivery Byte) γ} {file : File}
  {path written waiting : List Byte} {index : Nat} {next : Int → Prog Sys α}

/-- The loop receives a piece. -/
theorem reaches_receiveTurn (conn : Int) (some_waiting : waiting ≠ [])
    (idle : peer.idle (diskHost disk) false = true) {piece : List Byte}
    (arrives : waiting.take (cutting.limit index msgBufferSize) = piece) :
    let taken := disk.takes written.length piece.length
    Reaches (diskHost disk)
      ((⟨.loop (receiveTurn conn file) msgBufferSize next,
        device.storing file path written, (waiting, index), false⟩ :
        Endpoint Sys Device (cutting.delivery Byte) α), peer)
      (⟨if taken ≠ piece.length then
          .op (.fclose file) fun _ => next intErr
        else .loop (receiveTurn conn file) piece.length next,
        device.storing file path (written ++ piece.take taken),
        (waiting.drop (cutting.limit index msgBufferSize), index + 1), false⟩,
        peer) := by
  intro taken
  subst arrives
  refine ((Advances.loop (.refl _)).left peer).trans ?_
  unfold unroll
  rw [receiveTurn_bind]
  refine (reaches_receive (by decide) some_waiting idle).trans ?_
  refine Advances.leftQuiet peer ?_
  refine advances_call rfl (device.fwrite_storing file path written _) ?_
  exact .refl _

/-- It stores the piece. -/
theorem reaches_receiveTurn_stored (conn : Int) (some_waiting : waiting ≠ [])
    (idle : peer.idle (diskHost disk) false = true) {piece : List Byte}
    (arrives : waiting.take (cutting.limit index msgBufferSize) = piece)
    (takes : disk.takes written.length piece.length = piece.length) :
    Reaches (diskHost disk)
      ((⟨.loop (receiveTurn conn file) msgBufferSize next,
        device.storing file path written, (waiting, index), false⟩ :
        Endpoint Sys Device (cutting.delivery Byte) α), peer)
      (⟨.loop (receiveTurn conn file) piece.length next,
        device.storing file path (written ++ piece),
        (waiting.drop (cutting.limit index msgBufferSize), index + 1), false⟩,
        peer) := by
  have turn := @reaches_receiveTurn disk α γ device cutting other peer file path
    written waiting index next conn some_waiting idle piece arrives
  simpa only [takes, ne_eq, not_true_eq_false, if_false, List.take_length]
    using turn

/-- When `fwrite` does not take the piece, the loop fails. -/
theorem reaches_receiveTurn_refused (conn : Int) (some_waiting : waiting ≠ [])
    (idle : peer.idle (diskHost disk) false = true) {piece : List Byte}
    (arrives : waiting.take (cutting.limit index msgBufferSize) = piece)
    (refuses : disk.takes written.length piece.length ≠ piece.length) :
    ∃ after stream, Reaches (diskHost disk)
      ((⟨.loop (receiveTurn conn file) msgBufferSize next,
        device.storing file path written, (waiting, index), false⟩ :
        Endpoint Sys Device (cutting.delivery Byte) α), peer)
      (⟨next intErr, after, stream, false⟩, peer) := by
  have turn := @reaches_receiveTurn disk α γ device cutting other peer file path
    written waiting index next conn some_waiting idle piece arrives
  simp only [if_pos refuses] at turn
  exact ⟨_, _, turn.trans
    (Advances.leftQuiet peer (advances_call rfl rfl (.refl _)))⟩

/-- When everything is received and the sender has closed, the loop fails. -/
theorem reaches_receiveTurn_end (conn : Int) (ended : peer.closed = true) :
    Reaches (diskHost disk)
      ((⟨.loop (receiveTurn conn file) msgBufferSize next, device,
        ([], index), false⟩ : Endpoint Sys Device (cutting.delivery Byte) α),
        peer)
      (⟨next connErr, device.fclose disk file, ([], index), false⟩, peer) := by
  refine ((Advances.loop (.refl _)).left peer).trans ?_
  unfold unroll
  rw [receiveTurn_bind]
  refine (Cutting.receive_end rfl (by decide) ended).trans ?_
  exact Advances.leftQuiet peer (advances_call rfl rfl (.refl _))

/-- As long as the pieces are full blocks that `fwrite` takes, the loop goes
on. -/
theorem reaches_receiveBlocks (conn : Int)
    (idle : peer.idle (diskHost disk) false = true) (count : Nat) :
    ∀ {written waiting : List Byte} {index : Nat},
      (∀ turn < count, msgBufferSize ≤ cutting.size (index + turn)) →
      (∀ turn < count, disk.takes (written.length + msgBufferSize * turn)
        msgBufferSize = msgBufferSize) →
      msgBufferSize * count ≤ waiting.length →
      Reaches (diskHost disk)
        ((⟨.loop (receiveTurn conn file) msgBufferSize next,
          device.storing file path written, (waiting, index), false⟩ :
          Endpoint Sys Device (cutting.delivery Byte) α), peer)
        (⟨.loop (receiveTurn conn file) msgBufferSize next,
          device.storing file path
            (written ++ waiting.take (msgBufferSize * count)),
          (waiting.drop (msgBufferSize * count), index + count), false⟩,
          peer) := by
  induction count with
  | zero =>
      intro written waiting index _ _ _
      simpa using Reaches.refl _
  | succ count inductionHypothesis =>
      intro written waiting index full takes enough
      rw [Nat.mul_succ] at enough
      have block : msgBufferSize ≤ waiting.length := by omega
      have some_waiting : waiting ≠ [] := by
        rintro rfl
        exact absurd block (by decide)
      have limit : cutting.limit index msgBufferSize = msgBufferSize :=
        Nat.min_eq_left (full 0 (Nat.succ_pos _))
      have size : (waiting.take msgBufferSize).length = msgBufferSize :=
        List.length_take_of_le block
      have turn := @reaches_receiveTurn_stored disk α γ device cutting other
        peer file path written waiting index next conn some_waiting idle _
        (congrArg (waiting.take ·) limit)
        (by rw [size]; exact takes 0 (Nat.succ_pos _))
      rw [limit, size] at turn
      refine turn.trans ?_
      have rest := @inductionHypothesis
        (written ++ waiting.take msgBufferSize) (waiting.drop msgBufferSize)
        (index + 1)
        (fun turn before => by
          rw [Nat.add_right_comm, Nat.add_assoc]
          exact full (turn + 1) (Nat.succ_lt_succ before))
        (fun turn before => by
          rw [List.length_append, size, Nat.add_assoc,
            Nat.add_comm msgBufferSize, ← Nat.mul_succ]
          exact takes (turn + 1) (Nat.succ_lt_succ before))
        (by rw [List.length_drop]; omega)
      have whole : msgBufferSize + msgBufferSize * count =
          msgBufferSize * (count + 1) := by
        rw [Nat.mul_succ, Nat.add_comm]
      rw [List.append_assoc, ← List.take_add, List.drop_drop, whole,
        Nat.add_right_comm, Nat.add_assoc] at rest
      exact rest

/-- The loop, up to the first piece that is no full block. -/
theorem reaches_receiveBlocks_all (conn : Int)
    (idle : peer.idle (diskHost disk) false = true) {count : Nat}
    (full : ∀ turn < count, msgBufferSize ≤ cutting.size (index + turn))
    (takes : ∀ turn < count, disk.takes (msgBufferSize * turn) msgBufferSize =
      msgBufferSize)
    (enough : msgBufferSize * count ≤ waiting.length) :
    Reaches (diskHost disk)
      ((⟨(receiveLoop conn file).bind next, device.storing file path [],
        (waiting, index), false⟩ :
        Endpoint Sys Device (cutting.delivery Byte) α), peer)
      (⟨.loop (receiveTurn conn file) msgBufferSize next,
        device.storing file path (waiting.take (msgBufferSize * count)),
        (waiting.drop (msgBufferSize * count), index + count), false⟩,
        peer) := by
  have blocks := @reaches_receiveBlocks disk α γ device cutting other peer file
    path next conn idle count [] waiting index full
    (by simpa only [List.length_nil, Nat.zero_add] using takes) enough
  rwa [List.nil_append] at blocks

/-- The piece that the loop receives behind some blocks. -/
theorem piece_behind {count length : Nat}
    (whole : min msgBufferSize (min (cutting.size (index + count))
      (waiting.length - msgBufferSize * count)) = length) :
    let rest := waiting.drop (msgBufferSize * count)
    let limit := cutting.limit (index + count) msgBufferSize
    rest.take limit = rest.take length ∧ rest.drop limit = rest.drop length ∧
      (rest.take length).length = length := by
  intro rest limit
  have rests : rest.length = waiting.length - msgBufferSize * count :=
    List.length_drop
  have limits : min limit rest.length = length := by
    rw [← whole, rests]
    exact Nat.min_assoc _ _ _
  refine ⟨?_, ?_, ?_⟩
  · rw [List.take_eq_take_min, limits]
  · rw [List.drop_eq_drop_min, limits]
  · rw [List.length_take]
    omega

/-- When all pieces were full blocks, and the sender has closed, the loop
fails. -/
theorem reaches_receiveLoop_end (conn : Int) (ended : peer.closed = true)
    (full : FullBlocks waiting.length fun turn => cutting.size (index + turn))
    (blocks : waiting.length % msgBufferSize = 0)
    (takes : disk.Takes waiting.length) :
    ∃ stream, Reaches (diskHost disk)
      ((⟨(receiveLoop conn file).bind next, device.storing file path [],
        (waiting, index), false⟩ :
        Endpoint Sys Device (cutting.delivery Byte) α), peer)
      (⟨next connErr, (device.storing file path waiting).fclose disk file,
        stream, false⟩, peer) := by
  have length : msgBufferSize * (waiting.length / msgBufferSize) =
      waiting.length :=
    Nat.mul_div_cancel' (Nat.dvd_of_mod_eq_zero blocks)
  have all := @reaches_receiveBlocks_all disk α γ device cutting other peer
    file path waiting index next conn
    (Endpoint.idle_of_closed (diskHost disk) ended false) _ full.1
    (fun turn before => takes.block <|
      (Nat.mul_le_mul_left _ before).trans length.le) length.le
  rw [length, List.take_length, List.drop_length] at all
  exact ⟨_, all.trans (reaches_receiveTurn_end conn ended)⟩

/-- The loop ends with the first piece that is no full block. -/
theorem reaches_receiveLoop (conn : Int)
    (idle : peer.idle (diskHost disk) false = true) :
    let size := fun turn => cutting.size (index + turn)
    let length := receivedLength waiting.length size
    ¬ (FullBlocks waiting.length size ∧
      waiting.length % msgBufferSize = 0) →
    disk.Takes length →
    ∃ later, Reaches (diskHost disk)
      ((⟨(receiveLoop conn file).bind next, device.storing file path [],
        (waiting, index), false⟩ :
        Endpoint Sys Device (cutting.delivery Byte) α), peer)
      (⟨next ok, device.storing file path (waiting.take length),
        (waiting.drop length, later), false⟩, peer) := by
  intro size length notAll takes
  let count := fullPieces (waiting.length / msgBufferSize) size
  have within : msgBufferSize * count ≤ waiting.length := fullPieces_mul_le
  have isLast : min (size count) (waiting.length - msgBufferSize * count) <
      msgBufferSize := last_short
  have received : length = msgBufferSize * count +
      min (size count) (waiting.length - msgBufferSize * count) := rfl
  have more : msgBufferSize * count < waiting.length := by
    refine lt_of_le_of_ne within fun all => notAll ⟨?_, ?_⟩
    · apply receivedLength_eq_iff.1
      exact received.trans (by omega)
    · rw [← all]
      exact Nat.mul_mod_right _ _
  have some_bytes : 0 < size count := cutting.positive _
  have blocks := @reaches_receiveBlocks_all disk α γ device cutting other peer
    file path waiting index next conn idle count (fun _ => full_of_lt)
    (fun turn before => takes.block <|
      (Nat.mul_le_mul_left _ before).trans (Nat.le.intro received.symm)) within
  obtain ⟨taken, left, size_eq⟩ := @piece_behind cutting waiting index count _
    (Nat.min_eq_right isLast.le)
  have last := takes count (by omega)
  rw [received, Nat.add_sub_cancel_left, Nat.min_eq_right isLast.le] at last
  have turn := @reaches_receiveTurn_stored disk α γ device cutting other peer
    file path (waiting.take (msgBufferSize * count))
    (waiting.drop (msgBufferSize * count)) (index + count) next conn
    (List.ne_nil_of_length_pos (by rw [List.length_drop]; omega)) idle _ taken
    (by rw [size_eq, List.length_take_of_le within]; exact last)
  have short : ((waiting.drop (msgBufferSize * count)).take
      (min (size count) (waiting.length - msgBufferSize * count))).length ≠
        msgBufferSize := by
    rw [size_eq]
    exact isLast.ne
  refine ⟨index + count + 1, blocks.trans (turn.trans ?_)⟩
  refine (Advances.leftQuiet peer
    (advances_receiveTurn_done (by exact_mod_cast short))).trans ?_
  rw [left, ← List.take_add, List.drop_drop, ← received]
  exact .refl _

/-- When `fwrite` does not take everything, the loop fails. -/
theorem reaches_receiveLoop_refused (conn : Int)
    (idle : peer.idle (diskHost disk) false = true)
    (refuses : ¬ disk.Takes (receivedLength waiting.length fun turn =>
      cutting.size (index + turn))) :
    ∃ after stream, Reaches (diskHost disk)
      ((⟨(receiveLoop conn file).bind next, device.storing file path [],
        (waiting, index), false⟩ :
        Endpoint Sys Device (cutting.delivery Byte) α), peer)
      (⟨next intErr, after, stream, false⟩, peer) := by
  classical
  let size := fun turn => cutting.size (index + turn)
  let length := receivedLength waiting.length size
  let refusedAt (block : Nat) : Prop := msgBufferSize * block < length ∧
    disk.takes (msgBufferSize * block)
        (min msgBufferSize (length - msgBufferSize * block)) ≠
      min msgBufferSize (length - msgBufferSize * block)
  have found : ∃ block, refusedAt block := by
    simpa only [Disk.Takes, not_forall, exists_prop] using refuses
  obtain ⟨count, ⟨before, refused⟩, first⟩ : ∃ count, refusedAt count ∧
      ∀ turn < count, ¬ refusedAt turn :=
    ⟨Nat.find found, Nat.find_spec found, fun _ => Nat.find_min found⟩
  have taken (turn : Nat) (earlier : turn < count) :
      disk.takes (msgBufferSize * turn) msgBufferSize = msgBufferSize := by
    have next : msgBufferSize * (turn + 1) ≤ msgBufferSize * count :=
      Nat.mul_le_mul_left _ earlier
    rw [Nat.mul_succ] at next
    have block : min msgBufferSize (length - msgBufferSize * turn) =
        msgBufferSize := by
      omega
    by_contra refused
    refine first turn earlier ⟨by omega, ?_⟩
    rwa [block]
  have received : length ≤ waiting.length := receivedLength_le
  have within : msgBufferSize * count ≤ waiting.length :=
    before.le.trans received
  have full (turn : Nat) (earlier : turn < count) :
      msgBufferSize ≤ cutting.size (index + turn) := by
    have next : msgBufferSize * (turn + 1) ≤ msgBufferSize * count :=
      Nat.mul_le_mul_left _ earlier
    rw [Nat.mul_succ] at next
    have piece : min msgBufferSize (min (cutting.size (index + turn))
        (waiting.length - msgBufferSize * turn)) =
          min msgBufferSize (length - msgBufferSize * turn) :=
      piece_eq (show msgBufferSize * turn < length by omega)
    omega
  have blocks := @reaches_receiveBlocks_all disk α γ device cutting other peer
    file path waiting index next conn idle count full taken within
  obtain ⟨arrives, _, size_eq⟩ := @piece_behind cutting waiting index count _
    (piece_eq before)
  obtain ⟨after, stream, turn⟩ := @reaches_receiveTurn_refused disk α γ device
    cutting other peer file path (waiting.take (msgBufferSize * count))
    (waiting.drop (msgBufferSize * count)) (index + count) next conn
    (List.ne_nil_of_length_pos (by rw [List.length_drop]; omega)) idle _ arrives
    (by rw [size_eq, List.length_take_of_le within]; exact refused)
  exact ⟨after, stream, blocks.trans turn⟩

end Receiver

end RemoteCommand
