import RemoteCommand.Machine.Lines
import RemoteCommand.SystemCommand

/-!
# What exec leaves of a command

A command that `popen` has started has written its output and ends with a
status.  `fgets` reads the output in pieces; `exec` keeps the longest prefix of
the pieces that leaves room for a `NUL`, and appends the termination string,
for which it keeps no room.  It looks at the exit code of the status only, and
the status of a command that a signal has killed has none.
-/

namespace RemoteCommand

open Interaction Machine Prog

/-! ## A command and its output -/

structure Started where
  pointer : File
  /-- the output that has not been read -/
  output : List Byte
  /-- what `pclose` returns -/
  status : Int
  deriving DecidableEq, Repr

namespace Started

/-- `fgets`: the next piece of the output, without its `NUL`. -/
def fgets (command : Started) (length : Nat) :
    Option { chars : List Byte // chars.length < length } × Started :=
  if asks : 0 < length ∧ command.output ≠ [] then
    let piece := firstPiece 10 (length - 1) command.output
    (some ⟨piece, Nat.lt_of_le_pred asks.1 length_firstPiece_le⟩,
      { command with output := command.output.drop piece.length })
  else
    (none, command)

def answer (command : Started) : (call : Call) → call.Answer × Started
  | .popen _ => (some command.pointer, command)
  | .fgets length _ => command.fgets length
  | .pclose _ => (command.status, command)
  | call => (Device.bare.elsewhere call, command)

end Started

/-- The pieces in which `exec` reads an output. -/
def outputPieces (output : List Byte) : List (List Byte) :=
  pieces 10 (msgBufferSize - 1) output

/-- `exec` returns `outcome`, when it was called with an empty `result`. -/
def ExecLeaves (command : Started) (cmd : List Byte) (outcome : Outcome) :
    Prop :=
  ∃ trace after,
    Runs (.following Started.answer) (exec cmd []) command trace (some outcome)
      after

/-! ## The loop of exec -/

section Loop

variable {command : Started} {fp : File}

theorem fgets_end (ended : command.output = []) :
    command.fgets msgBufferSize = (none, command) :=
  dif_neg fun asks => asks.2 ended

theorem fgets_piece (more : command.output ≠ []) :
    ∃ fits, command.fgets msgBufferSize =
      (some ⟨firstPiece 10 (msgBufferSize - 1) command.output, fits⟩,
        { command with
          output := command.output.drop
            (firstPiece 10 (msgBufferSize - 1) command.output).length }) :=
  ⟨_, dif_pos ⟨by decide, more⟩⟩

/-- The loop reads the pieces until one does not fit. -/
theorem runs_readTurn (fp : File) (output : List Byte) :
    ∀ {command : Started} {result : List Byte} {size : Nat},
      command.output = output →
      ∃ trace after,
        Runs (.following Started.answer)
          (iterate (readTurn fp) (result, size)) command trace
          (some (collectOutput (outputPieces output) result size)) after ∧
          after.status = command.status := by
  have positive : 0 < msgBufferSize - 1 := by decide
  induction output using @pieces_induction Byte _ 10 _ _ positive with
  | nil =>
      intro command result size ended
      exact ⟨[⟨.fgets msgBufferSize fp, none⟩], command,
        .loop (.op (fgets_end ended) (.ret _ _)), rfl⟩
  | cons output nonempty inductionHypothesis =>
      intro command result size unread
      subst unread
      obtain ⟨fits, reads⟩ := fgets_piece nonempty
      unfold outputPieces at inductionHypothesis ⊢
      rw [pieces_cons positive nonempty, collectOutput]
      by_cases small :
          strlen (firstPiece 10 (msgBufferSize - 1) command.output) < size
      · obtain ⟨trace, after, later, same⟩ := @inductionHypothesis
          { command with
            output := command.output.drop
              (firstPiece 10 (msgBufferSize - 1) command.output).length }
          (strcat result (firstPiece 10 (msgBufferSize - 1) command.output))
          (size - strlen (firstPiece 10 (msgBufferSize - 1) command.output)) rfl
        refine ⟨_ :: trace, after, .loop (.op reads ?_), same⟩
        dsimp only
        rw [if_pos small, if_pos ⟨fits, small⟩]
        exact later
      · let rest := command.output.drop
          (firstPiece 10 (msgBufferSize - 1) command.output).length
        refine ⟨[_], { command with output := rest }, .loop (.op reads ?_), rfl⟩
        dsimp only
        rw [if_neg small, if_neg fun both => small both.2]
        exact .ret _ _

/-- What the loop collects is the longest prefix of the pieces that fits. -/
theorem collectOutput_longest {lines : List (List Byte)}
    (short : ∀ line ∈ lines, line.length < msgBufferSize) :
    ∀ {result : List Byte} {size : Nat}, 0 ∉ result → 0 < size →
      ∃ kept, LongestPrefix strlen (size - 1) lines kept ∧
        collectOutput lines result size =
          result ++ (kept.map cstr).flatten := by
  induction lines with
  | nil => exact fun _ _ => ⟨[], .nil, (List.append_nil _).symm⟩
  | cons line lines inductionHypothesis =>
      intro result size plain positive
      obtain ⟨fits, others⟩ := List.forall_mem_cons.1 short
      rw [collectOutput]
      by_cases small : strlen line < size
      · have joined : 0 ∉ strcat result line := by
          rw [strcat, List.mem_append]
          rintro (inside | inside) <;> exact zero_notMem_cstr _ inside
        obtain ⟨kept, longest, collects⟩ := @inductionHypothesis others
          (strcat result line) (size - strlen line) joined (by omega)
        have capacity : size - strlen line - 1 = size - 1 - strlen line := by
          omega
        rw [capacity] at longest
        refine ⟨line :: kept, .cons (by omega) longest, ?_⟩
        rw [if_pos ⟨fits, small⟩, collects, strcat, cstr_eq_self plain,
          List.map_cons, List.flatten_cons, List.append_assoc]
      · refine ⟨[], .cut (by omega), ?_⟩
        rw [if_neg fun both => small both.2]
        exact (List.append_nil _).symm

end Loop

/-- What `exec` keeps of an output. -/
def keptOutput (output : List Byte) : List Byte :=
  collectOutput (outputPieces output) [] msgBufferSize

theorem keptOutput_longest (output : List Byte) :
    ∃ kept, LongestPrefix strlen (msgBufferSize - 1) (outputPieces output) kept ∧
      keptOutput output = (kept.map cstr).flatten := by
  have short (line : List Byte) (member : line ∈ outputPieces output) :
      line.length < msgBufferSize := by
    have within : line.length ≤ msgBufferSize - 1 :=
      length_le_of_mem_pieces (by decide) output line member
    unfold msgBufferSize at within ⊢
    omega
  exact collectOutput_longest short List.not_mem_nil (by decide)

/-! ## The outcome of exec -/

/-- The part of `exec` that writes the output into `result`. -/
def appendOutput (fp : File) (result : List Byte) : Prog Sys (List Byte) := do
  let result ← readOutput fp result
  return strcat result terminationString

/-- The part of `exec` that waits for the command. -/
def reportStatus (fp : File) (result : List Byte) : Prog Sys Outcome := do
  let status := wexitstatus (← (Call.pclose fp).perform)
  if status = 0 then
    return { ret := ok, result, code := bytes "300" }
  else
    return { ret := commErr, result := decimal status.toNat
             code := bytes "400" }

theorem exec_eq (cmd result : List Byte) :
    exec cmd result =
      .op (.popen cmd) fun fp =>
        match fp with
        | none => .ret { ret := intErr, result := bytes "Could not popen."
                         code := bytes "500" }
        | some fp => (appendOutput fp result).bind (reportStatus fp) := by
  unfold exec appendOutput
  simp only [bind_eq, op_bind, ret_bind, pure_eq, bind_assoc]
  rfl

/-- The string in `result` behind the append, before the exit code is looked
at. -/
def ExecAppends (command : Started) (result : List Byte) : Prop :=
  ∃ trace after,
    Runs (.following Started.answer) (appendOutput command.pointer []) command
      trace (some result) after

def appended (output : List Byte) : List Byte :=
  strcat (keptOutput output) terminationString

theorem runs_appendOutput (command : Started) (fp : File) :
    ∃ trace after,
      Runs (.following Started.answer) (appendOutput fp []) command trace
          (some (appended command.output)) after ∧
        after.status = command.status := by
  obtain ⟨trace, after, run, same⟩ := @runs_readTurn fp command.output command
    [] msgBufferSize rfl
  rw [← readOutput_eq] at run
  exact ⟨_, after, run.bind (.ret _ _), same⟩

theorem execAppends_iff {command : Started} {result : List Byte} :
    ExecAppends command result ↔ result = appended command.output := by
  obtain ⟨trace, after, run, _⟩ := runs_appendOutput command command.pointer
  constructor
  · rintro ⟨_, _, appends⟩
    exact run.following_unique appends
  · rintro rfl
    exact ⟨trace, after, run⟩

/-- What `exec` makes of an output and a status. -/
def execution (command : Started) : Outcome :=
  if wexitstatus command.status = 0 then
    { ret := ok, result := appended command.output, code := bytes "300" }
  else
    { ret := commErr, result := decimal (wexitstatus command.status).toNat
      code := bytes "400" }

theorem execLeaves_iff {command : Started} {cmd : List Byte}
    {outcome : Outcome} :
    ExecLeaves command cmd outcome ↔ outcome = execution command := by
  obtain ⟨trace, after, appends, same⟩ :=
    runs_appendOutput command command.pointer
  have reports : Runs (.following Started.answer)
      (reportStatus command.pointer (appended command.output)) after
      [⟨.pclose command.pointer, after.status⟩] (some (execution command))
      after := by
    refine .op rfl ?_
    dsimp only [execution]
    rw [same, ret_bind]
    split_ifs <;> exact .ret _ _
  have run := appends.bind reports
  replace run : Runs (.following Started.answer) (exec cmd []) command
      (⟨.popen cmd, some command.pointer⟩ ::
        (trace ++ [⟨.pclose command.pointer, after.status⟩]))
      (some (execution command)) after := by
    rw [exec_eq]
    exact .op rfl run
  constructor
  · rintro ⟨_, _, leaves⟩
    exact run.following_unique leaves
  · rintro rfl
    exact ⟨_, after, run⟩

/-! ## What is kept -/

theorem cstr_piece {output : List Byte} (plain : 0 ∉ output) :
    ∀ piece ∈ outputPieces output, cstr piece = piece := by
  intro piece member
  have whole : (outputPieces output).flatten = output :=
    flatten_pieces (by decide) output
  apply cstr_eq_self
  intro inside
  rw [← whole] at plain
  exact plain (List.mem_flatten.2 ⟨piece, member, inside⟩)

/-- An output without a `NUL` is kept up to its longest prefix of pieces that
leaves room for a `NUL`, and the termination string follows. -/
theorem exec_keeps_pieces (pointer : File) (cmd : List Byte)
    {output : List Byte} (plain : 0 ∉ output) {status : Int}
    (exits : wexitstatus status = 0) :
    ∃ kept,
      LongestPrefix List.length (msgBufferSize - 1) (outputPieces output) kept ∧
        ∀ outcome, ExecLeaves ⟨pointer, output, status⟩ cmd outcome ↔
          outcome = { ret := ok, result := kept.flatten ++ terminationString
                      code := bytes "300" } := by
  obtain ⟨kept, longest, keeps⟩ := keptOutput_longest output
  have strings (piece : List Byte) (member : piece ∈ kept) :
      cstr piece = piece :=
    cstr_piece plain piece (longest.isPrefix.subset member)
  have same (piece : List Byte) (member : piece ∈ outputPieces output) :
      strlen piece = piece.length :=
    congrArg List.length (cstr_piece plain piece member)
  have joined : appended output = kept.flatten ++ terminationString := by
    rw [List.map_congr_left strings, List.map_id'] at keeps
    have noNull : 0 ∉ kept.flatten := by
      intro inside
      obtain ⟨piece, member, within⟩ := List.mem_flatten.1 inside
      rw [← strings piece member] at within
      exact zero_notMem_cstr piece within
    rw [appended, strcat, keeps, cstr_eq_self noNull,
      cstr_eq_self (by decide : 0 ∉ terminationString)]
  refine ⟨kept, longest.congr same, fun outcome => ?_⟩
  rw [execLeaves_iff, execution, if_pos exits, joined]

theorem exec_keeps_pieces_twoLines :
    ExecLeaves ⟨0, bytes "one\ntwo\n", 0⟩ (bytes "cat list")
      { ret := ok, result := bytes "one\ntwo\n\r\n\r\n"
        code := bytes "300" } := by
  obtain ⟨kept, longest, leaves⟩ := @exec_keeps_pieces 0 (bytes "cat list")
    (bytes "one\ntwo\n") (by decide) 0 (by decide)
  have whole : kept = [bytes "one\n", bytes "two\n"] :=
    longest.eq_of_fits (by decide)
  rw [leaves, whole]
  rfl

/-! ## Room for the termination string -/

/-- Some of the first pieces fit in `result`, but not with the termination
string behind them. -/
def NearlyFull (output : List Byte) : Prop :=
  ∃ front, front <+: outputPieces output ∧
    (front.map strlen).sum < msgBufferSize ∧
    msgBufferSize ≤ (front.map strlen).sum + terminationString.length

theorem length_appended {output : List Byte} {kept : List (List Byte)}
    (keeps : keptOutput output = (kept.map cstr).flatten) :
    strlen (appended output) =
      (kept.map strlen).sum + terminationString.length := by
  have noNull : 0 ∉ (kept.map cstr).flatten := by
    intro inside
    obtain ⟨piece, member, within⟩ := List.mem_flatten.1 inside
    obtain ⟨line, _, rfl⟩ := List.mem_map.1 member
    exact zero_notMem_cstr line within
  have lengths : (kept.map cstr).map List.length = kept.map strlen := by
    rw [List.map_map]
    rfl
  rw [appended, strlen_strcat, keeps, strlen, cstr_eq_self noNull,
    List.length_flatten, lengths]
  rfl

theorem appended_fits_iff (output : List Byte) :
    strlen (appended output) < msgBufferSize ↔ ¬ NearlyFull output := by
  obtain ⟨kept, longest, keeps⟩ := keptOutput_longest output
  have within := longest.fits
  have full : NearlyFull output ↔
      msgBufferSize ≤ (kept.map strlen).sum + terminationString.length := by
    constructor
    · rintro ⟨front, isPrefix, fits, reaches⟩
      have most := longest.sum_le isPrefix (Nat.le_sub_one_of_lt fits)
      omega
    · intro reaches
      refine ⟨kept, longest.isPrefix, ?_, reaches⟩
      unfold msgBufferSize at within ⊢
      omega
  rw [length_appended keeps, full]
  omega

theorem wexitstatus_range (status : Int) :
    0 ≤ wexitstatus status ∧ wexitstatus status < 256 := by
  unfold wexitstatus
  omega

theorem strlen_le (text : List Byte) : strlen text ≤ text.length :=
  (List.takeWhile_prefix _).length_le

/-- The string that `exec` leaves in `result` fits exactly when the output is
not nearly full, or the exit code takes its place; with the termination string
it fits exactly when the output is not nearly full. -/
theorem result_fits_iff (command : Started) (cmd : List Byte) :
    ((∀ outcome, ExecLeaves command cmd outcome →
        strlen outcome.result < msgBufferSize) ↔
      ¬ NearlyFull command.output ∨ wexitstatus command.status ≠ 0) ∧
      ((∀ result, ExecAppends command result →
          strlen result < msgBufferSize) ↔
        ¬ NearlyFull command.output) := by
  simp only [execLeaves_iff, execAppends_iff, forall_eq]
  refine ⟨?_, appended_fits_iff command.output⟩
  unfold execution
  by_cases exits : wexitstatus command.status = 0
  · rw [if_pos exits, or_iff_left (not_not.2 exits)]
    exact appended_fits_iff command.output
  · rw [if_neg exits]
    obtain ⟨low, high⟩ := wexitstatus_range command.status
    have short : (decimal (wexitstatus command.status).toNat).length ≤ 3 :=
      decimal_length_le (by decide) (by omega)
    refine iff_of_true ?_ (.inr exits)
    unfold msgBufferSize
    exact ((strlen_le _).trans short).trans_lt (by decide)

/-- 2044 bytes without the end of a line. -/
def almostFull : List Byte :=
  List.replicate 2044 120

theorem nearlyFull_almostFull : NearlyFull almostFull := by
  have absent (byte : Byte) (other : byte ≠ 120) : byte ∉ almostFull := by
    unfold almostFull
    exact fun member => other (List.eq_of_mem_replicate member)
  have count : almostFull.length = 2044 := by
    rw [almostFull, List.length_replicate]
  have nonempty : almostFull ≠ [] :=
    List.ne_nil_of_length_pos (by rw [count]; decide)
  have line : outputPieces almostFull = [almostFull] :=
    pieces_single nonempty (absent 10 (by decide)) (by rw [count]; decide)
  have string : strlen almostFull = 2044 := by
    rw [strlen, cstr_eq_self (absent 0 (by decide)), count]
  refine ⟨[almostFull], ?_, ?_, ?_⟩
  · rw [line]
  · rw [List.map_singleton, string]
    decide
  · rw [List.map_singleton, string]
    decide

theorem result_overflows :
    ¬ ∀ outcome, ExecLeaves ⟨0, almostFull, 0⟩ (bytes "cat file") outcome →
      strlen outcome.result < msgBufferSize := by
  have exits : wexitstatus 0 = 0 := rfl
  have leaves : ExecLeaves ⟨0, almostFull, 0⟩ (bytes "cat file")
      { ret := ok, result := appended almostFull, code := bytes "300" } :=
    execLeaves_iff.2 (if_pos exits).symm
  intro fits
  have within := fits _ leaves
  exact (appended_fits_iff almostFull).1 within nearlyFull_almostFull

/-! ## How a command ends -/

/-- The ways in which a command ends, for `pclose`. -/
inductive Termination where
  | exited (status : Fin 256)
  | signaled (signal : Nat) (isSignal : 1 ≤ signal ∧ signal ≤ 126)
      (coreDump : Bool)
  /-- the status could not be obtained -/
  | unobtainable
  deriving DecidableEq, Repr

namespace Termination

/-- What `pclose` returns. -/
def waitStatus : Termination → Int
  | exited status => status.val * 256
  | signaled signal _ coreDump => signal + if coreDump then 128 else 0
  | unobtainable => -1

/-- The command was killed by a signal. -/
def Killed : Termination → Prop
  | signaled _ _ _ => True
  | exited _ | unobtainable => False

theorem wexitstatus_exited (status : Fin 256) :
    wexitstatus (exited status).waitStatus = status.val := by
  unfold wexitstatus
  dsimp only [waitStatus]
  omega

theorem wexitstatus_signaled {signal : Nat}
    (isSignal : 1 ≤ signal ∧ signal ≤ 126) (coreDump : Bool) :
    wexitstatus (signaled signal isSignal coreDump).waitStatus = 0 := by
  unfold wexitstatus
  dsimp only [waitStatus]
  split_ifs <;> omega

theorem wexitstatus_unobtainable :
    wexitstatus unobtainable.waitStatus = 255 :=
  rfl

/-- The outcome tells how the command has ended: `OK` and the code 300 exactly
for the exit status 0, and an error for a command that did not exit. -/
structure Told (termination : Termination) (outcome : Outcome) : Prop where
  succeeds : outcome.ret = ok ∧ outcome.code = bytes "300" ↔
    termination = .exited 0
  fails : (∀ status, termination ≠ .exited status) →
    outcome.ret = commErr ∧ outcome.code = bytes "400"

end Termination

theorem execution_zero {command : Started}
    (exits : wexitstatus command.status = 0) :
    (execution command).ret = ok ∧ (execution command).code = bytes "300" := by
  rw [execution, if_pos exits]
  exact ⟨rfl, rfl⟩

theorem execution_nonzero {command : Started}
    (fails : wexitstatus command.status ≠ 0) :
    (execution command).ret = commErr ∧
      (execution command).code = bytes "400" := by
  rw [execution, if_neg fails]
  exact ⟨rfl, rfl⟩

/-- `exec` tells how a command has ended exactly when no signal has killed
it. -/
theorem exec_told_iff (pointer : File) (cmd output : List Byte)
    (termination : Termination) :
    (∃ outcome,
        ExecLeaves ⟨pointer, output, termination.waitStatus⟩ cmd outcome ∧
          termination.Told outcome) ↔
      ¬ termination.Killed := by
  simp only [execLeaves_iff, exists_eq_left]
  have different : ¬ commErr = ok := by decide
  cases termination with
  | exited status =>
      refine iff_of_true ⟨?_, fun other => absurd rfl (other status)⟩ id
      by_cases zero : status = 0
      · refine iff_of_true (execution_zero ?_) (congrArg _ zero)
        rw [Termination.wexitstatus_exited, zero]
        rfl
      · have fails : (execution ⟨pointer, output,
            (Termination.exited status).waitStatus⟩).ret = commErr := by
          refine (execution_nonzero ?_).1
          rw [Termination.wexitstatus_exited]
          exact fun same => zero (Fin.ext (by simpa using same))
        rw [fails]
        refine iff_of_false (fun told => different told.1) ?_
        exact fun same => zero (Termination.exited.inj same)
  | signaled signal isSignal coreDump =>
      refine iff_of_false (fun told => ?_) (not_not.2 trivial)
      have succeeds := @execution_zero ⟨pointer, output, _⟩
        (Termination.wexitstatus_signaled isSignal coreDump)
      cases told.succeeds.1 succeeds
  | unobtainable =>
      have fails := @execution_nonzero
        ⟨pointer, output, Termination.unobtainable.waitStatus⟩
        (by rw [Termination.wexitstatus_unobtainable]; decide)
      refine iff_of_true ⟨?_, fun _ => fails⟩ id
      rw [fails.1]
      exact iff_of_false (fun told => different told.1) Termination.noConfusion

/-- The command `kill -9 $$` is reported as one that has succeeded. -/
theorem exec_not_told_killed :
    ¬ ∃ outcome,
      ExecLeaves ⟨0, [], (Termination.signaled 9 (by decide) false).waitStatus⟩
          (bytes "kill -9 $$") outcome ∧
        (Termination.signaled 9 (by decide) false).Told outcome := by
  rintro ⟨outcome, leaves, told⟩
  rw [execLeaves_iff] at leaves
  subst leaves
  cases told.succeeds.1 (execution_zero rfl)

end RemoteCommand
