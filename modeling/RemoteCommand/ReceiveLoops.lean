import RemoteCommand.Footprint
import RemoteCommand.Interaction.Completion
import RemoteCommand.TransferLoops

/-!
# The two loops that receive a file

`execute_command` and `handle_response` have a copy each of the loop that stores
what arrives on the connection.  Here both are written out, with the buffer that
is cleared before every `recv`.
-/

namespace RemoteCommand

open Interaction Machine Prog

/-! ## The two copies -/

/-- The return value of `recv`. -/
def Received.count {length : Nat} : Received length → Int
  | .data chars _ _ => chars.length
  | .closed => 0
  | .error => -1

/-- What it stores. -/
def Received.chars {length : Nat} : Received length → List Byte
  | .data chars _ _ => chars
  | .closed | .error => []

/-- The loop of `DOWNLOAD` in `execute_command`. -/
def downloadTurn (conn : Int) (file : File) (recvBytes : Int) :
    Prog Sys (Int ⊕ Int) :=
  if recvBytes = msgBufferSize then do
    let cleared := List.replicate msgBufferSize 0
    let received ← recv conn msgBufferSize
    let buffer := overwrite received.chars cleared
    let recvBytes := received.count
    if recvBytes < 0 then
      fclose file
      return .inr connErr
    else if recvBytes = 0 then
      fclose file
      return .inr connErr
    else
      if (← fwrite (buffer.take recvBytes.toNat) file) ≠ recvBytes then
        fclose file
        return .inr intErr
      return .inl recvBytes
  else
    return .inr ok

def downloadLoop (conn : Int) (file : File) : Prog Sys Int :=
  Prog.iterate (downloadTurn conn file) msgBufferSize

/-- The loop of `UPLOAD` in `handle_response`. -/
def uploadTurn (conn : Int) (file : File) (recvBytes : Int) :
    Prog Sys (Int ⊕ Int) :=
  if recvBytes = msgBufferSize then do
    let cleared := List.replicate msgBufferSize 0
    let received ← recv conn msgBufferSize
    let buffer := overwrite received.chars cleared
    let recvBytes := received.count
    if recvBytes < 0 then
      fclose file
      return .inr connErr
    else if recvBytes = 0 then
      fclose file
      return .inr connErr
    else
      let written : Int ← fwrite (buffer.take recvBytes.toNat) file
      if written ≠ recvBytes then
        fclose file
        return .inr intErr
      return .inl recvBytes
  else
    return .inr ok

def uploadLoop (conn : Int) (file : File) : Prog Sys Int :=
  Prog.iterate (uploadTurn conn file) msgBufferSize

/-- Of the buffer only what was received is written. -/
theorem take_overwrite (chars array : List Byte) :
    (overwrite chars array).take chars.length = chars := by
  unfold overwrite
  exact List.take_left

theorem downloadTurn_eq (conn : Int) (file : File) :
    downloadTurn conn file = receiveTurn conn file := by
  funext recvBytes
  unfold downloadTurn receiveTurn
  by_cases full : recvBytes = msgBufferSize
  · rw [if_pos full, if_pos full]
    refine congrArg (Prog.op _) (funext fun received => ?_)
    cases received with
    | closed => rfl
    | error => rfl
    | data chars nonempty fits =>
        have positive := List.length_pos_iff.2 nonempty
        simp only [Received.count, Received.chars, Int.toNat_natCast,
          take_overwrite, pure_eq, bind_eq, ret_bind, ne_eq, Nat.cast_inj]
        rw [if_neg (by omega), if_neg (by omega)]
  · rw [if_neg full, if_neg full]

theorem uploadTurn_eq (conn : Int) (file : File) :
    uploadTurn conn file = downloadTurn conn file :=
  rfl

theorem downloadLoop_eq (conn : Int) (file : File) :
    downloadLoop conn file = receiveLoop conn file := by
  unfold downloadLoop
  rw [downloadTurn_eq]
  rfl

theorem uploadLoop_eq (conn : Int) (file : File) :
    uploadLoop conn file = downloadLoop conn file := by
  unfold uploadLoop
  rw [uploadTurn_eq]
  rfl

/-! ## Where they stand -/

/-- `execute_command` behind the loop of `DOWNLOAD`. -/
def downloadDone (result code : List Byte) (file : File) (received : Int) :
    Prog Sys Outcome :=
  if received ≠ ok then
    .ret { ret := received, result, code }
  else
    .op (.fclose file) fun _ =>
      .ret { ret := ok
             result := bytes "File downloaded." ++ terminationString
             code := bytes "200" }

theorem executeDownload_loop (conn : Int) (result code : List Byte) :
    executeDownload conn result code =
      beginTransfer conn (fun _ dest => dest) (bytes "wb") result code
        fun file =>
          (downloadLoop conn file).bind (downloadDone result code file) := by
  rw [executeDownload_begins]
  congr 1
  funext file
  rw [downloadLoop_eq]
  rfl

/-- `handle_response` before the loop of `UPLOAD`. -/
def beginUpload (response code : List Byte)
    (transfer : File → Prog Sys Outcome) : Prog Sys Outcome :=
  if strcmp code (bytes "200") = 0 then
    .op (.strtok none (bytes " ")) fun source =>
      match source with
      | none => .ret { ret := protoErr, result := response, code }
      | some _ => .op (.strtok none (bytes " ")) fun dest =>
          match dest with
          | none => .ret { ret := protoErr, result := response, code }
          | some dest => .op (.fopen dest (bytes "wb")) fun file =>
              match file with
              | none => .ret { ret := intErr, result := response, code }
              | some file => transfer file
  else
    .ret { ret := protoErr, result := response, code }

/-- `handle_response` behind the loop. -/
def uploadDone (conn : Int) (response code : List Byte) (file : File)
    (received : Int) : Prog Sys Outcome :=
  if received ≠ ok then
    .ret { ret := received, result := response, code }
  else
    .op (.fclose file) fun _ => .op (.send conn (bytes "200")) fun sent =>
      if sent < 0 then .ret { ret := connErr, result := response, code }
      else receiveReply conn response code

theorem handleUpload_loop (conn : Int) (response code : List Byte) :
    handleUpload conn response code = beginUpload response code fun file =>
      (uploadLoop conn file).bind (uploadDone conn response code file) := by
  unfold handleUpload beginUpload
  refine if_congr Iff.rfl ?_ rfl
  refine congrArg (Prog.op _) (funext fun source => ?_)
  cases source with
  | none => rfl
  | some source =>
  refine congrArg (Prog.op _) (funext fun dest => ?_)
  cases dest with
  | none => rfl
  | some dest =>
  refine congrArg (Prog.op _) (funext fun file => ?_)
  cases file with
  | none => rfl
  | some file =>
  dsimp only
  rw [uploadLoop_eq, downloadLoop_eq]
  rfl

/-! ## The surroundings of a loop -/

/-- How many results of `recv` there were, and the file that is written. -/
structure Receiving where
  taken : Nat
  written : List Byte
  closed : Bool

/-- The result of each `recv`, by the number of bytes that it asks for. -/
abbrev Results : Type :=
  Nat → (length : Nat) → Received length

/-- A `recv` has the next result, and what is written is written whole. -/
def Call.Receives (results : Results) :
    (call : Call) → Receiving → call.Answer → Receiving → Prop
  | .recv _ _ length, state, received, after =>
      received = results state.taken length ∧
        after = { state with taken := state.taken + 1 }
  | .fwrite chars _, state, count, after =>
      count = chars.length ∧
        after = { state with written := state.written ++ chars }
  | .fclose _, state, _, after => after = { state with closed := true }
  | _, state, _, after => after = state

def receiving (results : Results) : Env Sys Receiving where
  answer state call response after := call.Receives results state response after

namespace Results

variable (results : Results)

/-- The piece that a `recv` of the loop brings. -/
def piece (index : Nat) : List Byte :=
  (results index msgBufferSize).chars

/-- The bytes of the first results. -/
def arrived (count : Nat) : List Byte :=
  (List.range count).flatMap results.piece

theorem arrived_succ (count : Nat) :
    results.arrived (count + 1) = results.arrived count ++ results.piece count := by
  simp [arrived, List.range_succ]

def Full (index : Nat) : Prop :=
  (results.piece index).length = msgBufferSize

/-- The state in which the loop ends with a piece: the file is closed when there
was none. -/
def stored (index : Nat) : Receiving where
  taken := index + 1
  written := results.arrived (index + 1)
  closed := decide (results.piece index = [])

/-- What the loop returns then. -/
def verdict (index : Nat) : Int :=
  if results.piece index = [] then connErr else ok

end Results

/-- A loop that stores the pieces up to the first one that is no full block.
While it is under way the file is a beginning of what has arrived, and it comes
to an end when the stream does. -/
structure Collects (results : Results) (loop : Prog Sys Int) : Prop where
  stores : ∀ index, (∀ earlier < index, results.Full earlier) →
    ¬ results.Full index →
      Completes (receiving results) (fun _ => True)
        (fun ret state => ret = results.verdict index ∧
          state = results.stored index)
        loop ⟨0, [], false⟩
  onlyArrived : ∀ {trace outcome final},
    Runs (receiving results) loop ⟨0, [], false⟩ trace outcome final →
      final.written <+: results.arrived final.taken
  ends : (∃ index, (results index msgBufferSize).count ≤ 0) →
    Completes (receiving results) (fun _ => True) (fun _ _ => True) loop
      ⟨0, [], false⟩

section Collects

variable {results : Results} {conn : Int} {file : File}

theorem completes_receiveTurn {α : Type} {after : Int ⊕ Int → Prog Sys α}
    {post : α → Receiving → Prop} {state : Receiving}
    (brings : results.piece state.taken ≠ [] →
      Completes (receiving results) (fun _ => True) post
        (after (.inl (results.piece state.taken).length))
        { state with
          taken := state.taken + 1
          written := state.written ++ results.piece state.taken })
    (ends : results.piece state.taken = [] →
      Completes (receiving results) (fun _ => True) post (after (.inr connErr))
        { state with taken := state.taken + 1, closed := true }) :
    Completes (receiving results) (fun _ => True) post
      ((receiveTurn conn file msgBufferSize).bind after) state := by
  rw [receiveTurn_bind]
  refine .op trivial ⟨_, _, rfl, rfl⟩ fun received next came => ?_
  obtain ⟨rfl, rfl⟩ := came
  unfold Results.piece at brings ends
  cases came : results state.taken msgBufferSize with
  | data chars nonempty fits =>
      rw [came] at brings
      refine .op trivial ⟨_, _, rfl, rfl⟩ fun count next wrote => ?_
      obtain ⟨rfl, rfl⟩ := wrote
      rw [if_neg (not_not.2 rfl)]
      exact brings nonempty
  | closed =>
      rw [came] at ends
      refine .op trivial ⟨(), _, rfl⟩ fun _ next closes => ?_
      cases closes
      exact ends rfl
  | error =>
      rw [came] at ends
      refine .op trivial ⟨(), _, rfl⟩ fun _ next closes => ?_
      cases closes
      exact ends rfl

/-- The state between two turns. -/
def between (results : Results) (taken : Nat) : Receiving :=
  ⟨taken, results.arrived taken, false⟩

/-- The last turn of the loop. -/
theorem completes_lastTurn {index : Nat} (short : ¬ results.Full index) :
    Completes (receiving results) (fun _ => True)
      (fun ret state => ret = results.verdict index ∧
        state = results.stored index)
      (.loop (receiveTurn conn file) msgBufferSize .ret)
      (between results index) := by
  refine .loop (completes_receiveTurn (fun somePiece => ?_) fun noPiece => ?_)
  · change results.piece index ≠ [] at somePiece
    -- The loop condition fails.
    have ended : ((results.piece index).length : Int) ≠ msgBufferSize :=
      fun full => short (Int.ofNat.inj full)
    refine .loop ?_
    change Completes _ _ _ ((receiveTurn conn file
      (results.piece index).length).bind _) _
    rw [receiveTurn, if_neg ended]
    refine .ret ⟨(if_neg somePiece).symm, ?_⟩
    rw [Results.stored, results.arrived_succ, decide_eq_false somePiece]
    rfl
  · change results.piece index = [] at noPiece
    refine .ret ⟨(if_pos noPiece).symm, ?_⟩
    rw [Results.stored, results.arrived_succ, decide_eq_true noPiece]
    rw [noPiece, List.append_nil]
    rfl

/-- The full blocks before it, by induction on their number. -/
theorem completes_receiveLoop {index : Nat}
    (full : ∀ earlier < index, results.Full earlier)
    (short : ¬ results.Full index) (turns : Nat) :
    ∀ {taken : Nat}, taken + turns = index →
      Completes (receiving results) (fun _ => True)
        (fun ret state => ret = results.verdict index ∧
          state = results.stored index)
        (.loop (receiveTurn conn file) msgBufferSize .ret)
        (between results taken) := by
  induction turns with
  | zero =>
      rintro taken rfl
      exact completes_lastTurn short
  | succ turns inductionHypothesis =>
      intro taken reaches
      have block : (results.piece taken).length = msgBufferSize :=
        full taken (by omega)
      refine .loop (completes_receiveTurn (fun _ => ?_) fun noPiece => ?_)
      · have rest := @inductionHypothesis (taken + 1) (by omega)
        rw [between, results.arrived_succ] at rest
        change Completes _ _ _ (.loop (receiveTurn conn file)
          (results.piece taken).length .ret) _
        rw [block]
        exact rest
      · change results.piece taken = [] at noPiece
        rw [noPiece] at block
        cases block

/-- Until it writes, a turn is one piece behind. -/
theorem receiveTurn_written {recvBytes : Int} {state final : Receiving}
    {trace : List (Event Sys)} {outcome : Option (Int ⊕ Int)}
    (before : state.written = results.arrived state.taken)
    (run : Runs (receiving results) (receiveTurn conn file recvBytes) state trace
      outcome final) :
    final.written <+: results.arrived final.taken ∧
      (outcome.isSome → final.written = results.arrived final.taken) := by
  have same {state : Receiving}
      (equal : state.written = results.arrived state.taken)
      (outcome : Option (Int ⊕ Int)) :
      state.written <+: results.arrived state.taken ∧
        (outcome.isSome → state.written = results.arrived state.taken) :=
    ⟨equal ▸ List.prefix_refl _, fun _ => equal⟩
  by_cases full : recvBytes = msgBufferSize
  swap
  · rw [receiveTurn, if_neg full] at run
    obtain ⟨_, rfl, _⟩ := run.ret_cases
    exact same before outcome
  rw [full, ← bind_ret (receiveTurn conn file _), receiveTurn_bind] at run
  rcases run.op_cases with
    ⟨_, rfl, rfl⟩ | ⟨received, middle, rest, came, later, _⟩
  · exact same before none
  obtain ⟨rfl, rfl⟩ := came
  have further : results.arrived (state.taken + 1) =
      state.written ++ (results state.taken msgBufferSize).chars := by
    rw [results.arrived_succ, before]
    rfl
  cases came : results state.taken msgBufferSize with
  | data chars nonempty fits =>
      rw [came] at later further
      rcases later.op_cases with
        ⟨_, rfl, rfl⟩ | ⟨count, last, others, wrote, done, _⟩
      · exact ⟨further ▸ List.prefix_append _ _, nofun⟩
      obtain ⟨rfl, rfl⟩ := wrote
      rw [if_neg (not_not.2 rfl)] at done
      obtain ⟨_, rfl, _⟩ := done.ret_cases
      exact same further.symm outcome
  | closed =>
      rw [came] at later further
      have written := further.trans (List.append_nil _)
      rcases later.op_cases with ⟨_, rfl, rfl⟩ | ⟨_, last, others, shut, done, _⟩
      · exact same written.symm none
      cases shut
      obtain ⟨_, rfl, _⟩ := done.ret_cases
      exact same written.symm outcome
  | error =>
      rw [came] at later further
      have written := further.trans (List.append_nil _)
      rcases later.op_cases with ⟨_, rfl, rfl⟩ | ⟨_, last, others, shut, done, _⟩
      · exact same written.symm none
      cases shut
      obtain ⟨_, rfl, _⟩ := done.ret_cases
      exact same written.symm outcome

theorem iterates_written {recvBytes : Int} {state final : Receiving}
    {turns : List (List (Event Sys))} {last : List (Event Sys)}
    {outcome : Option Int}
    (run : Iterates (receiving results) (receiveTurn conn file) recvBytes state
      turns last outcome final)
    (before : state.written = results.arrived state.taken) :
    final.written <+: results.arrived final.taken := by
  induction run with
  | inside turn => exact (receiveTurn_written before turn).1
  | leave turn => exact (receiveTurn_written before turn).1
  | again turn _ inductionHypothesis =>
      exact inductionHypothesis ((receiveTurn_written before turn).2 rfl)

theorem receiveLoop_collects (conn : Int) (file : File) (results : Results) :
    Collects results (receiveLoop conn file) := by
  have stores (index : Nat) (full : ∀ earlier < index, results.Full earlier)
      (short : ¬ results.Full index) :=
    @completes_receiveLoop results conn file index full short index 0
      (Nat.zero_add index)
  refine ⟨stores, fun run => ?_, ?_⟩
  · obtain ⟨turns, last, iterates, _⟩ := run.iterates
    exact iterates_written iterates rfl
  · rintro ⟨index, nothing⟩
    have noPiece : results.piece index = [] := by
      unfold Results.piece
      cases came : results index msgBufferSize with
      | data chars nonempty fits =>
          rw [came] at nothing
          have positive := List.length_pos_iff.2 nonempty
          simp only [Received.count] at nothing
          omega
      | closed => rfl
      | error => rfl
    have short : ¬ results.Full index := by
      unfold Results.Full
      rw [noPiece, List.length_nil]
      decide
    -- The loop ends with the first result that is no full block.
    classical
    have found : ∃ index, ¬ results.Full index := ⟨index, short⟩
    refine (stores (Nat.find found) (fun earlier before => ?_)
      (Nat.find_spec found)).mono fun _ _ _ => trivial
    exact not_not.1 (Nat.find_min found before)

end Collects

/-- Both functions receive their file in the same loop: it writes the same bytes
and is left in the same way. -/
theorem receive_loops_agree (conn : Int) (results : Results) :
    (∀ result code, executeDownload conn result code =
      beginTransfer conn (fun _ dest => dest) (bytes "wb") result code
        fun file =>
          (downloadLoop conn file).bind (downloadDone result code file)) ∧
    (∀ response code, handleUpload conn response code =
      beginUpload response code fun file =>
        (uploadLoop conn file).bind (uploadDone conn response code file)) ∧
    ∀ file, uploadLoop conn file = downloadLoop conn file ∧
      Collects results (downloadLoop conn file) ∧
        Collects results (uploadLoop conn file) := by
  refine ⟨executeDownload_loop conn, handleUpload_loop conn, fun file => ?_⟩
  have collects := receiveLoop_collects conn file results
  rw [← downloadLoop_eq] at collects
  exact ⟨uploadLoop_eq conn file, collects, uploadLoop_eq conn file ▸ collects⟩

end RemoteCommand
