import RemoteCommand.Footprint
import RemoteCommand.UploadSession

/-!
# Fidelity of an upload

On a connection that cuts nothing an upload ends well exactly if the file is not
made of full blocks and the byte behind the three of `received` is a `NUL`.
Then the client stores nothing but the file, at no time: it opens one file for
writing and only adds to it, so that what it has stored at any time is a prefix
of what it has at the end.
-/

namespace RemoteCommand

open Interaction Machine Prog Transition

/-! ## What the client does to its files -/

/-- Calls that leave all files as they are. -/
def Call.Untouching : Call → Prop
  | .fopen _ mode => mode ≠ bytes "wb"
  | .fwrite _ _ => False
  | _ => True

def Call.Opening : Call → Prop
  | .fopen _ mode => mode = bytes "wb"
  | _ => False

/-- Calls that empty no file. -/
def Call.Adding : Call → Prop
  | .fopen _ mode => mode ≠ bytes "wb"
  | _ => True

theorem Call.Untouching.adding {call : Call} (within : call.Untouching) :
    call.Adding := by
  cases call <;> first | exact within | trivial

theorem sendLoop_untouching (conn : Int) (file : File) :
    (sendLoop conn file).Only Call.Untouching :=
  (sendLoop_only conn file).mono fun call sending => by
    cases call <;> trivial

theorem receiveReply_untouching (conn : Int) (response code : List Byte) :
    (receiveReply conn response code).Only Call.Untouching := by
  refine ⟨trivial, fun received => ?_⟩
  cases received with
  | closed => trivial
  | error => trivial
  | data chars nonempty fits =>
  refine ⟨trivial, fun received => ?_⟩
  cases received <;> trivial

theorem handleResult_untouching (conn : Int) (response code : List Byte) :
    (handleResult conn response code).Only Call.Untouching := by
  refine .ite ⟨trivial, fun received => ?_⟩ trivial
  cases received <;> trivial

theorem handleDownload_untouching (conn : Int) (response code : List Byte) :
    (handleDownload conn response code).Only Call.Untouching := by
  refine .ite ⟨trivial, fun filename => ?_⟩ trivial
  cases filename with
  | none => trivial
  | some filename =>
  have reads : bytes "rb" ≠ bytes "wb" := by decide
  refine ⟨reads, fun file => ?_⟩
  cases file with
  | none => trivial
  | some file =>
  refine (sendLoop_untouching conn file).bind fun sent => .ite trivial ?_
  exact receiveReply_untouching _ _ _

theorem receiveLoop_adding (conn : Int) (file : File) :
    (receiveLoop conn file).Only Call.Adding := by
  refine ⟨fun recvBytes => .ite ⟨trivial, fun received => ?_⟩ trivial,
    fun _ => trivial⟩
  cases received with
  | error => exact ⟨trivial, fun _ => trivial⟩
  | closed => exact ⟨trivial, fun _ => trivial⟩
  | data buffer nonempty fits =>
      exact ⟨trivial, fun written =>
        .ite ⟨trivial, fun _ => trivial⟩ trivial⟩

/-- The client opens at most one file for writing. -/
abbrev WritesOnce (program : Prog Sys Outcome) : Prop :=
  program.Phases Call.Untouching Call.Opening Call.Adding

theorem handleUpload_writesOnce (conn : Int) (response code : List Byte) :
    WritesOnce (handleUpload conn response code) := by
  refine .ite (.inl ⟨trivial, fun source => ?_⟩) trivial
  cases source with
  | none => trivial
  | some source =>
  refine .inl ⟨trivial, fun dest => ?_⟩
  cases dest with
  | none => trivial
  | some dest =>
  refine .inr ⟨rfl, fun file => ?_⟩
  cases file with
  | none => trivial
  | some file =>
  refine (receiveLoop_adding conn file).bind fun received => .ite trivial ?_
  refine ⟨trivial, fun _ => ⟨trivial, fun sent => .ite trivial ?_⟩⟩
  exact (receiveReply_untouching _ _ _).mono fun _ => Call.Untouching.adding

theorem awaitResponse_writesOnce (conn : Int) (cmd : List Byte) :
    WritesOnce (awaitResponse conn cmd) := by
  have closes (handled : Outcome) :
      (closeConnection conn handled).Only Call.Untouching :=
    ⟨trivial, fun _ => trivial⟩
  unfold awaitResponse
  simp only [bind_eq, op_bind, ret_bind]
  refine .inl ⟨trivial, fun _ => ?_⟩
  refine Phases.bind (.inl ⟨trivial, fun received => ?_⟩) closes
    fun handled => (closes handled).mono fun _ => Call.Untouching.adding
  cases received with
  | closed => trivial
  | error => trivial
  | data chars nonempty fits =>
  refine .inl ⟨trivial, fun tag => ?_⟩
  cases tag with
  | none => trivial
  | some tag =>
  refine .ite (handleResult_untouching _ _ _).phases ?_
  refine .ite (handleDownload_untouching _ _ _).phases ?_
  exact .ite (handleUpload_writesOnce _ _ _) trivial

/-! ## Files of a machine with a sound disk -/

namespace Device

variable (device : Device) {call : Call}

theorem answer_untouching (within : call.Untouching) :
    (device.answer .sound call).2.files = device.files := by
  cases call with
  | fopen path mode =>
      have reads : mode ≠ bytes "wb" := within
      simp only [answer, fopen, reads, if_false]
      split
      · split <;> rfl
      · rfl
  | fread length file =>
      simp only [answer, fread]
      split <;> rfl
  | fwrite chars file => exact within.elim
  | fclose file => simp only [answer, fclose_sound]
  | _ => rfl

/-- What is in a file stays there. -/
theorem answer_adding (within : call.Adding) {path x : List Byte}
    (holds : device.files path = some x) :
    ∃ y, (device.answer .sound call).2.files path = some y ∧ x <+: y := by
  cases call with
  | fwrite chars file =>
      simp only [answer, fwrite]
      split
      · rename_i target _
        by_cases same : path = target
        · subst same
          exact ⟨x ++ chars, by simp [content, holds, Disk.sound],
            List.prefix_append _ _⟩
        · exact ⟨x, by simp [same, holds], List.prefix_rfl⟩
      · exact ⟨x, holds, List.prefix_rfl⟩
  | fopen path' mode =>
      have untouching : (Call.fopen path' mode).Untouching := within
      exact ⟨x, by rw [device.answer_untouching untouching, holds],
        List.prefix_rfl⟩
  | _ =>
      refine ⟨x, ?_, List.prefix_rfl⟩
      rw [answer_untouching, holds]
      trivial

/-- No file disappears. -/
theorem answer_none (call : Call) {path : List Byte}
    (missing : (device.answer .sound call).2.files path = none) :
    device.files path = none := by
  cases holds : device.files path with
  | none => rfl
  | some x =>
  exfalso
  by_cases adding : call.Adding
  · obtain ⟨y, found, _⟩ := device.answer_adding adding holds
    rw [missing] at found
    cases found
  · cases call with
    | fopen path' mode =>
        have writes : mode = bytes "wb" := not_not.1 adding
        simp only [answer, fopen, writes, if_true] at missing
        by_cases same : path = path'
        · simp [same] at missing
        · simp [same, holds] at missing
    | _ => exact adding trivial

end Device

/-! ## The file at any time -/

section Stored

variable {D E : Delivery Byte} {path : List Byte}
  {state reached final : Endpoint Sys Device D Outcome ×
    Endpoint Sys Device E Outcome}

/-- A side that only adds keeps what is in the file. -/
theorem stored_prefix (reaches : Reaches deviceHost reached final)
    (adding : reached.1.program.Only Call.Adding) {part : List Byte}
    (holds : reached.1.host.files path = some part) :
    ∃ whole, final.1.host.files path = some whole ∧ part <+: whole := by
  let inv (program : Prog Sys Outcome) (device : Device) : Prop :=
    program.Only Call.Adding ∧
      ∃ whole, device.files path = some whole ∧ part <+: whole
  have initial : inv reached.1.program reached.1.host :=
    ⟨adding, part, holds, List.prefix_rfl⟩
  refine (reaches.left_invariant ?_ ?_ ?_ initial).2
  · exact fun ⟨within, kept⟩ => ⟨within.unroll, kept⟩
  · rintro call next device ⟨within, whole, found, longer⟩ _
    obtain ⟨more, after, extends_⟩ := device.answer_adding within.1 found
    exact ⟨within.2 _, more, after, longer.trans extends_⟩
  · exact fun ⟨within, kept⟩ _ response => ⟨within.2 response, kept⟩

/-- A side that opens at most one file for writing has not opened it yet, or
only adds from now on. -/
theorem writesOnce_reached (reaches : Reaches deviceHost state reached)
    (once : WritesOnce state.1.program) :
    reached.1.host.files path = state.1.host.files path ∨
      reached.1.program.Only Call.Adding ∧
        (reached.1.host.files path = none →
          state.1.host.files path = none) := by
  let inv (program : Prog Sys Outcome) (device : Device) : Prop :=
    WritesOnce program ∧ device.files path = state.1.host.files path ∨
      program.Only Call.Adding ∧
        (device.files path = none → state.1.host.files path = none)
  have initial : inv state.1.program state.1.host := .inl ⟨once, rfl⟩
  refine (reaches.left_invariant ?_ ?_ ?_ initial).imp_left
    And.right
  · rintro ρ δ body init next device (⟨phases, same⟩ | ⟨within, kept⟩)
    · exact .inl ⟨phases.unroll, same⟩
    · exact .inr ⟨within.unroll, kept⟩
  · rintro call next device (⟨phases, same⟩ | ⟨within, kept⟩) _
    · rcases phases with ⟨quiet, rest⟩ | ⟨_, rest⟩
      · exact .inl ⟨rest _,
          (congrFun (device.answer_untouching quiet) path).trans same⟩
      · exact .inr ⟨rest _, fun missing =>
          same ▸ device.answer_none call missing⟩
    · exact .inr ⟨within.2 _, fun missing =>
        kept (device.answer_none call missing)⟩
  · rintro call next device (⟨phases, same⟩ | ⟨within, kept⟩) _ response
    · rcases phases with ⟨_, rest⟩ | ⟨_, rest⟩
      · exact .inl ⟨rest response, same⟩
      · exact .inr ⟨rest response, fun missing => same ▸ missing⟩
    · exact .inr ⟨within.2 response, kept⟩

end Stored

/-! ## Uploads -/

namespace Transfer

variable (transfer : Transfer)

/-- Every schedule is bounded and leads to the end, where both sides have
returned `OK` and the client has the file.  At any time the client has in its
file what it had before or a prefix of the file of the server. -/
def UploadCompletes : Prop :=
  ∃ steps final handled exec,
    final.1.program = .ret handled ∧ final.2.program = .ret exec ∧
    handled.ret = ok ∧ exec.ret = ok ∧
    final.1.host.files transfer.dest.chars = some transfer.content ∧
    ∀ schedule reached,
      (session deviceHost (transfer.clientCuts.delivery Byte)
        (transfer.serverCuts.delivery Byte) Outcome Outcome).run
          transfer.upload schedule = some reached →
      (reached.1.host.files transfer.dest.chars =
          transfer.client.files transfer.dest.chars ∨
        ∃ part, reached.1.host.files transfer.dest.chars = some part ∧
          part <+: transfer.content) ∧
      ∃ rest,
        (session deviceHost (transfer.clientCuts.delivery Byte)
          (transfer.serverCuts.delivery Byte) Outcome Outcome).run
            reached rest = some final ∧
        schedule.length + rest.length = steps

theorem not_uploadCompletes_of_blocks
    (blocks : transfer.content.length % msgBufferSize = 0) :
    ¬ transfer.UploadCompletes := by
  rintro ⟨steps, final, handled, exec, _, returned, _, succeeds, _, completes⟩
  obtain ⟨peer, _, ⟨failed, fails, finished⟩, closed⟩ :=
    transfer.upload_closed .sound blocks
  obtain ⟨_, rest, ran, _⟩ := completes [] transfer.upload rfl
  have ends : Reaches deviceHost transfer.upload final := ⟨rest, ran⟩
  have same := (finished_unique closed.swap ends.swap finished returned).1
  rw [same, fails] at succeeds
  exact absurd succeeds (by decide)

/-- The confirmation fails on the server, whatever the client has stored. -/
theorem not_uploadCompletes_of_stale
    (remainder : transfer.content.length % msgBufferSize ≠ 0)
    (stale : ¬ Confirms (transfer.server.stale 0)) :
    ¬ transfer.uncut.UploadCompletes := by
  rintro ⟨steps, final, handled, exec, _, returned, _, succeeds, _, completes⟩
  obtain ⟨_, judged, reached, _, finished, _, judges, reaches⟩ :=
    transfer.uncut.upload_confirmed .sound
      (by decide : codeSize ≤ msgBufferSize) remainder (Disk.sound_takes _)
  obtain ⟨_, rest, ran, _⟩ := completes [] transfer.uncut.upload rfl
  have ends : Reaches deviceHost transfer.uncut.upload final := ⟨rest, ran⟩
  have same := (finished_unique reaches.swap ends.swap finished returned).1
  rw [same] at succeeds
  exact stale
    ((judges (by decide : codeSize ≤ msgBufferSize)).1.1 succeeds)

/-- Everything is received when nothing is cut. -/
theorem uncut_received :
    transfer.content.take (receivedLength transfer.content.length
      transfer.uncut.pieceSizes) = transfer.content := by
  have full : FullBlocks transfer.content.length transfer.uncut.pieceSizes :=
    ⟨fun _ _ => le_rfl, fun _ => (Nat.mod_lt _ (by decide)).le⟩
  rw [receivedLength_eq_iff.2 full, List.take_length]

theorem uploadCompletes_of
    (remainder : transfer.content.length % msgBufferSize ≠ 0)
    (confirms : Confirms (transfer.server.stale 0)) :
    transfer.uncut.UploadCompletes := by
  obtain ⟨handled, exec, final, returned, finished, holds, judges, reaches⟩ :=
    transfer.uncut.upload_confirmed .sound
      (by decide : codeSize ≤ msgBufferSize) remainder (Disk.sound_takes _)
  obtain ⟨served, received⟩ :=
    judges (by decide : codeSize ≤ msgBufferSize)
  replace holds : final.1.host.files transfer.dest.chars =
      some transfer.content :=
    holds.trans (congrArg some transfer.uncut_received)
  obtain ⟨steps, completes⟩ := reaches.completes returned finished
  refine ⟨steps, final, handled, exec, returned, finished, received confirms,
    served.2 confirms, holds, fun schedule reached ran => ⟨?_, completes _ _ ran⟩⟩
  rcases @writesOnce_reached _ _ transfer.dest.chars _ _ ⟨schedule, ran⟩
      (awaitResponse_writesOnce _ _) with same | ⟨adding, kept⟩
  · exact .inl same
  · cases here : reached.1.host.files transfer.dest.chars with
    | none => exact .inl (here.trans (kept here).symm)
    | some part =>
        obtain ⟨rest, later, _⟩ := completes _ _ ran
        obtain ⟨stored, found, isPrefix⟩ :=
          stored_prefix ⟨rest, later⟩ adding here
        rw [holds] at found
        cases found
        exact .inr ⟨part, here, isPrefix⟩

end Transfer

/-- Three bytes are compared if a `NUL` follows them. -/
theorem confirms_iff (stale : List Byte) :
    Confirms stale ↔ (stale.drop codeSize).headD 0 = 0 := by
  have joined : overwrite (bytes "200") stale =
      bytes "200" ++ stale.drop codeSize := rfl
  have code : cstr (bytes "200" ++ stale.drop codeSize) =
      bytes "200" ++ cstr (stale.drop codeSize) :=
    cstr_append (by decide) _
  have alone : cstr (bytes "200") = bytes "200" := by decide
  rw [Confirms, strcmp_eq_zero_iff, joined, code, alone,
    List.append_right_eq_self]
  cases stale.drop codeSize with
  | nil => simp
  | cons byte rest =>
      rw [cstr_cons, List.headD_cons]
      by_cases zero : byte = 0 <;> simp [zero]

/-- On a connection that cuts nothing, an upload completes exactly if the file
is not made of full blocks and a `NUL` lies behind the three bytes in which the
server receives the confirmation. -/
theorem upload_completes_iff (transfer : Transfer) :
    transfer.uncut.UploadCompletes ↔
      transfer.content.length % msgBufferSize ≠ 0 ∧
        ((transfer.server.stale 0).drop codeSize).headD 0 = 0 := by
  rw [← confirms_iff]
  constructor
  · intro completes
    have remainder : transfer.content.length % msgBufferSize ≠ 0 :=
      fun blocks => transfer.uncut.not_uploadCompletes_of_blocks blocks completes
    refine ⟨remainder, ?_⟩
    by_contra stale
    exact transfer.not_uploadCompletes_of_stale remainder stale completes
  · exact fun ⟨remainder, confirms⟩ =>
      transfer.uploadCompletes_of remainder confirms

/-- An upload to a client, when an `A` lies behind `received`. -/
def staleTransfer (content : List Byte) : Transfer :=
  { sampleTransfer content Transfer.blockCuts with
    server := { Device.bare with stale := fun _ => bytes "xxxA" } }

/-- The empty file, and a file of one byte with the wrong byte behind
`received`. -/
theorem uploads_fail :
    ¬ (sampleTransfer [] Transfer.blockCuts).uncut.UploadCompletes ∧
      ¬ (staleTransfer (bytes "a")).uncut.UploadCompletes :=
  ⟨Transfer.not_uploadCompletes_of_blocks _ rfl,
    Transfer.not_uploadCompletes_of_stale _ (by decide) (by decide)⟩

end RemoteCommand
