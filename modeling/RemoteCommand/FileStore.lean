import RemoteCommand.UploadFidelity
import RemoteCommand.Transition.Refinement

/-!
# The server as a store of files

What a DOWNLOAD does to the files of the server, and an UPLOAD: the one sets the
file that it names and leaves all others as they are, the other leaves all as
they are.  So, session after session on a connection that cuts nothing, the
server is a store of files.

A `Device` knows a file by the path that it is opened with.  In the directory of
the server two paths may lead to one file, so the sessions here name files of
that directory, without links in it: then a file has one name.  All calls on
files succeed.
-/

namespace RemoteCommand

open Interaction Machine Prog Transition

/-! ## What a session leaves alone -/

/-- Calls that write to `file` only and open no other. -/
def Call.WritesTo (file : File) : Call → Prop
  | .fwrite _ other => other = file
  | .fopen _ _ | .fread _ _ => False
  | _ => True

/-- `file` is open for writing at `path` or closed, and all other files are as
they were. -/
structure Device.Confined (device : Device)
    (files : List Byte → Option (List Byte)) (file : File) (path : List Byte) :
    Prop where
  handle : device.handles file = some (.writing path) ∨
    device.handles file = none
  others : ∀ other, other ≠ path → device.files other = files other

theorem Device.Confined.answer {device : Device}
    {files : List Byte → Option (List Byte)} {file : File} {path : List Byte}
    (confined : device.Confined files file path) {call : Call}
    (within : call.WritesTo file) :
    (device.answer .sound call).2.Confined files file path := by
  cases call with
  | fwrite chars other =>
      cases within
      rcases confined.handle with writing | closed
      · refine ⟨.inl ?_, fun another different => ?_⟩
        · simp only [Device.answer, Device.fwrite, writing]
        · simp only [Device.answer, Device.fwrite, writing]
          rw [Function.update_of_ne different]
          exact confined.others another different
      · simp only [Device.answer, Device.fwrite, closed]
        exact confined
  | fclose other =>
      simp only [Device.answer, Device.fclose_sound]
      refine ⟨?_, confined.others⟩
      by_cases same : file = other
      · exact .inr (same ▸ Function.update_self _ _ _)
      · rcases confined.handle with writing | closed
        · exact .inl ((Function.update_of_ne same _ _).trans writing)
        · exact .inr ((Function.update_of_ne same _ _).trans closed)
  | fopen | fread => exact within.elim
  | _ => exact ⟨confined.handle, confined.others⟩

section Reached

variable {D E : Delivery Byte}
  {state final : Endpoint Sys Device D Outcome × Endpoint Sys Device E Outcome}

theorem reaches_confined (reaches : Reaches deviceHost state final)
    {files : List Byte → Option (List Byte)} {file : File} {path : List Byte}
    (within : state.1.program.Only (Call.WritesTo file))
    (confined : state.1.host.Confined files file path) :
    final.1.host.Confined files file path := by
  let inv (program : Prog Sys Outcome) (device : Device) : Prop :=
    program.Only (Call.WritesTo file) ∧ device.Confined files file path
  have initial : inv state.1.program state.1.host := ⟨within, confined⟩
  refine (reaches.left_invariant ?_ ?_ ?_ initial).2
  · exact fun ⟨within, kept⟩ => ⟨within.unroll, kept⟩
  · exact fun ⟨within, kept⟩ _ => ⟨within.2 _, kept.answer within.1⟩
  · exact fun ⟨within, kept⟩ _ response => ⟨within.2 response, kept⟩

theorem reaches_untouched (reaches : Reaches deviceHost state final)
    (within : state.1.program.Only Call.Untouching) :
    final.1.host.files = state.1.host.files := by
  let inv (program : Prog Sys Outcome) (device : Device) : Prop :=
    program.Only Call.Untouching ∧ device.files = state.1.host.files
  have initial : inv state.1.program state.1.host := ⟨within, rfl⟩
  refine (reaches.left_invariant ?_ ?_ ?_ initial).2
  · exact fun ⟨within, kept⟩ => ⟨within.unroll, kept⟩
  · exact fun ⟨within, kept⟩ _ =>
      ⟨within.2 _, (Device.answer_untouching _ within.1).trans kept⟩
  · exact fun ⟨within, kept⟩ _ response => ⟨within.2 response, kept⟩

end Reached

/-! ## DOWNLOAD -/

theorem sendAnswer_writesTo (conn : Int) (exec : Outcome) (file : File) :
    (sendAnswer conn exec).Only (Call.WritesTo file) := by
  have sending : (sendReply conn exec).Only (Call.WritesTo file) :=
    ⟨trivial, fun _ => .ite trivial ⟨trivial, fun _ => .ite trivial trivial⟩⟩
  exact sending.bind fun sent => .ite ⟨trivial, fun _ => trivial⟩ trivial

theorem receiveLoop_writesTo (conn : Int) (file : File) :
    (receiveLoop conn file).Only (Call.WritesTo file) := by
  refine ⟨fun recvBytes => .ite ⟨trivial, fun received => ?_⟩ trivial,
    fun _ => trivial⟩
  cases received with
  | error => exact ⟨trivial, fun _ => trivial⟩
  | closed => exact ⟨trivial, fun _ => trivial⟩
  | data buffer nonempty fits =>
      exact ⟨rfl, fun written => .ite ⟨trivial, fun _ => trivial⟩ trivial⟩

theorem endDownload_writesTo (conn : Int) (file : File) (code : List Byte)
    (received : Int) :
    (endDownload conn file code received).Only (Call.WritesTo file) :=
  .ite (sendAnswer_writesTo _ _ _)
    ⟨trivial, fun _ => sendAnswer_writesTo _ _ _⟩

namespace Transfer

variable (transfer : Transfer)

/-- The server comes to the state in which it has emptied the file. -/
theorem download_confined :
    ∃ file middle, Reaches deviceHost transfer.download middle ∧
      middle.1.program.Only (Call.WritesTo file) ∧
      middle.1.host.Confined transfer.server.files file
        transfer.dest.chars := by
  obtain ⟨memory₁, memory₂, memory₃, second, third, requested⟩ :=
    @advances_answerRequest .sound (transfer.serverCuts.delivery Byte)
      transfer.serverConn downloadTag transfer.source transfer.dest
      transfer.code transfer.server ([], 0)
  rw [executeTag_download, executeDownload_eq] at requested
  let file := transfer.server.nextFile
  let device : Device := Device.storing
    { transfer.server with memory := memory₃, nextFile := file + 1 } file
    transfer.dest.chars []
  let program : Prog Sys Outcome :=
    .op (.send transfer.serverConn (bytes "200")) fun sent =>
      if sent < 0 then
        sendAnswer transfer.serverConn
          { ret := connErr, result := [], code := transfer.code }
      else
        (receiveLoop transfer.serverConn file).bind
          (endDownload transfer.serverConn file transfer.code)
  have opens : Advances deviceHost
      (⟨answerRequest transfer.serverConn transfer.downloadMessage
          transfer.code, transfer.server, ([], 0), false⟩ :
        TransferSide transfer.serverCuts)
      [] ⟨program, device, ([], 0), false⟩ := by
    refine requested.trans ?_
    refine advances_call rfl (Device.answer_strtok second) ?_
    refine advances_call rfl (Device.answer_strtok third) ?_
    refine advances_call rfl (Device.fopen_storing _ _) ?_
    exact .refl _
  refine ⟨file, _, opens.left transfer.download.2, ?_, ?_⟩
  · refine ⟨trivial, fun sent => .ite (sendAnswer_writesTo _ _ _) ?_⟩
    exact (receiveLoop_writesTo _ _).bind (endDownload_writesTo _ _ _)
  · exact
      { handle := .inl (Function.update_self _ _ _)
        others := fun other different => Function.update_of_ne different _ _ }

/-- A download that ends with the whole file in the server's hands. -/
theorem download_ends (complete : codeSize ≤ transfer.clientCuts.size 0)
    (full : FullBlocks transfer.content.length transfer.serverCuts.size) :
    ∃ exec handled final, final.1.program = .ret exec ∧
      final.2.program = .ret handled ∧
      final.1.host.files transfer.dest.chars = some transfer.content ∧
      Reaches deviceHost transfer.download final := by
  by_cases blocks : transfer.content.length % msgBufferSize = 0
  · obtain ⟨file, device, handled, client, _, closed⟩ :=
      transfer.download_closed .sound complete blocks
    let exec : Outcome := { ret := connErr, result := [], code := transfer.code }
    let client : TransferSide transfer.clientCuts :=
      ⟨.ret handled, client, ([], 1), true⟩
    obtain ⟨stream, loops⟩ := @reaches_receiveLoop_end .sound Outcome Outcome
      device transfer.serverCuts transfer.clientCuts client file
      transfer.dest.chars transfer.content 0
      (endDownload transfer.serverConn file transfer.code) transfer.serverConn
      rfl (by simpa only [Nat.zero_add] using full) blocks (Disk.sound_takes _)
    have answers := @advances_sendAnswer Device (Device.answer .sound)
      (transfer.serverCuts.delivery Byte) transfer.serverConn exec
      ((device.storing file transfer.dest.chars transfer.content).fclose .sound
        file) stream
    have returned := (client.deliverAll_same
      [cstr exec.code, cstr exec.result]).1
    exact ⟨exec, handled, _, rfl, returned, device.storing_fclose _ _ _,
      closed.trans (loops.trans (answers.left client))⟩
  · obtain ⟨exec, handled, final, _, _, returned, finished, holds, reaches⟩ :=
      transfer.download_stored complete blocks full
    exact ⟨exec, handled, final, returned, finished, holds, reaches⟩

/-- At the end of a download the server has the file, whatever both sides
return, and all other files are as they were. -/
theorem download_sets (complete : codeSize ≤ transfer.clientCuts.size 0)
    (full : FullBlocks transfer.content.length transfer.serverCuts.size) :
    Yields deviceHost transfer.download fun _ server =>
      server.files = Function.update transfer.server.files
        transfer.dest.chars (some transfer.content) := by
  obtain ⟨file, middle, opens, within, confined⟩ := transfer.download_confined
  have others : Yields deviceHost transfer.download fun _ server =>
      server.Confined transfer.server.files file transfer.dest.chars :=
    opens.yields_behind fun reached reaches _ _ =>
      reaches_confined reaches within confined
  obtain ⟨exec, handled, final, returned, _, holds, reaches⟩ :=
    transfer.download_ends complete full
  have whole : Yields deviceHost transfer.download fun _ server =>
      server.files transfer.dest.chars = some transfer.content :=
    reaches.yields returned holds
  intro reached run value finished
  funext path
  by_cases same : path = transfer.dest.chars
  · rw [same, Function.update_self]
    exact whole reached run value finished
  · rw [Function.update_of_ne same]
    exact (others reached run value finished).others path same

/-! ## UPLOAD -/

theorem executeUpload_untouching (conn : Int) (result code : List Byte) :
    (executeUpload conn result code).Only Call.Untouching := by
  refine ⟨trivial, fun source => ?_⟩
  cases source with
  | none => trivial
  | some source =>
  refine ⟨trivial, fun dest => ?_⟩
  cases dest with
  | none => trivial
  | some dest =>
  have reads : bytes "rb" ≠ bytes "wb" := by decide
  refine ⟨reads, fun file => ?_⟩
  cases file with
  | none => trivial
  | some file =>
  refine ⟨trivial, fun sent => .ite trivial ?_⟩
  refine (sendLoop_untouching conn file).bind fun sent => .ite trivial ?_
  refine ⟨trivial, fun _ => ⟨trivial, fun stale => ⟨trivial, fun received => ?_⟩⟩⟩
  cases received with
  | error => trivial
  | closed => exact .ite trivial trivial
  | data chars nonempty fits => exact .ite trivial trivial

theorem sendAnswer_untouching (conn : Int) (exec : Outcome) :
    (sendAnswer conn exec).Only Call.Untouching := by
  have sending : (sendReply conn exec).Only Call.Untouching :=
    ⟨trivial, fun _ => .ite trivial ⟨trivial, fun _ => .ite trivial trivial⟩⟩
  exact sending.bind fun sent => .ite ⟨trivial, fun _ => trivial⟩ trivial

/-- An upload leaves the files of the server as they are. -/
theorem upload_keeps :
    Yields deviceHost transfer.upload.swap fun _ server =>
      server.files =
        (transfer.server.withFile transfer.source.chars
          transfer.content).files := by
  obtain ⟨memory, _, _, _, _, requested⟩ :=
    @advances_answerRequest .sound (transfer.serverCuts.delivery Byte)
      transfer.serverConn uploadTag transfer.source transfer.dest
      transfer.code (transfer.server.withFile transfer.source.chars
        transfer.content) ([], 0)
  rw [executeTag_upload] at requested
  refine (requested.left (transfer.awaiting [])).yields_behind ?_
  intro reached reaches _ _
  exact reaches_untouched reaches ((executeUpload_untouching _ _ _).bind
    fun exec => sendAnswer_untouching _ _)

/-- When a file that is not made of full blocks arrives whole, the client has
it. -/
theorem upload_ends
    (remainder : transfer.content.length % msgBufferSize ≠ 0) :
    ∃ handled exec final, final.1.program = .ret handled ∧
      final.2.program = .ret exec ∧
      final.1.host.files transfer.dest.chars = some transfer.content ∧
      Reaches deviceHost transfer.uncut.upload final := by
  obtain ⟨handled, exec, final, returned, finished, holds, _, reaches⟩ :=
    transfer.uncut.upload_confirmed .sound
      (by decide : codeSize ≤ msgBufferSize) remainder (Disk.sound_takes _)
  exact ⟨handled, exec, final, returned, finished,
    holds.trans (congrArg some transfer.uncut_received), reaches⟩

/-- The transfer on a connection that cuts nothing, with this server. -/
def atServer (server : Device) : Transfer :=
  { transfer.uncut with server }

/-- The same, when the server has `content` in the file. -/
def fetching (server : Device) (content : List Byte) : Transfer :=
  { transfer.atServer server with content }

end Transfer

/-! ## Sessions -/

/-- The name of a file in the directory itself. -/
def PlainName (name : List Byte) : Prop :=
  char '/' ∉ name ∧ name ≠ bytes "." ∧ name ≠ bytes ".."

instance (name : List Byte) : Decidable (PlainName name) :=
  inferInstanceAs (Decidable (_ ∧ _))

/-- A session of the server: a client brings a file, or fetches one. -/
inductive Visit where
  | put (transfer : Transfer) (plain : PlainName transfer.dest.chars)
  | get (transfer : Transfer) (plain : PlainName transfer.source.chars)

/-- The files of a machine by their names. -/
abbrev FileStore : Type :=
  List Byte → Option (List Byte)

namespace FileStore

/-- What a session is for: a client that brings a file sets it, and one that
fetches a file gets what it holds. -/
def visit (store : FileStore) : Visit → Option (List Byte) × FileStore
  | .put transfer _ =>
      (none, Function.update store transfer.dest.chars (some transfer.content))
  | .get transfer _ => (store transfer.source.chars, store)

/-- The file that is fetched exists, and it is not made of full blocks. -/
def Serves (store : FileStore) : Visit → Prop
  | .put _ _ => True
  | .get transfer _ =>
      ∃ content, store transfer.source.chars = some content ∧
        content.length % msgBufferSize ≠ 0

/-- This is so at each of the sessions. -/
def ServesAll : FileStore → List Visit → Prop
  | _, [] => True
  | store, visit :: visits =>
      store.Serves visit ∧ ServesAll (store.visit visit).2 visits

end FileStore

/-- A session that has come to its end: the server, the server behind it, and
what the client has fetched. -/
inductive Visited : Device → Visit → Device → Option (List Byte) → Prop
  | put {transfer : Transfer} {plain : PlainName transfer.dest.chars}
      {server : Device} {exec handled : Outcome}
      {final : TransferSide Transfer.blockCuts ×
        TransferSide Transfer.blockCuts} :
      Reaches deviceHost (transfer.atServer server).download final →
      final.1.program = .ret exec → final.2.program = .ret handled →
      Visited server (.put transfer plain) final.1.host none
  | get {transfer : Transfer} {plain : PlainName transfer.source.chars}
      {server : Device} {content : List Byte} {exec handled : Outcome}
      {final : TransferSide Transfer.blockCuts ×
        TransferSide Transfer.blockCuts} :
      server.files transfer.source.chars = some content →
      Reaches deviceHost (transfer.fetching server content).upload final →
      final.1.program = .ret handled → final.2.program = .ret exec →
      Visited server (.get transfer plain) final.2.host
        (final.1.host.files transfer.dest.chars)

/-- Sessions one after the other. -/
inductive VisitedAll : Device → List Visit → Device →
    List (Option (List Byte)) → Prop
  | nil {server : Device} : VisitedAll server [] server []
  | cons {server middle after : Device} {visit : Visit} {visits : List Visit}
      {fetched : Option (List Byte)} {more : List (Option (List Byte))} :
      Visited server visit middle fetched →
      VisitedAll middle visits after more →
      VisitedAll server (visit :: visits) after (fetched :: more)

theorem withFile_files {server : Device} {path content : List Byte}
    (holds : server.files path = some content) :
    (server.withFile path content).files = server.files := by
  rw [Device.withFile, ← holds]
  exact Function.update_eq_self _ _

theorem visited_put (transfer : Transfer)
    (plain : PlainName transfer.dest.chars) (server : Device) :
    (∃ after, Visited server (.put transfer plain) after none) ∧
      ∀ after fetched, Visited server (.put transfer plain) after fetched →
        fetched = none ∧ after.files = Function.update server.files
          transfer.dest.chars (some transfer.content) := by
  let here := transfer.atServer server
  have complete : codeSize ≤ here.clientCuts.size 0 :=
    (by decide : codeSize ≤ msgBufferSize)
  have full : FullBlocks here.content.length here.serverCuts.size :=
    ⟨fun _ _ => le_rfl, fun _ => (Nat.mod_lt _ (by decide)).le⟩
  constructor
  · obtain ⟨exec, handled, final, returned, finished, _, reaches⟩ :=
      here.download_ends complete full
    exact ⟨_, .put reaches returned finished⟩
  · intro after fetched visited
    cases visited with
    | put reaches returned finished =>
        exact ⟨rfl, here.download_sets complete full _ reaches _ returned⟩

theorem visited_get (transfer : Transfer)
    (plain : PlainName transfer.source.chars) {server : Device}
    {content : List Byte}
    (holds : server.files transfer.source.chars = some content)
    (remainder : content.length % msgBufferSize ≠ 0) :
    (∃ after, Visited server (.get transfer plain) after (some content)) ∧
      ∀ after fetched, Visited server (.get transfer plain) after fetched →
        fetched = some content ∧ after.files = server.files := by
  let here := transfer.fetching server content
  obtain ⟨handled, exec, final, returned, finished, stored, reaches⟩ :=
    here.upload_ends remainder
  have fetches : final.1.host.files transfer.dest.chars = some content := stored
  constructor
  · have visited :=
      @Visited.get transfer plain _ _ _ _ _ holds reaches returned finished
    rw [fetches] at visited
    exact ⟨_, visited⟩
  · intro after fetched visited
    cases visited with
    | get holds' reaches' returned' finished' =>
        rw [holds, Option.some.injEq] at holds'
        subst holds'
        obtain ⟨_, client⟩ := finished_unique reaches reaches' returned returned'
        have kept := here.upload_keeps _ reaches'.swap _ finished'
        rw [client]
        exact ⟨fetches, kept.trans (withFile_files holds)⟩

theorem visited_refines {server : Device} {visit : Visit}
    (serves : FileStore.Serves server.files visit) :
    (∃ after, Visited server visit after
        (FileStore.visit server.files visit).1) ∧
      ∀ after fetched, Visited server visit after fetched →
        fetched = (FileStore.visit server.files visit).1 ∧
          after.files = (FileStore.visit server.files visit).2 := by
  cases visit with
  | put transfer plain => exact visited_put transfer plain server
  | get transfer plain =>
      obtain ⟨content, holds, remainder⟩ := serves
      have visited := visited_get transfer plain holds remainder
      rw [← holds] at visited
      exact visited

theorem visitedAll_refines {visits : List Visit} :
    ∀ {server : Device}, FileStore.ServesAll server.files visits →
      (∃ after, VisitedAll server visits after
          (runSpec FileStore.visit server.files visits).1) ∧
        ∀ after fetched, VisitedAll server visits after fetched →
          (fetched, after.files) =
            runSpec FileStore.visit server.files visits := by
  induction visits with
  | nil =>
      intro server _
      refine ⟨⟨server, .nil⟩, fun after fetched visited => ?_⟩
      cases visited
      rfl
  | cons visit visits inductionHypothesis =>
      intro server serves
      obtain ⟨⟨middle, visited⟩, unique⟩ := visited_refines serves.1
      have left := (unique middle _ visited).2
      constructor
      · have later := serves.2
        rw [← left] at later
        obtain ⟨⟨after, more⟩, _⟩ := inductionHypothesis later
        rw [left] at more
        exact ⟨after, .cons visited more⟩
      · intro after fetched all
        cases all with
        | cons first rest =>
            obtain ⟨same, files⟩ := unique _ _ first
            have later := serves.2
            rw [← files] at later
            have ends := (inductionHypothesis later).2 _ _ rest
            rw [files, Prod.mk.injEq] at ends
            rw [runSpec, same, ends.1, ends.2]

/-- A client brings `b` with one byte, and another one fetches it. -/
def broughtAndFetched : List Visit :=
  let brings := sampleTransfer (bytes "x") Transfer.blockCuts
  [.put brings (by decide),
    .get { brings with source := brings.dest } (by decide)]

namespace FileStore

/-- Sessions that bring no file of this name. -/
def Spares (path : List Byte) (visits : List Visit) : Prop :=
  ∀ transfer plain, Visit.put transfer plain ∈ visits →
    transfer.dest.chars ≠ path

theorem run_spared {path : List Byte} {visits : List Visit}
    (spares : Spares path visits) (store : FileStore) :
    (runSpec visit store visits).2 path = store path := by
  induction visits generalizing store with
  | nil => rfl
  | cons first visits inductionHypothesis =>
      have later : Spares path visits := fun transfer plain member =>
        spares transfer plain (List.mem_cons_of_mem _ member)
      refine (inductionHypothesis later _).trans ?_
      cases first with
      | put transfer plain =>
          have different := spares transfer plain List.mem_cons_self
          exact Function.update_of_ne different.symm _ _
      | get transfer => rfl

theorem servesAll_append {first second : List Visit} {store : FileStore}
    (serves : ServesAll store first)
    (later : ServesAll (runSpec visit store first).2 second) :
    ServesAll store (first ++ second) := by
  induction first generalizing store with
  | nil => exact later
  | cons visit first inductionHypothesis =>
      exact ⟨serves.1, inductionHypothesis serves.2 later⟩

end FileStore

end RemoteCommand
