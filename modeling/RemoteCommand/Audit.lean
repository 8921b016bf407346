import RemoteCommand.SharedLog
import RemoteCommand.WorkerLife
import RemoteCommand.Interaction.Monitor

/-!
# Requests and their messages in the log

A monitor that follows a worker from connection to connection and counts the
requests that it has executed, those whose message `fwrite` has taken, those of
whose message it has taken less, and those for which `log_request` failed.  It
accepts a message only if it is made of the address and the port of the
connection that is served, of the token found in its request and of the number
of the thread, behind the execution of the request and once; and it accepts that
the worker is done with an executed request that has no message only if a call of
`log_request` failed.

`log_request` looks at the answer of neither `fwrite` nor `fclose`, so that it
returns `OK` also when a part of the message is lost.
-/

namespace RemoteCommand

open Interaction Machine Prog

/-- What a worker notes of the other side. -/
structure Client where
  ip : List Byte
  port : Int
  deriving DecidableEq, Repr

inductive AuditStage where
  | waiting
  | accepted (port : Int)
  | known (client : Client)
  | executing (client : Client)
  | executed (client : Client)
  /-- the reply is sent, and `strtok` has found the tag -/
  | answered (client : Client) (tag : Option (List Byte))
  /-- in `log_request`, where a call may have failed -/
  | logging (request : LogRequest) (timestamp : Option (List Byte))
      (failed : Bool)
  /-- behind the `fwrite` of the message -/
  | written
  deriving DecidableEq, Repr

/-- The requests that are executed and not dealt with by `log_request`. -/
def AuditStage.pending : AuditStage → Nat
  | executing _ | executed _ | answered _ _ | logging _ _ _ => 1
  | waiting | accepted _ | known _ | written => 0

structure Audit where
  stage : AuditStage
  executed : Nat
  /-- `fwrite` took the whole message -/
  logged : Nat
  /-- `fwrite` took less than the message -/
  torn : Nat
  unlogged : Nat
  deriving DecidableEq, Repr

namespace Audit

def opened : Audit where
  stage := .waiting
  executed := 0
  logged := 0
  torn := 0
  unlogged := 0

def goto (audit : Audit) (stage : AuditStage) : Audit :=
  { audit with stage }

/-- Behind the `fwrite` of a message. -/
def write (audit : Audit) (whole : Bool) : Audit :=
  if whole then { audit.goto .written with logged := audit.logged + 1 }
  else { audit.goto .written with torn := audit.torn + 1 }

@[simp]
theorem write_stage (audit : Audit) (whole : Bool) :
    (audit.write whole).stage = .written := by
  cases whole <;> rfl

/-- A call of `log_request` may have failed. -/
def note (audit : Audit) (failure : Bool) : Audit :=
  match audit.stage with
  | .logging request timestamp failed =>
      audit.goto (.logging request timestamp (failed || failure))
  | _ => audit

def step (host : Endian) (audit : Audit) : Event Sys → Option Audit
  | ⟨.dequeue, some co⟩ =>
      match audit.stage with
      | .waiting => some (audit.goto (.accepted (getPort host co)))
      | _ => none
  | ⟨.inetNtop _, text⟩ =>
      match audit.stage with
      | .accepted port =>
          some (audit.goto (.known ⟨text.getD (bytes "PARSING_ERROR"), port⟩))
      | _ => none
  | ⟨.mark (.callExecuteCommand _), _⟩ =>
      match audit.stage with
      | .known client =>
          some { audit.goto (.executing client) with
            executed := audit.executed + 1 }
      | _ => none
  | ⟨.mark (.returnExecuteCommand _), _⟩ =>
      match audit.stage with
      | .executing client => some (audit.goto (.executed client))
      | _ => none
  | ⟨.strtok (some .msg) _, tag⟩ =>
      match audit.stage with
      | .executed client => some (audit.goto (.answered client tag))
      | _ => some audit
  | ⟨.gettid, threadId⟩ =>
      match audit.stage with
      | .answered client tag =>
          some (audit.goto
            (.logging ⟨threadId, client.ip, client.port, tag⟩ none false))
      | _ => none
  | ⟨.contents .timestamp, text⟩ =>
      match audit.stage with
      | .logging request _ failed =>
          some (audit.goto (.logging request (some text) failed))
      | _ => none
  | ⟨.time, ltime⟩ => some (audit.note (decide (ltime = -1)))
  | ⟨.localtime _, tm⟩ => some (audit.note tm.isNone)
  | ⟨.asctime _, text⟩ => some (audit.note text.isNone)
  | ⟨.logFilename, filename⟩ => some (audit.note filename.isNone)
  | ⟨.mutexLock .logCs, entered⟩ => some (audit.note (decide (entered ≠ 0)))
  | ⟨.fopen _ _, file⟩ => some (audit.note file.isNone)
  | ⟨.fwrite message _, taken⟩ =>
      match audit.stage with
      | .executing _ => some audit
      | .logging request (some timestamp) false =>
          if message = request.message timestamp then
            some (audit.write (decide (taken = message.length)))
          else none
      | _ => none
  | ⟨.free _, _⟩ =>
      match audit.stage with
      | .accepted _ | .known _ | .written => some (audit.goto .waiting)
      | .logging _ _ true =>
          some { audit.goto .waiting with unlogged := audit.unlogged + 1 }
      | _ => none
  | _ => some audit

def monitor (host : Endian) : Monitor Sys Audit where
  step := step host

/-- Of every executed request `fwrite` has taken the message or a part of it, or
`log_request` failed for it, or it is the one that the worker is busy with. -/
def Balanced (audit : Audit) : Prop :=
  audit.executed =
    audit.logged + audit.torn + audit.unlogged + audit.stage.pending

variable {host : Endian} {audit : Audit} {client : Client}

theorem opened_balanced : opened.Balanced :=
  rfl

theorem pending_note (failure : Bool) :
    (audit.note failure).stage.pending = audit.stage.pending := by
  unfold note
  split
  next atStage => rw [atStage]; rfl
  next => rfl

theorem balanced_note (balanced : audit.Balanced) (failure : Bool) :
    (audit.note failure).Balanced := by
  obtain ⟨executed, logged, torn, unlogged⟩ :
      (audit.note failure).executed = audit.executed ∧
        (audit.note failure).logged = audit.logged ∧
        (audit.note failure).torn = audit.torn ∧
        (audit.note failure).unlogged = audit.unlogged := by
    unfold note
    split <;> exact ⟨rfl, rfl, rfl, rfl⟩
  rw [Balanced, pending_note, executed, logged, torn, unlogged]
  exact balanced

/-- A message that is written deals with its request. -/
theorem balanced_write (balanced : audit.Balanced)
    (pending : audit.stage.pending = 1) (whole : Bool) :
    (audit.write whole).Balanced := by
  unfold Balanced at balanced ⊢
  rw [pending] at balanced
  cases whole <;> simp [write, goto, AuditStage.pending] <;> omega

theorem step_balanced {event : Event Sys} {next : Audit}
    (balanced : audit.Balanced)
    (stepped : (monitor host).step audit event = some next) :
    next.Balanced := by
  change step host audit event = some next at stepped
  unfold Balanced at balanced
  unfold step at stepped
  split at stepped
  case h_8 | h_9 | h_10 | h_11 | h_12 | h_13 =>
    cases stepped
    exact balanced_note balanced _
  case h_16 =>
    cases stepped
    exact balanced
  case h_14 =>
    split at stepped
    case h_1 =>
      cases stepped
      exact balanced
    case h_2 atStage =>
      split at stepped <;> cases stepped
      exact balanced_write balanced (by rw [atStage]; rfl) _
    case h_3 => cases stepped
  all_goals
    repeat' split at stepped
    all_goals cases stepped
    all_goals simp_all only [Balanced, goto, AuditStage.pending]
    all_goals omega

/-! ## What a worker does -/

/-- The monitor stays where it is, whatever the call answers. -/
def Unmoved (host : Endian) (audit : Audit) (call : Call) : Prop :=
  ∀ response : call.Answer,
    (monitor host).step audit ⟨call, response⟩ = some audit

theorem unmoved_keeps {α : Type} {program : Prog Sys α}
    (within : program.Only (Unmoved host audit)) :
    program.Keeps (monitor host) audit fun _ after => after = audit := by
  refine Keeps.of_only ?_ within rfl
  rintro current call response rfl unmoved
  exact ⟨current, unmoved response, rfl⟩

theorem step_dequeue (atStage : audit.stage = .waiting) (co : Connection) :
    (monitor host).step audit ⟨.dequeue, some co⟩ =
      some (audit.goto (.accepted (getPort host co))) := by
  simp only [monitor, step, atStage]

theorem takeConnection_keeps (atStage : audit.stage = .waiting) :
    takeConnection.Keeps (monitor host) audit fun found after =>
      after.stage = match found with
        | none => .waiting
        | some co => .accepted (getPort host co) := by
  refine fun waited => ⟨audit, rfl, .ite (fun _ => atStage) fun _ => ?_⟩
  have entering : (enterCs .connectionsCs).Only (Unmoved host audit) :=
    (enterCs_only _).mono fun call lock => by rw [lock]; exact fun _ => rfl
  change ((enterCs .connectionsCs).bind _).Keeps _ _ _
  refine (unmoved_keeps entering).seq fun entered after same => ?_
  rw [same]
  refine .ite (fun _ => atStage) fun _ found => ?_
  cases found with
  | none => exact ⟨audit, rfl, atStage⟩
  | some co =>
  let taken := audit.goto (.accepted (getPort host co))
  refine ⟨taken, step_dequeue atStage co, ?_⟩
  have leaving : (leaveCs .connectionsCs).Only (Unmoved host taken) :=
    (leaveCs_only _).mono fun call lock => by rw [lock]; exact fun _ => rfl
  change ((leaveCs .connectionsCs).bind _).Keeps _ _ _
  refine (unmoved_keeps leaving).seq fun left after same => ?_
  rw [same]
  refine .ite (fun _ sent => ⟨taken, rfl, fun _ => ⟨taken, rfl, fun _ => ?_⟩⟩)
    fun _ => rfl
  exact ⟨taken.goto .waiting, rfl, rfl⟩

theorem ends_keeps {α : Type} (value : α) (co : Connection) (conn : Int)
    {post : α → Audit → Prop} {ended : Audit}
    (freed : (monitor host).step audit ⟨.free co, ()⟩ = some ended)
    (holds : post value ended) :
    (Prog.op (.free co) fun _ => .op (.close conn) fun _ => .ret value
      : Prog Sys α).Keeps (monitor host) audit post :=
  fun _ => ⟨ended, freed, fun _ => ⟨ended, rfl, holds⟩⟩

theorem receiveRequest_keeps {serverToken : BitVec 64} {co : Connection}
    (atStage : audit.stage = .accepted (getPort host co)) :
    (receiveRequest host serverToken co).Keeps (monitor host) audit
      fun request after =>
        after.stage = match request with
          | none => .waiting
          | some request => .known ⟨request.ip, request.cport⟩ := by
  intro ip
  let client : Client :=
    { ip := ip.getD (bytes "PARSING_ERROR"), port := getPort host co }
  let known := audit.goto (.known client)
  have freed : (monitor host).step known ⟨.free co, ()⟩ =
      some (known.goto .waiting) := rfl
  refine ⟨known, by simp only [monitor, step, atStage]; rfl, ?_⟩
  have authenticating :
      (authenticateClient host co.conn serverToken).Only
        (Unmoved host known) := by
    refine (authenticateClient_only host co.conn serverToken).mono ?_
    rintro call allowed response
    cases call with
    | strtok source delim =>
        rcases source with _ | _ | _ | _ | _ <;> rfl
    | recv | send | rand | fill => rfl
    | _ => exact allowed.elim
  change ((authenticateClient host co.conn serverToken).bind _).Keeps _ _ _
  refine (unmoved_keeps authenticating).seq fun auth after same => ?_
  rw [same]
  refine .ite (fun _ _ => ⟨known, rfl, fun _ => ⟨_, freed, rfl⟩⟩) ?_
  refine fun _ code => ⟨known, rfl, fun msg => ⟨known, rfl, ?_⟩⟩
  cases msg with
  | closed => exact ends_keeps none co co.conn freed rfl
  | error => exact ends_keeps none co co.conn freed rfl
  | data chars nonempty fits => exact fun _ => ⟨known, rfl, rfl⟩

theorem executeCommand_unmoved (conn : Int) (result code : List Byte)
    (atStage : audit.stage = .executing client) :
    (executeCommand conn result code).Only (Unmoved host audit) := by
  have noted (failure : Bool) : audit.note failure = audit := by
    simp only [note, atStage]
  refine (executeCommand_only conn result code).mono ?_
  rintro call (execution | rfl) response
  · cases call with
    | strtok source delim =>
        rcases source with _ | _ | _ | _ | _ <;>
          simp only [monitor, step, atStage]
    | fopen path mode => exact congrArg some (noted _)
    | fwrite chars file => simp only [monitor, step, atStage]
    | recv | send | indeterminate | fread | ferror | feof | fclose | popen
    | fgets | pclose => rfl
    | _ => exact execution.elim
  · rfl

/-! ## Logging -/

/-- A call of `log_request` has failed. -/
def Failed (audit : Audit) : Prop :=
  ∃ request timestamp, audit.stage = .logging request timestamp true

theorem note_true {request : LogRequest} {timestamp : Option (List Byte)}
    {failed : Bool} (atStage : audit.stage = .logging request timestamp failed) :
    (audit.note true).Failed :=
  ⟨request, timestamp, by simp [note, atStage, goto]⟩

theorem note_false (audit : Audit) : audit.note false = audit := by
  unfold note
  split
  next request timestamp failed atStage =>
    rw [Bool.or_false, ← atStage]
    rfl
  next => rfl

/-- A check behind a call of `log_request`. -/
theorem check_keeps {failure : Prop} [Decidable failure] {ret : Int}
    {next : Prog Sys Int} {post : Int → Audit → Prop}
    (fails : post ret (audit.note true))
    (goesOn : next.Keeps (monitor host) audit post) :
    (if failure then .ret ret else next).Keeps (monitor host)
      (audit.note (decide failure)) post := by
  by_cases failed : failure
  · rw [if_pos failed, decide_eq_true failed]
    exact fails
  · rw [if_neg failed, decide_eq_false failed, note_false]
    exact goesOn

theorem getTime_keeps {request : LogRequest}
    (atStage : audit.stage = .logging request none false) :
    getTime.Keeps (monitor host) audit fun time after =>
      if time = ok then after = audit else after.Failed := by
  have failed : (audit.note true).Failed := note_true atStage
  refine fun ltime => ⟨_, rfl, check_keeps failed fun tm => ⟨_, rfl, ?_⟩⟩
  cases tm with
  | none => exact failed
  | some tm =>
  rw [Option.isNone_some, note_false]
  refine fun text => ⟨_, rfl, ?_⟩
  cases text with
  | none => exact failed
  | some text =>
  rw [Option.isNone_some, note_false]
  exact fun _ => ⟨audit, rfl, fun _ => ⟨audit, rfl, rfl⟩⟩

theorem enterCs_keeps (failed : (audit.note true).Failed) :
    (enterCs .logCs).Keeps (monitor host) audit fun entered after =>
      if entered = ok then after = audit else after.Failed :=
  fun _ => ⟨_, rfl, check_keeps failed rfl⟩

theorem writeLog_keeps {request : LogRequest} {timestamp : List Byte}
    (atStage : audit.stage = .logging request (some timestamp) false) :
    (writeLog (request.message timestamp)).Keeps (monitor host) audit
      fun _ after => after.stage = .written ∨ after.Failed := by
  have failed : (audit.note true).Failed := note_true atStage
  refine fun filename => ⟨_, rfl, ?_⟩
  cases filename with
  | none => exact .inr failed
  | some filename =>
  rw [Option.isNone_some, note_false]
  change ((enterCs .logCs).bind _).Keeps _ _ _
  refine (enterCs_keeps failed).seq fun entered after locks => ?_
  split_ifs at locks with entered'
  · rw [locks]
    refine .ite (fun refused => absurd entered' refused) fun _ file => ?_
    refine ⟨_, rfl, ?_⟩
    cases file with
    | none => exact .inr failed
    | some file =>
    rw [Option.isNone_some, note_false]
    intro taken
    let behind := audit.write
      (decide (taken = (request.message timestamp).length))
    have written : (monitor host).step audit
        ⟨.fwrite (request.message timestamp) file, taken⟩ = some behind := by
      simp only [monitor, step, atStage, if_true, behind]
    have leaving : (leaveCs .logCs).Only (Unmoved host behind) :=
      (leaveCs_only _).mono fun call lock => by rw [lock]; exact fun _ => rfl
    refine ⟨behind, written, fun _ => ⟨behind, rfl, ?_⟩⟩
    change ((leaveCs .logCs).bind _).Keeps _ _ _
    refine (unmoved_keeps leaving).seq fun left after same => ?_
    rw [same]
    exact .inl (write_stage _ _)
  · exact .ite (fun _ => .inr locks) fun refused =>
      absurd (not_not.1 refused) entered'

theorem logRequest_keeps {request : LogRequest}
    (atStage : audit.stage = .logging request none false) :
    (logRequest request.threadId request.ip request.port request.tag).Keeps
      (monitor host) audit fun _ after =>
        after.stage = .written ∨ after.Failed := by
  rw [logRequest_eq]
  refine (getTime_keeps atStage).seq fun time after timed => ?_
  split_ifs at timed with succeeds
  · rw [timed]
    refine .ite (fun fails => absurd succeeds fails) fun _ timestamp => ?_
    let stamped := audit.goto (.logging request (some timestamp) false)
    refine ⟨stamped, by simp only [monitor, step, atStage]; rfl, ?_⟩
    exact writeLog_keeps rfl
  · exact .ite (fun _ => .inr timed) fun fails =>
      absurd (not_not.1 fails) succeeds

/-! ## The reply -/

theorem reply_keeps (co : Connection) (request : Request) (exec : Outcome)
    (atStage : audit.stage = .executed ⟨request.ip, request.cport⟩) :
    (reply co request exec).Keeps (monitor host) audit fun next after =>
      match next with
      | .again => after.stage = .waiting
      | .leave => ∃ client, after.stage = .executed client := by
  have sending : (sendReply request.conn exec).Only (Unmoved host audit) :=
    ⟨fun _ => rfl, fun _ => .ite trivial
      ⟨fun _ => rfl, fun _ => .ite trivial trivial⟩⟩
  refine (unmoved_keeps sending).seq fun sent after same => ?_
  rw [same]
  cases sent with
  | false => exact ⟨_, atStage⟩
  | true =>
  let client : Client := ⟨request.ip, request.cport⟩
  refine fun tag => ⟨audit.goto (.answered client tag), ?_, fun threadId => ?_⟩
  · simp only [monitor, step, atStage]
    rfl
  let logRequest : LogRequest :=
    { threadId, ip := request.ip, port := request.cport, tag }
  refine ⟨audit.goto (.logging logRequest none false), rfl, ?_⟩
  change ((RemoteCommand.logRequest _ _ _ _).bind _).Keeps _ _ _
  refine (@logRequest_keeps host _ logRequest rfl).seq fun _ after done => ?_
  rcases done with written | ⟨_, _, failed⟩
  · refine @ends_keeps host after _ _ co request.conn _ (after.goto .waiting) ?_ rfl
    simp only [monitor, step, written]
  · refine @ends_keeps host after _ _ co request.conn _
      { after.goto .waiting with unlogged := after.unlogged + 1 } ?_ rfl
    simp only [monitor, step, failed]

theorem threadIteration_keeps (serverToken : BitVec 64)
    (atStage : audit.stage = .waiting) :
    (threadIteration host serverToken).Keeps (monitor host) audit
      fun next after =>
        match next with
        | .again => after.stage = .waiting
        | .leave => ∃ client, after.stage = .executed client := by
  refine (takeConnection_keeps atStage).seq fun found taken atTaken => ?_
  cases found with
  | none => exact atTaken
  | some co =>
  refine (receiveRequest_keeps atTaken).seq fun request known atKnown => ?_
  cases request with
  | none => exact atKnown
  | some request =>
  let client : Client := ⟨request.ip, request.cport⟩
  let executing : Audit :=
    { known.goto (.executing client) with executed := known.executed + 1 }
  refine fun _ => ⟨executing, ?_, ?_⟩
  · simp only [monitor, step, atKnown]
    rfl
  change ((executeCommand request.conn [] request.code).bind _).Keeps _ _ _
  have unmoved := @executeCommand_unmoved host executing client request.conn []
    request.code rfl
  refine (unmoved_keeps unmoved).seq fun exec after same => ?_
  rw [same]
  exact fun _ => ⟨executing.goto (.executed client), rfl,
    reply_keeps co request exec rfl⟩

theorem threadExec_keeps (serverToken : BitVec 64) :
    (threadExec host serverToken).Keeps (monitor host) opened fun _ after =>
      ∃ client, after.stage = .executed client := by
  refine Keeps.iterate (fun _ audit => audit.stage = .waiting) rfl ?_
  intro _ audit atStage
  refine (threadIteration_keeps serverToken atStage).seq fun next after holds => ?_
  cases next <;> exact holds

end Audit

open Audit in
/-- The log of a worker, in every run, whatever the clients and the calls do.
Every executed request has its message taken by `fwrite` once, with the address
and the port of its own client and the token of its own `msg`; or `fwrite` took
less than the message; or a call of `log_request` failed for it; or it is the
one that the worker is busy with.  A thread that ends leaves its last request
without a message. -/
theorem worker_audited {host : Endian} {serverToken : BitVec 64}
    {trace : List (Event Sys)} {outcome : Option Unit}
    (run : Runs unconstrained (threadExec host serverToken) () trace
      outcome ()) :
    ∃ audit, (monitor host).run opened trace = some audit ∧
      audit.executed =
        audit.logged + audit.torn + audit.unlogged + audit.stage.pending ∧
      (outcome = some () → ∃ client, audit.stage = .executed client) := by
  obtain ⟨audit, accepted, ends⟩ := (threadExec_keeps serverToken).accepts run
  have balanced : audit.Balanced :=
    (monitor host).run_invariant step_balanced trace opened_balanced accepted
  exact ⟨audit, accepted, balanced, ends ()⟩

open Audit in
/-- One request is logged, and the thread ends behind the next one. -/
theorem worker_audited_servedClient :
    ∃ audit, (monitor .little).run opened (servedClient ++ vanishingClient) =
        some audit ∧ audit.logged = 1 ∧
      audit.executed = audit.logged + audit.torn + audit.unlogged + 1 := by
  have run : Runs unconstrained (threadExec .little 5) ()
      (servedClient ++ vanishingClient) (some ()) () :=
    .ofReplayUnconstrained 120 (by decide)
  obtain ⟨audit, accepted, balanced, ends⟩ := worker_audited run
  obtain ⟨client, atStage⟩ := ends rfl
  rw [atStage] at balanced
  have logged : ((monitor .little).run opened
      (servedClient ++ vanishingClient)).map Audit.logged = some 1 := rfl
  rw [accepted] at logged
  exact ⟨audit, accepted, Option.some.inj logged, balanced⟩

end RemoteCommand
