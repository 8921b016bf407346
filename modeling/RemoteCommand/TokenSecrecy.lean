import RemoteCommand.AuthenticationSession

/-!
# What an eavesdropper learns

The challenge hides the token of the server in the number on the wire.  The two
numbers of the AUTH message hide it as well, but under the same client token and
the same challenge, which cancel out: their exclusive or is the token.
-/

namespace RemoteCommand

open Interaction Machine Prog

/-! ## Transcripts -/

/-- What goes over the wire apart from the codes and `HELO`: the bytes of the
number that the server sends, and the AUTH message. -/
structure Transcript where
  challenge : List Byte
  message : List Byte

/-- A successful run of `authenticate_client` with this challenge, in which the
server sends its part of the transcript and receives the other part. -/
def ServerProduces (host : Endian) (conn : Int)
    (serverToken challenge : BitVec 64) (transcript : Transcript) : Prop :=
  ∃ memory trace after,
    Runs anyOutcome (authenticateClient host conn serverToken) memory trace
      (some ok) after ∧
    drawn (randoms trace) = challenge ∧
    sent conn trace = [bytes "300", transcript.challenge, bytes "200"] ∧
    received conn trace = [some (bytes "HELO"), some transcript.message]

/-- A successful run of `authenticate_server` in which the client sends its part
of the transcript and receives the other part, however it is cut. -/
def ClientProduces (host : Endian) (conn : Int)
    (serverToken clientToken : BitVec 64) (transcript : Transcript) : Prop :=
  ∃ memory trace after, ∃ chunks : List (List Byte),
    Runs anyOutcome (authenticateServer host conn serverToken clientToken)
      memory trace (some ok) after ∧
    sent conn trace = [bytes "HELO", transcript.message] ∧
    received conn trace = chunks.map some ∧
    chunks.flatten = bytes "300" ++ transcript.challenge ++ bytes "200"

/-- Some successful handshake of a server and a client with this server token,
for some challenge and some client token, has exactly this transcript. -/
def Produces (serverToken : BitVec 64) (transcript : Transcript) : Prop :=
  ∃ serverHost clientHost serverConn clientConn challenge clientToken,
    ServerProduces serverHost serverConn serverToken challenge transcript ∧
      ClientProduces clientHost clientConn serverToken clientToken transcript

/-! ## The message of the client -/

theorem Call.sends_nothing {conn : Int} {trace : List (Event Sys)}
    (nothing : ∀ event ∈ trace, ∀ other data, event.1 ≠ .send other data) :
    sent conn trace = [] := by
  refine entries_eq_nil _ ?_
  rintro ⟨call, response⟩ member
  cases call with
  | send other data => exact absurd rfl (nothing _ member other data)
  | _ => rfl

theorem recvLong_only (host : Endian) (conn : Int) :
    (recvLong host conn).Only fun call : Call =>
      ∀ other data, call ≠ .send other data := by
  refine ⟨nofun, fun stale => ⟨?_, fun nVal => trivial⟩⟩
  rintro ⟨recvBytes, nVal⟩
  refine .ite ⟨nofun, fun response => ?_⟩ trivial
  cases response <;> trivial

/-- The client that returns `OK` has sent two numbers whose exclusive or is the
token of the server. -/
theorem authenticateServer_ensures (host : Endian) (conn : Int)
    (serverToken clientToken : BitVec 64) (memory : Strtok Buffer) :
    Ensures anyOutcome (authenticateServer host conn serverToken clientToken)
      memory fun trace ret _ => ret = ok →
        ∃ enc1 enc2, sent conn trace = [bytes "HELO", authMessage enc1 enc2] ∧
          enc1 ^^^ enc2 = serverToken := by
  have failing {ret : Int} (negative : ret ≠ ok) {state : Strtok Buffer}
      {post : List (Event Sys) → Prop} :
      Ensures anyOutcome (.ret ret) state fun trace ret _ =>
        ret = ok → post trace :=
    (ensures_ret _).2 fun same => absurd same negative
  unfold authenticateServer
  simp only [bind_eq, op_bind, ret_bind, pure_eq]
  refine (ensures_op _ _).2 fun greeted _ _ => (ensures_ite _ _ _).2
    ⟨fun _ => failing (by decide), fun _ => ?_⟩
  refine (ensures_op _ _).2 fun code _ _ => ?_
  rcases code with ⟨code, _, _⟩ | _ | _
  rotate_left
  · exact failing (by decide)
  · exact failing (by decide)
  refine (ensures_ite _ _ _).2 ⟨fun _ => failing (by decide), fun _ => ?_⟩
  refine Ensures.only_bind (recvLong_only host conn) ?_
  rintro receiving ⟨ret, xor⟩ middle silent
  refine (ensures_ite _ _ _).2 ⟨fun _ => failing (by decide), fun _ => ?_⟩
  refine (ensures_op _ _).2 fun sent _ _ => (ensures_ite _ _ _).2
    ⟨fun _ => failing (by decide), fun _ => ?_⟩
  refine (ensures_op _ _).2 fun result _ _ => ?_
  rcases result with ⟨result, _, _⟩ | _ | _
  rotate_left
  · exact failing (by decide)
  · exact failing (by decide)
  refine (ensures_ite _ _ _).2 ⟨fun _ => (ensures_ret _).2 fun _ => ?_,
    fun _ => failing (by decide)⟩
  refine ⟨xor ^^^ clientToken, xor ^^^ serverToken ^^^ clientToken, ?_, ?_⟩
  · simp [sentBy, Call.sends_nothing silent, authMessage]
  · have cancelled := enc_xor xor serverToken clientToken 0
    simpa using cancelled

/-! ## The tokens of a transcript -/

/-- The transcript of a server that draws `challenge` and a client. -/
def transcriptOf (serverToken challenge clientToken : BitVec 64) :
    Transcript where
  challenge := bigEndian (serverToken ^^^ challenge)
  message := authMessage (serverToken ^^^ challenge ^^^ clientToken)
    (challenge ^^^ clientToken)

/-- The run of `recv_long` in which all bytes arrive at once. -/
theorem recvLong_runs (host : Endian) (conn : Int) (value : BitVec 64)
    (memory : Strtok Buffer) :
    ∃ trace, Runs anyOutcome (recvLong host conn) memory trace
        (some (0, value)) memory ∧
      sent conn trace = [] ∧
        received conn trace = [some (bigEndian value)] := by
  have nonempty : bigEndian value ≠ [] :=
    List.ne_nil_of_length_pos (by rw [bigEndian_length]; decide)
  refine ⟨[⟨.indeterminate, ([] : List Byte)⟩, ⟨.recv conn 0 8,
    .data (bigEndian value) nonempty (by rw [bigEndian_length])⟩], ?_, ?_, ?_⟩
  · unfold recvLong recvLongLoop
    simp only [bind_eq, op_bind, ret_bind, pure_eq, iterate_bind]
    refine .op rfl (.loop ?_)
    unfold unroll
    dsimp only
    rw [if_pos (by decide)]
    refine .op rfl (.loop ?_)
    simp only [unroll, bigEndian_length]
    rw [if_neg (by decide), ret_bind, Sum.elim_inr, nlltoh_bigEndian]
    exact .ret _ _
  · simp [sentBy]
  · simp [receivedBy]

/-- Every token, challenge and client token have their handshake. -/
theorem produces_transcriptOf (serverToken challenge clientToken : BitVec 64) :
    Produces serverToken (transcriptOf serverToken challenge clientToken) := by
  let memory : Strtok Buffer := { buffer := fun _ => [], save := none }
  let xor := serverToken ^^^ challenge
  have second : xor ^^^ serverToken ^^^ clientToken =
      challenge ^^^ clientToken := by
    rw [show xor = challenge ^^^ serverToken from BitVec.xor_comm _ _,
      BitVec.xor_assoc challenge, BitVec.xor_self, BitVec.xor_zero]
  have accepts : Accepts serverToken
      (transcriptOf serverToken challenge clientToken).message := by
    obtain ⟨field1, field2, fields, number1, number2⟩ :=
      authFields_authMessage (xor ^^^ clientToken) (challenge ^^^ clientToken)
    refine ⟨field1, field2, fields, ?_⟩
    rw [number1, number2, ← second]
    simpa using enc_xor xor serverToken clientToken 0
  refine ⟨.little, .little, 7, 3, challenge, clientToken, ?server, ?client⟩
  case server =>
    exact ⟨memory, authenticateClient_accepts .little 7 accepts
      (authMessage_length_le _ _) challenge memory⟩
  case client =>
    obtain ⟨receiving, run, silent, results⟩ :=
      recvLong_runs .little 3 xor memory
    refine ⟨memory, ⟨.send 3 (bytes "HELO"), (4 : Int)⟩ ::
      ⟨.recv 3 0 codeSize, .data (bytes "300") (by decide) (by decide)⟩ ::
      (receiving ++
        [⟨.send 3 (transcriptOf serverToken challenge clientToken).message,
            (0 : Int)⟩,
          ⟨.recv 3 0 codeSize,
            .data (bytes "200") (by decide) (by decide)⟩]), memory,
      [bytes "300", bigEndian xor, bytes "200"], ?_, ?_, ?_, ?_⟩
    · unfold authenticateServer
      simp only [bind_eq, op_bind, ret_bind, pure_eq]
      refine .op rfl ?_
      rw [if_neg (by decide)]
      refine .op rfl ?_
      dsimp only
      rw [if_neg (by decide)]
      refine run.bind ?_
      dsimp only
      rw [if_neg (by decide), second]
      refine .op rfl ?_
      rw [if_neg (by decide)]
      refine .op rfl ?_
      dsimp only
      rw [if_pos (by decide)]
      exact .ret _ _
    · simp [sentBy, silent]
    · simp [receivedBy, results]
    · simp [transcriptOf, xor]

/-- The numbers of the message tell the token. -/
theorem authMessage_token {enc1 enc2 enc1' enc2' : BitVec 64}
    (same : authMessage enc1 enc2 = authMessage enc1' enc2') :
    enc1 ^^^ enc2 = enc1' ^^^ enc2' := by
  obtain ⟨field1, field2, fields, rfl, rfl⟩ := authFields_authMessage enc1 enc2
  obtain ⟨field1', field2', fields', rfl, rfl⟩ :=
    authFields_authMessage enc1' enc2'
  rw [same, fields'] at fields
  cases fields
  rfl

theorem Produces.enc {serverToken : BitVec 64} {transcript : Transcript}
    (produced : Produces serverToken transcript) :
    ∃ enc1 enc2, transcript.message = authMessage enc1 enc2 ∧
      enc1 ^^^ enc2 = serverToken := by
  obtain ⟨_, _, _, _, _, _, _, memory, trace, after, _, run, sent, _⟩ := produced
  obtain ⟨enc1, enc2, message, token⟩ :=
    authenticateServer_ensures _ _ _ _ _ _ _ _ run rfl
  rw [sent] at message
  simp only [List.cons.injEq, and_true, true_and] at message
  exact ⟨enc1, enc2, message, token⟩

/-- Exactly one server token has a successful handshake with a given
transcript. -/
theorem transcript_determines_token {serverToken : BitVec 64}
    {transcript : Transcript} (produced : Produces serverToken transcript) :
    ∃! token, Produces token transcript := by
  refine ⟨serverToken, produced, fun token other => ?_⟩
  obtain ⟨enc1, enc2, message, rfl⟩ := produced.enc
  obtain ⟨enc1', enc2', message', rfl⟩ := other.enc
  exact authMessage_token (message'.symm.trans message)

theorem transcript_determines_token_sample :
    ∃! token, Produces token (transcriptOf 5 9 1234) :=
  transcript_determines_token (produces_transcriptOf 5 9 1234)

/-- No other token than 5 has the transcript of a session with the token 5. -/
theorem transcript_tells_token :
    ¬ ∀ transcript, (∃ serverToken, Produces serverToken transcript) →
      ∃ token₁ token₂, token₁ ≠ token₂ ∧ Produces token₁ transcript ∧
        Produces token₂ transcript := by
  intro secret
  obtain ⟨token₁, token₂, different, first, second⟩ :=
    secret (transcriptOf 5 9 1234) ⟨5, produces_transcriptOf 5 9 1234⟩
  obtain ⟨enc1, enc2, message, rfl⟩ := first.enc
  obtain ⟨enc1', enc2', message', rfl⟩ := second.enc
  exact different (authMessage_token (message.symm.trans message'))

end RemoteCommand
