import RemoteCommand.AuthenticationGate
import RemoteCommand.Device

/-!
# The two sides of the authentication

`authenticate_client` and `authenticate_server` run against each other over a
connection on which every message arrives whole.  Whatever the tokens, the
challenge, the byte orders and the schedule, both end, and they agree.
-/

namespace RemoteCommand

open Interaction Machine Prog Transition

/-! ## The AUTH message -/

/-- What `authenticate_server` sends. -/
def authMessage (enc1 enc2 : BitVec 64) : List Byte :=
  bytes "AUTH " ++ decimal enc1.toNat ++ bytes " " ++ decimal enc2.toNat

theorem authMessage_eq (enc1 enc2 : BitVec 64) :
    authMessage enc1 enc2 =
      bytes "AUTH" ++ 32 :: (decimal enc1.toNat ++ 32 :: decimal enc2.toNat) := by
  simp [authMessage, bytes]

theorem authMessage_length_le (enc1 enc2 : BitVec 64) :
    (authMessage enc1 enc2).length ≤ msgBufferSize := by
  have short (value : BitVec 64) : (decimal value.toNat).length ≤ 20 :=
    decimal_length_le (by decide) (by omega)
  have first := short enc1
  have second := short enc2
  have tag : (bytes "AUTH").length = 4 := rfl
  rw [authMessage_eq]
  simp only [List.length_append, List.length_cons, tag, msgBufferSize]
  omega

theorem authMessage_ne_nil (enc1 enc2 : BitVec 64) :
    authMessage enc1 enc2 ≠ [] := by
  simp [authMessage, bytes]

/-- `strtok` finds the three fields of the message. -/
theorem authMessage_fields (enc1 enc2 : BitVec 64) (memory : Strtok Buffer) :
    ∃ memory₁ memory₂ memory₃,
      (memory.load .response (authMessage enc1 enc2)).strtok (some .response)
          (bytes " ") = (some (bytes "AUTH"), memory₁) ∧
        memory₁.strtok none (bytes " ") =
          (some (decimal enc1.toNat), memory₂) ∧
        memory₂.strtok none (bytes "\x00") =
          (some (decimal enc2.toNat), memory₃) := by
  rw [authMessage_eq]
  exact memory.strtok_words .response
    ⟨bytes "AUTH", by decide, by decide⟩ (decimalWord enc1.toNat)
      (decimalWord enc2.toNat) (by decide)

/-! ## The server -/

section Steps

variable {α : Type} {device : Device} {closed : Bool} {sent : List (List Byte)}

/-- A message that fits is received as a whole. -/
theorem advances_recv {conn offset : Int} {length : Nat}
    {next : Received length → Prog Sys α} {message : List Byte}
    {messages : List (List Byte)}
    {final : Endpoint Sys Device (whole Byte) α} (nonempty : message ≠ [])
    (fits : message.length ≤ length)
    (rest : Advances deviceHost
      ⟨next (.data message nonempty fits), device, messages, closed⟩ sent
        final) :
    Advances deviceHost
      (⟨.op (.recv conn offset length) next, device, message :: messages,
        closed⟩ : Endpoint Sys Device (whole Byte) α) sent final := by
  apply Advances.receive rfl (whole_ready fits messages)
  rw [Received.of_some nonempty fits]
  exact rest

theorem advances_longRandLoop {D : Delivery Byte} {inbox : D.Stream}
    {final : Endpoint Sys Device D α} {next : BitVec 64 → Prog Sys α}
    (turns : Nat) (random : BitVec 64)
    (rest : Advances deviceHost
      ⟨next (((List.range turns).map device.rands).foldl addRandom random),
        { device with rands := fun index => device.rands (index + turns) },
        inbox, closed⟩ sent final) :
    Advances deviceHost
      ⟨(longRandLoop turns random).bind next, device, inbox, closed⟩ sent
        final := by
  induction turns generalizing random device with
  | zero => exact rest
  | succ turns inductionHypothesis =>
      refine advances_call rfl rfl ?_
      apply inductionHypothesis (addRandom random (device.rands 0))
      rw [List.range_succ_eq_map, List.map_cons, List.map_map] at rest
      simpa only [Nat.add_assoc, Function.comp_def, Nat.succ_eq_add_one,
        List.foldl_cons] using rest

end Steps

/-- The challenge that the device draws next. -/
def Device.challenge (device : Device) : BitVec 64 :=
  drawn ((List.range 8).map device.rands)

/-- The last answer of the server, and what it returns. -/
theorem advances_verdict (conn : Int) (matching : Prop) [Decidable matching]
    (device : Device) :
    ∃ done : Endpoint Sys Device (whole Byte) Int,
      Advances deviceHost
        ⟨if matching then
            .op (.send conn (bytes "200")) fun sent =>
              if sent < 0 then .ret connErr else .ret ok
          else
            .op (.send conn (bytes "400")) fun sent =>
              if sent < 0 then .ret connErr else .ret authFail,
          device, [], false⟩
        [if matching then bytes "200" else bytes "400"] done ∧
      done.program = .ret (if matching then ok else authFail) := by
  by_cases same : matching
  · rw [if_pos same, if_pos same, if_pos same]
    refine ⟨⟨.ret ok, device, [], false⟩, ?_, rfl⟩
    apply advances_send
    exact .refl _
  · rw [if_neg same, if_neg same, if_neg same]
    refine ⟨⟨.ret authFail, device, [], false⟩, ?_, rfl⟩
    apply advances_send
    exact .refl _

theorem authenticateClient_advances (host : Endian) (conn : Int)
    (serverToken : BitVec 64) (device : Device) :
    ∃ waiting : Endpoint Sys Device (whole Byte) Int,
      Advances deviceHost
        ⟨authenticateClient host conn serverToken, device, [bytes "HELO"],
          false⟩
        [bytes "300", bigEndian (serverToken ^^^ device.challenge)] waiting ∧
      ∀ enc1 enc2, ∃ done,
        Advances deviceHost (waiting.deliver (some (authMessage enc1 enc2)))
          [if enc1 ^^^ enc2 = serverToken then bytes "200" else bytes "400"]
          done ∧
        done.program =
          .ret (if enc1 ^^^ enc2 = serverToken then ok else authFail) := by
  unfold authenticateClient longRand sendLong
  simp only [bind_eq, op_bind, ret_bind, pure_eq]
  refine ⟨?waiting, ?challenging, ?deciding⟩
  case challenging =>
    apply advances_recv (by decide) (by decide)
    dsimp only
    rw [if_neg (by decide)]
    apply advances_send
    apply advances_longRandLoop
    rw [memoryOf_htonll]
    simp only [ite_bind, ret_bind]
    apply advances_send
    rw [if_neg (by decide)]
    exact .refl _
  case deciding =>
    intro enc1 enc2
    obtain ⟨memory₁, memory₂, memory₃, first, second, third⟩ :=
      authMessage_fields enc1 enc2 device.memory
    obtain ⟨done, answering, returned⟩ := advances_verdict conn
      (enc1 ^^^ enc2 = serverToken)
      { device with
        memory := memory₃
        rands := fun index => device.rands (index + 8) }
    refine ⟨done, ?_, returned⟩
    dsimp only [Endpoint.deliver]
    rw [whole_push (authMessage_ne_nil enc1 enc2), List.nil_append]
    apply advances_recv (authMessage_ne_nil enc1 enc2)
      (authMessage_length_le enc1 enc2)
    dsimp only
    refine advances_call rfl rfl ?_
    refine advances_call rfl (Device.answer_strtok first) ?_
    dsimp only
    refine advances_call rfl (Device.answer_strtok second) ?_
    dsimp only
    refine advances_call rfl (Device.answer_strtok third) ?_
    dsimp only
    rw [if_neg (by decide), strtoull_decimal, strtoull_decimal]
    simp only [challenge_matches_iff]
    exact answering

/-! ## The client -/

theorem advances_recvLong {α : Type} {device : Device} {closed : Bool}
    {sent : List (List Byte)} {final : Endpoint Sys Device (whole Byte) α}
    (host : Endian) (conn : Int) (value : BitVec 64)
    {messages : List (List Byte)} {next : Int × BitVec 64 → Prog Sys α}
    (rest : Advances deviceHost
      ⟨next (0, value),
        { device with stale := fun index => device.stale (index + 1) },
        messages, closed⟩ sent final) :
    Advances deviceHost
      (⟨(recvLong host conn).bind next, device, bigEndian value :: messages,
        closed⟩ : Endpoint Sys Device (whole Byte) α) sent final := by
  have nonempty : bigEndian value ≠ [] :=
    List.ne_nil_of_length_pos (by rw [bigEndian_length]; decide)
  unfold recvLong recvLongLoop
  simp only [bind_eq, op_bind, ret_bind, pure_eq, iterate_bind]
  refine advances_call rfl rfl ?_
  apply Advances.loop
  unfold unroll
  dsimp only
  rw [if_pos (by decide)]
  simp only [op_bind]
  apply advances_recv nonempty (by rw [bigEndian_length]; decide)
  simp only [ret_bind, Sum.elim_inl, bigEndian_length]
  apply Advances.loop
  unfold unroll
  dsimp only
  rw [if_neg (by decide), ret_bind, Sum.elim_inr, nlltoh_bigEndian]
  exact rest

theorem authenticateServer_advances (host : Endian) (conn : Int)
    (serverToken clientToken : BitVec 64) (device : Device) :
    ∃ greeted : Endpoint Sys Device (whole Byte) Int,
      Advances deviceHost
        ⟨authenticateServer host conn serverToken clientToken, device, [],
          false⟩
        [bytes "HELO"] greeted ∧
      ∀ xor, ∃ answered,
        Advances deviceHost
          (greeted.deliverAll [bytes "300", bigEndian xor])
          [authMessage (xor ^^^ clientToken)
            (xor ^^^ serverToken ^^^ clientToken)]
          answered ∧
        ∀ code, code ≠ [] → code.length ≤ codeSize → ∃ done,
          Advances deviceHost (answered.deliver (some code)) [] done ∧
          done.program = .ret (if atoi code = 200 then ok else authFail) := by
  unfold authenticateServer
  simp only [bind_eq, op_bind, ret_bind, pure_eq]
  refine ⟨?greeted, ?greeting, ?answer⟩
  case greeting =>
    apply advances_send
    exact .refl _
  case answer =>
    intro xor
    refine ⟨?answered, ?answering, ?ending⟩
    case answering =>
      dsimp only [Endpoint.deliverAll, Endpoint.deliver, List.foldl]
      rw [whole_push (by decide), List.nil_append,
        whole_push (List.ne_nil_of_length_pos (by rw [bigEndian_length]; decide)),
        List.singleton_append]
      apply advances_recv (by decide) (by decide)
      dsimp only
      rw [if_neg (by decide)]
      apply advances_recvLong
      dsimp only
      rw [if_neg (by decide)]
      apply advances_send
      exact .refl _
    case ending =>
      intro code nonempty fits
      refine ⟨⟨.ret (if atoi code = 200 then ok else authFail),
        { device with stale := fun index => device.stale (index + 1) }, [],
        false⟩, ?_, rfl⟩
      dsimp only [Endpoint.deliver]
      rw [whole_push nonempty, List.nil_append]
      apply advances_recv nonempty fits
      dsimp only
      by_cases accepted : atoi code = 200
      · rw [if_pos accepted, if_pos accepted]
        exact .refl _
      · rw [if_neg accepted, if_neg accepted]
        exact .refl _

/-! ## The session -/

/-- Server and client before the first step. -/
def authenticationStart (serverHost clientHost : Endian)
    (serverConn clientConn : Int)
    (serverToken expectedToken clientToken : BitVec 64)
    (server client : Device) :
    Endpoint Sys Device (whole Byte) Int ×
      Endpoint Sys Device (whole Byte) Int :=
  (⟨authenticateClient serverHost serverConn serverToken, server, [], false⟩,
    ⟨authenticateServer clientHost clientConn expectedToken clientToken,
      client, [], false⟩)

/-- Both sides have returned. -/
def BothReturn {D E : Delivery Byte} (ret : Int)
    (state : Endpoint Sys Device D Int × Endpoint Sys Device E Int) : Prop :=
  state.1.program = .ret ret ∧ state.2.program = .ret ret

/-- The exclusive or with the client token, the challenge and the tokens of
both sides cancel out. -/
theorem enc_xor (serverToken expectedToken clientToken challenge : BitVec 64) :
    (serverToken ^^^ challenge ^^^ clientToken) ^^^
        (serverToken ^^^ challenge ^^^ expectedToken ^^^ clientToken) =
      expectedToken := by
  have regroup : (serverToken ^^^ challenge ^^^ clientToken) ^^^
      (serverToken ^^^ challenge ^^^ expectedToken ^^^ clientToken) =
      ((serverToken ^^^ challenge ^^^ clientToken) ^^^
        (serverToken ^^^ challenge ^^^ clientToken)) ^^^ expectedToken := by
    ac_rfl
  rw [regroup, BitVec.xor_self, BitVec.zero_xor]

/-- There is a schedule after which both sides have returned the verdict. -/
theorem authentication_reaches (serverHost clientHost : Endian)
    (serverConn clientConn : Int)
    (serverToken expectedToken clientToken : BitVec 64)
    (server client : Device) :
    ∃ final, Reaches deviceHost
        (authenticationStart serverHost clientHost serverConn clientConn
          serverToken expectedToken clientToken server client) final ∧
      BothReturn (if serverToken = expectedToken then ok else authFail)
        final := by
  obtain ⟨greeted, greeting, answer⟩ := authenticateServer_advances clientHost
    clientConn expectedToken clientToken client
  obtain ⟨waiting, challenging, deciding⟩ := authenticateClient_advances
    serverHost serverConn serverToken server
  obtain ⟨answered, answering, ending⟩ :=
    answer (serverToken ^^^ server.challenge)
  obtain ⟨decided, verdict, returned⟩ := deciding
    (serverToken ^^^ server.challenge ^^^ clientToken)
    (serverToken ^^^ server.challenge ^^^ expectedToken ^^^ clientToken)
  rw [enc_xor] at returned
  simp only [enc_xor] at verdict
  have greets := greeting.right
    (⟨authenticateClient serverHost serverConn serverToken, server, [],
      false⟩ : Endpoint Sys Device (whole Byte) Int)
  have challenges := challenging.left greeted
  have answers := answering.right waiting
  have decides := verdict.left answered
  by_cases same : expectedToken = serverToken
  · rw [if_pos same] at decides returned
    obtain ⟨done, ended, result⟩ := ending (bytes "200") (by decide) (by decide)
    have ends := ended.right decided
    refine ⟨(decided, done), greets.trans <| challenges.trans <|
      answers.trans <| decides.trans ends, ?_⟩
    rw [if_pos same.symm]
    exact ⟨returned, result⟩
  · rw [if_neg same] at decides returned
    obtain ⟨done, ended, result⟩ := ending (bytes "400") (by decide) (by decide)
    have ends := ended.right decided
    refine ⟨(decided, done), greets.trans <| challenges.trans <|
      answers.trans <| decides.trans ends, ?_⟩
    rw [if_neg (Ne.symm same)]
    exact ⟨returned, result⟩

/-- The numbers of the message are read as they were written. -/
theorem authFields_authMessage (enc1 enc2 : BitVec 64) :
    ∃ field1 field2,
      authFields (authMessage enc1 enc2) =
        some (bytes "AUTH", field1, field2) ∧
      strtoull field1 = enc1 ∧ strtoull field2 = enc2 := by
  let memory : Strtok Buffer := { buffer := fun _ => [], save := none }
  obtain ⟨memory₁, memory₂, memory₃, first, second, third⟩ :=
    authMessage_fields enc1 enc2 memory
  have fields := fieldsOf_eq (memory.load .response (authMessage enc1 enc2))
    Buffer.response
  rw [fieldsOf, first] at fields
  simp only [second, third] at fields
  refine ⟨decimal enc1.toNat, decimal enc2.toNat, ?_, strtoull_decimal _,
    strtoull_decimal _⟩
  simpa [Strtok.load] using fields.symm

/-- Every challenge is drawn from some outputs of `rand`. -/
theorem challenge_surjective (device : Device) (challenge : BitVec 64) :
    ∃ rands, { device with rands }.challenge = challenge := by
  have outputs : (List.range 8).map (fun index =>
      (randsFor challenge).getD index 0) = randsFor challenge := by
    simp [randsFor, List.range_succ]
  refine ⟨fun index => (randsFor challenge).getD index 0, ?_⟩
  rw [Device.challenge, outputs, drawn_randsFor]

/-- In every session the number on the wire and the two numbers of the AUTH
message are read as they were written; whatever challenge the server draws,
every schedule is bounded and leads to the end, where both sides have returned
`OK` if the tokens are the same, and both `AUTH_FAIL` if not. -/
theorem authentication_agrees (serverHost clientHost : Endian)
    (serverConn clientConn : Int)
    (serverToken expectedToken clientToken : BitVec 64)
    (server client : Device) :
    (∀ value memory, nlltoh clientHost (ofMemory clientHost
      (store memory 0 (memoryOf serverHost (htonll serverHost value)))) =
        value) ∧
    (∀ enc1 enc2, ∃ field1 field2,
      authFields (authMessage enc1 enc2) =
        some (bytes "AUTH", field1, field2) ∧
      strtoull field1 = enc1 ∧ strtoull field2 = enc2) ∧
    (∀ challenge, ∃ rands, { server with rands }.challenge = challenge) ∧
    ∃ steps final,
      BothReturn (if serverToken = expectedToken then ok else authFail)
        final ∧
      ∀ schedule reached,
        (session deviceHost (whole Byte) (whole Byte) Int Int).run
          (authenticationStart serverHost clientHost serverConn clientConn
            serverToken expectedToken clientToken server client)
          schedule = some reached →
        ∃ rest,
          (session deviceHost (whole Byte) (whole Byte) Int Int).run reached
            rest = some final ∧
          schedule.length + rest.length = steps := by
  refine ⟨fun value memory => ?_, authFields_authMessage,
    challenge_surjective server, ?_⟩
  · rw [memoryOf_htonll]
    exact nlltoh_bigEndian clientHost memory value
  · obtain ⟨final, reaches, returned⟩ := authentication_reaches serverHost
      clientHost serverConn clientConn serverToken expectedToken clientToken
      server client
    obtain ⟨steps, completes⟩ := reaches.completes returned.1 returned.2
    exact ⟨steps, final, returned, completes⟩

end RemoteCommand
