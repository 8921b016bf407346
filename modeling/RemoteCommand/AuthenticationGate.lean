import RemoteCommand.Surroundings

/-!
# Which messages `authenticate_client` accepts

The challenge that the server sends and the one it compares with cancel out:
what decides is the exclusive or of the two numbers of the message.  The runs of
`authenticate_client` are characterised by that, for whatever the peer sends and
whichever calls fail.
-/

namespace RemoteCommand

open Interaction Machine Prog

/-! ## The fields of a message -/

/-- The three calls of `strtok` on an array, and the tokens they return. -/
def fieldsOf {κ : Type} [DecidableEq κ] (memory : Strtok κ) (key : κ) :
    Option (List Byte × List Byte × List Byte) :=
  match memory.strtok (some key) (bytes " ") with
  | (none, _) => none
  | (some auth, memory) =>
  match memory.strtok none (bytes " ") with
  | (none, _) => none
  | (some enc1, memory) =>
  match memory.strtok none (bytes "\x00") with
  | (none, _) => none
  | (some enc2, _) => some (auth, enc1, enc2)

/-- The fields of a message that a `recv` brought. -/
def authFields (message : List Byte) :
    Option (List Byte × List Byte × List Byte) :=
  fieldsOf { buffer := fun _ : Unit => message, save := none } ()

/-- The fields depend on the array only. -/
theorem fieldsOf_eq {κ : Type} [DecidableEq κ] (memory : Strtok κ) (key : κ) :
    fieldsOf memory key = authFields (memory.buffer key) := by
  have injective : Function.Injective fun _ : Unit => key := fun _ _ _ => rfl
  change fieldsOf memory key = fieldsOf (.ofArray (memory.buffer key)) ()
  unfold fieldsOf
  obtain ⟨auth, _, _, call, seen, sees⟩ :=
    memory.strtok_ofArray key (bytes " ")
  rw [call, seen]
  cases auth with
  | none => rfl
  | some auth =>
  obtain ⟨enc1, _, _, call, seen, sees⟩ := sees.strtok injective (bytes " ")
  simp only [call, seen]
  cases enc1 with
  | none => rfl
  | some enc1 =>
  obtain ⟨enc2, _, _, call, seen, sees⟩ := sees.strtok injective (bytes "\x00")
  simp only [call, seen]
  cases enc2 <;> rfl

/-- The message has the fields `AUTH` and two numbers whose exclusive or is the
token of the server. -/
def Accepts (serverToken : BitVec 64) (message : List Byte) : Prop :=
  ∃ enc1 enc2, authFields message = some (bytes "AUTH", enc1, enc2) ∧
    strtoull enc1 ^^^ strtoull enc2 = serverToken

theorem not_accepts {serverToken : BitVec 64} {message : List Byte}
    (missing : authFields message = none) : ¬ Accepts serverToken message := by
  rintro ⟨_, _, found, _⟩
  rw [missing] at found
  cases found

theorem accepts_iff_fields {serverToken : BitVec 64}
    {message auth field1 field2 : List Byte}
    (fields : authFields message = some (auth, field1, field2)) :
    Accepts serverToken message ↔ auth = bytes "AUTH" ∧
      strtoull field1 ^^^ strtoull field2 = serverToken := by
  rw [Accepts, fields]
  constructor
  · rintro ⟨_, _, same, accepted⟩
    cases same
    exact ⟨rfl, accepted⟩
  · rintro ⟨rfl, accepted⟩
    exact ⟨field1, field2, rfl, accepted⟩

/-! ## Runs of `authenticate_client` -/

/-- The challenge cancels out of the comparison. -/
theorem challenge_matches_iff (serverToken challenge enc1 enc2 : BitVec 64) :
    challenge = enc2 ^^^ (enc1 ^^^ (serverToken ^^^ challenge)) ↔
      enc1 ^^^ enc2 = serverToken := by
  have regroup : enc2 ^^^ (enc1 ^^^ (serverToken ^^^ challenge)) =
      ((enc1 ^^^ enc2) ^^^ serverToken) ^^^ challenge := by
    ac_rfl
  rw [regroup]
  constructor
  · intro same
    have vanish : (enc1 ^^^ enc2) ^^^ serverToken = 0 := by
      have both := congrArg (· ^^^ challenge) same
      simpa [BitVec.xor_assoc] using both.symm
    exact BitVec.xor_eq_zero_iff.1 vanish
  · intro same
    simp [same]

theorem sendLong_ensures (host : Endian) (conn : Int) (value : BitVec 64)
    (memory : Strtok Buffer) :
    Ensures anyOutcome (sendLong host conn value) memory
      fun trace _ after => received conn trace = [] ∧ after = memory := by
  refine (ensures_op _ _).2 fun sent _ answered => ?_
  cases answered
  exact (ensures_ite _ _ _).2
    ⟨fun _ => (ensures_ret _).2 ⟨rfl, rfl⟩,
      fun _ => (ensures_ret _).2 ⟨rfl, rfl⟩⟩

/-- What `authenticate_client` returns is negative, or it has received `HELO`
and then an acceptable message. -/
theorem authenticateClient_ensures (host : Endian) (conn : Int)
    (serverToken : BitVec 64) (memory : Strtok Buffer) :
    Ensures anyOutcome (authenticateClient host conn serverToken) memory
      fun trace ret _ => ret < 0 ∨
        (ret = ok ∧ ∃ message,
          received conn trace = [some (bytes "HELO"), some message] ∧
            Accepts serverToken message) := by
  have failing {ret : Int} (negative : ret < 0) {state : Strtok Buffer}
      {post : List (Event Sys) → Prop} :
      Ensures anyOutcome (.ret ret) state fun trace ret _ =>
        ret < 0 ∨ (ret = ok ∧ post trace) :=
    (ensures_ret _).2 (.inl negative)
  unfold authenticateClient longRand
  simp only [bind_eq, op_bind, ret_bind, pure_eq]
  refine (ensures_op _ _).2 fun hello _ answered => ?_
  cases answered
  rcases hello with ⟨hello, _, fits⟩ | _ | _
  rotate_left
  · exact failing (by decide)
  · exact failing (by decide)
  refine (ensures_ite _ _ _).2 ⟨fun _ => failing (by decide), fun isHelo => ?_⟩
  have hello : hello = bytes "HELO" :=
    eq_of_strcmp_of_length_le (not_not.1 isHelo) (by decide) fits
  refine (ensures_op _ _).2 fun sent _ answered => ?_
  cases answered
  refine (ensures_ite _ _ _).2 ⟨fun _ => failing (by decide), fun _ => ?_⟩
  refine Ensures.bind ((longRandLoop_ensures conn 8 0 memory).mono ?_)
  rintro drawing challenge memory ⟨noneDrawing, _, rfl⟩
  refine Ensures.bind ((sendLong_ensures host conn _ _).mono ?_)
  rintro sending ret memory ⟨noneSending, rfl⟩
  refine (ensures_ite _ _ _).2 ⟨fun _ => failing (by decide), fun _ => ?_⟩
  refine (ensures_op _ _).2 fun message _ answered => ?_
  cases answered
  rcases message with ⟨message, _, _⟩ | _ | _
  rotate_left
  · exact failing (by decide)
  · exact failing (by decide)
  refine (ensures_op _ _).2 fun _ filled answered => ?_
  cases answered
  have fields := fieldsOf_eq (memory.load .response message) Buffer.response
  rw [fieldsOf] at fields
  refine (ensures_op _ _).2 fun auth _ firstCall => ?_
  change Strtok.strtok _ _ _ = _ at firstCall
  rw [firstCall] at fields
  cases auth with
  | none => exact failing (by decide)
  | some auth =>
  refine (ensures_op _ _).2 fun enc1 _ secondCall => ?_
  change Strtok.strtok _ _ _ = _ at secondCall
  simp only [secondCall] at fields
  cases enc1 with
  | none => exact failing (by decide)
  | some enc1 =>
  refine (ensures_op _ _).2 fun enc2 _ thirdCall => ?_
  change Strtok.strtok _ _ _ = _ at thirdCall
  simp only [thirdCall] at fields
  cases enc2 with
  | none => exact failing (by decide)
  | some enc2 =>
  refine (ensures_ite _ _ _).2 ⟨fun _ => ?_, fun isAuth => ?_⟩
  · refine (ensures_op _ _).2 fun sent _ _ => (ensures_ite _ _ _).2 ?_
    exact ⟨fun _ => failing (by decide), fun _ => failing (by decide)⟩
  have auth : auth = bytes "AUTH" :=
    eq_of_strcmp (not_not.1 isAuth) (Strtok.zero_notMem_token firstCall)
      (by decide)
  refine (ensures_ite _ _ _).2 ⟨fun same => ?_, fun _ => ?_⟩
  · refine (ensures_op _ _).2 fun sent _ _ => (ensures_ite _ _ _).2 ?_
    refine ⟨fun _ => failing (by decide), fun _ => (ensures_ret _).2 ?_⟩
    refine .inr ⟨rfl, message, ?_, enc1, enc2, ?_, ?_⟩
    · simp [receivedBy, hello, noneDrawing, noneSending]
    · simpa [Strtok.load, auth] using fields.symm
    · exact (challenge_matches_iff _ _ _ _).1 same
  · refine (ensures_op _ _).2 fun sent _ _ => (ensures_ite _ _ _).2 ?_
    exact ⟨fun _ => failing (by decide), fun _ => failing (by decide)⟩

/-- The run in which the server draws `challenge` and accepts `message`. -/
theorem authenticateClient_accepts (host : Endian) (conn : Int)
    {serverToken : BitVec 64} {message : List Byte}
    (accepts : Accepts serverToken message)
    (fits : message.length ≤ msgBufferSize) (challenge : BitVec 64)
    (memory : Strtok Buffer) :
    ∃ trace after,
      Runs anyOutcome (authenticateClient host conn serverToken) memory trace
        (some ok) after ∧
      drawn (randoms trace) = challenge ∧
        sent conn trace = [bytes "300", bigEndian (serverToken ^^^ challenge),
          bytes "200"] ∧
        received conn trace = [some (bytes "HELO"), some message] := by
  obtain ⟨enc1, enc2, fields, token⟩ := accepts
  have nonempty : message ≠ [] := by
    rintro rfl
    rw [show authFields [] = none by decide] at fields
    cases fields
  -- The calls of `strtok` find the fields in the array, too.
  have calls := fieldsOf_eq (memory.load .response message) Buffer.response
  rw [show (memory.load .response message).buffer .response = message by
    simp [Strtok.load], fields, fieldsOf] at calls
  obtain ⟨auth, memory₁, first⟩ :
      ∃ auth memory₁, (memory.load .response message).strtok
        (some .response) (bytes " ") = (auth, memory₁) := ⟨_, _, rfl⟩
  obtain ⟨number₁, memory₂, second⟩ :
      ∃ number₁ memory₂, memory₁.strtok none (bytes " ") =
        (number₁, memory₂) := ⟨_, _, rfl⟩
  obtain ⟨number₂, memory₃, third⟩ :
      ∃ number₂ memory₃, memory₂.strtok none (bytes "\x00") =
        (number₂, memory₃) := ⟨_, _, rfl⟩
  rw [first] at calls
  cases auth with
  | none => cases calls
  | some auth =>
  simp only [second] at calls
  cases number₁ with
  | none => cases calls
  | some number₁ =>
  simp only [third] at calls
  cases number₂ with
  | none => cases calls
  | some number₂ =>
  cases calls
  have isHelo : strcmp (bytes "HELO") (bytes "HELO") = 0 := by decide
  have isAuth : strcmp (bytes "AUTH") (bytes "AUTH") = 0 := by decide
  have drawing := longRandLoop_runs (randsFor challenge) 0 memory
  rw [show (randsFor challenge).foldl addRandom 0 = challenge from
    drawn_randsFor challenge] at drawing
  let xor := serverToken ^^^ challenge
  have sending : Runs anyOutcome (sendLong host conn xor) memory
      [⟨.send conn (memoryOf host (htonll host xor)), (8 : Int)⟩]
      (some 0) memory :=
    .op rfl (.ret _ _)
  refine ⟨⟨.recv conn 0 4, .data (bytes "HELO") (by decide) (by decide)⟩ ::
    ⟨.send conn (bytes "300"), (3 : Int)⟩ ::
    (randomEvents (randsFor challenge) ++
      ([⟨.send conn (memoryOf host (htonll host xor)), (8 : Int)⟩] ++
        [⟨.recv conn 0 msgBufferSize, .data message nonempty fits⟩,
          ⟨.fill .response message, ()⟩,
          ⟨.strtok (some .response) (bytes " "), some (bytes "AUTH")⟩,
          ⟨.strtok none (bytes " "), some enc1⟩,
          ⟨.strtok none (bytes "\x00"), some enc2⟩,
          ⟨.send conn (bytes "200"), (3 : Int)⟩])), memory₃, ?_, ?_, ?_, ?_⟩
  · unfold authenticateClient longRand
    simp only [bind_eq, op_bind, ret_bind, pure_eq]
    refine .op rfl ?_
    simp only [isHelo, ne_eq, not_true, if_false]
    refine .op rfl (.bind drawing (.bind sending ?_))
    refine .op rfl (.op rfl (.op first (.op second (.op third ?_))))
    simp only [isAuth, not_true, if_false]
    rw [if_pos ((challenge_matches_iff _ _ _ _).2 token)]
    exact .op rfl (.ret _ _)
  · simp [randomBy, drawn_randsFor]
  · simp [sentBy, xor, memoryOf_htonll]
  · simp [receivedBy]

/-- In some session with this challenge the message is accepted. -/
def AcceptedIn (host : Endian) (conn : Int)
    (serverToken challenge : BitVec 64) (message : List Byte) : Prop :=
  ∃ memory trace after,
    Runs anyOutcome (authenticateClient host conn serverToken) memory trace
      (some ok) after ∧
    drawn (randoms trace) = challenge ∧
      received conn trace = [some (bytes "HELO"), some message]

theorem acceptedIn_iff (host : Endian) (conn : Int)
    (serverToken challenge : BitVec 64) {message : List Byte}
    (fits : message.length ≤ msgBufferSize) :
    AcceptedIn host conn serverToken challenge message ↔
      Accepts serverToken message := by
  constructor
  · rintro ⟨memory, trace, after, run, _, messages⟩
    rcases authenticateClient_ensures _ _ _ _ _ _ _ run with
      negative | ⟨_, other, same, accepts⟩
    · exact absurd negative (by decide)
    · rw [messages] at same
      cases same
      exact accepts
  · intro accepts
    let memory : Strtok Buffer := { buffer := fun _ => [], save := none }
    obtain ⟨trace, after, run, drew, _, messages⟩ :=
      authenticateClient_accepts host conn accepts fits challenge memory
    exact ⟨memory, trace, after, run, drew, messages⟩

/-- Replay resistance holds of exactly those messages that no session
accepts, whatever the challenges. -/
theorem replay_resisted_iff (host : Endian) (conn : Int)
    (serverToken : BitVec 64) {challenge₁ challenge₂ : BitVec 64}
    {message : List Byte} (fits : message.length ≤ msgBufferSize)
    (_different : challenge₁ ≠ challenge₂) :
    (AcceptedIn host conn serverToken challenge₁ message →
        ¬ AcceptedIn host conn serverToken challenge₂ message) ↔
      ¬ Accepts serverToken message := by
  rw [acceptedIn_iff host conn serverToken challenge₁ fits,
    acceptedIn_iff host conn serverToken challenge₂ fits]
  tauto

theorem replay_resisted_iff_nonsense :
    (AcceptedIn .little 7 1 0 (bytes "AUTH 2 0") →
        ¬ AcceptedIn .little 7 1 1 (bytes "AUTH 2 0")) ↔
      ¬ Accepts 1 (bytes "AUTH 2 0") :=
  replay_resisted_iff .little 7 1 (by decide) (by decide)

/-- The message `AUTH 1 0` is accepted for the token 1 under both challenges
0 and 1. -/
theorem replay_accepted :
    ¬ ∀ host conn serverToken challenge₁ challenge₂ message,
      challenge₁ ≠ challenge₂ →
      AcceptedIn host conn serverToken challenge₁ message →
        ¬ AcceptedIn host conn serverToken challenge₂ message := by
  intro resisted
  have accepts : Accepts 1 (bytes "AUTH 1 0") :=
    ⟨bytes "1", bytes "0", by decide, by decide⟩
  have fits : (bytes "AUTH 1 0").length ≤ msgBufferSize := by decide
  have session (challenge : BitVec 64) :
      AcceptedIn .little 7 1 challenge (bytes "AUTH 1 0") :=
    (acceptedIn_iff .little 7 1 challenge fits).2 accepts
  exact resisted .little 7 1 0 1 _ (by decide) (session 0) (session 1)

end RemoteCommand
