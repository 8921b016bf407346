import RemoteCommand.AuthenticationFields
import RemoteCommand.Script

/-!
# The authentication over byte streams

`authenticate_client` and `authenticate_server` over two streams that are cut
in any way.  A part of `HELO`, of `300` or of the result makes the receiver
give up; `recv_long` collects its eight bytes in any pieces.
-/

namespace RemoteCommand

open Interaction Machine Prog Transition

/-! ## The server -/

section Server

variable {D : Delivery Byte} {α : Type} {inbox : D.Stream}

theorem script_longRandLoop {script : Script} {closed : Bool}
    {sent : List (List Byte)} {final : Endpoint Sys Script D α}
    {next : BitVec 64 → Prog Sys α} (turns : Nat) (random : BitVec 64)
    (rest : Advances scriptHost
      ⟨next (((List.range turns).map fun index =>
          script.answers index .rand).foldl addRandom random),
        { script with answers := fun index => script.answers (index + turns) },
        inbox, closed⟩ sent final) :
    Advances scriptHost
      ⟨(longRandLoop turns random).bind next, script, inbox, closed⟩ sent
        final := by
  induction turns generalizing random script with
  | zero => exact rest
  | succ turns inductionHypothesis =>
      refine advances_call rfl rfl ?_
      apply inductionHypothesis (addRandom random (script.answers 0 .rand))
      rw [List.range_succ_eq_map, List.map_cons, List.map_map] at rest
      simpa only [Script.next, Nat.add_assoc, Function.comp_def,
        Nat.succ_eq_add_one, List.foldl_cons, Nat.add_comm 1] using rest

/-- The challenge that the script makes the server draw. -/
def Script.challenge (script : Script) : BitVec 64 :=
  drawn ((List.range 8).map fun index => script.answers index .rand)

theorem script_longRand {script : Script} {closed : Bool}
    {sent : List (List Byte)} {final : Endpoint Sys Script D α}
    {next : BitVec 64 → Prog Sys α}
    (rest : Advances scriptHost
      ⟨next script.challenge,
        { script with answers := fun index => script.answers (index + 8) },
        inbox, closed⟩ sent final) :
    Advances scriptHost ⟨longRand.bind next, script, inbox, closed⟩ sent
      final :=
  script_longRandLoop 8 0 rest

/-- The machine of a server that has drawn a challenge. -/
def Script.answered (script : Script) (memory : Strtok Buffer) : Script :=
  { script with memory, answers := fun index => script.answers (index + 8) }

/-- What the server makes of the three fields of the message. -/
def judgeFields (conn : Int) (serverToken challenge : BitVec 64)
    (auth field1 field2 : List Byte) : Prog Sys Int :=
  if strcmp auth (bytes "AUTH") ≠ 0 then
    .op (.send conn (bytes "400")) fun sent =>
      if sent < 0 then .ret connErr else .ret protoErr
  else if challenge = strtoull field2 ^^^
      (strtoull field1 ^^^ (serverToken ^^^ challenge)) then
    .op (.send conn (bytes "200")) fun sent =>
      if sent < 0 then .ret connErr else .ret ok
  else
    .op (.send conn (bytes "400")) fun sent =>
      if sent < 0 then .ret connErr else .ret authFail

/-- It accepts the word `AUTH` with two numbers that give its token. -/
theorem script_judgeFields (conn : Int) (serverToken challenge : BitVec 64)
    {auth : List Byte} (plain : 0 ∉ auth) (field1 field2 : List Byte)
    (script : Script) (inbox : D.Stream) (next : Int → Prog Sys α) :
    ∃ ret sent,
      Advances scriptHost
        ⟨(judgeFields conn serverToken challenge auth field1 field2).bind next,
          script, inbox, false⟩
        sent ⟨next ret, script, inbox, false⟩ ∧
      (auth = bytes "AUTH" ∧ strtoull field1 ^^^ strtoull field2 = serverToken →
        ret = ok ∧ sent = [bytes "200"]) ∧
      (¬ (auth = bytes "AUTH" ∧
        strtoull field1 ^^^ strtoull field2 = serverToken) → ret < 0) := by
  unfold judgeFields
  by_cases tag : strcmp auth (bytes "AUTH") = 0
  · have isAuth : auth = bytes "AUTH" := eq_of_strcmp tag plain (by decide)
    rw [if_neg (not_not.mpr tag)]
    by_cases matching : challenge = strtoull field2 ^^^
        (strtoull field1 ^^^ (serverToken ^^^ challenge))
    · have accepted := (challenge_matches_iff _ _ _ _).mp matching
      refine ⟨ok, [bytes "200"], ?_, fun _ => ⟨rfl, rfl⟩,
        fun refused => absurd ⟨isAuth, accepted⟩ refused⟩
      rw [if_pos matching]
      simp only [op_bind, ite_bind, ret_bind]
      apply advances_send
      exact .refl _
    · refine ⟨authFail, [bytes "400"], ?_, fun accepted => ?_,
        fun _ => by decide⟩
      · rw [if_neg matching]
        simp only [op_bind, ite_bind, ret_bind]
        apply advances_send
        exact .refl _
      · exact absurd ((challenge_matches_iff _ _ _ _).mpr accepted.2) matching
  · refine ⟨protoErr, [bytes "400"], ?_, fun accepted => ?_,
      fun _ => by decide⟩
    · rw [if_pos tag]
      simp only [op_bind, ite_bind, ret_bind]
      apply advances_send
      exact .refl _
    · rw [accepted.1] at tag
      exact absurd (by decide) tag

/-- What `authenticate_client` does with whatever it receives. -/
theorem authenticateClient_segmented (host : Endian) (conn : Int)
    (serverToken : BitVec 64) (script : Script) (next : Int → Prog Sys α) :
    ∃ listening : Received 4 → Prog Sys α,
      (authenticateClient host conn serverToken).bind next =
        .op (.recv conn 0 4) listening ∧
      (∀ chars nonempty fits, chars ≠ bytes "HELO" →
        listening (.data chars nonempty fits) = next protoErr) ∧
      ∃ (challenging : Script)
        (answering : Received msgBufferSize → Prog Sys α),
        (∀ (inbox : D.Stream) nonempty fits,
          Advances scriptHost
            ⟨listening (.data (bytes "HELO") nonempty fits), script, inbox,
              false⟩
            [bytes "300", bigEndian (serverToken ^^^ script.challenge)]
            ⟨.op (.recv conn 0 msgBufferSize) answering, challenging, inbox,
              false⟩) ∧
        ∀ (inbox : D.Stream) message nonempty fits,
          ∃ ret memory sent,
            Advances scriptHost
              ⟨answering (.data message nonempty fits), challenging, inbox,
                false⟩
              sent ⟨next ret, script.answered memory, inbox, false⟩ ∧
            (Accepts serverToken message → ret = ok ∧ sent = [bytes "200"]) ∧
            (¬ Accepts serverToken message → ret < 0) := by
  let answers (index : Nat) := script.answers (index + 8)
  unfold authenticateClient sendLong
  simp only [bind_eq, op_bind, ret_bind, pure_eq]
  refine ⟨_, rfl, ?refused, { script with answers }, ?answering, ?challenged,
    ?judged⟩
  case refused =>
    intro chars nonempty fits different
    dsimp only
    have unequal : strcmp chars (bytes "HELO") ≠ 0 := fun equal =>
      different (eq_of_strcmp_of_length_le equal (by decide) fits)
    rw [if_pos unequal]
    rfl
  case challenged =>
    intro inbox nonempty fits
    dsimp only
    rw [if_neg (by decide)]
    simp only [op_bind, ite_bind, ret_bind, bind_assoc]
    apply advances_send
    apply script_longRand
    rw [memoryOf_htonll]
    apply advances_send
    exact .refl _
  case judged =>
    intro inbox message nonempty fits
    let memory := script.memory.load .response message
    have fields : fieldsOf memory .response = authFields message := by
      rw [fieldsOf_eq]
      simp [memory, Strtok.load]
    obtain ⟨auth, memory₁, first⟩ : ∃ token after,
        memory.strtok (some .response) (bytes " ") = (token, after) :=
      ⟨_, _, rfl⟩
    obtain ⟨field1, memory₂, second⟩ : ∃ token after,
        memory₁.strtok none (bytes " ") = (token, after) := ⟨_, _, rfl⟩
    obtain ⟨field2, memory₃, third⟩ : ∃ token after,
        memory₂.strtok none (bytes "\x00") = (token, after) := ⟨_, _, rfl⟩
    rw [fieldsOf, first] at fields
    dsimp only
    cases auth with
    | none =>
        refine ⟨protoErr, memory₁, [], ?_,
          fun accepts => absurd accepts (not_accepts fields.symm),
          fun _ => by decide⟩
        refine advances_call rfl rfl ?_
        refine advances_call rfl (Script.answer_strtok first) ?_
        exact .refl _
    | some auth =>
    simp only [second] at fields
    cases field1 with
    | none =>
        refine ⟨protoErr, memory₂, [], ?_,
          fun accepts => absurd accepts (not_accepts fields.symm),
          fun _ => by decide⟩
        refine advances_call rfl rfl ?_
        refine advances_call rfl (Script.answer_strtok first) ?_
        refine advances_call rfl (Script.answer_strtok second) ?_
        exact .refl _
    | some field1 =>
    simp only [third] at fields
    cases field2 with
    | none =>
        refine ⟨protoErr, memory₃, [], ?_,
          fun accepts => absurd accepts (not_accepts fields.symm),
          fun _ => by decide⟩
        refine advances_call rfl rfl ?_
        refine advances_call rfl (Script.answer_strtok first) ?_
        refine advances_call rfl (Script.answer_strtok second) ?_
        refine advances_call rfl (Script.answer_strtok third) ?_
        exact .refl _
    | some field2 =>
    obtain ⟨ret, sent, judges, passes, fails⟩ := @script_judgeFields D α conn
      serverToken script.challenge auth (Strtok.zero_notMem_token first) field1
      field2 (script.answered memory₃) inbox next
    rw [← accepts_iff_fields fields.symm] at passes fails
    refine ⟨ret, memory₃, sent, ?_, passes, fails⟩
    refine advances_call rfl rfl ?_
    refine advances_call rfl (Script.answer_strtok first) ?_
    refine advances_call rfl (Script.answer_strtok second) ?_
    refine advances_call rfl (Script.answer_strtok third) ?_
    exact judges

end Server

/-! ## The client -/

/-- What `authenticate_server` does with whatever it receives. -/
theorem authenticateServer_segmented {D : Delivery Byte} {α : Type}
    (host : Endian) (conn : Int) (serverToken clientToken : BitVec 64)
    (script : Script) (next : Int → Prog Sys α) :
    ∃ greeted : Received codeSize → Prog Sys α,
      (∀ inbox : D.Stream,
        Advances scriptHost
          ⟨(authenticateServer host conn serverToken clientToken).bind next,
            script, inbox, false⟩
          [bytes "HELO"]
          ⟨.op (.recv conn 0 codeSize) greeted, script, inbox, false⟩) ∧
      (∀ chars nonempty fits, chars ≠ bytes "300" →
        greeted (.data chars nonempty fits) = next protoErr) ∧
      ∃ collected : Int × BitVec 64 → Prog Sys α,
        (∀ nonempty fits, greeted (.data (bytes "300") nonempty fits) =
          (recvLong host conn).bind collected) ∧
        ∃ judging : Received codeSize → Prog Sys α,
          (∀ (xor : BitVec 64) (script : Script) (inbox : D.Stream),
            Advances scriptHost ⟨collected (0, xor), script, inbox, false⟩
              [authMessage (xor ^^^ clientToken)
                (xor ^^^ serverToken ^^^ clientToken)]
              ⟨.op (.recv conn 0 codeSize) judging, script, inbox, false⟩) ∧
          ∀ chars nonempty fits,
            judging (.data chars nonempty fits) =
              next (if atoi chars = 200 then ok else authFail) := by
  unfold authenticateServer
  simp only [bind_eq, op_bind, ret_bind, pure_eq]
  refine ⟨?greetedBy, ?greeting, ?refused, ?collectedBy, ?greeted, ?judgedBy,
    ?answering, ?judged⟩
  case greeting =>
    intro inbox
    simp only [ite_bind, ret_bind]
    apply advances_send
    exact .refl _
  case refused =>
    intro chars nonempty fits different
    have unequal : strcmp chars (bytes "300") ≠ 0 := fun equal =>
      different (eq_of_strcmp_of_length_le equal (by decide) fits)
    dsimp only
    rw [if_pos unequal]
    rfl
  case greeted =>
    intro nonempty fits
    dsimp only
    rw [if_neg (by decide), bind_assoc]
  case answering =>
    intro xor script inbox
    dsimp only
    rw [if_neg (by decide)]
    simp only [op_bind, ite_bind, ret_bind]
    apply advances_send
    exact .refl _
  case judged =>
    intro chars nonempty fits
    dsimp only
    by_cases accepted : atoi chars = 200
    · rw [if_pos accepted, if_pos accepted]
      rfl
    · rw [if_neg accepted, if_neg accepted]
      rfl

section Pieces

variable {α γ : Type} {cutting other : Cutting} {script : Script}
  {peer : Endpoint Sys Script (other.delivery Byte) γ}

/-- The turn of the loop of `recv_long`. -/
def recvLongTurn (conn : Int) (state : Int × (Nat → Byte)) :
    Prog Sys ((Int × (Nat → Byte)) ⊕ (Nat → Byte)) :=
  if state.1 < 8 then do
    match ← (Call.recv conn state.1 (8 - state.1).toNat).perform with
    | .data chars _ _ =>
        return .inl (state.1 + chars.length, store state.2 state.1 chars)
    | .closed => return .inl (state.1 + 0, state.2)
    | .error => return .inl (state.1 - 1, state.2)
  else
    return .inr state.2

theorem recvLongLoop_eq (conn : Int) (nVal : Nat → Byte) :
    recvLongLoop conn nVal = iterate (recvLongTurn conn) (0, nVal) := by
  unfold recvLongLoop
  congr 1
  funext ⟨count, memory⟩
  unfold recvLongTurn
  by_cases fewer : count < 8
  · simp only [if_pos fewer, bind_eq, op_bind]
    congr 1
    funext received
    cases received <;> rfl
  · simp only [if_neg fewer]

theorem recvLongTurn_bind (conn : Int) {count : Int} (fewer : count < 8)
    (memory : Nat → Byte)
    (after : (Int × (Nat → Byte)) ⊕ (Nat → Byte) → Prog Sys α) :
    (recvLongTurn conn (count, memory)).bind after =
      .op (.recv conn count (8 - count).toNat) fun received =>
        match received with
        | .data chars _ _ =>
            after (.inl (count + chars.length, store memory count chars))
        | .closed => after (.inl (count + 0, memory))
        | .error => after (.inl (count - 1, memory)) := by
  unfold recvLongTurn
  rw [if_pos fewer]
  simp only [bind_eq, op_bind, pure_eq]
  congr 1
  funext received
  cases received <;> rfl

/-- The bytes of `data` are in memory up to `count`. -/
def Filled (memory : Nat → Byte) (data : List Byte) (count : Nat) : Prop :=
  ∀ place < count, memory place = data.getD place 0

/-- Another piece of the data behind them. -/
theorem Filled.store {memory : Nat → Byte} {data : List Byte} {count : Nat}
    (filled : Filled memory data count) (limit : Nat) :
    Filled (store memory count ((data.drop count).take limit)) data
      (count + ((data.drop count).take limit).length) := by
  intro place before
  by_cases old : place < count
  · rw [RemoteCommand.store, if_neg (by omega)]
    exact filled place old
  · obtain ⟨offset, rfl⟩ := Nat.exists_eq_add_of_le (Nat.le_of_not_lt old)
    have inside : offset < ((data.drop count).take limit).length := by omega
    have within : offset < limit :=
      inside.trans_le (List.length_take_le _ _)
    rw [RemoteCommand.store, if_pos (by omega),
      show (((count + offset : Nat) : Int) - count).toNat = offset by omega]
    simp [List.getD_eq_getElem?_getD, within]

theorem filled_nothing (memory : Nat → Byte) (data : List Byte) :
    Filled memory data 0 :=
  fun _ before => absurd before (Nat.not_lt_zero _)

/-- A number in memory, from the bytes that were stored one by one. -/
theorem ofMemory_filled (host : Endian) {memory : Nat → Byte}
    {value : BitVec 64} (filled : Filled memory (bigEndian value) 8) :
    nlltoh host (ofMemory host memory) = value := by
  have stored : ∀ place < 8, memory place =
      store memory 0 (bigEndian value) place := by
    intro place before
    rw [filled place before, store, bigEndian_length, if_pos (by omega)]
    simp
  rw [← nlltoh_bigEndian host memory value]
  simp only [ofMemory, ← stored _ (by decide : 0 < 8),
    ← stored _ (by decide : 1 < 8), ← stored _ (by decide : 2 < 8),
    ← stored _ (by decide : 3 < 8), ← stored _ (by decide : 4 < 8),
    ← stored _ (by decide : 5 < 8), ← stored _ (by decide : 6 < 8),
    ← stored _ (by decide : 7 < 8)]

/-- The loop of `recv_long` collects the eight bytes in pieces. -/
theorem reaches_recvLongLoop (conn : Int) {data : List Byte}
    (eight : data.length = 8) {next : (Nat → Byte) → Prog Sys α}
    (idle : peer.idle scriptHost false = true) (turns : Nat) :
    ∀ {count index : Nat} {memory : Nat → Byte}, count ≤ 8 →
      8 ≤ count + turns → Filled memory data count →
      ∃ filled : Nat → Byte, Filled filled data 8 ∧
        Reaches scriptHost
          ((⟨.loop (recvLongTurn conn) ((count : Int), memory) next, script,
            (data.drop count, index), false⟩ :
            Endpoint Sys Script (cutting.delivery Byte) α), peer)
          (⟨next filled, script,
            ([], cutting.afterPieces turns index (8 - count)), false⟩,
            peer) := by
  have done {index : Nat} {memory : Nat → Byte} (filled : Filled memory data 8) :
      ∃ filled : Nat → Byte, Filled filled data 8 ∧
        Reaches scriptHost
          ((⟨.loop (recvLongTurn conn) ((8 : Int), memory) next, script,
            ([], index), false⟩ :
            Endpoint Sys Script (cutting.delivery Byte) α), peer)
          (⟨next filled, script, ([], index), false⟩, peer) := by
    refine ⟨memory, filled, Advances.leftQuiet peer ?_⟩
    apply Advances.loop
    exact .refl _
  induction turns with
  | zero =>
      intro count index memory few enough filled
      have all : count = 8 := by omega
      subst all
      rw [Nat.sub_self, Cutting.afterPieces_done,
        List.drop_of_length_le eight.le]
      exact done filled
  | succ turns inductionHypothesis =>
      intro count index memory few enough filled
      by_cases all : count = 8
      · subst all
        rw [Nat.sub_self, Cutting.afterPieces_done,
          List.drop_of_length_le eight.le]
        exact done filled
      · have left : 0 < 8 - count := by omega
        have asked : (8 - (count : Int)).toNat = 8 - count := by omega
        have waiting : data.drop count ≠ [] := by
          rw [← List.length_pos_iff, List.length_drop, eight]
          exact left
        let limit := cutting.limit index (8 - count)
        have positive : 0 < limit := cutting.limit_pos index left
        have within : limit ≤ 8 - count := cutting.limit_le index _
        have length : ((data.drop count).take limit).length = limit := by
          rw [List.length_take, List.length_drop, eight]
          exact Nat.min_eq_left within
        obtain ⟨memory₂, full, rest⟩ := @inductionHypothesis (count + limit)
          (index + 1) _ (by omega) (by omega)
          (length ▸ filled.store limit)
        refine ⟨memory₂, full, ?_⟩
        refine (Advances.loop (.refl _)).left peer |>.trans ?_
        unfold unroll
        rw [recvLongTurn_bind conn (by omega)]
        refine (reaches_receive (asked ▸ left) waiting idle).trans ?_
        dsimp only
        rw [asked, List.drop_drop]
        change Reaches scriptHost (⟨.loop (recvLongTurn conn)
          ((count : Int) + ((data.drop count).take limit).length, _) next,
          _, _, _⟩, _) _
        rw [length, Cutting.afterPieces, if_neg left.ne']
        rw [show 8 - (count + limit) = 8 - count - limit by omega] at rest
        exact_mod_cast rest

theorem reaches_recvLong (host : Endian) (conn : Int) (value : BitVec 64)
    {next : Int × BitVec 64 → Prog Sys α}
    (idle : peer.idle scriptHost false = true) (index : Nat) :
    Reaches scriptHost
      ((⟨(recvLong host conn).bind next, script, (bigEndian value, index),
        false⟩ : Endpoint Sys Script (cutting.delivery Byte) α), peer)
      (⟨next (0, value), script.next,
        ([], cutting.afterPieces 8 index 8), false⟩, peer) := by
  obtain ⟨memory, filled, collects⟩ := @reaches_recvLongLoop α γ cutting other
    script.next peer conn (bigEndian value) (bigEndian_length value)
    (fun memory => next (0, nlltoh host (ofMemory host memory))) idle 8 0 index
    (fun place => (script.answers 0 .indeterminate).getD place 0)
    (Nat.zero_le _) (Nat.le_refl _) (filled_nothing _ _)
  rw [ofMemory_filled host filled] at collects
  refine Reaches.trans (Advances.leftQuiet peer ?_) collects
  unfold recvLong
  simp only [bind_eq, op_bind, ret_bind, pure_eq, recvLongLoop_eq,
    iterate_bind, loop_bind]
  refine advances_call rfl rfl ?_
  exact .refl _

end Pieces

/-! ## Both sides -/

/-- The two sides of an authentication over two streams in pieces. -/
structure Handshake where
  serverHost : Endian
  clientHost : Endian
  serverConn : Int
  clientConn : Int
  serverToken : BitVec 64
  expectedToken : BitVec 64
  clientToken : BitVec 64
  server : Script
  client : Script
  serverCuts : Cutting
  clientCuts : Cutting

namespace Handshake

variable (handshake : Handshake)

/-- The number that the server sends. -/
def xor : BitVec 64 :=
  handshake.serverToken ^^^ handshake.server.challenge

/-- The AUTH message of the client. -/
def message : List Byte :=
  authMessage (handshake.xor ^^^ handshake.clientToken)
    (handshake.xor ^^^ handshake.expectedToken ^^^ handshake.clientToken)

/-- How much of it the server gets at once. -/
def limit : Nat :=
  handshake.serverCuts.limit 1 msgBufferSize

/-- The number of the receive that follows `recv_long` in the client. -/
def verdict : Nat :=
  handshake.clientCuts.afterPieces 8 1 8

/-- The pieces are large enough for `HELO`, `300` and `200`, and the server
accepts what it gets of the AUTH message. -/
structure Passes : Prop where
  hello : 4 ≤ handshake.serverCuts.size 0
  ready : codeSize ≤ handshake.clientCuts.size 0
  accepted : Accepts handshake.serverToken
    (handshake.message.take handshake.limit)
  confirmed : codeSize ≤ handshake.clientCuts.size handshake.verdict

/-- A side of a session with the machine of the handshake. -/
abbrev ServerSide (α : Type) : Type 1 :=
  Endpoint Sys Script (handshake.serverCuts.delivery Byte) α

abbrev ClientSide (γ : Type) : Type 1 :=
  Endpoint Sys Script (handshake.clientCuts.delivery Byte) γ

/-- The session before the first step, when the server goes on with `serve`
and the client with `ask`. -/
def start {α γ : Type} (serve : Int → Prog Sys α) (ask : Int → Prog Sys γ) :
    handshake.ServerSide α × handshake.ClientSide γ :=
  (⟨(authenticateClient handshake.serverHost handshake.serverConn
      handshake.serverToken).bind serve, handshake.server, ([], 0), false⟩,
    ⟨(authenticateServer handshake.clientHost handshake.clientConn
      handshake.expectedToken handshake.clientToken).bind ask,
      handshake.client, ([], 0), false⟩)

/-- How the handshake ends: both sides succeed, or one of them fails. -/
inductive Ends {α γ : Type} (serve : Int → Prog Sys α)
    (ask : Int → Prog Sys γ) : Prop
  | passed (passes : handshake.Passes) (memory : Strtok Buffer)
      (client : Script) :
      Reaches scriptHost (handshake.start serve ask)
        (⟨serve ok, handshake.server.answered memory,
          (handshake.message.drop handshake.limit, 2), false⟩,
          ⟨ask ok, client, ([], handshake.verdict + 1), false⟩) →
      Ends serve ask
  | serverFailed (fails : ¬ handshake.Passes) (ret : Int) (negative : ret < 0)
      (server : Script) (stream : List Byte × Nat)
      (peer : handshake.ClientSide γ) :
      Reaches scriptHost (handshake.start serve ask)
        (⟨serve ret, server, stream, false⟩, peer) →
      Ends serve ask
  | clientFailed (fails : ¬ handshake.Passes) (ret : Int)
      (failure : ret = protoErr ∨ ret = authFail) (client : Script)
      (stream : List Byte × Nat) (peer : handshake.ServerSide α) :
      Reaches scriptHost (handshake.start serve ask)
        (peer, ⟨ask ret, client, stream, false⟩) →
      Ends serve ask

/-- With the same token on both sides, the server accepts the whole message
only. -/
theorem accepts_iff (same : handshake.expectedToken = handshake.serverToken) :
    Accepts handshake.serverToken (handshake.message.take handshake.limit) ↔
      handshake.message.length ≤ handshake.limit := by
  have matching := enc_xor handshake.serverToken handshake.expectedToken
    handshake.clientToken handshake.server.challenge
  rw [same] at matching
  constructor
  · intro accepted
    by_contra fewer
    rw [message, same] at accepted fewer
    exact not_accepts_take (Nat.lt_of_not_le fewer) matching accepted
  · intro read
    rw [List.take_of_length_le read, message, same]
    obtain ⟨field1, field2, fields, one, two⟩ := authFields_authMessage
      (handshake.xor ^^^ handshake.clientToken)
      (handshake.xor ^^^ handshake.serverToken ^^^ handshake.clientToken)
    exact ⟨field1, field2, fields, by rw [one, two]; exact matching⟩

/-- What the server has not read of an accepted message is digits. -/
theorem unread_digits
    (accepted : Accepts handshake.serverToken
      (handshake.message.take handshake.limit)) :
    ∀ byte ∈ handshake.message.drop handshake.limit,
      48 ≤ byte.toNat ∧ byte.toNat ≤ 57 := by
  intro byte member
  by_cases fewer : handshake.limit < handshake.message.length
  · rcases authFields_take _ _ fewer with
      none | ⟨digits, _, _, unread, _⟩
    · exact absurd accepted (not_accepts none)
    · rw [message, unread] at member
      exact mem_decimal (List.mem_of_mem_drop member)
  · rw [List.drop_of_length_le (Nat.le_of_not_lt fewer)] at member
    exact absurd member List.not_mem_nil

/-- A part of the code for success is another number. -/
theorem part_ne_ok {chars : List Byte} (isPrefix : chars <+: bytes "200")
    (fewer : chars.length < codeSize) : atoi chars ≠ 200 := by
  rw [List.prefix_iff_eq_take.1 isPrefix]
  unfold codeSize at fewer
  interval_cases chars.length <;> decide

/-- The handshake comes to an end. -/
theorem ends {α γ : Type} (serve : Int → Prog Sys α)
    (ask : Int → Prog Sys γ) : handshake.Ends serve ask := by
  obtain ⟨listening, listens, greetedBadly, challenging, answering, challenges,
    judges⟩ := @authenticateClient_segmented
      (handshake.serverCuts.delivery Byte) α handshake.serverHost
      handshake.serverConn handshake.serverToken handshake.server serve
  obtain ⟨greeted, greets, refused, collected, collects, judging, answers,
    judged⟩ := @authenticateServer_segmented
      (handshake.clientCuts.delivery Byte) γ handshake.clientHost
      handshake.clientConn handshake.expectedToken handshake.clientToken
      handshake.client ask
  let awaitsReady (waiting : List Byte) : handshake.ClientSide γ :=
    ⟨.op (.recv handshake.clientConn 0 codeSize) greeted, handshake.client,
      (waiting, 0), false⟩
  let awaitsHello (waiting : List Byte) : handshake.ServerSide α :=
    ⟨.op (.recv handshake.serverConn 0 4) listening, handshake.server,
      (waiting, 0), false⟩
  let awaitsAnswer (waiting : List Byte) : handshake.ServerSide α :=
    ⟨.op (.recv handshake.serverConn 0 msgBufferSize) answering, challenging,
      (waiting, 1), false⟩
  let awaitsVerdict (waiting : List Byte) : handshake.ClientSide γ :=
    ⟨.op (.recv handshake.clientConn 0 codeSize) judging,
      handshake.client.next, (waiting, handshake.verdict), false⟩
  let challenge := bytes "300" ++ bigEndian handshake.xor
  -- HELO
  have soFar : Reaches scriptHost (handshake.start serve ask)
      (awaitsHello (bytes "HELO"), awaitsReady []) := by
    have sent := (greets ([], 0)).right (awaitsHello [])
    rw [start, listens]
    exact sent
  by_cases hello : 4 ≤ handshake.serverCuts.size 0
  rotate_left
  · have refuses := @advances_receive_part Script _ Script.answer
      handshake.serverCuts handshake.server handshake.serverConn 0 4 listening
      (bytes "HELO") 0 false [] _ (by decide) (by decide) hello fun chars nonempty fits _ fewer => by
        rw [greetedBadly chars nonempty fits fun same =>
          absurd (same ▸ fewer) (by decide)]
        exact .refl _
    exact .serverFailed (fun passes => hello passes.hello) protoErr
      (by decide) _ _ _ (soFar.trans (refuses.leftQuiet _))
  -- the challenge
  have challenged : Advances scriptHost (awaitsHello (bytes "HELO" ++ []))
      [bytes "300", bigEndian handshake.xor] (awaitsAnswer []) := by
    apply advances_receive_whole (by decide) (by rfl) hello
    exact fun nonempty fits => challenges ([], 1) nonempty fits
  replace soFar := soFar.trans (challenged.left (awaitsReady []))
  rw [deliverAll_delivery] at soFar
  change Reaches _ _ (awaitsAnswer [], awaitsReady challenge) at soFar
  have enough : codeSize ≤ challenge.length := by
    rw [List.length_append]
    exact Nat.le_add_right _ _
  by_cases ready : codeSize ≤ handshake.clientCuts.size 0
  rotate_left
  · have refuses := @advances_receive_part Script _ Script.answer
      handshake.clientCuts handshake.client handshake.clientConn 0 codeSize
      greeted challenge 0 false [] _ (by decide) enough ready fun chars nonempty fits _ fewer => by
        rw [refused chars nonempty fits fun same =>
          absurd (same ▸ fewer) (by decide)]
        exact .refl _
    exact .clientFailed (fun passes => ready passes.ready) protoErr
      (.inl rfl) _ _ _ (soFar.trans (refuses.right _))
  -- the AUTH message
  have takes : Advances scriptHost (awaitsReady challenge) []
      ⟨(recvLong handshake.clientHost handshake.clientConn).bind collected,
        handshake.client, (bigEndian handshake.xor, 1), false⟩ := by
    apply advances_receive_whole (by decide) (by rfl) ready
    intro nonempty fits
    rw [collects]
    exact .refl _
  have collecting := @reaches_recvLong γ α handshake.clientCuts
    handshake.serverCuts handshake.client (awaitsAnswer [])
    handshake.clientHost handshake.clientConn handshake.xor collected
    (idle_receive (by decide)) 1
  have sent := (answers handshake.xor handshake.client.next
    ([], handshake.verdict)).right (awaitsAnswer [])
  rw [deliverAll_delivery, List.nil_append, List.flatten_singleton] at sent
  replace soFar := soFar.trans ((takes.right _).trans
    (collecting.swap.trans sent))
  have someMessage : handshake.message ≠ [] := authMessage_ne_nil _ _
  have received := @reaches_receive Script α γ Script.answer
    handshake.serverCuts handshake.clientCuts challenging handshake.serverConn 0
    msgBufferSize answering handshake.message 1 false (by decide) someMessage
    (awaitsVerdict []) (idle_receive (by decide))
  obtain ⟨ret, memory, sent, answering, accepts, rejects⟩ := judges
    (handshake.message.drop handshake.limit, 2)
    (handshake.message.take handshake.limit)
    (handshake.serverCuts.take_limit_ne_nil 1 (by decide) someMessage)
    (handshake.serverCuts.length_take_limit_le 1 msgBufferSize _)
  replace soFar := soFar.trans (received.trans (answering.left _))
  by_cases accepted : Accepts handshake.serverToken
    (handshake.message.take handshake.limit)
  rotate_left
  · exact .serverFailed (fun passes => accepted passes.accepted) ret
      (rejects accepted) _ _ _ soFar
  -- the verdict
  obtain ⟨rfl, rfl⟩ := accepts accepted
  rw [deliverAll_delivery, List.nil_append, List.flatten_singleton] at soFar
  by_cases confirmed : codeSize ≤ handshake.clientCuts.size handshake.verdict
  · have succeeds : Advances scriptHost (awaitsVerdict (bytes "200" ++ [])) []
        ⟨ask ok, handshake.client.next, ([], handshake.verdict + 1), false⟩ := by
      apply advances_receive_whole (by decide) (by rfl) confirmed
      intro nonempty fits
      rw [judged, if_pos (by decide)]
      exact .refl _
    exact .passed ⟨hello, ready, accepted, confirmed⟩ memory _
      (soFar.trans (succeeds.right _))
  · have fails := @advances_receive_part Script _ Script.answer
      handshake.clientCuts handshake.client.next handshake.clientConn 0 codeSize
      judging (bytes "200") handshake.verdict false [] _ (by decide) (by decide) confirmed
      fun chars nonempty fits isPrefix fewer => by
        rw [judged, if_neg (part_ne_ok isPrefix fewer)]
        exact .refl _
    exact .clientFailed (fun passes => confirmed passes.confirmed) authFail
      (.inr rfl) _ _ _ (soFar.trans (fails.right _))

end Handshake

end RemoteCommand
