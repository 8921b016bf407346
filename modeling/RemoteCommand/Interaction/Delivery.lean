import RemoteCommand.Interaction.Session

/-!
# Two ways to deliver data

Messages that arrive whole, and a byte stream that is cut into pieces in any
way.  The cuts say how much a receive gets at most; it gets less only when the
sender is idle, and then all there is.
-/

namespace RemoteCommand.Interaction

open Transition

variable {S : Signature} {β σ : Type}

/-! ## Whole messages -/

/-- A receive gets one message, or as much of it as it asks for. -/
def whole (β : Type) : Delivery β where
  Stream := List (List β)
  push messages data :=
    match data with
    | [] => messages
    | _ :: _ => messages ++ [data]
  ready messages length :=
    match messages with
    | [] => none
    | message :: messages =>
        some (message.take length,
          if message.length ≤ length then messages
          else message.drop length :: messages)
  rest _ _ := none
  ready_push := by
    intro messages length data left arrives more
    cases messages with
    | nil => cases arrives
    | cons message messages =>
        cases arrives
        cases more with
        | nil => rfl
        | cons =>
            by_cases fits : message.length ≤ length
            · simp [fits]
            · simp [fits]

theorem whole_ready {message : List β} {length : Nat}
    (fits : message.length ≤ length) (messages : List (List β)) :
    (whole β).ready (message :: messages) length =
      some (message, messages) := by
  simp [whole, List.take_of_length_le fits, fits]

theorem whole_push {message : List β} (nonempty : message ≠ [])
    (messages : List (List β)) :
    (whole β).push messages message = messages ++ [message] := by
  cases message with
  | nil => exact absurd rfl nonempty
  | cons => rfl

/-- The messages of a data block: nothing is delivered when it is empty. -/
def packet : List β → List (List β)
  | [] => []
  | head :: rest => [head :: rest]

theorem packet_of_ne_nil {data : List β} (nonempty : data ≠ []) :
    packet data = [data] := by
  cases data with
  | nil => exact absurd rfl nonempty
  | cons => rfl

/-- What is sent comes behind the messages on their way. -/
theorem deliverAll_whole {α : Type} {program : Prog S α} {state : σ}
    {messages : List (List β)} {closed : Bool} (sent : List (List β)) :
    Endpoint.deliverAll
        (⟨program, state, messages, closed⟩ : Endpoint S σ (whole β) α) sent =
      ⟨program, state, messages ++ sent.flatMap packet, closed⟩ := by
  induction sent generalizing messages with
  | nil => simp [Endpoint.deliverAll]
  | cons data sent inductionHypothesis =>
      rw [List.flatMap_cons, ← List.append_assoc]
      cases data with
      | nil =>
          rw [packet, List.append_nil]
          exact inductionHypothesis
      | cons head rest => exact inductionHypothesis

/-- What a receive leaves of a message stays in front. -/
theorem whole_ready_packet {data : List β} (nonempty : data ≠ [])
    (length : Nat) (messages : List (List β)) :
    (whole β).ready (packet data ++ messages) length =
      some (data.take length, packet (data.drop length) ++ messages) := by
  rw [packet_of_ne_nil nonempty]
  by_cases fits : data.length ≤ length
  · rw [List.drop_of_length_le fits]
    exact congrArg some (Prod.ext rfl (if_pos fits))
  · have left : data.drop length ≠ [] := by
      rw [← List.length_pos_iff, List.length_drop]
      omega
    rw [packet_of_ne_nil left]
    exact congrArg some (Prod.ext rfl (if_neg fits))

/-- When everything is delivered and the peer has closed, a receive ends. -/
theorem whole_receive_end {α γ : Type} {E : Delivery β} {host : Host S β σ}
    {o : S.Op} {next : S.Resp o → Prog S α} {state : σ} {length : Nat}
    {closed : Bool} {respond : Option (List β) → S.Resp o}
    {peer : Endpoint S σ E γ} (acts : host.action o = .receive length respond)
    (ended : peer.closed = true) :
    Reaches host
      ((⟨.op o next, state, [], closed⟩ : Endpoint S σ (whole β) α), peer)
      (⟨next (respond none), state, [], closed⟩, peer) := by
  have stepped : (session host (whole β) E α γ).step
      (⟨.op o next, state, [], closed⟩, peer) .left =
      some (⟨next (respond none), state, [], closed⟩, peer) := by
    simp [session, Endpoint.advance, Endpoint.move, acts, whole, ended]
  exact .step stepped (.refl _)

/-! ## A stream in pieces -/

/-- How many bytes each receive gets at most. -/
structure Cutting where
  size : Nat → Nat
  positive : ∀ index, 0 < size index

namespace Cutting

variable (cutting : Cutting)

/-- The most that the receive number `index` gets when it asks for `length`. -/
def limit (index length : Nat) : Nat :=
  min length (cutting.size index)

theorem limit_pos (index : Nat) {length : Nat} (asks : 0 < length) :
    0 < cutting.limit index length :=
  Nat.lt_min.2 ⟨asks, cutting.positive index⟩

theorem limit_le (index length : Nat) : cutting.limit index length ≤ length :=
  Nat.min_le_left _ _

/-- A receive gets as much as it asks for, or less. -/
theorem limit_cases (index length : Nat) :
    length ≤ cutting.size index ∧ cutting.limit index length = length ∨
      ¬ length ≤ cutting.size index ∧ cutting.limit index length < length := by
  by_cases enough : length ≤ cutting.size index
  · exact .inl ⟨enough, Nat.min_eq_left enough⟩
  · refine .inr ⟨enough, ?_⟩
    exact Nat.lt_of_le_of_lt (Nat.min_le_right _ _) (Nat.lt_of_not_le enough)

/-- The number of the next receive, when a program that is at receive `index`
collects so many bytes in at most so many pieces. -/
def afterPieces : Nat → Nat → Nat → Nat
  | 0, index, _ => index
  | turns + 1, index, remaining =>
      if remaining = 0 then index
      else afterPieces turns (index + 1)
        (remaining - cutting.limit index remaining)

theorem afterPieces_done (turns index : Nat) :
    cutting.afterPieces turns index 0 = index := by
  cases turns <;> rfl

/-- A piece of what is on its way is not empty. -/
theorem take_limit_ne_nil (index : Nat) {length : Nat} (asks : 0 < length)
    {waiting : List β} (some_waiting : waiting ≠ []) :
    waiting.take (cutting.limit index length) ≠ [] := by
  rw [Ne, List.take_eq_nil_iff]
  exact fun nothing => nothing.elim
    (Nat.ne_of_gt (cutting.limit_pos index asks)) some_waiting

/-- It is no longer than what was asked for. -/
theorem length_take_limit_le (index length : Nat) (waiting : List β) :
    (waiting.take (cutting.limit index length)).length ≤ length :=
  Nat.le_trans (List.length_take_le _ _) (cutting.limit_le index length)

/-- The stream is the data on its way and the number of receives so far. -/
def delivery (β : Type) : Delivery β where
  Stream := List β × Nat
  push stream data := (stream.1 ++ data, stream.2)
  ready stream length :=
    if cutting.limit stream.2 length ≤ stream.1.length then
      some (stream.1.take (cutting.limit stream.2 length),
        (stream.1.drop (cutting.limit stream.2 length), stream.2 + 1))
    else
      none
  rest stream _ :=
    if stream.1.isEmpty then none else some (stream.1, ([], stream.2 + 1))
  ready_push := by
    intro stream length data left arrives more
    rw [Option.ite_none_right_eq_some] at arrives
    obtain ⟨enough, same⟩ := arrives
    cases same
    rw [if_pos (by simp only [List.length_append]; omega),
      List.take_append_of_le_length enough, List.drop_append_of_le_length enough]

variable {cutting} {other : Cutting} {α γ : Type}
  {host : Host S β σ} {o : S.Op} {next : S.Resp o → Prog S α} {state : σ}
  {waiting : List β} {index length : Nat} {closed : Bool}
  {respond : Option (List β) → S.Resp o}
  {peer : Endpoint S σ (other.delivery β) γ}

theorem ready_of_le (enough : cutting.limit index length ≤ waiting.length) :
    (cutting.delivery β).ready (waiting, index) length =
      some (waiting.take (cutting.limit index length),
        (waiting.drop (cutting.limit index length), index + 1)) :=
  if_pos enough

/-- A receive that may bring more than there is waits for the sender. -/
theorem move_short (acts : host.action o = .receive length respond)
    (some_waiting : waiting ≠ [])
    (short : ¬ cutting.limit index length ≤ waiting.length) :
    Endpoint.move host
      (⟨.op o next, state, (waiting, index), closed⟩ :
        Endpoint S σ (cutting.delivery β) α) =
      .whenIdle
        ⟨next (respond (some waiting)), state, ([], index + 1), closed⟩ := by
  have unready : (cutting.delivery β).ready (waiting, index) length = none :=
    if_neg short
  have rests : (cutting.delivery β).rest (waiting, index) length =
      some (waiting, ([], index + 1)) :=
    if_neg (mt List.isEmpty_iff.mp some_waiting)
  simp only [Endpoint.move, acts, unready, rests]

/-- A receive for which there is nothing waits for the sender or for the
end. -/
theorem move_empty (acts : host.action o = .receive length respond)
    (asks : 0 < length) :
    Endpoint.move host
      (⟨.op o next, state, ([], index), closed⟩ :
        Endpoint S σ (cutting.delivery β) α) =
      .whenClosed ⟨next (respond none), state, ([], index), closed⟩ := by
  have unready : (cutting.delivery β).ready ([], index) length = none :=
    if_neg (Nat.not_le_of_lt (cutting.limit_pos index asks))
  have nothing : (cutting.delivery β).rest ([], index) length = none := rfl
  simp only [Endpoint.move, acts, unready, nothing]

/-- While the sender is idle, a receive gets what the cut allows, or all there
is. -/
theorem receive (acts : host.action o = .receive length respond)
    (some_waiting : waiting ≠ []) (idle : peer.idle host closed = true) :
    Reaches host
      ((⟨.op o next, state, (waiting, index), closed⟩ :
        Endpoint S σ (cutting.delivery β) α), peer)
      (⟨next (respond (some (waiting.take (cutting.limit index length)))),
        state, (waiting.drop (cutting.limit index length), index + 1), closed⟩,
        peer) := by
  by_cases enough : cutting.limit index length ≤ waiting.length
  · exact (Advances.receive acts (ready_of_le enough) (.refl _)).left peer
  · have short : waiting.length ≤ cutting.limit index length := by omega
    rw [List.take_of_length_le short, List.drop_of_length_le short]
    have stepped : (session host (cutting.delivery β) (other.delivery β)
        α γ).step (⟨.op o next, state, (waiting, index), closed⟩, peer) .left =
        some (⟨next (respond (some waiting)), state, ([], index + 1), closed⟩,
          peer) := by
      simp only [session, Endpoint.advance, move_short acts some_waiting enough]
      exact if_pos idle
    exact .step stepped (.refl _)

/-- When everything is delivered and the peer has closed, a receive ends. -/
theorem receive_end (acts : host.action o = .receive length respond)
    (asks : 0 < length) (ended : peer.closed = true) :
    Reaches host
      ((⟨.op o next, state, ([], index), closed⟩ :
        Endpoint S σ (cutting.delivery β) α), peer)
      (⟨next (respond none), state, ([], index), closed⟩, peer) := by
  have stepped : (session host (cutting.delivery β) (other.delivery β)
      α γ).step (⟨.op o next, state, ([], index), closed⟩, peer) .left =
      some (⟨next (respond none), state, ([], index), closed⟩, peer) := by
    simp only [session, Endpoint.advance, move_empty acts asks, ended, if_true]
  exact .step stepped (.refl _)

/-- A side that waits for data while none is on its way is idle. -/
theorem waiting_idle (acts : host.action o = .receive length respond)
    (asks : 0 < length) :
    Endpoint.idle host
      (⟨.op o next, state, ([], index), closed⟩ :
        Endpoint S σ (cutting.delivery β) α) false = true := by
  simp [Endpoint.idle, move_empty acts asks]

end Cutting

/-- What is sent comes behind the data that is on its way. -/
theorem deliverAll_delivery {cutting : Cutting} {α : Type}
    {program : Prog S α} {state : σ} {waiting : List β} {index : Nat}
    {closed : Bool} (sent : List (List β)) :
    Endpoint.deliverAll
        (⟨program, state, (waiting, index), closed⟩ :
          Endpoint S σ (cutting.delivery β) α) sent =
      ⟨program, state, (waiting ++ sent.flatten, index), closed⟩ := by
  induction sent generalizing waiting with
  | nil => simp [Endpoint.deliverAll]
  | cons data sent inductionHypothesis =>
      rw [List.flatten_cons, ← List.append_assoc]
      exact inductionHypothesis

end RemoteCommand.Interaction
