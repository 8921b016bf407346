import RemoteCommand.Interaction.Deadlock
import RemoteCommand.Commands

/-!
# Sides of a session that make calls

A side of a session has one connection, on which it sends and receives and which
it closes; a machine of some kind answers its other calls.  The steps of a side
are stated once, for every way of answering them.
-/

namespace RemoteCommand

open Interaction Machine

/-- The result of a `recv` for what the connection delivers. -/
def Received.of (length : Nat) : Option (List Byte) → Received length
  | none => .closed
  | some chars =>
      if valid : chars ≠ [] ∧ chars.length ≤ length then
        .data chars valid.1 valid.2
      else
        .error

theorem Received.of_some {length : Nat} {chars : List Byte}
    (nonempty : chars ≠ []) (fits : chars.length ≤ length) :
    Received.of length (some chars) = .data chars nonempty fits :=
  dif_pos ⟨nonempty, fits⟩

/-- What a call does to the connection. -/
def connectionAction : (call : Call) → Action Sys Byte call
  | .send _ data => .send data (data.length : Int)
  | .recv _ _ length => .receive length (Received.of length)
  | .close _ => .close ()
  | _ => .internal

/-- A side whose machine answers its calls in this way. -/
def machineHost {σ : Type}
    (answer : σ → (call : Call) → call.Answer × σ) : Host Sys Byte σ where
  action := connectionAction
  answer := answer

section Steps

variable {σ α γ : Type} {answer : σ → (call : Call) → call.Answer × σ}
  {D : Delivery Byte} {machine : σ} {inbox : D.Stream} {closed : Bool}
  {sent : List (List Byte)} {final : Endpoint Sys σ D α}

/-- A call that the machine answers. -/
theorem advances_call {call : Call} {next : call.Answer → Prog Sys α}
    {response : call.Answer} {after : σ}
    (acts : connectionAction call = .internal)
    (answers : answer machine call = (response, after))
    (rest : Advances (machineHost answer) ⟨next response, after, inbox, closed⟩
      sent final) :
    Advances (machineHost answer) ⟨.op call next, machine, inbox, closed⟩ sent
      final :=
  .internal acts answers rest

/-- A `send` whose failure is checked. -/
theorem advances_send {conn : Int} {data : List Byte}
    {failed next : Prog Sys α}
    (rest : Advances (machineHost answer) ⟨next, machine, inbox, false⟩ sent
      final) :
    Advances (machineHost answer)
      ⟨.op (.send conn data) fun sent => if sent < 0 then failed else next,
        machine, inbox, false⟩
      (data :: sent) final := by
  have succeeds : ¬ (data.length : Int) < 0 := by omega
  apply Advances.send rfl
  rw [if_neg succeeds]
  exact rest

theorem advances_close {conn : Int} {next : Unit → Prog Sys α}
    (rest : Advances (machineHost answer) ⟨next (), machine, inbox, true⟩ sent
      final) :
    Advances (machineHost answer)
      ⟨.op (.close conn) next, machine, inbox, closed⟩ sent final :=
  .close rfl rest

end Steps

/-! ## Receiving from a stream that is cut into pieces -/

section Receive

variable {σ α γ : Type} {answer : σ → (call : Call) → call.Answer × σ}
  {cutting other : Cutting} {machine : σ} {conn offset : Int} {length : Nat}
  {next : Received length → Prog Sys α} {waiting : List Byte} {index : Nat}
  {closed : Bool}

/-- A `recv` that gets what the cut allows, whatever is sent later. -/
theorem advances_receive {sent : List (List Byte)}
    {final : Endpoint Sys σ (cutting.delivery Byte) α}
    (asks : 0 < length) (enough : length ≤ waiting.length)
    (rest : ∀ nonempty fits, Advances (machineHost answer)
      ⟨next (.data (waiting.take (cutting.limit index length)) nonempty fits),
        machine, (waiting.drop (cutting.limit index length), index + 1),
        closed⟩
      sent final) :
    Advances (machineHost answer)
      (⟨.op (.recv conn offset length) next, machine, (waiting, index),
        closed⟩ : Endpoint Sys σ (cutting.delivery Byte) α) sent final := by
  have some_waiting : waiting ≠ [] :=
    List.ne_nil_of_length_pos (asks.trans_le enough)
  have nonempty := cutting.take_limit_ne_nil index asks some_waiting
  have fits := cutting.length_take_limit_le index length waiting
  apply Advances.receive rfl
    (Cutting.ready_of_le ((cutting.limit_le index length).trans enough))
  rw [Received.of_some nonempty fits]
  exact rest nonempty fits

/-- A piece that is large enough is received whole. -/
theorem advances_receive_whole {front behind : List Byte}
    {sent : List (List Byte)}
    {final : Endpoint Sys σ (cutting.delivery Byte) α}
    (asks : 0 < length) (asked : front.length = length)
    (enough : length ≤ cutting.size index)
    (rest : ∀ nonempty fits, Advances (machineHost answer)
      ⟨next (.data front nonempty fits), machine, (behind, index + 1), closed⟩
      sent final) :
    Advances (machineHost answer)
      (⟨.op (.recv conn offset length) next, machine, (front ++ behind, index),
        closed⟩ : Endpoint Sys σ (cutting.delivery Byte) α) sent final := by
  have limit : cutting.limit index length = front.length := by
    rw [Cutting.limit, Nat.min_eq_left enough, asked]
  apply advances_receive asks
  · rw [List.length_append, asked]
    exact Nat.le_add_right _ _
  · intro nonempty fits
    simp only [limit, List.take_left, List.drop_left]
    exact rest _ _

/-- Of a smaller piece less is received than was asked for. -/
theorem advances_receive_part {sent : List (List Byte)}
    {final : Endpoint Sys σ (cutting.delivery Byte) α}
    (asks : 0 < length) (enough : length ≤ waiting.length)
    (partly : ¬ length ≤ cutting.size index)
    (rest : ∀ chars nonempty fits, chars <+: waiting → chars.length < length →
      Advances (machineHost answer)
        ⟨next (.data chars nonempty fits), machine,
          (waiting.drop (cutting.limit index length), index + 1), closed⟩
        sent final) :
    Advances (machineHost answer)
      (⟨.op (.recv conn offset length) next, machine, (waiting, index),
        closed⟩ : Endpoint Sys σ (cutting.delivery Byte) α) sent final := by
  apply advances_receive asks enough
  intro nonempty fits
  apply rest _ _ _ (List.take_prefix _ _)
  have fewer : cutting.limit index length < length :=
    (Nat.min_le_right _ _).trans_lt (Nat.lt_of_not_le partly)
  exact (List.length_take_le _ _).trans_lt fewer

/-- A side that waits for data while none is on its way is idle. -/
theorem idle_receive (asks : 0 < length) :
    Endpoint.idle (machineHost answer)
      (⟨.op (.recv conn offset length) next, machine, ([], index), closed⟩ :
        Endpoint Sys σ (cutting.delivery Byte) α) false = true :=
  Cutting.waiting_idle rfl asks

/-- While the peer is idle, a `recv` gets what the cut allows, or all there
is. -/
theorem reaches_receive (asks : 0 < length) (some_waiting : waiting ≠ [])
    {peer : Endpoint Sys σ (other.delivery Byte) γ}
    (idle : peer.idle (machineHost answer) closed = true) :
    Reaches (machineHost answer)
      ((⟨.op (.recv conn offset length) next, machine, (waiting, index),
        closed⟩ : Endpoint Sys σ (cutting.delivery Byte) α), peer)
      (⟨next (.data (waiting.take (cutting.limit index length))
          (cutting.take_limit_ne_nil index asks some_waiting)
          (cutting.length_take_limit_le index length waiting)), machine,
        (waiting.drop (cutting.limit index length), index + 1), closed⟩,
        peer) := by
  rw [← Received.of_some]
  exact Cutting.receive rfl some_waiting idle

end Receive

end RemoteCommand
