import RemoteCommand.Interaction.Completion
import RemoteCommand.SegmentedHandshake

/-!
# The eight bytes of a number

What `send_long` puts on the wire arrives as a sequence of results of `recv`.
As long as these bring data, `recv_long` puts each piece behind the one before
it.  The loop has no branch for the end of the stream: a result of zero makes it
ask again, and a result of `-1` moves it back.
-/

namespace RemoteCommand

open Interaction Machine Prog

/-! ## What arrives -/

/-- The end of a stream of data. -/
inductive Ending where
  | closed
  | broken
  deriving DecidableEq, Repr

/-- The coming results of `recv` on a connection: pieces of data, and then an
end that does not go away. -/
structure Arrivals where
  pieces : List { piece : List Byte // piece ≠ [] }
  ending : Ending

namespace Arrivals

/-- The bytes that arrive. -/
def data (arrivals : Arrivals) : List Byte :=
  arrivals.pieces.flatMap Subtype.val

/-- The result at the end. -/
def atEnd (arrivals : Arrivals) (length : Nat) : Received length :=
  match arrivals.ending with
  | .closed => .closed
  | .broken => .error

/-- The result of a `recv` that asks for `length` bytes.  Of a longer piece the
rest is left for the next one. -/
def next (arrivals : Arrivals) (length : Nat) : Received length × Arrivals :=
  match arrivals.pieces with
  | [] => (arrivals.atEnd length, arrivals)
  | piece :: pieces =>
      if fits : piece.1.length ≤ length then
        (.data piece.1 piece.2 fits, { arrivals with pieces })
      else if asks : 0 < length then
        (.data (piece.1.take length)
          (by simpa [Nat.ne_of_gt asks] using piece.2)
          (List.length_take_le _ _),
          { arrivals with
            pieces := ⟨piece.1.drop length, by simpa using fits⟩ :: pieces })
      else
        (.closed, arrivals)

/-- A `recv` brings the next bytes, or the end. -/
theorem next_cases (arrivals : Arrivals) {length : Nat} (asks : 0 < length) :
    (arrivals.data = [] ∧
        arrivals.next length = (arrivals.atEnd length, arrivals)) ∨
      ∃ chars nonempty fits rest,
        arrivals.next length = (.data chars nonempty fits, rest) ∧
          arrivals.data = chars ++ rest.data ∧
            rest.ending = arrivals.ending := by
  obtain ⟨pieces, ending⟩ := arrivals
  cases pieces with
  | nil => exact .inl ⟨rfl, rfl⟩
  | cons piece pieces =>
      right
      unfold next
      by_cases fits : piece.1.length ≤ length
      · exact ⟨piece.1, piece.2, fits, _, dif_pos fits, rfl, rfl⟩
      · refine ⟨_, _, _, _, (dif_neg fits).trans (dif_pos asks), ?_, rfl⟩
        simp [data, ← List.append_assoc]

end Arrivals

/-- The answers of `recv`; every other call may be answered in any way. -/
def Call.Arrives : (call : Call) → Arrivals → call.Answer → Arrivals → Prop
  | .recv _ _ length, arrivals, received, after =>
      arrivals.next length = (received, after)
  | _, arrivals, _, after => after = arrivals

def arriving : Env Sys Arrivals where
  answer arrivals call response after := call.Arrives arrivals response after

/-! ## Enough bytes -/

/-- A `recv` that stays within the eight bytes of the number. -/
def Call.Inside : Call → Prop
  | .recv _ offset length => 0 ≤ offset ∧ offset + length ≤ 8
  | _ => True

section Loop

variable {α : Type} {conn : Int} {next : (Nat → Byte) → Prog Sys α}
  {post : α → Arrivals → Prop}

/-- What the first `recv` after `count` bytes brings of them. -/
theorem take_arrived {data more chars rest : List Byte} {count : Nat}
    (fits : chars.length ≤ data.length - count)
    (arrived : chars ++ rest = data.drop count ++ more) :
    chars = (data.drop count).take chars.length ∧
      rest = data.drop (count + chars.length) ++ more := by
  have within : chars.length ≤ (data.drop count).length := by
    rwa [List.length_drop]
  constructor
  · have first := congrArg (List.take chars.length) arrived
    rwa [List.take_left, List.take_append_of_le_length within] at first
  · have others := congrArg (List.drop chars.length) arrived
    rwa [List.drop_left, List.drop_append_of_le_length within,
      List.drop_drop] at others

/-- The loop of `recv_long` fills the number with the next eight bytes, in any
pieces.  The induction is on the bytes that are missing. -/
theorem completes_recvLongLoop {data more : List Byte} (eight : data.length = 8)
    (done : ∀ memory rest, Filled memory data 8 → rest.data = more →
      Completes arriving Call.Inside post (next memory) rest) (turns : Nat) :
    ∀ {count : Nat} {memory : Nat → Byte} {arrivals : Arrivals}, count ≤ 8 →
      8 ≤ count + turns → Filled memory data count →
      arrivals.data = data.drop count ++ more →
      Completes arriving Call.Inside post
        (.loop (recvLongTurn conn) ((count : Int), memory) next) arrivals := by
  induction turns with
  | zero =>
      intro count memory arrivals few enough filled arrive
      obtain rfl : count = 8 := by omega
      refine .loop ?_
      rw [List.drop_of_length_le eight.le, List.nil_append] at arrive
      exact done memory arrivals filled arrive
  | succ turns inductionHypothesis =>
      intro count memory arrivals few enough filled arrive
      refine .loop ?_
      by_cases all : count = 8
      · subst all
        rw [List.drop_of_length_le eight.le, List.nil_append] at arrive
        exact done memory arrivals filled arrive
      · have asked : (8 - (count : Int)).toNat = 8 - count := by omega
        have asks : 0 < (8 - (count : Int)).toNat := by omega
        unfold unroll
        rw [recvLongTurn_bind conn (by omega)]
        refine .op ⟨by omega, by omega⟩ ⟨_, _, rfl⟩ fun received rest came => ?_
        change arrivals.next _ = (received, rest) at came
        rcases arrivals.next_cases asks with
          ⟨nothing, _⟩ | ⟨chars, nonempty, fits, others, brings, split, _⟩
        · rw [nothing] at arrive
          have length := congrArg List.length arrive
          simp only [List.length_nil, List.length_append, List.length_drop,
            eight] at length
          omega
        obtain ⟨rfl, rfl⟩ := Prod.mk.inj (brings.symm.trans came)
        have within : chars.length ≤ data.length - count := by
          rw [eight]
          exact asked ▸ fits
        obtain ⟨part, left⟩ := take_arrived within (split.symm.trans arrive)
        have further := filled.store chars.length
        rw [← part] at further
        have positive := List.length_pos_iff.2 nonempty
        have later := @inductionHypothesis (count + chars.length) _ others
          (by omega) (by omega) further left
        exact_mod_cast later

end Loop

theorem completes_recvLong (host : Endian) (conn : Int) {data more : List Byte}
    (eight : data.length = 8) {arrivals : Arrivals}
    (arrive : arrivals.data = data ++ more)
    {post : Int × BitVec 64 → Arrivals → Prop}
    (done : ∀ memory rest, Filled memory data 8 → rest.data = more →
      post (0, nlltoh host (ofMemory host memory)) rest) :
    Completes arriving Call.Inside post (recvLong host conn) arrivals := by
  unfold recvLong
  simp only [bind_eq, op_bind, ret_bind, pure_eq, recvLongLoop_eq,
    iterate_bind]
  refine .op trivial ⟨[], arrivals, rfl⟩ fun stale rest unread => ?_
  cases unread
  exact completes_recvLongLoop eight
    (fun memory rest filled left => .ret (done memory rest filled left)) 8
    (Nat.zero_le 8) (Nat.le_refl 8) (filled_nothing _ data) arrive

/-- Fewer than eight bytes are there and come. -/
def Lacking (state : Int × (Nat → Byte)) (arrivals : Arrivals) : Prop :=
  state.1 + (arrivals.data.length : Int) < 8

theorem recvLongTurn_lacking (conn : Int) (state : Int × (Nat → Byte))
    (arrivals : Arrivals) (lacking : Lacking state arrivals) :
    Ensures arriving (recvLongTurn conn state) arrivals
      fun _ result rest => result.elim (fun next => Lacking next rest)
        fun _ => False := by
  obtain ⟨count, memory⟩ := state
  unfold Lacking at *
  dsimp only at lacking
  rw [← bind_ret (recvLongTurn conn (count, memory)),
    recvLongTurn_bind conn (by omega)]
  refine (ensures_op _ _).2 fun received rest came => ?_
  change arrivals.next _ = (received, rest) at came
  rcases arrivals.next_cases (show 0 < (8 - count).toNat by omega) with
    ⟨_, ends⟩ | ⟨chars, nonempty, fits, others, brings, split, _⟩
  · obtain ⟨rfl, rfl⟩ := Prod.mk.inj (ends.symm.trans came)
    unfold Arrivals.atEnd
    cases arrivals.ending with
    | closed =>
        refine (ensures_ret _).2 ?_
        dsimp only [Sum.elim_inl]
        omega
    | broken =>
        refine (ensures_ret _).2 ?_
        dsimp only [Sum.elim_inl]
        omega
  · obtain ⟨rfl, rfl⟩ := Prod.mk.inj (brings.symm.trans came)
    refine (ensures_ret _).2 ?_
    rw [split, List.length_append, Nat.cast_add] at lacking
    dsimp only [Sum.elim_inl]
    omega

/-- Without eight bytes `recv_long` does not return. -/
theorem recvLong_no_end (host : Endian) (conn : Int) {arrivals : Arrivals}
    (few : arrivals.data.length < 8) :
    Ensures arriving (recvLong host conn) arrivals fun _ _ _ => False := by
  unfold recvLong
  simp only [bind_eq, op_bind, ret_bind, pure_eq, recvLongLoop_eq]
  refine (ensures_op _ _).2 fun stale rest unread => Ensures.bind ?_
  cases unread
  have lacking : Lacking (0, fun index => stale.getD index 0) arrivals := by
    unfold Lacking
    dsimp only
    omega
  exact (iterate_no_end (recvLongTurn_lacking conn) lacking).mono
    fun _ _ _ absurd => absurd.elim

section Broken

variable {α : Type} {conn count : Int} {next : (Nat → Byte) → Prog Sys α}
  {arrivals rest : Arrivals} {memory : Nat → Byte} {trace : List (Event Sys)}

/-- A turn whose `recv` fails. -/
theorem failing_turn (few : count < 8)
    (fails : arrivals.next (8 - count).toNat = (.error, arrivals))
    (run : Runs arriving (.loop (recvLongTurn conn) (count - 1, memory) next)
      arrivals trace none rest) :
    Runs arriving (.loop (recvLongTurn conn) (count, memory) next) arrivals
      (⟨.recv conn count (8 - count).toNat, .error⟩ :: trace) none rest := by
  refine .loop ?_
  unfold unroll
  rw [recvLongTurn_bind conn few]
  exact .op fails run

/-- A turn whose `recv` brings data. -/
theorem filling_turn (few : count < 8) {chars : List Byte}
    {nonempty : chars ≠ []} {fits : chars.length ≤ (8 - count).toNat}
    {others : Arrivals}
    (brings : arrivals.next (8 - count).toNat =
      (.data chars nonempty fits, others))
    (run : Runs arriving (.loop (recvLongTurn conn)
      (count + chars.length, store memory count chars) next) others trace none
      rest) :
    Runs arriving (.loop (recvLongTurn conn) (count, memory) next) arrivals
      (⟨.recv conn count (8 - count).toNat, .data chars nonempty fits⟩ :: trace)
      none rest := by
  refine .loop ?_
  unfold unroll
  rw [recvLongTurn_bind conn few]
  exact .op brings run

/-- Each failed `recv` moves the loop one byte back, in the end out of the
number. -/
theorem recvLongLoop_leaves (noData : arrivals.data = [])
    (broken : arrivals.ending = .broken) (steps : Nat) :
    ∀ {count : Int}, count < 8 → count < steps →
      ∃ trace, Runs arriving (.loop (recvLongTurn conn) (count, memory) next)
          arrivals trace none arrivals ∧
        ∃ event ∈ trace, ¬ Call.Inside event.1 := by
  have fails {count : Int} (few : count < 8) :
      arrivals.next (8 - count).toNat = (.error, arrivals) := by
    rcases arrivals.next_cases (show 0 < (8 - count).toNat by omega) with
      ⟨_, ends⟩ | ⟨chars, nonempty, _, _, _, split, _⟩
    · rw [ends, Arrivals.atEnd, broken]
    · rw [noData] at split
      exact absurd (List.append_eq_nil_iff.1 split.symm).1 nonempty
  induction steps with
  | zero =>
      intro count few below
      refine ⟨_, failing_turn few (fails few) (.stop _ _), _,
        List.mem_cons_self, fun inside => ?_⟩
      have first := inside.1
      omega
  | succ steps inductionHypothesis =>
      intro count few below
      obtain ⟨trace, run, event, member, left⟩ :=
        @inductionHypothesis (count - 1) (by omega) (by omega)
      exact ⟨_, failing_turn few (fails few) run, event,
        List.mem_cons_of_mem _ member, left⟩

/-- What comes before the first failure does not change this. -/
theorem recvLongLoop_leaves_after (broken : arrivals.ending = .broken) :
    ∀ {memory : Nat → Byte} {count : Int},
      count + (arrivals.data.length : Int) < 8 →
      ∃ trace final,
        Runs arriving (.loop (recvLongTurn conn) (count, memory) next) arrivals
            trace none final ∧
          ∃ event ∈ trace, ¬ Call.Inside event.1 := by
  generalize size : arrivals.data.length = bytes
  induction bytes using Nat.strong_induction_on generalizing arrivals with
  | _ bytes inductionHypothesis =>
  intro memory count few
  rcases arrivals.next_cases (show 0 < (8 - count).toNat by omega) with
    ⟨noData, _⟩ | ⟨chars, nonempty, fits, others, brings, split, same⟩
  · obtain ⟨trace, run, left⟩ := @recvLongLoop_leaves α conn next arrivals memory
      noData broken 8 count (by omega) (by omega)
    exact ⟨trace, arrivals, run, left⟩
  · have positive := List.length_pos_iff.2 nonempty
    have length := congrArg List.length split
    rw [List.length_append] at length
    obtain ⟨trace, final, run, event, member, left⟩ :=
      @inductionHypothesis others.data.length (by omega) others
        (same.trans broken) rfl (store memory count chars)
        (count + chars.length) (by omega)
    exact ⟨_, final, filling_turn (by omega) brings run, event,
      List.mem_cons_of_mem _ member, left⟩

end Broken

/-- The same arrivals behind another piece. -/
def Arrivals.behind (arrivals : Arrivals) (chars : List Byte)
    (nonempty : chars ≠ []) : Arrivals :=
  { arrivals with pieces := ⟨chars, nonempty⟩ :: arrivals.pieces }

/-- `recv_long` comes to an end, asks for bytes of the number only, and returns
an error when there are too few, so that `authenticate_server` gives up. -/
structure RecvLongRobust (host : Endian) (conn : Int) (arrivals : Arrivals) :
    Prop where
  completes : Completes arriving Call.Inside
    (fun result _ => arrivals.data.length < 8 → result.1 < 0)
    (recvLong host conn) arrivals
  reports : arrivals.data.length < 8 → ∀ serverToken clientToken,
    Completes arriving (fun _ => True) (fun ret _ => ret = connErr)
      (authenticateServer host conn serverToken clientToken)
      (arrivals.behind (bytes "300") (by decide))

section Robust

variable {host : Endian} {conn : Int} {arrivals : Arrivals}

theorem robust_of_enough (enough : 8 ≤ arrivals.data.length) :
    RecvLongRobust host conn arrivals := by
  have eight : (arrivals.data.take 8).length = 8 :=
    List.length_take_of_le enough
  refine ⟨?_, fun few => absurd few (Nat.not_lt.2 enough)⟩
  exact completes_recvLong host conn eight (List.take_append_drop 8 _).symm
    fun _ _ _ _ few => absurd few (Nat.not_lt.2 enough)

/-- A peer that closes makes it ask for ever, and a broken connection drives it
out of the number. -/
theorem not_robust_of_few (few : arrivals.data.length < 8) :
    ¬ RecvLongRobust host conn arrivals := by
  intro robust
  cases ending : arrivals.ending with
  | closed =>
      obtain ⟨trace, value, final, run, _⟩ := robust.completes.exists_run
      exact recvLong_no_end host conn few _ _ _ run
  | broken =>
      obtain ⟨trace, final, run, event, member, outside⟩ :=
        @recvLongLoop_leaves_after _ conn
          (fun nVal => .ret ((0 : Int), nlltoh host (ofMemory host nVal)))
          arrivals ending (fun _ => 0) 0 (by omega)
      have reading : Runs arriving (recvLong host conn) arrivals
          (⟨.indeterminate, []⟩ :: trace) none final := by
        unfold recvLong
        simp only [bind_eq, op_bind, ret_bind, pure_eq, recvLongLoop_eq,
          iterate_bind]
        exact .op rfl run
      exact outside (robust.completes.allows reading _
        (List.mem_cons_of_mem _ member))

/-- The loop is right exactly when the peer does not end the stream within the
number. -/
theorem recvLong_robust_iff :
    RecvLongRobust host conn arrivals ↔ 8 ≤ arrivals.data.length := by
  refine ⟨fun robust => ?_, robust_of_enough⟩
  by_contra few
  exact not_robust_of_few (Nat.not_le.1 few) robust

end Robust

/-- A peer that sends three bytes of the challenge, and then closes or fails. -/
theorem recvLong_not_robust :
    ¬ RecvLongRobust .little 3 ⟨[⟨[1, 2, 3], by decide⟩], .closed⟩ ∧
      ¬ RecvLongRobust .little 3 ⟨[⟨[1, 2, 3], by decide⟩], .broken⟩ :=
  ⟨not_robust_of_few (by decide), not_robust_of_few (by decide)⟩

end RemoteCommand
