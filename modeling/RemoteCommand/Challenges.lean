import RemoteCommand.ByteOrder
import RemoteCommand.Transition.System
import Mathlib.Data.Stream.Init

/-!
# Workers that draw challenges

Any number of workers call `long_rand`, each as often as it likes, and their
calls interleave.  They share the variable `run` of `set_rand_seed`, which is
tested and cleared without a lock, and the numbers that `rand` goes through.
`sequence seed` is the sequence that `srand` starts with `seed`; before the
first `srand` it is that of the seed 1.

An epoch is what happens between one `srand` and the next.  The epochs are
history, and so are the challenges that the calls have returned.
-/

namespace RemoteCommand

open Machine Transition

/-- The next thing that a worker does in `long_rand`. -/
inductive RandPc where
  /-- the worker is not in `long_rand` -/
  | idle
  /-- `if (run)` -/
  | testRun
  /-- `time(0)` -/
  | time
  | srand (seed : BitVec 32)
  /-- `run = 0` -/
  | clearRun
  /-- the loop is to turn `turns` times -/
  | rand (turns : Nat) (random : BitVec 64)
  deriving DecidableEq, Repr

/-- `srand` was called by `seeder`, and `rand` by the workers of `draws`. -/
structure Epoch (ι : Type) where
  seeder : Option ι
  seed : BitVec 32
  draws : List (ι × BitVec 31)

/-- An epoch goes through the sequence of its seed from the beginning, and there
is nothing drawn before the first `srand`. -/
structure Epoch.Sound {ι : Type} (sequence : BitVec 32 → Stream' (BitVec 31))
    (epoch : Epoch ι) : Prop where
  draws : epoch.draws.map Prod.snd =
    (sequence epoch.seed).take epoch.draws.length
  unseeded : epoch.seeder = none → epoch.draws = []

/-- The next number of the sequence. -/
theorem Epoch.Sound.draw {ι : Type} {sequence : BitVec 32 → Stream' (BitVec 31)}
    {epoch : Epoch ι} (sound : epoch.Sound sequence)
    (seeded : epoch.seeder ≠ none) (index : ι) :
    Epoch.Sound sequence
      { epoch with
        draws := epoch.draws ++
          [(index, ((sequence epoch.seed).drop epoch.draws.length).head)] } where
  draws := by
    rw [List.map_append, sound.draws, List.length_append, List.length_singleton,
      Stream'.take_succ', Stream'.head_drop]
    rfl
  unseeded := fun unseeded => absurd unseeded seeded

structure Challengers (ι : Type) where
  pc : ι → RandPc
  run : Bool
  /-- what `rand` will return -/
  rand : Stream' (BitVec 31)
  current : Epoch ι
  /-- the earlier epochs, the last one first -/
  past : List (Epoch ι)
  challenges : ι → List (BitVec 64)

namespace Challengers

inductive Action (ι : Type) where
  /-- `authenticate_client` calls `long_rand` -/
  | call (index : ι)
  | testRun (index : ι)
  | time (index : ι) (ltime : Int)
  | srand (index : ι)
  | clearRun (index : ι)
  | rand (index : ι)
  /-- `long_rand` returns -/
  | finish (index : ι)
  deriving DecidableEq, Repr

variable {ι : Type}

def start (sequence : BitVec 32 → Stream' (BitVec 31)) : Challengers ι where
  pc := fun _ => .idle
  run := true
  rand := sequence 1
  current := { seeder := none, seed := 1, draws := [] }
  past := []
  challenges := fun _ => []

/-- `srand` starts a sequence. -/
def reseed (state : Challengers ι) (sequence : BitVec 32 → Stream' (BitVec 31))
    (index : ι) (seed : BitVec 32) : Challengers ι :=
  { state with
    rand := sequence seed
    current := { seeder := some index, seed, draws := [] }
    past := state.current :: state.past }

/-- `rand` goes on in its sequence. -/
def draw (state : Challengers ι) (index : ι) : Challengers ι :=
  { state with
    rand := state.rand.tail
    current :=
      { state.current with
        draws := state.current.draws ++ [(index, state.rand.head)] } }

def epochs (state : Challengers ι) : List (Epoch ι) :=
  state.current :: state.past

/-- The workers that have called `srand`, the last one first. -/
def seeders (state : Challengers ι) : List ι :=
  state.epochs.filterMap Epoch.seeder

/-- All calls of `rand`, in their order. -/
def draws (state : Challengers ι) : List (ι × BitVec 31) :=
  state.epochs.reverse.flatMap Epoch.draws

theorem draws_reseed (state : Challengers ι)
    (sequence : BitVec 32 → Stream' (BitVec 31)) (index : ι)
    (seed : BitVec 32) :
    (state.reseed sequence index seed).draws = state.draws := by
  simp [draws, epochs, reseed]

theorem draws_draw (state : Challengers ι) (index : ι) :
    (state.draw index).draws = state.draws ++ [(index, state.rand.head)] := by
  simp [draws, epochs, draw]

variable [DecidableEq ι]

def setPc (state : Challengers ι) (index : ι) (pc : RandPc) : Challengers ι :=
  { state with pc := Function.update state.pc index pc }

def answer (state : Challengers ι) (index : ι) (random : BitVec 64) :
    Challengers ι :=
  { state with
    challenges := Function.update state.challenges index
      (state.challenges index ++ [random]) }

def step (sequence : BitVec 32 → Stream' (BitVec 31)) (state : Challengers ι) :
    Action ι → Option (Challengers ι)
  | .call index =>
      match state.pc index with
      | .idle => some (state.setPc index .testRun)
      | _ => none
  | .testRun index =>
      match state.pc index with
      | .testRun =>
          some (state.setPc index (if state.run then .time else .rand 8 0))
      | _ => none
  | .time index ltime =>
      match state.pc index with
      | .time => some (state.setPc index (.srand (BitVec.ofInt 32 ltime)))
      | _ => none
  | .srand index =>
      match state.pc index with
      | .srand seed =>
          some ((state.reseed sequence index seed).setPc index .clearRun)
      | _ => none
  | .clearRun index =>
      match state.pc index with
      | .clearRun => some { state.setPc index (.rand 8 0) with run := false }
      | _ => none
  | .rand index =>
      match state.pc index with
      | .rand (turns + 1) random =>
          some ((state.draw index).setPc index
            (.rand turns (addRandom random state.rand.head)))
      | _ => none
  | .finish index =>
      match state.pc index with
      | .rand 0 random => some ((state.answer index random).setPc index .idle)
      | _ => none

def system (sequence : BitVec 32 → Stream' (BitVec 31)) :
    System (Challengers ι) (Action ι) where
  step := step sequence

/-- What a step does, and where it starts. -/
def Moves (sequence : BitVec 32 → Stream' (BitVec 31))
    (state next : Challengers ι) : Action ι → Prop
  | .call index =>
      state.pc index = .idle ∧ next = state.setPc index .testRun
  | .testRun index =>
      state.pc index = .testRun ∧
        next = state.setPc index (if state.run then .time else .rand 8 0)
  | .time index ltime =>
      state.pc index = .time ∧
        next = state.setPc index (.srand (BitVec.ofInt 32 ltime))
  | .srand index =>
      ∃ seed, state.pc index = .srand seed ∧
        next = (state.reseed sequence index seed).setPc index .clearRun
  | .clearRun index =>
      state.pc index = .clearRun ∧
        next = { state.setPc index (.rand 8 0) with run := false }
  | .rand index =>
      ∃ turns random, state.pc index = .rand (turns + 1) random ∧
        next = (state.draw index).setPc index
          (.rand turns (addRandom random state.rand.head))
  | .finish index =>
      ∃ random, state.pc index = .rand 0 random ∧
        next = (state.answer index random).setPc index .idle

theorem step_moves {sequence : BitVec 32 → Stream' (BitVec 31)}
    {state next : Challengers ι} {action : Action ι}
    (stepped : (system sequence).step state action = some next) :
    Moves sequence state next action := by
  cases action with
  | call index | testRun index | time index ltime | clearRun index =>
      simp only [system, step] at stepped
      split at stepped
      next atPc =>
        cases stepped
        exact ⟨atPc, rfl⟩
      next => cases stepped
  | srand index =>
      simp only [system, step] at stepped
      split at stepped
      next seed atPc =>
        cases stepped
        exact ⟨seed, atPc, rfl⟩
      next => cases stepped
  | rand index =>
      simp only [system, step] at stepped
      split at stepped
      next turns random atPc =>
        cases stepped
        exact ⟨turns, random, atPc, rfl⟩
      next => cases stepped
  | finish index =>
      simp only [system, step] at stepped
      split at stepped
      next random atPc =>
        cases stepped
        exact ⟨random, atPc, rfl⟩
      next => cases stepped

variable {sequence : BitVec 32 → Stream' (BitVec 31)}
  {state next : Challengers ι} {index : ι}

/-! ## History -/

/-- What `rand` has returned to a worker. -/
def drawsOf (state : Challengers ι) (index : ι) : List (BitVec 31) :=
  (state.draws.filter fun each => each.1 = index).map Prod.snd

/-- What a worker has drawn: eight numbers for each of its challenges, in this
order, and those of the challenge that it is drawing. -/
def Shares (challenges : List (BitVec 64)) (pc : RandPc)
    (draws : List (BitVec 31)) : Prop :=
  ∃ (whole : List (List (BitVec 31))) (begun : List (BitVec 31)),
    draws = whole.flatten ++ begun ∧ (∀ each ∈ whole, each.length = 8) ∧
      challenges = whole.map drawn ∧
      match pc with
      | .rand turns random => begun.length + turns = 8 ∧ random = drawn begun
      | _ => begun = []

/-! ## Who calls srand -/

/-- What is known of a worker by its place. -/
def Placed (seeders : List ι) (index : ι) : RandPc → Prop
  | .time | .srand _ => index ∉ seeders
  | .clearRun => index ∈ seeders
  | .rand _ _ => seeders ≠ []
  | .idle | .testRun => True

structure Seeding (state : Challengers ι) : Prop where
  nodup : state.seeders.Nodup
  cleared : state.run = false → state.seeders ≠ []
  notCleared : state.run = true →
    ∀ index ∈ state.seeders, state.pc index = .clearRun
  placed : ∀ index, Placed state.seeders index (state.pc index)
  first : state.current.seeder = none → state.past = []

omit [DecidableEq ι] in
theorem start_seeding : (start sequence : Challengers ι).Seeding where
  nodup := List.nodup_nil
  cleared := fun cleared => by cases cleared
  notCleared := fun _ index member => by cases member
  placed := fun _ => trivial
  first := fun _ => rfl

theorem Seeding.placed_update (seeding : state.Seeding) {pc : RandPc}
    (here : Placed state.seeders index pc) (other : ι) :
    Placed state.seeders other (Function.update state.pc index pc other) := by
  by_cases same : other = index
  · rw [same, Function.update_self]
    exact here
  · rw [Function.update_of_ne same]
    exact seeding.placed other

/-- A worker goes on to a place where it may be, and leaves no place between
`srand` and `run = 0`. -/
theorem Seeding.setPc (seeding : state.Seeding) {pc : RandPc}
    (before : state.pc index ≠ .clearRun)
    (here : Placed state.seeders index pc) :
    (state.setPc index pc).Seeding where
  nodup := seeding.nodup
  cleared := seeding.cleared
  notCleared := by
    intro run other member
    have clears := seeding.notCleared run other member
    have different : other ≠ index := by
      rintro rfl
      exact before clears
    exact (Function.update_of_ne different _ _).trans clears
  placed := seeding.placed_update here
  first := seeding.first

theorem Seeding.reseed (seeding : state.Seeding) {seed : BitVec 32}
    (atPc : state.pc index = .srand seed) :
    ((state.reseed sequence index seed).setPc index .clearRun).Seeding := by
  have new : index ∉ state.seeders := by
    have placed := seeding.placed index
    rw [atPc] at placed
    exact placed
  refine
    { nodup := List.nodup_cons.2 ⟨new, seeding.nodup⟩
      cleared := fun _ => List.cons_ne_nil _ _
      notCleared := ?_
      placed := ?_
      first := fun unseeded => by cases unseeded }
  · intro run other member
    by_cases same : other = index
    · rw [same]
      exact Function.update_self _ _ _
    · have earlier := (List.mem_cons.1 member).resolve_left same
      exact (Function.update_of_ne same _ _).trans
        (seeding.notCleared run other earlier)
  · intro other
    change Placed (index :: state.seeders) other
      (Function.update state.pc index .clearRun other)
    by_cases same : other = index
    · rw [same, Function.update_self]
      exact List.mem_cons_self
    · have placed := seeding.placed other
      rw [Function.update_of_ne same]
      cases here : state.pc other <;> rw [here] at placed <;>
        simp_all [Placed]

theorem Seeding.clearRun (seeding : state.Seeding)
    (atPc : state.pc index = .clearRun) :
    ({ state.setPc index (.rand 8 0) with run := false }
      : Challengers ι).Seeding := by
  have placed := seeding.placed index
  rw [atPc] at placed
  have nonempty : state.seeders ≠ [] := List.ne_nil_of_mem placed
  exact
    { nodup := seeding.nodup
      cleared := fun _ => nonempty
      notCleared := fun run => by cases run
      placed := seeding.placed_update nonempty
      first := seeding.first }

theorem step_seeding {action : Action ι} (seeding : state.Seeding)
    (stepped : (system sequence).step state action = some next) :
    next.Seeding := by
  have moves := step_moves stepped
  cases action with
  | call index =>
      obtain ⟨atPc, rfl⟩ := moves
      exact seeding.setPc (by simp [atPc]) trivial
  | testRun index =>
      obtain ⟨atPc, rfl⟩ := moves
      refine seeding.setPc (by simp [atPc]) ?_
      split_ifs with run
      · intro member
        have clears := seeding.notCleared run index member
        simp [atPc] at clears
      · exact seeding.cleared (Bool.eq_false_of_not_eq_true run)
  | time index ltime =>
      obtain ⟨atPc, rfl⟩ := moves
      have placed := seeding.placed index
      rw [atPc] at placed
      exact seeding.setPc (by simp [atPc]) placed
  | srand index =>
      obtain ⟨seed, atPc, rfl⟩ := moves
      exact seeding.reseed atPc
  | clearRun index =>
      obtain ⟨atPc, rfl⟩ := moves
      exact seeding.clearRun atPc
  | rand index =>
      obtain ⟨turns, random, atPc, rfl⟩ := moves
      have placed := seeding.placed index
      rw [atPc] at placed
      have drawn : (state.draw index).Seeding :=
        { seeding with first := seeding.first }
      exact drawn.setPc (by simp [draw, atPc]) placed
  | finish index =>
      obtain ⟨random, atPc, rfl⟩ := moves
      have answered : (state.answer index random).Seeding :=
        { seeding with first := seeding.first }
      exact answered.setPc (by simp [answer, atPc]) trivial

/-! ## What rand returns -/

structure Drawing (sequence : BitVec 32 → Stream' (BitVec 31))
    (state : Challengers ι) : Prop where
  rand : state.rand =
    (sequence state.current.seed).drop state.current.draws.length
  epochs : ∀ epoch ∈ state.epochs, epoch.Sound sequence
  shares : ∀ index,
    Shares (state.challenges index) (state.pc index) (state.drawsOf index)

theorem start_drawing : (start sequence : Challengers ι).Drawing sequence where
  rand := rfl
  epochs := by
    intro epoch member
    cases List.mem_singleton.1 member
    exact ⟨rfl, fun _ => rfl⟩
  shares := fun index => ⟨[], [], rfl, List.forall_mem_nil _, rfl, rfl⟩

/-- A worker that is not in the loop has begun no challenge. -/
theorem Shares.move {challenges : List (BitVec 64)} {before after : RandPc}
    {draws : List (BitVec 31)} (shares : Shares challenges before draws)
    (outside : ∀ turns random, before ≠ .rand turns random)
    (enters : ∀ turns random, after = .rand turns random →
      turns = 8 ∧ random = 0) :
    Shares challenges after draws := by
  obtain ⟨whole, begun, split, lengths, made, place⟩ := shares
  have nothing : begun = [] := by
    cases before with
    | rand turns random => exact absurd rfl (outside turns random)
    | _ => exact place
  subst nothing
  refine ⟨whole, [], split, lengths, made, ?_⟩
  cases after with
  | rand turns random =>
      obtain ⟨rfl, rfl⟩ := enters turns random rfl
      exact ⟨rfl, rfl⟩
  | _ => rfl

theorem Shares.draw {challenges : List (BitVec 64)} {turns : Nat}
    {random : BitVec 64} {draws : List (BitVec 31)}
    (shares : Shares challenges (.rand (turns + 1) random) draws)
    (temp : BitVec 31) :
    Shares challenges (.rand turns (addRandom random temp))
      (draws ++ [temp]) := by
  obtain ⟨whole, begun, split, lengths, made, length, same⟩ := shares
  refine ⟨whole, begun ++ [temp], ?_, lengths, made, ?_, ?_⟩
  · rw [split, List.append_assoc]
  · rw [List.length_append, List.length_singleton]
    omega
  · rw [same, drawn, drawn, List.foldl_append]
    rfl

theorem Shares.finish {challenges : List (BitVec 64)} {random : BitVec 64}
    {draws : List (BitVec 31)}
    (shares : Shares challenges (.rand 0 random) draws) :
    Shares (challenges ++ [random]) .idle draws := by
  obtain ⟨whole, begun, split, lengths, made, length, same⟩ := shares
  refine ⟨whole ++ [begun], [], ?_, ?_, ?_, rfl⟩
  · rw [split]
    simp
  · intro each member
    rcases List.mem_append.1 member with earlier | last
    · exact lengths each earlier
    · rw [List.mem_singleton.1 last]
      exact length
  · rw [made, same, List.map_append, List.map_singleton]

theorem drawsOf_draw (state : Challengers ι) (index other : ι) :
    (state.draw index).drawsOf other =
      if index = other then state.drawsOf other ++ [state.rand.head]
      else state.drawsOf other := by
  rw [drawsOf, draws_draw, List.filter_append, List.map_append]
  split_ifs with same
  · subst same
    simp [drawsOf]
  · simp [drawsOf, same]

theorem Drawing.setPc (drawing : state.Drawing sequence) {pc : RandPc}
    (here : Shares (state.challenges index) pc (state.drawsOf index)) :
    (state.setPc index pc).Drawing sequence where
  rand := drawing.rand
  epochs := drawing.epochs
  shares := by
    intro other
    change Shares (state.challenges other)
      (Function.update state.pc index pc other) (state.drawsOf other)
    by_cases same : other = index
    · rw [same, Function.update_self]
      exact here
    · rw [Function.update_of_ne same]
      exact drawing.shares other

theorem Drawing.reseed (drawing : state.Drawing sequence) (seed : BitVec 32) :
    (state.reseed sequence index seed).Drawing sequence where
  rand := rfl
  epochs := by
    intro epoch member
    rcases List.mem_cons.1 member with rfl | earlier
    · exact ⟨rfl, fun unseeded => by cases unseeded⟩
    · exact drawing.epochs epoch earlier
  shares := by
    intro other
    rw [drawsOf, draws_reseed]
    exact drawing.shares other

omit [DecidableEq ι] in
/-- Who is in the loop has found the generator seeded. -/
theorem Seeding.seeded (seeding : state.Seeding) {turns : Nat}
    {random : BitVec 64} (atPc : state.pc index = .rand turns random) :
    state.current.seeder ≠ none := by
  intro unseeded
  have nonempty := seeding.placed index
  rw [atPc] at nonempty
  refine nonempty ?_
  simp [seeders, Challengers.epochs, seeding.first unseeded, unseeded]

/-- `rand` gives a worker the next number for its challenge. -/
theorem Drawing.draw (drawing : state.Drawing sequence)
    (seeded : state.current.seeder ≠ none) {turns : Nat} {random : BitVec 64}
    (atPc : state.pc index = .rand (turns + 1) random) :
    ((state.draw index).setPc index
      (.rand turns (addRandom random state.rand.head))).Drawing sequence where
  rand := by
    change state.rand.tail = (sequence state.current.seed).drop
      (state.current.draws ++ [(index, state.rand.head)]).length
    rw [drawing.rand, Stream'.tail_drop', List.length_append,
      List.length_singleton]
  epochs := by
    intro epoch member
    rcases List.mem_cons.1 member with rfl | earlier
    · have sound := (drawing.epochs _ List.mem_cons_self).draw seeded index
      rw [← drawing.rand] at sound
      exact sound
    · exact drawing.epochs epoch (List.mem_cons_of_mem _ earlier)
  shares := by
    intro other
    have shares := drawing.shares other
    change Shares (state.challenges other) (Function.update state.pc index
      (.rand turns (addRandom random state.rand.head)) other)
        ((state.draw index).drawsOf other)
    rw [drawsOf_draw]
    by_cases same : index = other
    · subst same
      rw [if_pos rfl, Function.update_self]
      rw [atPc] at shares
      exact shares.draw _
    · rw [if_neg same, Function.update_of_ne (Ne.symm same)]
      exact shares

theorem Drawing.finish (drawing : state.Drawing sequence)
    {random : BitVec 64} (atPc : state.pc index = .rand 0 random) :
    ((state.answer index random).setPc index .idle).Drawing sequence where
  rand := drawing.rand
  epochs := drawing.epochs
  shares := by
    intro other
    have shares := drawing.shares other
    change Shares (Function.update state.challenges index
      (state.challenges index ++ [random]) other)
        (Function.update state.pc index .idle other) (state.drawsOf other)
    by_cases same : other = index
    · subst same
      rw [Function.update_self, Function.update_self]
      rw [atPc] at shares
      exact shares.finish
    · rw [Function.update_of_ne same, Function.update_of_ne same]
      exact shares

theorem step_drawing {action : Action ι} (seeding : state.Seeding)
    (drawing : state.Drawing sequence)
    (stepped : (system sequence).step state action = some next) :
    next.Drawing sequence := by
  have moves := step_moves stepped
  cases action with
  | call index =>
      obtain ⟨atPc, rfl⟩ := moves
      exact drawing.setPc ((drawing.shares index).move
        (by simp [atPc]) (by simp))
  | testRun index =>
      obtain ⟨atPc, rfl⟩ := moves
      refine drawing.setPc ((drawing.shares index).move (by simp [atPc]) ?_)
      intro turns random
      split_ifs <;> simp +contextual
  | time index ltime =>
      obtain ⟨atPc, rfl⟩ := moves
      exact drawing.setPc ((drawing.shares index).move
        (by simp [atPc]) (by simp))
  | srand index =>
      obtain ⟨seed, atPc, rfl⟩ := moves
      have reseeded := @Drawing.reseed _ _ _ _ index drawing seed
      exact reseeded.setPc ((reseeded.shares index).move
        (by simp [reseed, atPc]) (by simp))
  | clearRun index =>
      obtain ⟨atPc, rfl⟩ := moves
      have moved : (state.setPc index (.rand 8 0)).Drawing sequence :=
        drawing.setPc ((drawing.shares index).move
          (by simp [atPc]) (by simp +contextual))
      exact { moved with shares := moved.shares }
  | rand index =>
      obtain ⟨turns, random, atPc, rfl⟩ := moves
      exact drawing.draw (seeding.seeded atPc) atPc
  | finish index =>
      obtain ⟨random, atPc, rfl⟩ := moves
      exact drawing.finish atPc

theorem run_sound {actions : List (Action ι)}
    (ran : (system sequence).run (start sequence) actions = some state) :
    state.Seeding ∧ state.Drawing sequence := by
  have keeps {before after : Challengers ι} {action : Action ι}
      (holds : before.Seeding ∧ before.Drawing sequence)
      (stepped : (system sequence).step before action = some after) :
      after.Seeding ∧ after.Drawing sequence :=
    ⟨step_seeding holds.1 stepped, step_drawing holds.1 holds.2 stepped⟩
  exact (system sequence).run_invariant keeps actions
    ⟨start_seeding, start_drawing⟩ ran

/-- All challenges come from `rand` behind an `srand`.  In every run of any
number of workers each worker calls `srand` at most once, each epoch goes
through the sequence of its seed, nothing is drawn before the first `srand`, and
each number goes to one challenge of the worker that has drawn it. -/
theorem challenges_accounted {actions : List (Action ι)}
    (ran : (system sequence).run (start sequence) actions = some state) :
    state.seeders.Nodup ∧
      (∀ epoch ∈ state.epochs, epoch.Sound sequence) ∧
      ∀ index, Shares (state.challenges index) (state.pc index)
        (state.drawsOf index) := by
  obtain ⟨seeding, drawing⟩ := run_sound ran
  exact ⟨seeding.nodup, drawing.epochs, drawing.shares⟩

/-- A generator that counts from its seed. -/
def counting (seed : BitVec 32) : Stream' (BitVec 31) :=
  fun count => BitVec.ofNat 31 (seed.toNat + count)

/-- Two workers seed the generator, one after the other. -/
def seededTwice : List (Action Nat) :=
  [.call 0, .testRun 0, .call 1, .testRun 1, .time 0 7, .time 1 8, .srand 0,
    .clearRun 0, .rand 0, .srand 1, .rand 0, .clearRun 1, .rand 1]

theorem challenges_accounted_seededTwice :
    ∃ state, (system counting).run (start counting) seededTwice = some state ∧
      state.seeders.Nodup ∧
      (∀ epoch ∈ state.epochs, epoch.Sound counting) ∧
      ∀ index, Shares (state.challenges index) (state.pc index)
        (state.drawsOf index) := by
  obtain ⟨state, ran⟩ := Option.isSome_iff_exists.mp
    (by decide : ((system counting).run (start counting) seededTwice).isSome)
  exact ⟨state, ran, challenges_accounted ran⟩

end Challengers

end RemoteCommand
