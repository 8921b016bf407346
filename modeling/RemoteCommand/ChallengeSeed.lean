import RemoteCommand.AuthenticationSession
import RemoteCommand.Challenges

/-!
# The seed of the challenges

`set_rand_seed` is to run once.  It does, exactly when the workers come to its
test one by one; otherwise several clients can get one challenge.  A client that
guesses the second in which the generator was seeded finds out the token from
the number that it is sent.
-/

namespace RemoteCommand

open Interaction Machine Transition

namespace Challengers

variable {ι : Type} [DecidableEq ι] {sequence : BitVec 32 → Stream' (BitVec 31)}
  {state next : Challengers ι} {index : ι}

/-! ## Only once -/

/-- Between the test of `run` and the `srand`. -/
def SeedsNext : RandPc → Prop
  | .time | .srand _ => True
  | _ => False

/-- Between the test of `run` and `run = 0`. -/
def InBlock : RandPc → Prop
  | .time | .srand _ | .clearRun => True
  | _ => False

/-- The worker has found `run` set. -/
def Entered (state : Challengers ι) (index : ι) : Prop :=
  index ∈ state.seeders ∨ SeedsNext (state.pc index)

def OnlyOnce (state : Challengers ι) : Prop :=
  ∀ first second, state.Entered first → state.Entered second → first = second

/-- Nobody is in the block of `if (run)` when a worker comes to it, or `run` has
been cleared. -/
def FindsAlone (state : Challengers ι) : Action ι → Prop
  | .testRun _ => state.run = true → ∀ other, ¬ InBlock (state.pc other)
  | _ => True

/-- A step that enters the block. -/
def Enters (state : Challengers ι) (index : ι) : Action ι → Prop
  | .testRun other => state.run = true ∧ other = index
  | _ => False

theorem entered_setPc {pc : RandPc} {other : ι}
    (same : SeedsNext pc ↔ SeedsNext (state.pc index)) :
    (state.setPc index pc).Entered other ↔ state.Entered other := by
  have seeds : SeedsNext (Function.update state.pc index pc other) ↔
      SeedsNext (state.pc other) := by
    by_cases here : other = index
    · rw [here, Function.update_self]
      exact same
    · rw [Function.update_of_ne here]
  exact or_congr Iff.rfl seeds

theorem step_entered {action : Action ι} {other : ι}
    (stepped : (system sequence).step state action = some next) :
    next.Entered other ↔ state.Entered other ∨ state.Enters other action := by
  have moves := step_moves stepped
  cases action with
  | call index =>
      obtain ⟨atPc, rfl⟩ := moves
      rw [entered_setPc (by simp [SeedsNext, atPc])]
      simp [Enters]
  | testRun index =>
      obtain ⟨atPc, rfl⟩ := moves
      by_cases run : state.run = true
      · by_cases same : other = index
        · subst same
          simp [Entered, Enters, Challengers.setPc, SeedsNext, run]
        · simp [Entered, Enters, Challengers.setPc, seeders, epochs, run, same,
            Ne.symm same]
      · rw [if_neg run, entered_setPc (by simp [SeedsNext, atPc])]
        simp [Enters, run]
  | time index ltime =>
      obtain ⟨atPc, rfl⟩ := moves
      rw [entered_setPc (by simp [SeedsNext, atPc])]
      simp [Enters]
  | srand index =>
      obtain ⟨seed, atPc, rfl⟩ := moves
      have none : ¬ state.Enters other (.srand index) := id
      rw [or_iff_left none]
      by_cases same : other = index
      · subst same
        exact iff_of_true (.inl List.mem_cons_self)
          (.inr (by simp [SeedsNext, atPc]))
      · have seeded : other ∈ index :: state.seeders ↔ other ∈ state.seeders := by
          simp [same]
        have place : SeedsNext
            (Function.update state.pc index RandPc.clearRun other) ↔
              SeedsNext (state.pc other) := by
          rw [Function.update_of_ne same]
        exact or_congr seeded place
  | clearRun index =>
      obtain ⟨atPc, rfl⟩ := moves
      have moved := @entered_setPc _ _ state index (.rand 8 0) other
        (by simp [SeedsNext, atPc])
      exact moved.trans (by simp [Enters])
  | rand index =>
      obtain ⟨turns, random, atPc, rfl⟩ := moves
      rw [entered_setPc (by simp [SeedsNext, draw, atPc])]
      simp [Enters, Entered, draw, seeders, epochs]
  | finish index =>
      obtain ⟨random, atPc, rfl⟩ := moves
      rw [entered_setPc (by simp [SeedsNext, answer, atPc])]
      simp [Enters, Entered, answer, seeders, epochs]

omit [DecidableEq ι] in
/-- While `run` is set, the workers that have found it so are in the block. -/
theorem Seeding.entered_iff (seeding : state.Seeding) (run : state.run = true)
    (other : ι) : state.Entered other ↔ InBlock (state.pc other) := by
  have placed := seeding.placed other
  constructor
  · rintro (member | seeds)
    · rw [seeding.notCleared run other member]
      trivial
    · cases here : state.pc other <;> rw [here] at seeds <;> trivial
  · intro inBlock
    cases here : state.pc other <;> rw [here] at inBlock placed
    case time | srand => exact .inr (by simp [SeedsNext, here])
    case clearRun => exact .inl placed
    all_goals exact inBlock.elim

theorem step_onlyOnce {action : Action ι} (seeding : state.Seeding)
    (once : state.OnlyOnce)
    (stepped : (system sequence).step state action = some next) :
    next.OnlyOnce ↔ state.FindsAlone action := by
  have entered (other : ι) := @step_entered _ _ _ _ _ action other stepped
  have moves := step_moves stepped
  by_cases enters : ∃ index, state.Enters index action
  · obtain ⟨index, enters⟩ := enters
    cases action with
    | testRun other =>
        obtain ⟨run, rfl⟩ := enters
        have here : next.Entered other := (entered other).2 (.inr ⟨run, rfl⟩)
        constructor
        · intro nextOnce _ another inBlock
          have before := (seeding.entered_iff run another).2 inBlock
          have same := nextOnce another other
            ((entered another).2 (.inl before)) here
          subst same
          rw [moves.1] at inBlock
          exact inBlock
        · intro alone
          have none (another : ι) : ¬ state.Entered another := fun before =>
            alone run another ((seeding.entered_iff run another).1 before)
          have only (another : ι) (after : next.Entered another) :
              another = other := by
            rcases (entered another).1 after with before | ⟨_, same⟩
            · exact absurd before (none another)
            · exact same.symm
          intro first second firstEntered secondEntered
          rw [only first firstEntered, only second secondEntered]
    | _ => exact enters.elim
  · have same (other : ι) : next.Entered other ↔ state.Entered other := by
      rw [entered, or_iff_left fun enters' => enters ⟨other, enters'⟩]
    have alone : state.FindsAlone action := by
      cases action with
      | testRun index =>
          intro run
          exact absurd ⟨index, run, rfl⟩ enters
      | _ => trivial
    refine iff_of_true ?_ alone
    intro first second firstEntered secondEntered
    exact once first second ((same first).1 firstEntered)
      ((same second).1 secondEntered)

omit [DecidableEq ι] in
theorem start_onlyOnce : (start sequence : Challengers ι).OnlyOnce := by
  rintro first second (member | seeds)
  · cases member
  · exact seeds.elim

omit [DecidableEq ι] in
/-- Where one worker only has called `srand`, nothing is drawn before. -/
theorem OnlyOnce.draws_eq (once : state.OnlyOnce) (seeding : state.Seeding)
    (epochs : ∀ epoch ∈ state.epochs, epoch.Sound sequence) :
    state.draws = state.current.draws := by
  have earlier : ∀ epoch ∈ state.past, epoch.draws = [] := by
    intro epoch member
    refine (epochs epoch (List.mem_cons_of_mem _ member)).unseeded ?_
    by_contra seeded
    obtain ⟨first, isFirst⟩ := Option.ne_none_iff_exists'.1 seeded
    have among : first ∈ state.past.filterMap Epoch.seeder :=
      List.mem_filterMap.2 ⟨epoch, member, isFirst⟩
    cases last : state.current.seeder with
    | none =>
        rw [seeding.first last] at member
        cases member
    | some second =>
        have seeders : state.seeders =
            second :: state.past.filterMap Epoch.seeder := by
          simp [Challengers.seeders, Challengers.epochs, last]
        have nodup := seeding.nodup
        rw [seeders, List.nodup_cons] at nodup
        have same : first = second := by
          refine once first second (.inl ?_) (.inl ?_) <;> rw [seeders]
          · exact List.mem_cons_of_mem _ among
          · exact List.mem_cons_self
        exact nodup.1 (same ▸ among)
  have none : state.past.reverse.flatMap Epoch.draws = [] :=
    List.flatMap_eq_nil_iff.2 fun epoch member =>
      earlier epoch (List.mem_reverse.1 member)
  simp [draws, Challengers.epochs, none]

/-- The comment "Only run once" in `set_rand_seed`.  In all states of a run one
worker at most has entered the block of `if (run)`, exactly when no worker comes
to the test while another one is in the block; then all challenges are drawn
from one sequence, the parts of which are used once. -/
theorem only_once_iff (actions : List (Action ι)) :
    ((system sequence).StatesMeet OnlyOnce (start sequence) actions ↔
        (system sequence).StepsMeet FindsAlone (start sequence) actions) ∧
      ((system sequence).StepsMeet FindsAlone (start sequence) actions →
        ∀ state, (system sequence).run (start sequence) actions = some state →
          ∃ seed, state.draws.map Prod.snd =
            (sequence seed).take state.draws.length) := by
  have exactly : (system sequence).StatesMeet OnlyOnce (start sequence) actions ↔
      (system sequence).StepsMeet FindsAlone (start sequence) actions :=
    (system sequence).statesMeet_iff_stepsMeet step_seeding step_onlyOnce
      actions start_seeding start_onlyOnce
  refine ⟨exactly, fun meets state ran => ?_⟩
  obtain ⟨seeding, drawing⟩ := run_sound ran
  have once := (exactly.2 meets).last ran
  refine ⟨state.current.seed, ?_⟩
  rw [once.draws_eq seeding drawing.epochs]
  exact (drawing.epochs _ List.mem_cons_self).draws

/-! ## In the same second -/

/-- The workers come to the block. -/
def comes (ltime : Int) (index : ι) : List (Action ι) :=
  [.call index, .testRun index, .time index ltime]

/-- A worker goes through the rest of `long_rand` undisturbed. -/
def seedsAndDraws (index : ι) : List (Action ι) :=
  [.srand index, .clearRun index] ++
    (List.replicate 8 (.rand index) ++ [.finish index])

/-- Workers that have all found `run` set, one after the other. -/
def sameSecond (workers : List ι) (ltime : Int) : List (Action ι) :=
  workers.flatMap (comes ltime) ++ workers.flatMap seedsAndDraws

theorem run_comes (ltime : Int) (workers : List ι) :
    ∀ {state : Challengers ι}, state.run = true → workers.Nodup →
      (∀ index ∈ workers, state.pc index = .idle) →
      ∃ next, (system sequence).run state (workers.flatMap (comes ltime)) =
          some next ∧
        (∀ index ∈ workers, next.pc index = .srand (BitVec.ofInt 32 ltime)) ∧
        (∀ index ∉ workers, next.pc index = state.pc index) ∧
        next.challenges = state.challenges := by
  induction workers with
  | nil =>
      intro state _ _ _
      exact ⟨state, rfl, List.forall_mem_nil _, fun _ _ => rfl, rfl⟩
  | cons index workers inductionHypothesis =>
      intro state run distinct idle
      obtain ⟨new, distinct⟩ := List.nodup_cons.1 distinct
      let seed := RandPc.srand (BitVec.ofInt 32 ltime)
      have came : (system sequence).run state (comes ltime index) =
          some (state.setPc index seed) := by
        simp [comes, System.run, system, step, setPc, run, seed,
          idle index List.mem_cons_self]
      have others (other : ι) (different : other ≠ index) :
          (state.setPc index seed).pc other = state.pc other :=
        Function.update_of_ne different _ _
      have idleThere : ∀ other ∈ workers,
          (state.setPc index seed).pc other = .idle := by
        intro other member
        rw [others other (fun same => new (same ▸ member))]
        exact idle other (List.mem_cons_of_mem _ member)
      obtain ⟨next, later, seeding, kept, same⟩ :=
        @inductionHypothesis (state.setPc index seed) run distinct idleThere
      refine ⟨next, ?_, ?_, ?_, same⟩
      · rw [List.flatMap_cons, System.run_append, came]
        exact later
      · intro other member
        rcases List.mem_cons.1 member with rfl | member
        · rw [kept other new]
          exact Function.update_self _ _ _
        · exact seeding other member
      · intro other absent
        rw [List.mem_cons, not_or] at absent
        rw [kept other absent.2, others other absent.1]

theorem run_rands (turns : Nat) :
    ∀ {state : Challengers ι} {random : BitVec 64},
      state.pc index = .rand turns random →
      ∃ next, (system sequence).run state
            (List.replicate turns (.rand index)) = some next ∧
        next.pc index =
          .rand 0 ((state.rand.take turns).foldl addRandom random) ∧
        (∀ other, other ≠ index → next.pc other = state.pc other) ∧
        next.challenges = state.challenges := by
  induction turns with
  | zero =>
      intro state random atPc
      exact ⟨state, rfl, atPc, fun _ _ => rfl, rfl⟩
  | succ turns inductionHypothesis =>
      intro state random atPc
      let drawing := (state.draw index).setPc index
        (.rand turns (addRandom random state.rand.head))
      have stepped : (system sequence).step state (.rand index) =
          some drawing := by
        simp [system, step, atPc, drawing]
      obtain ⟨next, later, ends, others, same⟩ :=
        @inductionHypothesis drawing _ (Function.update_self _ _ _)
      refine ⟨next, ?_, ends, ?_, same⟩
      · exact (System.run_cons _).2 ⟨drawing, stepped, later⟩
      · intro other different
        rw [others other different]
        exact Function.update_of_ne different _ _

theorem run_seedsAndDraws {seed : BitVec 32}
    (atPc : state.pc index = .srand seed) :
    ∃ next, (system sequence).run state (seedsAndDraws index) = some next ∧
      next.challenges index =
        state.challenges index ++ [drawn ((sequence seed).take 8)] ∧
      ∀ other, other ≠ index → next.pc other = state.pc other ∧
        next.challenges other = state.challenges other := by
  let seeded := (state.reseed sequence index seed).setPc index .clearRun
  let cleared : Challengers ι :=
    { seeded.setPc index (.rand 8 0) with run := false }
  have begins : (system sequence).run state [.srand index, .clearRun index] =
      some cleared := by
    simp [System.run, system, step, atPc, seeded, cleared, Challengers.setPc]
  obtain ⟨middle, draws, ends, others, same⟩ :=
    @run_rands _ _ sequence index 8 cleared 0 (Function.update_self _ _ _)
  let final := (middle.answer index (drawn ((sequence seed).take 8))).setPc
    index .idle
  have finished : (system sequence).run middle [.finish index] = some final := by
    simp [System.run, system, step, ends, final]
    rfl
  refine ⟨final, ?_, ?_, ?_⟩
  · rw [seedsAndDraws, System.run_append, begins, Option.bind_some,
      System.run_append, draws]
    exact finished
  · change Function.update middle.challenges index
      (middle.challenges index ++ _) index = _
    rw [Function.update_self, same]
    rfl
  · intro other different
    constructor
    · change Function.update middle.pc index .idle other = _
      rw [Function.update_of_ne different, others other different]
      change Function.update (Function.update state.pc index .clearRun) index
        (.rand 8 0) other = _
      rw [Function.update_of_ne different, Function.update_of_ne different]
    · change Function.update middle.challenges index _ other = _
      rw [Function.update_of_ne different, same]
      rfl

theorem run_all {seed : BitVec 32} (workers : List ι) :
    ∀ {state : Challengers ι}, workers.Nodup →
      (∀ index ∈ workers, state.pc index = .srand seed) →
      ∃ next, (system sequence).run state (workers.flatMap seedsAndDraws) =
          some next ∧
        (∀ index ∈ workers, next.challenges index =
          state.challenges index ++ [drawn ((sequence seed).take 8)]) ∧
        ∀ index ∉ workers, next.challenges index = state.challenges index := by
  induction workers with
  | nil =>
      intro state _ _
      exact ⟨state, rfl, List.forall_mem_nil _, fun _ _ => rfl⟩
  | cons index workers inductionHypothesis =>
      intro state distinct seeding
      obtain ⟨new, distinct⟩ := List.nodup_cons.1 distinct
      obtain ⟨middle, first, answered, others⟩ :=
        @run_seedsAndDraws _ _ sequence state index seed
          (seeding index List.mem_cons_self)
      have apart {other : ι} (member : other ∈ workers) : other ≠ index :=
        fun same => new (same ▸ member)
      have seedingThere : ∀ other ∈ workers, middle.pc other = .srand seed := by
        intro other member
        rw [(others other (apart member)).1]
        exact seeding other (List.mem_cons_of_mem _ member)
      obtain ⟨next, later, answers, kept⟩ :=
        inductionHypothesis distinct seedingThere
      refine ⟨next, ?_, ?_, ?_⟩
      · rw [List.flatMap_cons, System.run_append, first]
        exact later
      · intro other member
        rcases List.mem_cons.1 member with rfl | member
        · rw [kept other new, answered]
        · rw [answers other member, (others other (apart member)).2]
      · intro other absent
        rw [List.mem_cons, not_or] at absent
        rw [kept other absent.2, (others other absent.1).2]

/-- The first clients of a server can all get one challenge: whatever `rand` is,
any workers that find `run` set within a second draw the same number. -/
theorem same_challenge (ltime : Int) {workers : List ι}
    (distinct : workers.Nodup) :
    ∃ state, (system sequence).run (start sequence)
          (sameSecond workers ltime) = some state ∧
      ∀ index ∈ workers, state.challenges index =
        [drawn ((sequence (BitVec.ofInt 32 ltime)).take 8)] := by
  obtain ⟨middle, first, seeding, _, none⟩ :=
    @run_comes _ _ sequence ltime workers (start sequence) rfl distinct
      fun _ _ => rfl
  obtain ⟨state, second, answers, _⟩ :=
    @run_all _ _ sequence _ workers middle distinct seeding
  refine ⟨state, ?_, ?_⟩
  · rw [sameSecond, System.run_append, first]
    exact second
  · intro index member
    rw [answers index member, none]
    rfl

theorem same_challenge_three :
    ∃ state, (system counting).run (start counting)
          (sameSecond [0, 1, 2] 1700000000) = some state ∧
      ∀ index ∈ [0, 1, 2], state.challenges index =
        [drawn ((counting 1700000000).take 8)] :=
  same_challenge 1700000000 (by decide)

end Challengers

/-! ## A guessed seed -/

/-- What a client sends that takes `guess` for the challenge. -/
def guessedMessage (number guess : BitVec 64) : List Byte :=
  authMessage (number ^^^ guess) 0

theorem guessedMessage_accepted_iff (serverToken challenge guess : BitVec 64) :
    Accepts serverToken (guessedMessage (serverToken ^^^ challenge) guess) ↔
      guess = challenge := by
  obtain ⟨field1, field2, fields, number1, number2⟩ :=
    authFields_authMessage (serverToken ^^^ challenge ^^^ guess) 0
  have token : strtoull field1 ^^^ strtoull field2 = serverToken ↔
      guess = challenge := by
    have rearranged : strtoull field1 ^^^ strtoull field2 =
        serverToken ^^^ (challenge ^^^ guess) := by
      simp [number1, number2, BitVec.xor_assoc]
    rw [rearranged]
    constructor
    · intro same
      have cancelled := congrArg (serverToken ^^^ ·) same
      simp only [← BitVec.xor_assoc, BitVec.xor_self, BitVec.zero_xor]
        at cancelled
      exact (BitVec.xor_eq_zero_iff.1 cancelled).symm
    · rintro rfl
      simp
  constructor
  · rintro ⟨enc1, enc2, found, accepted⟩
    rw [guessedMessage, fields] at found
    cases found
    exact token.1 accepted
  · intro right
    exact ⟨field1, field2, fields, token.2 right⟩

/-- A client without the token is authenticated if it guesses the seed.  It says
`HELO`, takes the number that it is sent and the challenge that the generator
makes behind `count` numbers of the sequence of `seed`, and its message is
accepted; with any other guess it is not. -/
theorem guessed_seed_authenticates
    (sequence : BitVec 32 → Stream' (BitVec 31)) (seed : BitVec 32)
    (count : Nat) (host : Endian) (conn : Int) (serverToken : BitVec 64)
    (memory : Strtok Buffer) :
    ∃ number challenge trace after,
      challenge = drawn (((sequence seed).drop count).take 8) ∧
      Runs anyOutcome (authenticateClient host conn serverToken) memory trace
        (some ok) after ∧
      drawn (randoms trace) = challenge ∧
      sent conn trace = [bytes "300", bigEndian number, bytes "200"] ∧
      received conn trace =
        [some (bytes "HELO"), some (guessedMessage number challenge)] ∧
      ∀ guess, Accepts serverToken (guessedMessage number guess) ↔
        guess = challenge := by
  let challenge := drawn (((sequence seed).drop count).take 8)
  have accepts : Accepts serverToken
      (guessedMessage (serverToken ^^^ challenge) challenge) :=
    (guessedMessage_accepted_iff _ _ _).2 rfl
  obtain ⟨trace, after, run, drew, sends, receives⟩ :=
    authenticateClient_accepts host conn accepts
      (authMessage_length_le _ _) challenge memory
  exact ⟨serverToken ^^^ challenge, challenge, trace, after, rfl, run, drew,
    sends, receives, guessedMessage_accepted_iff serverToken challenge⟩

end RemoteCommand
