import RemoteCommand.Reload

/-!
# One configuration serves the clients of a cycle

While the flag is down, what the set-up of a cycle has read is what the
variables hold: the handler raises the flag before it changes them, and only
the beginning of a cycle, where nothing has been read, lowers it.

The port goes through `htons` and the capacity of the queue through an
`unsigned` parameter, and `get_parameters` refuses only the number `0`: a port
or a number of threads that these types do not hold is served as another.
-/

namespace RemoteCommand.Process

open Machine Transition

variable {host : Endian}

/-- What the set-up has read so far is what the variables hold. -/
structure Current (host : Endian) (process : Process) : Prop where
  requested : 1 ≤ process.pc.reads →
    process.requested = some process.configuration.nThreads
  sinPort : 2 ≤ process.pc.reads →
    process.sinPort = htons host (BitVec.ofInt 16 process.configuration.port)
  bound : 3 ≤ process.pc.reads →
    process.bound = some (BitVec.ofInt 16 process.configuration.port)
  backlog : 4 ≤ process.pc.reads →
    process.backlog = some process.configuration.nThreads
  capacity : 5 ≤ process.pc.reads →
    process.capacity = some (toUnsigned process.configuration.nThreads)

/-- While the flag is down, the values that were read are current. -/
def Tied (host : Endian) (process : Process) : Prop :=
  process.sighup = false → process.Current host

/-- Where nothing has been read, nothing is out of date. -/
theorem Current.unread {process : Process}
    (unread : process.pc.reads = 0) : process.Current host := by
  constructor <;> (rw [unread]; nofun)

/-- Going on without reading keeps what was read. -/
theorem Current.goto {process : Process} {pc : MainPc}
    (current : process.Current host) (fewer : pc.reads ≤ process.pc.reads) :
    (process.goto pc).Current host where
  requested enough := current.requested (enough.trans fewer)
  sinPort enough := current.sinPort (enough.trans fewer)
  bound enough := current.bound (enough.trans fewer)
  backlog enough := current.backlog (enough.trans fewer)
  capacity enough := current.capacity (enough.trans fewer)

theorem mainStep_tied {process next : Process} {answer : Answer}
    (tied : process.Tied host)
    (stepped : process.mainStep host answer = some next) :
    next.Tied host := by
  intro clear
  cases mainStep_cases stepped with
  | configured | updated | setLogging | installed | resetSighup
  | destroyQueue | closeSocket | stopLogging | destroyThreadPool =>
      exact .unread rfl
  | started =>
      exact
        { requested := fun _ => rfl
          sinPort := nofun, bound := nofun, backlog := nofun
          capacity := nofun }
  | address atPc =>
      have current := tied clear
      exact
        { requested := fun _ => current.requested (by rw [atPc]; decide)
          sinPort := fun _ => rfl
          bound := nofun, backlog := nofun, capacity := nofun }
  | bound atPc =>
      have current := tied clear
      have stored := current.sinPort (by rw [atPc]; decide)
      exact
        { requested := fun _ => current.requested (by rw [atPc]; decide)
          sinPort := fun _ => stored
          bound := fun _ => by rw [stored, ntohs_htons]
          backlog := nofun, capacity := nofun }
  | listening atPc =>
      have current := tied clear
      exact
        { requested := fun _ => current.requested (by rw [atPc]; decide)
          sinPort := fun _ => current.sinPort (by rw [atPc]; decide)
          bound := fun _ => current.bound (by rw [atPc]; decide)
          backlog := fun _ => rfl
          capacity := nofun }
  | queue atPc =>
      have current := tied clear
      exact
        { requested := fun _ => current.requested (by rw [atPc]; decide)
          sinPort := fun _ => current.sinPort (by rw [atPc]; decide)
          bound := fun _ => current.bound (by rw [atPc]; decide)
          backlog := fun _ => current.backlog (by rw [atPc]; decide)
          capacity := fun _ => rfl }
  | enqueued atPc =>
      have current := tied clear
      have all (count : Nat) (few : count ≤ 5) : count ≤ process.pc.reads := by
        rw [atPc]
        exact few
      exact
        { requested := fun few => current.requested (all 1 few)
          sinPort := fun few => current.sinPort (all 2 few)
          bound := fun few => current.bound (all 3 few)
          backlog := fun few => current.backlog (all 4 few)
          capacity := fun few => current.capacity (all 5 few) }
  | moves moving => exact (tied clear).goto moving.reads

theorem handle_tied {process : Process} (tied : process.Tied host)
    (file : ConfFile) : (process.handle file).Tied host := by
  intro clear
  rcases handle_cases process file with ended | same | ⟨configuration, raised⟩
  · exact .unread (by rw [ended]; rfl)
  · rw [same] at clear ⊢
    exact tied clear
  · rw [raised] at clear
    cases clear

theorem step_tied {process next : Process} {action : Action}
    (tied : process.Tied host)
    (stepped : process.step host action = some next) : next.Tied host := by
  cases step_cases stepped with
  | main called => exact mainStep_tied tied called
  | sighup => exact handle_tied tied _
  | take | finish | exit =>
      exact fun clear =>
        { requested := (tied clear).requested
          sinPort := (tied clear).sinPort
          bound := (tied clear).bound
          backlog := (tied clear).backlog
          capacity := (tied clear).capacity }

/-- The port of the socket, the number of threads, the backlog and the capacity
are the values of `port` and `n_threads`, as integers. -/
def EqualsVariables (process : Process) : Prop :=
  process.bound.map (fun port => (port.toNat : Int)) =
      some process.configuration.port ∧
    process.requested = some process.configuration.nThreads ∧
    process.backlog = some process.configuration.nThreads ∧
    process.capacity.map Nat.cast = some process.configuration.nThreads

/-- The values of `port` and `n_threads` are ones that `htons` and `createQueue`
keep. -/
def FitsTypes (process : Process) : Prop :=
  (0 ≤ process.configuration.port ∧ process.configuration.port < 65536) ∧
    0 ≤ process.configuration.nThreads

/-- In every run of `main`, with SIGHUPs between any two steps, whenever `main`
is at the test of the accept loop with the flag down: `bind` was called with
the low 16 bits of the current `port`, `create_thread_pool` and `listen` with
the current `n_threads`, and the capacity of the queue is the current
`n_threads` as an `unsigned`.  All four are the current values exactly when
these types hold the current values. -/
theorem configuration_coherent (host : Endian) (arguments : Arguments)
    (actions : List Action) {process : Process}
    (ran : (system host).run (start arguments) actions = some process)
    (atTest : process.pc = .test) (clear : process.sighup = false) :
    process.bound = some (BitVec.ofInt 16 process.configuration.port) ∧
      process.requested = some process.configuration.nThreads ∧
      process.backlog = some process.configuration.nThreads ∧
      process.capacity = some (toUnsigned process.configuration.nThreads) ∧
      (process.EqualsVariables ↔ process.FitsTypes) := by
  have initial : (start arguments).Tied host := fun _ => .unread rfl
  have current : process.Current host :=
    (system host).run_invariant step_tied actions initial ran clear
  have areInts : process.configuration.AreInts :=
    (system host).run_invariant step_areInts actions
      Configuration.initial_areInts ran
  have all (count : Nat) (few : count ≤ 5) : count ≤ process.pc.reads := by
    rw [atTest]
    exact few
  have bound := current.bound (all 3 (by decide))
  have requested := current.requested (all 1 (by decide))
  have backlog := current.backlog (all 4 (by decide))
  have capacity := current.capacity (all 5 (by decide))
  have port : process.bound.map (fun port => (port.toNat : Int)) =
      some process.configuration.port ↔
        0 ≤ process.configuration.port ∧ process.configuration.port < 65536 := by
    rw [bound, Option.map_some, Option.some.injEq, BitVec.toNat_ofInt]
    omega
  have room : process.capacity.map Nat.cast =
      some process.configuration.nThreads ↔
        0 ≤ process.configuration.nThreads := by
    have fits := areInts.nThreads.2
    rw [capacity, Option.map_some, Option.some.injEq]
    unfold intMax at fits
    unfold toUnsigned
    omega
  refine ⟨bound, requested, backlog, capacity, ?_⟩
  rw [EqualsVariables, port, room]
  exact ⟨fun ⟨held, _, _, positive⟩ => ⟨held, positive⟩,
    fun ⟨held, positive⟩ => ⟨held, requested, backlog, positive⟩⟩

/-- The arguments of `./server -c /etc/server.conf`. -/
def withConfFile : Arguments where
  argc := 3
  argv
    | 1 => some (bytes "-c")
    | 2 => some (bytes "/etc/server.conf")
    | _ => none

/-- `main` before the first cycle, when the file has this line. -/
def startUp (line : String) : List Action :=
  [.main .done, .main (.file (.line (bytes line))), .main .done, .main .done]

/-- The set-up of a cycle, up to the first test. -/
def setUp (threads : Nat) : List Action :=
  [.main .done, .main .done, .main (.started threads), .main .done,
    .main .done, .main .done, .main .done, .main .done, .main .done,
    .main .done]

/-- The first test, when the file asks for these numbers. -/
def atFirstTest (port nThreads : Int) (bound : BitVec 16) : Process :=
  { start withConfFile with
    pc := .test
    configuration := { Configuration.initial with
      port, nThreads, confFile := some (bytes "/etc/server.conf") }
    installed := true
    filename := some (bytes "/tmp/server.log")
    logCs := .created
    logCreated := true
    startLogFile := some (bytes "/tmp/server.log")
    requested := nThreads
    sinPort := htons .little bound
    bound
    backlog := nThreads
    capacity := nThreads.toNat
    workers := nThreads.toNat }

/-- A SIGHUP between `listen` and `createQueue` sends `main` through a second
set-up, and that one has read the new values throughout. -/
theorem configuration_coherent_reloaded :
    let reloaded := { atFirstTest 9001 4 9001 with stops := 1, logCs := .freed }
    reloaded.pc = .test ∧ reloaded.sighup = false ∧
      reloaded.EqualsVariables := by
  have ran : (system .little).run (start withConfFile)
      (startUp "-n 3 -p 9000\n" ++ (setUp 3).take 8 ++
        [.sighup (.line (bytes "-p 9001 -n 4 -s\n"))] ++ (setUp 3).drop 8 ++
        List.replicate 8 (.main .done) ++ setUp 4) =
      some { atFirstTest 9001 4 9001 with stops := 1, logCs := .freed } := rfl
  obtain ⟨_, _, _, _, inRange⟩ := configuration_coherent .little _ _ ran rfl rfl
  exact ⟨rfl, rfl, inRange.mpr ⟨⟨by decide, by decide⟩, by decide⟩⟩

/-- With the line `-p 70000` the socket is bound to port 4464. -/
theorem configuration_beyond_types :
    ¬ ∀ (host : Endian) (arguments : Arguments) (actions : List Action)
        (process : Process),
        (system host).run (start arguments) actions = some process →
          process.pc = .test → process.sighup = false →
            process.EqualsVariables := by
  intro equals
  have ran : (system .little).run (start withConfFile)
      (startUp "-p 70000\n" ++ setUp 10) =
      some (atFirstTest 70000 10 4464) := rfl
  have bound : some (4464 : Int) = some 70000 :=
    (equals .little _ _ _ ran rfl rfl).1
  exact absurd bound (by decide)

end RemoteCommand.Process
