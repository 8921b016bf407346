import RemoteCommand.Machine.Int
import RemoteCommand.Transition.Fifo
import Mathlib.Data.Nat.ModEq

/-!
# The pointer queue (`queue.h`)

A queue of pointers in a fixed array.  `front`, `rear` and `size` are `int`,
`capacity` is `unsigned`, and the operations mix the two; the model keeps the
conversions and faults where the C code would be undefined.

`Represents queue items` is the representation invariant: the occupied cells,
read from `front` with wrap-around, hold the items, and `rear` is the last of
them (the cell before `front` when there are none).
-/

namespace RemoteCommand

open Machine Transition

/-- `struct Queue`. -/
structure Queue (α : Type) where
  front : Int
  rear : Int
  size : Int
  capacity : Nat
  array : Cells α

namespace Queue

variable {α : Type}

/-- `createQueue`, once both allocations have succeeded.  The cells of the
fresh array are what `malloc` left there. -/
def createQueue (capacity : Nat) (fresh : Nat → Option α) : Queue α where
  front := 0
  rear := ofUnsigned (subUnsigned capacity 1)
  size := 0
  capacity := capacity
  array := { length := capacity, cell := fresh }

/-- `isFull`: the comparison converts `size` to `unsigned`. -/
def isFull (queue : Queue α) : Bool :=
  toUnsigned queue.size == queue.capacity

def isEmpty (queue : Queue α) : Bool :=
  queue.size == 0

/-- `(index + 1) % capacity`, an `int` sum under an `unsigned` remainder. -/
def nextIndex (index : Int) (capacity : Nat) : Except Fault Int := do
  let sum ← addInt index 1
  let wrapped ← modUnsigned (toUnsigned sum) capacity
  return ofUnsigned wrapped

def enqueue (queue : Queue α) (item : α) : Except Fault (Int × Queue α) :=
  if queue.isFull then
    return (-1, queue)
  else do
    let rear ← nextIndex queue.rear queue.capacity
    let array ← queue.array.write rear item
    let size ← addInt queue.size 1
    return (0, { queue with rear, array, size })

def dequeue (queue : Queue α) : Except Fault (Option α × Queue α) :=
  if queue.isEmpty then
    return (none, queue)
  else do
    let item ← queue.array.read queue.front
    let front ← nextIndex queue.front queue.capacity
    let size ← subInt queue.size 1
    return (item, { queue with front, size })

/-- One call on the queue, as its users make it. -/
def call (queue : Queue α) :
    FifoCall α → Except Fault (FifoAnswer α × Queue α)
  | .enqueue item => do
      let (code, next) ← queue.enqueue item
      return (.status code, next)
  | .dequeue => do
      let (taken, next) ← queue.dequeue
      return (.item taken, next)
  | .size => return (.length queue.size, queue)

/-- The representation invariant, for the list of items in order. -/
structure Represents (queue : Queue α) (items : List α) : Prop where
  capacity_le : (queue.capacity : Int) ≤ intMax
  allocated : queue.array.length = queue.capacity
  size_eq : queue.size = items.length
  length_le : items.length ≤ queue.capacity
  front_nonneg : 0 ≤ queue.front
  front_lt : 0 < queue.capacity → queue.front.toNat < queue.capacity
  rear_eq : 0 < queue.capacity →
    queue.rear =
      ((queue.front.toNat + items.length + (queue.capacity - 1)) %
        queue.capacity : Nat)
  cells : ∀ (offset : Nat) (inside : offset < items.length),
    queue.array.cell ((queue.front.toNat + offset) % queue.capacity) =
      some items[offset]

/-! ## The operations keep the representation -/

/-- A queue that has just been created holds nothing. -/
theorem createQueue_represents {capacity : Nat}
    (fits : (capacity : Int) ≤ intMax) (fresh : Nat → Option α) :
    (createQueue capacity fresh).Represents [] where
  capacity_le := fits
  allocated := rfl
  size_eq := rfl
  length_le := Nat.zero_le capacity
  front_nonneg := Int.le_refl 0
  front_lt := fun positive => positive
  rear_eq := by
    intro positive
    simp only [createQueue, intMax] at *
    have wrapped : subUnsigned capacity 1 = capacity - 1 := by
      unfold subUnsigned
      omega
    have small : (capacity - 1) % capacity = capacity - 1 :=
      Nat.mod_eq_of_lt (by omega)
    rw [wrapped, ofUnsigned_of_le (by unfold intMax; omega)]
    simp [small]
  cells := by
    intro offset inside
    exact absurd inside (Nat.not_lt_zero offset)

theorem isFull_iff {queue : Queue α} {items : List α}
    (holds : queue.Represents items) :
    queue.isFull = true ↔ items.length = queue.capacity := by
  have bound : (items.length : Int) ≤ intMax := by
    have := holds.length_le
    have := holds.capacity_le
    omega
  rw [isFull, holds.size_eq, toUnsigned_natCast bound, beq_iff_eq]

theorem isEmpty_iff {queue : Queue α} {items : List α}
    (holds : queue.Represents items) :
    queue.isEmpty = true ↔ items = [] := by
  rw [isEmpty, holds.size_eq, beq_iff_eq, Int.natCast_eq_zero,
    List.length_eq_zero_iff]

/-- Inside the array the index arithmetic is defined and wraps once. -/
theorem nextIndex_ok {index capacity : Nat}
    (fits : (capacity : Int) ≤ intMax) (inside : index < capacity) :
    nextIndex index capacity = .ok ((index + 1) % capacity : Nat) := by
  have positive : 0 < capacity := Nat.zero_lt_of_lt inside
  have sumFits : ((index + 1 : Nat) : Int) ≤ intMax := by omega
  have wrappedFits : (((index + 1) % capacity : Nat) : Int) ≤ intMax := by
    have := Nat.mod_lt (index + 1) positive
    omega
  have sum : addInt index 1 = .ok ((index + 1 : Nat) : Int) :=
    addInt_ok (by unfold intMin; omega) sumFits
  unfold nextIndex
  rw [sum]
  simp only [bind, Except.bind]
  rw [toUnsigned_natCast sumFits, modUnsigned_ok positive]
  simp only [pure, Except.pure]
  rw [ofUnsigned_of_le wrappedFits]

/-- Different offsets within the capacity are different cells. -/
theorem cell_ne {front capacity left right : Nat}
    (leftInside : left < capacity) (rightInside : right < capacity)
    (different : left ≠ right) :
    (front + left) % capacity ≠ (front + right) % capacity := by
  intro same
  have congruent : left ≡ right [MOD capacity] :=
    Nat.ModEq.add_left_cancel' front same
  rw [Nat.ModEq, Nat.mod_eq_of_lt leftInside,
    Nat.mod_eq_of_lt rightInside] at congruent
  exact different congruent

/-- A full queue refuses the item and is left alone. -/
theorem enqueue_full {queue : Queue α} {items : List α}
    (holds : queue.Represents items)
    (full : items.length = queue.capacity) (item : α) :
    queue.enqueue item = .ok (-1, queue) :=
  if_pos ((isFull_iff holds).mpr full)

/-- Otherwise the item becomes the newest one. -/
theorem enqueue_room {queue : Queue α} {items : List α}
    (holds : queue.Represents items)
    (room : items.length ≠ queue.capacity) (item : α) :
    ∃ next, queue.enqueue item = .ok (0, next) ∧
      next.capacity = queue.capacity ∧
      next.Represents (items ++ [item]) := by
  have below : items.length < queue.capacity :=
    Nat.lt_of_le_of_ne holds.length_le room
  have positive : 0 < queue.capacity := Nat.zero_lt_of_lt below
  have fits := holds.capacity_le
  generalize frontEq : queue.front.toNat = front at *
  have frontInside : front < queue.capacity :=
    frontEq ▸ holds.front_lt positive
  -- the rear moves to the first free cell, `items.length` after the front
  have advanced :
      ((front + items.length + (queue.capacity - 1)) % queue.capacity + 1) %
          queue.capacity =
        (front + items.length) % queue.capacity := by
    rw [Nat.mod_add_mod]
    have whole : front + items.length + (queue.capacity - 1) + 1 =
        front + items.length + queue.capacity := by omega
    rw [whole, Nat.add_mod_right]
  have rearStep :
      nextIndex queue.rear queue.capacity =
        .ok ((front + items.length) % queue.capacity : Nat) := by
    rw [holds.rear_eq positive, frontEq,
      nextIndex_ok fits (Nat.mod_lt _ positive), advanced]
  have written :=
    queue.array.write_ok ((front + items.length) % queue.capacity) item
      (by rw [holds.allocated]; exact Nat.mod_lt _ positive)
  have counted : addInt queue.size 1 = .ok ((items.length + 1 : Nat) : Int) := by
    rw [holds.size_eq]
    exact addInt_ok (by unfold intMin; omega) (by omega)
  have notFull : queue.isFull ≠ true :=
    fun full => room ((isFull_iff holds).mp full)
  refine
    ⟨{ queue with
        rear := ((front + items.length) % queue.capacity : Nat)
        array :=
          { queue.array with
            cell := Function.update queue.array.cell
              ((front + items.length) % queue.capacity) (some item) }
        size := (items.length + 1 : Nat) }, ?_, rfl, ?_⟩
  · unfold enqueue
    rw [if_neg notFull, rearStep]
    simp only [bind, Except.bind, written, counted]
    rfl
  refine
    { capacity_le := fits
      allocated := holds.allocated
      size_eq := by simp
      length_le := by
        simp only [List.length_append, List.length_singleton]
        omega
      front_nonneg := holds.front_nonneg
      front_lt := holds.front_lt
      rear_eq := ?_
      cells := ?_ }
  · intro _
    simp only [frontEq, List.length_append, List.length_singleton]
    have whole : front + (items.length + 1) + (queue.capacity - 1) =
        front + items.length + queue.capacity := by omega
    rw [whole, Nat.add_mod_right]
  · intro offset inside
    simp only [List.length_append, List.length_singleton] at inside
    simp only [frontEq]
    by_cases newest : offset = items.length
    · subst newest
      simp
    · have older : offset < items.length := by omega
      rw [Function.update_of_ne
        (cell_ne (by omega) below (by omega)),
        List.getElem_append_left older]
      have kept := holds.cells offset older
      rwa [frontEq] at kept

/-- An empty queue has nothing to give and is left alone. -/
theorem dequeue_empty {queue : Queue α} (holds : queue.Represents []) :
    queue.dequeue = .ok (none, queue) :=
  if_pos ((isEmpty_iff holds).mpr rfl)

/-- Otherwise the oldest item is taken. -/
theorem dequeue_cons {queue : Queue α} {oldest : α} {rest : List α}
    (holds : queue.Represents (oldest :: rest)) :
    ∃ next, queue.dequeue = .ok (some oldest, next) ∧
      next.capacity = queue.capacity ∧ next.Represents rest := by
  have lengthLe := holds.length_le
  simp only [List.length_cons] at lengthLe
  have positive : 0 < queue.capacity := by omega
  have fits := holds.capacity_le
  have frontInside := holds.front_lt positive
  have frontCast : queue.front = (queue.front.toNat : Int) :=
    (Int.toNat_of_nonneg holds.front_nonneg).symm
  generalize frontEq : queue.front.toNat = front at *
  have head : queue.array.cell front = some oldest := by
    have first := holds.cells 0 (by simp)
    rw [frontEq, Nat.add_zero, Nat.mod_eq_of_lt frontInside] at first
    exact first
  have taken : queue.array.read queue.front = .ok (some oldest) := by
    rw [frontCast, queue.array.read_ok
      (by rw [holds.allocated]; exact frontInside), head]
  have moved : nextIndex queue.front queue.capacity =
      .ok ((front + 1) % queue.capacity : Nat) := by
    rw [frontCast, nextIndex_ok fits frontInside]
  have counted : subInt queue.size 1 = .ok (rest.length : Int) := by
    have size := holds.size_eq
    simp only [List.length_cons] at size
    have difference : queue.size - 1 = rest.length := by omega
    rw [subInt_ok (by unfold intMin; omega) (by omega), difference]
  have notEmpty : queue.isEmpty ≠ true := by
    intro empty
    cases (isEmpty_iff holds).mp empty
  refine
    ⟨{ queue with
        front := ((front + 1) % queue.capacity : Nat)
        size := rest.length }, ?_, rfl, ?_⟩
  · unfold dequeue
    rw [if_neg notEmpty, taken]
    simp only [bind, Except.bind, moved, counted]
    rfl
  refine
    { capacity_le := fits
      allocated := holds.allocated
      size_eq := rfl
      length_le := by simp only; omega
      front_nonneg := by simp only; omega
      front_lt := fun _ => by
        simp only [Int.toNat_natCast]
        exact Nat.mod_lt (front + 1) positive
      rear_eq := ?_
      cells := ?_ }
  · intro _
    simp only [Int.toNat_natCast]
    have sameRear :
        (front + (rest.length + 1) + (queue.capacity - 1)) % queue.capacity =
          ((front + 1) % queue.capacity + rest.length +
            (queue.capacity - 1)) % queue.capacity := by
      rw [Nat.add_assoc ((front + 1) % queue.capacity), Nat.mod_add_mod]
      congr 1
      omega
    rw [holds.rear_eq positive, frontEq, List.length_cons, sameRear]
  · intro offset inside
    simp only [Int.toNat_natCast]
    have later := holds.cells (offset + 1) (by simpa using inside)
    rw [frontEq] at later
    rw [Nat.mod_add_mod, Nat.add_assoc, Nat.add_comm 1 offset]
    simpa using later

/-- The queue answers every call as the bounded list does. -/
theorem call_simulates (capacity : Nat) :
    Simulates call (Fifo.call capacity)
      fun (queue : Queue α) items =>
        queue.capacity = capacity ∧ queue.Represents items where
  call := by
    rintro queue items ⟨rfl, holds⟩ request
    cases request with
    | enqueue item =>
        by_cases full : items.length = queue.capacity
        · refine ⟨queue, ?_, ?_⟩
          · simp [call, enqueue_full holds full, Fifo.call, full, bind,
              Except.bind, pure, Except.pure]
          · simpa [Fifo.call, full] using holds
        · obtain ⟨next, stored, sameCapacity, nextHolds⟩ :=
            enqueue_room holds full item
          refine ⟨next, ?_, ?_⟩
          · simp [call, stored, Fifo.call, full, bind, Except.bind, pure,
              Except.pure]
          · simpa [Fifo.call, full] using ⟨sameCapacity, nextHolds⟩
    | dequeue =>
        cases items with
        | nil =>
            refine ⟨queue, ?_, rfl, holds⟩
            simp [call, dequeue_empty holds, Fifo.call, bind, Except.bind,
              pure, Except.pure]
        | cons oldest rest =>
            obtain ⟨next, taken, sameCapacity, nextHolds⟩ :=
              dequeue_cons holds
            refine ⟨next, ?_, sameCapacity, nextHolds⟩
            simp [call, taken, Fifo.call, bind, Except.bind, pure,
              Except.pure]
    | size =>
        refine ⟨queue, ?_, rfl, holds⟩
        simp [call, Fifo.call, holds.size_eq, pure, Except.pure]

/-- Over every history of calls on a fresh queue of any `int` capacity, the
queue is the bounded list: it never faults (no index outside the array, no
remainder by zero, no overflow), gives the list's answers, and in the state
reached each operation does what it does on the list, a refused one changing
nothing. -/
theorem queue_refines_fifo (capacity : Nat)
    (fits : (capacity : Int) ≤ intMax) (fresh : Nat → Option α)
    (calls : List (FifoCall α)) :
    ∃ (queue : Queue α) (items : List α),
      runCalls call (createQueue capacity fresh) calls =
          .ok ((runSpec (Fifo.call capacity) [] calls).1, queue) ∧
        items = (runSpec (Fifo.call capacity) [] calls).2 ∧
        items.length ≤ capacity ∧
        queue.size = items.length ∧
        (∀ item, items.length = capacity →
          queue.enqueue item = .ok (-1, queue)) ∧
        (∀ item, items.length ≠ capacity →
          ∃ next, queue.enqueue item = .ok (0, next) ∧
            next.Represents (items ++ [item])) ∧
        (items = [] → queue.dequeue = .ok (none, queue)) ∧
        (∀ oldest rest, items = oldest :: rest →
          ∃ next, queue.dequeue = .ok (some oldest, next) ∧
            next.Represents rest) := by
  obtain ⟨queue, ran, sameCapacity, holds⟩ :=
    (call_simulates capacity).run calls
      (⟨rfl, createQueue_represents fits fresh⟩ :
        (createQueue capacity fresh).capacity = capacity ∧ _)
  refine ⟨queue, _, ran, rfl, Fifo.run_length_le calls (Nat.zero_le _),
    holds.size_eq, ?_, ?_, ?_, ?_⟩
  · intro item full
    exact enqueue_full holds (full.trans sameCapacity.symm) item
  · intro item room
    obtain ⟨next, stored, _, nextHolds⟩ :=
      enqueue_room holds (fun full => room (full.trans sameCapacity)) item
    exact ⟨next, stored, nextHolds⟩
  · intro empty
    rw [empty] at holds
    exact dequeue_empty holds
  · intro oldest rest nonempty
    rw [nonempty] at holds
    obtain ⟨next, taken, _, nextHolds⟩ := dequeue_cons holds
    exact ⟨next, taken, nextHolds⟩

/-- A queue of two: the third item is refused, the first one comes out. -/
theorem queue_refines_fifo_two :
    ∃ queue : Queue Nat,
      runCalls call (createQueue 2 fun _ => none)
          [.enqueue 7, .enqueue 8, .enqueue 9, .dequeue] =
        .ok ([.status 0, .status 0, .status (-1), .item (some 7)], queue) ∧
      queue.size = 1 := by
  obtain ⟨queue, items, ran, same, _, size, _⟩ :=
    queue_refines_fifo 2 (by decide) (fun _ => none)
      [.enqueue 7, .enqueue 8, .enqueue 9, .dequeue]
  refine ⟨queue, ran, ?_⟩
  rw [size, same]
  rfl

end Queue

end RemoteCommand
