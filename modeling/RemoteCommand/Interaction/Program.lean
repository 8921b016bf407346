import Mathlib.Logic.Basic

/-!
# Interactive programs

A program that talks to its surroundings is a tree: it returns a value, or it
performs an operation and continues with the response, or it iterates a body.
Loops are nodes of their own, so a loop needs neither fuel nor a termination
argument; how often it turns is settled by the responses it gets.

The signature of operations is a parameter, and nothing here depends on what
the operations mean.
-/

namespace RemoteCommand.Interaction

/-- The operations a program may perform, with the type of their responses. -/
structure Signature where
  Op : Type
  Resp : Op → Type

/-- Programs over a signature, by the type of the value they return.  In
`loop body init next` the body is run from `init`; a `Sum.inl` result is the
state of the next iteration, a `Sum.inr` result leaves the loop. -/
inductive Prog (S : Signature) : Type → Type 1 where
  | ret {α : Type} (value : α) : Prog S α
  | op {α : Type} (o : S.Op) (next : S.Resp o → Prog S α) : Prog S α
  | loop {α σ β : Type} (body : σ → Prog S (σ ⊕ β)) (init : σ)
      (next : β → Prog S α) : Prog S α

namespace Prog

variable {S : Signature} {α β γ σ : Type}

/-- Sequencing: graft a continuation on every returned value. -/
def bind : {α : Type} → Prog S α → (α → Prog S β) → Prog S β
  | _, ret value, f => f value
  | _, op o next, f => op o fun response => (next response).bind f
  | _, loop body init next, f =>
      loop body init fun result => (next result).bind f

instance : Monad (Prog S) where
  pure := ret
  bind := bind

/-- Iterate a body until it returns a `Sum.inr`. -/
def iterate (body : σ → Prog S (σ ⊕ β)) (init : σ) : Prog S β :=
  loop body init ret

/-- One turn of a loop, followed by the rest of it. -/
def unroll (body : σ → Prog S (σ ⊕ β)) (init : σ)
    (next : β → Prog S α) : Prog S α :=
  (body init).bind (Sum.elim (fun state => loop body state next) next)

/-- The program that never performs an operation and never returns. -/
def diverge : Prog S α :=
  loop (fun _ : Unit => ret (.inl ())) () (fun value : α => ret value)

@[simp]
theorem pure_eq (value : α) : (pure value : Prog S α) = ret value :=
  rfl

@[simp]
theorem bind_eq (program : Prog S α) (f : α → Prog S β) :
    program >>= f = program.bind f :=
  rfl

@[simp]
theorem ret_bind (value : α) (f : α → Prog S β) :
    (ret value).bind f = f value :=
  rfl

@[simp]
theorem op_bind (o : S.Op) (next : S.Resp o → Prog S α)
    (f : α → Prog S β) :
    (op o next).bind f = op o fun response => (next response).bind f :=
  rfl

@[simp]
theorem loop_bind (body : σ → Prog S (σ ⊕ γ)) (init : σ)
    (next : γ → Prog S α) (f : α → Prog S β) :
    (loop body init next).bind f =
      loop body init fun result => (next result).bind f :=
  rfl

@[simp]
theorem iterate_bind (body : σ → Prog S (σ ⊕ γ)) (init : σ)
    (f : γ → Prog S β) :
    (iterate body init).bind f = loop body init f :=
  rfl

theorem bind_assoc (program : Prog S α) (f : α → Prog S β)
    (g : β → Prog S γ) :
    (program.bind f).bind g = program.bind fun value => (f value).bind g := by
  induction program with
  | ret value =>
      rfl
  | op o next inductionHypothesis =>
      simp only [op_bind, inductionHypothesis]
  | loop body init next _ inductionHypothesis =>
      simp only [loop_bind, inductionHypothesis]

@[simp]
theorem bind_ret (program : Prog S α) : program.bind ret = program := by
  induction program with
  | ret value =>
      rfl
  | op o next inductionHypothesis =>
      simp only [op_bind, inductionHypothesis]
  | loop body init next _ inductionHypothesis =>
      simp only [loop_bind, inductionHypothesis]

/-- What follows a loop follows its last turn. -/
theorem unroll_bind (body : σ → Prog S (σ ⊕ γ)) (init : σ)
    (next : γ → Prog S α) (f : α → Prog S β) :
    (unroll body init next).bind f =
      unroll body init fun result => (next result).bind f := by
  simp only [unroll, bind_assoc]
  congr 1
  funext value
  cases value <;> rfl

/-- A branch commutes with sequencing. -/
theorem ite_bind (condition : Prop) [Decidable condition]
    (yes no : Prog S α) (f : α → Prog S β) :
    (if condition then yes else no).bind f =
      if condition then yes.bind f else no.bind f := by
  split <;> rfl

/-- Every operation a program can reach satisfies `allowed`. -/
def Only (allowed : S.Op → Prop) : {α : Type} → Prog S α → Prop
  | _, ret _ => True
  | _, op o next => allowed o ∧ ∀ response, (next response).Only allowed
  | _, loop body _ next =>
      (∀ state, (body state).Only allowed) ∧
        ∀ result, (next result).Only allowed

section Only

variable {allowed : S.Op → Prop}

theorem Only.bind {program : Prog S α} {f : α → Prog S β}
    (first : program.Only allowed)
    (second : ∀ value, (f value).Only allowed) :
    (program.bind f).Only allowed := by
  induction program with
  | ret value =>
      exact second value
  | op o next inductionHypothesis =>
      exact ⟨first.1, fun response =>
        inductionHypothesis response (first.2 response) second⟩
  | loop body init next _ inductionHypothesis =>
      exact ⟨first.1, fun result =>
        inductionHypothesis result (first.2 result) second⟩

theorem Only.ite {condition : Prop} [Decidable condition]
    {yes no : Prog S α}
    (first : yes.Only allowed) (second : no.Only allowed) :
    (if condition then yes else no).Only allowed := by
  split
  · exact first
  · exact second

/-- A turn of a loop stays within what the loop is allowed. -/
theorem Only.unroll {body : σ → Prog S (σ ⊕ β)} {init : σ}
    {next : β → Prog S α}
    (within : (loop body init next).Only allowed) :
    (unroll body init next).Only allowed := by
  refine (within.1 init).bind fun value => ?_
  cases value with
  | inl state => exact within
  | inr result => exact within.2 result

theorem Only.mono {stronger weaker : S.Op → Prop}
    (implies : ∀ o, stronger o → weaker o) {program : Prog S α}
    (within : program.Only stronger) : program.Only weaker := by
  induction program with
  | ret value =>
      trivial
  | op o next inductionHypothesis =>
      exact ⟨implies o within.1, fun response =>
        inductionHypothesis response (within.2 response)⟩
  | loop body init next bodyHypothesis nextHypothesis =>
      exact ⟨fun state => bodyHypothesis state (within.1 state),
        fun result => nextHypothesis result (within.2 result)⟩

end Only

/-- Every value a program can return satisfies `property`. -/
def Returns (property : α → Prop) : Prog S α → Prop
  | ret value => property value
  | op _ next => ∀ response, (next response).Returns property
  | loop _ _ next => ∀ result, (next result).Returns property

section Returns

/-- A program returns what its last part returns. -/
theorem Returns.of_bind {program : Prog S α} {f : α → Prog S β}
    {property : β → Prop} (after : ∀ value, (f value).Returns property) :
    (program.bind f).Returns property := by
  induction program with
  | ret value => exact after value
  | op o next inductionHypothesis =>
      exact fun response => inductionHypothesis response after
  | loop body init next _ inductionHypothesis =>
      exact fun result => inductionHypothesis result after

theorem Returns.unroll {body : σ → Prog S (σ ⊕ β)} {init : σ}
    {next : β → Prog S α} {property : α → Prop}
    (returns : (loop body init next).Returns property) :
    (unroll body init next).Returns property := by
  refine of_bind fun value => ?_
  cases value with
  | inl state => exact returns
  | inr result => exact returns result

end Returns

/-- The program performs `early` operations only, until it performs a `turning`
one, and `late` operations only after that. -/
def Phases (early turning late : S.Op → Prop) : {α : Type} → Prog S α → Prop
  | _, ret _ => True
  | _, op o next =>
      (early o ∧ ∀ response, (next response).Phases early turning late) ∨
        (turning o ∧ ∀ response, (next response).Only late)
  | _, loop body _ next =>
      (∀ state, (body state).Only early) ∧
        ∀ result, (next result).Phases early turning late

section Phases

variable {early turning late : S.Op → Prop}

/-- What comes before the phases is part of the first one. -/
theorem Only.phases_bind {program : Prog S α} {f : α → Prog S β}
    (first : program.Only early)
    (second : ∀ value, (f value).Phases early turning late) :
    (program.bind f).Phases early turning late := by
  induction program with
  | ret value =>
      exact second value
  | op o next inductionHypothesis =>
      exact .inl ⟨first.1, fun response =>
        inductionHypothesis response (first.2 response) second⟩
  | loop body init next _ inductionHypothesis =>
      exact ⟨first.1, fun result =>
        inductionHypothesis result (first.2 result) second⟩

theorem Only.phases {program : Prog S α} (within : program.Only early) :
    program.Phases early turning late := by
  rw [← bind_ret program]
  exact within.phases_bind fun _ => trivial

/-- What comes after the phases fits in both. -/
theorem Phases.bind {program : Prog S α} {f : α → Prog S β}
    (first : program.Phases early turning late)
    (second : ∀ value, (f value).Only early)
    (again : ∀ value, (f value).Only late) :
    (program.bind f).Phases early turning late := by
  induction program with
  | ret value =>
      exact (second value).phases
  | op o next inductionHypothesis =>
      rcases first with ⟨isEarly, rest⟩ | ⟨turns, rest⟩
      · exact .inl ⟨isEarly, fun response =>
          inductionHypothesis response (rest response) second again⟩
      · exact .inr ⟨turns, fun response => (rest response).bind again⟩
  | loop body init next _ inductionHypothesis =>
      exact ⟨first.1, fun result =>
        inductionHypothesis result (first.2 result) second again⟩

theorem Phases.ite {condition : Prop} [Decidable condition]
    {yes no : Prog S α} (first : yes.Phases early turning late)
    (second : no.Phases early turning late) :
    (if condition then yes else no).Phases early turning late := by
  split
  · exact first
  · exact second

theorem Phases.unroll {body : σ → Prog S (σ ⊕ β)} {init : σ}
    {next : β → Prog S α}
    (within : (loop body init next).Phases early turning late) :
    (unroll body init next).Phases early turning late := by
  refine (within.1 init).phases_bind fun value => ?_
  cases value with
  | inl state => exact within
  | inr result => exact within.2 result

end Phases

/-- A program without loops that performs at most so many operations. -/
def Within : Nat → {α : Type} → Prog S α → Prop
  | _, _, ret _ => True
  | 0, _, op _ _ => False
  | calls + 1, _, op _ next => ∀ response, (next response).Within calls
  | _, _, loop _ _ _ => False

theorem Within.ite {calls : Nat} {condition : Prop} [Decidable condition]
    {yes no : Prog S α} (first : yes.Within calls)
    (second : no.Within calls) :
    (if condition then yes else no).Within calls := by
  split
  · exact first
  · exact second

theorem Within.mono {fewer more : Nat} (le : fewer ≤ more)
    {program : Prog S α} (within : program.Within fewer) :
    program.Within more := by
  induction program generalizing fewer more with
  | ret value => cases more <;> trivial
  | op o next inductionHypothesis =>
      cases fewer with
      | zero => exact within.elim
      | succ fewer =>
          cases more with
          | zero => omega
          | succ more =>
              exact fun response => inductionHypothesis response
                (Nat.le_of_succ_le_succ le) (within response)
  | loop => cases fewer <;> exact within.elim

theorem Within.bind {first rest : Nat} {program : Prog S α}
    {f : α → Prog S β} (within : program.Within first)
    (second : ∀ value, (f value).Within rest) :
    (program.bind f).Within (rest + first) := by
  induction program generalizing first with
  | ret value => exact (second value).mono (Nat.le_add_right _ _)
  | op o next inductionHypothesis =>
      cases first with
      | zero => exact within.elim
      | succ first =>
          exact fun response =>
            inductionHypothesis response (within response) second
  | loop => cases first <;> exact within.elim

end Prog

end RemoteCommand.Interaction
