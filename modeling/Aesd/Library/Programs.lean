import Aesd.Library.Machine

/-! Calls as programs that are cut wherever another thread may run, with one lock,
and the discipline under which nothing shared is touched outside the section. -/
namespace Aesd.Library

universe u v w

/-- What is left to do of a call. Another thread may run before each constructor;
`next` of an action depends on the state that the action found. -/
inductive Program (State : Type u) (Result : Type v) where
  | done (result : Result)
  | act (effect : State → State) (next : State → Program State Result)
  | acquire (effect : State → State) (next : Program State Result)
  | release (effect : State → State) (next : Program State Result)

namespace Program

variable {State : Type u} {Result : Type v} {Other : Type w}

/-- The call alone, from its first step to its last. -/
def run : Program State Result → State → Result × State
  | .done result, state => (result, state)
  | .act effect next, state => (next state).run (effect state)
  | .acquire effect next, state => next.run (effect state)
  | .release effect next, state => next.run (effect state)

def bind : Program State Result → (Result → Program State Other) → Program State Other
  | .done result, after => after result
  | .act effect next, after => .act effect fun state => (next state).bind after
  | .acquire effect next, after => .acquire effect (next.bind after)
  | .release effect next, after => .release effect (next.bind after)

instance : Monad (Program State) where
  pure := .done
  bind := bind

@[simp] theorem run_pure (result : Result) (state : State) :
    (pure result : Program State Result).run state = (result, state) := rfl

@[simp] theorem run_done (result : Result) (state : State) :
    (done result).run state = (result, state) := rfl

@[simp] theorem run_act (effect : State → State) (next : State → Program State Result)
    (state : State) : (act effect next).run state = (next state).run (effect state) := rfl

@[simp] theorem run_acquire (effect : State → State) (next : Program State Result)
    (state : State) : (acquire effect next).run state = next.run (effect state) := rfl

@[simp] theorem run_release (effect : State → State) (next : Program State Result)
    (state : State) : (release effect next).run state = next.run (effect state) := rfl

@[simp ↓] theorem run_ite (condition : Prop) [Decidable condition]
    (first second : Program State Result) (state : State) :
    (if condition then first else second).run state =
      if condition then first.run state else second.run state := by
  split <;> rfl

@[simp] theorem run_bind {Result Other : Type v} (program : Program State Result)
    (after : Result → Program State Other) (state : State) :
    (program >>= after).run state = (after (program.run state).1).run (program.run state).2 := by
  induction program generalizing state with
  | done result => rfl
  | act effect next ih => exact ih state (effect state)
  | acquire effect next ih => exact ih (effect state)
  | release effect next ih => exact ih (effect state)

end Program

/-- What the steps of a section may do to the state: enter it, work in it, leave it. -/
structure SectionRules (State : Type u) where
  enters : (State → State) → Prop
  works : (State → State) → Prop
  leaves : (State → State) → Prop

namespace Program

variable {State : Type u} {Result : Type v} {Other : Type w}
variable {rules : SectionRules State}

/-- The next step changes nothing and nothing depends on what it finds. -/
def Silent : Program State Result → Prop
  | .done _ => False
  | .act effect next =>
    (∀ state, effect state = state) ∧ ∀ state other, next state = next other
  | .acquire _ _ => False
  | .release _ _ => False

/-- Only work, so neither the lock nor its holder changes. -/
def Plain (rules : SectionRules State) : Program State Result → Prop
  | .done _ => True
  | .act effect next => rules.works effect ∧ ∀ state, (next state).Plain rules
  | .acquire _ _ => False
  | .release _ _ => False

/-- Behind the section: nothing is left but the result. -/
def Settled : Program State Result → Prop
  | .done _ => True
  | .act _ _ => False
  | .acquire _ _ => False
  | .release _ _ => False

/-- In the section: work, and a release on every path. -/
def Inside (rules : SectionRules State) : Program State Result → Prop
  | .done _ => False
  | .act effect next => rules.works effect ∧ ∀ state, (next state).Inside rules
  | .acquire _ _ => False
  | .release effect next => rules.leaves effect ∧ next.Settled

/-- A whole call: silent steps, and then its result or one section with all its work. -/
def Sectioned (rules : SectionRules State) : Program State Result → Prop
  | .done _ => True
  | .act effect next =>
    (act effect next).Silent ∧ ∀ state, (next state).Sectioned rules
  | .acquire effect next => rules.enters effect ∧ next.Inside rules
  | .release _ _ => False

theorem run_of_silent {effect : State → State} {next : State → Program State Result}
    (silent : (act effect next).Silent) (state other : State) :
    (next other).run state = (act effect next).run state := by
  rw [run_act, silent.1 state, silent.2 other state]

namespace Plain

variable {Result Other : Type v} {program other : Program State Result}
variable {after : Result → Program State Other}

theorem pure (result : Result) : (Pure.pure result : Program State Result).Plain rules := trivial

theorem bind (first : program.Plain rules) (second : ∀ result, (after result).Plain rules) :
    (program >>= after).Plain rules := by
  induction program with
  | done result => exact second result
  | act effect next ih => exact ⟨first.1, fun state => ih state (first.2 state)⟩
  | acquire effect next ih => exact first.elim
  | release effect next ih => exact first.elim

theorem ite {condition : Prop} [Decidable condition] (holds : condition → program.Plain rules)
    (fails : ¬ condition → other.Plain rules) :
    (if condition then program else other).Plain rules := by
  by_cases decided : condition
  · rw [if_pos decided]
    exact holds decided
  · rw [if_neg decided]
    exact fails decided

end Plain

namespace Inside

variable {Result Other : Type v} {program other : Program State Result}
variable {after : Result → Program State Other}

theorem bind (first : program.Plain rules) (second : ∀ result, (after result).Inside rules) :
    (program >>= after).Inside rules := by
  induction program with
  | done result => exact second result
  | act effect next ih => exact ⟨first.1, fun state => ih state (first.2 state)⟩
  | acquire effect next ih => exact first.elim
  | release effect next ih => exact first.elim

theorem ite {condition : Prop} [Decidable condition] (holds : condition → program.Inside rules)
    (fails : ¬ condition → other.Inside rules) :
    (if condition then program else other).Inside rules := by
  by_cases decided : condition
  · rw [if_pos decided]
    exact holds decided
  · rw [if_neg decided]
    exact fails decided

end Inside

theorem Sectioned.ite {program other : Program State Result} {condition : Prop}
    [Decidable condition] (holds : condition → program.Sectioned rules)
    (fails : ¬ condition → other.Sectioned rules) :
    (if condition then program else other).Sectioned rules := by
  by_cases decided : condition
  · rw [if_pos decided]
    exact holds decided
  · rw [if_neg decided]
    exact fails decided

theorem Settled.returning {Result Other : Type v} {program : Program State Result}
    (settled : program.Settled) (value : Result → Other) :
    (program >>= fun result => pure (value result)).Settled := by
  cases program with
  | done result => trivial
  | act effect next => exact settled.elim
  | acquire effect next => exact settled.elim
  | release effect next => exact settled.elim

theorem Inside.returning {Result Other : Type v} {program : Program State Result}
    (inside : program.Inside rules) (value : Result → Other) :
    (program >>= fun result => pure (value result)).Inside rules := by
  induction program with
  | done result => exact inside.elim
  | act effect next ih => exact ⟨inside.1, fun state => ih state (inside.2 state)⟩
  | acquire effect next ih => exact inside.elim
  | release effect next ih => exact ⟨inside.1, inside.2.returning value⟩

/-- What is made of the result is nobody's business but the caller's. -/
theorem Sectioned.returning {Result Other : Type v} {program : Program State Result}
    (sectioned : program.Sectioned rules) (value : Result → Other) :
    (program >>= fun result => pure (value result)).Sectioned rules := by
  induction program with
  | done result => trivial
  | act effect next ih =>
    obtain ⟨⟨changes, depends⟩, later⟩ := sectioned
    refine ⟨⟨changes, fun state other => ?_⟩, fun state => ih state (later state)⟩
    exact congrArg (fun program => program >>= fun result => pure (value result))
      (depends state other)
  | acquire effect next ih => exact ⟨sectioned.1, sectioned.2.returning value⟩
  | release effect next ih => exact sectioned.elim

theorem Settled.eq_done {program : Program State Result} (settled : program.Settled) :
    ∃ result, program = .done result := by
  cases program with
  | done result => exact ⟨result, rfl⟩
  | act effect next => exact settled.elim
  | acquire effect next => exact settled.elim
  | release effect next => exact settled.elim

section Run

variable {program : Program State Result} {fresh held finished : State → Prop}

/-- The rule for the rest of a section: what work keeps holds until it is left. -/
theorem Inside.run_rule (inside : program.Inside rules)
    (works : ∀ effect, rules.works effect → ∀ state, held state → held (effect state))
    (leaves : ∀ effect, rules.leaves effect → ∀ state, held state → finished (effect state))
    (state : State) (holds : held state) : finished (program.run state).2 := by
  induction program generalizing state with
  | done result => exact inside.elim
  | act effect next ih =>
    exact ih state (inside.2 state) (effect state) (works effect inside.1 state holds)
  | acquire effect next ih => exact inside.elim
  | release effect next ih =>
    obtain ⟨leaving, settled⟩ := inside
    obtain ⟨result, rfl⟩ := settled.eq_done
    exact leaves effect leaving state holds

/-- The rule for a whole call: it leaves the state as it found it, or it goes through
its section. -/
theorem Sectioned.run_rule (sectioned : program.Sectioned rules)
    (enters : ∀ effect, rules.enters effect → ∀ state, fresh state → held (effect state))
    (works : ∀ effect, rules.works effect → ∀ state, held state → held (effect state))
    (leaves : ∀ effect, rules.leaves effect → ∀ state, held state → finished (effect state))
    (state : State) (holds : fresh state) :
    (program.run state).2 = state ∨ finished (program.run state).2 := by
  induction program generalizing state with
  | done result => exact .inl rfl
  | act effect next ih =>
    obtain ⟨silent, later⟩ := sectioned
    rw [run_act, silent.1 state]
    exact ih state (later state) state holds
  | acquire effect next ih =>
    obtain ⟨entering, inside⟩ := sectioned
    exact .inr (inside.run_rule works leaves (effect state) (enters effect entering state holds))
  | release effect next ih => exact sectioned.elim

end Run

end Program

end Aesd.Library
