import Aesd.Library.Machine
import Mathlib.Order.WellFounded

namespace Aesd.Library

universe u v w x

namespace Machine

variable {State : Type u} {Input : Type v} {Output : Type w} {Measure : Type x}
variable {machine : Machine State Input Output} {ends : Input → Prop} {post : State → Prop}

/-- However the run goes on, it is never stuck before an input of `ends`, gets to one
after finitely many steps, and is in a state of `post` then. -/
inductive Ensures (machine : Machine State Input Output) (ends : Input → Prop)
    (post : State → Prop) : State → Prop where
  | intro {state : State}
      (enabled : ∃ input output after, machine.step state input = some (output, after))
      (last : ∀ input output after, machine.step state input = some (output, after) →
        ends input → post after)
      (next : ∀ input output after, machine.step state input = some (output, after) →
        ¬ ends input → Ensures machine ends post after) :
      Ensures machine ends post state

/-- The rule for total correctness: an invariant that lets the run go on, and a
measure that decreases with every step but the last. -/
theorem Ensures.of_variant [Preorder Measure] [WellFoundedLT Measure] (holds : State → Prop)
    (variant : State → Measure)
    (enabled : ∀ state, holds state →
      ∃ input output after, machine.step state input = some (output, after))
    (last : ∀ state input output after, holds state →
      machine.step state input = some (output, after) → ends input → post after)
    (next : ∀ state input output after, holds state →
      machine.step state input = some (output, after) → ¬ ends input →
        holds after ∧ variant after < variant state)
    {state : State} (initial : holds state) : machine.Ensures ends post state := by
  generalize bound : variant state = measure
  induction measure using WellFoundedLT.induction generalizing state with
  | ind measure ih =>
    subst bound
    refine .intro (enabled state initial)
      (fun input output after => last state input output after initial) ?_
    intro input output after taken goesOn
    obtain ⟨kept, less⟩ := next state input output after initial taken goesOn
    exact ih (variant after) less kept rfl

/-- Where an end is ensured, some run gets there, and it keeps what steps keep. -/
theorem Ensures.reached {state : State} (ensured : machine.Ensures ends post state)
    (holds : State → Prop) (initial : holds state)
    (preserved : ∀ before input output after, holds before →
      machine.step before input = some (output, after) → ¬ ends input → holds after) :
    ∃ before input output after, holds before ∧
      machine.step before input = some (output, after) ∧ ends input ∧ post after := by
  induction ensured with
  | intro enabled last next ih =>
    obtain ⟨input, output, after, taken⟩ := enabled
    by_cases ended : ends input
    · exact ⟨_, input, output, after, initial, taken, ended, last input output after taken ended⟩
    · exact ih input output after taken ended (preserved _ input output after initial taken ended)

/-- Every run that gets to its first end gets to `post`. -/
theorem Ensures.run {start state after : State} {trace : List (Input × Output)} {input : Input}
    {output : Output} (ensured : machine.Ensures ends post start)
    (goesOn : ∀ step ∈ trace, ¬ ends step.1) (run : machine.Run start trace state)
    (taken : machine.step state input = some (output, after)) (ended : ends input) : post after := by
  have kept : machine.Ensures ends post state := by
    refine run.history (fun past state => (∀ step ∈ past, ¬ ends step.1) →
      machine.Ensures ends post state) (fun _ => ensured) ?_ goesOn
    intro past before nextInput nextOutput following known stepped early
    have still := known fun step member => early step (List.mem_append_left _ member)
    have notOver := early (nextInput, nextOutput)
      (List.mem_append_right _ (List.mem_singleton_self _))
    cases still with
    | intro _ _ next => exact next nextInput nextOutput following stepped notOver
  cases kept with
  | intro _ last _ => exact last input output after taken ended

/-- A round that can be gone once from wherever an invariant holds, and keeps it, can
be gone any number of times. -/
theorem Run.rounds (holds : State → Prop) (round : List Input)
    (goes : ∀ state, holds state → ∃ trace after, machine.Run state trace after ∧
      trace.map Prod.fst = round ∧ holds after)
    (count : Nat) {state : State} (initial : holds state) :
    ∃ trace after, machine.Run state trace after ∧
      trace.map Prod.fst = (List.replicate count round).flatten ∧ holds after := by
  induction count generalizing state with
  | zero => exact ⟨[], state, .start, rfl, initial⟩
  | succ count ih =>
    obtain ⟨first, middle, gone, same, kept⟩ := goes state initial
    obtain ⟨rest, after, later, sameRest, final⟩ := ih kept
    refine ⟨first ++ rest, after, gone.append later, ?_, final⟩
    rw [List.map_append, same, sameRest, List.replicate_succ, List.flatten_cons]

section Variant

variable {own : Input → Prop} {holds : State → Nat → Prop} {start state : State} {left : Nat}

/-- Steps of certain inputs that each lower what is left are at most that many. -/
theorem Run.bounded {trace : List (Input × Output)}
    (lowers : ∀ state left input output after, holds state left → own input →
      machine.step state input = some (output, after) → ∃ less < left, holds after less)
    (initial : holds start left) (run : machine.Run start trace state)
    (mine : ∀ step ∈ trace, own step.1) :
    ∃ rest, trace.length + rest ≤ left ∧ holds state rest := by
  induction run with
  | start => exact ⟨left, Nat.le_of_eq (Nat.zero_add left), initial⟩
  | next earlier taken ih =>
    obtain ⟨rest, bound, kept⟩ := ih fun step member => mine step (List.mem_append_left _ member)
    have belongs := mine _ (List.mem_append_right _ (List.mem_singleton_self _))
    obtain ⟨less, lower, still⟩ := lowers _ rest _ _ _ kept belongs taken
    refine ⟨less, ?_, still⟩
    rw [List.length_append, List.length_singleton]
    omega

/-- Where such an input that lowers what is left is never lacking, they lead to the end. -/
theorem Run.to_end (final : State → Prop)
    (nears : ∀ state left, holds state left → ¬ final state → ∃ input output after, own input ∧
      machine.step state input = some (output, after) ∧ ∃ less < left, holds after less)
    (initial : holds start left) :
    ∃ trace state, machine.Run start trace state ∧ (∀ step ∈ trace, own step.1) ∧ final state := by
  induction left using Nat.strongRecOn generalizing start with
  | ind left ih =>
    by_cases ended : final start
    · exact ⟨[], start, .start, by simp, ended⟩
    obtain ⟨input, output, after, mine, taken, less, lower, kept⟩ := nears start left initial ended
    obtain ⟨rest, state, run, others, arrived⟩ := ih less lower kept
    refine ⟨(input, output) :: rest, state, (Run.single taken).append run, ?_, arrived⟩
    intro step member
    rcases List.mem_cons.mp member with rfl | later
    · exact mine
    · exact others step later

end Variant

end Machine

end Aesd.Library
