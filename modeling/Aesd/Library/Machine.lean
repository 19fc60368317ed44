import Mathlib.Data.List.Induction

/-! Partial machines with inputs and outputs, their finite runs, and the rules
by which one step lemma becomes a statement about every run. -/
namespace Aesd.Library

universe u v w

/-- A step consumes one input; `none` marks an input the state does not admit. -/
structure Machine (State : Type u) (Input : Type v) (Output : Type w) where
  step : State → Input → Option (Output × State)

namespace Machine

variable {State : Type u} {Input : Type v} {Output : Type w}
variable {machine : Machine State Input Output}

/-- A finite run from `start`, with its inputs and outputs in order. -/
inductive Run (machine : Machine State Input Output) (start : State) :
    List (Input × Output) → State → Prop where
  | start : Run machine start [] start
  | next {trace : List (Input × Output)} {state after : State} {input : Input} {output : Output}
      (earlier : Run machine start trace state)
      (taken : machine.step state input = some (output, after)) :
      Run machine start (trace ++ [(input, output)]) after

def Reachable (machine : Machine State Input Output) (start state : State) : Prop :=
  ∃ trace, machine.Run start trace state

/-- Evaluate a list of inputs, collecting the trace. -/
def exec (machine : Machine State Input Output) (state : State) :
    List Input → Option (List (Input × Output) × State)
  | [] => some ([], state)
  | input :: rest =>
    match machine.step state input with
    | none => none
    | some (output, after) =>
      match machine.exec after rest with
      | none => none
      | some (trace, final) => some ((input, output) :: trace, final)

/-- Test every step that a list of inputs leads to. -/
def every (machine : Machine State Input Output) (test : State → Input → State → Bool)
    (state : State) : List Input → Bool
  | [] => true
  | input :: rest =>
    match machine.step state input with
    | none => false
    | some (_, after) => test state input after && machine.every test after rest

theorem Run.single {start after : State} {input : Input} {output : Output}
    (taken : machine.step start input = some (output, after)) :
    machine.Run start [(input, output)] after := by
  simpa using Run.next Run.start taken

theorem Run.append {start middle final : State} {first second : List (Input × Output)}
    (before : machine.Run start first middle) (later : machine.Run middle second final) :
    machine.Run start (first ++ second) final := by
  induction later with
  | start => simpa using before
  | next _ taken ih =>
    rw [← List.append_assoc]
    exact ih.next taken

theorem Run.last {start final : State} {trace : List (Input × Output)} {input : Input}
    {output : Output} (run : machine.Run start (trace ++ [(input, output)]) final) :
    ∃ state, machine.Run start trace state ∧ machine.step state input = some (output, final) := by
  generalize whole : trace ++ [(input, output)] = full at run
  cases run with
  | start => simp at whole
  | next earlier taken =>
    obtain ⟨sameTrace, sameLast⟩ := List.append_inj' whole rfl
    cases sameLast
    exact ⟨_, sameTrace ▸ earlier, taken⟩

/-- Every cut of a trace is a state the run passed through. -/
theorem Run.split {start final : State} {first second : List (Input × Output)}
    (run : machine.Run start (first ++ second) final) :
    ∃ middle, machine.Run start first middle ∧ machine.Run middle second final := by
  induction second using List.reverseRecOn generalizing final with
  | nil => exact ⟨final, by simpa using run, .start⟩
  | append_singleton rest last ih =>
    rw [← List.append_assoc] at run
    obtain ⟨state, earlier, taken⟩ := run.last
    obtain ⟨middle, before, later⟩ := ih earlier
    exact ⟨middle, before, later.next taken⟩

theorem Run.step_inside {start final : State} {trace past : List (Input × Output)} {input : Input}
    {output : Output} (run : machine.Run start trace final)
    (inside : past ++ [(input, output)] <+: trace) :
    ∃ before after, machine.Run start past before ∧
      machine.step before input = some (output, after) := by
  obtain ⟨later, rfl⟩ := inside
  obtain ⟨after, passed, _⟩ := run.split
  obtain ⟨before, earlier, taken⟩ := passed.last
  exact ⟨before, after, earlier, taken⟩

theorem inside_of_mem {trace : List (Input × Output)} {input : Input} {output : Output}
    (member : (input, output) ∈ trace) : ∃ past, past ++ [(input, output)] <+: trace := by
  obtain ⟨past, later, rfl⟩ := List.append_of_mem member
  exact ⟨past, later, List.append_cons past (input, output) later ▸ rfl⟩

theorem Run.of_exec {start final : State} {inputs : List Input} {trace : List (Input × Output)}
    (computed : machine.exec start inputs = some (trace, final)) :
    machine.Run start trace final := by
  induction inputs generalizing start trace with
  | nil =>
    simp only [exec, Option.some.injEq, Prod.mk.injEq] at computed
    obtain ⟨rfl, rfl⟩ := computed
    exact .start
  | cons input rest ih =>
    simp only [exec] at computed
    split at computed
    · cases computed
    · rename_i output after taken
      split at computed
      · cases computed
      · rename_i later last done
        simp only [Option.some.injEq, Prod.mk.injEq] at computed
        obtain ⟨rfl, rfl⟩ := computed
        exact (Run.single taken).append (ih done)

theorem exec_inputs {start final : State} {inputs : List Input} {trace : List (Input × Output)}
    (computed : machine.exec start inputs = some (trace, final)) :
    trace.map Prod.fst = inputs := by
  induction inputs generalizing start trace with
  | nil =>
    cases computed
    rfl
  | cons input rest ih =>
    simp only [exec] at computed
    split at computed
    · cases computed
    · split at computed
      · cases computed
      · rename_i later last done
        cases computed
        rw [List.map_cons, ih done]

theorem input_mem_of_inside {start final : State} {inputs : List Input}
    {trace past : List (Input × Output)} {input : Input} {output : Output}
    (computed : machine.exec start inputs = some (trace, final))
    (inside : past ++ [(input, output)] <+: trace) : input ∈ inputs := by
  have taken : (input, output) ∈ trace :=
    inside.subset (List.mem_append_right _ (List.mem_singleton_self _))
  rw [← exec_inputs computed]
  exact List.mem_map.mpr ⟨_, taken, rfl⟩

/-- Equal inputs from equal states give equal traces and equal final states. -/
theorem Run.deterministic {start final other : State} {trace second : List (Input × Output)}
    (run : machine.Run start trace final) (again : machine.Run start second other)
    (same : trace.map Prod.fst = second.map Prod.fst) : trace = second ∧ final = other := by
  induction run generalizing second other with
  | start =>
    cases again with
    | start => exact ⟨rfl, rfl⟩
    | next _ _ => simp at same
  | next _ taken ih =>
    cases again with
    | start => simp at same
    | next earlier takenAgain =>
      simp only [List.map_append, List.map_cons, List.map_nil] at same
      obtain ⟨sameRest, sameLast⟩ := List.append_inj' same (by simp)
      obtain ⟨sameTrace, sameState⟩ := ih earlier sameRest
      subst sameTrace sameState
      rw [List.singleton_inj.mp sameLast, takenAgain] at taken
      obtain ⟨rfl, rfl⟩ := Prod.mk.inj (Option.some.inj taken)
      exact ⟨by rw [List.singleton_inj.mp sameLast], rfl⟩

theorem Run.head {start final : State} {rest : List (Input × Output)} {input : Input}
    {output : Output} (run : machine.Run start ((input, output) :: rest) final) :
    ∃ middle, machine.step start input = some (output, middle) ∧ machine.Run middle rest final := by
  obtain ⟨middle, one, later⟩ :=
    @Run.split _ _ _ machine start final [(input, output)] rest run
  obtain ⟨state, none, taken⟩ := @Run.last _ _ _ machine start middle [] input output one
  obtain ⟨_, rfl⟩ := none.deterministic .start rfl
  exact ⟨middle, taken, later⟩

/-- The invariant rule with the history of the run in the invariant. -/
theorem Run.history {start final : State} {trace : List (Input × Output)}
    (holds : List (Input × Output) → State → Prop)
    (run : machine.Run start trace final) (initial : holds [] start)
    (preserved : ∀ past state input output after, holds past state →
      machine.step state input = some (output, after) → holds (past ++ [(input, output)]) after) :
    holds trace final := by
  induction run with
  | start => exact initial
  | next _ taken ih => exact preserved _ _ _ _ _ ih taken

/-- What is observed before each step of a list of inputs, in order. -/
def collect {Item : Type*} (machine : Machine State Input Output)
    (observe : State → Input → List Item) (state : State) : List Input → List Item
  | [] => []
  | input :: rest => observe state input ++
      match machine.step state input with
      | none => []
      | some (_, after) => machine.collect observe after rest

theorem Run.collect_append {Item : Type*} {observe : State → Input → List Item}
    {start final : State} {trace : List (Input × Output)}
    (run : machine.Run start trace final) (rest : List Input) :
    machine.collect observe start (trace.map Prod.fst ++ rest) =
      machine.collect observe start (trace.map Prod.fst) ++ machine.collect observe final rest := by
  induction run generalizing rest with
  | start => rfl
  | next earlier taken ih =>
    simp only [List.map_append, List.map_cons, List.map_nil, List.append_assoc, ih]
    simp [collect, taken]

theorem Run.collect_next {Item : Type*} {observe : State → Input → List Item}
    {start final : State} {trace : List (Input × Output)} {input : Input} {output : Output}
    (run : machine.Run start trace final) :
    machine.collect observe start ((trace ++ [(input, output)]).map Prod.fst) =
      machine.collect observe start (trace.map Prod.fst) ++ observe final input := by
  rw [List.map_append, run.collect_append]
  simp only [List.map_cons, List.map_nil, collect]
  split
  · rw [List.append_nil]
  · rw [List.append_nil]

theorem Run.invariant {start final : State} {trace : List (Input × Output)}
    (holds : State → Prop) (run : machine.Run start trace final) (initial : holds start)
    (preserved : ∀ state input output after, holds state →
      machine.step state input = some (output, after) → holds after) :
    holds final :=
  Run.history (fun _ state => holds state) run initial
    (fun _ state input output after kept taken => preserved state input output after kept taken)

/-- What holds of every prefix of the run with this trace and the state it leads to. -/
def Throughout (machine : Machine State Input Output) (start : State)
    (trace : List (Input × Output)) (holds : List (Input × Output) → State → Prop) : Prop :=
  ∀ past state, past <+: trace → machine.Run start past state → holds past state

/-- What holds of every state that the run with this trace passes through. -/
def Along (machine : Machine State Input Output) (start : State) (trace : List (Input × Output))
    (holds : State → Prop) : Prop :=
  ∀ past state, past <+: trace → machine.Run start past state → holds state

/-- What holds of every step that the run with this trace takes. -/
def EachStep (machine : Machine State Input Output) (start : State)
    (trace : List (Input × Output)) (holds : State → Input → Output → State → Prop) : Prop :=
  ∀ past input output before after, past ++ [(input, output)] <+: trace →
    machine.Run start past before → machine.step before input = some (output, after) →
      holds before input output after

section Steps

variable {start state after : State} {trace : List (Input × Output)} {input : Input}
variable {output : Output} {holds : State → Prop}
variable {kept good given : State → Input → Output → State → Prop}

theorem Run.state_unique {other : State} (run : machine.Run start trace state)
    (again : machine.Run start trace other) : state = other :=
  (run.deterministic again rfl).2

theorem throughout_nil {holds : List (Input × Output) → State → Prop} :
    machine.Throughout start [] holds ↔ holds [] start := by
  constructor
  · exact fun throughout => throughout [] start (List.prefix_refl _) .start
  · intro initial past state before run
    obtain rfl := List.prefix_nil.mp before
    exact run.state_unique .start ▸ initial

theorem along_nil : machine.Along start [] holds ↔ holds start :=
  @throughout_nil _ _ _ machine start (fun _ state => holds state)

theorem eachStep_nil : machine.EachStep start [] kept := by
  intro past input output before after inside
  simp at inside

theorem throughout_append_singleton {holds : List (Input × Output) → State → Prop}
    (run : machine.Run start trace state)
    (taken : machine.step state input = some (output, after)) :
    machine.Throughout start (trace ++ [(input, output)]) holds ↔
      machine.Throughout start trace holds ∧ holds (trace ++ [(input, output)]) after := by
  constructor
  · intro throughout
    exact ⟨fun past middle before => throughout past middle (before.trans (List.prefix_append _ _)),
      throughout _ after (List.prefix_refl _) (run.next taken)⟩
  · rintro ⟨throughout, last⟩ past middle before passed
    rcases List.prefix_concat_iff.mp before with whole | earlier
    · subst whole
      exact passed.state_unique (run.next taken) ▸ last
    · exact throughout past middle earlier passed

theorem along_append_singleton (run : machine.Run start trace state)
    (taken : machine.step state input = some (output, after)) :
    machine.Along start (trace ++ [(input, output)]) holds ↔
      machine.Along start trace holds ∧ holds after :=
  @throughout_append_singleton _ _ _ machine start state after trace input output
    (fun _ state => holds state) run taken

theorem eachStep_append_singleton (run : machine.Run start trace state)
    (taken : machine.step state input = some (output, after)) :
    machine.EachStep start (trace ++ [(input, output)]) kept ↔
      machine.EachStep start trace kept ∧ kept state input output after := by
  constructor
  · intro each
    exact ⟨fun past _ _ before next inside =>
      each past _ _ before next (inside.trans (List.prefix_append _ _)),
      each trace _ _ state after (List.prefix_refl _) run taken⟩
  · rintro ⟨each, last⟩ past nextInput nextOutput before next inside passed stepped
    rcases List.prefix_concat_iff.mp inside with whole | earlier
    · obtain ⟨rfl, same⟩ := List.append_inj' whole rfl
      cases same
      obtain rfl := run.state_unique passed
      cases taken.symm.trans stepped
      exact last
    · exact each past _ _ before next earlier passed stepped

theorem Along.final (along : machine.Along start trace holds)
    (run : machine.Run start trace state) : holds state :=
  along trace state (List.prefix_refl _) run

theorem Along.eachStep (along : machine.Along start trace holds) :
    machine.EachStep start trace fun before _ _ _ => holds before :=
  fun past _ _ before _ inside passed _ =>
    along past before ((List.prefix_append _ _).trans inside) passed

/-- What holds along a run holds along what follows a part of it. -/
theorem Along.later {first second : List (Input × Output)}
    (along : machine.Along start (first ++ second) holds) (run : machine.Run start first state) :
    machine.Along state second holds :=
  fun past after inside passed => along (first ++ past) after
    ((List.prefix_append_right_inj _).mpr inside) (run.append passed)

theorem eachStep_cons (taken : machine.step start input = some (output, after))
    (first : kept start input output after) (rest : machine.EachStep after trace kept) :
    machine.EachStep start ((input, output) :: trace) kept := by
  intro past nextInput nextOutput before next inside passed stepped
  cases past with
  | nil =>
    obtain ⟨later, same⟩ := inside
    cases same
    obtain rfl := passed.state_unique .start
    cases taken.symm.trans stepped
    exact first
  | cons head past =>
    obtain ⟨later, same⟩ := inside
    simp only [List.cons_append, List.cons.injEq] at same
    obtain ⟨rfl, same⟩ := same
    obtain ⟨middle, first, others⟩ := passed.head
    cases taken.symm.trans first
    exact rest past nextInput nextOutput before next ⟨later, same⟩ others stepped

/-- The invariant rule where the steps are known to be good ones, with the history
of the run in the invariant. -/
theorem Run.history_of_eachStep (holds : List (Input × Output) → State → Prop)
    (run : machine.Run start trace state) (initial : holds [] start)
    (each : machine.EachStep start trace good)
    (preserved : ∀ past before input output after, good before input output after →
      holds past before → machine.step before input = some (output, after) →
        holds (past ++ [(input, output)]) after) : holds trace state := by
  induction run with
  | start => exact initial
  | next earlier taken ih =>
    obtain ⟨eachEarlier, last⟩ := (eachStep_append_singleton earlier taken).mp each
    exact preserved _ _ _ _ _ last (ih eachEarlier) taken

theorem Run.invariant_of_eachStep (holds : State → Prop)
    (run : machine.Run start trace state) (initial : holds start)
    (each : machine.EachStep start trace good)
    (preserved : ∀ before input output after, good before input output after → holds before →
      machine.step before input = some (output, after) → holds after) : holds state :=
  Run.history_of_eachStep (fun _ state => holds state) run initial each
    (fun _ before input output after fine kept taken =>
      preserved before input output after fine kept taken)

/-- What holds at the start and after each step holds along the run. -/
theorem Run.along_of_eachStep (run : machine.Run start trace state) (initial : holds start)
    (each : machine.EachStep start trace fun _ _ _ after => holds after) :
    machine.Along start trace holds := by
  induction run with
  | start => exact along_nil.mpr initial
  | next earlier taken ih =>
    obtain ⟨eachEarlier, last⟩ := (eachStep_append_singleton earlier taken).mp each
    exact (along_append_singleton earlier taken).mpr ⟨ih eachEarlier, last⟩

/-- Two demands on prefixes agree throughout a run if each step keeps them in agreement. -/
theorem Run.throughout_iff {wanted exact : List (Input × Output) → State → Prop}
    (run : machine.Run start trace state) (initial : wanted [] start ↔ exact [] start)
    (agree : ∀ past before input output after, past ++ [(input, output)] <+: trace →
      machine.Run start past before → machine.step before input = some (output, after) →
        wanted past before → exact past before →
          (wanted (past ++ [(input, output)]) after ↔ exact (past ++ [(input, output)]) after)) :
    machine.Throughout start trace wanted ↔ machine.Throughout start trace exact := by
  induction run with
  | start => rw [throughout_nil, throughout_nil, initial]
  | next earlier taken ih =>
    have same := ih fun past before input output after inside =>
      agree past before input output after (inside.trans (List.prefix_append _ _))
    have last := agree _ _ _ _ _ (List.prefix_refl _) earlier taken
    rw [throughout_append_singleton earlier taken, throughout_append_singleton earlier taken, same]
    refine and_congr_right fun fine => last ?_ ?_
    · exact same.mpr fine _ _ (List.prefix_refl _) earlier
    · exact fine _ _ (List.prefix_refl _) earlier

/-- Two demands on steps agree on a run if they agree on each of its steps. -/
theorem eachStep_congr
    (same : ∀ past input output before after, past ++ [(input, output)] <+: trace →
      machine.Run start past before → machine.step before input = some (output, after) →
        (kept before input output after ↔ good before input output after)) :
    machine.EachStep start trace kept ↔ machine.EachStep start trace good := by
  constructor
  · intro each past input output before after inside passed taken
    exact (same past input output before after inside passed taken).mp
      (each past input output before after inside passed taken)
  · intro each past input output before after inside passed taken
    exact (same past input output before after inside passed taken).mpr
      (each past input output before after inside passed taken)

theorem eachStep_and (first : machine.EachStep start trace kept)
    (second : machine.EachStep start trace good) :
    machine.EachStep start trace fun before input output after =>
      kept before input output after ∧ good before input output after :=
  fun past input output before after inside passed taken =>
    ⟨first past input output before after inside passed taken,
      second past input output before after inside passed taken⟩

theorem EachStep.earlier {first second : List (Input × Output)}
    (each : machine.EachStep start (first ++ second) good) : machine.EachStep start first good :=
  fun past _ _ before next inside =>
    each past _ _ before next (inside.trans (List.prefix_append _ _))

/-- A tested list of inputs leads to good steps only. -/
theorem eachStep_of_every {inputs : List Input} (test : State → Input → State → Bool)
    (computed : machine.exec start inputs = some (trace, state))
    (tested : machine.every test start inputs = true) :
    machine.EachStep start trace fun before input _ after => test before input after = true := by
  induction inputs generalizing start trace with
  | nil =>
    cases computed
    exact eachStep_nil
  | cons input rest ih =>
    simp only [exec] at computed
    simp only [every] at tested
    split at computed
    · cases computed
    · rename_i taken
      rw [taken] at tested
      obtain ⟨first, others⟩ := Bool.and_eq_true_iff.mp tested
      split at computed
      · cases computed
      · rename_i done
        cases computed
        exact eachStep_cons taken first (ih done others)

/-- If one step from a good state keeps everything exactly when it is a good step,
a whole run keeps everything exactly when all its steps are good. -/
theorem Run.along_iff_eachStep (run : machine.Run start trace state) (initial : holds start)
    (known : machine.EachStep start trace given)
    (exact : ∀ before input output after, given before input output after → holds before →
      machine.step before input = some (output, after) →
        ((holds after ∧ kept before input output after) ↔ good before input output after)) :
    (machine.Along start trace holds ∧ machine.EachStep start trace kept) ↔
      machine.EachStep start trace good := by
  induction run with
  | start => exact iff_of_true ⟨along_nil.mpr initial, eachStep_nil⟩ eachStep_nil
  | next earlier taken ih =>
    obtain ⟨knownEarlier, knownLast⟩ := (eachStep_append_singleton earlier taken).mp known
    have earlierIff := ih knownEarlier
    rw [along_append_singleton earlier taken, eachStep_append_singleton earlier taken,
      eachStep_append_singleton earlier taken]
    constructor
    · rintro ⟨⟨along, last⟩, each, keeps⟩
      exact ⟨earlierIff.mp ⟨along, each⟩,
        (exact _ _ _ _ knownLast (along.final earlier) taken).mp ⟨last, keeps⟩⟩
    · rintro ⟨each, fine⟩
      obtain ⟨along, keptEarlier⟩ := earlierIff.mpr each
      obtain ⟨last, keeps⟩ := (exact _ _ _ _ knownLast (along.final earlier) taken).mpr fine
      exact ⟨⟨along, last⟩, keptEarlier, keeps⟩

theorem Run.along_iff (run : machine.Run start trace state) (initial : holds start)
    (known : machine.EachStep start trace given)
    (exact : ∀ before input output after, given before input output after → holds before →
      machine.step before input = some (output, after) →
        (holds after ↔ good before input output after)) :
    machine.Along start trace holds ↔ machine.EachStep start trace good := by
  have both := @Run.along_iff_eachStep _ _ _ machine start state trace holds
    (fun _ _ _ _ => True) good given run initial known
    (fun before input output after knows kept taken =>
      (and_iff_left trivial).trans (exact before input output after knows kept taken))
  exact (and_iff_left fun _ _ _ _ _ _ _ _ => trivial).symm.trans both

/-- If good steps keep an invariant, and from it exactly the good steps lead to a
wanted state, a run is in wanted states all along exactly when all its steps are good. -/
theorem Run.along_iff_of_invariant {invariant : State → Prop} (run : machine.Run start trace state)
    (begins : invariant start) (initial : holds start) (known : machine.EachStep start trace given)
    (preserved : ∀ before input output after, given before input output after →
      good before input output after → invariant before →
        machine.step before input = some (output, after) → invariant after)
    (exact : ∀ before input output after, given before input output after → invariant before →
      machine.step before input = some (output, after) →
        (holds after ↔ good before input output after)) :
    machine.Along start trace holds ↔ machine.EachStep start trace good := by
  induction run with
  | start => exact iff_of_true (along_nil.mpr initial) eachStep_nil
  | next earlier taken ih =>
    obtain ⟨knownEarlier, knownLast⟩ := (eachStep_append_singleton earlier taken).mp known
    rw [along_append_singleton earlier taken, eachStep_append_singleton earlier taken,
      ih knownEarlier]
    refine and_congr_right fun each => exact _ _ _ _ knownLast ?_ taken
    refine earlier.invariant_of_eachStep invariant begins (eachStep_and knownEarlier each) ?_
    intro before input output after both inside stepped
    exact preserved before input output after both.1 both.2 inside stepped

/-- Steps that no related state can tell apart from doing nothing may be left out
of a run: what remains is a run with the same outputs. -/
theorem Run.skip (related : State → State → Prop) (keep : Input × Output → Bool)
    (run : machine.Run start trace state) (initial : related start start)
    (follows : ∀ first second input output after, related first second →
      machine.step first input = some (output, after) →
        ∃ other, machine.step second input = some (output, other) ∧ related after other)
    (silent : machine.EachStep start trace fun before input output after =>
      keep (input, output) = false → ∀ other, related before other → related after other) :
    ∃ other, machine.Run start (trace.filter keep) other ∧ related state other := by
  induction run with
  | start => exact ⟨start, .start, initial⟩
  | next earlier taken ih =>
    obtain ⟨silentEarlier, silentLast⟩ := (eachStep_append_singleton earlier taken).mp silent
    obtain ⟨other, skipped, same⟩ := ih silentEarlier
    rw [List.filter_append]
    rename_i trace state after input output
    cases kept : keep (input, output) with
    | true =>
      obtain ⟨next, step, sameAfter⟩ := follows _ _ _ _ _ same taken
      rw [List.filter_cons_of_pos kept, List.filter_nil]
      exact ⟨next, skipped.next step, sameAfter⟩
    | false =>
      rw [List.filter_cons_of_neg (by simp [kept]), List.filter_nil, List.append_nil]
      exact ⟨other, skipped, silentLast kept other same⟩

end Steps

end Machine

end Aesd.Library
