import Aesd.Library.Machine

namespace Aesd.Library.Machine

universe u v w x

variable {State : Type u} {Input : Type v} {Output : Type w} {Abstract : Type x}
variable {machine : Machine State Input Output}

/-- Good steps from valid states are steps of the abstract machine, with the same
output, between the states that the concrete ones stand for. -/
structure Simulates (machine : Machine State Input Output)
    (abstract : Machine Abstract Input Output) (standsFor : State → Abstract)
    (valid : State → Prop) (good : State → Input → Output → State → Prop) : Prop where
  step : ∀ before input output after, valid before → good before input output after →
    machine.step before input = some (output, after) →
      valid after ∧ abstract.step (standsFor before) input = some (output, standsFor after)

variable {abstract : Machine Abstract Input Output} {standsFor : State → Abstract}
variable {valid : State → Prop} {good : State → Input → Output → State → Prop}
variable {start state : State} {trace : List (Input × Output)}

/-- A run of good steps is a run of the abstract machine with the same trace. -/
theorem Simulates.run (simulates : machine.Simulates abstract standsFor valid good)
    (run : machine.Run start trace state) (initial : valid start)
    (each : machine.EachStep start trace good) :
    valid state ∧ abstract.Run (standsFor start) trace (standsFor state) := by
  refine run.history_of_eachStep (fun past state =>
    valid state ∧ abstract.Run (standsFor start) past (standsFor state)) ⟨initial, .start⟩ each ?_
  intro past before input output after fine kept taken
  obtain ⟨holds, earlier⟩ := kept
  obtain ⟨holdsAfter, same⟩ := simulates.step before input output after holds fine taken
  exact ⟨holdsAfter, earlier.next same⟩

section Reading

variable {Other : Type*} {meaning : Other → Input} {other : List (Other × Output)}

/-- The machine with inputs that stand for its own. -/
def reading (machine : Machine State Input Output) (meaning : Other → Input) :
    Machine State Other Output where
  step state input := machine.step state (meaning input)

theorem Run.of_reading (run : (machine.reading meaning).Run start other state) :
    machine.Run start (other.map (Prod.map meaning id)) state := by
  induction run with
  | start => exact .start
  | next earlier taken ih =>
    rw [List.map_append]
    exact ih.next taken

theorem Simulates.reading (simulates : machine.Simulates abstract standsFor valid good)
    (meaning : Other → Input) :
    (machine.reading meaning).Simulates (abstract.reading meaning) standsFor valid
      fun before input => good before (meaning input) where
  step := fun before input output after holds fine taken =>
    simulates.step before (meaning input) output after holds fine taken

end Reading

section Part

variable {PartInput PartOutput : Type*}

/-- Good steps of the machine from valid states are steps of its part, as far as `view`
shows them, and leave the part as it is where it shows nothing. -/
structure Projects (machine : Machine State Input Output)
    (part : Machine Abstract PartInput PartOutput) (standsFor : State → Abstract)
    (view : Input × Output → Option (PartInput × PartOutput)) (valid : State → Prop)
    (good : State → Input → Output → State → Prop) : Prop where
  kept : ∀ before input output after, valid before → good before input output after →
    machine.step before input = some (output, after) → valid after
  seen : ∀ before input output after shown, valid before → good before input output after →
    machine.step before input = some (output, after) → view (input, output) = some shown →
      part.step (standsFor before) shown.1 = some (shown.2, standsFor after)
  unseen : ∀ before input output after, valid before → good before input output after →
    machine.step before input = some (output, after) → view (input, output) = none →
      standsFor after = standsFor before

variable {part : Machine Abstract PartInput PartOutput}
variable {view : Input × Output → Option (PartInput × PartOutput)}
variable {kept : State → Input → Output → State → Prop}
variable {keptPart : Abstract → PartInput → PartOutput → Abstract → Prop}

/-- What is shown of a run of good steps is a run of the part. -/
theorem Projects.run (projects : machine.Projects part standsFor view valid good)
    (run : machine.Run start trace state) (initial : valid start)
    (each : machine.EachStep start trace good) :
    valid state ∧ part.Run (standsFor start) (trace.filterMap view) (standsFor state) := by
  refine run.history_of_eachStep (fun past state =>
    valid state ∧ part.Run (standsFor start) (past.filterMap view) (standsFor state))
    ⟨initial, .start⟩ each ?_
  intro past before input output after fine ⟨holds, earlier⟩ taken
  refine ⟨projects.kept before input output after holds fine taken, ?_⟩
  rw [List.filterMap_append]
  cases shows : view (input, output) with
  | none =>
    rw [projects.unseen before input output after holds fine taken shows]
    simpa [shows] using earlier
  | some shown =>
    simpa [shows] using earlier.next (projects.seen before input output after shown holds fine taken shows)

theorem Projects.eachStep (projects : machine.Projects part standsFor view valid good)
    (run : machine.Run start trace state) (initial : valid start)
    (each : machine.EachStep start trace good) (known : machine.EachStep start trace kept)
    (carries : ∀ before input output after shown, view (input, output) = some shown →
      kept before input output after →
        keptPart (standsFor before) shown.1 shown.2 (standsFor after)) :
    part.EachStep (standsFor start) (trace.filterMap view) keptPart := by
  induction run with
  | start => exact eachStep_nil
  | next earlier taken ih =>
    rename_i trace before after input output
    obtain ⟨eachEarlier, fine⟩ := (eachStep_append_singleton earlier taken).mp each
    obtain ⟨knownEarlier, last⟩ := (eachStep_append_singleton earlier taken).mp known
    obtain ⟨holds, passed⟩ := projects.run earlier initial eachEarlier
    rw [List.filterMap_append]
    cases shows : view (input, output) with
    | none => simpa [shows] using ih eachEarlier knownEarlier
    | some shown =>
      have stepped := projects.seen before input output after shown holds fine taken shows
      have both := (eachStep_append_singleton passed stepped).mpr
        ⟨ih eachEarlier knownEarlier, carries before input output after shown shows last⟩
      simpa [shows] using both

/-- What holds along a run of the part it stands for holds along the run of the part. -/
theorem Projects.along {holds : Abstract → Prop}
    (projects : machine.Projects part standsFor view valid good)
    (run : machine.Run start trace state) (initial : valid start)
    (each : machine.EachStep start trace good)
    (known : machine.Along start trace fun state => holds (standsFor state)) :
    part.Along (standsFor start) (trace.filterMap view) holds := by
  have begins : holds (standsFor start) := known [] start (List.nil_prefix) .start
  have after : machine.EachStep start trace fun _ _ _ after => holds (standsFor after) :=
    fun past _ _ _ after inside passed taken => known _ after inside (passed.next taken)
  obtain ⟨_, shown⟩ := projects.run run initial each
  refine shown.along_of_eachStep begins ?_
  exact projects.eachStep run initial each after fun _ _ _ _ _ _ still => still

end Part

end Aesd.Library.Machine
