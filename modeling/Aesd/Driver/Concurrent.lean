import Aesd.Driver.CommandDevice
import Aesd.Driver.LockDiscipline
import Aesd.Library.Draining

/-! Calls of many threads that interleave between any two accesses to what they share. -/
namespace Aesd.Driver

open Aesd.Library

/-- A call as it reaches the driver. A read and a write are handed the position to move:
that of the file, or whichever copy of it the VFS has made. It is assumed that the VFS
writes to no position that calls use; one that it writes to between calls counts as new. -/
structure Passed where
  call : Call
  fPos : Nat

/-- `aesd_llseek` and `aesd_ioctl` move the position of the file itself. -/
def Passed.onPosition (passed : Passed) : Call :=
  match passed.call.operation with
  | .read _ _ => { passed.call with filp := passed.fPos }
  | .write _ => { passed.call with filp := passed.fPos }
  | .llseek _ _ => passed.call
  | .ioctl _ _ => passed.call

def Passed.code (passed : Passed) : KernelM Reply := passed.onPosition.code

/-- The device before any call, and whatever the VFS has put into the positions. -/
def DriverState.placed (positions : Nat → Int64) : DriverState :=
  { aesdInitModule with fPos := positions }

def CommandDevice.placed (positions : Nat → Int64) : CommandDevice :=
  { fresh with position := positions }

theorem Passed.sectioned (passed : Passed) :
    passed.code.Sectioned (lockRules passed.onPosition.services) :=
  Driver.sectioned passed.onPosition

theorem driver_of_serial {first state : DriverState} {trace : List (Passed × Reply)}
    (run : (serial Passed.code).Run first trace state) :
    (driver.reading Passed.onPosition).Run first trace state := run

/-- All that was logged before is logged later. -/
def Logged (before later : DriverState) : Prop := before.lockTrace <+: later.lockTrace

theorem logged_of_inside {services : Services} {program : KernelM Reply}
    (inside : program.Inside (lockRules services)) (state : DriverState) :
    Logged state (program.run state).2 := by
  have works : ∀ effect, (lockRules services).works effect → ∀ now, Logged state now →
      Logged state (effect now) := by
    intro effect working now earlier
    rcases (working now).2 with silent | access
    · rwa [Logged, silent]
    · rw [Logged, access]
      exact earlier.trans (List.prefix_append _ _)
  have leaves : ∀ effect, (lockRules services).leaves effect → ∀ now, Logged state now →
      Logged state (effect now) := by
    intro effect leaving now earlier
    rw [Logged, (leaving now).2]
    exact earlier.trans (List.prefix_append _ _)
  exact inside.run_rule works leaves state List.prefix_rfl

/-- Two writers; the first one to call is the last one to get the lock. -/
def lateWriter : List (Bool × Option Passed) :=
  [(false, some ⟨⟨0, .smooth, .write (.bytes [109] (by decide))⟩, 2⟩), (false, none),
   (true, some ⟨⟨1, .smooth, .write (.bytes [110, newline] (by decide))⟩, 3⟩)] ++
  List.replicate 32 (true, none) ++ List.replicate 15 (false, none)

/-- The trace and the final state of a schedule. -/
def scheduled (moves : List (Bool × Option Passed)) :
    Option (List ((Bool × Option Passed) × Option Reply) ×
      Threads Bool DriverState Passed Reply) :=
  (interleaved Bool Passed.code).exec (Threads.start (.placed fun _ => 0)) moves

section Interleaved

variable {Thread : Type} [DecidableEq Thread] {positions : Nat → Int64}
variable {trace : List ((Thread × Option Passed) × Option Reply)}
variable {threads : Threads Thread DriverState Passed Reply}

/-- However the steps of the calls of any number of threads interleave, the device
lock makes them a run of `driver`: each call takes effect at one moment between its call
and its answer, with the reply and the state that `driver` has for it on the position it
was handed. -/
theorem calls_linearize
    (run : (interleaved Thread Passed.code).Run (Threads.start (.placed positions)) trace
      threads) :
    ∃ history final, Linearizes (driver.reading Passed.onPosition) (.placed positions) final
        (trace.flatMap seenOf) history ∧
      (threads.holder = none → threads.shared = final) := by
  obtain ⟨history, settled, explains, free⟩ := linearizes Passed.sectioned run
  exact ⟨history, settled, ⟨explains.seen, explains.serves, driver_of_serial explains.effects⟩,
    free⟩

theorem lateWriter_linearize : ∃ trace threads, scheduled lateWriter = some (trace, threads) ∧
    ∃ history final, Linearizes (driver.reading Passed.onPosition) (.placed fun _ => 0) final
        (trace.flatMap seenOf) history ∧
      (threads.holder = none → threads.shared = final) := by
  obtain ⟨⟨trace, threads⟩, computed⟩ :=
    Option.isSome_iff_exists.mp (by decide : (scheduled lateWriter).isSome = true)
  exact ⟨trace, threads, computed, calls_linearize (.of_exec computed)⟩

/-- Whatever the threads are in the middle of, all their calls can return and leave
the lock free. -/
theorem calls_return
    (run : (interleaved Thread Passed.code).Run (Threads.start (.placed positions)) trace
      threads) :
    ∃ shared, LeadsTo Passed.code threads (Threads.start shared) :=
  drains Passed.sectioned run

/-- Here one of them is in the section and the other one waits. -/
theorem lateWriter_return : ∃ trace threads,
    scheduled (lateWriter.take 9) = some (trace, threads) ∧ threads.holder = some true ∧
      ∃ shared, LeadsTo Passed.code threads (Threads.start shared) := by
  obtain ⟨⟨trace, threads⟩, computed⟩ :=
    Option.isSome_iff_exists.mp (by decide : (scheduled (lateWriter.take 9)).isSome = true)
  have held : (scheduled (lateWriter.take 9)).map (fun reached => reached.2.holder) =
      some (some true) := by decide
  rw [computed] at held
  exact ⟨trace, threads, computed, Option.some.inj held, calls_return (.of_exec computed)⟩

/-- No two calls race on the device: a thread whose next step reads or writes anything
holds the lock, unless the step changes nothing and nothing depends on it, as with
what `PDEBUG` prints of a position; and every access to the ring, the pending entry and
the commands there has been was made with the lock held. -/
theorem calls_race_free
    (run : (interleaved Thread Passed.code).Run (Threads.start (.placed positions)) trace
      threads) :
    (∀ thread, threads.acting thread = true →
        threads.holder = some thread ∨ threads.silent thread) ∧
      HeldOnly threads.shared.lockTrace := by
  obtain ⟨history, settled, known⟩ := explained Passed.sectioned run
  refine ⟨fun thread acts => known.holder_of_acting acts, ?_⟩
  have serially := Machine.Run.of_reading (driver_of_serial known.effects)
  obtain ⟨free, uses, matching, flat⟩ := uses_of_run serially rfl rfl
  have clean : HeldOnly settled.lockTrace := by
    rw [flat]
    exact held_only_flatten matching
  cases held : threads.holder with
  | none => rwa [known.free held]
  | some thread =>
    obtain ⟨stage, _, placed⟩ := known.placed thread
    cases placed with
    | idle _ outside => exact absurd held outside
    | waiting _ outside _ _ => exact absurd held outside
    | decided _ outside => exact absurd held outside
    | @inside passed program _ _ within same =>
      -- What is logged so far is part of what the call will have logged at its end.
      obtain ⟨_, events, use, grows⟩ := run_uses passed.onPosition free
      have earlier := logged_of_inside within threads.shared
      rw [same] at earlier
      intro event member
      have logged := earlier.subset member
      rw [show (passed.code.run settled).2.lockTrace = settled.lockTrace ++ events from grows]
        at logged
      rcases List.mem_append.mp logged with before | now
      · exact clean event before
      · exact use.held_only event now

/-- The waiting writer has only printed its position, the other one is in the section. -/
theorem lateWriter_race_free : ∃ trace threads,
    scheduled (lateWriter.take 8) = some (trace, threads) ∧ threads.acting true = true ∧
      (∀ thread, threads.acting thread = true →
        threads.holder = some thread ∨ threads.silent thread) ∧
      HeldOnly threads.shared.lockTrace := by
  obtain ⟨⟨trace, threads⟩, computed⟩ :=
    Option.isSome_iff_exists.mp (by decide : (scheduled (lateWriter.take 8)).isSome = true)
  have acts : (scheduled (lateWriter.take 8)).map (fun reached => reached.2.acting true) =
      some true := by decide
  rw [computed] at acts
  exact ⟨trace, threads, computed, Option.some.inj acts, calls_race_free (.of_exec computed)⟩

/-- Once all calls have returned, none of them without memory, what all threads saw is
what one order of their calls gives on the device in its own terms: no chunk is
lost, torn or taken twice, and each read has bytes of one moment. -/
theorem interleaved_calls_refine_device
    (run : (interleaved Thread Passed.code).Run (Threads.start (.placed positions)) trace
      threads)
    (rest : ∀ thread, threads.running thread = none)
    (allocated : ∀ step ∈ trace, ∀ reply ∈ step.2, reply.retval ≠ -ENOMEM) :
    ∃ history, Linearizes (commandDevice.reading Passed.onPosition) (.placed positions)
      threads.shared.memory.device (trace.flatMap seenOf) history := by
  obtain ⟨history, settled, known⟩ := explained Passed.sectioned run
  have serially := driver_of_serial known.effects
  have kept : threads.shared = settled := known.free (known.free_of_rest rest)
  have spared : (driver.reading Passed.onPosition).EachStep (.placed positions)
      (history.filterMap Moment.taken) fun before passed => Spared before passed.onPosition := by
    intro past passed reply before after inside _ _ failed
    have happened : (passed, reply) ∈ history.filterMap Moment.taken :=
      inside.subset (List.mem_append_right _ (List.mem_singleton_self _))
    obtain ⟨move, returned⟩ := known.answered rest happened
    exact absurd failed (allocated _ returned reply rfl)
  rw [kept]
  exact ⟨history, known.seen, known.linearizes.serves,
    ((driver_simulates.reading Passed.onPosition).run serially
      (Memory.Clean.empty .empty positions) spared).2⟩

theorem lateWriter_refines : ∃ trace threads, scheduled lateWriter = some (trace, threads) ∧
    ∃ history, Linearizes (commandDevice.reading Passed.onPosition) (.placed fun _ => 0)
      threads.shared.memory.device (trace.flatMap seenOf) history := by
  obtain ⟨⟨trace, threads⟩, computed⟩ :=
    Option.isSome_iff_exists.mp (by decide : (scheduled lateWriter).isSome = true)
  have checked : (scheduled lateWriter).all (fun reached =>
      (reached.2.running false).isNone && (reached.2.running true).isNone &&
        reached.1.all fun step => step.2.all fun reply => reply.retval ≠ -ENOMEM) = true := by
    decide
  rw [computed] at checked
  simp only [Option.all_some, Bool.and_eq_true, Option.isNone_iff_eq_none, List.all_eq_true]
    at checked
  refine ⟨trace, threads, computed, interleaved_calls_refine_device (.of_exec computed) ?_ ?_⟩
  · exact Bool.forall_bool.mpr checked.1
  · intro step member reply given
    have granted := checked.2 step member
    rw [Option.mem_def.mp given] at granted
    simpa using granted

end Interleaved

end Aesd.Driver
