import Aesd.Server.Serial

namespace Aesd.Server

open Aesd.Library Aesd.Driver

/-- The mutex is kept by a thread that is gone. -/
structure Silenced (holder : Nat) (world : World) : Prop where
  mutex : world.mutex = some holder
  gone : world.zone holder = .returned

section Step

variable {world after : World} {holder id : Nat} {event : Event} {call : Syscall}

theorem Event.zone_ne_returned (event : Event) : event.pc.zone ≠ .returned := by
  cases event <;> exact Zone.noConfusion

theorem own_zone (taken : world.step (id, event) = some (call, after)) :
    world.zone id = event.pc.zone := by
  obtain ⟨_, _, stepped, _, _⟩ := World.step_cases taken
  exact congrArg Pc.zone (Thread.step_eq_some_iff.mp stepped).1

/-- Whoever moves while somebody else has the mutex moves in front of the lock. -/
theorem Guarded.outside_of_held (guarded : Guarded world) (held : world.mutex = some holder)
    (apart : id ≠ holder) (taken : world.step (id, event) = some (call, after)) :
    event.pc.zone = .outside ∧ event ≠ .lock := by
  have waiting := own_zone taken
  constructor
  · by_contra elsewhere
    have inside : (world.zone id).inside = true := by
      rw [waiting]
      have standing := event.zone_ne_returned
      cases zone : event.pc.zone with
      | outside => exact absurd zone elsewhere
      | returned => exact absurd zone standing
      | locked | opened | closed => rfl
    exact apart (Option.some.inj ((guarded.holder id inside).symm.trans held))
  · intro locking
    subst locking
    obtain ⟨_, _, _, shares, _⟩ := World.step_cases taken
    have free := (Option.ite_none_right_eq_some.mp shares).1
    rw [held] at free
    cases free

theorem Silenced.apart (silenced : Silenced holder world)
    (taken : world.step (id, event) = some (call, after)) : id ≠ holder := by
  intro same
  have waiting := own_zone taken
  rw [same, silenced.gone] at waiting
  exact event.zone_ne_returned waiting.symm

theorem Silenced.outside (silenced : Silenced holder world) (guarded : Guarded world)
    (taken : world.step (id, event) = some (call, after)) :
    event.pc.zone = .outside ∧ event ≠ .lock :=
  guarded.outside_of_held silenced.mutex (silenced.apart taken) taken

theorem share_outside (outside : event.pc.zone = .outside) (notLock : event ≠ .lock) :
    world.share id event = some world := by
  cases event with
  | lock => exact absurd rfl notLock
  | callocRecv | checkExit | recv | realloc | unlockExit => rfl
  | _ => cases outside

theorem Silenced.step (silenced : Silenced holder world) (guarded : Guarded world)
    (taken : world.step (id, event) = some (call, after)) : Silenced holder after := by
  obtain ⟨outside, notLock⟩ := silenced.outside guarded taken
  obtain ⟨shared, shares, mutex, _, _, _, others⟩ := server_step taken
  obtain rfl := Option.some.inj ((share_outside outside notLock).symm.trans shares)
  refine ⟨mutex.trans silenced.mutex, ?_⟩
  rw [others holder (silenced.apart taken).symm]
  exact silenced.gone

/-- A thread at the lock stays there. -/
theorem Silenced.waits (silenced : Silenced holder world) (guarded : Guarded world)
    (taken : world.step (id, event) = some (call, after)) {other : Nat}
    (waiting : (world.threads other).pc = .lock) :
    after.threads other = world.threads other := by
  obtain ⟨_, notLock⟩ := silenced.outside guarded taken
  obtain ⟨thread, shared, stepped, _, rfl⟩ := World.step_cases taken
  have apart : other ≠ id := by
    intro same
    have here := (Thread.step_eq_some_iff.mp stepped).1
    rw [← same, waiting] at here
    cases event with
    | lock => exact notLock rfl
    | _ => cases here
  exact Function.update_of_ne apart _ _

/-- Leaving without clean-up loses the mutex. -/
theorem Guarded.silenced (guarded : Guarded world)
    (taken : world.step (id, event) = some (call, after)) (fails : event.leavesLocked = true) :
    Silenced id after := by
  obtain ⟨shared, shares, mutex, _, _, zones, _⟩ := server_step taken
  generalize before : world.zone id = earlier at zones
  generalize now : after.zone id = later at zones
  cases zones with
  | leave leaves quiet =>
    rw [quiet] at shares
    obtain rfl := Option.some.inj shares
    exact ⟨mutex.trans (guarded.holder id (by rw [before]; rfl)), now⟩
  | within _ stays | quit _ stays =>
    rw [stays] at fails
    cases fails
  | _ => cases fails

end Step

section Runs

variable {past later : List ((Nat × Event) × Syscall)} {start world : World} {holder id : Nat}
variable {event : Event} {call : Syscall}

/-- The mutex stays lost, and every step happens in front of the lock. -/
theorem run_silenced (run : server.Run start later world) (guarded : Guarded start)
    (silenced : Silenced holder start) :
    (Silenced holder world ∧ Guarded world) ∧
      ∀ step ∈ later, step.1.2.pc.zone = .outside ∧ step.1.2 ≠ .lock := by
  refine run.history (fun past state => (Silenced holder state ∧ Guarded state) ∧
    ∀ step ∈ past, step.1.2.pc.zone = .outside ∧ step.1.2 ≠ .lock)
    ⟨⟨silenced, guarded⟩, by simp⟩ ?_
  intro past state ⟨mover, happened⟩ asked after ⟨⟨lost, guards⟩, outside⟩ taken
  refine ⟨⟨lost.step guards taken, guards.step taken⟩, ?_⟩
  intro step member
  rcases List.mem_append.mp member with early | last
  · exact outside step early
  · rw [List.mem_singleton.mp last]
    exact lost.outside guards taken

/-- Nothing that happens in front of the lock is written to the device or sent. -/
theorem quiet_of_outside (outside : ∀ step ∈ later, step.1.2.pc.zone = .outside) :
    linesOf later = [] ∧ ∀ other, sentBy other later = [] := by
  have silent : ∀ step ∈ later, appended step.1.2 step.2 = [] ∧ delivered step.1.2 step.2 = [] := by
    intro ⟨⟨mover, happened⟩, asked⟩ member
    have zone := outside _ member
    cases happened with
    | callocRecv | checkExit | recv | realloc | lock | unlockExit =>
      cases asked <;> exact ⟨rfl, rfl⟩
    | _ => cases zone
  constructor
  · exact List.flatMap_eq_nil_iff.mpr fun step member => (silent step member).1
  · intro other
    refine List.flatMap_eq_nil_iff.mpr fun step member => ?_
    rw [(silent step member).2, ite_self]

/-- One `write`, `calloc`, `read` or `send` that fails inside the critical section is
the end of the service: from then on, however the run goes on, no thread takes the
mutex again, nothing is written to the device, no client is sent a byte, and a thread
that came to the lock waits there for ever. -/
theorem failure_silences (run : server.Run World.start (past ++ ((id, event), call) :: later) world)
    (fails : event.leavesLocked = true) :
    world.mutex = some id ∧
      (∀ step ∈ later, step.1.2.pc.zone = .outside ∧ step.1.2 ≠ .lock) ∧
      linesOf later = [] ∧ (∀ other, sentBy other later = []) ∧
      ∀ first rest state other, later = first ++ rest →
        server.Run World.start (past ++ ((id, event), call) :: first) state →
        (state.threads other).pc = .lock → world.threads other = state.threads other := by
  obtain ⟨before, earlier, rest⟩ := run.split
  obtain ⟨failed, taken, goesOn⟩ := rest.head
  have guarded := run_guarded earlier
  have silenced := guarded.silenced taken fails
  have guardedAfter := guarded.step taken
  obtain ⟨⟨lost, _⟩, outside⟩ := run_silenced goesOn guardedAfter silenced
  obtain ⟨written, sent⟩ := quiet_of_outside fun step member => (outside step member).1
  refine ⟨lost.mutex, outside, written, sent, ?_⟩
  intro first second state other whole reached waiting
  subst whole
  obtain ⟨middle, soFar, further⟩ := goesOn.split
  obtain rfl := reached.state_unique (earlier.append ((Machine.Run.single taken).append soFar))
  obtain ⟨⟨lostThere, guards⟩, _⟩ := run_silenced soFar guardedAfter silenced
  -- the thread is where it was at every point of what follows
  have still : (Silenced id world ∧ Guarded world) ∧ world.threads other = state.threads other := by
    refine further.invariant (fun now =>
      (Silenced id now ∧ Guarded now) ∧ now.threads other = state.threads other)
      ⟨⟨lostThere, guards⟩, rfl⟩ ?_
    intro now ⟨mover, happened⟩ asked after ⟨⟨lostNow, guardsNow⟩, same⟩ moved
    refine ⟨⟨lostNow.step guardsNow moved, guardsNow.step moved⟩, ?_⟩
    have stays : (now.threads other).pc = .lock := by
      rw [same]
      exact waiting
    exact (lostNow.waits guardsNow moved stays).trans same
  exact still.2

end Runs

/-- The driver refuses a write while another handler has its line and waits. -/
def refusedWhileWaiting : List (Nat × Event) :=
  [(0, .callocRecv true), (0, .checkExit false), (1, .callocRecv true),
   (0, .recv (some [99, newline])), (0, .lock), (1, .checkExit false),
   (0, .openDevice (some 3)), (0, .write none), (1, .recv (some [100, newline]))]

theorem refusedWhileWaiting_silences : ∃ trace world,
    server.exec World.start refusedWhileWaiting = some (trace, world) ∧ world.mutex = some 0 := by
  have runs : ((server.exec World.start refusedWhileWaiting).any fun result =>
      result.1 == result.1.take 7 ++
        ((0, .write none), .write [99, newline]) :: result.1.drop 8) = true := by
    decide
  obtain ⟨⟨trace, world⟩, computed, whole⟩ := (Option.any_eq_true _ _).mp runs
  have run := Machine.Run.of_exec computed
  have cut : trace = trace.take 7 ++ ((0, .write none), .write [99, newline]) :: trace.drop 8 :=
    eq_of_beq whole
  rw [cut] at run
  exact ⟨trace, world, computed, (failure_silences run rfl).1⟩

end Aesd.Server
