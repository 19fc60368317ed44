import Mathlib.Algebra.Order.BigOperators.Group.Finset
import Aesd.Server.Escape
import Aesd.Server.GracefulEnd
import Aesd.Server.TurnProgress

/-! From which states the program can still end gracefully. -/
namespace Aesd.Server

open Aesd.Library Aesd.Driver

/-- No handler has given `free` what is not the start of a block of its own, on which the C
library ends the process. -/
def Intact (world : World) : Prop :=
  ∀ id, (world.threads id).heap.Sound

/-- The program died, a handler is bound to kill it, or one waits for a mutex that its
holder took along or is bound to. -/
inductive Doomed (world : World) : Prop where
  | crashed (crashed : world.crashed = true)
  | aborted (broken : ¬ Intact world)
  | dies (id : Nat) (dies : (world.threads id).Dies)
  | misfrees (id : Nat) (misfrees : (world.threads id).Misfrees)
  | lost (waiter holder : Nat) (waiting : (world.threads waiter).pc = .lock)
      (held : world.mutex = some holder)
      (gone : world.zone holder = .returned ∨ (world.threads holder).Starves)

section Fate

variable {world after : World} {program next : Aesdsocket} {id : Nat} {event : Event}
variable {call : Syscall} {happening : Happening} {output : Output ⊕ Syscall}

theorem step_threads (taken : world.step (id, event) = some (call, after)) :
    (∀ other, other ≠ id → after.threads other = world.threads other) ∧
      (world.threads id).step event = some (call, after.threads id) := by
  obtain ⟨thread, shared, moved, _, rfl⟩ := World.step_cases taken
  refine ⟨fun other apart => Function.update_of_ne apart _ _, ?_⟩
  rw [moved]
  simp

theorem alive_of_moved (taken : world.step (id, event) = some (call, after)) :
    world.crashed = false := by
  by_contra crashed
  simp [World.step, crashed] at taken

/-- Who dies in front of the device takes the program along. -/
theorem Thread.Dies.step {thread moved : Thread} (dies : thread.Dies)
    (taken : thread.step event = some (call, moved)) : moved.Dies ∨ moved.pc = .crashed := by
  obtain ⟨waiting, resumes⟩ := Thread.step_cases taken
  obtain ⟨place, crashes⟩ := dies
  rw [waiting] at place
  cases resumes with
  | lock => exact .inl ⟨.inr rfl, crashes⟩
  | openDevice => exact .inr crashes
  | _ => simp [Event.pc] at place

/-- Whose `calloc` cannot succeed gets no further than to its failure. -/
theorem Thread.Starves.step {thread moved : Thread} (starves : thread.Starves)
    (taken : thread.step event = some (call, moved)) :
    (moved.Starves ∧ event.leavesLocked = false ∧ event.pc = .lseekSet) ∨
      event.leavesLocked = true := by
  obtain ⟨waiting, resumes⟩ := Thread.step_cases taken
  obtain ⟨place, large⟩ := starves
  rw [waiting] at place
  cases resumes with
  | lseekSet => exact .inl ⟨⟨.inr rfl, large⟩, rfl, rfl⟩
  | callocSendFails => exact .inr rfl
  | callocSend possible => exact absurd possible (Nat.not_lt.mpr large)
  | _ => simp [Event.pc] at place

/-- On the error exit behind a seek command there is no turning back. -/
theorem Thread.Misfrees.step {thread moved : Thread} (misfrees : thread.Misfrees)
    (buffers : thread.pc.holdsBuffers = true → Buffers thread)
    (taken : thread.step event = some (call, moved)) : moved.Misfrees ∨ ¬ moved.heap.Sound := by
  obtain ⟨waiting, resumes⟩ := Thread.step_cases taken
  obtain ⟨seek, places⟩ := misfrees
  have freed : thread.pc.holdsBuffers = true → MisfreesSeek thread event → ¬ moved.heap.Sound :=
    fun holding frees sound => ((buffers holding).step_sound_iff taken).mp sound frees
  rcases places with closing | unlocking | starves
  · rw [closing] at waiting
    cases resumes with
    | close =>
      cases waiting
      exact .inl ⟨seek, .inr (.inl rfl)⟩
    | _ => cases waiting
  · have holding : thread.pc.holdsBuffers = true := by rw [unlocking]; rfl
    rw [unlocking] at waiting
    cases resumes with
    | unlockFailed => exact .inr (freed holding ⟨seek, .inl rfl⟩)
    | _ => cases waiting
  · have place := starves.1
    rw [waiting] at place
    cases resumes with
    | lseekSet => exact .inl ⟨seek, .inr (.inr ⟨.inr rfl, starves.2⟩)⟩
    | callocSendFails => exact .inr (freed (by rw [waiting]; rfl) ⟨seek, .inr (.inl rfl)⟩)
    | callocSend possible => exact absurd possible (Nat.not_lt.mpr starves.2)
    | _ => simp [Event.pc] at place

/-- What was given to `free` is not forgotten. -/
theorem sound_before {thread moved : Thread}
    (buffers : thread.pc.holdsBuffers = true → Buffers thread)
    (taken : thread.step event = some (call, moved)) (sound : moved.heap.Sound) :
    thread.heap.Sound := by
  cases holding : thread.pc.holdsBuffers with
  | true => exact Heap.sound_of_silent (buffers holding).owns.silent
  | false =>
    rw [(step_after_release taken holding).1] at sound
    exact sound

/-- All handlers have their buffers in order as long as they have them. -/
def Buffered (world : World) : Prop :=
  ∀ id, (world.threads id).pc.holdsBuffers = true → Buffers (world.threads id)

theorem Consistent.buffered (consistent : Consistent program) : Buffered program.world := by
  intro id
  obtain ⟨_, run⟩ := consistent.reached
  obtain ⟨_, own⟩ := thread_run run id
  exact run_buffers own

theorem Intact.before (intact : Intact after) (buffered : Buffered world)
    (taken : world.step (id, event) = some (call, after)) : Intact world := by
  obtain ⟨others, moved⟩ := step_threads taken
  intro other
  by_cases mine : other = id
  · subst mine
    exact sound_before (buffered other) moved (intact other)
  · rw [← others other mine]
    exact intact other

/-- No thread's step turns a doomed program away from its end. -/
theorem Doomed.step (doomed : Doomed world) (guarded : Guarded world) (buffered : Buffered world)
    (taken : world.step (id, event) = some (call, after)) : Doomed after := by
  obtain ⟨others, moved⟩ := step_threads taken
  cases doomed with
  | crashed crashed => cases crashed.symm.trans (alive_of_moved taken)
  | aborted broken => exact .aborted fun intact => broken (intact.before buffered taken)
  | misfrees other misfrees =>
    by_cases mine : other = id
    · subst mine
      rcases misfrees.step (buffered other) moved with still | broken
      · exact .misfrees other still
      · exact .aborted fun intact => broken (intact other)
    · exact .misfrees other (by rw [others other mine]; exact misfrees)
  | dies other dies =>
    by_cases mine : other = id
    · subst mine
      rcases dies.step moved with still | crashed
      · exact .dies other still
      · refine .crashed ?_
        rw [crashed_step taken, crashed]
        rfl
    · exact .dies other (by rw [others other mine]; exact dies)
  | lost waiter holder waiting held gone =>
    have apart : waiter ≠ id := by
      rintro rfl
      obtain ⟨_, _, stepped, shares, _⟩ := World.step_cases taken
      have here := (Thread.step_eq_some_iff.mp stepped).1
      rw [waiting] at here
      cases event with
      | lock =>
        have free := (Option.ite_none_right_eq_some.mp shares).1
        rw [held] at free
        cases free
      | _ => cases here
    have stillWaiting : (after.threads waiter).pc = .lock := by
      rw [others waiter apart]
      exact waiting
    by_cases mine : holder = id
    · subst mine
      rcases gone with returned | starves
      · have waits := own_zone taken
        rw [returned] at waits
        exact absurd waits.symm event.zone_ne_returned
      · rcases starves.step moved with ⟨still, _, place⟩ | fails
        · refine .lost waiter holder stillWaiting ?_ (.inr still)
          obtain ⟨shared, shares, mutex, _⟩ := server_step taken
          rw [mutex, share_mutex (by rintro rfl; cases place) (by rintro _ rfl; cases place) shares]
          exact held
        · obtain ⟨stillHeld, returned⟩ := guarded.silenced taken fails
          exact .lost waiter holder stillWaiting stillHeld (.inl returned)
    · obtain ⟨outside, notLock⟩ := guarded.outside_of_held held (Ne.symm mine) taken
      obtain ⟨shared, shares, mutex, _⟩ := server_step taken
      obtain rfl := Option.some.inj ((share_outside outside notLock).symm.trans shares)
      refine .lost waiter holder stillWaiting (mutex.trans held) ?_
      rw [World.zone, others holder mine]
      exact gone

theorem Doomed.congr (doomed : Doomed world) (alive : world.crashed = false)
    (threads : after.threads = world.threads) (mutex : after.mutex = world.mutex) :
    Doomed after := by
  cases doomed with
  | crashed crashed => cases crashed.symm.trans alive
  | aborted broken => exact .aborted (by rw [Intact, threads]; exact broken)
  | dies other dies => exact .dies other (by rw [threads]; exact dies)
  | misfrees other misfrees => exact .misfrees other (by rw [threads]; exact misfrees)
  | lost waiter holder waiting held gone =>
    refine .lost waiter holder (by rw [threads]; exact waiting) (mutex.trans held) ?_
    rw [World.zone, threads]
    exact gone

theorem alive_of_main {said : MainEvent}
    (taken : aesdsocket.step program (.main said) = some (output, next)) :
    program.world.crashed = false := by
  simp only [aesdsocket, Aesdsocket.step, Option.ite_none_left_eq_some] at taken
  simpa using taken.1

theorem Doomed.whole_step (doomed : Doomed program.world) (consistent : Consistent program)
    (taken : aesdsocket.step program happening = some (output, next)) : Doomed next.world := by
  rcases consistent.world_step taken with ⟨threads, mutex, said, rfl⟩ | ⟨id, event, call, rfl, moved⟩
  · exact doomed.congr (alive_of_main taken) threads mutex
  · exact doomed.step consistent.guarded consistent.buffered moved

theorem Aesdsocket.Joined.idle (joined : program.Joined) (id : Nat) {pc : Pc}
    (busy : pc ≠ .returned ∧ pc ≠ .callocRecv) : (program.world.threads id).pc ≠ pc := by
  rcases Nat.lt_or_ge id program.main.handlers.length with known | beyond
  · rw [(joined id).1 known]
    exact busy.1.symm
  · rw [(joined id).2 beyond]
    exact busy.2.symm

end Fate

section Escaping

variable {program after : Aesdsocket} {id left : Nat} {event : Event}

/-- What the handlers still have to do on their ways out. -/
def Aesdsocket.farness (program : Aesdsocket) : Nat :=
  ∑ id ∈ Finset.range program.main.handlers.length, (program.world.threads id).pc.farness

/-- The program runs, and nobody is lost. -/
structure Escaping (program : Aesdsocket) (left : Nat) : Prop where
  consistent : Consistent program
  alive : program.main.pc.exits = false
  fine : ¬ Doomed program.world
  left : left = program.farness

theorem share_escape {world : World} {thread : Thread} (exit : Bool)
    (free : thread.pc = .lock → world.mutex = none) (running : thread.pc ≠ .returned)
    (lives : thread.pc ≠ .crashed) :
    ∃ shared, world.share id (thread.escape exit) = some shared := by
  unfold Thread.escape
  cases here : thread.pc with
  | lock => exact ⟨_, if_pos (free here)⟩
  | close failed =>
    simp only [World.share]
    cases world.fd with
    | none => exact ⟨_, rfl⟩
    | some descriptor => exact ⟨_, rfl⟩
  | returned => exact absurd here running
  | crashed => exact absurd here lives
  | _ => exact ⟨_, rfl⟩

theorem Escaping.lives (escaping : Escaping program left) (id : Nat) :
    (program.world.threads id).pc ≠ .crashed := by
  intro crashed
  obtain ⟨_, run⟩ := escaping.consistent.reached
  exact escaping.fine (.crashed (crashed_of_thread run crashed))

theorem Escaping.intact (escaping : Escaping program left) : Intact program.world := by
  by_contra broken
  exact escaping.fine (.aborted broken)

theorem Escaping.sound_step (escaping : Escaping program left) {next : Thread} {call : Syscall}
    (taken : (program.world.threads id).step event = some (call, next))
    (tidy : ¬ MisfreesSeek (program.world.threads id) event) : next.heap.Sound := by
  cases holding : (program.world.threads id).pc.holdsBuffers with
  | true => exact ((escaping.consistent.buffered id holding).step_sound_iff taken).mpr tidy
  | false =>
    rw [(step_after_release taken holding).1]
    exact escaping.intact id

/-- Somebody who has not returned can move: himself, or the one he waits for. -/
theorem Escaping.mover (escaping : Escaping program left) (notYet : ¬ program.Over) :
    ∃ id < program.main.handlers.length, (program.world.threads id).pc ≠ .returned ∧
      ((program.world.threads id).pc = .lock → program.world.mutex = none) := by
  obtain ⟨id, known, running⟩ : ∃ id < program.main.handlers.length,
      (program.world.threads id).pc ≠ .returned := by
    simpa [Aesdsocket.Over] using notYet
  by_cases waiting : (program.world.threads id).pc = .lock
  · cases held : program.world.mutex with
    | none => exact ⟨id, known, running, fun _ => rfl⟩
    | some holder =>
      have serves := escaping.consistent.guarded.known holder held
      have stays : program.world.zone holder ≠ .returned := by
        intro gone
        exact escaping.fine (.lost id holder waiting held (.inl gone))
      have started : holder < program.main.handlers.length := by
        by_contra beyond
        rw [World.zone, escaping.consistent.unborn holder (Nat.le_of_not_lt beyond)] at serves
        exact serves rfl
      refine ⟨holder, started, ?_, ?_⟩
      · intro returned
        exact stays (by rw [World.zone, Thread.zone, returned]; rfl)
      · intro locking
        refine absurd ?_ serves
        rw [World.zone, Thread.zone, locking]
        rfl
  · exact ⟨id, known, running, fun here => absurd here waiting⟩

/-- Where somebody waits for it, a step on the way out neither takes the mutex along nor
leaves it with a handler that has no way back to the unlock. -/
theorem Escaping.not_lost (escaping : Escaping program left) {exit : Bool} {call : Syscall}
    {world : World}
    (moved : program.world.step (id, (program.world.threads id).escape exit) = some (call, world))
    (escapes : Escapes (program.world.threads id) ((program.world.threads id).escape exit)
      (world.threads id))
    {waiter holder : Nat} (waiting : (program.world.threads waiter).pc = .lock)
    (held : world.mutex = some holder) :
    ¬ (world.zone holder = .returned ∨ (world.threads holder).Starves) := by
  obtain ⟨others, _⟩ := step_threads moved
  obtain ⟨shared, shares, mutex, _⟩ := server_step moved
  intro gone
  have serving : (world.threads id).zone ≠ .returned ∧ ¬ (world.threads id).Starves →
      holder ≠ id := by
    rintro ⟨stays, fed⟩ rfl
    rcases gone with returned | starves
    · exact stays returned
    · exact fed starves
  by_cases locking : (program.world.threads id).escape exit = .lock
  · rw [locking] at shares
    obtain ⟨_, same⟩ := Option.ite_none_right_eq_some.mp shares
    obtain rfl := Option.some.inj same
    exact serving (escapes.serves (.inl locking)) (Option.some.inj (held.symm.trans mutex))
  by_cases unlocking : ∃ failed, (program.world.threads id).escape exit = .unlock failed
  · obtain ⟨failed, unlocks⟩ := unlocking
    rw [unlocks] at shares
    obtain rfl := Option.some.inj shares
    cases held.symm.trans mutex
  have kept := share_mutex locking (fun failed same => unlocking ⟨failed, same⟩) shares
  rw [mutex, kept] at held
  by_cases mine : holder = id
  · subst mine
    have entered := escaping.consistent.guarded.known holder held
    have inside : (program.world.zone holder).inside = true := by
      cases zone : program.world.zone holder with
      | outside => exact absurd zone entered
      | returned => exact absurd (.lost waiter holder waiting held (.inl zone)) escaping.fine
      | locked | opened | closed => rfl
    refine serving (escapes.serves (.inr ⟨inside, ?_, ?_⟩)) rfl
    · exact fun starves => escaping.fine (.lost waiter holder waiting held (.inr starves))
    · exact fun failed same => unlocking ⟨failed, same⟩
  · rw [World.zone, others holder mine] at gone
    exact escaping.fine (.lost waiter holder waiting held gone)

/-- After a step on the way out nobody is lost who was not. -/
theorem Escaping.stays_fine (escaping : Escaping program left) {exit : Bool} {call : Syscall}
    {world : World}
    (moved : program.world.step (id, (program.world.threads id).escape exit) = some (call, world))
    (escapes : Escapes (program.world.threads id) ((program.world.threads id).escape exit)
      (world.threads id)) : ¬ Doomed world := by
  obtain ⟨others, own⟩ := step_threads moved
  intro doomed
  cases doomed with
  | crashed crashed =>
    rw [crashed_step moved] at crashed
    exact escapes.lives (beq_iff_eq.mp crashed)
  | aborted broken =>
    refine broken fun other => ?_
    by_cases mine : other = id
    · rw [mine]
      exact escaping.sound_step own escapes.tidy
    · rw [others other mine]
      exact escaping.intact other
  | misfrees other misfrees =>
    by_cases mine : other = id
    · subst mine
      exact escapes.spared misfrees
    · rw [others other mine] at misfrees
      exact escaping.fine (.misfrees other misfrees)
  | dies other dies =>
    by_cases mine : other = id
    · subst mine
      exact escapes.possible dies
    · rw [others other mine] at dies
      exact escaping.fine (.dies other dies)
  | lost waiter holder waiting held gone =>
    have apart : waiter ≠ id := by
      rintro rfl
      exact escapes.entered waiting
    rw [others waiter apart] at waiting
    exact escaping.not_lost moved escapes waiting held gone

theorem allows_escape {threadData : Nat} {returned : Bool} {data : SocketThreadData}
    (runs : program.main.handlers[id]? = some ⟨threadData, returned⟩)
    (found : readThreadData program.main.heap threadData = some data) (thread : Thread) :
    program.allows id (thread.escape data.exit) = true := by
  unfold Thread.escape
  cases thread.pc with
  | checkExit => simp [Aesdsocket.allows, Aesdsocket.exitFlag, runs, found]
  | _ => rfl

theorem farness_lt {world : World} {main : MainState} {sockets : Nat → Option Socket}
    (known : id < program.main.handlers.length) (handlers : main.handlers = program.main.handlers)
    (others : ∀ other, other ≠ id → world.threads other = program.world.threads other)
    (nearer : (world.threads id).pc.farness < (program.world.threads id).pc.farness) :
    ({ program with main, world, sockets } : Aesdsocket).farness < program.farness := by
  unfold Aesdsocket.farness
  rw [handlers]
  refine Finset.sum_lt_sum ?_ ⟨id, Finset.mem_range.mpr known, nearer⟩
  intro other _
  by_cases mine : other = id
  · rw [mine]
    exact Nat.le_of_lt nearer
  · rw [others other mine]

/-- As long as somebody has not returned, a step can be taken that brings one handler
nearer to its end, and nobody gets lost on the way. -/
theorem Escaping.nears (escaping : Escaping program left) (notYet : ¬ program.Over) :
    ∃ happening output after, (∃ id event, happening = .handler id event) ∧
      aesdsocket.step program happening = some (output, after) ∧
        ∃ less < left, Escaping after less := by
  obtain ⟨id, known, running, free⟩ := escaping.mover notYet
  have consistent := escaping.consistent
  have lives := escaping.lives id
  obtain ⟨⟨threadData, returned⟩, runs⟩ : ∃ handler, program.main.handlers[id]? = some handler :=
    ⟨_, List.getElem?_eq_getElem known⟩
  cases returned with
  | true => exact absurd (consistent.gone id threadData runs) running
  | false =>
    obtain ⟨data, found, _⟩ := consistent.running runs
    obtain ⟨next, stepped, escapes⟩ := wayOut data.exit running lives
      (fun dies => escaping.fine (.dies id dies))
      (fun misfrees => escaping.fine (.misfrees id misfrees))
    obtain ⟨shared, shares⟩ := @share_escape id _ _ data.exit free running lives
    have sound : program.world.crashed = false := by
      by_contra crashed
      exact escaping.fine (.crashed (by simpa using crashed))
    have allowed := allows_escape runs found (program.world.threads id)
    obtain ⟨world, moved, there⟩ : ∃ world, program.world.step
        (id, (program.world.threads id).escape data.exit) =
          some ((program.world.threads id).syscall, world) ∧ world.threads id = next := by
      refine ⟨{ shared with
        threads := Function.update program.world.threads id next
        crashed := next.pc == .crashed }, ?_, Function.update_self ..⟩
      simp only [World.step, sound, Bool.false_eq_true, ↓reduceIte, stepped, shares, Option.map_some]
    have handled : program.handlerStep id ((program.world.threads id).escape data.exit) =
        some ((program.world.threads id).syscall, { program with
          main := program.complete id (world.threads id)
          world
          sockets := program.socketsAfter ((program.world.threads id).escape data.exit) }) := by
      simp [Aesdsocket.handlerStep, runs, allowed, escaping.alive, moved]
    obtain ⟨_, handlers, place⟩ := consistent.completed runs (world.threads id)
    refine ⟨.handler id ((program.world.threads id).escape data.exit),
      .inr (program.world.threads id).syscall, _, ⟨id, _, rfl⟩, ?_, _, ?_,
      consistent.handler_step handled, ?_, escaping.stays_fine moved (by rw [there]; exact escapes), rfl⟩
    · simp only [aesdsocket, Aesdsocket.step, handled, Option.map_some]
    · rw [escaping.left]
      exact farness_lt known handlers (step_threads moved).1 (by rw [there]; exact escapes.nearer)
    · rw [← escaping.alive]
      exact congrArg MainPc.exits place

end Escaping

section Runs

variable {sfd : Nat} {program final : Aesdsocket}
variable {trace later : List (Happening × (Output ⊕ Syscall))}

end Runs

end Aesd.Server
