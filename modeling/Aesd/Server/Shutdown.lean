import Aesd.Server.ReceiveLoop

namespace Aesd.Server

open Aesd.Library Aesd.Driver

/-- The peer has shut down, and nobody asks the thread to exit. -/
def AfterShutdown (trace : List (Event × Syscall)) : Prop :=
  ∀ step ∈ trace, (∀ result, step.1 = .recv result → result = some []) ∧
    ∀ exit, step.1 = .checkExit exit → exit = false

/-- After finitely many steps the thread has returned, ready to be joined. -/
def LeavesAfterShutdown (thread : Thread) : Prop :=
  ∃ bound, ∀ later after, process.Run thread later after → AfterShutdown later →
    bound ≤ later.length → after.pc = .returned ∧ after.complete = true

def NeverReceivesAgain (thread : Thread) : Prop :=
  ∀ later after, process.Run thread later after → AfterShutdown later →
    ∀ step ∈ later, ∀ result, step.1 ≠ .recv result

/-- The thread is in the receive loop, with an incomplete message in its buffer. -/
def Waiting (thread : Thread) : Prop :=
  (thread.pc = .checkExit ∨ thread.pc = .recv) ∧ ∃ past, Held past thread

section

variable {past : List (Event × Syscall)} {thread after : Thread} {call : Syscall}

/-- Receiving nothing leaves the text as it was, so the scan finds no newline again. -/
theorem Held.receive_nothing (held : Held past thread)
    (taken : thread.step (.recv (some [])) = some (call, after)) : after.pc = .checkExit := by
  have next := held.step taken
  obtain ⟨waiting, _, resumed⟩ := Thread.step_eq_some_iff.mp taken
  rw [Held, waiting] at held
  obtain ⟨holds, none, room⟩ := held
  simp only [Thread.resume, Option.ite_none_right_eq_some, Option.some.injEq] at resumed
  obtain ⟨fits, rfl⟩ := resumed
  have tail : behind (past ++ [(.recv (some []), call)]) = behind past := behind_append _ _
  rcases @HoldsBlock.receive _ _ call holds [] fits with ⟨_, _, last⟩ | ⟨middle, same, after, _⟩
  · rw [← tail, last] at room
    exact absurd room (by decide)
  · obtain ⟨scanned, pc⟩ := after.scan
    have turn : (turnOf (past ++ [(.recv (some []), call)])).flatten = (turnOf past).flatten := by
      rw [turnOf_append]
      simp [turnStep]
    have text : middle.scan.text = thread.text := by
      rw [scanned.text, holds.text, turn, tail]
    rw [same, pc, text, if_neg none]

theorem receive_enabled (waiting : thread.pc = .recv) :
    process.step thread (.recv (some [])) = some (thread.syscall, thread.receive []) := by
  have fits : ([] : List Byte).length ≤ sizeT thread.recvWindow := Nat.zero_le _
  refine Thread.step_eq_some_iff.mpr ⟨waiting, rfl, ?_⟩
  rw [Thread.resume, if_pos fits]

end

/-- One round of the loop after the shutdown. -/
def idleRound : List Event := [.checkExit false, .recv (some [])]

theorem idle_round (thread : Thread)
    (idle : thread.pc = .checkExit ∧ ∃ past, Held past thread) :
    ∃ trace after, process.Run thread trace after ∧ trace.map Prod.fst = idleRound ∧
      (after.pc = .checkExit ∧ ∃ past, Held past after) := by
  obtain ⟨place, past, held⟩ := idle
  obtain ⟨middle, goesOn, receives⟩ : ∃ middle : Thread,
      process.step thread (.checkExit false) = some (thread.syscall, middle) ∧ middle.pc = .recv :=
    ⟨_, Thread.step_eq_some_iff.mpr ⟨place, rfl, rfl⟩, rfl⟩
  have receiving := held.step goesOn
  have taken := receive_enabled receives
  exact ⟨_, _, (Machine.Run.single goesOn).append (Machine.Run.single taken), rfl,
    receiving.receive_nothing taken, _, receiving.step taken⟩

theorem Waiting.step {thread after : Thread} {event : Event} {call : Syscall}
    (waiting : Waiting thread) (shut : AfterShutdown [(event, call)])
    (taken : thread.step event = some (call, after)) : Waiting after := by
  obtain ⟨place, past, held⟩ := waiting
  obtain ⟨received, asked⟩ := shut _ (List.mem_singleton_self _)
  refine ⟨?_, _, held.step taken⟩
  obtain ⟨same, _, resumed⟩ := Thread.step_eq_some_iff.mp taken
  rcases place with checking | receiving
  · cases event with
    | checkExit exit =>
      obtain rfl := asked exit rfl
      obtain rfl := Option.some.inj resumed
      exact .inr rfl
    | _ => exact absurd (checking.symm.trans same) (by rintro ⟨⟩)
  · cases event with
    | recv result =>
      obtain rfl := received result rfl
      exact .inl (held.receive_nothing taken)
    | _ => exact absurd (receiving.symm.trans same) (by rintro ⟨⟩)

theorem Waiting.run {thread after : Thread} {later : List (Event × Syscall)}
    (waiting : Waiting thread) (run : process.Run thread later after) (shut : AfterShutdown later) :
    Waiting after := by
  refine run.history (fun past thread => AfterShutdown past → Waiting thread) (fun _ => waiting)
    ?_ shut
  intro past before event call next known taken shut
  refine (known fun step member => shut step (List.mem_append_left _ member)).step ?_ taken
  exact fun step member => shut step (List.mem_append_right _ member)

theorem afterShutdown_idle {trace : List (Event × Syscall)} {rounds : Nat}
    (same : trace.map Prod.fst = (List.replicate rounds idleRound).flatten) :
    AfterShutdown trace := by
  intro step member
  have inRounds : step.1 ∈ (List.replicate rounds idleRound).flatten := by
    rw [← same]
    exact List.mem_map_of_mem member
  obtain ⟨round, isRound, inside⟩ := List.mem_flatten.mp inRounds
  rw [List.eq_of_mem_replicate isRound] at inside
  rcases List.mem_cons.mp inside with exit | rest
  · rw [exit]
    exact ⟨fun _ same => absurd same (by rintro ⟨⟩), fun _ same => (Event.checkExit.inj same).symm⟩
  · rw [List.mem_singleton.mp rest]
    exact ⟨fun _ same => (Event.recv.inj same).symm, fun _ same => absurd same (by rintro ⟨⟩)⟩

theorem idle_forever {thread : Thread} (idle : thread.pc = .checkExit ∧ ∃ past, Held past thread)
    (rounds : Nat) : ∃ later after, process.Run thread later after ∧ AfterShutdown later ∧
      later.map Prod.fst = (List.replicate rounds idleRound).flatten := by
  obtain ⟨later, after, gone, same, _⟩ := Machine.Run.rounds
    (fun thread => thread.pc = .checkExit ∧ ∃ past, Held past thread) idleRound idle_round rounds
    idle
  exact ⟨later, after, gone, afterShutdown_idle same, same⟩

theorem not_leaves_of_idle {thread : Thread}
    (idle : thread.pc = .checkExit ∧ ∃ past, Held past thread) : ¬ LeavesAfterShutdown thread := by
  rintro ⟨bound, leaves⟩
  obtain ⟨later, after, gone, shut, same⟩ := idle_forever idle bound
  have length := congrArg List.length same
  rw [List.length_map, List.length_flatten, List.map_replicate, List.sum_replicate_nat] at length
  have enough : bound ≤ later.length := by
    rw [length]
    exact Nat.le_mul_of_pos_right bound (by decide)
  obtain ⟨returned, _⟩ := leaves later after gone shut enough
  rcases (Waiting.run ⟨.inl idle.1, idle.2⟩ gone shut).1 with checking | receiving
  · exact absurd (checking.symm.trans returned) (by decide)
  · exact absurd (receiving.symm.trans returned) (by decide)

/-- Whatever was received before, a thread whose `recv` has returned zero calls it
again and again, and never returns while the peer stays shut down. -/
theorem shutdown_never_left {past : List (Event × Syscall)} {thread : Thread} {call : Syscall}
    (run : process.Run Thread.start (past ++ [(.recv (some []), call)]) thread) :
    ¬ LeavesAfterShutdown thread ∧ ¬ NeverReceivesAgain thread ∧
      (∀ later after, process.Run thread later after → AfterShutdown later →
        after.pc = .checkExit ∨ after.pc = .recv) ∧
      ∀ rounds, ∃ later after, process.Run thread later after ∧ AfterShutdown later ∧
        later.map Prod.fst = (List.replicate rounds idleRound).flatten := by
  obtain ⟨before, earlier, taken⟩ := run.last
  have idle : thread.pc = .checkExit ∧ ∃ past, Held past thread :=
    ⟨(run_held earlier).receive_nothing taken, _, run_held run⟩
  refine ⟨not_leaves_of_idle idle, ?_, ?_, idle_forever idle⟩
  · intro never
    obtain ⟨later, after, gone, shut, same⟩ := idle_forever idle 1
    have received : Event.recv (some []) ∈ later.map Prod.fst := by
      rw [same]
      decide
    obtain ⟨step, member, isRecv⟩ := List.mem_map.mp received
    exact never later after gone shut step member _ isRecv
  · exact fun later after gone shut => (Waiting.run ⟨.inl idle.1, idle.2⟩ gone shut).1

/-- A client that sends three bytes without a newline and disconnects. -/
def unfinishedLine : List Event :=
  [.callocRecv true, .checkExit false, .recv (some [97, 98, 99]), .checkExit false]

theorem unfinishedLine_run : ∃ past thread call,
    process.Run Thread.start (past ++ [(.recv (some []), call)]) thread := by
  have runs : ((process.exec Thread.start unfinishedLine).any fun result =>
      result.2.pc == .recv) = true := by decide
  obtain ⟨⟨past, before⟩, computed, waits⟩ := (Option.any_eq_true _ _).mp runs
  have taken := receive_enabled (eq_of_beq waits)
  exact ⟨past, _, _, (Machine.Run.of_exec computed).next taken⟩

theorem unfinishedLine_never_left : ∃ thread,
    process.Reachable Thread.start thread ∧ ¬ LeavesAfterShutdown thread := by
  obtain ⟨past, thread, call, run⟩ := unfinishedLine_run
  exact ⟨thread, ⟨_, run⟩, (shutdown_never_left run).1⟩

/-- So the thread is not left to be joined after every shutdown. -/
theorem shutdown_not_always_left :
    ¬ ∀ past thread call, process.Run Thread.start (past ++ [(.recv (some []), call)]) thread →
      LeavesAfterShutdown thread := by
  intro always
  obtain ⟨past, thread, call, run⟩ := unfinishedLine_run
  obtain ⟨before, earlier, taken⟩ := run.last
  exact not_leaves_of_idle ⟨(run_held earlier).receive_nothing taken, _, run_held run⟩
    (always past thread call run)

end Aesd.Server
