import Aesd.Server.Discipline

namespace Aesd.Server

open Aesd.Library Aesd.Driver

section Step

variable {program after : Aesdsocket} {happening : Happening} {output : Output ⊕ Syscall}
variable {holder waiter : Nat}

theorem Aesdsocket.cleanup_threads (program : Aesdsocket) :
    program.cleanup.world.threads = program.world.threads ∧
      program.cleanup.world.mutex = program.world.mutex := by
  unfold cleanup
  split
  · exact ⟨rfl, rfl⟩
  · exact ⟨rfl, rfl⟩

/-- What a step of the whole program is for the handlers and their mutex. -/
theorem Consistent.world_step (consistent : Consistent program)
    (taken : aesdsocket.step program happening = some (output, after)) :
    (after.world.threads = program.world.threads ∧ after.world.mutex = program.world.mutex ∧
      ∃ event, happening = .main event) ∨
    ∃ id event call, happening = .handler id event ∧
      program.world.step (id, event) = some (call, after.world) := by
  cases happening with
  | main event =>
    simp only [aesdsocket, Aesdsocket.step, Option.ite_none_left_eq_some] at taken
    obtain ⟨_, mapped⟩ := taken
    obtain ⟨⟨said, next⟩, stepped, same⟩ := Option.map_eq_some_iff.mp mapped
    cases same
    obtain ⟨main, may, _, moved, free, rfl⟩ := mainStep_cases stepped
    obtain ⟨_, kept⟩ := consistent.main_step moved may free
    refine .inl ?_
    split
    · obtain ⟨threads, mutex⟩ := (program.after said main).cleanup_threads
      rw [kept] at threads mutex
      exact ⟨threads, mutex, event, rfl⟩
    · rw [kept]
      exact ⟨rfl, rfl, event, rfl⟩
  | handler id event =>
    obtain ⟨⟨call, next⟩, stepped, same⟩ := Option.map_eq_some_iff.mp taken
    cases same
    obtain ⟨_, world, _, _, _, moved, rfl⟩ := handlerStep_cases stepped
    exact .inr ⟨id, event, call, rfl, moved⟩

/-- The mutex stays lost, whoever waits for it goes on waiting, and what the others do
happens in front of the lock. -/
theorem Consistent.silenced_step (consistent : Consistent program)
    (silenced : Silenced holder program.world)
    (taken : aesdsocket.step program happening = some (output, after)) :
    Silenced holder after.world ∧
      (∀ waiter, (program.world.threads waiter).pc = .lock →
        (after.world.threads waiter).pc = .lock) ∧
      ∀ id event, happening = .handler id event →
        event.pc.zone = .outside ∧ event ≠ .lock := by
  rcases consistent.world_step taken with
    ⟨threads, mutex, event, rfl⟩ | ⟨id, event, call, rfl, moved⟩
  · refine ⟨⟨mutex.trans silenced.mutex, ?_⟩, ?_, ?_⟩
    · rw [World.zone, threads]
      exact silenced.gone
    · intro waiter waiting
      rw [threads]
      exact waiting
    · intro id event impossible
      cases impossible
  · have guarded := consistent.guarded
    refine ⟨silenced.step guarded moved, ?_, ?_⟩
    · intro waiter waiting
      rw [silenced.waits guarded moved waiting]
      exact waiting
    · intro mover happened same
      cases same
      exact silenced.outside guarded moved

/-- Every handler that was started has returned. -/
def Aesdsocket.Joined (program : Aesdsocket) : Prop :=
  ∀ id, (id < program.main.handlers.length → (program.world.threads id).pc = .returned) ∧
    (program.main.handlers.length ≤ id → program.world.threads id = Thread.start)

theorem Consistent.joined (consistent : Consistent program)
    (exited : program.main.pc = .exited true) : program.Joined := by
  intro id
  refine ⟨fun known => ?_, consistent.unborn id⟩
  obtain ⟨⟨threadData, returned⟩, found⟩ : ∃ handler, program.main.handlers[id]? = some handler :=
    ⟨_, List.getElem?_eq_getElem known⟩
  cases returned with
  | false => exact absurd found ((consistent.ended exited).2 id threadData)
  | true => exact consistent.gone id threadData found

theorem Consistent.joined_step (consistent : Consistent program)
    (taken : aesdsocket.step program happening = some (output, after))
    (exited : after.main.pc = .exited true) : after.Joined := by
  cases happening with
  | main event =>
    simp only [aesdsocket, Aesdsocket.step, Option.ite_none_left_eq_some] at taken
    obtain ⟨_, mapped⟩ := taken
    obtain ⟨⟨said, next⟩, stepped, same⟩ := Option.map_eq_some_iff.mp mapped
    cases same
    obtain ⟨main, may, _, moved, free, rfl⟩ := mainStep_cases stepped
    obtain ⟨middle, _⟩ := consistent.main_step moved may free
    split at exited
    · rename_i exits
      rw [Aesdsocket.cleanup_main] at exited
      have joined := middle.joined exited
      rw [if_pos exits, Aesdsocket.Joined, (program.after said main).cleanup_threads.1,
        Aesdsocket.cleanup_main]
      exact joined
    · rename_i stays
      rw [if_neg stays]
      exact middle.joined exited
  | handler mover event =>
    obtain ⟨⟨call, next⟩, stepped, same⟩ := Option.map_eq_some_iff.mp taken
    cases same
    obtain ⟨_, world, runs, _, alive, _, rfl⟩ := handlerStep_cases stepped
    rw [← (consistent.completed runs (world.threads mover)).2.2, exited] at alive
    cases alive

theorem Consistent.waiting_runs (consistent : Consistent program)
    (waiting : (program.world.threads waiter).pc = .lock) :
    ∃ threadData, program.main.handlers[waiter]? = some ⟨threadData, false⟩ := by
  cases found : program.main.handlers[waiter]? with
  | none =>
    rw [consistent.unborn waiter (List.getElem?_eq_none_iff.mp found)] at waiting
    cases waiting
  | some handler =>
    obtain ⟨threadData, returned⟩ := handler
    cases returned with
    | false => exact ⟨threadData, rfl⟩
    | true =>
      rw [consistent.gone waiter threadData found] at waiting
      cases waiting

end Step

section Runs

variable {sfd id waiter : Nat} {event : Event} {call : Output ⊕ Syscall}
variable {past during later : List (Happening × (Output ⊕ Syscall))}
variable {start state program : Aesdsocket}

/-- `main` gets to its regular end only when all handlers are over. -/
theorem run_joined (run : aesdsocket.Run (.start sfd) past program)
    (exited : program.main.pc = .exited true) : program.Joined := by
  have both : (program.main.pc.exits = false → Consistent program) ∧
      (program.main.pc = .exited true → program.Joined) := by
    refine run.invariant (fun now => (now.main.pc.exits = false → Consistent now) ∧
      (now.main.pc = .exited true → now.Joined)) ⟨fun _ => .start sfd, ?_⟩ ?_
    · intro exited
      cases exited
    · intro now happening output after ⟨consistent, _⟩ taken
      have sound := consistent (alive_of_step taken)
      exact ⟨(whole_step sound taken).2.1, sound.joined_step taken⟩
  exact both.2 exited

/-- A mutex that is lost stays lost as long as the program runs. -/
theorem run_lost (run : aesdsocket.Run start later program)
    (consistent : start.main.pc.exits = false → Consistent start)
    (silenced : Silenced id start.world) :
    ((program.main.pc.exits = false → Consistent program) ∧ Silenced id program.world) ∧
      (∀ waiter, (start.world.threads waiter).pc = .lock →
        (program.world.threads waiter).pc = .lock) ∧
      ∀ step ∈ later, ∀ mover happened, step.1 = .handler mover happened →
        happened.pc.zone = .outside ∧ happened ≠ .lock := by
  refine run.history (fun soFar now =>
    ((now.main.pc.exits = false → Consistent now) ∧ Silenced id now.world) ∧
    (∀ waiter, (start.world.threads waiter).pc = .lock →
      (now.world.threads waiter).pc = .lock) ∧
    ∀ step ∈ soFar, ∀ mover happened, step.1 = .handler mover happened →
      happened.pc.zone = .outside ∧ happened ≠ .lock)
    ⟨⟨consistent, silenced⟩, fun _ waiting => waiting, by simp⟩ ?_
  intro soFar now happening output after ⟨⟨holds, lost⟩, waits, outside⟩ taken
  have sound := holds (alive_of_step taken)
  obtain ⟨stillLost, stillWaits, quiet⟩ := sound.silenced_step lost taken
  refine ⟨⟨(whole_step sound taken).2.1, stillLost⟩, ?_, ?_⟩
  · intro waiter waiting
    exact stillWaits waiter (waits waiter waiting)
  intro step member
  rcases List.mem_append.mp member with early | last
  · exact outside step early
  · rw [List.mem_singleton.mp last]
    exact quiet

/-- A `write`, `calloc`, `read` or `send` that fails in one handler inside the critical
section takes the graceful end of the program from all: once another handler has a line
and waits for the mutex, it waits in every continuation, its socket stays open, no
handler reaches the device again, and `main`, which joins it, never gets to its regular
end, although the signal may have come long before. -/
theorem lost_mutex_blocks_end
    (run : aesdsocket.Run (.start sfd) (past ++ (.handler id event, call) :: during) state)
    (fails : event.leavesLocked = true) (waiting : (state.world.threads waiter).pc = .lock)
    (goesOn : aesdsocket.Run state later program) :
    program.main.pc ≠ .exited true ∧ (program.world.threads waiter).pc = .lock ∧
      (program.main.pc.exits = false → ∃ threadData data,
        program.main.handlers[waiter]? = some ⟨threadData, false⟩ ∧
          readThreadData program.main.heap threadData = some data ∧
          program.sockets data.cfd = some (.client waiter)) ∧
      ∀ step ∈ during ++ later, ∀ mover happened, step.1 = .handler mover happened →
        happened.pc.zone = .outside ∧ happened ≠ .lock := by
  obtain ⟨before, earlier, rest⟩ := run.split
  obtain ⟨failed, taken, further⟩ := rest.head
  have sound := (run_consistent earlier).1 (alive_of_step taken)
  have silenced : Silenced id failed.world := by
    rcases sound.world_step taken with ⟨_, _, _, impossible⟩ | ⟨_, _, _, same, moved⟩
    · cases impossible
    · cases same
      exact sound.guarded.silenced moved fails
  have consistent := (whole_step sound taken).2.1
  obtain ⟨⟨thenSound, thenLost⟩, _, _⟩ := run_lost further consistent silenced
  obtain ⟨⟨nowSound, _⟩, waits, _⟩ := run_lost goesOn thenSound thenLost
  obtain ⟨_, _, outside⟩ := run_lost (further.append goesOn) consistent silenced
  have here := waits waiter waiting
  refine ⟨?_, here, ?_, outside⟩
  · intro exited
    obtain ⟨returned, unborn⟩ := run_joined (run.append goesOn) exited waiter
    rcases Nat.lt_or_ge waiter program.main.handlers.length with known | beyond
    · cases here.symm.trans (returned known)
    · rw [unborn beyond] at here
      cases here
  · intro alive
    have stays := nowSound alive
    obtain ⟨threadData, runs⟩ := stays.waiting_runs here
    obtain ⟨data, found, isOpen⟩ := stays.running runs
    exact ⟨threadData, data, runs, found, isOpen⟩

end Runs

/-- The driver refuses the line of the first client; the second one sends its own. -/
def refusedFirst : List Happening :=
  let handled := fun (id : Nat) (events : List Event) => events.map (Happening.handler id)
  let main := fun (steps : Nat) => List.replicate steps (Happening.main .main)
  main 1 ++ [.main (.accept (.connection 4 1))] ++ main 4 ++
    [.main (.accept (.connection 6 2))] ++
    handled 0 [.callocRecv true, .checkExit false, .recv (some [106, newline]), .lock,
      .openDevice (some 5), .write none] ++
    handled 1 [.callocRecv true, .checkExit false, .recv (some [108, newline])]

/-- The signal comes, and `main` joins the first handler and stands in front of the second. -/
def signalLate : List Happening :=
  [.main .signal, .main (.returns 0)] ++ List.replicate 14 (.main .main)

theorem refusedFirst_blocks_end : ∃ past during later state program,
    aesdsocket.exec (.start 3) refusedFirst = some (past ++ during, state) ∧
      aesdsocket.exec state signalLate = some (later, program) ∧
      program.main.pc ≠ .exited true ∧ (program.world.threads 1).pc = .lock := by
  obtain ⟨⟨trace, state⟩, computed, facts⟩ := (Option.any_eq_true _ _).mp
    (by decide +kernel : ((aesdsocket.exec (.start 3) refusedFirst).any fun result =>
      decide (result.1 = result.1.take 12 ++ (.handler 0 (.write none),
          .inr (.write [106, newline])) :: result.1.drop 13) &&
        decide ((result.2.world.threads 1).pc = .lock) &&
        (aesdsocket.exec result.2 signalLate).isSome) = true)
  simp only [Bool.and_eq_true, decide_eq_true_eq] at facts
  obtain ⟨⟨cut, waiting⟩, goesOn⟩ := facts
  obtain ⟨⟨later, program⟩, further⟩ := Option.isSome_iff_exists.mp goesOn
  have run := Machine.Run.of_exec computed
  rw [cut] at run computed
  obtain ⟨notEnded, here, _⟩ := lost_mutex_blocks_end run rfl waiting (.of_exec further)
  exact ⟨_, _, later, state, program, computed, further, notEnded, here⟩

end Aesd.Server
