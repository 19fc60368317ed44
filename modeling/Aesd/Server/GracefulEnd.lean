import Aesd.Library.Progress
import Aesd.Server.Conversation
import Aesd.Server.Ending
import Aesd.Server.Stranded

namespace Aesd.Server

open Aesd.Library Aesd.Driver

/-- What happens without the clients, the signal and the handlers' code. -/
def Happening.unaided : Happening → Bool
  | .main event => event.unaided
  | .handler _ _ => false

/-- All handlers that were started have run to their ends. -/
def Aesdsocket.Over (program : Aesdsocket) : Prop :=
  ∀ id < program.main.handlers.length, (program.world.threads id).pc = .returned

/-- The signal was there, and `main` is on its way out without the others, as from `start`. -/
structure Leaving (start program : Aesdsocket) (left : Nat) : Prop where
  consistent : program.main.pc.exits = false → Consistent program
  closing : Closing program.main left
  threads : program.world.threads = start.world.threads
  handlers : program.main.handlers.length = start.main.handlers.length

section Steps

variable {start program after : Aesdsocket} {happening : Happening} {output : Output ⊕ Syscall}
variable {left : Nat}

theorem crashed_thread {trace : List ((Nat × Event) × Syscall)} {world : World}
    (run : server.Run World.start trace world) (crashed : world.crashed = true) :
    ∃ id, (world.threads id).pc = .crashed := by
  cases run with
  | start => cases crashed
  | @next _ _ _ input _ _ taken =>
    obtain ⟨id, event⟩ := input
    rw [crashed_step taken] at crashed
    exact ⟨id, beq_iff_eq.mp crashed⟩

theorem Leaving.over_iff (leaving : Leaving start program left) :
    program.Over ↔ start.Over := by
  rw [Aesdsocket.Over, leaving.threads, leaving.handlers, Aesdsocket.Over]

theorem Consistent.sound (consistent : Consistent program) (returned : program.Over) :
    program.world.crashed = false := by
  obtain ⟨_, run⟩ := consistent.reached
  by_contra crashed
  obtain ⟨id, died⟩ := crashed_thread run (by simpa using crashed)
  rcases Nat.lt_or_ge id program.main.handlers.length with known | beyond
  · cases died.symm.trans (returned id known)
  · rw [consistent.unborn id beyond] at died
    cases died

/-- The handlers have no part in such a step, and none is started. -/
theorem unaided_step (consistent : Consistent program) (unaided : happening.unaided = true)
    (taken : aesdsocket.step program happening = some (output, after)) :
    after.world.threads = program.world.threads ∧ ∃ event said,
      event.unaided = true ∧ acceptLoop.step program.main event = some (said, after.main) := by
  rcases consistent.world_step taken with ⟨threads, _, event, rfl⟩ | ⟨_, _, _, rfl, _⟩
  · simp only [aesdsocket, Aesdsocket.step, Option.ite_none_left_eq_some] at taken
    obtain ⟨_, mapped⟩ := taken
    obtain ⟨⟨said, next⟩, stepped, same⟩ := Option.map_eq_some_iff.mp mapped
    cases same
    obtain ⟨main, _, _, moved, _, rfl⟩ := mainStep_cases stepped
    refine ⟨threads, event, said, unaided, ?_⟩
    split
    · rw [Aesdsocket.cleanup_main, Aesdsocket.after_main]
      exact moved
    · rw [Aesdsocket.after_main]
      exact moved
  · cases unaided

theorem Aesdsocket.takes {event : MainEvent} {said : Output} {main : MainState}
    (sound : program.world.crashed = false) (alive : program.main.pc.exits = false)
    (may : program.mayHappen event = true) (quiet : said.accepted = none)
    (moved : acceptLoop.step program.main event = some (said, main)) :
    ∃ after, aesdsocket.step program (.main event) = some (.inl said, after) := by
  have stepped : program.main.step event = some (said, main) := moved
  simp [aesdsocket, step, mainStep, sound, alive, may, stepped, quiet]

theorem Leaving.step (leaving : Leaving start program left) (unaided : happening.unaided = true)
    (taken : aesdsocket.step program happening = some (output, after)) :
    ∃ less < left, Leaving start after less := by
  have sound := leaving.consistent (alive_of_step taken)
  obtain ⟨threads, event, said, own, moved⟩ := unaided_step sound unaided taken
  obtain ⟨less, lower, closing, _, handlers⟩ := leaving.closing.step own moved
  exact ⟨less, lower, (whole_step sound taken).2.1, closing, threads.trans leaving.threads,
    handlers.trans leaving.handlers⟩

/-- As long as `main` is not at its end, one such step can be taken. -/
theorem Leaving.goesOn (leaving : Leaving start program left) (returned : start.Over)
    (notYet : program.main.pc ≠ .exited true) :
    ∃ happening output after, happening.unaided = true ∧
      aesdsocket.step program happening = some (output, after) := by
  have returned := leaving.over_iff.mpr returned
  have alive : program.main.pc.exits = false := by
    cases here : program.main.pc with
    | exited success =>
      cases success with
      | true => exact absurd here notYet
      | false => exact absurd here leaving.closing.goes
    | _ => rfl
  obtain ⟨event, said, main, own, moved⟩ := leaving.closing.goesOn notYet
  obtain ⟨_, _, _, quiet, _⟩ := leaving.closing.step own moved
  have may : program.mayHappen event = true := by
    cases event with
    | signal | complete id => cases own
    | accept result => rfl
    | main => rfl
    | returns id =>
      refine beq_iff_eq.mpr (returned id ?_)
      by_contra beyond
      have nobody := List.getElem?_eq_none_iff.mpr (Nat.not_lt.mp beyond)
      simp [acceptLoop, MainState.step, nobody] at moved
  obtain ⟨after, taken⟩ :=
    Aesdsocket.takes ((leaving.consistent alive).sound returned) alive may quiet moved
  exact ⟨.main event, _, after, own, taken⟩

end Steps

section Runs

variable {sfd : Nat} {program : Aesdsocket} {trace : List (Happening × (Output ⊕ Syscall))}

/-- After the signal, as long as no handler moves and `accept` finds nobody: `main` gets to
its regular end if and only if all handlers have returned. Then it cannot miss it: in
whatever order its own steps and the ends of the threads come, they are bounded by a cube
in the number of handlers, and before the end one of them can always be taken. -/
theorem graceful_end (run : aesdsocket.Run (.start sfd) trace program)
    (alive : program.main.pc.exits = false) (asked : program.main.gracefullyExit = true) :
    ((∃ later final, aesdsocket.Run program later final ∧
        (∀ step ∈ later, step.1.unaided = true) ∧ final.main.pc = .exited true) ↔ program.Over) ∧
      (program.Over → ∀ later final, aesdsocket.Run program later final →
        (∀ step ∈ later, step.1.unaided = true) →
          later.length ≤ (program.main.handlers.length + 3) ^ 3 ∧
          (final.main.pc ≠ .exited true → ∃ happening output after,
            happening.unaided = true ∧ aesdsocket.step final happening = some (output, after))) := by
  have consistent := (run_consistent run).1 alive
  obtain ⟨_, runs, _⟩ := consistent.connected
  have goes : program.main.pc ≠ .exited false := by
    intro failed
    rw [failed] at alive
    cases alive
  obtain ⟨left, closing, bound⟩ := Closing.start ⟨_, runs⟩ asked goes
  have leaving : Leaving program program left := ⟨fun _ => consistent, closing, rfl, rfl⟩
  have lowers : ∀ (now : Aesdsocket) (left : Nat) (happening : Happening)
      (output : Output ⊕ Syscall) (after : Aesdsocket), Leaving program now left →
      happening.unaided = true → aesdsocket.step now happening = some (output, after) →
        ∃ less < left, Leaving program after less :=
    fun _ _ _ _ _ still unaided taken => still.step unaided taken
  refine ⟨⟨?_, ?_⟩, ?_⟩
  · rintro ⟨later, final, goesOn, unaided, exited⟩
    obtain ⟨_, _, there⟩ := goesOn.bounded lowers leaving unaided
    refine there.over_iff.mp fun id known => ?_
    exact (run_joined (run.append goesOn) exited id).1 known
  · intro returned
    have nears : ∀ (now : Aesdsocket) (left : Nat), Leaving program now left →
        ¬ now.main.pc = .exited true → ∃ happening output after,
          happening.unaided = true ∧ aesdsocket.step now happening = some (output, after) ∧
            ∃ less < left, Leaving program after less := by
      intro now left still notYet
      obtain ⟨happening, output, after, unaided, taken⟩ := still.goesOn returned notYet
      exact ⟨happening, output, after, unaided, taken, still.step unaided taken⟩
    exact Machine.Run.to_end _ nears leaving
  · intro returned later final goesOn unaided
    obtain ⟨rest, short, there⟩ := goesOn.bounded lowers leaving unaided
    exact ⟨by omega, there.goesOn returned⟩

end Runs

/-- The three clients are served, and `main` has still to join the last two handlers. -/
theorem threeClients_end : ∃ trace program later final,
    aesdsocket.exec (.start 3) (threeClients.take 51) = some (trace, program) ∧
      aesdsocket.Run program later final ∧ later.length ≤ 216 ∧ final.main.pc = .exited true := by
  obtain ⟨⟨trace, program⟩, computed, facts⟩ := (Option.any_eq_true _ _).mp
    (by decide +kernel : ((aesdsocket.exec (.start 3) (threeClients.take 51)).any fun result =>
      !result.2.main.pc.exits && result.2.main.gracefullyExit &&
        decide (result.2.main.handlers.length = 3) &&
        (List.range 3).all fun id => decide ((result.2.world.threads id).pc = .returned)) = true)
  simp only [Bool.and_eq_true, Bool.not_eq_true', decide_eq_true_eq, List.all_eq_true,
    List.mem_range] at facts
  obtain ⟨⟨⟨alive, asked⟩, three⟩, each⟩ := facts
  obtain ⟨ends, bounded⟩ := graceful_end (.of_exec computed) alive asked
  have returned : program.Over := fun id known => each id (three ▸ known)
  obtain ⟨later, final, goesOn, unaided, exited⟩ := ends.mpr returned
  obtain ⟨short, _⟩ := bounded returned later final goesOn unaided
  rw [three] at short
  exact ⟨trace, program, later, final, computed, goesOn, short, exited⟩

end Aesd.Server
