import Aesd.Server.Descriptors

namespace Aesd.Server

open Aesd.Library Aesd.Driver

/-- What holds of the result, if one is reached. -/
def Yields (holds : Output → MainState → Prop) (result : Option (Output × MainState)) : Prop :=
  ∀ output after, result = some (output, after) → holds output after

namespace Yields

variable {holds : Output → MainState → Prop} {output : Output} {after : MainState}

theorem some (known : holds output after) : Yields holds (Option.some (output, after)) := by
  intro _ _ found
  cases found
  exact known

theorem bind {α : Type} {first : Option α} {next : α → Option (Output × MainState)}
    (each : ∀ value, Yields holds (next value)) : Yields holds (first >>= next) := by
  intro output after found
  obtain ⟨value, _, reached⟩ := Option.bind_eq_some_iff.mp found
  exact each value output after reached

theorem ite {condition : Prop} [Decidable condition]
    {first second : Option (Output × MainState)} (yes : Yields holds first)
    (no : Yields holds second) : Yields holds (if condition then first else second) := by
  split
  · exact yes
  · exact no

end Yields

section Handlers

variable {state after : MainState} {event : MainEvent} {output : Output}

/-- The steps of `main` by itself start and end no thread. -/
theorem advance_handlers (state : MainState) :
    Yields (fun _ after => after.handlers = state.handlers) state.advance := by
  unfold MainState.advance
  split
  · refine .some ?_
    split
    · rfl
    · rfl
  · split
    · exact .some rfl
    · exact .bind fun _ => .some rfl
  · refine .bind fun _ => .bind fun _ => .bind fun _ => .some ?_
    split
    · rfl
    · rfl
  · exact .bind fun _ => .bind fun _ => .bind fun _ => .some rfl
  · exact .bind fun _ => .bind fun _ => .bind fun _ => .some rfl
  · exact .bind fun _ => .ite (.bind fun _ => .some rfl) (.some rfl)
  · exact .bind fun _ => .bind fun _ => .bind fun _ => .ite (.bind fun _ => .some rfl) (.some rfl)
  · refine .bind fun node => ?_
    intro output after found
    obtain ⟨released, release, same⟩ := Option.bind_eq_some_iff.mp found
    cases same
    simp only [MainState.release, Option.bind_eq_bind, Option.bind_eq_some_iff] at release
    obtain ⟨_, _, _, _, same⟩ := release
    cases same
    rfl
  · split
    · exact .some rfl
    · exact .bind fun _ => .bind fun _ => .bind fun _ => .bind fun _ => .some rfl
  all_goals
    intro output after found
    cases found

/-- `main` ends the program in a step in which it does nothing else. -/
theorem advance_quiet (state : MainState) :
    Yields (fun output after => after.pc.exits = true → output = .quiet) state.advance := by
  unfold MainState.advance
  split
  · exact .some fun _ => rfl
  · split
    · exact .some fun _ => rfl
    · exact .bind fun _ => .some fun _ => rfl
  · exact .bind fun _ => .bind fun _ => .bind fun _ => .some fun _ => rfl
  · exact .bind fun _ => .bind fun _ => .bind fun _ => .some Bool.noConfusion
  · exact .bind fun _ => .bind fun _ => .bind fun _ => .some Bool.noConfusion
  · exact .bind fun _ => .ite (.bind fun _ => .some Bool.noConfusion) (.some fun _ => rfl)
  · exact .bind fun _ => .bind fun _ => .bind fun _ =>
      .ite (.bind fun _ => .some Bool.noConfusion) (.some fun _ => rfl)
  · exact .bind fun _ => .bind fun _ => .some fun _ => rfl
  · split
    · exact .some fun _ => rfl
    · exact .bind fun _ => .bind fun _ => .bind fun _ => .bind fun _ => .some fun _ => rfl
  all_goals
    intro output after found
    cases found

/-- What a step of `main`'s machine does to the threads it knows. -/
theorem step_handlers (taken : state.step event = Option.some (output, after)) :
    after.handlers = state.handlers ∨
      (∃ id threadData, event = .returns id ∧
        after.handlers = state.handlers.set id ⟨threadData, true⟩) ∨
      ∃ threadData, after.handlers = state.handlers ++ [⟨threadData, false⟩] := by
  cases event with
  | signal =>
    cases taken
    exact .inl rfl
  | complete id =>
    simp only [MainState.step] at taken
    split at taken
    · rename_i threadData _
      left
      unfold MainState.setComplete at taken
      cases found : readThreadData state.heap threadData with
      | none =>
        simp only [found] at taken
        cases taken
        rfl
      | some data =>
        simp only [found] at taken
        cases taken
        rfl
    · cases taken
  | returns id =>
    simp only [MainState.step] at taken
    split at taken
    · cases taken
      exact .inr (.inl ⟨id, _, rfl, rfl⟩)
    · cases taken
  | accept result =>
    simp only [MainState.step, Option.ite_none_right_eq_some, Option.some.injEq] at taken
    obtain ⟨_, outcome⟩ := taken
    cases result with
    | again | failed =>
      cases outcome
      exact .inl rfl
    | connection cfd clientAddr =>
      cases outcome
      exact .inr (.inr ⟨_, rfl⟩)
  | main =>
    left
    simp only [MainState.step] at taken
    split at taken
    · cases taken
    · cases taken
    · cases taken
    · simp only [Option.ite_none_left_eq_some, Option.some.injEq] at taken
      cases advanced : state.advance with
      | none =>
        rw [advanced] at taken
        cases taken.2
        rfl
      | some result =>
        rw [advanced] at taken
        cases taken.2
        exact advance_handlers state _ _ advanced

end Handlers

theorem run_tabled {trace : List ((Nat × Event) × Syscall)} {world : World}
    (run : server.Run World.start trace world) : Tabled world := by
  have both : Guarded world ∧ Tabled world := by
    refine run.invariant (fun world => Guarded world ∧ Tabled world)
      ⟨guarded_start, tabled_start⟩ ?_
    intro world ⟨id, event⟩ call after ⟨guarded, tabled⟩ taken
    exact ⟨guarded.step taken, tabled.step guarded taken⟩
  exact both.2

/-- Both halves of the program run as they do alone, and what they share fits together. -/
structure Consistent (program : Aesdsocket) : Prop where
  connected : ∃ trace, acceptLoop.Run .start trace program.main ∧ Connected trace program
  reached : ∃ trace, server.Run World.start trace program.world
  apart : ∀ descriptor, program.sockets descriptor ≠ none →
    program.world.descriptors descriptor = none
  unborn : ∀ id, program.main.handlers.length ≤ id → program.world.threads id = Thread.start
  gone : ∀ id threadData, program.main.handlers[id]? = some ⟨threadData, true⟩ →
    (program.world.threads id).pc = .returned

namespace Consistent

variable {program : Aesdsocket}

theorem start (sfd : Nat) : Consistent (.start sfd) where
  connected := by
    refine ⟨[], .start, ?_, ?_⟩
    · intro descriptor
      by_cases mine : descriptor = sfd
      · simp [Aesdsocket.start, mine]
      · simp [Aesdsocket.start, mine]
    · intro descriptor id
      refine iff_of_false ?_ (by simp [accepted])
      by_cases mine : descriptor = sfd
      · simp [Aesdsocket.start, mine]
      · simp [Aesdsocket.start, mine]
  reached := ⟨[], .start⟩
  apart := fun _ _ => rfl
  unborn := fun _ _ => rfl
  gone := by
    intro id threadData found
    cases found

theorem guarded (consistent : Consistent program) : Guarded program.world := by
  obtain ⟨_, run⟩ := consistent.reached
  exact run_guarded run

theorem tabled (consistent : Consistent program) : Tabled program.world := by
  obtain ⟨_, run⟩ := consistent.reached
  exact run_tabled run

/-- A handler at the device uses a descriptor of its own that is no socket. -/
theorem device (consistent : Consistent program) {id descriptor : Nat}
    (opened : program.world.zone id = .opened) (fd : program.world.fd = some descriptor) :
    program.world.descriptors descriptor = some id ∧ program.sockets descriptor = none := by
  have own := consistent.tabled.own id descriptor opened fd
  refine ⟨own, ?_⟩
  by_contra some
  cases (consistent.apart descriptor some).symm.trans own

/-- The connection of a handler that runs was not closed. -/
theorem running (consistent : Consistent program) {id threadData : Nat}
    (runs : program.main.handlers[id]? = some ⟨threadData, false⟩) :
    ∃ data, readThreadData program.main.heap threadData = some data ∧
      program.sockets data.cfd = some (.client id) := by
  obtain ⟨trace, run, connected⟩ := consistent.connected
  obtain ⟨ledger, books, serves⟩ := run_serving run
  obtain ⟨connection, listed, rfl, rfl⟩ := serves.running id threadData runs
  have held := ledger.mem_list _ listed
  obtain ⟨complete, exit, data⟩ := (serves.holds connection held).readThreadData
  refine ⟨_, data, (connected.client _ _).mpr ⟨connection, ?_, rfl, rfl, ?_⟩⟩
  · exact books.accepted.mem_iff.mpr (ledger.mem_all _ listed)
  · intro closed
    rw [books.effects] at closed
    have known := ledger.mem_all _ listed
    rcases ledger.mem_done closed with ⟨reaped, finished, among⟩ | ⟨inHand, current, among⟩
    · obtain rfl := serves.distinct.effect known (ledger.mem_all_iff.mpr (.inl finished))
        (closed_mem_script _) among
      exact serves.finished_notMem finished true (List.mem_map_of_mem held)
    · obtain rfl := serves.distinct.effect known (ledger.inHand_mem_all current)
        (closed_mem_script _) (List.mem_of_mem_take among)
      have joined : program.main.pc.joined = true := by
        cases pc : program.main.pc with
        | close | remove | walk | free => rfl
        | _ =>
          rw [pc] at among
          simp [MainPc.performed, Connection.script] at among
      obtain ⟨finished, passed, _, rest⟩ := ledger
      obtain rfl : _ = some connection := current
      rw [joined] at listed
      exact serves.distinct.apart listed (by simp [Connection.blocks])
        (show connection.node ∈ connection.blocks by simp [Connection.blocks])

/-- Setting a flag leaves the connections and the threads of `main` as they are. -/
theorem completed (consistent : Consistent program) {id threadData : Nat}
    (runs : program.main.handlers[id]? = some ⟨threadData, false⟩) (thread : Thread) :
    (∃ trace, acceptLoop.Run .start trace (program.complete id thread) ∧
      Connected trace program) ∧ (program.complete id thread).handlers = program.main.handlers ∧
        (program.complete id thread).pc = program.main.pc := by
  obtain ⟨trace, run, connected⟩ := consistent.connected
  unfold Aesdsocket.complete
  split
  · obtain ⟨ledger, _, serves⟩ := run_serving run
    obtain ⟨done, set, pc, _⟩ := serves.setComplete runs
    have stepped : program.main.step (.complete id) = some (.quiet, done) := by
      simp only [MainState.step, runs, set, Option.map_some, Option.getD_some]
    rw [stepped]
    refine ⟨⟨trace ++ [(.complete id, .quiet)], ?_, connected.listener, ?_⟩, ?_, pc⟩
    · exact run.next stepped
    · intro descriptor owner
      rw [accepted_append_singleton, effects_append_singleton, connected.client]
      simp [Output.quiet]
    · rcases step_handlers stepped with same | ⟨_, _, impossible, _⟩ | ⟨fresh, grown⟩
      · exact same
      · cases impossible
      · unfold MainState.setComplete at set
        obtain ⟨_, _, rfl⟩ := Option.map_eq_some_iff.mp set
        rfl
  · exact ⟨⟨trace, run, connected⟩, rfl, rfl⟩

end Consistent

theorem handlerStep_cases {program after : Aesdsocket} {id : Nat} {event : Event} {call : Syscall}
    (taken : program.handlerStep id event = some (call, after)) :
    ∃ threadData world, program.main.handlers[id]? = some ⟨threadData, false⟩ ∧
      program.allows id event = true ∧ program.main.pc.exits = false ∧
      program.world.step (id, event) = some (call, world) ∧
      after = { program with
        main := program.complete id (world.threads id)
        world
        sockets := program.socketsAfter event } := by
  unfold Aesdsocket.handlerStep at taken
  split at taken
  · rename_i threadData runs
    simp only [Option.ite_none_right_eq_some, Bool.and_eq_true, Bool.not_eq_true'] at taken
    obtain ⟨⟨allowed, goes⟩, mapped⟩ := taken
    obtain ⟨⟨asked, world⟩, stepped, same⟩ := Option.map_eq_some_iff.mp mapped
    cases same
    exact ⟨threadData, world, runs, allowed, goes, stepped, rfl⟩
  · cases taken

namespace Consistent

variable {program after : Aesdsocket} {id : Nat} {event : Event} {call : Syscall}

theorem sockets_kept (consistent : Consistent program) {world : World}
    (stepped : program.world.step (id, event) = some (call, world)) :
    program.socketsAfter event = program.sockets := by
  cases event with
  | close failed =>
    simp only [Aesdsocket.socketsAfter]
    split
    · rfl
    · rename_i fd found
      obtain ⟨thread, _, moved, _, _⟩ := World.step_cases stepped
      have opened : program.world.zone id = .opened := by
        rw [World.zone, Thread.zone, (Thread.step_eq_some_iff.mp moved).1]
        rfl
      have free := (consistent.device opened found).2
      rw [← free]
      exact Function.update_eq_self fd program.sockets
  | _ => rfl

theorem share_apart {shared : World} (allowed : program.allows id event = true)
    (shares : program.world.share id event = some shared) {descriptor : Nat}
    (isSocket : program.sockets descriptor ≠ none)
    (apart : program.world.descriptors descriptor = none) :
    shared.descriptors descriptor = none := by
  cases event with
  | openDevice result =>
    cases result with
    | none =>
      obtain rfl := Option.some.inj shares
      exact apart
    | some number =>
      obtain ⟨_, same⟩ := Option.ite_none_right_eq_some.mp shares
      obtain rfl := Option.some.inj same
      have different : descriptor ≠ number := by
        rintro rfl
        exact isSocket (Option.isNone_iff_eq_none.mp allowed)
      exact (Function.update_of_ne different _ _).trans apart
  | close failed =>
    simp only [World.share] at shares
    split at shares
    · obtain rfl := Option.some.inj shares
      exact apart
    · rename_i fd _
      obtain rfl := Option.some.inj shares
      by_cases same : descriptor = fd
      · subst same
        exact Function.update_self ..
      · exact (Function.update_of_ne same _ _).trans apart
  | lock =>
    obtain ⟨_, same⟩ := Option.ite_none_right_eq_some.mp shares
    obtain rfl := Option.some.inj same
    exact apart
  | _ =>
    obtain rfl := Option.some.inj shares
    exact apart

theorem handler_step (consistent : Consistent program)
    (taken : program.handlerStep id event = some (call, after)) : Consistent after := by
  obtain ⟨threadData, world, runs, allowed, _, stepped, rfl⟩ := handlerStep_cases taken
  obtain ⟨connected, handlers, _⟩ := consistent.completed runs (world.threads id)
  obtain ⟨thread, shared, moved, shares, same⟩ := World.step_cases stepped
  have others : ∀ other, other ≠ id → world.threads other = program.world.threads other := by
    intro other apart
    rw [same]
    exact Function.update_of_ne apart _ _
  rw [consistent.sockets_kept stepped]
  constructor
  · obtain ⟨trace, run, connected⟩ := connected
    exact ⟨trace, run, connected.listener, connected.client⟩
  · obtain ⟨trace, run⟩ := consistent.reached
    exact ⟨_, run.next stepped⟩
  · intro descriptor some
    rw [same]
    exact share_apart allowed shares some (consistent.apart descriptor some)
  · intro other beyond
    rw [handlers] at beyond
    have apart : other ≠ id := by
      rintro rfl
      exact absurd (List.getElem?_eq_some_iff.mp runs).1 (Nat.not_lt.mpr beyond)
    rw [others other apart]
    exact consistent.unborn other beyond
  · intro other block found
    rw [handlers] at found
    have apart : other ≠ id := by
      rintro rfl
      rw [runs] at found
      cases found
    rw [others other apart]
    exact consistent.gone other block found

end Consistent

/-- The program between a step of `main` and the clean-up, if one follows. -/
def Aesdsocket.after (program : Aesdsocket) (output : Output) (main : MainState) : Aesdsocket :=
  output.closes.foldl Aesdsocket.close (Aesdsocket.accept { program with main } output)

@[simp] theorem Aesdsocket.accept_main (program : Aesdsocket) (output : Output) :
    (program.accept output).main = program.main := by
  unfold accept
  split
  · rfl
  · rfl

@[simp] theorem Aesdsocket.after_main (program : Aesdsocket) (output : Output) (main : MainState) :
    (program.after output main).main = main := by
  rw [after, (closeAll output.closes _).1, accept_main]

@[simp] theorem Aesdsocket.cleanup_main (program : Aesdsocket) :
    program.cleanup.main = program.main := by
  unfold cleanup
  split
  · rfl
  · rfl

theorem mainStep_cases {program after : Aesdsocket} {event : MainEvent} {output : Output}
    (taken : program.mainStep event = some (output, after)) :
    ∃ main, program.mayHappen event = true ∧ program.main.pc.exits = false ∧
      program.main.step event = some (output, main) ∧
      (∀ connection, output.accepted = some connection →
        program.sockets connection.cfd = none ∧
          program.world.descriptors connection.cfd = none) ∧
      after = if main.pc.exits then (program.after output main).cleanup
        else program.after output main := by
  unfold Aesdsocket.mainStep at taken
  simp only [Option.ite_none_right_eq_some, Bool.and_eq_true, Bool.not_eq_true'] at taken
  obtain ⟨⟨may, goes⟩, taken⟩ := taken
  split at taken
  · cases taken
  · rename_i said main stepped
    simp only [Option.ite_none_right_eq_some, Option.some.injEq, Prod.mk.injEq] at taken
    obtain ⟨free, rfl, rfl⟩ := taken
    refine ⟨main, may, goes, stepped, ?_, rfl⟩
    intro connection new
    rw [new] at free
    simpa [Aesdsocket.free] using free

namespace Consistent

variable {program : Aesdsocket} {event : MainEvent} {output : Output} {main : MainState}

theorem after_accepts {connection : Connection} (new : output.accepted = some connection)
    (nothing : output.effects = []) : program.after output main = { program with
      main
      sockets := Function.update program.sockets connection.cfd
        (some (.client connection.handler)) } := by
  simp [Aesdsocket.after, Output.closes, nothing, Aesdsocket.accept, new]

theorem after_reaps (quiet : output.accepted = none) :
    program.after output main = output.closes.foldl Aesdsocket.close { program with main } := by
  simp [Aesdsocket.after, Aesdsocket.accept, quiet]

theorem threads_kept (consistent : Consistent program)
    (stepped : program.main.step event = some (output, main))
    (may : program.mayHappen event = true) :
    (∀ id, main.handlers.length ≤ id → program.world.threads id = Thread.start) ∧
      ∀ id threadData, main.handlers[id]? = some ⟨threadData, true⟩ →
        (program.world.threads id).pc = .returned := by
  rcases step_handlers stepped with same | ⟨id, block, rfl, same⟩ | ⟨block, same⟩
  · rw [same]
    exact ⟨consistent.unborn, consistent.gone⟩
  · rw [same]
    refine ⟨fun other beyond => consistent.unborn other (by simpa using beyond), ?_⟩
    intro other threadData found
    by_cases mine : id = other
    · subst mine
      exact beq_iff_eq.mp may
    · rw [List.getElem?_set_ne mine] at found
      exact consistent.gone other threadData found
  · rw [same]
    constructor
    · intro other beyond
      refine consistent.unborn other ?_
      rw [List.length_append] at beyond
      omega
    · intro other threadData found
      rw [List.getElem?_append] at found
      split at found
      · exact consistent.gone other threadData found
      · simp [List.getElem?_singleton] at found

theorem main_step (consistent : Consistent program)
    (stepped : program.main.step event = some (output, main))
    (may : program.mayHappen event = true)
    (free : ∀ connection, output.accepted = some connection →
      program.sockets connection.cfd = none ∧ program.world.descriptors connection.cfd = none) :
    Consistent (program.after output main) ∧ (program.after output main).world = program.world := by
  obtain ⟨trace, run, connected⟩ := consistent.connected
  have goesOn : acceptLoop.Run .start (trace ++ [(event, output)]) main := run.next stepped
  obtain ⟨unborn, gone⟩ := consistent.threads_kept stepped may
  cases new : output.accepted with
  | some connection =>
    obtain ⟨ledger, _, serves⟩ := run_serving run
    have nothing := quiet_of_accepted serves stepped new
    obtain ⟨unused, notDevice⟩ := free connection new
    have accepts := connected.accepts goesOn new nothing unused main
    rw [Aesdsocket.accept, new] at accepts
    rw [after_accepts new nothing]
    refine ⟨⟨⟨_, goesOn, accepts⟩, consistent.reached, ?_, unborn, gone⟩, rfl⟩
    intro descriptor some
    by_cases mine : descriptor = connection.cfd
    · rw [mine]
      exact notDevice
    · simp only [Function.update_of_ne mine] at some
      exact consistent.apart descriptor some
  | none =>
    have reaps := connected.reaps goesOn new main
    rw [after_reaps new]
    obtain ⟨sameMain, _, world, sockets⟩ := Aesdsocket.closeAll output.closes { program with main }
    have kept : (output.closes.foldl Aesdsocket.close { program with main }).world =
        program.world := by
      have same : (fun descriptor => if descriptor ∈ output.closes then none
          else program.world.descriptors descriptor) = program.world.descriptors := by
        funext descriptor
        split
        · rename_i closes
          obtain ⟨connection, _, _, _, isOpen⟩ := connected.closes goesOn new closes
          exact (consistent.apart descriptor (by rw [isOpen]; exact Option.some_ne_none _)).symm
        · rfl
      exact world.trans (congrArg (fun descriptors => { program.world with descriptors }) same)
    refine ⟨⟨⟨_, by rw [sameMain]; exact goesOn, reaps⟩, by rw [kept]; exact consistent.reached,
      ?_, ?_, ?_⟩, kept⟩
    · intro descriptor some
      rw [kept]
      refine consistent.apart descriptor fun nothing => some ?_
      rw [sockets, nothing, ite_self]
    · rw [sameMain, kept]
      exact unborn
    · rw [sameMain, kept]
      exact gone

end Consistent

end Aesd.Server
