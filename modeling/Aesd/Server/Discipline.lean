import Aesd.Server.Consistency
import Aesd.Server.Silence

namespace Aesd.Server

open Aesd.Library Aesd.Driver

namespace Consistent

variable {program : Aesdsocket} {event : MainEvent} {output : Output} {main : MainState}

/-- What `main` closes was the socket of a client whose handler is over. -/
theorem main_closes (consistent : Consistent program)
    (stepped : program.main.step event = some (output, main))
    (may : program.mayHappen event = true)
    (free : ∀ connection, output.accepted = some connection →
      program.sockets connection.cfd = none ∧ program.world.descriptors connection.cfd = none)
    {descriptor : Nat} (closes : descriptor ∈ output.closes) :
    ∃ id threadData, program.sockets descriptor = some (.client id) ∧
      program.main.handlers[id]? = some ⟨threadData, true⟩ := by
  obtain ⟨trace, run, connected⟩ := consistent.connected
  have goesOn : acceptLoop.Run .start (trace ++ [(event, output)]) main := run.next stepped
  obtain ⟨ledger, books, serves⟩ := run_serving run
  have some : output.effects ≠ [] := by
    obtain ⟨node, among⟩ := mem_closes.mp closes
    exact List.ne_nil_of_mem among
  have quiet : output.accepted = none := by
    by_contra new
    obtain ⟨connection, new⟩ := Option.ne_none_iff_exists'.mp new
    exact some (quiet_of_accepted serves stepped new)
  obtain ⟨connection, member, rfl, among, isOpen⟩ := connected.closes goesOn quiet closes
  have known : connection.handler < program.main.handlers.length :=
    serves.started connection (books.accepted.mem_iff.mp member)
  obtain ⟨⟨threadData, returned⟩, found⟩ : ∃ handler,
      program.main.handlers[connection.handler]? = .some handler :=
    ⟨_, List.getElem?_eq_getElem known⟩
  cases returned with
  | true => exact ⟨connection.handler, threadData, isOpen, found⟩
  | false =>
    -- a handler that runs after the step would have its socket still open
    have runs : main.handlers[connection.handler]? = .some ⟨threadData, false⟩ := by
      rcases step_handlers stepped with same | ⟨id, block, rfl, _⟩ | ⟨block, same⟩
      · rw [same]
        exact found
      · simp only [MainState.step] at stepped
        split at stepped
        · cases stepped
          exact absurd rfl some
        · cases stepped
      · rw [same, List.getElem?_append_left known]
        exact found
    obtain ⟨after, _⟩ := consistent.main_step stepped may free
    rw [after_reaps quiet] at after
    obtain ⟨sameMain, _⟩ := Aesdsocket.closeAll output.closes { program with main }
    rw [← show (output.closes.foldl Aesdsocket.close { program with main }).main = main from sameMain]
      at runs
    obtain ⟨data, _, stillOpen⟩ := after.running runs
    obtain ⟨other, otherMember, _, sameHandler, unclosed⟩ :=
      ((connected.reaps goesOn quiet main).client _ _).mp stillOpen
    have whole : accepted (trace ++ [(event, output)]) = accepted trace := by
      rw [accepted_append_singleton, quiet, Option.toList_none, List.append_nil]
    obtain rfl := (distinct_accepted goesOn).handler other otherMember connection
      (whole ▸ member) sameHandler
    refine absurd ?_ unclosed
    rw [effects_append_singleton]
    exact List.mem_append_right _ among

/-- After the last loop every client's socket is closed and every handler is over. -/
theorem ended (consistent : Consistent program) (exited : program.main.pc = .exited true) :
    (∀ descriptor id, program.sockets descriptor ≠ some (.client id)) ∧
      ∀ id threadData : Nat, program.main.handlers[id]? ≠ some ⟨threadData, false⟩ := by
  obtain ⟨trace, run, connected⟩ := consistent.connected
  obtain ⟨ledger, books, serves⟩ := run_serving run
  have standing := serves.standing
  simp only [Standing, exited] at standing
  obtain ⟨current, before, after⟩ := standing
  have empty : ∀ kept, ledger.list kept = [] := by
    intro kept
    cases kept <;> simp [Ledger.list, current, before, after]
  constructor
  · intro descriptor id isOpen
    obtain ⟨connection, member, _, _, unclosed⟩ := (connected.client descriptor id).mp isOpen
    rcases ledger.mem_all_iff.mp (books.accepted.mem_iff.mp member) with finished | held
    · refine unclosed ?_
      rw [books.effects]
      refine List.mem_append_left _ (List.mem_flatMap.mpr ⟨connection, finished, ?_⟩)
      exact closed_mem_script connection
    · rw [empty] at held
      exact List.not_mem_nil held
  · intro id threadData runs
    obtain ⟨connection, listed, _⟩ := serves.running id threadData runs
    rw [empty] at listed
    exact List.not_mem_nil listed

/-- The clean-up after the last loop leaves no descriptor open. -/
theorem swept (consistent : Consistent program) (exited : program.main.pc = .exited true)
    (descriptor : Nat) : program.cleanup.sockets descriptor = none ∧
      program.cleanup.world.descriptors descriptor = none := by
  have listening : program.sockets descriptor ≠ none → descriptor = program.sfd := by
    intro some
    obtain ⟨trace, _, connected⟩ := consistent.connected
    cases found : program.sockets descriptor with
    | none => exact absurd found some
    | some socket =>
      cases socket with
      | listener => exact (connected.listener descriptor).mp found
      | client id => exact absurd found ((consistent.ended exited).1 descriptor id)
  have global : program.world.descriptors descriptor ≠ none →
      program.world.fd = some descriptor := by
    intro some
    obtain ⟨id, found⟩ := Option.ne_none_iff_exists'.mp some
    exact consistent.tabled.global descriptor id found
  have closed : ∀ {α : Type} (table : Nat → Option α) (number : Nat),
      (table descriptor ≠ none → descriptor = number) →
        Function.update table number none descriptor = none := by
    intro α table number only
    by_cases mine : descriptor = number
    · rw [mine, Function.update_self]
    · rw [Function.update_of_ne mine]
      exact not_not.mp (mt only mine)
  have unlistened := closed program.sockets program.sfd listening
  unfold Aesdsocket.cleanup
  cases found : program.world.fd with
  | none =>
    refine ⟨unlistened, closed _ _ fun some => ?_⟩
    cases found.symm.trans (global some)
  | some fd =>
    refine ⟨closed _ _ fun some => absurd unlistened some, closed _ _ fun some => ?_⟩
    have isOpen : program.world.descriptors descriptor ≠ none := by
      intro free
      refine some (closed _ _ fun used => absurd free used)
    exact (Option.some.inj (found.symm.trans (global isOpen))).symm

end Consistent

/-- Who may use which number. -/
structure Disciplined (program : Aesdsocket) : Prop where
  listener : program.sockets program.sfd = some .listener
  client : ∀ id threadData, program.main.handlers[id]? = some ⟨threadData, false⟩ →
    ∃ data, readThreadData program.main.heap threadData = some data ∧
      program.sockets data.cfd = some (.client id)
  device : ∀ id descriptor, program.world.zone id = .opened →
    program.world.fd = some descriptor → program.world.descriptors descriptor = some id
  single : ∀ first second, program.world.descriptors first ≠ none →
    program.world.descriptors second ≠ none → first = second
  apart : ∀ descriptor, program.sockets descriptor ≠ none →
    program.world.descriptors descriptor = none

theorem Consistent.disciplined {program : Aesdsocket} (consistent : Consistent program) :
    Disciplined program where
  listener := by
    obtain ⟨_, _, connected⟩ := consistent.connected
    exact (connected.listener _).mpr rfl
  client := fun _ _ => consistent.running
  device := fun _ _ opened fd => (consistent.device opened fd).1
  single := by
    intro first second one two
    obtain ⟨_, one⟩ := Option.ne_none_iff_exists'.mp one
    obtain ⟨_, two⟩ := Option.ne_none_iff_exists'.mp two
    exact Option.some.inj ((consistent.tabled.global _ _ one).symm.trans
      (consistent.tabled.global _ _ two))
  apart := consistent.apart

/-- The numbers that `cleanup` closes, one after the other: that of the socket that
listens, and whatever `fd` holds. -/
def Aesdsocket.lastCloses (program : Aesdsocket) : List Nat :=
  program.sfd :: program.world.fd.toList

theorem Aesdsocket.cleanup_eq (program : Aesdsocket) :
    program.cleanup = program.lastCloses.foldl close program := by
  unfold cleanup lastCloses
  cases program.world.fd with
  | none => rfl
  | some fd => rfl

/-- Who closes what in one step. `main` closes the socket of a client whose handler is
over, a handler the descriptor that it opened. What `cleanup` closes behind `fd` need not
be the program's: the socket of a client has the number only where `accept` has failed. -/
structure ClosesOwn (before : Aesdsocket) (happening : Happening) (output : Output ⊕ Syscall)
    (after : Aesdsocket) : Prop where
  reaped : ∀ said descriptor, output = .inl said → descriptor ∈ said.closes →
    ∃ id threadData, before.sockets descriptor = some (.client id) ∧
      before.main.handlers[id]? = some ⟨threadData, true⟩
  device : ∀ id failed descriptor, happening = .handler id (.close failed) →
    before.world.fd = some descriptor → before.world.descriptors descriptor = some id
  last : after.main.pc.exits = true →
    after = before.lastCloses.foldl Aesdsocket.close { before with main := after.main } ∧
      before.sockets before.sfd = some .listener ∧
        ∀ descriptor id, before.world.fd = some descriptor →
          before.sockets descriptor = some (.client id) → after.main.pc = .exited false

theorem quiet_of_exits {state after : MainState} {event : MainEvent} {output : Output}
    (taken : state.step event = some (output, after)) (exits : after.pc.exits = true) :
    output = .quiet := by
  cases event with
  | signal =>
    cases taken
    rfl
  | complete id =>
    simp only [MainState.step] at taken
    split at taken
    · rename_i threadData _
      cases set : state.setComplete ⟨threadData, false⟩ with
      | none =>
        rw [set] at taken
        cases taken
        rfl
      | some done =>
        rw [set] at taken
        cases taken
        rfl
    · cases taken
  | returns id =>
    simp only [MainState.step] at taken
    split at taken
    · cases taken
      rfl
    · cases taken
  | accept result =>
    simp only [MainState.step, Option.ite_none_right_eq_some, Option.some.injEq] at taken
    obtain ⟨_, outcome⟩ := taken
    cases result with
    | again | failed =>
      cases outcome
      rfl
    | connection cfd clientAddr =>
      cases outcome
      cases exits
  | main =>
    simp only [MainState.step] at taken
    split at taken
    · cases taken
    · cases taken
    · cases taken
    · simp only [Option.ite_none_left_eq_some, Option.some.injEq] at taken
      cases advanced : state.advance with
      | none =>
        rw [advanced] at taken
        cases taken.2
        rfl
      | some result =>
        rw [advanced] at taken
        cases taken.2
        exact advance_quiet state _ _ advanced exits

section Runs

variable {sfd : Nat} {trace : List (Happening × (Output ⊕ Syscall))} {program after : Aesdsocket}
variable {happening : Happening} {output : Output ⊕ Syscall}

theorem alive_of_step (taken : aesdsocket.step program happening = some (output, after)) :
    program.main.pc.exits = false := by
  cases happening with
  | main event =>
    simp only [aesdsocket, Aesdsocket.step, Option.ite_none_left_eq_some] at taken
    obtain ⟨_, mapped⟩ := taken
    obtain ⟨⟨said, next⟩, stepped, _⟩ := Option.map_eq_some_iff.mp mapped
    obtain ⟨_, _, alive, _⟩ := mainStep_cases stepped
    exact alive
  | handler id event =>
    obtain ⟨⟨call, next⟩, stepped, _⟩ := Option.map_eq_some_iff.mp taken
    obtain ⟨_, _, _, _, alive, _⟩ := handlerStep_cases stepped
    exact alive

/-- A step that ends the program is `cleanup`; with the last loop behind it there is no
client left whose socket could go by the number in `fd`. -/
theorem Consistent.last_closes (consistent : Consistent program) {event : MainEvent}
    {said : Output} {main : MainState} (stepped : program.main.step event = some (said, main))
    (may : program.mayHappen event = true) (exits : main.pc.exits = true)
    (next : after = (said.closes.foldl Aesdsocket.close
      (Aesdsocket.accept { program with main } said)).cleanup) :
    after = program.lastCloses.foldl Aesdsocket.close { program with main } ∧
      program.sockets program.sfd = some .listener ∧
        ∀ descriptor id, program.world.fd = some descriptor →
          program.sockets descriptor = some (.client id) → main.pc = .exited false := by
  obtain rfl := quiet_of_exits stepped exits
  have middle : Consistent { program with main } :=
    (consistent.main_step stepped may (by rintro _ ⟨⟩)).1
  refine ⟨next.trans (Aesdsocket.cleanup_eq _), consistent.disciplined.listener, ?_⟩
  intro descriptor id _ client
  cases pc : main.pc with
  | exited success =>
    cases success with
    | true => exact absurd client ((middle.ended pc).1 descriptor id)
    | false => rfl
  | _ =>
    rw [pc] at exits
    cases exits

/-- A step from a consistent state closes what the closer may close, leads to a
consistent state, or ends the program, with nothing left open when the end is graceful. -/
theorem whole_step (consistent : Consistent program)
    (taken : aesdsocket.step program happening = some (output, after)) :
    ClosesOwn program happening output after ∧
      (after.main.pc.exits = false → Consistent after) ∧
      (after.main.pc = .exited true → ∀ descriptor,
        after.sockets descriptor = none ∧ after.world.descriptors descriptor = none) := by
  cases happening with
  | main event =>
    simp only [aesdsocket, Aesdsocket.step, Option.ite_none_left_eq_some] at taken
    obtain ⟨_, mapped⟩ := taken
    obtain ⟨⟨said, next⟩, stepped, same⟩ := Option.map_eq_some_iff.mp mapped
    cases same
    obtain ⟨main, may, alive, moved, free, rfl⟩ := mainStep_cases stepped
    obtain ⟨middle, _⟩ := consistent.main_step moved may free
    refine ⟨⟨?_, ?_, ?_⟩, ?_, ?_⟩
    · intro output descriptor isMain closes
      cases isMain
      exact consistent.main_closes moved may free closes
    · intro id failed descriptor impossible
      cases impossible
    · intro ends
      have exits : main.pc.exits = true := by
        split at ends
        · assumption
        · rwa [Aesdsocket.after_main] at ends
      rw [if_pos exits, Aesdsocket.cleanup_main, Aesdsocket.after_main]
      exact consistent.last_closes moved may exits rfl
    · intro goesOn
      split at goesOn
      · rename_i exits
        rw [Aesdsocket.cleanup_main, Aesdsocket.after_main, exits] at goesOn
        cases goesOn
      · rename_i stays
        rw [if_neg stays]
        exact middle
    · intro exited
      have exits : main.pc = .exited true := by
        split at exited
        · rwa [Aesdsocket.cleanup_main, Aesdsocket.after_main] at exited
        · rwa [Aesdsocket.after_main] at exited
      rw [if_pos (by rw [exits]; rfl)]
      exact middle.swept (by rw [Aesdsocket.after_main]; exact exits)
  | handler id event =>
    obtain ⟨⟨call, next⟩, stepped, same⟩ := Option.map_eq_some_iff.mp taken
    cases same
    have kept := consistent.handler_step stepped
    obtain ⟨_, world, runs, _, alive, moved, rfl⟩ := handlerStep_cases stepped
    have stays := (consistent.completed runs (world.threads id)).2.2
    refine ⟨⟨?_, ?_, ?_⟩, fun _ => kept, ?_⟩
    · intro said descriptor impossible
      cases impossible
    · intro other failed descriptor isClose fd
      cases isClose
      have opened : program.world.zone id = .opened := own_zone moved
      exact (consistent.device opened fd).1
    · intro ends
      cases alive.symm.trans ((congrArg MainPc.exits stays).symm.trans ends)
    · intro exited
      rw [← stays, exited] at alive
      cases alive

theorem run_consistent (run : aesdsocket.Run (.start sfd) trace program) :
    (program.main.pc.exits = false → Consistent program) ∧
      (program.main.pc = .exited true → ∀ descriptor,
        program.sockets descriptor = none ∧ program.world.descriptors descriptor = none) := by
  refine run.invariant (fun program => (program.main.pc.exits = false → Consistent program) ∧
    (program.main.pc = .exited true → ∀ descriptor,
      program.sockets descriptor = none ∧ program.world.descriptors descriptor = none))
    ⟨fun _ => .start sfd, ?_⟩ ?_
  · intro exited
    cases exited
  · intro program happening output after ⟨consistent, _⟩ taken
    exact (whole_step (consistent (alive_of_step taken)) taken).2

/-- Only `open` gives `fd` a new value. -/
theorem share_fd {world shared : World} {id : Nat} {event : Event}
    (shares : world.share id event = some shared) :
    shared.fd = world.fd ∨ event = .openDevice shared.fd := by
  cases event with
  | openDevice result =>
    cases result with
    | none =>
      cases shares
      exact .inr rfl
    | some descriptor =>
      obtain ⟨_, same⟩ := Option.ite_none_right_eq_some.mp shares
      cases same
      exact .inr rfl
  | lock =>
    obtain ⟨_, same⟩ := Option.ite_none_right_eq_some.mp shares
    cases same
    exact .inl rfl
  | close failed =>
    simp only [World.share] at shares
    split at shares
    · cases shares
      exact .inl rfl
    · cases shares
      exact .inl rfl
  | _ =>
    cases shares
    exact .inl rfl

theorem after_fd (program : Aesdsocket) (said : Output) (main : MainState) :
    (program.after said main).world.fd = program.world.fd := by
  rw [Aesdsocket.after, (Aesdsocket.closeAll said.closes _).2.2.1]
  unfold Aesdsocket.accept
  split
  · rfl
  · rfl

theorem cleanup_fd (program : Aesdsocket) : program.cleanup.world.fd = program.world.fd := by
  rw [Aesdsocket.cleanup_eq, (Aesdsocket.closeAll program.lastCloses program).2.2.1]

theorem fd_step (taken : aesdsocket.step program happening = some (output, after)) :
    after.world.fd = program.world.fd ∨
      ∃ id, happening = .handler id (.openDevice after.world.fd) := by
  cases happening with
  | main event =>
    simp only [aesdsocket, Aesdsocket.step, Option.ite_none_left_eq_some] at taken
    obtain ⟨_, mapped⟩ := taken
    obtain ⟨⟨said, next⟩, stepped, same⟩ := Option.map_eq_some_iff.mp mapped
    cases same
    obtain ⟨main, _, _, _, _, rfl⟩ := mainStep_cases stepped
    left
    split
    · rw [cleanup_fd, after_fd]
    · rw [after_fd]
  | handler id event =>
    obtain ⟨⟨call, next⟩, stepped, same⟩ := Option.map_eq_some_iff.mp taken
    cases same
    obtain ⟨_, world, _, _, _, moved, rfl⟩ := handlerStep_cases stepped
    obtain ⟨shared, shares, _, fd, _⟩ := server_step moved
    rw [fd]
    rcases share_fd shares with kept | opens
    · exact .inl kept
    · exact .inr ⟨id, by rw [opens]⟩

/-- `fd` holds what it started with or what some turn got from `open`. -/
theorem fd_origin (run : aesdsocket.Run (.start sfd) trace program) {descriptor : Nat}
    (found : program.world.fd = some descriptor) :
    descriptor = 0 ∨ ∃ id said, (.handler id (.openDevice (some descriptor)), said) ∈ trace := by
  induction run with
  | start => exact .inl (Option.some.inj found).symm
  | next earlier taken ih =>
    rcases fd_step taken with kept | ⟨id, opens⟩
    · rcases ih (kept ▸ found) with zero | ⟨id, said, among⟩
      · exact .inl zero
      · exact .inr ⟨id, said, List.mem_append_left _ among⟩
    · rw [found] at opens
      exact .inr ⟨id, _, List.mem_append_right _ (List.mem_singleton.mpr (by rw [opens]))⟩

/-- In every run of the whole program, under every outcome of its calls and every
interleaving: the socket of a client is open as long as its handler runs; a handler in
the middle of its turn finds its own device descriptor behind the global `fd`, and no
socket, although numbers are used again; before the end nobody closes a descriptor of
somebody else; and when the program ends gracefully, nothing that it opened is left
open. What `cleanup` closes at the end besides the listening socket is the 0 that `fd`
starts with or the number of the last device descriptor, and that is the socket of a
client only where `accept` has failed. -/
theorem descriptors_disciplined (run : aesdsocket.Run (.start sfd) trace program) :
    (program.main.pc.exits = false → Disciplined program) ∧
      aesdsocket.EachStep (.start sfd) trace ClosesOwn ∧
      (∀ descriptor, program.world.fd = some descriptor → descriptor = 0 ∨
        ∃ id said, (.handler id (.openDevice (some descriptor)), said) ∈ trace) ∧
      (program.main.pc = .exited true → ∀ descriptor,
        program.sockets descriptor = none ∧ program.world.descriptors descriptor = none) := by
  obtain ⟨consistent, swept⟩ := run_consistent run
  refine ⟨fun alive => (consistent alive).disciplined, ?_, fun _ => fd_origin run, swept⟩
  intro past happening output before after _ passed taken
  exact (whole_step ((run_consistent passed).1 (alive_of_step taken)) taken).1

end Runs

/-- Two clients, the second accepted in the middle of a turn of the first, and a third
one that gets the socket number of the first when the signal is already there. -/
def threeClients : List Happening :=
  let handled := fun (id : Nat) (events : List Event) => events.map (Happening.handler id)
  let main := fun (steps : Nat) => List.replicate steps (Happening.main .main)
  main 1 ++ [.main (.accept (.connection 4 1))] ++ main 3 ++
    handled 0 [.callocRecv true, .checkExit false, .recv (some [107, newline]), .lock,
      .openDevice (some 5)] ++
    main 1 ++ [.main (.accept (.connection 6 2))] ++
    handled 0 [.write (some 2), .lseekEnd 2, .lseekSet 0, .callocSend true, .read (some []),
      .close false, .unlock false, .callocRecv true, .checkExit false, .recv none] ++
    [.main (.returns 0)] ++ main 11 ++ [.main (.accept (.connection 4 3)), .main .signal] ++
    main 5 ++ handled 2 [.callocRecv true] ++ main 4 ++
    handled 1 [.callocRecv true, .checkExit true, .unlockExit] ++
    handled 2 [.checkExit true, .unlockExit] ++
    [.main (.returns 2), .main (.returns 1)] ++ main 11

theorem threeClients_disciplined : ∃ trace program,
    aesdsocket.exec (.start 3) threeClients = some (trace, program) ∧
      aesdsocket.EachStep (.start 3) trace ClosesOwn ∧ ∀ descriptor,
        program.sockets descriptor = none ∧ program.world.descriptors descriptor = none := by
  obtain ⟨⟨trace, program⟩, computed, exited⟩ := (Option.any_eq_true _ _).mp
    (by decide +kernel : ((aesdsocket.exec (.start 3) threeClients).any fun result =>
      decide (result.2.main.pc = .exited true)) = true)
  obtain ⟨_, own, _, closed⟩ := descriptors_disciplined (.of_exec computed)
  exact ⟨trace, program, computed, own, closed (of_decide_eq_true exited)⟩

/-- The second client's socket gets the number that the device had in the first one's turn. -/
def numberTwice : List Happening :=
  let handled := fun (id : Nat) (events : List Event) => events.map (Happening.handler id)
  let main := fun (steps : Nat) => List.replicate steps (Happening.main .main)
  main 1 ++ [.main (.accept (.connection 4 1))] ++ main 4 ++
    handled 0 [.callocRecv true, .checkExit false, .recv (some [98, newline]), .lock,
      .openDevice (some 5), .write (some 2), .lseekEnd 2, .lseekSet 0, .callocSend true,
      .read (some []), .close false, .unlock false] ++
    [.main (.accept (.connection 5 2))] ++ main 6 ++ handled 1 [.callocRecv true]

-- when `accept` fails then, `cleanup` closes the socket of a handler that runs
example :
    ((aesdsocket.exec (.start 3) numberTwice).any fun result =>
      result.2.sockets 5 == some (.client 1)) ∧
    ((aesdsocket.exec (.start 3) (numberTwice ++ [.main (.accept .failed)])).any fun result =>
      result.2.sockets 5 == none && result.2.main.handlers[1]?.any fun handler =>
        !handler.returned) := by
  decide +kernel

end Aesd.Server
