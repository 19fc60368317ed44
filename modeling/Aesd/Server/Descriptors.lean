import Aesd.Server.Whole

namespace Aesd.Server

open Aesd.Library Aesd.Driver

/-- The table of device descriptors and the global `fd` agree. -/
structure Tabled (world : World) : Prop where
  own : ∀ id descriptor, world.zone id = .opened → world.fd = some descriptor →
    world.descriptors descriptor = some id
  global : ∀ descriptor id, world.descriptors descriptor = some id → world.fd = some descriptor

theorem tabled_start : Tabled World.start where
  own := by
    intro id descriptor opened
    cases opened
  global := by
    intro descriptor id opened
    cases opened

/-- A step that leaves the table and `fd` alone, and takes nobody into the opened part. -/
theorem Tabled.quiet {world after : World} (tabled : Tabled world) (fd : after.fd = world.fd)
    (descriptors : after.descriptors = world.descriptors)
    (zones : ∀ id, after.zone id = .opened → world.zone id = .opened) : Tabled after where
  own := by
    intro id descriptor opened found
    rw [descriptors]
    exact tabled.own id descriptor (zones id opened) (fd ▸ found)
  global := by
    intro descriptor id opened
    rw [fd]
    exact tabled.global descriptor id (descriptors ▸ opened)

section Step

variable {world after shared : World} {id : Nat} {event : Event} {call : Syscall}

theorem Tabled.opened {result : Option Nat} (shares : world.share id (.openDevice result) = some shared)
    (fd : after.fd = shared.fd) (descriptors : after.descriptors = shared.descriptors)
    (empty : ∀ descriptor, world.descriptors descriptor = none)
    (alone : ∀ other, other ≠ id → after.zone other ≠ .opened) : Tabled after := by
  cases result with
  | none =>
    obtain rfl := Option.some.inj shares
    constructor
    · intro other descriptor _ found
      cases fd.symm.trans found
    · intro descriptor other opened
      cases (empty descriptor).symm.trans (descriptors ▸ opened)
  | some descriptor =>
    obtain ⟨_, same⟩ := Option.ite_none_right_eq_some.mp shares
    obtain rfl := Option.some.inj same
    constructor
    · intro other number opened found
      obtain rfl : descriptor = number := Option.some.inj (fd.symm.trans found)
      have self : other = id := by
        by_contra apart
        exact alone other apart opened
      rw [descriptors, self]
      exact Function.update_self ..
    · intro number other opened
      rw [descriptors] at opened
      by_cases same : number = descriptor
      · rw [fd, same]
      · cases (empty number).symm.trans ((Function.update_of_ne same _ _).symm.trans opened)

/-- The number behind `fd` is closed, and no other one was the device's. -/
theorem Tabled.closed (tabled : Tabled world) {failed : Bool}
    (shares : world.share id (.close failed) = some shared) (fd : after.fd = shared.fd)
    (descriptors : after.descriptors = shared.descriptors) (now : after.zone id = .closed)
    (alone : ∀ other, other ≠ id → after.zone other ≠ .opened)
    (leaves : ∀ other, after.zone other = .opened → world.zone other = .opened) :
    Tabled after := by
  simp only [World.share] at shares
  split at shares
  · obtain rfl := Option.some.inj shares
    exact tabled.quiet fd descriptors leaves
  · rename_i global found
    obtain rfl := Option.some.inj shares
    have none : ∀ number other, after.descriptors number ≠ some other := by
      intro number other opened
      rw [descriptors] at opened
      by_cases same : number = global
      · subst same
        cases (Function.update_self ..).symm.trans opened
      · have earlier := (Function.update_of_ne same _ _).symm.trans opened
        exact same (Option.some.inj ((tabled.global number other earlier).symm.trans found))
    constructor
    · intro other number opened _
      by_cases self : other = id
      · rw [self, now] at opened
        cases opened
      · exact absurd opened (alone other self)
    · intro number other opened
      exact absurd opened (none number other)

theorem Tabled.step (tabled : Tabled world) (guarded : Guarded world)
    (taken : world.step (id, event) = some (call, after)) : Tabled after := by
  obtain ⟨shared, shares, _, fd, descriptors, zones, others⟩ := server_step taken
  generalize before : world.zone id = earlier at zones
  generalize now : after.zone id = later at zones
  have entering : ∀ {zone : Zone}, zone ≠ .opened ∨ earlier = .opened → later = zone →
      ∀ other, after.zone other = .opened → world.zone other = .opened := by
    intro zone cause same other opened
    by_cases self : other = id
    · subst self
      rcases cause with elsewhere | already
      · exact absurd (same.symm.trans (now.symm.trans opened)) elsewhere
      · exact before.trans already
    · rw [← others other self]
      exact opened
  -- while this thread is in the section, no other one is at its device
  have alone : earlier.inside = true → ∀ other, other ≠ id → after.zone other ≠ .opened := by
    intro inside other apart opened
    rw [others other apart] at opened
    exact apart (guarded.exclusive (by rw [opened]; rfl) (by rw [before]; exact inside))
  cases zones with
  | lock =>
    obtain ⟨_, same⟩ := Option.ite_none_right_eq_some.mp shares
    obtain rfl := Option.some.inj same
    exact tabled.quiet fd descriptors (entering (.inl Zone.noConfusion) rfl)
  | openDevice result =>
    have empty := guarded.nothing_open (by rw [before]; rfl)
      (by rw [before]; exact Zone.noConfusion)
    exact .opened shares fd descriptors empty (alone rfl)
  | close failed =>
    exact tabled.closed shares fd descriptors now (alone rfl) (entering (.inr rfl) rfl)
  | unlock | unlockReturn =>
    obtain rfl := Option.some.inj shares
    exact tabled.quiet fd descriptors (entering (.inl Zone.noConfusion) rfl)
  | leave leaves quiet =>
    rw [quiet] at shares
    obtain rfl := Option.some.inj shares
    exact tabled.quiet fd descriptors (entering (.inl Zone.noConfusion) rfl)
  | within zone stays quiet still =>
    rw [quiet] at shares
    obtain rfl := Option.some.inj shares
    refine tabled.quiet fd descriptors fun other opened => ?_
    by_cases self : other = id
    · subst self
      exact before.trans (now.symm.trans opened)
    · rw [← others other self]
      exact opened
  | quit quiet stays =>
    rw [quiet] at shares
    obtain rfl := Option.some.inj shares
    exact tabled.quiet fd descriptors (entering (.inl Zone.noConfusion) rfl)

end Step

section Main

variable {trace : List (MainEvent × Output)} {event : MainEvent} {output : Output}
variable {state after : MainState} {program : Aesdsocket} {ledger : Ledger}

/-- A step that accepts a connection does nothing to the others. -/
theorem quiet_of_accepted (serves : Serves state ledger)
    (taken : state.step event = some (output, after)) {connection : Connection}
    (new : output.accepted = some connection) : output.effects = [] := by
  cases event with
  | signal =>
    cases taken
    rfl
  | complete id =>
    simp only [MainState.step] at taken
    split at taken
    · rename_i threadData found
      obtain ⟨done, set, _⟩ := serves.setComplete found
      rw [set] at taken
      cases taken
      rfl
    · cases taken
  | returns id =>
    simp only [MainState.step] at taken
    split at taken
    · cases taken
      rfl
    · cases taken
  | accept result =>
    simp only [MainState.step, Option.ite_none_right_eq_some, Option.some.injEq] at taken
    obtain ⟨_, outcome⟩ := taken
    cases result with
    | again | failed | connection =>
      cases outcome
      rfl
  | main =>
    simp only [MainState.step] at taken
    split at taken
    · cases taken
    · cases taken
    · cases taken
    · rename_i waits goes _
      simp only [Option.ite_none_left_eq_some, Bool.not_eq_true] at taken
      obtain ⟨said, moved, next, advance, turned, _⟩ := serves.advance taken.1 goes waits
      rw [advance] at taken
      cases taken.2
      cases turned.accepted.symm.trans new

theorem mem_closes {descriptor : Nat} :
    descriptor ∈ output.closes ↔ ∃ node, Effect.closed node descriptor ∈ output.effects := by
  rw [Output.closes, List.mem_filterMap]
  constructor
  · rintro ⟨effect, among, found⟩
    cases effect with
    | closed node cfd =>
      obtain rfl := Option.some.inj found
      exact ⟨node, among⟩
    | _ => cases found
  · rintro ⟨node, among⟩
    exact ⟨_, among, rfl⟩

namespace Aesdsocket

theorem closeAll (descriptors : List Nat) (program : Aesdsocket) :
    (descriptors.foldl close program).main = program.main ∧
      (descriptors.foldl close program).sfd = program.sfd ∧
      (descriptors.foldl close program).world =
        { program.world with descriptors := fun descriptor =>
            if descriptor ∈ descriptors then none else program.world.descriptors descriptor } ∧
      ∀ descriptor, (descriptors.foldl close program).sockets descriptor =
        if descriptor ∈ descriptors then none else program.sockets descriptor := by
  induction descriptors generalizing program with
  | nil => simp
  | cons first rest ih =>
    obtain ⟨main, sfd, world, sockets⟩ := ih (program.close first)
    rw [List.foldl_cons]
    refine ⟨main, sfd, ?_, ?_⟩
    · rw [world]
      simp only [close, World.mk.injEq, true_and, and_true]
      funext descriptor
      by_cases same : descriptor = first
      · simp [same]
      · simp [same]
    · intro descriptor
      rw [sockets]
      by_cases same : descriptor = first
      · simp [close, same]
      · simp [close, same]

end Aesdsocket

/-- The sockets that are open are those of the connections that were accepted and not
closed, and the one that listens. -/
structure Connected (trace : List (MainEvent × Output)) (program : Aesdsocket) : Prop where
  listener : ∀ descriptor,
    program.sockets descriptor = some .listener ↔ descriptor = program.sfd
  client : ∀ descriptor id, program.sockets descriptor = some (.client id) ↔
    ∃ connection ∈ accepted trace, connection.cfd = descriptor ∧ connection.handler = id ∧
      Effect.closed connection.node connection.cfd ∉ effects trace

theorem closed_mem_script (connection : Connection) :
    Effect.closed connection.node connection.cfd ∈ connection.script := by
  simp [Connection.script]

theorem distinct_accepted (run : acceptLoop.Run .start trace state) : Distinct (accepted trace) := by
  obtain ⟨ledger, books, serves⟩ := run_serving run
  exact serves.distinct.perm books.accepted.symm

theorem nodup_effects (run : acceptLoop.Run .start trace state) : (effects trace).Nodup := by
  obtain ⟨ledger, books, serves⟩ := run_serving run
  exact books.effects ▸ serves.nodup_done

theorem effect_belongs (run : acceptLoop.Run .start trace state) {effect : Effect}
    (done : effect ∈ effects trace) : ∃ connection ∈ accepted trace, effect ∈ connection.script := by
  obtain ⟨ledger, books, serves⟩ := run_serving run
  rw [books.effects] at done
  rcases ledger.mem_done done with ⟨reaped, finished, among⟩ | ⟨inHand, current, among⟩
  · exact ⟨reaped, books.accepted.mem_iff.mpr (ledger.mem_all_iff.mpr (.inl finished)), among⟩
  · exact ⟨inHand, books.accepted.mem_iff.mpr (ledger.inHand_mem_all current),
      List.mem_of_mem_take among⟩

/-- What `main` has just closed is the open socket of a connection of its own. -/
theorem Connected.closes (connected : Connected trace program)
    (run : acceptLoop.Run .start (trace ++ [(event, output)]) after)
    (quiet : output.accepted = none) {descriptor : Nat} (closes : descriptor ∈ output.closes) :
    ∃ connection ∈ accepted trace, connection.cfd = descriptor ∧
      Effect.closed connection.node connection.cfd ∈ output.effects ∧
        program.sockets descriptor = some (.client connection.handler) := by
  have once := nodup_effects run
  rw [effects_append_singleton] at once
  obtain ⟨node, among⟩ := mem_closes.mp closes
  have done : Effect.closed node descriptor ∈ effects (trace ++ [(event, output)]) := by
    rw [effects_append_singleton]
    exact List.mem_append_right _ among
  obtain ⟨connection, member, inScript⟩ := effect_belongs run done
  obtain ⟨rfl, rfl⟩ : node = connection.node ∧ descriptor = connection.cfd := by
    simpa [Connection.script] using inScript
  rw [accepted_append_singleton, quiet, Option.toList_none, List.append_nil] at member
  refine ⟨connection, member, rfl, among, ?_⟩
  refine (connected.client _ _).mpr ⟨connection, member, rfl, rfl, fun before => ?_⟩
  exact (List.disjoint_of_nodup_append once) before among

theorem Connected.accepts (connected : Connected trace program)
    (run : acceptLoop.Run .start (trace ++ [(event, output)]) after) {connection : Connection}
    (new : output.accepted = some connection) (nothing : output.effects = [])
    (free : program.sockets connection.cfd = none) (main : MainState) :
    Connected (trace ++ [(event, output)])
      (Aesdsocket.accept { program with main } output) := by
  have whole : accepted (trace ++ [(event, output)]) = accepted trace ++ [connection] := by
    rw [accepted_append_singleton, new]
    rfl
  have same : effects (trace ++ [(event, output)]) = effects trace := by
    rw [effects_append_singleton, nothing, List.append_nil]
  have distinct := whole ▸ distinct_accepted run
  obtain ⟨state, earlier, _⟩ := run.last
  have unclosed : Effect.closed connection.node connection.cfd ∉ effects trace := by
    intro closed
    obtain ⟨other, member, inScript⟩ := effect_belongs earlier closed
    obtain rfl := distinct.effect (List.mem_append_left _ member)
      (List.mem_append_right _ (List.mem_singleton_self _)) inScript (closed_mem_script _)
    exact (List.disjoint_of_nodup_append distinct.nodup) member (List.mem_singleton_self _)
  have sockets : (Aesdsocket.accept { program with main } output).sockets =
      Function.update program.sockets connection.cfd (some (.client connection.handler)) := by
    simp only [Aesdsocket.accept, new]
  have sfd : (Aesdsocket.accept { program with main } output).sfd = program.sfd := by
    simp only [Aesdsocket.accept, new]
  constructor
  · intro descriptor
    rw [sockets, sfd, ← connected.listener descriptor]
    by_cases mine : descriptor = connection.cfd
    · subst mine
      simp [free]
    · rw [Function.update_of_ne mine]
  · intro descriptor id
    rw [whole, same, sockets]
    by_cases mine : descriptor = connection.cfd
    · subst mine
      rw [Function.update_self]
      constructor
      · intro found
        obtain rfl : connection.handler = id := by simpa using found
        exact ⟨connection, List.mem_append_right _ (List.mem_singleton_self _), rfl, rfl, unclosed⟩
      · rintro ⟨other, member, sameCfd, rfl, stillOpen⟩
        rcases List.mem_append.mp member with old | new
        · have taken := (connected.client _ _).mpr ⟨other, old, sameCfd, rfl, stillOpen⟩
          rw [free] at taken
          cases taken
        · rw [List.mem_singleton.mp new]
    · rw [Function.update_of_ne mine, connected.client]
      constructor
      · rintro ⟨other, member, rest⟩
        exact ⟨other, List.mem_append_left _ member, rest⟩
      · rintro ⟨other, member, sameCfd, rest⟩
        rcases List.mem_append.mp member with old | new
        · exact ⟨other, old, sameCfd, rest⟩
        · rw [List.mem_singleton.mp new] at sameCfd
          exact absurd sameCfd.symm mine

theorem Connected.reaps (connected : Connected trace program)
    (run : acceptLoop.Run .start (trace ++ [(event, output)]) after)
    (quiet : output.accepted = none) (main : MainState) :
    Connected (trace ++ [(event, output)])
      (output.closes.foldl Aesdsocket.close { program with main }) := by
  have whole : accepted (trace ++ [(event, output)]) = accepted trace := by
    rw [accepted_append_singleton, quiet, Option.toList_none, List.append_nil]
  have distinct := whole ▸ distinct_accepted run
  obtain ⟨_, sfd, _, sockets⟩ :=
    Aesdsocket.closeAll output.closes { program with main }
  constructor
  · intro descriptor
    rw [sockets, sfd, ← connected.listener descriptor]
    split
    · rename_i closes
      obtain ⟨connection, _, _, _, client⟩ := connected.closes run quiet closes
      rw [client]
      simp
    · rfl
  · intro descriptor id
    rw [whole, effects_append_singleton, sockets]
    split
    · rename_i closes
      obtain ⟨connection, member, sameCfd, among, client⟩ := connected.closes run quiet closes
      refine iff_of_false (by simp) ?_
      rintro ⟨other, otherMember, otherCfd, rfl, unclosed⟩
      have alsoOpen := (connected.client descriptor other.handler).mpr
        ⟨other, otherMember, otherCfd, rfl, fun early => unclosed (List.mem_append_left _ early)⟩
      have sameHandler : connection.handler = other.handler := by
        simpa using client.symm.trans alsoOpen
      obtain rfl := distinct.handler connection member other otherMember sameHandler
      exact unclosed (List.mem_append_right _ among)
    · rename_i still
      rw [connected.client]
      constructor
      · rintro ⟨connection, member, rfl, rfl, unclosed⟩
        refine ⟨connection, member, rfl, rfl, fun closed => ?_⟩
        rcases List.mem_append.mp closed with early | late
        · exact unclosed early
        · exact still (mem_closes.mpr ⟨_, late⟩)
      · rintro ⟨connection, member, sameCfd, sameId, unclosed⟩
        exact ⟨connection, member, sameCfd, sameId,
          fun early => unclosed (List.mem_append_left _ early)⟩

end Main

end Aesd.Server
