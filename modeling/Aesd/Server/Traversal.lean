import Aesd.Server.Ledger

namespace Aesd.Server

open Aesd.Library

/-- How the ledger is carried on over a step that accepts nothing. -/
structure Turned (pc : MainPc) (ledger : Ledger) (output : Output) (moved : MainPc)
    (next : Ledger) : Prop where
  accepted : output.accepted = none
  all : ledger.all.Perm next.all
  effects : next.done moved = ledger.done pc ++ output.effects

/-- The next step of `main` is taken and leaves another ledger in order. -/
def Advances (state : MainState) (ledger : Ledger) : Prop :=
  ∃ output after next, state.advance = some (output, after) ∧
    Turned state.pc ledger output after.pc next ∧ Serves after next

section Steps

variable {state after : MainState} {ledger next : Ledger} {connection : Connection}
variable {trace : List (MainEvent × Output)} {event : MainEvent} {output : Output}

theorem accepted_append_singleton (trace : List (MainEvent × Output)) (event : MainEvent)
    (output : Output) :
    accepted (trace ++ [(event, output)]) = accepted trace ++ output.accepted.toList := by
  rw [accepted, List.filterMap_append, accepted]
  cases found : output.accepted <;> simp [found]

theorem effects_append_singleton (trace : List (MainEvent × Output)) (event : MainEvent)
    (output : Output) : effects (trace ++ [(event, output)]) = effects trace ++ output.effects := by
  simp [effects]

theorem Books.turned {moved : MainPc} (books : Books trace state.pc ledger)
    (turned : Turned state.pc ledger output moved next) :
    Books (trace ++ [(event, output)]) moved next where
  accepted := by
    rw [accepted_append_singleton, turned.accepted, Option.toList_none, List.append_nil]
    exact books.accepted.trans turned.all
  effects := by
    rw [effects_append_singleton, books.effects]
    exact turned.effects.symm

theorem Serves.advance_loopHead (serves : Serves state ledger) (here : state.pc = .loopHead) :
    Advances state ledger := by
  have standing := serves.standing
  obtain ⟨finished, passed, current, rest⟩ := ledger
  simp only [Standing, here] at standing
  subst standing
  have head := serves.head_eq
  cases asked : state.gracefullyExit with
  | true =>
    refine ⟨.quiet, state.foreach .ask, ⟨finished, [], none, passed ++ rest⟩, ?_, ⟨rfl, ?_, ?_⟩, ?_⟩
    · simp [MainState.advance, here, asked]
    · exact .refl _
    · simp [Ledger.done, Output.quiet]
    · refine serves.moved rfl rfl rfl rfl rfl ?_ ?_ ⟨rfl, ?_⟩
      · rw [here]; rfl
      · rw [here]; rfl
      · rw [here] at head
        exact head
  | false =>
    refine ⟨.quiet, { state with pc := .accept }, ⟨finished, passed, none, rest⟩, ?_,
      ⟨rfl, .refl _, ?_⟩, ?_⟩
    · simp [MainState.advance, here, asked]
    · simp [Ledger.done, Output.quiet]
    · refine serves.moved rfl rfl rfl rfl rfl ?_ ?_ rfl
      · rw [here]; rfl
      · rw [here]; rfl

theorem Serves.advance_visit {final : Bool} (serves : Serves state ledger)
    (here : state.pc = .visit final) : Advances state ledger := by
  have standing := serves.standing
  obtain ⟨finished, passed, current, rest⟩ := ledger
  simp only [Standing, here] at standing
  obtain ⟨rfl, node, last⟩ := standing
  cases rest with
  | nil =>
    refine ⟨.quiet, { state with pc := if final then .exited true else .loopHead },
      ⟨finished, passed, none, []⟩, ?_, ⟨rfl, .refl _, ?_⟩, ?_⟩
    · simp [MainState.advance, here, node, firstNode]
    · simp [Ledger.done, Output.quiet]
    · refine serves.moved rfl rfl rfl rfl rfl ?_ ?_ ?_
      · rw [here]; cases final <;> rfl
      · rw [here]; cases final <;> rfl
      · cases final with
        | true => exact ⟨rfl, last rfl, rfl⟩
        | false => exact rfl
  | cons connection rest =>
    have link : slistNext state.heap connection.node = some (firstNode rest) :=
      serves.link passed rest (by rw [here]; rfl)
    refine ⟨.quiet, { state with
        tempNode := firstNode rest, pc := if final then .join true else .test },
      ⟨finished, passed, some connection, rest⟩, ?_, ⟨rfl, .refl _, ?_⟩, ?_⟩
    · simp [MainState.advance, here, node, firstNode, link]
    · cases final <;> simp [Ledger.done, Output.quiet, MainPc.performed]
    · have inHand : ∀ pc, InHand { state with tempNode := firstNode rest, pc }
          ⟨finished, passed, some connection, rest⟩ := fun _ => ⟨connection, rfl, node, rfl⟩
      refine serves.moved rfl rfl rfl rfl rfl ?_ ?_ ?_
      · rw [here]; cases final <;> rfl
      · rw [here]; cases final <;> rfl
      · cases final with
        | true => exact ⟨inHand _, fun _ => last rfl⟩
        | false => exact inHand _

theorem Serves.advance_test (serves : Serves state ledger) (here : state.pc = .test) :
    Advances state ledger := by
  have standing := serves.standing
  simp only [Standing, here] at standing
  obtain ⟨connection, current, node, next, holds⟩ := serves.inHand standing
  obtain ⟨finished, passed, _, rest⟩ := ledger
  obtain rfl : _ = some connection := current
  obtain ⟨_, data⟩ := holds.readNode
  obtain ⟨complete, exit, threadData⟩ := holds.readThreadData
  cases complete with
  | true =>
    refine ⟨.quiet, { state with pc := .join false }, ⟨finished, passed, some connection, rest⟩, ?_,
      ⟨rfl, .refl _, ?_⟩, ?_⟩
    · simp [MainState.advance, here, node, data, threadData]
    · simp [Ledger.done, Output.quiet, here, MainPc.performed]
    · refine serves.moved rfl rfl rfl rfl rfl ?_ ?_ ⟨standing, nofun⟩
      · rw [here]; rfl
      · rw [here]; rfl
  | false =>
    have same : ∀ kept, (⟨finished, passed ++ [connection], none, rest⟩ : Ledger).list kept =
        (⟨finished, passed, some connection, rest⟩ : Ledger).list true := by
      intro kept
      cases kept <;> simp [Ledger.list]
    refine ⟨.quiet, { state with node := state.tempNode, pc := .visit false },
      ⟨finished, passed ++ [connection], none, rest⟩, ?_, ⟨rfl, ?_, ?_⟩, ?_⟩
    · simp [MainState.advance, here, node, data, threadData]
    · rw [Ledger.all, Ledger.all, same]
    · simp [Ledger.done, Output.quiet, here, MainPc.performed]
    · refine serves.moved rfl rfl rfl rfl (same _) ?_ ?_ ⟨rfl, next, nofun⟩
      · rw [here]; exact same _
      · rw [here]; exact same _

theorem Serves.advance_join {final : Bool} (serves : Serves state ledger)
    (here : state.pc = .join final) (ready : state.waits = false) : Advances state ledger := by
  have standing := serves.standing
  simp only [Standing, here] at standing
  obtain ⟨inHand, last⟩ := standing
  obtain ⟨connection, current, node, next, holds⟩ := serves.inHand inHand
  obtain ⟨finished, passed, _, rest⟩ := ledger
  obtain rfl : _ = some connection := current
  obtain ⟨_, data⟩ := holds.readNode
  have thread := holds.readThread
  have member : connection ∈ (⟨finished, passed, some connection, rest⟩ : Ledger).all :=
    Ledger.mem_all _ true (List.mem_append_right _ List.mem_cons_self)
  refine ⟨⟨none, [.joined connection.handler, .logged connection.node connection.clientAddr]⟩,
    { state with pc := .close final }, ⟨finished, passed, some connection, rest⟩, ?_,
    ⟨rfl, .refl _, ?_⟩, ?_⟩
  · simp [MainState.advance, here, node, data, thread]
  · simp [Ledger.done, here, MainPc.performed, Connection.script]
  · have chain := serves.chain
    rw [here] at chain
    refine ⟨serves.distinct, serves.old, serves.started, ?_, chain, serves.holds, serves.releases,
      inHand, last⟩
    intro id data' found
    obtain ⟨other, among, handler, same⟩ := serves.running id data' found
    rw [here] at among
    refine ⟨other, ?_, handler, same⟩
    rcases List.mem_append.mp among with earlier | later
    · exact List.mem_append_left _ earlier
    · rcases List.mem_cons.mp later with inHand | ahead
      · -- its thread has returned
        exfalso
        subst inHand
        rw [← handler] at found
        simp [MainState.waits, here, node, data, thread, found] at ready
      · exact List.mem_append_right _ ahead

theorem Serves.advance_close {final : Bool} (serves : Serves state ledger)
    (here : state.pc = .close final) : Advances state ledger := by
  have standing := serves.standing
  simp only [Standing, here] at standing
  obtain ⟨inHand, last⟩ := standing
  obtain ⟨connection, current, node, next, holds⟩ := serves.inHand inHand
  obtain ⟨finished, passed, _, rest⟩ := ledger
  obtain rfl : _ = some connection := current
  obtain ⟨_, data⟩ := holds.readNode
  obtain ⟨_, _, threadData⟩ := holds.readThreadData
  refine ⟨⟨none, [.closed connection.node connection.cfd]⟩, { state with pc := .remove final },
    ⟨finished, passed, some connection, rest⟩, ?_, ⟨rfl, .refl _, ?_⟩, ?_⟩
  · simp [MainState.advance, here, node, data, threadData]
  · simp [Ledger.done, here, MainPc.performed, Connection.script]
  · refine serves.moved rfl rfl rfl rfl rfl ?_ ?_ ⟨inHand, last⟩
    · rw [here]; rfl
    · rw [here]; rfl

theorem Serves.advance_remove {final : Bool} (serves : Serves state ledger)
    (here : state.pc = .remove final) : Advances state ledger := by
  have standing := serves.standing
  simp only [Standing, here] at standing
  obtain ⟨inHand, last⟩ := standing
  obtain ⟨connection, current, node, next, _⟩ := serves.inHand inHand
  obtain ⟨finished, passed, _, rest⟩ := ledger
  obtain rfl : _ = some connection := current
  have chain := serves.chain
  rw [here] at chain
  cases passed with
  | nil =>
    -- the connection is the first of the list
    obtain ⟨head, following, link, later⟩ := chain
    refine ⟨⟨none, [.removed connection.node]⟩,
      { state with head := following, pc := .free final },
      ⟨finished, [], some connection, rest⟩, ?_, ⟨rfl, .refl _, ?_⟩, ?_⟩
    · simp [MainState.advance, here, node, head, link]
    · simp [Ledger.done, here, MainPc.performed, Connection.script]
    · have running := serves.running
      rw [here] at running
      exact ⟨serves.distinct, serves.old, serves.started, running, later, serves.holds,
        serves.releases, inHand, last⟩
  | cons first others =>
    have head : state.head = some first.node := chain.1
    have different : first.node ≠ connection.node := by
      have place : ((⟨finished, first :: others, some connection, rest⟩ : Ledger).list
          (!MainPc.unlinked (.remove final))).map Connection.node = [] ++ first.node ::
            (others.map Connection.node ++ connection.node :: rest.map Connection.node) := by
        simp [Ledger.list, MainPc.unlinked]
      rw [place] at chain
      exact chain.ne
    refine ⟨.quiet, { state with curelm := state.head, pc := .walk final },
      ⟨finished, first :: others, some connection, rest⟩, ?_, ⟨rfl, .refl _, ?_⟩, ?_⟩
    · simp [MainState.advance, here, node, head, different]
    · simp [Ledger.done, here, MainPc.performed, Output.quiet]
    · refine serves.moved rfl rfl rfl rfl rfl ?_ ?_
        ⟨inHand, last, first, List.mem_cons_self, head⟩
      · rw [here]; rfl
      · rw [here]; rfl

theorem Serves.advance_walk {final : Bool} (serves : Serves state ledger)
    (here : state.pc = .walk final) : Advances state ledger := by
  have standing := serves.standing
  simp only [Standing, here] at standing
  obtain ⟨inHand, last, previous, among, curelm⟩ := standing
  obtain ⟨connection, current, node, next, _⟩ := serves.inHand inHand
  obtain ⟨finished, passed, _, rest⟩ := ledger
  obtain rfl : _ = some connection := current
  obtain ⟨earlier, between, rfl⟩ := List.append_of_mem among
  have chain := serves.chain
  rw [here] at chain
  cases between with
  | nil =>
    -- the node before the connection is found
    have place : ((⟨finished, earlier ++ [previous], some connection, rest⟩ : Ledger).list
        (!MainPc.unlinked (.walk final))).map Connection.node =
          earlier.map Connection.node ++ previous.node :: connection.node ::
            rest.map Connection.node := by
      simp [Ledger.list, MainPc.unlinked]
    rw [place] at chain
    have toConnection : slistNext state.heap previous.node = some (some connection.node) :=
      chain.link
    have toRest : slistNext state.heap connection.node = some (firstNode rest) := by
      rw [List.append_cons] at chain
      exact chain.link
    have member : previous ∈ (⟨finished, earlier ++ [previous], some connection, rest⟩ :
        Ledger).list true := by
      simp [Ledger.list]
    obtain ⟨link, cell⟩ := (serves.holds previous member).node
    have live : state.heap.live previous.node := by rw [Heap.live, cell]; rfl
    have data : readNode state.heap previous.node =
        some ⟨previous.thread, previous.threadData, previous.clientAddr, link⟩ := by
      rw [readNode, cell]
    refine ⟨⟨none, [.removed connection.node]⟩, { state with
        heap := state.heap.store previous.node [.slistData
          ⟨previous.thread, previous.threadData, previous.clientAddr, firstNode rest⟩]
        pc := .free final },
      ⟨finished, earlier ++ [previous], some connection, rest⟩, ?_, ⟨rfl, .refl _, ?_⟩, ?_⟩
    · simp [MainState.advance, here, node, curelm, toConnection, slistRemoveAfter, toRest,
        setSlistNext, data]
    · simp [Ledger.done, here, MainPc.performed, Connection.script]
    · have running := serves.running
      rw [here] at running
      refine ⟨serves.distinct, serves.old, serves.started, running, ?_, ?_, serves.releases,
        inHand, last⟩
      · have list : ((⟨finished, earlier ++ [previous], some connection, rest⟩ : Ledger).list
            (!MainPc.unlinked (.free final))).map Connection.node =
              earlier.map Connection.node ++ previous.node :: rest.map Connection.node := by
          simp [Ledger.list, MainPc.unlinked]
        rw [list]
        refine chain.removeAfter ?_ fun other different => ?_
        · rw [slistNext, readNode, Heap.store_cells_self _ live]
          rfl
        · exact slistNext_congr (Heap.store_cells_of_ne _ _ different)
      · intro other held
        exact (serves.holds other held).store cell rfl
  | cons following between =>
    have place : ((⟨finished, earlier ++ previous :: following :: between, some connection, rest⟩ :
        Ledger).list (!MainPc.unlinked (.walk final))).map Connection.node =
          earlier.map Connection.node ++ previous.node :: following.node ::
            (between.map Connection.node ++ connection.node :: rest.map Connection.node) := by
      simp [Ledger.list, MainPc.unlinked]
    rw [place] at chain
    have toFollowing : slistNext state.heap previous.node = some (some following.node) :=
      chain.link
    have different : following.node ≠ connection.node := by
      rw [List.append_cons] at chain
      exact chain.ne
    refine ⟨.quiet, { state with curelm := some following.node },
      ⟨finished, earlier ++ previous :: following :: between, some connection, rest⟩, ?_,
      ⟨rfl, .refl _, ?_⟩, ?_⟩
    · simp [MainState.advance, here, node, curelm, toFollowing, different]
    · simp [Ledger.done, Output.quiet]
    · refine serves.moved rfl rfl rfl rfl rfl rfl rfl ?_
      simp only [Standing, here]
      exact ⟨inHand, last, following, by simp, rfl⟩

theorem Serves.advance_free {final : Bool} (serves : Serves state ledger)
    (here : state.pc = .free final) : Advances state ledger := by
  have standing := serves.standing
  simp only [Standing, here] at standing
  obtain ⟨inHand, last⟩ := standing
  obtain ⟨connection, current, node, next, holds⟩ := serves.inHand inHand
  obtain ⟨finished, passed, _, rest⟩ := ledger
  obtain rfl : _ = some connection := current
  obtain ⟨_, data⟩ := holds.readNode
  obtain ⟨_, _, threadData⟩ := holds.readThreadData
  have all : (⟨finished, passed, some connection, rest⟩ : Ledger).all.Perm
      (⟨finished ++ [connection], passed, none, rest⟩ : Ledger).all := by
    simp only [Ledger.all, Ledger.list, Option.toList_some, Option.toList_none, ↓reduceIte,
      List.nil_append, List.append_assoc]
    refine List.Perm.append_left finished ?_
    exact List.perm_middle
  have member : connection ∈ (⟨finished, passed, some connection, rest⟩ : Ledger).all :=
    Ledger.mem_all _ true (List.mem_append_right _ List.mem_cons_self)
  have kept : ∀ other ∈ passed ++ rest, ∀ block ∈ other.blocks,
      (state.heap.freeAll connection.blocks).cells block = state.heap.cells block :=
    fun other among block inside =>
      Heap.freeAll_cells_of_notMem _ (serves.distinct.apart among inside)
  refine ⟨.quiet, { state with
      heap := state.heap.freeAll connection.blocks, node := state.tempNode, pc := .visit final },
    ⟨finished ++ [connection], passed, none, rest⟩, ?_, ⟨rfl, all, ?_⟩, ?_⟩
  · simp [MainState.advance, MainState.release, here, node, data, threadData, Connection.blocks]
  · simp [Ledger.done, here, MainPc.performed, Connection.script, Output.quiet]
  · have chain := serves.chain
    have running := serves.running
    rw [here] at chain running
    constructor
    · exact serves.distinct.perm all
    · intro other among
      rw [Heap.freeAll_next]
      exact serves.old other (all.mem_iff.mpr among)
    · exact fun other among => serves.started other (all.mem_iff.mpr among)
    · exact running
    · refine chain.congr fun visited among => ?_
      obtain ⟨other, held, rfl⟩ := List.mem_map.mp among
      exact slistNext_congr (kept other held other.node (by simp [Connection.blocks]))
    · intro other held
      refine (serves.holds other ?_).congr (kept other held)
      exact Ledger.mem_list ⟨finished, passed, some connection, rest⟩ false held
    · rw [Heap.freeAll_releases _ (serves.distinct.blocks connection member) holds.live,
        serves.releases]
      simp [Connection.frees]
    · exact ⟨rfl, next, last⟩

theorem Serves.advance_ask (serves : Serves state ledger) (here : state.pc = .ask) :
    Advances state ledger := by
  have standing := serves.standing
  obtain ⟨finished, passed, current, rest⟩ := ledger
  simp only [Standing, here] at standing
  obtain ⟨rfl, node⟩ := standing
  cases rest with
  | nil =>
    have head := serves.head_eq
    rw [here] at head
    refine ⟨.quiet, state.foreach (.visit true), ⟨finished, [], none, passed ++ []⟩, ?_,
      ⟨rfl, .refl _, ?_⟩, ?_⟩
    · simp [MainState.advance, here, node, firstNode]
    · simp [Ledger.done, Output.quiet]
    · refine serves.moved rfl rfl rfl rfl rfl ?_ ?_ ⟨rfl, head, fun _ => rfl⟩
      · rw [here]; rfl
      · rw [here]; rfl
  | cons connection rest =>
    have link : slistNext state.heap connection.node = some (firstNode rest) :=
      serves.link passed rest (by rw [here]; rfl)
    have holds := serves.holds connection (List.mem_append_right _ List.mem_cons_self)
    obtain ⟨_, data⟩ := holds.readNode
    obtain ⟨complete, exit, threadData⟩ := holds.readThreadData
    obtain ⟨_, _, cell⟩ := holds.threadData
    have mutex := holds.readMutex
    have stored := @Serves.store_threadData _ _ serves _ _
      ⟨connection.mutexExit, connection.cfd, complete, true⟩ cell rfl
    have same : ∀ kept, (⟨finished, passed ++ [connection], none, rest⟩ : Ledger).list kept =
        (⟨finished, passed, none, connection :: rest⟩ : Ledger).list kept := by
      intro kept
      cases kept <;> simp [Ledger.list]
    refine ⟨.quiet, { state with
        heap := state.heap.store connection.threadData
          [.threadData ⟨connection.mutexExit, connection.cfd, complete, true⟩]
        node := firstNode rest },
      ⟨finished, passed ++ [connection], none, rest⟩, ?_, ⟨rfl, ?_, ?_⟩, ?_⟩
    · simp [MainState.advance, here, node, firstNode, data, threadData, mutex,
        slistNext_store_threadData cell, link]
    · rw [Ledger.all, Ledger.all, same]
    · simp [Ledger.done, Output.quiet]
    · refine stored.moved rfl rfl rfl rfl (same _) (same _) (same _) ?_
      simp [Standing, here]

/-- The connection that `main` makes of an accepted socket. -/
def MainState.fresh (state : MainState) (cfd : Nat) (clientAddr : UInt32) : Connection :=
  ⟨state.heap.next, state.heap.next + 1, state.heap.next + 2, state.heap.next + 3,
    state.handlers.length, cfd, clientAddr⟩

/-- The memory behind a new connection: four new blocks, and nothing else changes. -/
theorem serve_heap (state : MainState) (cfd : Nat) (clientAddr : UInt32) :
    (state.serve cfd clientAddr).1 = ⟨some (state.fresh cfd clientAddr), []⟩ ∧
      Holds (state.serve cfd clientAddr).2.heap (state.fresh cfd clientAddr) ∧
      slistNext (state.serve cfd clientAddr).2.heap (state.fresh cfd clientAddr).node =
        some state.head ∧
      (state.serve cfd clientAddr).2.heap.next = state.heap.next + 4 ∧
      (state.serve cfd clientAddr).2.heap.releases = state.heap.releases ∧
      ∀ block < state.heap.next,
        (state.serve cfd clientAddr).2.heap.cells block = state.heap.cells block := by
  refine ⟨rfl, ⟨⟨state.head, ?_⟩, ⟨false, false, ?_⟩, ?_, ?_⟩, ?_, rfl, rfl, ?_⟩
  · simp [MainState.serve, MainState.fresh, Heap.alloc, Heap.store]
  · simp (disch := omega) [MainState.serve, MainState.fresh, Heap.alloc, Heap.store,
      Function.update_of_ne]
  · simp [MainState.serve, MainState.fresh, Heap.alloc, Heap.store]
  · simp [MainState.serve, MainState.fresh, Heap.alloc, Heap.store]
  · simp [MainState.serve, MainState.fresh, Heap.alloc, Heap.store, slistNext, readNode]
  · intro block old
    simp (disch := omega) [MainState.serve, Heap.alloc, Heap.store, Function.update_of_ne]

/-- Wherever `main` is, its next step reads through no freed pointer. -/
theorem Serves.advance (serves : Serves state ledger) (ready : state.waits = false)
    (goes : ∀ success, state.pc ≠ .exited success) (waits : state.pc ≠ .accept) :
    Advances state ledger := by
  cases here : state.pc with
  | loopHead => exact serves.advance_loopHead here
  | accept => exact absurd here waits
  | visit final => exact serves.advance_visit here
  | test => exact serves.advance_test here
  | join final => exact serves.advance_join here ready
  | close final => exact serves.advance_close here
  | remove final => exact serves.advance_remove here
  | walk final => exact serves.advance_walk here
  | free final => exact serves.advance_free here
  | ask => exact serves.advance_ask here
  | exited success => exact absurd here (goes success)
  | crashed =>
    have standing := serves.standing
    rw [Standing, here] at standing
    exact standing.elim

/-- A new connection becomes the first of the list. -/
theorem Serves.serve (serves : Serves state ledger) (here : state.pc = .accept) (cfd : Nat)
    (clientAddr : UInt32) :
    ∃ next, next.all.Perm (ledger.all ++ [state.fresh cfd clientAddr]) ∧
      next.done (.visit false) = ledger.done state.pc ∧
      Serves (state.serve cfd clientAddr).2 next := by
  have standing := serves.standing
  obtain ⟨finished, passed, current, rest⟩ := ledger
  simp only [Standing, here] at standing
  subst standing
  obtain ⟨_, holds, link, size, releases, same⟩ := serve_heap state cfd clientAddr
  have all : (⟨finished, [], none, state.fresh cfd clientAddr :: (passed ++ rest)⟩ : Ledger).all.Perm
      (state.fresh cfd clientAddr :: (⟨finished, passed, none, rest⟩ : Ledger).all) :=
    List.perm_middle
  have older : ∀ other ∈ (⟨finished, passed, none, rest⟩ : Ledger).list true,
      ∀ block ∈ other.blocks, block < state.heap.next :=
    fun other member => serves.old other (Ledger.mem_all _ true member)
  refine ⟨⟨finished, [], none, state.fresh cfd clientAddr :: (passed ++ rest)⟩,
    all.trans (List.perm_append_singleton _ _).symm, by simp [Ledger.done], ?_⟩
  constructor
  · refine Distinct.perm (serves.distinct.cons ?_ ?_ ?_) all.symm
    · simp [Connection.blocks, MainState.fresh]
    · intro other member block inside fresh
      have before := serves.old other member block inside
      simp only [Connection.blocks, MainState.fresh, List.mem_cons, List.not_mem_nil,
        or_false] at fresh
      omega
    · exact fun other member => Nat.ne_of_lt (serves.started other member)
  · intro other member block inside
    rw [size]
    rcases List.mem_cons.mp (all.mem_iff.mp member) with rfl | earlier
    · simp only [Connection.blocks, MainState.fresh, List.mem_cons, List.not_mem_nil,
        or_false] at inside
      omega
    · exact Nat.lt_add_right 4 (serves.old other earlier block inside)
  · intro other member
    have longer : (state.serve cfd clientAddr).2.handlers.length = state.handlers.length + 1 :=
      List.length_append
    rw [longer]
    rcases List.mem_cons.mp (all.mem_iff.mp member) with rfl | earlier
    · exact Nat.lt_succ_self _
    · exact Nat.lt_succ_of_lt (serves.started other earlier)
  · intro id threadData found
    have appended : (state.handlers ++ [⟨state.heap.next, false⟩])[id]? =
        some ⟨threadData, false⟩ := found
    rcases Nat.lt_trichotomy id state.handlers.length with old | new | beyond
    · rw [List.getElem?_append_left old] at appended
      obtain ⟨other, among, handler, data⟩ := serves.running id threadData appended
      refine ⟨other, List.mem_cons_of_mem _ ?_, handler, data⟩
      rw [here] at among
      exact among
    · rw [new, List.getElem?_concat_length] at appended
      cases appended
      exact ⟨state.fresh cfd clientAddr, List.mem_cons_self, new.symm, rfl⟩
    · rw [List.getElem?_eq_none (by simp; omega)] at appended
      cases appended
  · have chain := serves.chain
    rw [here] at chain
    refine chain.insertHead link fun node among => slistNext_congr (same node ?_)
    obtain ⟨other, member, rfl⟩ := List.mem_map.mp among
    exact older other member other.node (by simp [Connection.blocks])
  · rintro other (_ | ⟨_, member⟩)
    · exact holds
    · exact (serves.holds other member).congr fun block inside =>
        same block (older other member block inside)
  · exact releases.trans serves.releases
  · exact ⟨rfl, rfl, nofun⟩

theorem Serves.setComplete (serves : Serves state ledger) {id threadData : Nat}
    (found : state.handlers[id]? = some ⟨threadData, false⟩) :
    ∃ after, state.setComplete ⟨threadData, false⟩ = some after ∧ after.pc = state.pc ∧
      Serves after ledger := by
  obtain ⟨connection, among, _, rfl⟩ := serves.running id threadData found
  have holds := serves.holds connection (ledger.mem_list _ among)
  obtain ⟨complete, exit, read⟩ := holds.readThreadData
  obtain ⟨_, _, cell⟩ := holds.threadData
  refine ⟨{ state with
      heap := state.heap.store connection.threadData
        [.threadData ⟨connection.mutexExit, connection.cfd, true, exit⟩] }, ?_, rfl,
    serves.store_threadData cell rfl⟩
  rw [MainState.setComplete, read]
  rfl

theorem Serves.returns (serves : Serves state ledger) (id threadData : Nat) :
    Serves { state with handlers := state.handlers.set id ⟨threadData, true⟩ } ledger where
  distinct := serves.distinct
  old := serves.old
  started := by
    simp only [List.length_set]
    exact serves.started
  running := by
    intro other data found
    simp only [List.getElem?_set] at found
    split at found
    · split at found <;> cases found
    · exact serves.running other data found
  chain := serves.chain
  holds := serves.holds
  releases := serves.releases
  standing := serves.standing

theorem Turned.refl (pc : MainPc) (ledger : Ledger) : Turned pc ledger .quiet pc ledger :=
  ⟨rfl, .refl _, (List.append_nil _).symm⟩

/-- One step of the machine keeps the ledger. -/
theorem serving_step (books : Books trace state.pc ledger) (serves : Serves state ledger)
    (taken : acceptLoop.step state event = some (output, after)) :
    ∃ next, Books (trace ++ [(event, output)]) after.pc next ∧ Serves after next := by
  have taken : state.step event = some (output, after) := taken
  cases event with
  | signal =>
    cases taken
    exact ⟨ledger, books.turned (.refl _ _), serves.moved rfl rfl rfl rfl rfl rfl rfl serves.standing⟩
  | complete id =>
    simp only [MainState.step] at taken
    split at taken
    · rename_i threadData found
      obtain ⟨done, set, pc, kept⟩ := serves.setComplete found
      rw [set] at taken
      cases taken
      refine ⟨ledger, ?_, kept⟩
      rw [pc]
      exact books.turned (.refl _ _)
    · cases taken
  | returns id =>
    simp only [MainState.step] at taken
    split at taken
    · cases taken
      exact ⟨ledger, books.turned (.refl _ _), serves.returns id _⟩
    · cases taken
  | accept result =>
    simp only [MainState.step, Option.ite_none_right_eq_some, Option.some.injEq] at taken
    obtain ⟨here, outcome⟩ := taken
    have idle := serves.standing
    simp only [Standing, here] at idle
    have quiet : ∀ pc, Turned state.pc ledger .quiet pc ledger := by
      refine fun pc => ⟨rfl, .refl _, ?_⟩
      simp [Ledger.done, idle, Output.quiet]
    cases result with
    | again =>
      cases outcome
      refine ⟨ledger, books.turned (quiet _), serves.moved rfl rfl rfl rfl rfl ?_ ?_ idle⟩
      · rw [here]; rfl
      · rw [here]; rfl
    | failed =>
      cases outcome
      refine ⟨ledger, books.turned (quiet _), serves.moved rfl rfl rfl rfl rfl ?_ ?_ idle⟩
      · rw [here]; rfl
      · rw [here]; rfl
    | connection cfd clientAddr =>
      obtain ⟨next, all, done, kept⟩ := serves.serve here cfd clientAddr
      cases outcome
      refine ⟨next, ⟨?_, ?_⟩, kept⟩
      · rw [accepted_append_singleton]
        exact (books.accepted.append_right _).trans all.symm
      · rw [effects_append_singleton, books.effects]
        exact (List.append_nil _).trans done.symm
  | main =>
    have moves : state.waits = false → (∀ success, state.pc ≠ .exited success) →
        state.pc ≠ .accept → some (state.advance.getD state.crash) = some (output, after) →
        ∃ next, Books (trace ++ [(.main, output)]) after.pc next ∧ Serves after next := by
      intro ready goes waits stepped
      obtain ⟨said, moved, next, advance, turned, kept⟩ := serves.advance ready goes waits
      rw [advance] at stepped
      cases stepped
      exact ⟨next, books.turned turned, kept⟩
    simp only [MainState.step] at taken
    split at taken
    · cases taken
    · cases taken
    · cases taken
    · rename_i waits goes _
      simp only [Option.ite_none_left_eq_some, Bool.not_eq_true] at taken
      exact moves taken.1 goes waits taken.2

theorem serving_start : Serves MainState.start ⟨[], [], none, []⟩ where
  distinct := ⟨List.nodup_nil, nofun, nofun, nofun⟩
  old := nofun
  started := nofun
  running := nofun
  chain := rfl
  holds := nofun
  releases := rfl
  standing := rfl

/-- Every run has its ledger. -/
theorem run_serving (run : acceptLoop.Run MainState.start trace state) :
    ∃ ledger, Books trace state.pc ledger ∧ Serves state ledger := by
  refine run.history (fun trace state => ∃ ledger, Books trace state.pc ledger ∧ Serves state ledger)
    ⟨_, ⟨.refl _, rfl⟩, serving_start⟩ ?_
  rintro past state event output after ⟨ledger, books, serves⟩ taken
  exact serving_step books serves taken

end Steps

end Aesd.Server
