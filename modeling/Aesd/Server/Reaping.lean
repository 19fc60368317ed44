import Aesd.Server.Traversal

/-! Every connection that `main` accepts is reaped once. -/
namespace Aesd.Server

open Aesd.Library

/-- All that is done to a connection was done, each of it once. -/
structure Reaped (trace : List (MainEvent × Output)) (heap : Heap Cell)
    (connection : Connection) : Prop where
  joined : (effects trace).count (.joined connection.handler) = 1
  closed : (effects trace).count (.closed connection.node connection.cfd) = 1
  removed : (effects trace).count (.removed connection.node) = 1
  freed : ∀ block ∈ connection.blocks,
    (heap.releases.map fun release => release.pointer.block).count block = 1

/-- No connection is lost, and nothing is done to one twice. -/
structure ServedOnce (trace : List (MainEvent × Output)) (state : MainState) : Prop where
  alive : state.pc ≠ .crashed
  listed : ∃ list, Chain (slistNext state.heap) state.head list ∧
    (∀ node ∈ list, ∃ connection ∈ accepted trace, connection.node = node) ∧
    ∀ connection ∈ accepted trace, list.count connection.node =
      if Effect.removed connection.node ∈ effects trace then 0 else 1
  once : (effects trace).Nodup
  belongs : ∀ effect ∈ effects trace, ∃ connection ∈ accepted trace, effect ∈ connection.script
  sound : state.heap.Sound
  reaped : ∀ connection ∈ accepted trace, ∀ block ∈ connection.blocks,
    ¬ state.heap.live block → Reaped trace state.heap connection
  ends : state.pc = .exited true →
    state.head = none ∧ ∀ connection ∈ accepted trace, Reaped trace state.heap connection

section Once

variable {connections : List Connection} {first second connection : Connection}

theorem Distinct.effect (distinct : Distinct connections) (one : first ∈ connections)
    (other : second ∈ connections) {effect : Effect} (inFirst : effect ∈ first.script)
    (inSecond : effect ∈ second.script) : first = second := by
  have byNode : first.node = second.node → first = second := fun same =>
    distinct.shared first one second other first.node (by simp [Connection.blocks])
      (by simp [Connection.blocks, same])
  simp only [Connection.script, List.mem_cons, List.not_mem_nil, or_false] at inFirst inSecond
  rcases inFirst with rfl | rfl | rfl | rfl
  · exact distinct.handler first one second other (by simpa using inSecond)
  · exact byNode (by simp at inSecond; exact inSecond.1)
  · exact byNode (by simp at inSecond; exact inSecond.1)
  · exact byNode (by simpa using inSecond)

/-- Lists of distinct connections that share no item make a list without repetition. -/
theorem Distinct.nodup_flatMap {α : Type} {items : Connection → List α}
    (distinct : Distinct connections) (each : ∀ connection ∈ connections, (items connection).Nodup)
    (shared : ∀ first ∈ connections, ∀ second ∈ connections, ∀ item ∈ items first,
      item ∈ items second → first = second) : (connections.flatMap items).Nodup := by
  refine List.nodup_flatMap.mpr ⟨each, ?_⟩
  refine distinct.nodup.pairwise_of_forall_ne fun first one second other different => ?_
  exact fun item inFirst inSecond => different (shared first one second other item inFirst inSecond)

theorem Connection.nodup_script (connection : Connection) : connection.script.Nodup := by
  simp [Connection.script]

end Once

section Runs

variable {trace : List (MainEvent × Output)} {state : MainState} {ledger : Ledger}
variable {connection : Connection}

theorem Ledger.mem_all_iff (ledger : Ledger) :
    connection ∈ ledger.all ↔ connection ∈ ledger.finished ∨ connection ∈ ledger.list true :=
  List.mem_append

theorem Ledger.mem_done (ledger : Ledger) {pc : MainPc} {effect : Effect}
    (done : effect ∈ ledger.done pc) : (∃ reaped ∈ ledger.finished, effect ∈ reaped.script) ∨
      ∃ inHand, ledger.current = some inHand ∧ effect ∈ inHand.script.take pc.performed := by
  rcases List.mem_append.mp done with finished | partly
  · exact .inl (List.mem_flatMap.mp finished)
  · obtain ⟨inHand, current, among⟩ := List.mem_flatMap.mp partly
    exact .inr ⟨inHand, Option.mem_toList.mp current, among⟩

theorem Ledger.inHand_mem_all (ledger : Ledger) (current : ledger.current = some connection) :
    connection ∈ ledger.all := by
  refine ledger.mem_all true ?_
  rw [Ledger.list, current]
  exact List.mem_append_right _ List.mem_cons_self

theorem Serves.finished_notMem (serves : Serves state ledger)
    (finished : connection ∈ ledger.finished) (inHand : Bool) :
    connection.node ∉ (ledger.list inHand).map Connection.node := by
  intro among
  obtain ⟨other, member, same⟩ := List.mem_map.mp among
  have known := ledger.mem_all_iff.mpr (.inl finished)
  obtain rfl := serves.distinct.shared other (ledger.mem_all _ member) connection known
    other.node (by simp [Connection.blocks]) (by simp [Connection.blocks, same])
  exact (List.disjoint_of_nodup_append serves.distinct.nodup) finished (ledger.mem_list _ member)

theorem Serves.nodup_done (serves : Serves state ledger) : (ledger.done state.pc).Nodup := by
  have whole : (ledger.all.flatMap Connection.script).Nodup :=
    serves.distinct.nodup_flatMap (fun connection _ => connection.nodup_script)
      fun first one second other effect => serves.distinct.effect one other
  refine whole.sublist ?_
  rw [Ledger.done, Ledger.all, List.flatMap_append]
  refine List.Sublist.append_left ?_ _
  rw [Ledger.list, List.flatMap_append, List.flatMap_append]
  refine .trans ?_ (List.sublist_append_right _ _)
  refine .trans ?_ (List.sublist_append_left _ _)
  cases ledger.current with
  | none => exact .refl _
  | some inHand => simpa using List.take_sublist _ _

theorem Serves.removed_iff (serves : Serves state ledger) (known : connection ∈ ledger.all) :
    Effect.removed connection.node ∈ ledger.done state.pc ↔
      connection.node ∉ (ledger.list (!state.pc.unlinked)).map Connection.node := by
  have own : Effect.removed connection.node ∈ connection.script := by simp [Connection.script]
  constructor
  · intro done
    rcases ledger.mem_done done with ⟨reaped, finished, among⟩ | ⟨inHand, current, among⟩
    · obtain rfl := serves.distinct.effect known (ledger.mem_all_iff.mpr (.inl finished)) own among
      exact serves.finished_notMem finished _
    · obtain rfl := serves.distinct.effect known (ledger.inHand_mem_all current) own
        (List.mem_of_mem_take among)
      have unlinked : state.pc.unlinked = true := by
        cases pc : state.pc with
        | free final => rfl
        | _ =>
          rw [pc] at among
          simp [MainPc.performed, Connection.script] at among
      obtain ⟨finished, passed, _, rest⟩ := ledger
      obtain rfl : _ = some connection := current
      rw [unlinked]
      intro still
      obtain ⟨other, member, same⟩ := List.mem_map.mp still
      have shared : connection.node ∈ other.blocks := by simp [Connection.blocks, same]
      exact serves.distinct.apart member shared (by simp [Connection.blocks])
  · intro out
    rcases ledger.mem_all_iff.mp known with finished | held
    · exact List.mem_append_left _ (List.mem_flatMap.mpr ⟨connection, finished, own⟩)
    · cases unlinked : state.pc.unlinked with
      | false =>
        rw [unlinked] at out
        exact absurd (List.mem_map.mpr ⟨connection, held, rfl⟩) out
      | true =>
        rw [unlinked] at out
        have whole : state.pc.performed = 4 := by
          cases pc : state.pc with
          | free final => rfl
          | _ =>
            rw [pc] at unlinked
            cases unlinked
        refine List.mem_append_right _ (List.mem_flatMap.mpr ⟨connection, ?_, ?_⟩)
        · by_contra other
          refine out (List.mem_map.mpr ⟨connection, ?_, rfl⟩)
          simp only [Ledger.list, ↓reduceIte, List.mem_append] at held
          simp only [Ledger.list, List.mem_append]
          rcases held with earlier | inHand | later
          · exact .inl earlier
          · exact absurd inHand other
          · exact .inr (.inr later)
        · rw [whole]
          exact own

theorem Serves.freed_blocks (serves : Serves state ledger) :
    (state.heap.releases.map fun release => release.pointer.block) =
      ledger.finished.flatMap Connection.blocks := by
  rw [serves.releases, List.map_flatMap]
  congr 1

theorem Serves.nodup_freed (serves : Serves state ledger) :
    (ledger.finished.flatMap Connection.blocks).Nodup := by
  have whole : (ledger.all.flatMap Connection.blocks).Nodup :=
    serves.distinct.nodup_flatMap serves.distinct.blocks
      fun first one second other block inFirst inSecond =>
        serves.distinct.shared first one second other block inFirst inSecond
  rw [Ledger.all, List.flatMap_append] at whole
  exact (List.nodup_append.mp whole).1

/-- A reaped connection has its whole script and all its frees done once. -/
theorem Serves.reaped (serves : Serves state ledger) (books : Books trace state.pc ledger)
    (finished : connection ∈ ledger.finished) : Reaped trace state.heap connection := by
  have done : ∀ effect ∈ connection.script, (effects trace).count effect = 1 := by
    intro effect among
    rw [books.effects]
    refine List.count_eq_one_of_mem serves.nodup_done (List.mem_append_left _ ?_)
    exact List.mem_flatMap.mpr ⟨connection, finished, among⟩
  refine ⟨done _ ?_, done _ ?_, done _ ?_, fun block inside => ?_⟩
  · simp [Connection.script]
  · simp [Connection.script]
  · simp [Connection.script]
  · rw [serves.freed_blocks]
    refine List.count_eq_one_of_mem serves.nodup_freed ?_
    exact List.mem_flatMap.mpr ⟨connection, finished, inside⟩

theorem Serves.sound (serves : Serves state ledger) : state.heap.Sound where
  valid := by
    intro release among
    rw [serves.releases] at among
    obtain ⟨connection, _, freed⟩ := List.mem_flatMap.mp among
    obtain ⟨block, _, rfl⟩ := List.mem_map.mp freed
    rfl
  once := by
    rw [serves.freed_blocks]
    exact serves.nodup_freed

/-- In every run, every connection is in the list exactly once until it is removed, it
is joined, closed and freed once, no freed memory is read, and the last loop leaves the
list empty. -/
theorem connections_served_once (run : acceptLoop.Run MainState.start trace state) :
    ServedOnce trace state := by
  obtain ⟨ledger, books, serves⟩ := run_serving run
  have known : ∀ connection, connection ∈ accepted trace ↔ connection ∈ ledger.all :=
    fun _ => books.accepted.mem_iff
  constructor
  · intro crashed
    have standing := serves.standing
    rw [Standing, crashed] at standing
    exact standing
  · refine ⟨_, serves.chain, ?_, ?_⟩
    · intro node among
      obtain ⟨connection, member, rfl⟩ := List.mem_map.mp among
      exact ⟨connection, (known connection).mpr (ledger.mem_all _ member), rfl⟩
    · intro connection member
      have removed := serves.removed_iff ((known connection).mp member)
      rw [serves.chain.nodup.count, books.effects]
      by_cases out : Effect.removed connection.node ∈ ledger.done state.pc
      · rw [if_pos out, if_neg (removed.mp out)]
      · rw [if_neg out, if_pos (not_not.mp (mt removed.mpr out))]
  · rw [books.effects]
    exact serves.nodup_done
  · intro effect done
    rw [books.effects] at done
    rcases ledger.mem_done done with ⟨reaped, finished, among⟩ | ⟨inHand, current, among⟩
    · exact ⟨reaped, (known reaped).mpr (List.mem_append_left _ finished), among⟩
    · exact ⟨inHand, (known inHand).mpr (ledger.inHand_mem_all current), List.mem_of_mem_take among⟩
  · exact serves.sound
  · intro connection member block inside gone
    rcases ledger.mem_all_iff.mp ((known connection).mp member) with finished | held
    · exact serves.reaped books finished
    · exact absurd ((serves.holds connection held).live block inside) gone
  · intro ended
    have standing := serves.standing
    simp only [Standing, ended] at standing
    obtain ⟨current, before, after⟩ := standing
    have empty : ∀ kept, ledger.list kept = [] := by
      intro kept
      cases kept <;> simp [Ledger.list, current, before, after]
    constructor
    · rw [serves.head_eq, empty]
      rfl
    · intro connection member
      rcases ledger.mem_all_iff.mp ((known connection).mp member) with finished | held
      · exact serves.reaped books finished
      · rw [empty] at held
        exact absurd held List.not_mem_nil

/-- Two clients connect; the first is reaped behind the second, which the last loop reaps
after the signal. -/
def twoClients : List MainEvent :=
  [.main, .accept .again, .main, .accept (.connection 5 1), .main, .main, .main, .main,
   .accept (.connection 6 2), .main, .main, .complete 0, .main, .main, .returns 0, .main, .main,
   .main, .main, .main, .main, .main, .signal, .accept .again, .main, .main, .main, .main,
   .complete 1, .returns 1, .main, .main, .main, .main, .main]

theorem twoClients_served : ∃ trace state,
    acceptLoop.exec MainState.start twoClients = some (trace, state) ∧
      state.pc = .exited true ∧ (accepted trace).length = 2 ∧ ServedOnce trace state := by
  have runs : ((acceptLoop.exec MainState.start twoClients).any fun result =>
      result.2.pc == .exited true && (accepted result.1).length == 2) = true := by
    decide
  obtain ⟨⟨trace, state⟩, computed, facts⟩ := (Option.any_eq_true _ _).mp runs
  obtain ⟨ended, two⟩ := Bool.and_eq_true_iff.mp facts
  exact ⟨trace, state, computed, eq_of_beq ended, eq_of_beq two,
    connections_served_once (.of_exec computed)⟩

end Runs

end Aesd.Server
