import Mathlib.Tactic.Ring
import Aesd.Server.Reaping

/-! Once the signal is there and the handlers are over, `main` comes to its regular end. -/
namespace Aesd.Server

open Aesd.Library

/-- The links from the pointer visit this many nodes. -/
def Reaches (heap : Heap Cell) (pointer : Option Nat) (count : Nat) : Prop :=
  ∃ nodes, Chain (slistNext heap) pointer nodes ∧ nodes.length = count

/-- What one removal may cost: after it the traversal has the whole list ahead again. -/
def retraversals : Nat → Nat
  | 0 => 0
  | count + 1 => retraversals count + count * (count + 9) + 6 * count + 8

/-- How many steps are left at most with `count` nodes in the list, `ahead` of them in
front of the traversal, and `walk` of them from the search of `SLIST_REMOVE` on. -/
def MainPc.cost (count ahead walk : Nat) : MainPc → Nat
  | .loopHead => 6 * count + 7
  | .accept => 6 * count + 8
  | .visit false => retraversals count + ahead * (count + 9) + 6 * count + 8
  | .test => retraversals count + ahead * (count + 9) + 7 * count + 16
  | .join false => retraversals count + count + 7
  | .close false => retraversals count + count + 6
  | .remove false => retraversals count + count + 5
  | .walk false => retraversals count + walk + 4
  | .free false => retraversals (count + 1) + 3
  | .ask => 5 * count + ahead + 6
  | .visit true => 5 * count + 5
  | .join true => 5 * count + 4
  | .close true => 5 * count + 3
  | .remove true => 5 * count + 2
  | .walk true => 5 * count + walk
  | .free true => 5 * count + 6
  | .exited _ | .crashed => 0

/-- The pointer from which the traversal goes on. -/
def MainState.ahead (state : MainState) : Option Nat :=
  match state.pc with
  | .visit _ | .ask => state.node
  | .test => state.tempNode
  | _ => none

/-- The pointer from which `SLIST_REMOVE` goes on. -/
def MainState.search (state : MainState) : Option Nat :=
  match state.pc with
  | .walk _ => state.curelm
  | _ => none

/-- The lengths that the links give, and what they cost. -/
def Costs (state : MainState) (cost : Nat) : Prop :=
  ∃ count ahead walk, Reaches state.heap state.head count ∧
    Reaches state.heap state.ahead ahead ∧ Reaches state.heap state.search walk ∧
    cost = state.pc.cost count ahead walk

/-- One step that is cheaper to go on from and is no failure, with signal and handlers
as they are. -/
def Descends (state : MainState) (cost : Nat) : Prop :=
  ∃ output after less, state.advance = some (output, after) ∧ Costs after less ∧ less < cost ∧
    after.pc ≠ .exited false ∧
    after.gracefullyExit = state.gracefullyExit ∧ after.handlers = state.handlers

section Lengths

variable {heap : Heap Cell} {pointer : Option Nat} {count other : Nat}

theorem Reaches.none (heap : Heap Cell) : Reaches heap none 0 := ⟨[], rfl, rfl⟩

theorem Reaches.unique (first : Reaches heap pointer count) (second : Reaches heap pointer other) :
    count = other := by
  obtain ⟨nodes, chain, rfl⟩ := first
  obtain ⟨others, again, rfl⟩ := second
  rw [chain.unique again]

theorem Reaches.some {node : Nat} (reaches : Reaches heap (some node) count) :
    ∃ following rest, count = rest + 1 ∧ slistNext heap node = .some following ∧
      Reaches heap following rest := by
  obtain ⟨nodes, chain, rfl⟩ := reaches
  cases nodes with
  | nil => cases chain
  | cons first rest =>
    obtain ⟨same, following, link, later⟩ := chain
    obtain rfl := Option.some.inj same
    exact ⟨following, rest.length, rfl, link, rest, later, rfl⟩

end Lengths

section Steps

variable {state : MainState} {ledger next : Ledger} {cost : Nat}

theorem Ledger.length_list (ledger : Ledger) (inHand : Bool) : (ledger.list inHand).length =
    ledger.before.length + (if inHand then ledger.current.toList.length else 0) +
      ledger.after.length := by
  cases inHand <;> simp [Ledger.list, Nat.add_assoc]

theorem Serves.reaches_head (serves : Serves state ledger) :
    Reaches state.heap state.head (ledger.list (!state.pc.unlinked)).length :=
  ⟨_, serves.chain, List.length_map _⟩

theorem Serves.reaches_ahead (serves : Serves state ledger) :
    Reaches state.heap (firstNode ledger.after) ledger.after.length := by
  have chain := serves.chain
  rw [Ledger.list, ← List.append_assoc, List.map_append] at chain
  exact ⟨_, chain.drop, List.length_map _⟩

/-- From a connection that the traversal has passed, the links lead to the end. -/
theorem Serves.reaches_passed (serves : Serves state ledger) {passed : Connection}
    (among : passed ∈ ledger.before) :
    ∃ count, Reaches state.heap (some passed.node) count ∧ count ≤ (ledger.list true).length := by
  obtain ⟨earlier, later, split⟩ := List.append_of_mem among
  have chain := serves.chain
  rw [Ledger.list, split, List.append_assoc, List.map_append] at chain
  refine ⟨_, ⟨_, chain.drop, rfl⟩, ?_⟩
  rw [List.length_map, ledger.length_list, split]
  cases state.pc.unlinked <;> simp <;> omega

/-- What is left is a polynomial in the length of the list. -/
theorem retraversals_le (count : Nat) : retraversals count ≤ count ^ 3 + 7 * count ^ 2 + count := by
  induction count with
  | zero => exact Nat.le_refl 0
  | succ count ih =>
    have cubed : (count + 1) ^ 3 = count ^ 3 + 3 * count ^ 2 + 3 * count + 1 := by ring
    have squared : (count + 1) ^ 2 = count ^ 2 + 2 * count + 1 := by ring
    have product : count * (count + 9) = count ^ 2 + 9 * count := by ring
    rw [retraversals, cubed, squared, product]
    omega

/-- The most that any place of `main` can cost with this many nodes. -/
def mostCost (nodes : Nat) : Nat :=
  retraversals nodes + nodes * (nodes + 9) + 7 * nodes + 16

theorem mostCost_le {nodes threads : Nat} (fewer : nodes ≤ threads) :
    mostCost nodes + threads ≤ (threads + 3) ^ 3 := by
  have again := retraversals_le nodes
  have cubes : nodes ^ 3 ≤ threads ^ 3 := Nat.pow_le_pow_left fewer 3
  have squares : nodes ^ 2 ≤ threads ^ 2 := Nat.pow_le_pow_left fewer 2
  have product : nodes * (nodes + 9) = nodes ^ 2 + 9 * nodes := by ring
  have bound : (threads + 3) ^ 3 = threads ^ 3 + 9 * threads ^ 2 + 27 * threads + 27 := by ring
  rw [mostCost, product, bound]
  omega

theorem MainPc.cost_le {pc : MainPc} {count ahead walk : Nat} (linked : pc.unlinked = false)
    (front : ahead ≤ count) (back : walk ≤ count) : pc.cost count ahead walk ≤ mostCost count := by
  have product := Nat.mul_le_mul_right (count + 9) front
  cases pc with
  | free final => cases linked
  | visit final | join final | close final | remove final | walk final =>
    cases final <;> simp only [cost, mostCost] <;> omega
  | _ =>
    simp only [cost, mostCost]
    omega

theorem Serves.length_le (serves : Serves state ledger) :
    (ledger.list true).length ≤ state.handlers.length := by
  have among : ∀ connection ∈ ledger.list true, connection ∈ ledger.all := fun _ listed =>
    ledger.mem_all _ listed
  have apart : ((ledger.list true).map Connection.handler).Nodup := by
    refine List.Nodup.map_on ?_ (List.Nodup.of_append_right serves.distinct.nodup)
    intro first one second other
    exact serves.distinct.handler first (among first one) second (among second other)
  have started : (ledger.list true).map Connection.handler ⊆ List.range state.handlers.length := by
    intro handler member
    obtain ⟨connection, listed, rfl⟩ := List.mem_map.mp member
    exact List.mem_range.mpr (serves.started connection (among connection listed))
  simpa using (apart.subperm started).length_le

/-- Wherever `main` is, its pointers lead to the ends of the list. -/
theorem Serves.costs (serves : Serves state ledger) :
    ∃ cost, Costs state cost ∧ cost ≤ mostCost (ledger.list true).length := by
  have standing := serves.standing
  have head := serves.reaches_head
  have front := serves.reaches_ahead
  have back := Reaches.none state.heap
  have shorter : ledger.after.length ≤ (ledger.list true).length := by
    rw [ledger.length_list]
    omega
  -- the price is at most that of the worst place, wherever the two pointers are
  have within : ∀ ahead walk, state.pc.unlinked = false → Reaches state.heap state.ahead ahead →
      Reaches state.heap state.search walk → ahead ≤ (ledger.list true).length →
        walk ≤ (ledger.list true).length →
          ∃ cost, Costs state cost ∧ cost ≤ mostCost (ledger.list true).length := by
    intro ahead walk linked onwards search less few
    rw [linked] at head
    exact ⟨_, ⟨_, ahead, walk, head, onwards, search, rfl⟩, MainPc.cost_le linked less few⟩
  cases here : state.pc with
  | visit final =>
    simp only [Standing, here] at standing
    rw [← standing.2.1] at front
    refine within _ 0 (by rw [here]; rfl) ?_ ?_ shorter (Nat.zero_le _)
    · rwa [MainState.ahead, here]
    · rwa [MainState.search, here]
  | ask =>
    simp only [Standing, here] at standing
    rw [← standing.2] at front
    refine within _ 0 (by rw [here]; rfl) ?_ ?_ shorter (Nat.zero_le _)
    · rwa [MainState.ahead, here]
    · rwa [MainState.search, here]
  | test =>
    simp only [Standing, here] at standing
    obtain ⟨_, _, _, last⟩ := standing
    rw [← last] at front
    refine within _ 0 (by rw [here]; rfl) ?_ ?_ shorter (Nat.zero_le _)
    · rwa [MainState.ahead, here]
    · rwa [MainState.search, here]
  | walk final =>
    simp only [Standing, here] at standing
    obtain ⟨_, _, passed, among, curelm⟩ := standing
    obtain ⟨count, reached, few⟩ := serves.reaches_passed among
    rw [← curelm] at reached
    refine within 0 count (by rw [here]; rfl) ?_ ?_ (Nat.zero_le _) few
    · rwa [MainState.ahead, here]
    · rwa [MainState.search, here]
  | free final =>
    simp only [Standing, here] at standing
    obtain ⟨connection, current, _⟩ := serves.inHand standing.1
    refine ⟨_, ⟨_, 0, 0, head, ?_, ?_, rfl⟩, ?_⟩
    · rwa [MainState.ahead, here]
    · rwa [MainState.search, here]
    · have whole : (ledger.list true).length = (ledger.list false).length + 1 := by
        simp only [ledger.length_list, current, Option.toList_some, List.length_cons,
          List.length_nil, ↓reduceIte, Bool.false_eq_true]
        omega
      rw [whole, here]
      cases final <;> simp only [MainPc.cost, MainPc.unlinked, mostCost, Bool.not_true] <;> omega
  | _ =>
    refine within 0 0 (by rw [here]; rfl) ?_ ?_ (Nat.zero_le _) (Nat.zero_le _)
    · rwa [MainState.ahead, here]
    · rwa [MainState.search, here]

theorem Descends.intro {output : Output} {after : MainState} {count ahead walk : Nat}
    (advance : state.advance = some (output, after))
    (head : Reaches after.heap after.head count) (front : Reaches after.heap after.ahead ahead)
    (back : Reaches after.heap after.search walk) (cheaper : after.pc.cost count ahead walk < cost)
    (goes : after.pc ≠ .exited false) (flag : after.gracefullyExit = state.gracefullyExit)
    (handlers : after.handlers = state.handlers) : Descends state cost :=
  ⟨output, after, _, advance, ⟨count, ahead, walk, head, front, back, rfl⟩, cheaper, goes, flag,
    handlers⟩

theorem Costs.loopHead (costs : Costs state cost) (here : state.pc = .loopHead)
    (asked : state.gracefullyExit = true) : Descends state cost := by
  obtain ⟨count, ahead, walk, head, _, _, rfl⟩ := costs
  have advance : state.advance = some (.quiet, state.foreach .ask) := by
    simp [MainState.advance, here, asked]
  refine .intro advance head head (.none _) ?_ (by simp [MainState.foreach]) rfl rfl
  simp only [MainState.foreach, here, MainPc.cost]
  omega

theorem Costs.visit {final : Bool} (costs : Costs state cost) (here : state.pc = .visit final) :
    Descends state cost := by
  obtain ⟨count, ahead, walk, head, front, _, rfl⟩ := costs
  rw [MainState.ahead, here] at front
  cases node : state.node with
  | none =>
    have advance : state.advance =
        some (.quiet, { state with pc := if final then .exited true else .loopHead }) := by
      simp [MainState.advance, here, node]
    cases final with
    | true =>
      refine .intro advance head (.none _) (.none _) ?_ (by simp) rfl rfl
      simp only [here, MainPc.cost, ↓reduceIte]
      omega
    | false =>
      refine .intro advance head (.none _) (.none _) ?_ (by simp) rfl rfl
      simp only [here, MainPc.cost, ↓reduceIte, Bool.false_eq_true]
      omega
  | some block =>
    rw [node] at front
    obtain ⟨following, rest, rfl, link, later⟩ := front.some
    have advance : state.advance = some (.quiet, { state with
        tempNode := following, pc := if final then .join true else .test }) := by
      simp [MainState.advance, here, node, link]
    cases final with
    | true =>
      refine .intro advance head (.none _) (.none _) ?_ (by simp) rfl rfl
      simp only [here, MainPc.cost, ↓reduceIte]
      omega
    | false =>
      refine .intro advance head later (.none _) ?_ (by simp) rfl rfl
      simp only [here, MainPc.cost, ↓reduceIte, Bool.false_eq_true, Nat.add_mul]
      omega

theorem Costs.test (costs : Costs state cost) (serves : Serves state ledger)
    (here : state.pc = .test) : Descends state cost := by
  obtain ⟨count, ahead, walk, head, front, _, rfl⟩ := costs
  rw [MainState.ahead, here] at front
  have standing := serves.standing
  simp only [Standing, here] at standing
  obtain ⟨connection, current, node, _, holds⟩ := serves.inHand standing
  obtain ⟨_, data⟩ := holds.readNode
  obtain ⟨complete, exit, threadData⟩ := holds.readThreadData
  cases complete with
  | true =>
    have advance : state.advance = some (.quiet, { state with pc := .join false }) := by
      simp [MainState.advance, here, node, data, threadData]
    refine .intro advance head (.none _) (.none _) ?_ (by simp) rfl rfl
    simp only [here, MainPc.cost]
    omega
  | false =>
    have advance : state.advance =
        some (.quiet, { state with node := state.tempNode, pc := .visit false }) := by
      simp [MainState.advance, here, node, data, threadData]
    refine .intro advance head front (.none _) ?_ (by simp) rfl rfl
    simp only [here, MainPc.cost]
    omega

theorem Costs.join {final : Bool} (costs : Costs state cost) (serves : Serves state ledger)
    (here : state.pc = .join final) : Descends state cost := by
  obtain ⟨count, ahead, walk, head, _, _, rfl⟩ := costs
  have standing := serves.standing
  simp only [Standing, here] at standing
  obtain ⟨connection, _, node, _, holds⟩ := serves.inHand standing.1
  obtain ⟨_, data⟩ := holds.readNode
  have thread := holds.readThread
  have advance : state.advance =
      some (⟨none, [.joined connection.handler, .logged connection.node connection.clientAddr]⟩,
        { state with pc := .close final }) := by
    simp [MainState.advance, here, node, data, thread]
  refine .intro advance head (.none _) (.none _) ?_ (by simp) rfl rfl
  cases final <;> simp only [here, MainPc.cost] <;> omega

theorem Costs.close {final : Bool} (costs : Costs state cost) (serves : Serves state ledger)
    (here : state.pc = .close final) : Descends state cost := by
  obtain ⟨count, ahead, walk, head, _, _, rfl⟩ := costs
  have standing := serves.standing
  simp only [Standing, here] at standing
  obtain ⟨connection, _, node, _, holds⟩ := serves.inHand standing.1
  obtain ⟨_, data⟩ := holds.readNode
  obtain ⟨_, _, threadData⟩ := holds.readThreadData
  have advance : state.advance =
      some (⟨none, [.closed connection.node connection.cfd]⟩, { state with pc := .remove final }) := by
    simp [MainState.advance, here, node, data, threadData]
  refine .intro advance head (.none _) (.none _) ?_ (by simp) rfl rfl
  cases final <;> simp only [here, MainPc.cost] <;> omega

/-- Taking the first node out shortens the list; for another one the search begins. -/
theorem Costs.remove {final : Bool} (costs : Costs state cost) (serves : Serves state ledger)
    (here : state.pc = .remove final) : Descends state cost := by
  obtain ⟨count, ahead, walk, head, _, _, rfl⟩ := costs
  have standing := serves.standing
  simp only [Standing, here] at standing
  obtain ⟨inHand, last⟩ := standing
  obtain ⟨connection, current, node, _, _⟩ := serves.inHand inHand
  by_cases first : state.head = some connection.node
  · have whole := head
    rw [first] at whole
    obtain ⟨following, rest, rfl, link, later⟩ := whole.some
    have advance : state.advance =
        some (⟨none, [.removed connection.node]⟩, { state with head := following, pc := .free final }) := by
      simp [MainState.advance, here, node, first, link]
    refine .intro advance later (.none _) (.none _) ?_ (by simp) rfl rfl
    cases final <;> simp only [here, MainPc.cost] <;> omega
  · have advance : state.advance =
        some (.quiet, { state with curelm := state.head, pc := .walk final }) := by
      simp [MainState.advance, here, node, first]
    refine .intro advance head (.none _) head ?_ (by simp) rfl rfl
    cases final with
    | false =>
      simp only [here, MainPc.cost]
      omega
    | true =>
      -- the last traversal has passed nobody, so that its connection is the first
      have list := serves.head_eq
      have whole : (!MainPc.unlinked (.remove true)) = true := rfl
      rw [here, whole, Ledger.list, last rfl, current] at list
      exact absurd list first

theorem Ledger.length_done (ledger : Ledger) (pc : MainPc) : (ledger.done pc).length =
    4 * ledger.finished.length + ledger.current.toList.length * pc.performed := by
  have scripts : (ledger.finished.flatMap Connection.script).length = 4 * ledger.finished.length := by
    induction ledger.finished with
    | nil => rfl
    | cons connection rest ih =>
      rw [List.flatMap_cons, List.length_append, ih, List.length_cons]
      simp only [Connection.script, List.length_cons, List.length_nil]
      omega
  rw [Ledger.done, List.length_append, scripts]
  cases ledger.current with
  | none => simp
  | some connection => cases pc <;> simp [Connection.script, MainPc.performed]

theorem Turned.length {pc moved : MainPc} {output : Output}
    (turned : Turned pc ledger output moved next) :
    ledger.finished.length + (ledger.list true).length =
        next.finished.length + (next.list true).length ∧
      4 * next.finished.length + next.current.toList.length * moved.performed =
        4 * ledger.finished.length + ledger.current.toList.length * pc.performed +
          output.effects.length := by
  have all := turned.all.length_eq
  have done := congrArg List.length turned.effects
  rw [Ledger.all, Ledger.all, List.length_append, List.length_append] at all
  rw [List.length_append, Ledger.length_done, Ledger.length_done] at done
  exact ⟨all, done⟩

theorem Costs.walk {final : Bool} (costs : Costs state cost) (serves : Serves state ledger)
    (here : state.pc = .walk final) : Descends state cost := by
  obtain ⟨count, ahead, walk, head, _, back, rfl⟩ := costs
  have standing := serves.standing
  simp only [Standing, here] at standing
  obtain ⟨inHand, last, passed, among, curelm⟩ := standing
  obtain ⟨connection, current, node, _, _⟩ := serves.inHand inHand
  cases final with
  | true =>
    rw [last rfl] at among
    cases among
  | false =>
    rw [MainState.search, here, curelm] at back
    obtain ⟨following, rest, rfl, link, later⟩ := back.some
    by_cases found : following = some connection.node
    · obtain ⟨output, after, next, advance, turned, kept⟩ := serves.advance_walk here
      have removes : ((slistRemoveAfter state.heap passed.node).bind fun heap =>
          some ((⟨none, [.removed connection.node]⟩ : Output),
            { state with heap, pc := .free false })) = some (output, after) := by
        simpa [MainState.advance, here, node, curelm, link, found] using advance
      obtain ⟨heap, _, same⟩ := Option.bind_eq_some_iff.mp removes
      cases same
      obtain ⟨all, done⟩ := turned.length
      obtain ⟨⟨other, stays, _⟩, _⟩ := kept.standing
      have list := kept.reaches_head
      have whole := head.unique serves.reaches_head
      rw [here] at whole done
      simp only [Ledger.length_list, current, stays, MainPc.performed, MainPc.unlinked,
        Option.toList_some, List.length_cons, List.length_nil, Bool.not_false, Bool.not_true,
        Bool.false_eq_true, ↓reduceIte] at all done whole list
      have fewer : next.before.length + 0 + next.after.length + 1 = count := by omega
      refine .intro advance list (.none _) (.none _) ?_ (by simp) rfl rfl
      simp only [here, MainPc.cost, fewer]
      omega
    · have advance : state.advance = some (.quiet, { state with curelm := following }) := by
        simp [MainState.advance, here, node, curelm, link, found]
      have onwards : ({ state with curelm := following } : MainState).search = following := by
        simp [MainState.search, here]
      have front : ({ state with curelm := following } : MainState).ahead = none := by
        simp [MainState.ahead, here]
      refine .intro advance head (by rw [front]; exact .none _) (by rw [onwards]; exact later) ?_
        (by simp [here]) rfl rfl
      simp only [here, MainPc.cost]
      omega

theorem Costs.free {final : Bool} (costs : Costs state cost) (serves : Serves state ledger)
    (here : state.pc = .free final) : Descends state cost := by
  obtain ⟨count, ahead, walk, head, _, _, rfl⟩ := costs
  have standing := serves.standing
  simp only [Standing, here] at standing
  obtain ⟨inHand, last⟩ := standing
  obtain ⟨connection, current, node, _, holds⟩ := serves.inHand inHand
  obtain ⟨_, data⟩ := holds.readNode
  obtain ⟨complete, exit, threadData⟩ := holds.readThreadData
  obtain ⟨output, after, next, advance, turned, kept⟩ := serves.advance_free here
  have frees : state.advance = some (.quiet, { state with
      heap := state.heap.freeAll connection.blocks, node := state.tempNode, pc := .visit final }) := by
    simp [MainState.advance, MainState.release, here, node, data, threadData, Connection.blocks]
  cases frees.symm.trans advance
  obtain ⟨all, done⟩ := turned.length
  obtain ⟨idle, place, _⟩ := kept.standing
  have list := kept.reaches_head
  have front := kept.reaches_ahead
  have whole := head.unique serves.reaches_head
  rw [here] at whole done
  rw [← place] at front
  simp only [Ledger.length_list, current, idle, MainPc.performed, MainPc.unlinked, Output.quiet,
    Option.toList_some, Option.toList_none, List.length_cons, List.length_nil, Bool.not_false,
    Bool.not_true, Bool.false_eq_true, ↓reduceIte] at all done whole list
  have same : next.before.length + 0 + next.after.length = count := by omega
  rw [same] at list
  refine .intro advance list front (.none _) ?_ (by simp) rfl rfl
  have fits : next.after.length ≤ count := by omega
  cases final with
  | true =>
    simp only [here, MainPc.cost]
    omega
  | false =>
    have most := Nat.mul_le_mul_right (count + 9) fits
    simp only [here, MainPc.cost, retraversals]
    omega

theorem Costs.ask (costs : Costs state cost) (serves : Serves state ledger)
    (here : state.pc = .ask) : Descends state cost := by
  obtain ⟨count, ahead, walk, head, front, _, rfl⟩ := costs
  rw [MainState.ahead, here] at front
  cases node : state.node with
  | none =>
    have advance : state.advance = some (.quiet, state.foreach (.visit true)) := by
      simp [MainState.advance, here, node]
    refine .intro advance head head (.none _) ?_ (by simp [MainState.foreach]) rfl rfl
    simp only [MainState.foreach, here, MainPc.cost]
    omega
  | some block =>
    have standing := serves.standing
    simp only [Standing, here] at standing
    obtain ⟨_, place⟩ := standing
    rw [node] at front place
    obtain ⟨following, rest, rfl, link, later⟩ := front.some
    cases ahead : ledger.after with
    | nil =>
      rw [ahead] at place
      cases place
    | cons connection others =>
      rw [ahead] at place
      obtain rfl := Option.some.inj place
      have held : connection ∈ ledger.list true :=
        List.mem_append_right _ (List.mem_append_right _ (ahead ▸ List.mem_cons_self))
      have holds := serves.holds connection held
      obtain ⟨_, data⟩ := holds.readNode
      obtain ⟨complete, exit, threadData⟩ := holds.readThreadData
      obtain ⟨_, _, cell⟩ := holds.threadData
      have mutex := holds.readMutex
      have links : slistNext (state.heap.store connection.threadData
          [.threadData ⟨connection.mutexExit, connection.cfd, complete, true⟩]) =
            slistNext state.heap :=
        funext fun elm => slistNext_store_threadData cell elm
      have advance : state.advance = some (.quiet, { state with
          heap := state.heap.store connection.threadData
            [.threadData ⟨connection.mutexExit, connection.cfd, complete, true⟩]
          node := following }) := by
        simp [MainState.advance, here, node, data, threadData, mutex, links, link]
      obtain ⟨nodes, chain, lengths⟩ := head
      obtain ⟨onwards, suffix, shorter⟩ := later
      rw [← links] at chain suffix
      have front : ({ state with
          heap := state.heap.store connection.threadData
            [.threadData ⟨connection.mutexExit, connection.cfd, complete, true⟩]
          node := following } : MainState).ahead = following := by
        simp [MainState.ahead, here]
      have back : ({ state with
          heap := state.heap.store connection.threadData
            [.threadData ⟨connection.mutexExit, connection.cfd, complete, true⟩]
          node := following } : MainState).search = none := by
        simp [MainState.search, here]
      refine .intro advance ⟨nodes, chain, lengths⟩ (by rw [front]; exact ⟨onwards, suffix, shorter⟩)
        (by rw [back]; exact .none _) ?_ (by simp [here]) rfl rfl
      simp only [here, MainPc.cost]
      omega

/-- As long as `main` is neither at its end nor in `accept`, its next step is cheaper to
go on from. -/
theorem Costs.descends (costs : Costs state cost) (serves : Serves state ledger)
    (asked : state.gracefullyExit = true) (goes : ∀ success, state.pc ≠ .exited success)
    (elsewhere : state.pc ≠ .accept) : Descends state cost := by
  cases here : state.pc with
  | loopHead => exact costs.loopHead here asked
  | accept => exact absurd here elsewhere
  | visit final => exact costs.visit here
  | test => exact costs.test serves here
  | join final => exact costs.join serves here
  | close final => exact costs.close serves here
  | remove final => exact costs.remove serves here
  | walk final => exact costs.walk serves here
  | free final => exact costs.free serves here
  | ask => exact costs.ask serves here
  | exited success => exact absurd here (goes success)
  | crashed =>
    have standing := serves.standing
    rw [Standing, here] at standing
    exact standing.elim

end Steps

section Closing

variable {state after : MainState} {event : MainEvent} {output : Output} {cost left : Nat}

theorem running_of_waits (waits : state.waits = true) :
    ∃ id threadData : Nat, state.handlers[id]? = some ⟨threadData, false⟩ := by
  unfold MainState.waits at waits
  split at waits
  · rename_i final
    cases found : ((do
        let data ← readNode state.heap (← state.node)
        let handler ← state.handlers[← readThread state.heap data.thread]?
        return !handler.returned) : Option Bool) with
    | none =>
      rw [found] at waits
      cases waits
    | some answer =>
      rw [found] at waits
      simp only [Option.bind_eq_bind, Option.bind_eq_some_iff, Option.pure_def,
        Option.some.injEq] at found
      obtain ⟨_, _, _, _, id, _, ⟨threadData, returned⟩, known, rfl⟩ := found
      cases returned with
      | true => cases waits
      | false => exact ⟨id, threadData, known⟩
  · cases waits

theorem step_main (advance : state.advance = some (output, after)) (ready : state.waits = false) :
    acceptLoop.step state .main = some (output, after) := by
  have taken : acceptLoop.step state .main = state.step .main := rfl
  rw [taken]
  cases here : state.pc with
  | accept | exited | crashed => simp [MainState.advance, here] at advance
  | _ => simp [MainState.step, here, ready, advance]

/-- What needs neither a client nor the signal to happen. -/
def MainEvent.unaided : MainEvent → Bool
  | .main | .accept .again | .returns _ => true
  | .signal | .complete _ | .accept _ => false

/-- The threads that were not seen to end. -/
def MainState.running (state : MainState) : Nat :=
  state.handlers.countP fun handler => !handler.returned

/-- The signal was there and `main` did not fail; so much is `left` to do at most. -/
structure Closing (state : MainState) (left : Nat) : Prop where
  asked : state.gracefullyExit = true
  goes : state.pc ≠ .exited false
  reached : acceptLoop.Reachable .start state
  left : ∃ cost, Costs state cost ∧ left = cost + state.running

theorem Closing.start (reached : acceptLoop.Reachable .start state)
    (asked : state.gracefullyExit = true) (goes : state.pc ≠ .exited false) :
    ∃ left, Closing state left ∧ left ≤ (state.handlers.length + 3) ^ 3 := by
  have known := reached
  obtain ⟨_, run⟩ := known
  obtain ⟨ledger, _, serves⟩ := run_serving run
  obtain ⟨cost, costs, most⟩ := serves.costs
  refine ⟨cost + state.running, ⟨asked, goes, reached, cost, costs, rfl⟩, ?_⟩
  have bound := mostCost_le serves.length_le
  have fewer : state.running ≤ state.handlers.length := List.countP_le_length
  omega

/-- Whoever of them moves, less is left afterwards. -/
theorem Closing.step (closing : Closing state left) (unaided : event.unaided = true)
    (taken : acceptLoop.step state event = some (output, after)) :
    ∃ less < left, Closing after less ∧ output.accepted = none ∧
      after.handlers.length = state.handlers.length := by
  obtain ⟨asked, goes, ⟨trace, run⟩, cost, costs, rfl⟩ := closing
  have reached : acceptLoop.Reachable .start after := ⟨_, run.next taken⟩
  obtain ⟨ledger, _, serves⟩ := run_serving run
  have moved : state.step event = some (output, after) := taken
  cases event with
  | signal | complete id => cases unaided
  | accept result =>
    cases result with
    | failed | connection cfd clientAddr => cases unaided
    | again =>
      obtain ⟨accepts, same⟩ := Option.ite_none_right_eq_some.mp moved
      cases same
      obtain ⟨count, _, _, head, _, _, rfl⟩ := costs
      refine ⟨6 * count + 7 + state.running, ?_, ⟨asked, by simp, reached, 6 * count + 7,
        ⟨count, 0, 0, head, .none _, .none _, rfl⟩, rfl⟩, rfl, rfl⟩
      rw [accepts, MainPc.cost]
      omega
  | returns id =>
    simp only [MainState.step] at moved
    split at moved
    · rename_i threadData runs
      cases moved
      obtain ⟨known, found⟩ := List.getElem?_eq_some_iff.mp runs
      have counted : 0 < state.handlers.countP fun handler => !handler.returned :=
        List.countP_pos_iff.mpr ⟨_, List.mem_of_getElem? runs, rfl⟩
      have fewer : (state.handlers.set id ⟨threadData, true⟩).countP (fun handler =>
          !handler.returned) = state.running - 1 := by
        rw [List.countP_set known, found]
        rfl
      refine ⟨_, ?_, ⟨asked, goes, reached, cost, costs, rfl⟩, rfl, List.length_set⟩
      rw [MainState.running, fewer]
      exact Nat.add_lt_add_left (Nat.sub_lt counted Nat.one_pos) cost
    · cases moved
  | main =>
    have elsewhere : state.pc ≠ .accept ∧ (∀ success, state.pc ≠ .exited success) ∧
        state.waits = false := by
      cases here : state.pc with
      | accept | exited | crashed => simp [MainState.step, here] at moved
      | _ =>
        refine ⟨by simp, by simp, ?_⟩
        simp only [MainState.step, here, Option.ite_none_left_eq_some] at moved
        exact Bool.not_eq_true _ ▸ moved.1
    obtain ⟨accepts, stays, ready⟩ := elsewhere
    obtain ⟨said, next, less, advance, cheap, cheaper, onwards, flag, handlers⟩ :=
      costs.descends serves asked stays accepts
    cases (step_main advance ready).symm.trans taken
    obtain ⟨_, _, _, same, turned, _⟩ := serves.advance ready stays accepts
    cases advance.symm.trans same
    refine ⟨less + after.running, ?_, ⟨flag.trans asked, onwards, reached, less, cheap, rfl⟩,
      turned.accepted, congrArg List.length handlers⟩
    rw [MainState.running, handlers, ← MainState.running]
    omega

/-- Before the end one of them can move. -/
theorem Closing.goesOn (closing : Closing state left) (notYet : state.pc ≠ .exited true) :
    ∃ event output after, event.unaided = true ∧
      acceptLoop.step state event = some (output, after) := by
  obtain ⟨asked, goes, ⟨trace, run⟩, cost, costs, _⟩ := closing
  obtain ⟨ledger, _, serves⟩ := run_serving run
  by_cases accepts : state.pc = .accept
  · exact ⟨.accept .again, _, _, rfl, if_pos accepts⟩
  cases waiting : state.waits with
  | true =>
    obtain ⟨id, threadData, runs⟩ := running_of_waits waiting
    refine ⟨.returns id, .quiet,
      { state with handlers := state.handlers.set id ⟨threadData, true⟩ }, rfl, ?_⟩
    simp only [acceptLoop, MainState.step, runs]
  | false =>
    have stays : ∀ success, state.pc ≠ .exited success := by
      intro success
      cases success with
      | true => exact notYet
      | false => exact goes
    obtain ⟨output, after, _, advance, _⟩ := costs.descends serves asked stays accepts
    exact ⟨.main, output, after, rfl, step_main advance waiting⟩

end Closing

end Aesd.Server
