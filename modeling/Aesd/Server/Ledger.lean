import Aesd.Server.AcceptLoop

/-! The ledger of the accept loop: which connections are reaped, passed, in hand or
ahead, and what the memory of `main` has to look like for it. -/
namespace Aesd.Server

open Aesd.Library

namespace Connection

def blocks (connection : Connection) : List Nat :=
  [connection.mutexExit, connection.threadData, connection.thread, connection.node]

/-- All that is done to the connection before its memory is freed. -/
def script (connection : Connection) : List Effect :=
  [.joined connection.handler, .logged connection.node connection.clientAddr,
    .closed connection.node connection.cfd, .removed connection.node]

def frees (connection : Connection) : List Release :=
  connection.blocks.map fun block => ⟨⟨block, 0⟩, true⟩

end Connection

def accepted (trace : List (MainEvent × Output)) : List Connection :=
  trace.filterMap fun step => step.2.accepted

def effects (trace : List (MainEvent × Output)) : List Effect :=
  trace.flatMap fun step => step.2.effects

/-- What never changes in a block: all but the link and the two flags. -/
def Cell.fixed : Cell → Cell
  | .slistData data => .slistData { data with sleNext := none }
  | .threadData data => .threadData { data with complete := false, exit := false }
  | .thread id => .thread id
  | .mutex => .mutex

/-- The memory of a connection that was not freed. -/
structure Holds (heap : Heap Cell) (connection : Connection) : Prop where
  node : ∃ next, heap.cells connection.node = some [.slistData
    ⟨connection.thread, connection.threadData, connection.clientAddr, next⟩]
  threadData : ∃ complete exit, heap.cells connection.threadData = some [.threadData
    ⟨connection.mutexExit, connection.cfd, complete, exit⟩]
  thread : heap.cells connection.thread = some [.thread connection.handler]
  mutexExit : heap.cells connection.mutexExit = some [.mutex]

/-- The connections of a run: reaped ones, those the current traversal has passed, the
one in hand, and those ahead. -/
structure Ledger where
  finished : List Connection
  before : List Connection
  current : Option Connection
  after : List Connection

namespace Ledger

/-- The connections that are not reaped, with or without the one in hand. -/
def list (ledger : Ledger) (inHand : Bool) : List Connection :=
  ledger.before ++ ((if inHand then ledger.current.toList else []) ++ ledger.after)

def all (ledger : Ledger) : List Connection := ledger.finished ++ ledger.list true

end Ledger

namespace MainPc

/-- The thread of the connection in hand is joined. -/
def joined : MainPc → Bool
  | .close _ | .remove _ | .walk _ | .free _ => true
  | _ => false

/-- Its node is out of the list. -/
def unlinked : MainPc → Bool
  | .free _ => true
  | _ => false

/-- How much of its script is done. -/
def performed : MainPc → Nat
  | .close _ => 2
  | .remove _ | .walk _ => 3
  | .free _ => 4
  | _ => 0

end MainPc

def firstNode (connections : List Connection) : Option Nat :=
  (connections.map Connection.node).head?

/-- The traversal stands at a connection and has saved the next one. -/
def InHand (state : MainState) (ledger : Ledger) : Prop :=
  ∃ connection, ledger.current = some connection ∧ state.node = some connection.node ∧
    state.tempNode = firstNode ledger.after

/-- Where the traversal stands. The last one leaves nothing behind. -/
def Standing (state : MainState) (ledger : Ledger) : Prop :=
  match state.pc with
  | .loopHead | .accept | .exited false => ledger.current = none
  | .exited true => ledger.current = none ∧ ledger.before = [] ∧ ledger.after = []
  | .ask => ledger.current = none ∧ state.node = firstNode ledger.after
  | .visit final => ledger.current = none ∧ state.node = firstNode ledger.after ∧
      (final = true → ledger.before = [])
  | .test => InHand state ledger
  | .join final | .close final | .remove final | .free final =>
    InHand state ledger ∧ (final = true → ledger.before = [])
  | .walk final => InHand state ledger ∧ (final = true → ledger.before = []) ∧
      ∃ passed ∈ ledger.before, state.curelm = some passed.node
  | .crashed => False

/-- The connections have memory and threads of their own. -/
structure Distinct (connections : List Connection) : Prop where
  nodup : connections.Nodup
  blocks : ∀ connection ∈ connections, connection.blocks.Nodup
  shared : ∀ first ∈ connections, ∀ second ∈ connections, ∀ block ∈ first.blocks,
    block ∈ second.blocks → first = second
  handler : ∀ first ∈ connections, ∀ second ∈ connections,
    first.handler = second.handler → first = second

/-- The list, the memory and the threads are those of the connections not yet reaped. -/
structure Serves (state : MainState) (ledger : Ledger) : Prop where
  distinct : Distinct ledger.all
  old : ∀ connection ∈ ledger.all, ∀ block ∈ connection.blocks, block < state.heap.next
  started : ∀ connection ∈ ledger.all, connection.handler < state.handlers.length
  running : ∀ id threadData, state.handlers[id]? = some ⟨threadData, false⟩ →
    ∃ connection ∈ ledger.list (!state.pc.joined),
      connection.handler = id ∧ connection.threadData = threadData
  chain : Chain (slistNext state.heap) state.head
    ((ledger.list (!state.pc.unlinked)).map Connection.node)
  holds : ∀ connection ∈ ledger.list true, Holds state.heap connection
  releases : state.heap.releases = ledger.finished.flatMap Connection.frees
  standing : Standing state ledger

/-- The whole script of each reaped connection and the beginning of the script of the
one in hand. -/
def Ledger.done (ledger : Ledger) (pc : MainPc) : List Effect :=
  ledger.finished.flatMap Connection.script ++
    ledger.current.toList.flatMap fun connection => connection.script.take pc.performed

/-- The ledger is about this run. -/
structure Books (trace : List (MainEvent × Output)) (pc : MainPc) (ledger : Ledger) : Prop where
  accepted : (accepted trace).Perm ledger.all
  effects : effects trace = ledger.done pc

section Memory

variable {heap : Heap Cell} {connection other : Connection}

theorem Holds.readNode (holds : Holds heap connection) : ∃ next, readNode heap connection.node =
    some ⟨connection.thread, connection.threadData, connection.clientAddr, next⟩ := by
  obtain ⟨next, node⟩ := holds.node
  exact ⟨next, by rw [Server.readNode, node]⟩

theorem Holds.readThreadData (holds : Holds heap connection) : ∃ complete exit,
    readThreadData heap connection.threadData =
      some ⟨connection.mutexExit, connection.cfd, complete, exit⟩ := by
  obtain ⟨complete, exit, threadData⟩ := holds.threadData
  exact ⟨complete, exit, by rw [Server.readThreadData, threadData]⟩

theorem Holds.readThread (holds : Holds heap connection) :
    readThread heap connection.thread = some connection.handler := by
  rw [Server.readThread, holds.thread]

theorem Holds.readMutex (holds : Holds heap connection) :
    readMutex heap connection.mutexExit = some () := by
  rw [Server.readMutex, holds.mutexExit]

theorem Holds.live (holds : Holds heap connection) :
    ∀ block ∈ connection.blocks, heap.live block := by
  obtain ⟨_, node⟩ := holds.node
  obtain ⟨_, _, threadData⟩ := holds.threadData
  intro block member
  simp only [Connection.blocks, List.mem_cons, List.not_mem_nil, or_false] at member
  rw [Heap.live]
  rcases member with rfl | rfl | rfl | rfl
  · rw [holds.mutexExit]; rfl
  · rw [threadData]; rfl
  · rw [holds.thread]; rfl
  · rw [node]; rfl

theorem Holds.congr {changed : Heap Cell} (holds : Holds heap connection)
    (same : ∀ block ∈ connection.blocks, changed.cells block = heap.cells block) :
    Holds changed connection := by
  constructor
  · rw [same _ (by simp [Connection.blocks])]
    exact holds.node
  · rw [same _ (by simp [Connection.blocks])]
    exact holds.threadData
  · rw [same _ (by simp [Connection.blocks])]
    exact holds.thread
  · rw [same _ (by simp [Connection.blocks])]
    exact holds.mutexExit

theorem slistNext_congr {changed : Heap Cell} {block : Nat}
    (same : changed.cells block = heap.cells block) :
    slistNext changed block = slistNext heap block := by
  rw [slistNext, slistNext, readNode, readNode, same]

theorem slistNext_store_threadData {block : Nat} {old new : SocketThreadData}
    (found : heap.cells block = some [.threadData old]) (elm : Nat) :
    slistNext (heap.store block [.threadData new]) elm = slistNext heap elm := by
  by_cases same : elm = block
  · subst same
    have live : heap.live elm := by rw [Heap.live, found]; rfl
    rw [slistNext, slistNext, readNode, readNode, Heap.store_cells_self _ live, found]
  · exact slistNext_congr (Heap.store_cells_of_ne heap _ same)

/-- Writing to a block what keeps its fixed part leaves every connection its memory. -/
theorem Holds.store {block : Nat} {old new : Cell} (holds : Holds heap connection)
    (found : heap.cells block = some [old]) (fixed : new.fixed = old.fixed) :
    Holds (heap.store block [new]) connection := by
  have live : heap.live block := by rw [Heap.live, found]; rfl
  have kept : ∀ other cell, heap.cells other = some [cell] →
      ∃ now, (heap.store block [new]).cells other = some [now] ∧ now.fixed = cell.fixed := by
    intro other cell was
    by_cases same : other = block
    · subst same
      cases was.symm.trans found
      exact ⟨new, Heap.store_cells_self _ live, fixed⟩
    · exact ⟨cell, by rw [Heap.store_cells_of_ne _ _ same, was], rfl⟩
  constructor
  · obtain ⟨next, node⟩ := holds.node
    obtain ⟨now, stored, same⟩ := kept _ _ node
    cases now with
    | slistData data =>
      obtain ⟨thread, threadData, clientAddr, link⟩ := data
      cases same
      exact ⟨link, stored⟩
    | _ => cases same
  · obtain ⟨was, asked, threadData⟩ := holds.threadData
    obtain ⟨now, stored, same⟩ := kept _ _ threadData
    cases now with
    | threadData data =>
      obtain ⟨mutexExit, cfd, complete, exit⟩ := data
      cases same
      exact ⟨complete, exit, stored⟩
    | _ => cases same
  · obtain ⟨now, stored, same⟩ := kept _ _ holds.thread
    cases now with
    | thread id =>
      cases same
      exact stored
    | _ => cases same
  · obtain ⟨now, stored, same⟩ := kept _ _ holds.mutexExit
    cases now with
    | mutex => exact stored
    | _ => cases same

end Memory

section Lists

variable {state after : MainState} {ledger next : Ledger} {connection : Connection}

theorem Ledger.mem_list (ledger : Ledger) (inHand : Bool) (member : connection ∈ ledger.list inHand) :
    connection ∈ ledger.list true := by
  cases inHand with
  | true => exact member
  | false =>
    rcases List.mem_append.mp member with earlier | later
    · exact List.mem_append_left _ earlier
    · exact List.mem_append_right _ (List.mem_append_right _ later)

theorem Ledger.mem_all (ledger : Ledger) (inHand : Bool) (member : connection ∈ ledger.list inHand) :
    connection ∈ ledger.all :=
  List.mem_append_right _ (ledger.mem_list inHand member)

theorem Distinct.perm {first second : List Connection} (distinct : Distinct first)
    (same : first.Perm second) : Distinct second where
  nodup := same.nodup_iff.mp distinct.nodup
  blocks := fun connection member => distinct.blocks connection (same.mem_iff.mpr member)
  shared := fun one oneMember other otherMember =>
    distinct.shared one (same.mem_iff.mpr oneMember) other (same.mem_iff.mpr otherMember)
  handler := fun one oneMember other otherMember =>
    distinct.handler one (same.mem_iff.mpr oneMember) other (same.mem_iff.mpr otherMember)

theorem Distinct.cons {connections : List Connection} (distinct : Distinct connections)
    (blocks : connection.blocks.Nodup)
    (apart : ∀ other ∈ connections, ∀ block ∈ other.blocks, block ∉ connection.blocks)
    (handler : ∀ other ∈ connections, other.handler ≠ connection.handler) :
    Distinct (connection :: connections) where
  nodup := by
    refine List.nodup_cons.mpr ⟨fun member => ?_, distinct.nodup⟩
    have inside : connection.node ∈ connection.blocks := by simp [Connection.blocks]
    exact apart connection member _ inside inside
  blocks := by
    rintro other (_ | ⟨_, member⟩)
    · exact blocks
    · exact distinct.blocks other member
  shared := by
    rintro first (_ | ⟨_, firstMember⟩) second (_ | ⟨_, secondMember⟩) block inFirst inSecond
    · rfl
    · exact absurd inFirst (apart second secondMember block inSecond)
    · exact absurd inSecond (apart first firstMember block inFirst)
    · exact distinct.shared first firstMember second secondMember block inFirst inSecond
  handler := by
    rintro first (_ | ⟨_, firstMember⟩) second (_ | ⟨_, secondMember⟩) same
    · rfl
    · exact absurd same.symm (handler second secondMember)
    · exact absurd same (handler first firstMember)
    · exact distinct.handler first firstMember second secondMember same

/-- The other connections share no block with the one in hand. -/
theorem Distinct.apart {finished passed rest : List Connection} {block : Nat}
    (distinct : Distinct (⟨finished, passed, some connection, rest⟩ : Ledger).all)
    {other : Connection} (member : other ∈ passed ++ rest) (inside : block ∈ other.blocks) :
    block ∉ connection.blocks := by
  intro shared
  have inList : other ∈ (⟨finished, passed, some connection, rest⟩ : Ledger).list true := by
    rcases List.mem_append.mp member with earlier | later
    · exact List.mem_append_left _ earlier
    · exact List.mem_append_right _ (List.mem_cons_of_mem _ later)
  have inHand : connection ∈ (⟨finished, passed, some connection, rest⟩ : Ledger).list true :=
    List.mem_append_right _ List.mem_cons_self
  obtain rfl := distinct.shared other (Ledger.mem_all _ true inList) connection
    (Ledger.mem_all _ true inHand) block inside shared
  have single := (List.nodup_append.mp distinct.nodup).2.1
  exact (List.nodup_cons.mp (List.nodup_middle.mp single)).1 member

theorem Serves.moved (serves : Serves state ledger) (heap : after.heap = state.heap)
    (head : after.head = state.head) (handlers : after.handlers = state.handlers)
    (finished : next.finished = ledger.finished) (list : next.list true = ledger.list true)
    (linked : next.list (!after.pc.unlinked) = ledger.list (!state.pc.unlinked))
    (running : next.list (!after.pc.joined) = ledger.list (!state.pc.joined))
    (standing : Standing after next) : Serves after next := by
  have all : next.all = ledger.all := by rw [Ledger.all, finished, list, Ledger.all]
  constructor
  · rw [all]
    exact serves.distinct
  · rw [all, heap]
    exact serves.old
  · rw [all, handlers]
    exact serves.started
  · rw [handlers, running]
    exact serves.running
  · rw [heap, head, linked]
    exact serves.chain
  · rw [heap, list]
    exact serves.holds
  · rw [heap, finished]
    exact serves.releases
  · exact standing

/-- A flag of a connection may be set at any time. -/
theorem Serves.store_threadData (serves : Serves state ledger) {block : Nat}
    {old new : SocketThreadData} (found : state.heap.cells block = some [.threadData old])
    (fixed : (Cell.threadData new).fixed = (Cell.threadData old).fixed) :
    Serves { state with heap := state.heap.store block [.threadData new] } ledger where
  distinct := serves.distinct
  old := serves.old
  started := serves.started
  running := serves.running
  chain := serves.chain.congr fun node _ => slistNext_store_threadData found node
  holds := fun connection member => (serves.holds connection member).store found fixed
  releases := serves.releases
  standing := serves.standing

theorem Serves.head_eq (serves : Serves state ledger) :
    state.head = firstNode (ledger.list (!state.pc.unlinked)) :=
  serves.chain.pointer_eq

theorem Serves.link (serves : Serves state ledger) (passed rest : List Connection)
    (place : ledger.list (!state.pc.unlinked) = passed ++ connection :: rest) :
    slistNext state.heap connection.node = some (firstNode rest) := by
  have chain := serves.chain
  rw [place, List.map_append, List.map_cons] at chain
  exact chain.link

theorem Serves.inHand (serves : Serves state ledger) (inHand : InHand state ledger) :
    ∃ connection, ledger.current = some connection ∧ state.node = some connection.node ∧
      state.tempNode = firstNode ledger.after ∧ Holds state.heap connection := by
  obtain ⟨connection, current, node, next⟩ := inHand
  refine ⟨connection, current, node, next, serves.holds connection ?_⟩
  rw [Ledger.list, current]
  exact List.mem_append_right _ List.mem_cons_self

end Lists

end Aesd.Server
