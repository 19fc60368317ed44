import Aesd.Library.Chain
import Aesd.Library.Heap
import Aesd.Library.Machine

/-! The accept loop of `main` with its list of connections, and the handler threads as
far as `main` sees them: they set their flag and return. -/
namespace Aesd.Server

open Aesd.Library

structure SocketThreadData where
  mutexExit : Nat
  cfd : Nat
  complete : Bool
  exit : Bool
deriving DecidableEq, Repr

structure SlistData where
  thread : Nat
  threadData : Nat
  clientAddr : UInt32
  sleNext : Option Nat
deriving DecidableEq, Repr

/-- What the blocks hold that `main` allocates. -/
inductive Cell where
  | slistData (data : SlistData)
  | threadData (data : SocketThreadData)
  | thread (id : Nat)
  | mutex
deriving DecidableEq, Repr

section Memory

/-- Reading through a pointer to a node; `none` once the node is freed. -/
def readNode (heap : Heap Cell) (block : Nat) : Option SlistData :=
  match heap.cells block with
  | some [.slistData data] => some data
  | _ => none

def readThreadData (heap : Heap Cell) (block : Nat) : Option SocketThreadData :=
  match heap.cells block with
  | some [.threadData data] => some data
  | _ => none

def readThread (heap : Heap Cell) (block : Nat) : Option Nat :=
  match heap.cells block with
  | some [.thread id] => some id
  | _ => none

def readMutex (heap : Heap Cell) (block : Nat) : Option Unit :=
  match heap.cells block with
  | some [.mutex] => some ()
  | _ => none

/-- `SLIST_NEXT`. -/
def slistNext (heap : Heap Cell) (elm : Nat) : Option (Option Nat) :=
  (readNode heap elm).map SlistData.sleNext

def setSlistNext (heap : Heap Cell) (elm : Nat) (next : Option Nat) : Option (Heap Cell) :=
  (readNode heap elm).map fun data =>
    heap.store elm [.slistData { data with sleNext := next }]

/-- `SLIST_REMOVE_AFTER`. -/
def slistRemoveAfter (heap : Heap Cell) (elm : Nat) : Option (Heap Cell) := do
  let removed ← (← slistNext heap elm)
  setSlistNext heap elm (← slistNext heap removed)

end Memory

/-- The places of `main` from its accept loop on. The flag tells the last
`SLIST_FOREACH_SAFE` from the one in the accept loop; they share the body but for the
test of `complete`. -/
inductive MainPc where
  | loopHead
  | accept
  | visit (final : Bool)
  | test
  | join (final : Bool)
  | close (final : Bool)
  | remove (final : Bool)
  | walk (final : Bool)
  | free (final : Bool)
  | ask
  | exited (success : Bool)
  | crashed
deriving DecidableEq, Repr

/-- A thread that `pthread_create` has started. -/
structure Handler where
  threadData : Nat
  returned : Bool
deriving DecidableEq, Repr

/-- The variables of `main` with the memory they point into. -/
structure MainState where
  pc : MainPc
  heap : Heap Cell
  head : Option Nat
  node : Option Nat
  tempNode : Option Nat
  curelm : Option Nat
  gracefullyExit : Bool
  handlers : List Handler

def MainState.start : MainState :=
  ⟨.loopHead, .empty, none, none, none, none, false, []⟩

/-- The outcome of `accept`: `EAGAIN`, an error of it or of `inet_ntop`, or a connection. -/
inductive Accepted where
  | again
  | failed
  | connection (cfd : Nat) (clientAddr : UInt32)
deriving DecidableEq, Repr

/-- What is allocated and started for a connection. -/
structure Connection where
  threadData : Nat
  mutexExit : Nat
  node : Nat
  thread : Nat
  handler : Nat
  cfd : Nat
  clientAddr : UInt32
deriving DecidableEq, Repr

/-- What `main` does to a connection that it reaps. -/
inductive Effect where
  | joined (handler : Nat)
  | logged (node : Nat) (clientAddr : UInt32)
  | closed (node : Nat) (cfd : Nat)
  | removed (node : Nat)
deriving DecidableEq, Repr

structure Output where
  accepted : Option Connection
  effects : List Effect
deriving DecidableEq, Repr

def Output.quiet : Output := ⟨none, []⟩

/-- The interleaving: the signal, the handlers, the outcome of `accept`, and the next
step of `main`. -/
inductive MainEvent where
  | signal
  | complete (handler : Nat)
  | returns (handler : Nat)
  | accept (result : Accepted)
  | main
deriving DecidableEq, Repr

namespace MainState

/-- Lines 425 to 438: nothing here is seen by another thread before `pthread_create`. -/
def serve (state : MainState) (cfd : Nat) (clientAddr : UInt32) : Output × MainState :=
  let (threadData, heap) := state.heap.alloc []
  let (mutexExit, heap) := heap.alloc [.mutex]
  let heap := heap.store threadData [.threadData ⟨mutexExit, cfd, false, false⟩]
  let (node, heap) := heap.alloc []
  let (thread, heap) := heap.alloc [.thread state.handlers.length]
  let heap := heap.store node [.slistData ⟨thread, threadData, clientAddr, state.head⟩]
  (⟨some ⟨threadData, mutexExit, node, thread, state.handlers.length, cfd, clientAddr⟩, []⟩,
    { state with
      heap
      head := some node
      node := some node
      handlers := state.handlers ++ [⟨threadData, false⟩]
      pc := .visit false })

/-- The list head from which a `SLIST_FOREACH` starts. -/
def foreach (state : MainState) (pc : MainPc) : MainState :=
  { state with node := state.head, pc }

/-- Lines 447 to 450. -/
def release (state : MainState) (node : Nat) : Option MainState := do
  let data ← readNode state.heap node
  let threadData ← readThreadData state.heap data.threadData
  return { state with heap :=
    state.heap.freeAll [threadData.mutexExit, data.threadData, data.thread, node] }

/-- The next step of `main`; `none` where it reads through a pointer that leads nowhere. -/
def advance (state : MainState) : Option (Output × MainState) :=
  match state.pc with
  | .loopHead =>
    some (.quiet, if state.gracefullyExit then state.foreach .ask
      else { state with pc := .accept })
  | .visit final =>
    match state.node with
    | none => some (.quiet, { state with pc := if final then .exited true else .loopHead })
    | some node => do
      let tempNode ← slistNext state.heap node
      return (.quiet, { state with tempNode, pc := if final then .join true else .test })
  | .test => do
    let data ← readNode state.heap (← state.node)
    let threadData ← readThreadData state.heap data.threadData
    return (.quiet, if threadData.complete then { state with pc := .join false }
      else { state with node := state.tempNode, pc := .visit false })
  | .join final => do
    let node ← state.node
    let data ← readNode state.heap node
    let handler ← readThread state.heap data.thread
    return (⟨none, [.joined handler, .logged node data.clientAddr]⟩,
      { state with pc := .close final })
  | .close final => do
    let node ← state.node
    let data ← readNode state.heap node
    let threadData ← readThreadData state.heap data.threadData
    return (⟨none, [.closed node threadData.cfd]⟩, { state with pc := .remove final })
  | .remove final => do
    let node ← state.node
    if state.head = some node then
      let head ← slistNext state.heap node
      return (⟨none, [.removed node]⟩, { state with head, pc := .free final })
    else
      return (.quiet, { state with curelm := state.head, pc := .walk final })
  | .walk final => do
    let node ← state.node
    let curelm ← state.curelm
    let next ← slistNext state.heap curelm
    if next = some node then
      let heap ← slistRemoveAfter state.heap curelm
      return (⟨none, [.removed node]⟩, { state with heap, pc := .free final })
    else
      return (.quiet, { state with curelm := next })
  | .free final => do
    let released ← state.release (← state.node)
    return (.quiet, { released with node := state.tempNode, pc := .visit final })
  | .ask =>
    match state.node with
    | none => some (.quiet, state.foreach (.visit true))
    | some node => do
      let data ← readNode state.heap node
      let threadData ← readThreadData state.heap data.threadData
      let _ ← readMutex state.heap threadData.mutexExit
      let heap := state.heap.store data.threadData [.threadData { threadData with exit := true }]
      return (.quiet, { state with heap, node := ← slistNext heap node })
  | .accept | .exited _ | .crashed => none

/-- `pthread_join` waits until the thread of the node has returned. -/
def waits (state : MainState) : Bool :=
  match state.pc with
  | .join _ =>
    ((do
      let data ← readNode state.heap (← state.node)
      let handler ← state.handlers[← readThread state.heap data.thread]?
      return !handler.returned) : Option Bool).getD false
  | _ => false

/-- A running handler sets its flag in memory. -/
def setComplete (state : MainState) (handler : Handler) : Option MainState :=
  (readThreadData state.heap handler.threadData).map fun threadData =>
    { state with heap :=
        state.heap.store handler.threadData [.threadData { threadData with complete := true }] }

def crash (state : MainState) : Output × MainState := (.quiet, { state with pc := .crashed })

def step (state : MainState) : MainEvent → Option (Output × MainState)
  | .signal => some (.quiet, { state with gracefullyExit := true })
  | .complete id =>
    match state.handlers[id]? with
    | some ⟨threadData, false⟩ =>
      some (((state.setComplete ⟨threadData, false⟩).map fun after => (.quiet, after)).getD
        state.crash)
    | _ => none
  | .returns id =>
    match state.handlers[id]? with
    | some ⟨threadData, false⟩ =>
      some (.quiet, { state with handlers := state.handlers.set id ⟨threadData, true⟩ })
    | _ => none
  | .accept result =>
    if state.pc = .accept then
      some (match result with
        | .again => (.quiet, { state with pc := .loopHead })
        | .failed => (.quiet, { state with pc := .exited false })
        | .connection cfd clientAddr => state.serve cfd clientAddr)
    else none
  | .main =>
    match state.pc with
    | .accept | .exited _ | .crashed => none
    | _ => if state.waits then none else some (state.advance.getD state.crash)

end MainState

/-- The accept loop of `main` among its handler threads. -/
def acceptLoop : Machine MainState MainEvent Output where
  step := MainState.step

end Aesd.Server
