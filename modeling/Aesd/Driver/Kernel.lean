import Aesd.Driver.CircularBuffer
import Aesd.Library.Heap
import Aesd.Library.Programs

/-! The kernel services the driver calls, and the state they act on. -/
namespace Aesd.Driver

open Aesd.Library

abbrev Byte := UInt8

def newline : Byte := 10

def ENOMEM : Int64 := 12
def EFAULT : Int64 := 14
def EINVAL : Int64 := 22
def ENOTTY : Int64 := 25
def ERESTARTSYS : Int64 := 512

/-- How the services behave during one call. `fresh` is what new memory holds
and `junk` what the stack slot of an uninitialised local holds. -/
structure Services where
  interrupted : Bool
  noMemory : Bool
  uncopied : Nat
  fresh : Nat → Byte
  junk : Int64

/-- No interruption, memory at hand, nothing left uncopied. -/
def Services.smooth : Services := ⟨false, false, 0, fun _ => 0, 0⟩

/-- A user buffer with its count. The VFS hands over no count above `SSIZE_MAX`. -/
inductive UserBuffer where
  | null (count : UInt64)
  | bytes (data : List Byte) (fits : data.length < 2 ^ 63)

def UserBuffer.count : UserBuffer → UInt64
  | .null count => count
  | .bytes data _ => UInt64.ofNat data.length

/-- What happened to the device lock, and whether it was held at each access to
what it protects: a member of the ring or of the pending entry, a byte of a command. -/
inductive LockEvent where
  | acquired
  | released (held : Bool)
  | access (held : Bool)
deriving DecidableEq, Repr

structure AesdDev where
  lock : Bool
  buffer : AesdCircularBuffer
  entry : AesdBufferEntry

/-- `fPos` holds every position in memory; that of an open file lies under its number. -/
structure DriverState where
  dev : AesdDev
  heap : Heap Byte
  fPos : Nat → Int64
  lockTrace : List LockEvent

/-- The ring, the pending entry, the kernel blocks and the positions. -/
structure Memory where
  buffer : AesdCircularBuffer
  entry : AesdBufferEntry
  heap : Heap Byte
  fPos : Nat → Int64

def DriverState.memory (state : DriverState) : Memory :=
  ⟨state.dev.buffer, state.dev.entry, state.heap, state.fPos⟩

/-- Driver code, cut at every access to what calls share and at every kernel service. -/
abbrev KernelM := Program DriverState

/-- One access or one kernel service. -/
def once {α : Type} (primitive : DriverState → α × DriverState) : KernelM α :=
  .act (fun state => (primitive state).2) fun state => .done (primitive state).1

@[simp] theorem run_once {α : Type} (primitive : DriverState → α × DriverState)
    (state : DriverState) : (once primitive).run state = primitive state := rfl

/-- Returns whether the wait for the lock was interrupted. -/
def mutexLockInterruptible (services : Services) : KernelM Bool :=
  if services.interrupted then
    .done true
  else
    .acquire (fun state => { state with
      dev := { state.dev with lock := true }
      lockTrace := state.lockTrace ++ [.acquired] }) (.done false)

def mutexUnlock : KernelM Unit :=
  .release (fun state => { state with
    dev := { state.dev with lock := false }
    lockTrace := state.lockTrace ++ [.released state.dev.lock] }) (.done ())

def DriverState.accessed (state : DriverState) : DriverState :=
  { state with lockTrace := state.lockTrace ++ [.access state.dev.lock] }

/-- One member of the ring: an offset, the flag, or a member of one slot. -/
def readBuffer {α : Type} (member : AesdCircularBuffer → α) : KernelM α :=
  once fun state => (member state.dev.buffer, state.accessed)

def writeBuffer (change : AesdCircularBuffer → AesdCircularBuffer) : KernelM Unit :=
  once fun state =>
    ((), { state.accessed with dev := { state.dev with buffer := change state.dev.buffer } })

/-- One member of the pending entry. -/
def readEntry {α : Type} (member : AesdBufferEntry → α) : KernelM α :=
  once fun state => (member state.dev.entry, state.accessed)

def writeEntry (change : AesdBufferEntry → AesdBufferEntry) : KernelM Unit :=
  once fun state =>
    ((), { state.accessed with dev := { state.dev with entry := change state.dev.entry } })

/-- One byte of a command; there is none behind the end of its block. -/
def readByte (buffptr : Option Nat) (index : Nat) : KernelM (Option Byte) :=
  once fun state => ((state.heap.deref buffptr)[index]?, state.accessed)

def writeByte (block index : Nat) (byte : Byte) : KernelM Unit :=
  once fun state => ((), { state.accessed with
    heap := state.heap.store block (patch (state.heap.bytes block) index [byte]) })

def getFPos (filp : Nat) : KernelM Int64 :=
  once fun state => (state.fPos filp, state)

def setFPos (filp : Nat) (position : Int64) : KernelM Unit :=
  once fun state => ((), { state with fPos := Function.update state.fPos filp position })

/-- An allocation can only succeed for sizes up to `PTRDIFF_MAX`. -/
def allocatable (services : Services) (size : UInt64) : Bool :=
  !services.noMemory && size.toNat < 2 ^ 63

/-- A new block that starts with `kept` and continues with whatever memory held. -/
def Services.contents (services : Services) (kept : List Byte) (size : UInt64) : List Byte :=
  kept.take size.toNat ++
    (List.range (size.toNat - (kept.take size.toNat).length)).map services.fresh

def kmalloc (services : Services) (size : UInt64) : KernelM (Option Nat) :=
  once fun state =>
    if allocatable services size then
      let (block, heap) := state.heap.alloc (services.contents [] size)
      (some block, { state with heap })
    else
      (none, state)

/-- On failure the old block stays as it is; on success it moves to a new one. -/
def krealloc (services : Services) (buffptr : Option Nat) (size : UInt64) :
    KernelM (Option Nat) :=
  match buffptr with
  | none => kmalloc services size
  | some old => once fun state =>
    if allocatable services size then
      let (block, heap) := state.heap.alloc (services.contents (state.heap.bytes old) size)
      (some block, { state with heap := heap.discard old })
    else
      (none, state)

def kfree (buffptr : Option Nat) : KernelM Unit :=
  match buffptr with
  | none => pure ()
  | some block => once fun state => ((), { state with heap := state.heap.free ⟨block, 0⟩ })

def storeBytes (block : Nat) : Nat → List Byte → KernelM Unit
  | _, [] => pure ()
  | index, byte :: rest => do
    writeByte block index byte
    storeBytes block (index + 1) rest

def loadBytes (buffptr : Option Nat) : List Nat → KernelM (List Byte)
  | [] => pure []
  | index :: rest => do
    let byte ← readByte buffptr index
    return byte.toList ++ (← loadBytes buffptr rest)

/-- Returns how many trailing bytes were not copied; those are zeroed in the block. -/
def copyFromUser (services : Services) (buffptr : Option Nat) (offset : UInt64)
    (data : List Byte) : KernelM UInt64 := do
  let bytes := min services.uncopied data.length
  let copied := data.take (data.length - bytes) ++ List.replicate bytes 0
  match buffptr with
  | none => return UInt64.ofNat bytes
  | some block =>
    storeBytes block offset.toNat copied
    return UInt64.ofNat bytes

/-- Returns how many trailing bytes were not copied, and the bytes user space received. -/
def copyToUser (services : Services) (buffptr : Option Nat) (offset count : UInt64) :
    KernelM (UInt64 × List Byte) := do
  let bytes := min services.uncopied count.toNat
  let received ← loadBytes buffptr (List.range' offset.toNat (count.toNat - bytes))
  return (UInt64.ofNat bytes, received)

/-- The first byte that is as wanted ends the search. -/
def findByte (buffptr : Option Nat) (wanted : Byte) : List Nat → KernelM Bool
  | [] => pure false
  | index :: rest => do
    if (← readByte buffptr index) = some wanted then
      return true
    findByte buffptr wanted rest

def memchr (buffptr : Option Nat) (byte : Byte) (size : UInt64) : KernelM Bool :=
  findByte buffptr byte (List.range size.toNat)

end Aesd.Driver
