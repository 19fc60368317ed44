import Aesd.Driver.SharedRing
import Aesd.Library.Machine

/-! The file operations of the character device, as `main.c` has them. -/
namespace Aesd.Driver

open Aesd.Library

/-- The returned value, with the bytes a read handed to user space. -/
structure Reply where
  retval : Int64
  received : List Byte
deriving DecidableEq, Repr

/-- Lines 80 to 83: no more than what is left of the entry. -/
def clipCount (slot : Slot) (offset count : UInt64) : KernelM UInt64 := do
  if count > (← readBuffer fun buffer => (buffer.entry slot).size) - offset then
    return (← readBuffer fun buffer => (buffer.entry slot).size) - offset
  return count

/-- `PDEBUG` prints `*f_pos` before anything else is done; what is printed stays out of
the model, the unlocked read does not. -/
def debugFPos (fPos : Nat) : KernelM Unit := do
  let _ ← getFPos fPos
  return ()

/-- `fPos` is where `*f_pos` lies. -/
def aesdRead (services : Services) (fPos : Nat) (bufIsNull : Bool) (count : UInt64) :
    KernelM Reply := do
  debugFPos fPos
  if bufIsNull then
    return ⟨-EFAULT, []⟩
  if ← mutexLockInterruptible services then
    return ⟨-ERESTARTSYS, []⟩
  let position ← getFPos fPos
  let (readEntry, offset) ←
    Shared.aesdCircularBufferFindEntryOffsetForFpos position.toUInt64 0
  match readEntry with
  | none =>
    mutexUnlock
    return ⟨0, []⟩
  | some slot =>
    let count ← clipCount slot offset count
    let buffptr ← readBuffer fun buffer => (buffer.entry slot).buffptr
    let (bytes, received) ← copyToUser services buffptr offset count
    let retval := (count - bytes).toInt64
    setFPos fPos ((← getFPos fPos) + retval)
    mutexUnlock
    return ⟨retval, received⟩

/-- Lines 126 to 147: make room for `count` more bytes. Returns whether that failed. -/
def growEntry (services : Services) (count : UInt64) : KernelM Bool := do
  if (← readEntry AesdBufferEntry.size) = 0 then
    let buffptr ← kmalloc services count
    writeEntry fun entry => { entry with buffptr }
  else
    let buffptr ← readEntry AesdBufferEntry.buffptr
    let size ← readEntry AesdBufferEntry.size
    let buffptr ← krealloc services buffptr (size + count)
    writeEntry fun entry => { entry with buffptr }
  return (← readEntry AesdBufferEntry.buffptr).isNone

/-- Lines 149 to 151: copy behind the bytes already there. Returns the bytes accepted. -/
def fillEntry (services : Services) (count : UInt64) (data : List Byte) : KernelM UInt64 := do
  let buffptr ← readEntry AesdBufferEntry.buffptr
  let size ← readEntry AesdBufferEntry.size
  let bytes ← copyFromUser services buffptr size data
  let retval := count - bytes
  let size ← readEntry AesdBufferEntry.size
  writeEntry fun entry => { entry with size := size + retval }
  return retval

/-- Lines 153 to 165: hand a finished command over to the ring. -/
def commitEntry (fPos : Nat) : KernelM Unit := do
  let buffptr ← readEntry AesdBufferEntry.buffptr
  let size ← readEntry AesdBufferEntry.size
  if ← memchr buffptr newline size then
    let entry ← Shared.aesdCircularBufferAddEntry
    if entry = none then
      kfree entry
    writeEntry fun entry => { entry with buffptr := none }
    let position ← getFPos fPos
    let size ← readEntry AesdBufferEntry.size
    setFPos fPos (position + size.toInt64)
    writeEntry fun entry => { entry with size := 0 }

def aesdWrite (services : Services) (fPos : Nat) (buf : UserBuffer) : KernelM Int64 := do
  debugFPos fPos
  if buf.count = 0 then
    return 0
  match buf with
  | .null _ => return -EFAULT
  | .bytes data _ =>
    if ← mutexLockInterruptible services then
      return -ERESTARTSYS
    if ← growEntry services buf.count then
      mutexUnlock
      return -ENOMEM
    let retval ← fillEntry services buf.count data
    commitEntry fPos
    mutexUnlock
    return retval.toInt64

inductive Whence where
  | seekSet
  | seekCur
  | seekEnd
  | other
deriving DecidableEq, Repr

/-- The step of the walk: back to slot 0 after the last one. -/
def nextPosition (position : Slot) : Slot :=
  if last : position.val = aesdcharMaxWriteOperationsSupported - 1 then 0
  else ⟨position.val + 1, by
    have below := position.isLt
    omega⟩

/-- A step that does not reach `in_offs` gets closer to it. -/
theorem nextPosition_closer (buffer : AesdCircularBuffer) (position : Slot)
    (continues : nextPosition position ≠ buffer.inSlot) :
    (buffer.inOffs.toNat + 9 - (nextPosition position).val) % 10 <
      (buffer.inOffs.toNat + 9 - position.val) % 10 := by
  have below : position.val < 10 := position.isLt
  have target := buffer.inOffs_lt_ten
  rw [ne_eq, Fin.ext_iff, AesdCircularBuffer.inSlot_val] at continues
  simp only [nextPosition, aesdcharMaxWriteOperationsSupported] at continues ⊢
  split at continues <;> simp_all <;> omega

/-- The do-while walk that adds up sizes until it reaches `in_offs`. -/
def walkToEnd (buffer : AesdCircularBuffer) (position : Slot) (totalLength : Int64) : Int64 :=
  let totalLength := (totalLength.toUInt64 + (buffer.entry position).size).toInt64
  if nextPosition position = buffer.inSlot then totalLength
  else walkToEnd buffer (nextPosition position) totalLength
termination_by (buffer.inOffs.toNat + 9 - position.val) % 10
decreasing_by
  apply nextPosition_closer
  assumption

/-- The switch over the origin; `none` is its default branch. `junk` is what the
source's uninitialised `totalLength` starts from. -/
def seekTarget (buffer : AesdCircularBuffer) (junk current fPos : Int64) : Whence → Option Int64
  | .seekSet => some fPos
  | .seekCur => some (current + fPos)
  | .seekEnd => some (walkToEnd buffer buffer.outSlot junk + fPos)
  | .other => none

namespace Shared

/-- The walk on the ring of the device. Each round reads `in_offs` anew; as long as nobody
moves it, ten rounds are enough. -/
def walkToEnd : Nat → Slot → Int64 → KernelM Int64
  | 0, _, totalLength => pure totalLength
  | rounds + 1, position, totalLength => do
    let size ← readBuffer fun buffer => (buffer.entry position).size
    let totalLength := (totalLength.toUInt64 + size).toInt64
    if nextPosition position = (← readBuffer AesdCircularBuffer.inSlot) then
      return totalLength
    walkToEnd rounds (nextPosition position) totalLength

def seekTarget (filp : Nat) (position : Slot) (junk fPos : Int64) :
    Whence → KernelM (Option Int64)
  | .seekSet => return some fPos
  | .seekCur => return some ((← getFPos filp) + fPos)
  | .seekEnd => do
    let totalLength ← walkToEnd aesdcharMaxWriteOperationsSupported position junk
    return some (totalLength + fPos)
  | .other => return none

end Shared

def aesdLlseek (services : Services) (filp : Nat) (fPos : Int64) (origin : Whence) :
    KernelM Int64 := do
  if ← mutexLockInterruptible services then
    return -ERESTARTSYS
  let position ← readBuffer AesdCircularBuffer.outSlot
  match ← Shared.seekTarget filp position services.junk fPos origin with
  | none =>
    mutexUnlock
    return -EINVAL
  | some retval =>
    if retval < 0 then
      mutexUnlock
      return -EINVAL
    setFPos filp retval
    mutexUnlock
    return retval

def AESD_IOC_MAGIC : UInt32 := 0x16
def AESDCHAR_IOC_MAXNR : UInt32 := 1

/-- `_IOWR(AESD_IOC_MAGIC, 1, struct aesd_seekto)`: direction 3, size 8. -/
def AESDCHAR_IOCSEEKTO : UInt32 := 0xC0081601

def iocType (cmd : UInt32) : UInt32 := (cmd >>> 8) &&& 0xff
def iocNr (cmd : UInt32) : UInt32 := cmd &&& 0xff

structure AesdSeekto where
  writeCmd : UInt32
  writeCmdOffset : UInt32
deriving DecidableEq, Repr

/-- The loop that adds up the sizes of the slots below `writeCmd`. -/
def sizesBelow (buffer : AesdCircularBuffer) (writeCmd : Nat) : Int64 :=
  (List.range writeCmd).foldl
    (fun offset i => (offset.toUInt64 + (buffer.entry (slotOf i)).size).toInt64) 0

namespace Shared

def sizesBelow (offset : Int64) : List Nat → KernelM Int64
  | [] => pure offset
  | i :: rest => do
    let size ← readBuffer fun buffer => (buffer.entry (slotOf i)).size
    sizesBelow (offset.toUInt64 + size).toInt64 rest

/-- Lines 259 and 260; the size is read only where there is such a slot. -/
def outside (seekTo : AesdSeekto) : KernelM Bool := do
  if seekTo.writeCmd.toNat ≥ aesdcharMaxWriteOperationsSupported then
    return true
  let size ← readBuffer fun buffer => (buffer.entry (slotOf seekTo.writeCmd.toNat)).size
  return decide (seekTo.writeCmdOffset.toUInt64 ≥ size)

end Shared

def aesdIoctl (services : Services) (filp : Nat) (cmd : UInt32) (arg : AesdSeekto) :
    KernelM Int64 := do
  if iocType cmd ≠ AESD_IOC_MAGIC then
    return -ENOTTY
  if iocNr cmd > AESDCHAR_IOC_MAXNR then
    return -ENOTTY
  if min services.uncopied 8 ≠ 0 then
    return -EFAULT
  let seekTo := arg
  if ← mutexLockInterruptible services then
    return -ERESTARTSYS
  if ← Shared.outside seekTo then
    mutexUnlock
    return -EINVAL
  let offset ← Shared.sizesBelow 0 (List.range seekTo.writeCmd.toNat)
  setFPos filp (offset + seekTo.writeCmdOffset.toUInt64.toInt64)
  mutexUnlock
  return 0

inductive Operation where
  | read (bufIsNull : Bool) (count : UInt64)
  | write (buf : UserBuffer)
  | llseek (fPos : Int64) (origin : Whence)
  | ioctl (cmd : UInt32) (arg : AesdSeekto)

/-- One system call on the open file `filp`. -/
structure Call where
  filp : Nat
  services : Services
  operation : Operation

/-- A read and a write are handed the position of the file they are made on. -/
def Call.code (call : Call) : KernelM Reply := do
  match call.operation with
  | .read bufIsNull count => aesdRead call.services call.filp bufIsNull count
  | .write buf => return ⟨← aesdWrite call.services call.filp buf, []⟩
  | .llseek fPos origin => return ⟨← aesdLlseek call.services call.filp fPos origin, []⟩
  | .ioctl cmd arg => return ⟨← aesdIoctl call.services call.filp cmd arg, []⟩

def Call.run (call : Call) (state : DriverState) : Reply × DriverState := call.code.run state

/-- The device as `aesd_init_module` leaves it. -/
def aesdInitModule : DriverState where
  dev := ⟨false, aesdCircularBufferInit, .zero⟩
  heap := .empty
  fPos := fun _ => 0
  lockTrace := []

/-- Calls take effect one at a time, since each holds the device lock throughout. -/
def driver : Machine DriverState Call Reply where
  step state call := some (call.run state)

/-- The state after a list of calls, and the calls with their replies. -/
def replay (start : DriverState) (calls : List Call) : DriverState :=
  calls.foldl (fun state call => (call.run state).2) start

def replayTrace (start : DriverState) : List Call → List (Call × Reply)
  | [] => []
  | call :: rest => (call, (call.run start).1) :: replayTrace (call.run start).2 rest

theorem exec_replay (start : DriverState) (calls : List Call) :
    driver.exec start calls = some (replayTrace start calls, replay start calls) := by
  induction calls generalizing start with
  | nil => rfl
  | cons call rest ih =>
    have taken : driver.step start call = some ((call.run start).1, (call.run start).2) := rfl
    simp only [Machine.exec, taken, ih]
    rfl

theorem replay_run (start : DriverState) (calls : List Call) :
    driver.Run start (replayTrace start calls) (replay start calls) :=
  .of_exec (exec_replay start calls)

theorem replayTrace_append_singleton (start : DriverState) (calls : List Call) (call : Call) :
    replayTrace start (calls ++ [call]) =
      replayTrace start calls ++ [(call, (call.run (replay start calls)).1)] := by
  induction calls generalizing start with
  | nil => rfl
  | cons first rest ih =>
    rw [List.cons_append, replayTrace, replayTrace, ih]
    rfl

theorem replay_reachable (start : DriverState) (calls : List Call) :
    driver.Reachable start (replay start calls) :=
  ⟨_, replay_run start calls⟩

end Aesd.Driver
