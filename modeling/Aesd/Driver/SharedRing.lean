import Aesd.Driver.Kernel

/-! The functions of `aesd-circular-buffer.c` on the ring of the device, one access at
a time; the locking is the caller's. -/
namespace Aesd.Driver

/-- The step of `out_offs`, with the value that was read of it. -/
def AesdCircularBuffer.setOutOffs (offs : UInt8) (buffer : AesdCircularBuffer) :
    AesdCircularBuffer :=
  { buffer with outOffs := advance offs, outOffs_lt := advance_lt offs }

def AesdCircularBuffer.setInOffs (offs : UInt8) (buffer : AesdCircularBuffer) :
    AesdCircularBuffer :=
  { buffer with inOffs := advance offs, inOffs_lt := advance_lt offs }

namespace Shared

def totalEntries : KernelM Nat := do
  if ← readBuffer AesdCircularBuffer.full then
    return aesdcharMaxWriteOperationsSupported
  return (← readBuffer AesdCircularBuffer.inOffs).toNat

/-- A round reads `out_offs` and the size of its slot, and once more when it goes on. -/
def findRounds (charOffset entryOffsetByteRtn : UInt64) :
    List Nat → KernelM (Option Slot × UInt64)
  | [] => pure (none, entryOffsetByteRtn)
  | i :: rounds => do
    let slot := slotOf ((← readBuffer AesdCircularBuffer.outOffs).toNat + i)
    if charOffset < (← readBuffer fun buffer => (buffer.entry slot).size) then
      return (some slot, charOffset)
    let size ← readBuffer fun buffer => (buffer.entry slot).size
    findRounds (charOffset - size) entryOffsetByteRtn rounds

def aesdCircularBufferFindEntryOffsetForFpos (charOffset entryOffsetByteRtn : UInt64) :
    KernelM (Option Slot × UInt64) := do
  let totalEntries ← totalEntries
  findRounds charOffset entryOffsetByteRtn (List.range totalEntries)

/-- Lines 76 to 80: a full ring makes room. -/
def makeRoom : KernelM (Option Nat) := do
  if ← readBuffer AesdCircularBuffer.full then
    let slot ← readBuffer AesdCircularBuffer.outSlot
    let removed ← readBuffer fun buffer => (buffer.entry slot).buffptr
    let outOffs ← readBuffer AesdCircularBuffer.outOffs
    writeBuffer (AesdCircularBuffer.setOutOffs outOffs)
    return removed
  return none

/-- The entry to add is the pending one of the device. -/
def aesdCircularBufferAddEntry : KernelM (Option Nat) := do
  let removed ← makeRoom
  let buffptr ← readEntry AesdBufferEntry.buffptr
  let size ← readEntry AesdBufferEntry.size
  let slot ← readBuffer AesdCircularBuffer.inSlot
  writeBuffer fun buffer =>
    { buffer with entry := Function.update buffer.entry slot ⟨buffptr, size⟩ }
  let inOffs ← readBuffer AesdCircularBuffer.inOffs
  writeBuffer (AesdCircularBuffer.setInOffs inOffs)
  if (← readBuffer AesdCircularBuffer.inOffs) = (← readBuffer AesdCircularBuffer.outOffs) then
    writeBuffer fun buffer => { buffer with full := true }
  return removed

end Shared

end Aesd.Driver
