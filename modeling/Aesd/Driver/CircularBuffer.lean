import Aesd.Library.BoundedFifo
import Aesd.Library.Segments

/-! The ring of the ten most recent commands, as `aesd-circular-buffer.c` keeps it. -/
namespace Aesd.Driver

open Aesd.Library

abbrev aesdcharMaxWriteOperationsSupported : Nat := 10

/-- An index into the ring's array. -/
abbrev Slot := Fin aesdcharMaxWriteOperationsSupported

/-- `index % AESDCHAR_MAX_WRITE_OPERATIONS_SUPPORTED`. -/
def slotOf (index : Nat) : Slot :=
  ⟨index % aesdcharMaxWriteOperationsSupported, Nat.mod_lt _ (by decide)⟩

@[simp] theorem slotOf_val (index : Nat) : (slotOf index).val = index % 10 := rfl

/-- `buffptr` names a kernel block by its start; `none` is `NULL`. -/
structure AesdBufferEntry where
  buffptr : Option Nat
  size : UInt64
deriving DecidableEq, Repr

def AesdBufferEntry.zero : AesdBufferEntry := ⟨none, 0⟩

/-- Both offsets only ever take values the source reduces modulo the array's length. -/
structure AesdCircularBuffer where
  entry : Slot → AesdBufferEntry
  inOffs : UInt8
  outOffs : UInt8
  full : Bool
  inOffs_lt : inOffs.toNat < aesdcharMaxWriteOperationsSupported
  outOffs_lt : outOffs.toNat < aesdcharMaxWriteOperationsSupported

namespace AesdCircularBuffer

def inSlot (buffer : AesdCircularBuffer) : Slot := ⟨buffer.inOffs.toNat, buffer.inOffs_lt⟩

def outSlot (buffer : AesdCircularBuffer) : Slot := ⟨buffer.outOffs.toNat, buffer.outOffs_lt⟩

@[simp] theorem inSlot_val (buffer : AesdCircularBuffer) :
    buffer.inSlot.val = buffer.inOffs.toNat := rfl

@[simp] theorem outSlot_val (buffer : AesdCircularBuffer) :
    buffer.outSlot.val = buffer.outOffs.toNat := rfl

theorem inOffs_lt_ten (buffer : AesdCircularBuffer) : buffer.inOffs.toNat < 10 :=
  buffer.inOffs_lt

theorem outOffs_lt_ten (buffer : AesdCircularBuffer) : buffer.outOffs.toNat < 10 :=
  buffer.outOffs_lt

/-- The local `totalEntries` of the lookup. -/
def totalEntries (buffer : AesdCircularBuffer) : Nat :=
  if buffer.full then aesdcharMaxWriteOperationsSupported else buffer.inOffs.toNat

theorem totalEntries_eq (buffer : AesdCircularBuffer) :
    buffer.totalEntries = if buffer.full then 10 else buffer.inOffs.toNat := rfl

/-- The entry the lookup reads in round `index`. -/
def fromOldest (buffer : AesdCircularBuffer) (index : Nat) : AesdBufferEntry :=
  buffer.entry (slotOf (buffer.outOffs.toNat + index))

/-- The live entries, oldest first. -/
def live (buffer : AesdCircularBuffer) : List AesdBufferEntry :=
  (List.range buffer.totalEntries).map buffer.fromOldest

/-- The exact number of bytes of each live entry. -/
def sizes (buffer : AesdCircularBuffer) : List Nat :=
  buffer.live.map fun entry => entry.size.toNat

end AesdCircularBuffer

/-- `(offs + 1) % AESDCHAR_MAX_WRITE_OPERATIONS_SUPPORTED`, computed in `int`. -/
def advance (offs : UInt8) : UInt8 :=
  UInt8.ofNat ((offs.toNat + 1) % aesdcharMaxWriteOperationsSupported)

theorem advance_lt (offs : UInt8) :
    (advance offs).toNat < aesdcharMaxWriteOperationsSupported := by
  have small := Nat.mod_lt (offs.toNat + 1) (show 0 < aesdcharMaxWriteOperationsSupported by decide)
  rw [advance, UInt8.toNat_ofNat_of_lt' (Nat.lt_trans small (by decide))]
  exact small

@[simp] theorem advance_toNat (offs : UInt8) : (advance offs).toNat = (offs.toNat + 1) % 10 := by
  have small : (offs.toNat + 1) % 10 < 10 := Nat.mod_lt _ (by decide)
  exact UInt8.toNat_ofNat_of_lt' (Nat.lt_trans small (by decide))

/-- The rounds of the lookup loop; `entryOffsetByteRtn` is what the caller's
cell holds so far. -/
def findRounds (buffer : AesdCircularBuffer) (charOffset entryOffsetByteRtn : UInt64) :
    List Nat → Option Slot × UInt64
  | [] => (none, entryOffsetByteRtn)
  | i :: rounds =>
    let entry := buffer.fromOldest i
    if charOffset < entry.size then
      (some (slotOf (buffer.outOffs.toNat + i)), charOffset)
    else
      findRounds buffer (charOffset - entry.size) entryOffsetByteRtn rounds

/-- The slot whose entry holds `charOffset`, and the caller's byte cell afterwards.
The callers pass the address of a member, so the source's `NULL` test has no counterpart. -/
def aesdCircularBufferFindEntryOffsetForFpos (buffer : AesdCircularBuffer)
    (charOffset entryOffsetByteRtn : UInt64) : Option Slot × UInt64 :=
  findRounds buffer charOffset entryOffsetByteRtn (List.range buffer.totalEntries)

/-- Returns the pointer of the entry that had to make room, or `NULL`. -/
def aesdCircularBufferAddEntry (buffer : AesdCircularBuffer) (addEntry : AesdBufferEntry) :
    Option Nat × AesdCircularBuffer :=
  let removed := if buffer.full then (buffer.entry buffer.outSlot).buffptr else none
  let outOffs := if buffer.full then advance buffer.outOffs else buffer.outOffs
  let inOffs := advance buffer.inOffs
  (removed,
    { entry := Function.update buffer.entry buffer.inSlot addEntry
      inOffs := inOffs
      outOffs := outOffs
      full := if inOffs = outOffs then true else buffer.full
      inOffs_lt := advance_lt _
      outOffs_lt := by
        simp only [outOffs]
        split
        · exact advance_lt _
        · exact buffer.outOffs_lt })

/-- `memset(buffer, 0, sizeof(struct aesd_circular_buffer))`. -/
def aesdCircularBufferInit : AesdCircularBuffer :=
  ⟨fun _ => .zero, 0, 0, false, by decide, by decide⟩

end Aesd.Driver
