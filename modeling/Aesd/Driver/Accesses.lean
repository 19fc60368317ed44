import Aesd.Driver.CharDevice

namespace Aesd.Driver

open Aesd.Library

section Services

variable {α : Type} (state : DriverState)

@[simp] theorem memory_accessed : state.accessed.memory = state.memory := rfl

@[simp] theorem readBuffer_value (member : AesdCircularBuffer → α) :
    ((readBuffer member).run state).1 = member state.memory.buffer := by
  rw [readBuffer, run_once, DriverState.memory]

@[simp] theorem readBuffer_memory (member : AesdCircularBuffer → α) :
    ((readBuffer member).run state).2.memory = state.memory := rfl

@[simp] theorem writeBuffer_memory (change : AesdCircularBuffer → AesdCircularBuffer) :
    ((writeBuffer change).run state).2.memory =
      { state.memory with buffer := change state.memory.buffer } := rfl

@[simp] theorem readEntry_value (member : AesdBufferEntry → α) :
    ((readEntry member).run state).1 = member state.memory.entry := by
  rw [readEntry, run_once, DriverState.memory]

@[simp] theorem readEntry_memory (member : AesdBufferEntry → α) :
    ((readEntry member).run state).2.memory = state.memory := rfl

@[simp] theorem writeEntry_memory (change : AesdBufferEntry → AesdBufferEntry) :
    ((writeEntry change).run state).2.memory =
      { state.memory with entry := change state.memory.entry } := rfl

@[simp] theorem getFPos_value (filp : Nat) :
    ((getFPos filp).run state).1 = state.memory.fPos filp := by
  rw [getFPos, run_once, DriverState.memory]

@[simp] theorem getFPos_memory (filp : Nat) :
    ((getFPos filp).run state).2.memory = state.memory := rfl

@[simp] theorem setFPos_memory (filp : Nat) (position : Int64) :
    ((setFPos filp position).run state).2.memory =
      { state.memory with fPos := Function.update state.memory.fPos filp position } := rfl

@[simp] theorem debugFPos_memory (fPos : Nat) :
    ((debugFPos fPos).run state).2.memory = state.memory := rfl

@[simp] theorem mutexUnlock_memory : (mutexUnlock.run state).2.memory = state.memory := rfl

@[simp] theorem mutexLock_value (services : Services) :
    ((mutexLockInterruptible services).run state).1 = services.interrupted := by
  unfold mutexLockInterruptible
  split <;> simp_all

@[simp] theorem mutexLock_memory (services : Services) :
    ((mutexLockInterruptible services).run state).2.memory = state.memory := by
  unfold mutexLockInterruptible
  split <;> rfl

@[simp] theorem kmalloc_value (services : Services) (size : UInt64) :
    ((kmalloc services size).run state).1 =
      if allocatable services size then some state.memory.heap.next else none := by
  simp only [kmalloc, run_once]
  split <;> rfl

@[simp] theorem kmalloc_memory (services : Services) (size : UInt64) :
    ((kmalloc services size).run state).2.memory =
      if allocatable services size then
        { state.memory with heap := (state.memory.heap.alloc (services.contents [] size)).2 }
      else state.memory := by
  simp only [kmalloc, run_once]
  split <;> rfl

@[simp] theorem krealloc_value (services : Services) (buffptr : Option Nat) (size : UInt64) :
    ((krealloc services buffptr size).run state).1 =
      if allocatable services size then some state.memory.heap.next else none := by
  cases buffptr with
  | none => exact kmalloc_value state services size
  | some old =>
    simp only [krealloc, run_once]
    split <;> rfl

@[simp] theorem krealloc_none (services : Services) (size : UInt64) :
    krealloc services none size = kmalloc services size := rfl

@[simp] theorem krealloc_memory (services : Services) (old : Nat) (size : UInt64) :
    ((krealloc services (some old) size).run state).2.memory =
      if allocatable services size then
        { state.memory with
          heap := (state.memory.heap.alloc
            (services.contents (state.memory.heap.bytes old) size)).2.discard old }
      else state.memory := by
  simp only [krealloc, run_once]
  split <;> rfl

@[simp] theorem kfree_none : kfree none = pure () := rfl

end Services

section Bytes

variable (state : DriverState)

@[simp] theorem readByte_value (buffptr : Option Nat) (index : Nat) :
    ((readByte buffptr index).run state).1 = (state.memory.heap.deref buffptr)[index]? := by
  rw [readByte, run_once, DriverState.memory]

@[simp] theorem readByte_memory (buffptr : Option Nat) (index : Nat) :
    ((readByte buffptr index).run state).2.memory = state.memory := rfl

@[simp] theorem writeByte_memory (block index : Nat) (byte : Byte) :
    ((writeByte block index byte).run state).2.memory =
      { state.memory with
        heap := state.memory.heap.store block
          (patch (state.memory.heap.bytes block) index [byte]) } := rfl

theorem loadBytes_memory (buffptr : Option Nat) (indices : List Nat) :
    ((loadBytes buffptr indices).run state).2.memory = state.memory := by
  induction indices generalizing state with
  | nil => rfl
  | cons index rest ih => simp [loadBytes, ih]

theorem loadBytes_value (buffptr : Option Nat) (offset count : Nat) :
    ((loadBytes buffptr (List.range' offset count)).run state).1 =
      ((state.memory.heap.deref buffptr).drop offset).take count := by
  induction count generalizing offset state with
  | zero => rfl
  | succ count ih =>
    rw [List.range'_succ]
    simp only [loadBytes, Program.run_bind, Program.run_pure, readByte_value, ih, readByte_memory]
    cases found : (state.memory.heap.deref buffptr)[offset]? with
    | none =>
      have beyond := List.getElem?_eq_none_iff.mp found
      rw [List.drop_eq_nil_of_le beyond, List.drop_eq_nil_of_le (Nat.le_succ_of_le beyond)]
      simp
    | some byte =>
      obtain ⟨inside, rfl⟩ := List.getElem?_eq_some_iff.mp found
      rw [List.drop_eq_getElem_cons inside, List.take_succ_cons]
      rfl

theorem findByte_memory (buffptr : Option Nat) (wanted : Byte) (indices : List Nat) :
    ((findByte buffptr wanted indices).run state).2.memory = state.memory := by
  induction indices generalizing state with
  | nil => rfl
  | cons index rest ih =>
    simp only [findByte, Program.run_bind, ↓Program.run_ite]
    split
    · rfl
    · exact ih _

theorem findByte_value (buffptr : Option Nat) (wanted : Byte) (indices : List Nat) :
    ((findByte buffptr wanted indices).run state).1 =
      indices.any fun index => (state.memory.heap.deref buffptr)[index]? == some wanted := by
  induction indices generalizing state with
  | nil => rfl
  | cons index rest ih =>
    simp only [findByte, Program.run_bind, ↓Program.run_ite, readByte_value, List.any_cons]
    by_cases found : (state.memory.heap.deref buffptr)[index]? = some wanted
    · simp [found]
    · simp [found, ih]

@[simp] theorem memchr_value (buffptr : Option Nat) (byte : Byte) (size : UInt64) :
    ((memchr buffptr byte size).run state).1 =
      ((state.memory.heap.deref buffptr).take size.toNat).contains byte := by
  rw [memchr, findByte_value, Bool.eq_iff_iff, List.any_eq_true, List.contains_iff_mem,
    List.mem_take_iff_getElem]
  simp only [List.mem_range, beq_iff_eq, List.getElem?_eq_some_iff]
  constructor
  · intro ⟨index, below, inside, found⟩
    exact ⟨index, Nat.lt_min.mpr ⟨below, inside⟩, found⟩
  · intro ⟨index, below, found⟩
    exact ⟨index, (Nat.lt_min.mp below).1, (Nat.lt_min.mp below).2, found⟩

@[simp] theorem memchr_memory (buffptr : Option Nat) (byte : Byte) (size : UInt64) :
    ((memchr buffptr byte size).run state).2.memory = state.memory :=
  findByte_memory state buffptr byte _

@[simp] theorem copyToUser_value (services : Services) (buffptr : Option Nat)
    (offset count : UInt64) :
    ((copyToUser services buffptr offset count).run state).1 =
      (UInt64.ofNat (min services.uncopied count.toNat),
        ((state.memory.heap.deref buffptr).drop offset.toNat).take
          (count.toNat - min services.uncopied count.toNat)) := by
  simp [copyToUser, loadBytes_value]

@[simp] theorem copyToUser_memory (services : Services) (buffptr : Option Nat)
    (offset count : UInt64) :
    ((copyToUser services buffptr offset count).run state).2.memory = state.memory := by
  simp [copyToUser, loadBytes_memory]

theorem storeBytes_memory (block index : Nat) (bytes : List Byte) :
    ((storeBytes block index bytes).run state).2.memory =
      { state.memory with
        heap := state.memory.heap.store block
          (patch (state.memory.heap.bytes block) index bytes) } := by
  induction bytes generalizing index state with
  | nil => simp [storeBytes, Heap.store_bytes]
  | cons byte rest ih =>
    simp only [storeBytes, Program.run_bind, ih, writeByte_memory, Heap.store_patch_cons]

@[simp] theorem copyFromUser_value (services : Services) (buffptr : Option Nat)
    (offset : UInt64) (data : List Byte) :
    ((copyFromUser services buffptr offset data).run state).1 =
      UInt64.ofNat (min services.uncopied data.length) := by
  cases buffptr <;> simp [copyFromUser]

@[simp] theorem copyFromUser_memory (services : Services) (block : Nat) (offset : UInt64)
    (data : List Byte) :
    ((copyFromUser services (some block) offset data).run state).2.memory =
      { state.memory with
        heap := state.memory.heap.store block (patch (state.memory.heap.bytes block) offset.toNat
          (data.take (data.length - min services.uncopied data.length) ++
            List.replicate (min services.uncopied data.length) 0)) } := by
  simp [copyFromUser, storeBytes_memory]

end Bytes

namespace Shared

variable (state : DriverState)

@[simp] theorem totalEntries_value :
    (totalEntries.run state).1 = state.memory.buffer.totalEntries := by
  rw [AesdCircularBuffer.totalEntries]
  simp only [totalEntries, Program.run_bind, readBuffer_value]
  split <;> simp

@[simp] theorem totalEntries_memory : (totalEntries.run state).2.memory = state.memory := by
  simp only [totalEntries, Program.run_bind]
  split <;> simp

theorem findRounds_run (charOffset entryOffsetByteRtn : UInt64) (rounds : List Nat) :
    ((findRounds charOffset entryOffsetByteRtn rounds).run state).1 =
        Driver.findRounds state.memory.buffer charOffset entryOffsetByteRtn rounds ∧
      ((findRounds charOffset entryOffsetByteRtn rounds).run state).2.memory = state.memory := by
  induction rounds generalizing charOffset state with
  | nil => exact ⟨rfl, rfl⟩
  | cons i rest ih =>
    rw [Driver.findRounds, AesdCircularBuffer.fromOldest]
    simp only [findRounds, Program.run_bind, ↓Program.run_ite, readBuffer_value, readBuffer_memory]
    split
    · simp
    · simp [ih]

@[simp] theorem findEntry_value (charOffset entryOffsetByteRtn : UInt64) :
    ((aesdCircularBufferFindEntryOffsetForFpos charOffset entryOffsetByteRtn).run state).1 =
      Driver.aesdCircularBufferFindEntryOffsetForFpos state.memory.buffer charOffset
        entryOffsetByteRtn := by
  simp [aesdCircularBufferFindEntryOffsetForFpos, findRounds_run,
    Driver.aesdCircularBufferFindEntryOffsetForFpos]

@[simp] theorem findEntry_memory (charOffset entryOffsetByteRtn : UInt64) :
    ((aesdCircularBufferFindEntryOffsetForFpos charOffset entryOffsetByteRtn).run state).2.memory =
      state.memory := by
  simp [aesdCircularBufferFindEntryOffsetForFpos, findRounds_run]

theorem makeRoom_run :
    (makeRoom.run state).1 = (if state.memory.buffer.full then
        (state.memory.buffer.entry state.memory.buffer.outSlot).buffptr else none) ∧
      (makeRoom.run state).2.memory = (if state.memory.buffer.full then
        { state.memory with
          buffer := state.memory.buffer.setOutOffs state.memory.buffer.outOffs }
        else state.memory) := by
  by_cases full : state.memory.buffer.full = true <;> simp [makeRoom, full]

theorem addEntry_run :
    (aesdCircularBufferAddEntry.run state).1 =
        (Driver.aesdCircularBufferAddEntry state.memory.buffer state.memory.entry).1 ∧
      (aesdCircularBufferAddEntry.run state).2.memory =
        { state.memory with
          buffer := (Driver.aesdCircularBufferAddEntry state.memory.buffer
            state.memory.entry).2 } := by
  obtain ⟨removed, roomy⟩ := makeRoom_run state
  by_cases full : state.memory.buffer.full = true
  · simp only [full, if_true] at removed roomy
    by_cases meets : advance state.memory.buffer.inOffs = advance state.memory.buffer.outOffs <;>
      simp [aesdCircularBufferAddEntry, Driver.aesdCircularBufferAddEntry, removed, roomy, full,
        meets, AesdCircularBuffer.setOutOffs, AesdCircularBuffer.setInOffs,
        AesdCircularBuffer.inSlot]
  · simp only [full] at removed roomy
    by_cases meets : advance state.memory.buffer.inOffs = state.memory.buffer.outOffs <;>
      simp [aesdCircularBufferAddEntry, Driver.aesdCircularBufferAddEntry, removed, roomy, full,
        meets, AesdCircularBuffer.setInOffs, AesdCircularBuffer.inSlot]

/-- Nobody moves `in_offs`, so a round for each slot ahead of it is enough. -/
theorem walkToEnd_run (rounds : Nat) (position : Slot) (totalLength : Int64)
    (enough : (state.memory.buffer.inOffs.toNat + 9 - position.val) % 10 < rounds) :
    ((walkToEnd rounds position totalLength).run state).1 =
        Driver.walkToEnd state.memory.buffer position totalLength ∧
      ((walkToEnd rounds position totalLength).run state).2.memory = state.memory := by
  induction rounds generalizing state position totalLength with
  | zero => exact absurd enough (Nat.not_lt_zero _)
  | succ rounds ih =>
    rw [Driver.walkToEnd]
    simp only [walkToEnd, Program.run_bind, ↓Program.run_ite, readBuffer_value, readBuffer_memory]
    split
    · simp
    · rename_i continues
      have closer := nextPosition_closer state.memory.buffer position continues
      have same : ((readBuffer AesdCircularBuffer.inSlot).run ((readBuffer fun buffer =>
          (buffer.entry position).size).run state).2).2.memory = state.memory := by
        rw [readBuffer_memory, readBuffer_memory]
      obtain ⟨value, memory⟩ := ih _ (nextPosition position) _ (by
        rw [same]
        omega)
      rw [same] at value memory
      exact ⟨value, memory⟩

theorem sizesBelow_run (offset : Int64) (rounds : List Nat) :
    ((sizesBelow offset rounds).run state).1 = rounds.foldl
        (fun offset i =>
          (offset.toUInt64 + (state.memory.buffer.entry (slotOf i)).size).toInt64) offset ∧
      ((sizesBelow offset rounds).run state).2.memory = state.memory := by
  induction rounds generalizing offset state with
  | nil => exact ⟨rfl, rfl⟩
  | cons i rest ih => simp [sizesBelow, ih]

theorem seekTarget_run (filp : Nat) (junk fPos : Int64) (origin : Whence) :
    ((seekTarget filp state.memory.buffer.outSlot junk fPos origin).run state).1 =
        Driver.seekTarget state.memory.buffer junk (state.memory.fPos filp) fPos origin ∧
      ((seekTarget filp state.memory.buffer.outSlot junk fPos origin).run state).2.memory =
        state.memory := by
  cases origin with
  | seekSet => exact ⟨rfl, rfl⟩
  | seekCur => exact ⟨rfl, rfl⟩
  | seekEnd =>
    obtain ⟨value, memory⟩ := walkToEnd_run state aesdcharMaxWriteOperationsSupported
      state.memory.buffer.outSlot junk (Nat.mod_lt _ (by decide))
    simp [seekTarget, Driver.seekTarget, value, memory]
  | other => exact ⟨rfl, rfl⟩

theorem outside_run (seekTo : AesdSeekto) :
    ((outside seekTo).run state).1 = decide (seekTo.writeCmd.toNat ≥ 10 ∨
        seekTo.writeCmdOffset.toUInt64 ≥
          (state.memory.buffer.entry (slotOf seekTo.writeCmd.toNat)).size) ∧
      ((outside seekTo).run state).2.memory = state.memory := by
  by_cases beyond : seekTo.writeCmd.toNat ≥ 10 <;> simp [outside, beyond]

end Shared

end Aesd.Driver
