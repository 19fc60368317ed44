import Aesd.Driver.Accesses

namespace Aesd.Driver

open Aesd.Library

namespace Memory

/-- The bytes an entry stands for. -/
def contents (memory : Memory) (entry : AesdBufferEntry) : List Byte :=
  (memory.heap.deref entry.buffptr).take entry.size.toNat

def pending (memory : Memory) : List Byte := memory.contents memory.entry

/-- The committed commands, oldest first. -/
def commands (memory : Memory) : List (List Byte) := memory.buffer.live.map memory.contents

/-- The block whose bytes growing carries over; an empty entry starts afresh. -/
def carried (memory : Memory) : Option Nat :=
  if memory.entry.size = 0 then none else memory.entry.buffptr

/-- Growing the entry by `count` bytes; `none` when the allocation fails. -/
def grow (services : Services) (count : UInt64) (memory : Memory) : Option Memory :=
  if allocatable services (memory.entry.size + count) then
    let contents := services.contents (memory.heap.deref memory.carried) (memory.entry.size + count)
    let heap := (memory.heap.alloc contents).2
    some { memory with
      entry := ⟨some memory.heap.next, memory.entry.size⟩
      heap := match memory.carried with
        | none => heap
        | some old => heap.discard old }
  else none

end Memory

/-- The bytes of one write that reach the device. -/
def accepted (services : Services) (data : List Byte) : List Byte :=
  data.take (data.length - min services.uncopied data.length)

namespace Memory

/-- Copying user data behind the bytes of a freshly grown entry. -/
def fill (services : Services) (data : List Byte) (memory : Memory) : Memory :=
  match memory.entry.buffptr with
  | none => memory
  | some block =>
    { memory with
      entry := ⟨some block, memory.entry.size + UInt64.ofNat (accepted services data).length⟩
      heap := memory.heap.store block
        (patch (memory.heap.bytes block) memory.entry.size.toNat
          (accepted services data ++ List.replicate (min services.uncopied data.length) 0)) }

/-- Handing the entry to the ring when it holds a newline. The evicted pointer
is not released, whether it is `NULL` or not. -/
def commit (filp : Nat) (memory : Memory) : Memory :=
  if newline ∈ memory.pending then
    { memory with
      buffer := (aesdCircularBufferAddEntry memory.buffer memory.entry).2
      entry := ⟨none, 0⟩
      fPos := Function.update memory.fPos filp (memory.fPos filp + memory.entry.size.toInt64) }
  else memory

/-- One write, as returned value and memory. -/
def write (services : Services) (filp : Nat) (buf : UserBuffer) (memory : Memory) :
    Int64 × Memory :=
  if buf.count = 0 then (0, memory)
  else match buf with
    | .null _ => (-EFAULT, memory)
    | .bytes data _ =>
      if services.interrupted then (-ERESTARTSYS, memory)
      else match memory.grow services buf.count with
        | none => (-ENOMEM, { memory with entry := ⟨none, memory.entry.size⟩ })
        | some grown =>
          ((UInt64.ofNat (accepted services data).length).toInt64,
            (grown.fill services data).commit filp)

/-- One read, as reply and memory. -/
def read (services : Services) (filp : Nat) (bufIsNull : Bool) (count : UInt64)
    (memory : Memory) : Reply × Memory :=
  if bufIsNull then (⟨-EFAULT, []⟩, memory)
  else if services.interrupted then (⟨-ERESTARTSYS, []⟩, memory)
  else
    let found :=
      aesdCircularBufferFindEntryOffsetForFpos memory.buffer (memory.fPos filp).toUInt64 0
    match found.1 with
    | none => (⟨0, []⟩, memory)
    | some slot =>
      let entry := memory.buffer.entry slot
      let clipped := if count > entry.size - found.2 then entry.size - found.2 else count
      let bytes := min services.uncopied clipped.toNat
      let retval := (clipped - UInt64.ofNat bytes).toInt64
      (⟨retval, ((memory.heap.deref entry.buffptr).drop found.2.toNat).take
          (clipped.toNat - bytes)⟩,
        { memory with fPos := Function.update memory.fPos filp (memory.fPos filp + retval) })

def llseek (services : Services) (filp : Nat) (fPos : Int64) (origin : Whence)
    (memory : Memory) : Int64 × Memory :=
  if services.interrupted then (-ERESTARTSYS, memory)
  else match seekTarget memory.buffer services.junk (memory.fPos filp) fPos origin with
    | none => (-EINVAL, memory)
    | some retval =>
      if retval < 0 then (-EINVAL, memory)
      else (retval, { memory with fPos := Function.update memory.fPos filp retval })

def ioctl (services : Services) (filp : Nat) (cmd : UInt32) (seekTo : AesdSeekto)
    (memory : Memory) : Int64 × Memory :=
  if iocType cmd ≠ AESD_IOC_MAGIC ∨ iocNr cmd > AESDCHAR_IOC_MAXNR then (-ENOTTY, memory)
  else if min services.uncopied 8 ≠ 0 then (-EFAULT, memory)
  else if services.interrupted then (-ERESTARTSYS, memory)
  else if seekTo.writeCmd.toNat ≥ 10 ∨
      seekTo.writeCmdOffset.toUInt64 ≥ (memory.buffer.entry (slotOf seekTo.writeCmd.toNat)).size then
    (-EINVAL, memory)
  else
    let target := sizesBelow memory.buffer seekTo.writeCmd.toNat +
      seekTo.writeCmdOffset.toUInt64.toInt64
    (0, { memory with fPos := Function.update memory.fPos filp target })

/-- One call, as reply and memory. -/
def effect (call : Call) (memory : Memory) : Reply × Memory :=
  match call.operation with
  | .read bufIsNull count => memory.read call.services call.filp bufIsNull count
  | .write buf =>
    let (retval, after) := memory.write call.services call.filp buf
    (⟨retval, []⟩, after)
  | .llseek fPos origin =>
    let (retval, after) := memory.llseek call.services call.filp fPos origin
    (⟨retval, []⟩, after)
  | .ioctl cmd arg =>
    let (retval, after) := memory.ioctl call.services call.filp cmd arg
    (⟨retval, []⟩, after)

end Memory

theorem length_accepted (services : Services) (data : List Byte) :
    (accepted services data).length = data.length - min services.uncopied data.length := by
  simp [accepted]

private theorem count_sub_uncopied (services : Services) (data : List Byte) :
    UInt64.ofNat data.length - UInt64.ofNat (min services.uncopied data.length) =
      UInt64.ofNat (accepted services data).length := by
  rw [length_accepted, UInt64.ofNat_sub (Nat.min_le_right _ _)]

theorem growEntry_effect (services : Services) (count : UInt64) (state : DriverState) :
    ((growEntry services count).run state).1 = (state.memory.grow services count).isNone ∧
      ((growEntry services count).run state).2.memory =
        (state.memory.grow services count).getD
          { state.memory with entry := ⟨none, state.memory.entry.size⟩ } := by
  by_cases empty : state.memory.entry.size = 0
  · by_cases room : allocatable services count <;>
      simp [growEntry, Memory.grow, Memory.carried, empty, room]
  · by_cases room : allocatable services (state.memory.entry.size + count) <;>
      cases old : state.memory.entry.buffptr <;>
        simp [growEntry, Memory.grow, Memory.carried, empty, room, old]

theorem commitEntry_effect (filp : Nat) (state : DriverState) :
    ((commitEntry filp).run state).2.memory = state.memory.commit filp := by
  by_cases found : newline ∈
      (state.memory.heap.deref state.memory.entry.buffptr).take state.memory.entry.size.toNat
  · cases removed : (aesdCircularBufferAddEntry state.memory.buffer state.memory.entry).1 <;>
      simp [commitEntry, Memory.commit, Memory.pending, Memory.contents, found, removed,
        Shared.addEntry_run]
  · simp [commitEntry, Memory.commit, Memory.pending, Memory.contents, found]

theorem fillEntry_effect (services : Services) (data : List Byte) (state : DriverState)
    {block : Nat} (grown : state.memory.entry.buffptr = some block) :
    ((fillEntry services (UInt64.ofNat data.length) data).run state).1 =
        UInt64.ofNat (accepted services data).length ∧
      ((fillEntry services (UInt64.ofNat data.length) data).run state).2.memory =
        state.memory.fill services data := by
  simp [fillEntry, grown, Memory.fill, count_sub_uncopied]
  simp [accepted]

theorem Memory.grow_buffptr {services : Services} {count : UInt64} {memory grown : Memory}
    (succeeds : memory.grow services count = some grown) :
    grown.entry.buffptr = some memory.heap.next := by
  unfold Memory.grow at succeeds
  split at succeeds
  · cases succeeds
    rfl
  · cases succeeds

/-- Under its lock a write is the pure memory transition, returned value included. -/
theorem aesdWrite_effect (services : Services) (filp : Nat) (buf : UserBuffer)
    (state : DriverState) :
    ((aesdWrite services filp buf).run state).1 = (state.memory.write services filp buf).1 ∧
      ((aesdWrite services filp buf).run state).2.memory =
        (state.memory.write services filp buf).2 := by
  by_cases nothing : buf.count = 0
  · simp [aesdWrite, Memory.write, nothing]
  · cases buf with
    | null count => simp [aesdWrite, Memory.write, nothing]
    | bytes data fits =>
      by_cases interrupted : services.interrupted = true
      · simp [aesdWrite, Memory.write, nothing, interrupted]
      · obtain ⟨failed, after⟩ := growEntry_effect services (UInt64.ofNat data.length)
          ((mutexLockInterruptible services).run ((debugFPos filp).run state).2).2
        rw [mutexLock_memory, debugFPos_memory] at failed after
        rw [UserBuffer.count] at nothing
        cases outcome : state.memory.grow services (UInt64.ofNat data.length) with
        | none =>
          simp only [outcome, Option.isNone_none, Option.getD_none] at failed after
          simp [aesdWrite, Memory.write, UserBuffer.count, nothing, interrupted, outcome, failed,
            after]
        | some grown =>
          simp only [outcome, Option.isNone_some, Option.getD_some] at failed after
          have pointed := Memory.grow_buffptr outcome
          rw [← after] at pointed
          obtain ⟨count, filled⟩ := fillEntry_effect services data _ pointed
          simp [aesdWrite, Memory.write, UserBuffer.count, nothing, interrupted, outcome, failed,
            count, commitEntry_effect, filled, after]

@[simp] theorem clipCount_run (slot : Slot) (offset count : UInt64) (state : DriverState) :
    ((clipCount slot offset count).run state).1 =
        (if count > (state.memory.buffer.entry slot).size - offset then
          (state.memory.buffer.entry slot).size - offset else count) ∧
      ((clipCount slot offset count).run state).2.memory = state.memory := by
  by_cases more : count > (state.memory.buffer.entry slot).size - offset <;>
    simp [clipCount, more]

theorem aesdRead_effect (services : Services) (filp : Nat) (bufIsNull : Bool) (count : UInt64)
    (state : DriverState) :
    ((aesdRead services filp bufIsNull count).run state).1 =
        (state.memory.read services filp bufIsNull count).1 ∧
      ((aesdRead services filp bufIsNull count).run state).2.memory =
        (state.memory.read services filp bufIsNull count).2 := by
  by_cases null : bufIsNull = true
  · simp [aesdRead, Memory.read, null]
  · by_cases interrupted : services.interrupted = true
    · simp [aesdRead, Memory.read, null, interrupted]
    · cases found : (aesdCircularBufferFindEntryOffsetForFpos state.memory.buffer
          (state.memory.fPos filp).toUInt64 0).1 <;>
        simp [aesdRead, Memory.read, null, interrupted, found]

theorem aesdLlseek_effect (services : Services) (filp : Nat) (fPos : Int64) (origin : Whence)
    (state : DriverState) :
    ((aesdLlseek services filp fPos origin).run state).1 =
        (state.memory.llseek services filp fPos origin).1 ∧
      ((aesdLlseek services filp fPos origin).run state).2.memory =
        (state.memory.llseek services filp fPos origin).2 := by
  by_cases interrupted : services.interrupted = true
  · simp [aesdLlseek, Memory.llseek, interrupted]
  · have decided := Shared.seekTarget_run
      ((readBuffer AesdCircularBuffer.outSlot).run ((mutexLockInterruptible services).run state).2).2
      filp services.junk fPos origin
    rw [readBuffer_memory, mutexLock_memory] at decided
    obtain ⟨value, memory⟩ := decided
    cases target : seekTarget state.memory.buffer services.junk (state.memory.fPos filp) fPos
        origin with
    | none => simp [aesdLlseek, Memory.llseek, interrupted, target, value, memory]
    | some retval =>
      by_cases negative : retval < 0 <;>
        simp [aesdLlseek, Memory.llseek, interrupted, target, value, memory, negative]

theorem aesdIoctl_effect (services : Services) (filp : Nat) (cmd : UInt32) (arg : AesdSeekto)
    (state : DriverState) :
    ((aesdIoctl services filp cmd arg).run state).1 =
        (state.memory.ioctl services filp cmd arg).1 ∧
      ((aesdIoctl services filp cmd arg).run state).2.memory =
        (state.memory.ioctl services filp cmd arg).2 := by
  by_cases foreign : iocType cmd ≠ AESD_IOC_MAGIC ∨ iocNr cmd > AESDCHAR_IOC_MAXNR
  · rcases foreign with magic | number
    · simp [aesdIoctl, Memory.ioctl, magic]
    · by_cases magic : iocType cmd = AESD_IOC_MAGIC <;> simp [aesdIoctl, Memory.ioctl, magic, number]
  · simp only [not_or, ne_eq, Decidable.not_not] at foreign
    obtain ⟨magic, number⟩ := foreign
    by_cases short : min services.uncopied 8 ≠ 0
    · simp [aesdIoctl, Memory.ioctl, magic, number, short]
    · by_cases interrupted : services.interrupted = true
      · simp [aesdIoctl, Memory.ioctl, magic, number, short, interrupted]
      · by_cases rejected : arg.writeCmd.toNat ≥ 10 ∨ arg.writeCmdOffset.toUInt64 ≥
            (state.memory.buffer.entry (slotOf arg.writeCmd.toNat)).size <;>
          simp [aesdIoctl, Memory.ioctl, magic, number, short, interrupted, rejected,
            Shared.outside_run, Shared.sizesBelow_run, sizesBelow]

/-- Every call is its memory transition; the lock leaves no other mark on memory. -/
theorem run_effect (call : Call) (state : DriverState) :
    (call.run state).1 = (state.memory.effect call).1 ∧
      (call.run state).2.memory = (state.memory.effect call).2 := by
  cases operation : call.operation with
  | read bufIsNull count =>
    simpa [Call.run, Call.code, Memory.effect, operation] using
      aesdRead_effect call.services call.filp bufIsNull count state
  | write buf =>
    simpa [Call.run, Call.code, Memory.effect, operation] using
      aesdWrite_effect call.services call.filp buf state
  | llseek fPos origin =>
    simpa [Call.run, Call.code, Memory.effect, operation] using
      aesdLlseek_effect call.services call.filp fPos origin state
  | ioctl cmd arg =>
    simpa [Call.run, Call.code, Memory.effect, operation] using
      aesdIoctl_effect call.services call.filp cmd arg state

end Aesd.Driver
