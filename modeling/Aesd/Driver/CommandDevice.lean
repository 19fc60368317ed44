import Aesd.Driver.PositionAccounts
import Aesd.Driver.Reading
import Aesd.Driver.EndPosition
import Aesd.Library.Refinement

/-! The device without blocks, pointers and sizes: ten lists of bytes with an
unfinished one, and a position for each open file. -/
namespace Aesd.Driver

open Aesd.Library AesdCircularBuffer

/-- `oldest` is the number that the seek command has for the oldest command. -/
structure CommandDevice where
  store : CommandStore
  oldest : Nat
  position : Nat → Int64

namespace CommandDevice

def fresh : CommandDevice := ⟨.empty, 0, fun _ => 0⟩

variable (device : CommandDevice) (services : Services) (filp : Nat)

def moved (position : Int64) : CommandDevice :=
  { device with position := Function.update device.position filp position }

/-- The command with this number for the seek command, nothing if there is none. -/
def numbered (number : Nat) : List Byte :=
  device.store.commands.getD ((number + 10 - device.oldest) % 10) []

def read (bufIsNull : Bool) (count : UInt64) : Reply × CommandDevice :=
  if bufIsNull then (⟨-EFAULT, []⟩, device)
  else if services.interrupted then (⟨-ERESTARTSYS, []⟩, device)
  else
    let requested :=
      (segmentFrom device.store.commands (device.position filp).toUInt64.toNat).take count.toNat
    let received := requested.take (requested.length - services.uncopied)
    (⟨Int64.ofNat received.length, received⟩,
      device.moved filp (device.position filp + Int64.ofNat received.length))

/-- A finished command pushes the oldest of ten out, and moves the file past itself. -/
def accept (chunk : List Byte) : CommandDevice :=
  if newline ∈ chunk then
    { store := device.store.accept chunk
      oldest := if device.store.commands.length < 10 then device.oldest
        else (device.oldest + 1) % 10
      position := Function.update device.position filp
        (device.position filp + Int64.ofNat (device.store.pending ++ chunk).length) }
  else { device with store := device.store.accept chunk }

/-- There is memory for the unfinished command with `size` more bytes. -/
def Room (size : Nat) : Prop :=
  services.noMemory = false ∧ device.store.pending.length + size < 2 ^ 63

instance (size : Nat) : Decidable (device.Room services size) := instDecidableAnd

def write (buf : UserBuffer) : Int64 × CommandDevice :=
  if buf.count = 0 then (0, device)
  else match buf with
    | .null _ => (-EFAULT, device)
    | .bytes data _ =>
      if services.interrupted then (-ERESTARTSYS, device)
      else if device.Room services data.length then
        (Int64.ofNat (accepted services data).length,
          device.accept filp (accepted services data))
      else (-ENOMEM, device)

/-- The position a seek asks for; the end is off by what the stack slot held. -/
def target (fPos : Int64) : Whence → Option Int64
  | .seekSet => some fPos
  | .seekCur => some (device.position filp + fPos)
  | .seekEnd => some (services.junk + Int64.ofNat device.store.commands.flatten.length + fPos)
  | .other => none

def llseek (fPos : Int64) (origin : Whence) : Int64 × CommandDevice :=
  if services.interrupted then (-ERESTARTSYS, device)
  else match device.target services filp fPos origin with
    | none => (-EINVAL, device)
    | some position =>
      if position < 0 then (-EINVAL, device) else (position, device.moved filp position)

/-- The seek command goes by numbers, and adds up the commands with smaller ones. -/
def ioctl (cmd : UInt32) (seekTo : AesdSeekto) : Int64 × CommandDevice :=
  if iocType cmd ≠ AESD_IOC_MAGIC ∨ iocNr cmd > AESDCHAR_IOC_MAXNR then (-ENOTTY, device)
  else if services.uncopied ≠ 0 then (-EFAULT, device)
  else if services.interrupted then (-ERESTARTSYS, device)
  else if seekTo.writeCmd.toNat < 10 ∧
      seekTo.writeCmdOffset.toNat < (device.numbered seekTo.writeCmd.toNat).length then
    (0, device.moved filp (Int64.ofNat
      (((List.range seekTo.writeCmd.toNat).map fun number =>
        (device.numbered number).length).sum + seekTo.writeCmdOffset.toNat)))
  else (-EINVAL, device)

def step (call : Call) : Reply × CommandDevice :=
  match call.operation with
  | .read bufIsNull count => device.read call.services call.filp bufIsNull count
  | .write buf =>
    let (retval, after) := device.write call.services call.filp buf
    (⟨retval, []⟩, after)
  | .llseek fPos origin =>
    let (retval, after) := device.llseek call.services call.filp fPos origin
    (⟨retval, []⟩, after)
  | .ioctl cmd arg =>
    let (retval, after) := device.ioctl call.services call.filp cmd arg
    (⟨retval, []⟩, after)

end CommandDevice

/-- The device as a machine of its own. -/
def commandDevice : Machine CommandDevice Call Reply where
  step device call := some (device.step call)

namespace Memory

/-- What the ring, the blocks and the pending entry stand for. -/
def device (memory : Memory) : CommandDevice :=
  ⟨memory.store, memory.buffer.outOffs.toNat, memory.fPos⟩

variable {memory : Memory}

theorem Valid.found_bytes (valid : memory.Valid) {place segment inner : Nat}
    (located : locate (memory.commands.map List.length) place = some (segment, inner)) :
    let entry := memory.buffer.entry (slotOf (memory.buffer.outOffs.toNat + segment))
    inner < entry.size.toNat ∧
      segmentFrom memory.commands place =
        ((memory.heap.deref entry.buffptr).drop inner).take (entry.size.toNat - inner) ∧
      (segmentFrom memory.commands place).length = entry.size.toNat - inner := by
  intro entry
  obtain ⟨command, present, inside, rest⟩ := segmentFrom_of_locate located
  rw [commands, List.getElem?_map, Option.map_eq_some_iff] at present
  obtain ⟨live, atSegment, same⟩ := present
  have isLive : segment < memory.buffer.totalEntries := by
    simpa using (List.getElem?_eq_some_iff.mp atSegment).1
  have isEntry : live = entry := by
    have named : live = memory.buffer.fromOldest segment := by
      simpa [AesdCircularBuffer.live, isLive] using atSegment.symm
    exact named
  subst live
  obtain ⟨block, backed⟩ := valid.slotBlock entry (List.mem_of_getElem? atSegment)
  rw [← same, length_contents backed] at inside
  rw [rest, ← same, List.length_drop, length_contents backed, contents, List.drop_take]
  exact ⟨inside, rfl, rfl⟩

theorem Valid.read_device (valid : memory.Valid) (services : Services) (filp : Nat)
    (bufIsNull : Bool) (count : UInt64) :
    (memory.read services filp bufIsNull count).1 =
        (memory.device.read services filp bufIsNull count).1 ∧
      (memory.read services filp bufIsNull count).2.device =
        (memory.device.read services filp bufIsNull count).2 := by
  by_cases null : bufIsNull = true
  · simp [read, CommandDevice.read, null]
  by_cases interrupted : services.interrupted = true
  · simp [read, CommandDevice.read, null, interrupted]
  have found := find_spec memory.buffer (memory.fPos filp).toUInt64 0
  rw [valid.sizes_eq] at found
  have ahead : segmentFrom memory.device.store.commands
      (memory.device.position filp).toUInt64.toNat =
        segmentFrom memory.commands (memory.fPos filp).toUInt64.toNat := rfl
  simp only [read, CommandDevice.read, null, interrupted, ↓reduceIte, Bool.false_eq_true, ahead]
  cases located : locate (memory.commands.map List.length) (memory.fPos filp).toUInt64.toNat with
  | none =>
    have nothing : segmentFrom memory.commands (memory.fPos filp).toUInt64.toNat = [] := by
      rw [segmentFrom_eq_nil_iff, List.length_flatten, ← locate_eq_none_iff]
      exact located
    have still : memory.device.moved filp (memory.fPos filp + 0) = memory.device := by
      rw [Int64.add_zero, CommandDevice.moved]
      exact congrArg _ (Function.update_eq_self filp memory.fPos)
    simp only [located] at found
    simp only [found, nothing, List.take_nil, List.length_nil]
    exact ⟨rfl, still.symm⟩
  | some place =>
    obtain ⟨segment, inner⟩ := place
    obtain ⟨inside, bytes, length⟩ := valid.found_bytes located
    simp only [located] at found
    simp only [found]
    generalize memory.buffer.entry (slotOf (memory.buffer.outOffs.toNat + segment)) = entry at *
    have byte : (UInt64.ofNat inner).toNat = inner :=
      UInt64.toNat_ofNat_of_lt' (Nat.lt_trans inside entry.size.toNat_lt)
    have left : (entry.size - UInt64.ofNat inner).toNat = entry.size.toNat - inner := by
      rw [UInt64.toNat_sub_of_le _ _ (UInt64.le_iff_toNat_le.mpr (by omega)), byte]
    have clipped := Valid.clip_eq count (entry.size - UInt64.ofNat inner)
    rw [left] at clipped
    have exact : (UInt64.ofNat (min count.toNat (entry.size.toNat - inner))).toNat =
        min count.toNat (entry.size.toNat - inner) :=
      UInt64.toNat_ofNat_of_lt' (Nat.lt_of_le_of_lt (Nat.min_le_left _ _) count.toNat_lt)
    have received : (((memory.heap.deref entry.buffptr).drop inner).take
        (min count.toNat (entry.size.toNat - inner) -
          min services.uncopied (min count.toNat (entry.size.toNat - inner)))) =
        ((segmentFrom memory.commands (memory.fPos filp).toUInt64.toNat).take count.toNat).take
          (((segmentFrom memory.commands (memory.fPos filp).toUInt64.toNat).take
            count.toNat).length - services.uncopied) := by
      rw [List.length_take, length, bytes, List.take_take, List.take_take]
      congr 1
      omega
    have many : (((segmentFrom memory.commands (memory.fPos filp).toUInt64.toNat).take
        count.toNat).take (((segmentFrom memory.commands (memory.fPos filp).toUInt64.toNat).take
          count.toNat).length - services.uncopied)).length =
        min count.toNat (entry.size.toNat - inner) -
          min services.uncopied (min count.toNat (entry.size.toNat - inner)) := by
      rw [List.length_take, List.length_take, length]
      omega
    rw [clipped, exact, Valid.sub_uncopied, byte, received, many]
    exact ⟨rfl, rfl⟩

theorem Clean.length_pending_lt (clean : memory.Clean) : memory.pending.length < 2 ^ 63 := by
  rw [clean.length_pending]
  exact clean.valid.entrySize

/-- An allocation succeeds when there is room for the pending bytes and the new ones. -/
theorem Clean.grow_isSome_iff (clean : memory.Clean) (services : Services) {size : Nat}
    (small : size < 2 ^ 63) :
    (memory.grow services (UInt64.ofNat size)).isSome ↔ memory.device.Room services size := by
  have pending := clean.length_pending_lt
  have exact : (memory.entry.size + UInt64.ofNat size).toNat = memory.pending.length + size := by
    have count : (UInt64.ofNat size).toNat = size :=
      UInt64.toNat_ofNat_of_lt' (Nat.lt_trans small (by decide))
    rw [UInt64.toNat_add, count, ← clean.length_pending, Nat.mod_eq_of_lt (by omega)]
  have room : allocatable services (memory.entry.size + UInt64.ofNat size) = true ↔
      memory.device.Room services size := by
    rw [allocatable, exact, Bool.and_eq_true, Bool.not_eq_true', decide_eq_true_iff]
    rfl
  rw [← room, grow]
  split <;> simp_all

/-- The oldest command moves on when a full ring takes another one. -/
theorem Valid.oldest_add (valid : memory.Valid) (entry : AesdBufferEntry) :
    (aesdCircularBufferAddEntry memory.buffer entry).2.outOffs.toNat =
      if memory.commands.length < 10 then memory.buffer.outOffs.toNat
      else (memory.buffer.outOffs.toNat + 1) % 10 := by
  obtain ⟨added, ring⟩ := valid.ring
  have count : memory.commands.length = min 10 added.length := by
    rw [commands, List.length_map, ring.live_length]
  have flag := ring.full
  simp only [aesdCircularBufferAddEntry, count]
  by_cases full : memory.buffer.full = true
  · have enough := flag.mp full
    rw [if_pos full, advance_toNat, if_neg (by omega)]
  · have few := mt flag.mpr full
    rw [if_neg full, if_pos (by omega)]

/-- Accepting a chunk behind the bytes of a grown entry is accepting it. -/
theorem Clean.accept_device (clean : memory.Clean) {services : Services} {data : List Byte}
    {filled : Memory} (facts : Filled services data memory filled) (filp : Nat) :
    (filled.commit filp).device = memory.device.accept filp (accepted services data) := by
  obtain ⟨_, stored⟩ := clean.commit_store facts filp
  have decides := clean.newline_filled facts
  have pending := facts.pending clean.intact
  by_cases finished : newline ∈ accepted services data
  · have inside := decides.mpr finished
    have size : filled.entry.size.toInt64 =
        Int64.ofNat (memory.device.store.pending ++ accepted services data).length := by
      have whole : (memory.device.store.pending ++ accepted services data).length =
          filled.entry.size.toNat := by
        rw [List.length_append, facts.size, ← clean.length_pending]
        rfl
      rw [whole, ← UInt64.toInt64_ofNat', UInt64.ofNat_toNat]
    have shape : filled.commit filp = { filled with
        buffer := (aesdCircularBufferAddEntry filled.buffer filled.entry).2
        entry := ⟨none, 0⟩
        fPos := Function.update filled.fPos filp
          (filled.fPos filp + filled.entry.size.toInt64) } := if_pos inside
    rw [device, stored, shape, CommandDevice.accept, if_pos finished]
    simp only [facts.buffer, facts.fPos, size, clean.valid.oldest_add]
    rfl
  · have shape : filled.commit filp = filled := if_neg (mt decides.mp finished)
    rw [device, stored, shape, CommandDevice.accept, if_neg finished, facts.buffer, facts.fPos]
    rfl

/-- A write that is not refused for want of memory in the middle of a command. -/
theorem Clean.write_device (clean : memory.Clean) (services : Services) (filp : Nat)
    (buf : UserBuffer)
    (spared : (memory.write services filp buf).1 = -ENOMEM → memory.pending = []) :
    (memory.write services filp buf).1 = (memory.device.write services filp buf).1 ∧
      (memory.write services filp buf).2.device = (memory.device.write services filp buf).2 ∧
      (memory.write services filp buf).2.Clean := by
  by_cases nothing : buf.count = 0
  · simp only [write, CommandDevice.write, nothing, ↓reduceIte, true_and]
    exact clean
  cases buf with
  | null count =>
    simp only [write, CommandDevice.write, nothing, ↓reduceIte, true_and]
    exact clean
  | bytes data fits =>
    by_cases interrupted : services.interrupted = true
    · simp only [write, CommandDevice.write, nothing, interrupted, ↓reduceIte, true_and]
      exact clean
    rw [UserBuffer.count] at nothing
    have room := clean.grow_isSome_iff services fits
    cases outcome : memory.grow services (UInt64.ofNat data.length) with
    | none =>
      have refused : ¬ memory.device.Room services data.length := by
        rw [← room, outcome]
        exact Bool.false_ne_true
      have shape : memory.write services filp (.bytes data fits) =
          (-ENOMEM, { memory with entry := ⟨none, memory.entry.size⟩ }) := by
        simp only [write, UserBuffer.count, nothing, interrupted, outcome, ↓reduceIte,
          Bool.false_eq_true]
      have empty := spared (congrArg Prod.fst shape)
      have zero : memory.entry.size = 0 := by
        apply UInt64.toNat_inj.mp
        rw [← clean.length_pending, empty]
        rfl
      have unfinished : ({ memory with entry := ⟨none, memory.entry.size⟩ } : Memory).pending =
          [] := by
        simp [pending, contents]
      have stored : ({ memory with entry := ⟨none, memory.entry.size⟩ } : Memory).store =
          memory.store := by
        rw [store, store, unfinished, empty]
        rfl
      have abstract : memory.device.write services filp (.bytes data fits) =
          (-ENOMEM, memory.device) := by
        simp only [CommandDevice.write, UserBuffer.count, nothing, interrupted, refused,
          ↓reduceIte, Bool.false_eq_true]
      rw [shape, abstract]
      refine ⟨rfl, ?_, clean.valid.dropped, .inl zero, ?_⟩
      · rw [device, stored]
        rfl
      · rw [unfinished]
        exact List.not_mem_nil
    | some grown =>
      have granted : memory.device.Room services data.length := by
        rw [← room, outcome]
        rfl
      have facts := (clean.valid.grow fits outcome).fill clean.valid
      have same := clean.accept_device facts filp
      have cleanAfter := (clean.commit_store facts filp).1
      simp only [write, CommandDevice.write, UserBuffer.count, nothing, interrupted, outcome,
        granted, ↓reduceIte, Bool.false_eq_true, UInt64.toInt64_ofNat', true_and]
      exact ⟨same, cleanAfter⟩

theorem Valid.length_content (valid : memory.Valid) :
    memory.buffer.sizes.sum = memory.device.store.commands.flatten.length := by
  rw [valid.sizes_eq, List.length_flatten]
  rfl

theorem Valid.target_device (valid : memory.Valid) (services : Services) (filp : Nat)
    (fPos : Int64) (origin : Whence) :
    seekTarget memory.buffer services.junk (memory.fPos filp) fPos origin =
      memory.device.target services filp fPos origin := by
  cases origin with
  | seekSet => rfl
  | seekCur => rfl
  | seekEnd =>
    obtain ⟨added, ring⟩ := valid.ring
    rw [seekTarget, walkToEnd_total ring, valid.length_content]
    rfl
  | other => rfl

theorem Valid.llseek_device (valid : memory.Valid) (services : Services) (filp : Nat)
    (fPos : Int64) (origin : Whence) :
    (memory.llseek services filp fPos origin).1 =
        (memory.device.llseek services filp fPos origin).1 ∧
      (memory.llseek services filp fPos origin).2.device =
        (memory.device.llseek services filp fPos origin).2 := by
  rw [llseek, CommandDevice.llseek, valid.target_device]
  by_cases interrupted : services.interrupted = true
  · rw [if_pos interrupted, if_pos interrupted]
    exact ⟨rfl, rfl⟩
  rw [if_neg interrupted, if_neg interrupted]
  cases memory.device.target services filp fPos origin with
  | none => exact ⟨rfl, rfl⟩
  | some position =>
    by_cases negative : position < 0
    · simp only [negative, ↓reduceIte, and_self]
    · simp only [negative, ↓reduceIte, true_and]
      rfl

theorem Valid.length_numbered (valid : memory.Valid) {number : Nat} (inside : number < 10) :
    (memory.device.numbered number).length = memory.buffer.slotSize number := by
  obtain ⟨added, ring⟩ := valid.ring
  have start := memory.buffer.outOffs_lt_ten
  generalize place : (number + 10 - memory.buffer.outOffs.toNat) % 10 = index
  have same : slotOf (memory.buffer.outOffs.toNat + index) = slotOf number := by
    apply Fin.ext
    simp only [slotOf_val]
    omega
  have size : memory.buffer.slotSize number = memory.buffer.oldestSize index := by
    rw [AesdCircularBuffer.slotSize, oldestSize, fromOldest, same]
  have entry : memory.device.numbered number = memory.commands.getD index [] := by
    rw [← place]
    rfl
  rw [entry, size, List.getD_eq_getElem?_getD]
  by_cases isLive : index < memory.buffer.totalEntries
  · have present : memory.commands[index]? =
        some (memory.contents (memory.buffer.fromOldest index)) := by
      simp [commands, live, isLive]
    have member : memory.buffer.fromOldest index ∈ memory.buffer.live := by
      rw [live, List.mem_map]
      exact ⟨index, List.mem_range.mpr isLive, rfl⟩
    obtain ⟨block, backed⟩ := valid.slotBlock _ member
    rw [present, Option.getD_some, length_contents backed]
    rfl
  · have absent : memory.commands[index]? = none := by
      rw [List.getElem?_eq_none_iff, commands, List.length_map, live, List.length_map,
        List.length_range]
      exact not_lt.mp isLive
    rw [absent, oldestSize_dead ring (not_lt.mp isLive) (by omega)]
    rfl

theorem Valid.sizesBelow_device (valid : memory.Valid) {seekTo : AesdSeekto}
    (inside : seekTo.writeCmd.toNat < 10) :
    sizesBelow memory.buffer seekTo.writeCmd.toNat + seekTo.writeCmdOffset.toUInt64.toInt64 =
      Int64.ofNat (((List.range seekTo.writeCmd.toNat).map fun number =>
        (memory.device.numbered number).length).sum + seekTo.writeCmdOffset.toNat) := by
  have sums : ((List.range seekTo.writeCmd.toNat).map fun number =>
      (memory.device.numbered number).length).sum =
        before memory.buffer.slotSize seekTo.writeCmd.toNat := by
    rw [before]
    congr 1
    apply List.map_congr_left
    intro number member
    exact valid.length_numbered (Nat.lt_trans (List.mem_range.mp member) inside)
  have formed := congrArg UInt64.toInt64
    (sizesBelow_toUInt64 memory.buffer seekTo.writeCmd.toNat)
  rw [Int64.toInt64_toUInt64, UInt64.toInt64_ofNat'] at formed
  have offset : seekTo.writeCmdOffset.toUInt64.toInt64 = Int64.ofNat seekTo.writeCmdOffset.toNat := by
    rw [← UInt64.toInt64_ofNat', ← UInt32.toNat_toUInt64, UInt64.ofNat_toNat]
  rw [sums, Int64.ofNat_add, formed, offset]

theorem Valid.ioctl_device (valid : memory.Valid) (services : Services) (filp : Nat)
    (cmd : UInt32) (seekTo : AesdSeekto) :
    (memory.ioctl services filp cmd seekTo).1 =
        (memory.device.ioctl services filp cmd seekTo).1 ∧
      (memory.ioctl services filp cmd seekTo).2.device =
        (memory.device.ioctl services filp cmd seekTo).2 := by
  have copies : min services.uncopied 8 ≠ 0 ↔ services.uncopied ≠ 0 := by omega
  have rejected : (seekTo.writeCmd.toNat ≥ 10 ∨ seekTo.writeCmdOffset.toUInt64 ≥
      (memory.buffer.entry (slotOf seekTo.writeCmd.toNat)).size) ↔
        ¬ (seekTo.writeCmd.toNat < 10 ∧
          seekTo.writeCmdOffset.toNat < (memory.device.numbered seekTo.writeCmd.toNat).length) := by
    rw [offset_ge_iff]
    by_cases inside : seekTo.writeCmd.toNat < 10
    · rw [valid.length_numbered inside, AesdCircularBuffer.slotSize]
      omega
    · omega
  simp only [ioctl, CommandDevice.ioctl, copies, rejected]
  split
  · exact ⟨rfl, rfl⟩
  · split
    · exact ⟨rfl, rfl⟩
    · split
      · exact ⟨rfl, rfl⟩
      · by_cases addressed : seekTo.writeCmd.toNat < 10 ∧
            seekTo.writeCmdOffset.toNat < (memory.device.numbered seekTo.writeCmd.toNat).length
        · rw [if_neg (not_not.mpr addressed), if_pos addressed,
            valid.sizesBelow_device addressed.1]
          exact ⟨rfl, rfl⟩
        · rw [if_pos addressed, if_neg addressed]
          exact ⟨rfl, rfl⟩

/-- One call on memory is one call on the device it stands for. -/
theorem Clean.step_device (clean : memory.Clean) (call : Call)
    (spared : (memory.effect call).1.retval = -ENOMEM → memory.pending = []) :
    (memory.effect call).2.Clean ∧
      memory.device.step call = ((memory.effect call).1, (memory.effect call).2.device) := by
  obtain ⟨filp, services, operation⟩ := call
  have others : (∀ buf, operation ≠ .write buf) → (memory.effect ⟨filp, services, operation⟩).2.Clean := by
    intro notWrite
    obtain ⟨fPos, same⟩ := @effect_of_not_write ⟨filp, services, operation⟩ memory notWrite
    have valid := clean.valid.effect ⟨filp, services, operation⟩
    rw [same] at valid ⊢
    exact ⟨valid, clean.intact, clean.unfinished⟩
  cases operation with
  | read bufIsNull count =>
    obtain ⟨reply, after⟩ := clean.valid.read_device services filp bufIsNull count
    refine ⟨others (by rintro buf ⟨⟩), ?_⟩
    exact Prod.ext reply.symm after.symm
  | write buf =>
    obtain ⟨retval, after, cleanAfter⟩ := clean.write_device services filp buf spared
    refine ⟨cleanAfter, ?_⟩
    exact Prod.ext (congrArg (Reply.mk · []) retval.symm) after.symm
  | llseek fPos origin =>
    obtain ⟨retval, after⟩ := clean.valid.llseek_device services filp fPos origin
    refine ⟨others (by rintro buf ⟨⟩), ?_⟩
    exact Prod.ext (congrArg (Reply.mk · []) retval.symm) after.symm
  | ioctl cmd arg =>
    obtain ⟨retval, after⟩ := clean.valid.ioctl_device services filp cmd arg
    refine ⟨others (by rintro buf ⟨⟩), ?_⟩
    exact Prod.ext (congrArg (Reply.mk · []) retval.symm) after.symm

end Memory

/-- No allocation fails with an unfinished command at stake. -/
def Spared (before : DriverState) (_ : Call) (reply : Reply) (_ : DriverState) : Prop :=
  reply.retval = -ENOMEM → before.memory.pending = []

theorem driver_simulates :
    driver.Simulates commandDevice (fun state => state.memory.device)
      (fun state => state.memory.Clean) Spared where
  step := by
    intro before call reply after clean spared taken
    obtain ⟨sameReply, sameMemory⟩ := driver_step taken
    rw [sameReply] at spared
    obtain ⟨cleanAfter, stepped⟩ := clean.step_device call spared
    rw [sameReply, sameMemory]
    exact ⟨cleanAfter, congrArg some stepped⟩

/-- The driver refines the device: every run of the driver in which no allocation
fails in the middle of a command is a run of the device, reply by reply, with
whatever interruptions, short copies, seeks and stack contents. -/
theorem driver_refines_device {trace : List (Call × Reply)} {state : DriverState}
    (run : driver.Run aesdInitModule trace state)
    (spared : driver.EachStep aesdInitModule trace Spared) :
    commandDevice.Run .fresh trace state.memory.device :=
  (driver_simulates.run run Memory.clean_init spared).2

/-- A command in two writes, the second one refused for want of memory once before it
begins and once copied short, then a seek into it, a read, and a seek to the end. -/
def mixedCalls : List Call :=
  [⟨0, { Services.smooth with noMemory := true }, .write (.bytes [111] (by decide))⟩,
   ⟨0, .smooth, .write (.bytes [111] (by decide))⟩,
   ⟨1, { Services.smooth with uncopied := 1 }, .write (.bytes [112, newline, 113] (by decide))⟩,
   ⟨1, .smooth, .ioctl AESDCHAR_IOCSEEKTO ⟨0, 1⟩⟩,
   ⟨1, .smooth, .read false 8⟩,
   ⟨0, { Services.smooth with junk := 5 }, .llseek (-1) .seekEnd⟩]

def sparesHere (before : DriverState) (call : Call) (_ : DriverState) : Bool :=
  (call.run before).1.retval ≠ -ENOMEM || before.memory.pending.isEmpty

theorem mixedCalls_refine :
    commandDevice.Run .fresh (replayTrace aesdInitModule mixedCalls)
      (replay aesdInitModule mixedCalls).memory.device := by
  refine driver_refines_device (replay_run aesdInitModule mixedCalls) ?_
  intro past call reply before after inside passed taken failed
  have tested := Machine.eachStep_of_every sparesHere (exec_replay aesdInitModule mixedCalls)
    (by decide +kernel) past call reply before after inside passed taken
  have same : call.run before = (reply, after) := Option.some.inj taken
  simp only [sparesHere, same] at tested
  rcases (Bool.or_eq_true _ _).mp tested with granted | nothing
  · exact absurd failed (of_decide_eq_true granted)
  · exact List.isEmpty_iff.mp nothing

end Aesd.Driver
