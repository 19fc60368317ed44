import Aesd.Driver.Transitions
import Aesd.Driver.Lookup
import Mathlib.Tactic.IntervalCases

/-! Where the seek command lands: `aesd_ioctl` numbers the ring's slots from slot
0, the lookup numbers them from `out_offs`. -/
namespace Aesd.Driver

open Aesd.Library

namespace AesdCircularBuffer

/-- Sizes in array order, as the seek command adds them up. -/
def slotSize (buffer : AesdCircularBuffer) (index : Nat) : Nat :=
  (buffer.entry (slotOf index)).size.toNat

/-- Sizes from the oldest entry on, as the lookup subtracts them. -/
def oldestSize (buffer : AesdCircularBuffer) (index : Nat) : Nat :=
  (buffer.fromOldest index).size.toNat

def before (sizes : Nat → Nat) (index : Nat) : Nat := ((List.range index).map sizes).sum

end AesdCircularBuffer

open AesdCircularBuffer

/-- The pair names a byte of a live command, counted from the oldest. -/
def Addresses (buffer : AesdCircularBuffer) (seekTo : AesdSeekto) : Prop :=
  ∃ size, buffer.sizes[seekTo.writeCmd.toNat]? = some size ∧ seekTo.writeCmdOffset.toNat < size

/-- The same for two numbers of any size. -/
def AddressesByte (buffer : AesdCircularBuffer) (command offset : Nat) : Prop :=
  ∃ size, buffer.sizes[command]? = some size ∧ offset < size

/-- What a seek command should do in `state`. -/
structure SeekCorrect (services : Services) (filp : Nat) (seekTo : AesdSeekto)
    (state : DriverState) : Prop where
  succeeds : ((aesdIoctl services filp AESDCHAR_IOCSEEKTO seekTo).run state).1 = 0 ↔
    Addresses state.dev.buffer seekTo
  lands : Addresses state.dev.buffer seekTo → ∀ rtn,
    aesdCircularBufferFindEntryOffsetForFpos state.dev.buffer
        (((aesdIoctl services filp AESDCHAR_IOCSEEKTO seekTo).run state).2.fPos filp).toUInt64 rtn =
      (some (slotOf (state.dev.buffer.outOffs.toNat + seekTo.writeCmd.toNat)),
        seekTo.writeCmdOffset.toUInt64)
  refuses : ¬ Addresses state.dev.buffer seekTo →
    ((aesdIoctl services filp AESDCHAR_IOCSEEKTO seekTo).run state).1 = -EINVAL ∧
      ((aesdIoctl services filp AESDCHAR_IOCSEEKTO seekTo).run state).2.fPos filp = state.fPos filp

/-- In a full ring, slot `k` and the `k`-th oldest entry both have the requested
byte or both lack it, and in the first case as many bytes lie before either. -/
def SeekAligned (buffer : AesdCircularBuffer) (seekTo : AesdSeekto) : Prop :=
  buffer.full = true → seekTo.writeCmd.toNat < 10 →
    (seekTo.writeCmdOffset.toNat < buffer.slotSize seekTo.writeCmd.toNat ↔
      seekTo.writeCmdOffset.toNat < buffer.oldestSize seekTo.writeCmd.toNat) ∧
    (seekTo.writeCmdOffset.toNat < buffer.oldestSize seekTo.writeCmd.toNat →
      before buffer.slotSize seekTo.writeCmd.toNat =
        before buffer.oldestSize seekTo.writeCmd.toNat)

section Sums

variable {added : List AesdBufferEntry} {buffer : AesdCircularBuffer}

theorem before_succ (sizes : Nat → Nat) (index : Nat) :
    before sizes (index + 1) = before sizes index + sizes index := by
  simp [before, List.range_succ]

theorem before_mono (sizes : Nat → Nat) {first second : Nat} (earlier : first ≤ second) :
    before sizes first ≤ before sizes second := by
  induction second, earlier using Nat.le_induction with
  | base => exact Nat.le_refl _
  | succ second _ ih => rw [before_succ]; omega

theorem rotated_slots (start : Nat) (inside : start < 10) :
    ((List.range 10).map fun index => slotOf (start + index)).Perm
      ((List.range 10).map slotOf) := by
  interval_cases start <;> decide

theorem before_ten (buffer : AesdCircularBuffer) :
    before buffer.slotSize 10 = before buffer.oldestSize 10 := by
  have rotated := rotated_slots buffer.outOffs.toNat buffer.outOffs_lt_ten
  have sums := (rotated.map fun slot => (buffer.entry slot).size.toNat).sum_eq
  simp only [List.map_map] at sums
  exact sums.symm

theorem sizes_take_sum (buffer : AesdCircularBuffer) {count : Nat}
    (inside : count ≤ buffer.totalEntries) :
    (buffer.sizes.take count).sum = before buffer.oldestSize count := by
  simp only [sizes, live, List.map_map, ← List.map_take, List.take_range, Nat.min_eq_left inside]
  rfl

theorem size_lt_of_present {command size : Nat} (present : buffer.sizes[command]? = some size) :
    size < 2 ^ 64 := by
  rw [sizes, List.getElem?_map, Option.map_eq_some_iff] at present
  obtain ⟨entry, _, rfl⟩ := present
  exact entry.size.toNat_lt

/-- Slots beyond the live ones hold nothing. -/
theorem oldestSize_dead (valid : RingInvariant added buffer) {index : Nat}
    (dead : buffer.totalEntries ≤ index) (inside : index < 10) : buffer.oldestSize index = 0 := by
  have total := valid.totalEntries
  have out := valid.outOffs
  have filling : added.length < 10 := by omega
  rw [if_pos filling] at out
  have empty : buffer.entry (slotOf (buffer.outOffs.toNat + index)) = .zero := by
    apply valid.untouched
    simp only [slotOf_val]
    omega
  rw [oldestSize, fromOldest, empty]
  rfl

theorem before_live (valid : RingInvariant added buffer) {count : Nat}
    (later : buffer.totalEntries ≤ count) (inside : count ≤ 10) :
    before buffer.oldestSize count = buffer.sizes.sum := by
  induction count, later using Nat.le_induction with
  | base =>
    have whole := sizes_take_sum buffer (Nat.le_refl buffer.totalEntries)
    rw [List.take_of_length_le (by simp)] at whole
    exact whole.symm
  | succ count later ih =>
    rw [before_succ, oldestSize_dead valid later (by omega), Nat.add_zero, ih (by omega)]

theorem sizes_sum (valid : RingInvariant added buffer) :
    buffer.sizes.sum = before buffer.oldestSize 10 :=
  (before_live valid buffer.totalEntries_le (Nat.le_refl 10)).symm

/-- Until the ring is full the two numberings are the same. -/
theorem slotSize_eq_of_not_full (valid : RingInvariant added buffer)
    (filling : ¬ buffer.full = true) (index : Nat) :
    buffer.slotSize index = buffer.oldestSize index := by
  have out := valid.outOffs
  have room := mt valid.full.mpr filling
  rw [if_pos (by omega)] at out
  rw [slotSize, oldestSize, fromOldest, out, Nat.zero_add]

theorem addressesByte_iff (valid : RingInvariant added buffer) {command offset : Nat}
    (inside : command < 10) :
    AddressesByte buffer command offset ↔ offset < buffer.oldestSize command := by
  rw [AddressesByte, sizes_getElem?]
  by_cases isLive : command < buffer.totalEntries
  · simp [isLive, oldestSize]
  · simp [isLive, oldestSize_dead valid (not_lt.mp isLive) inside]

theorem addresses_iff (valid : RingInvariant added buffer) {seekTo : AesdSeekto}
    (inside : seekTo.writeCmd.toNat < 10) :
    Addresses buffer seekTo ↔
      seekTo.writeCmdOffset.toNat < buffer.oldestSize seekTo.writeCmd.toNat :=
  addressesByte_iff valid inside

theorem lt_ten_of_addressesByte {command offset : Nat}
    (addressed : AddressesByte buffer command offset) : command < 10 := by
  obtain ⟨size, present, _⟩ := addressed
  have inside := (List.getElem?_eq_some_iff.mp present).1
  rw [length_sizes] at inside
  exact Nat.lt_of_lt_of_le inside buffer.totalEntries_le

theorem sizesBelow_toUInt64 (buffer : AesdCircularBuffer) (count : Nat) :
    (sizesBelow buffer count).toUInt64 = UInt64.ofNat (before buffer.slotSize count) := by
  induction count with
  | zero => rfl
  | succ count ih =>
    rw [before_succ, UInt64.ofNat_add, ← ih]
    simp [sizesBelow, List.range_succ, slotSize]

end Sums

theorem offset_ge_iff (size : UInt64) (offset : UInt32) :
    offset.toUInt64 ≥ size ↔ ¬ offset.toNat < size.toNat := by
  rw [ge_iff_le, UInt64.le_iff_toNat_le, UInt32.toNat_toUInt64, not_lt]

theorem ioctl_refuses {services : Services} (filp : Nat) {seekTo : AesdSeekto}
    {state : DriverState} (locks : services.interrupted = false) (copies : services.uncopied = 0)
    (outside : ¬ (seekTo.writeCmd.toNat < 10 ∧
      seekTo.writeCmdOffset.toNat < state.dev.buffer.slotSize seekTo.writeCmd.toNat)) :
    ((aesdIoctl services filp AESDCHAR_IOCSEEKTO seekTo).run state).1 = -EINVAL ∧
      ((aesdIoctl services filp AESDCHAR_IOCSEEKTO seekTo).run state).2.memory = state.memory := by
  obtain ⟨retval, memory⟩ := aesdIoctl_effect services filp AESDCHAR_IOCSEEKTO seekTo state
  have rejected : seekTo.writeCmd.toNat ≥ 10 ∨ seekTo.writeCmdOffset.toUInt64 ≥
      (state.dev.buffer.entry (slotOf seekTo.writeCmd.toNat)).size := by
    rw [offset_ge_iff, ← slotSize]
    omega
  have known : ¬ (iocType AESDCHAR_IOCSEEKTO ≠ AESD_IOC_MAGIC ∨
      iocNr AESDCHAR_IOCSEEKTO > AESDCHAR_IOC_MAXNR) := by decide
  have shape : state.memory.ioctl services filp AESDCHAR_IOCSEEKTO seekTo =
      (-EINVAL, state.memory) := by
    simp only [Memory.ioctl, known, copies, locks, ↓reduceIte, Nat.zero_min, ne_eq,
      not_true_eq_false, Bool.false_eq_true]
    exact if_pos rejected
  rw [retval, memory, shape]
  exact ⟨rfl, rfl⟩

theorem ioctl_moves {services : Services} (filp : Nat) {seekTo : AesdSeekto}
    {state : DriverState} (locks : services.interrupted = false) (copies : services.uncopied = 0)
    (command : seekTo.writeCmd.toNat < 10)
    (byte : seekTo.writeCmdOffset.toNat < state.dev.buffer.slotSize seekTo.writeCmd.toNat) :
    ((aesdIoctl services filp AESDCHAR_IOCSEEKTO seekTo).run state).1 = 0 ∧
      (((aesdIoctl services filp AESDCHAR_IOCSEEKTO seekTo).run state).2.fPos filp).toUInt64 =
        UInt64.ofNat (before state.dev.buffer.slotSize seekTo.writeCmd.toNat +
          seekTo.writeCmdOffset.toNat) := by
  obtain ⟨retval, memory⟩ := aesdIoctl_effect services filp AESDCHAR_IOCSEEKTO seekTo state
  have kept : ¬ (seekTo.writeCmd.toNat ≥ 10 ∨ seekTo.writeCmdOffset.toUInt64 ≥
      (state.dev.buffer.entry (slotOf seekTo.writeCmd.toNat)).size) := by
    rw [offset_ge_iff, ← slotSize]
    omega
  have known : ¬ (iocType AESDCHAR_IOCSEEKTO ≠ AESD_IOC_MAGIC ∨
      iocNr AESDCHAR_IOCSEEKTO > AESDCHAR_IOC_MAXNR) := by decide
  have shape : state.memory.ioctl services filp AESDCHAR_IOCSEEKTO seekTo =
      (0, { state.memory with
        fPos := Function.update state.fPos filp (sizesBelow state.dev.buffer seekTo.writeCmd.toNat +
          seekTo.writeCmdOffset.toUInt64.toInt64) }) := by
    simp only [Memory.ioctl, known, copies, locks, ↓reduceIte, Nat.zero_min, ne_eq,
      not_true_eq_false, Bool.false_eq_true]
    exact if_neg kept
  have position := congrArg (fun after => after.fPos filp) memory
  rw [shape] at position retval
  simp only [DriverState.memory, Function.update_self] at position
  refine ⟨retval, ?_⟩
  rw [position, Int64.toUInt64_add, sizesBelow_toUInt64, UInt64.ofNat_add]
  simp

/-- A position is found at a live byte if and only if it is the byte's. -/
theorem find_at_iff {buffer : AesdCircularBuffer} {command byte size : Nat}
    (present : buffer.sizes[command]? = some size) (inside : byte < size) (charOffset : UInt64) :
    (∀ rtn, aesdCircularBufferFindEntryOffsetForFpos buffer charOffset rtn =
      (some (slotOf (buffer.outOffs.toNat + command)), UInt64.ofNat byte)) ↔
      charOffset.toNat = before buffer.oldestSize command + byte := by
  have entries := buffer.totalEntries_le
  have isLive : command < buffer.totalEntries := by
    simpa using (List.getElem?_eq_some_iff.mp present).1
  have taken := sizes_take_sum buffer (Nat.le_of_lt isLive)
  constructor
  · intro found
    have here := found 0
    rw [find_spec] at here
    cases located : locate buffer.sizes charOffset.toNat with
    | none => simp [located] at here
    | some place =>
      obtain ⟨segment, inner⟩ := place
      obtain ⟨width, known, less, total⟩ := (locate_eq_some_iff _ _ _ _).mp located
      have round : segment < buffer.totalEntries := by
        simpa using (List.getElem?_eq_some_iff.mp known).1
      simp only [located, Prod.mk.injEq, Option.some.injEq] at here
      obtain ⟨sameSlot, sameByte⟩ := here
      obtain rfl := slotOf_add_injective _ (by omega) (by omega) sameSlot
      have narrow := size_lt_of_present present
      obtain rfl : width = size := Option.some.inj (known.symm.trans present)
      have sameInner := congrArg UInt64.toNat sameByte
      rw [UInt64.toNat_ofNat_of_lt' (Nat.lt_trans less narrow),
        UInt64.toNat_ofNat_of_lt' (Nat.lt_trans inside narrow)] at sameInner
      omega
  · intro same rtn
    have located := locate_prefix_add present inside
    rw [taken, ← same] at located
    rw [find_spec, located]

/-- The position the seek command forms is found at the requested byte exactly
when both numberings put the same number of bytes before it. -/
theorem find_moved_iff {added : List AesdBufferEntry} {buffer : AesdCircularBuffer}
    (valid : RingInvariant added buffer) {seekTo : AesdSeekto}
    (bounded : buffer.sizes.sum < 2 ^ 63) (command : seekTo.writeCmd.toNat < 10)
    (physical : seekTo.writeCmdOffset.toNat < buffer.slotSize seekTo.writeCmd.toNat)
    (addressed : seekTo.writeCmdOffset.toNat < buffer.oldestSize seekTo.writeCmd.toNat) :
    (∀ rtn, aesdCircularBufferFindEntryOffsetForFpos buffer
        (UInt64.ofNat (before buffer.slotSize seekTo.writeCmd.toNat +
          seekTo.writeCmdOffset.toNat)) rtn =
      (some (slotOf (buffer.outOffs.toNat + seekTo.writeCmd.toNat)),
        seekTo.writeCmdOffset.toUInt64)) ↔
      before buffer.slotSize seekTo.writeCmd.toNat =
        before buffer.oldestSize seekTo.writeCmd.toNat := by
  have whole : before buffer.slotSize (seekTo.writeCmd.toNat + 1) ≤ buffer.sizes.sum := by
    rw [sizes_sum valid, ← before_ten]
    exact before_mono _ command
  rw [before_succ] at whole
  have word : (UInt64.ofNat (before buffer.slotSize seekTo.writeCmd.toNat +
      seekTo.writeCmdOffset.toNat)).toNat =
        before buffer.slotSize seekTo.writeCmd.toNat + seekTo.writeCmdOffset.toNat :=
    UInt64.toNat_ofNat_of_lt' (by simp [UInt64.size]; omega)
  obtain ⟨size, present, byte⟩ := (addresses_iff valid command).mpr addressed
  rw [← UInt64.ofNat_uInt32ToNat, find_at_iff present byte, word]
  omega

/-- Before the ring is full the agreement asked of a full one holds by itself. -/
theorem seekAligned_iff {added : List AesdBufferEntry} {buffer : AesdCircularBuffer}
    (valid : RingInvariant added buffer) {seekTo : AesdSeekto}
    (command : seekTo.writeCmd.toNat < 10) :
    SeekAligned buffer seekTo ↔
      (seekTo.writeCmdOffset.toNat < buffer.slotSize seekTo.writeCmd.toNat ↔
        seekTo.writeCmdOffset.toNat < buffer.oldestSize seekTo.writeCmd.toNat) ∧
      (seekTo.writeCmdOffset.toNat < buffer.oldestSize seekTo.writeCmd.toNat →
        before buffer.slotSize seekTo.writeCmd.toNat =
          before buffer.oldestSize seekTo.writeCmd.toNat) := by
  constructor
  · intro aligned
    by_cases filled : buffer.full = true
    · exact aligned filled command
    · have same : buffer.slotSize = buffer.oldestSize :=
        funext (slotSize_eq_of_not_full valid filled)
      rw [same]
      exact ⟨Iff.rfl, fun _ => rfl⟩
  · intro agree _ _
    exact agree

/-- In every reachable state, a seek command does what it should exactly when the
ring's two numberings agree on the requested pair. -/
theorem ioctl_seek_correct_iff {state : DriverState}
    (reached : driver.Reachable aesdInitModule state) {services : Services}
    (locks : services.interrupted = false) (copies : services.uncopied = 0)
    (bounded : state.dev.buffer.sizes.sum < 2 ^ 63) (filp : Nat) (seekTo : AesdSeekto) :
    SeekCorrect services filp seekTo state ↔ SeekAligned state.dev.buffer seekTo := by
  obtain ⟨added, valid⟩ := reachable_ring reached
  by_cases command : seekTo.writeCmd.toNat < 10
  · have addressed := addresses_iff valid command
    rw [seekAligned_iff valid command]
    by_cases physical :
        seekTo.writeCmdOffset.toNat < state.dev.buffer.slotSize seekTo.writeCmd.toNat
    · obtain ⟨success, position⟩ := ioctl_moves filp locks copies command physical
      by_cases byte :
          seekTo.writeCmdOffset.toNat < state.dev.buffer.oldestSize seekTo.writeCmd.toNat
      · have landing := find_moved_iff valid bounded command physical byte
        rw [← position] at landing
        constructor
        · intro correct
          exact ⟨iff_of_true physical byte,
            fun _ => landing.mp (correct.lands (addressed.mpr byte))⟩
        · intro agree
          exact ⟨iff_of_true success (addressed.mpr byte),
            fun _ => landing.mpr (agree.2 byte),
            fun absent => absurd (addressed.mpr byte) absent⟩
      · constructor
        · intro correct
          exact absurd (addressed.mp (correct.succeeds.mp success)) byte
        · intro agree
          exact absurd (agree.1.mp physical) byte
    · obtain ⟨failure, memory⟩ := ioctl_refuses filp locks copies (fun both => physical both.2)
      have unsuccessful : ¬ ((aesdIoctl services filp AESDCHAR_IOCSEEKTO seekTo).run state).1 = 0 := by
        rw [failure]
        decide
      by_cases byte :
          seekTo.writeCmdOffset.toNat < state.dev.buffer.oldestSize seekTo.writeCmd.toNat
      · constructor
        · intro correct
          exact absurd (correct.succeeds.mpr (addressed.mpr byte)) unsuccessful
        · intro agree
          exact absurd (agree.1.mpr byte) physical
      · have absent := mt addressed.mp byte
        refine iff_of_true ⟨iff_of_false unsuccessful absent, ?_, ?_⟩
          ⟨iff_of_false physical byte, fun present => absurd present byte⟩
        · exact fun present => absurd present absent
        · exact fun _ => ⟨failure, congrArg (fun after => after.fPos filp) memory⟩
  · obtain ⟨failure, memory⟩ := @ioctl_refuses services filp seekTo state locks copies
      (fun both => command both.1)
    have absent : ¬ Addresses state.dev.buffer seekTo := by
      exact fun addressed => command (lt_ten_of_addressesByte addressed)
    refine iff_of_true ⟨?_, ?_, ?_⟩ (fun _ inside => absurd inside command)
    · rw [failure]
      exact iff_of_false (by decide) absent
    · exact fun present => absurd present absent
    · exact fun _ => ⟨failure, congrArg (fun after => after.fPos filp) memory⟩

/-- Ten commands of two bytes and an eleventh of three, which rotates the ring. -/
def elevenCommands : List Call :=
  List.replicate 10 ⟨0, .smooth, .write (.bytes [120, newline] (by decide))⟩ ++
    [⟨0, .smooth, .write (.bytes [121, 121, newline] (by decide))⟩]

theorem elevenCommands_sizes :
    (replay aesdInitModule elevenCommands).dev.buffer.sizes = [2, 2, 2, 2, 2, 2, 2, 2, 2, 3] ∧
      (replay aesdInitModule elevenCommands).dev.buffer.slotSize 0 = 3 := by
  decide

/-- Byte 1 of the oldest command is still found after the rotation. -/
theorem elevenCommands_seek :
    SeekCorrect .smooth 0 ⟨0, 1⟩ (replay aesdInitModule elevenCommands) := by
  have bounded : (replay aesdInitModule elevenCommands).dev.buffer.sizes.sum < 2 ^ 63 := by
    rw [elevenCommands_sizes.1]
    decide
  refine (ioctl_seek_correct_iff (replay_reachable aesdInitModule elevenCommands) rfl rfl bounded
    0 ⟨0, 1⟩).mpr ?_
  intro _ _
  exact ⟨by decide, fun _ => rfl⟩

/-- With the eleventh command stored, byte 2 of the oldest command is accepted
though that command has two bytes. -/
theorem ioctl_seek_wrong_after_rotation :
    ¬ ∀ state, driver.Reachable aesdInitModule state → ∀ services : Services,
      services.interrupted = false → services.uncopied = 0 →
      state.dev.buffer.sizes.sum < 2 ^ 63 → ∀ filp seekTo,
        SeekCorrect services filp seekTo state := by
  intro always
  have correct := always _ (replay_reachable aesdInitModule elevenCommands) .smooth rfl rfl
    (by rw [elevenCommands_sizes.1]; decide) 0 ⟨0, 2⟩
  obtain ⟨success, _⟩ := @ioctl_moves .smooth 0 ⟨0, 2⟩ (replay aesdInitModule elevenCommands) rfl rfl
    (by decide) (by rw [show (⟨0, 2⟩ : AesdSeekto).writeCmd.toNat = 0 from rfl,
      elevenCommands_sizes.2]; decide)
  obtain ⟨size, present, byte⟩ := correct.succeeds.mp success
  rw [elevenCommands_sizes.1] at present
  obtain rfl : 2 = size := Option.some.inj present
  exact absurd byte (by decide)

end Aesd.Driver
