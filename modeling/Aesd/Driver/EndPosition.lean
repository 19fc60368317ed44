import Aesd.Driver.SeekPosition

namespace Aesd.Driver

open Aesd.Library AesdCircularBuffer

theorem slotOf_slot (slot : Slot) : slotOf slot.val = slot :=
  Fin.ext (Nat.mod_eq_of_lt slot.isLt)

theorem slotOf_mod_add (position distance : Nat) :
    slotOf ((position % 10) + distance) = slotOf (position + distance) :=
  Fin.ext (Nat.mod_add_mod position 10 distance)

theorem slotOf_next_add (position : Slot) (distance : Nat) :
    slotOf ((slotOf (position.val + 1)).val + distance) = slotOf (position.val + (distance + 1)) := by
  rw [slotOf_val, slotOf_mod_add, Nat.add_right_comm, Nat.add_assoc]

theorem nextPosition_eq (position : Slot) : nextPosition position = slotOf (position.val + 1) := by
  have below : position.val < 10 := position.isLt
  apply Fin.ext
  rw [slotOf_val]
  unfold nextPosition
  split
  · rename_i last
    rw [last]
    rfl
  · rename_i inner
    have notLast : position.val ≠ 9 := inner
    have small : position.val + 1 < 10 := by omega
    exact (Nat.mod_eq_of_lt small).symm

theorem before_succ_left (sizes : Nat → Nat) (count : Nat) :
    before sizes (count + 1) = sizes 0 + before (fun index => sizes (index + 1)) count := by
  rw [before, before, List.range_succ_eq_map, List.map_cons, List.sum_cons, List.map_map]
  rfl

private theorem add_size (totalLength : Int64) (size : UInt64) :
    (totalLength.toUInt64 + size).toInt64 = totalLength + Int64.ofNat size.toNat := by
  rw [UInt64.toInt64_add, Int64.toInt64_toUInt64, ← UInt64.toInt64_ofNat', UInt64.ofNat_toNat]

private theorem slotSize_start (buffer : AesdCircularBuffer) (position : Slot) :
    buffer.slotSize (position.val + 0) = (buffer.entry position).size.toNat := by
  rw [slotSize, Nat.add_zero, slotOf_slot]

/-- The walk adds the sizes of the slots from its start up to the one it stops at. -/
theorem walkToEnd_eq (buffer : AesdCircularBuffer) (rounds : Nat) (position : Slot)
    (totalLength : Int64)
    (passes : ∀ round < rounds, slotOf (position.val + round + 1) ≠ buffer.inSlot)
    (stops : slotOf (position.val + rounds + 1) = buffer.inSlot) :
    walkToEnd buffer position totalLength =
      totalLength + Int64.ofNat
        (before (fun round => buffer.slotSize (position.val + round)) (rounds + 1)) := by
  induction rounds generalizing position totalLength with
  | zero =>
    have single : before (fun round => buffer.slotSize (position.val + round)) 1 =
        (buffer.entry position).size.toNat := by
      rw [before_succ_left, slotSize_start]
      rfl
    rw [walkToEnd, nextPosition_eq, if_pos stops, add_size, single]
  | succ rounds ih =>
    have continues : slotOf (position.val + 1) ≠ buffer.inSlot :=
      passes 0 (Nat.succ_pos rounds)
    have shift := slotOf_next_add position
    have later := ih (slotOf (position.val + 1))
      (totalLength + Int64.ofNat (buffer.entry position).size.toNat)
      (fun round inside => by
        rw [Nat.add_assoc, shift]
        exact passes (round + 1) (Nat.succ_lt_succ inside))
      (by
        rw [Nat.add_assoc, shift]
        exact stops)
    have rest : (fun round => buffer.slotSize ((slotOf (position.val + 1)).val + round)) =
        fun round => buffer.slotSize (position.val + (round + 1)) := by
      funext round
      rw [slotSize, shift, slotSize]
    rw [walkToEnd, nextPosition_eq, if_neg continues, add_size, later, rest,
      before_succ_left (fun round => buffer.slotSize (position.val + round)), slotSize_start,
      Int64.ofNat_add, Int64.add_assoc]

/-- From `out_offs` it takes at most ten rounds to `in_offs`, and no fewer than there
are live entries. -/
theorem rounds_to_end {added : List AesdBufferEntry} {buffer : AesdCircularBuffer}
    (valid : RingInvariant added buffer) :
    ∃ rounds, buffer.totalEntries ≤ rounds + 1 ∧ rounds + 1 ≤ 10 ∧
      (∀ round < rounds, slotOf (buffer.outSlot.val + round + 1) ≠ buffer.inSlot) ∧
      slotOf (buffer.outSlot.val + rounds + 1) = buffer.inSlot := by
  have into := valid.inOffs
  have out := valid.outOffs
  have entries := valid.totalEntries
  refine ⟨(buffer.inOffs.toNat + 9 - buffer.outOffs.toNat) % 10, ?_, by omega, ?_, ?_⟩
  · split at out <;> omega
  · intro round earlier same
    have values := congrArg Fin.val same
    simp only [slotOf_val, outSlot_val, inSlot_val] at values
    split at out <;> omega
  · apply Fin.ext
    simp only [slotOf_val, outSlot_val, inSlot_val]
    split at out <;> omega

/-- From `out_offs` the walk stops at `in_offs` after all live slots, and any
other slot it passes is empty. -/
theorem walkToEnd_total {added : List AesdBufferEntry} {buffer : AesdCircularBuffer}
    (valid : RingInvariant added buffer) (totalLength : Int64) :
    walkToEnd buffer buffer.outSlot totalLength =
      totalLength + Int64.ofNat buffer.sizes.sum := by
  obtain ⟨rounds, enough, inside, passes, stops⟩ := rounds_to_end valid
  rw [walkToEnd_eq buffer rounds _ _ passes stops, ← before_live valid enough inside]
  rfl

/-- The exact position a seek counts its offset from. -/
def seekBase (state : DriverState) (filp : Nat) : Whence → Int
  | .seekSet => 0
  | .seekCur => (state.fPos filp).toInt
  | .seekEnd => state.dev.buffer.sizes.sum
  | .other => 0

/-- What `aesd_llseek` should do: move to the exact position and return it, or
refuse one that a `loff_t` cannot hold. -/
def LlseekExact (services : Services) (filp : Nat) (fPos : Int64) (origin : Whence)
    (state : DriverState) : Prop :=
  let target := seekBase state filp origin + fPos.toInt
  let retval := ((aesdLlseek services filp fPos origin).run state).1
  let after := ((aesdLlseek services filp fPos origin).run state).2
  if 0 ≤ target ∧ target < 2 ^ 63 then
    retval.toInt = target ∧ after.fPos = Function.update state.fPos filp retval
  else retval = -EINVAL ∧ after.fPos = state.fPos

/-- What the uninitialised total must start from for the end to come out right:
zero, or anything that lets a position out of range come out negative. -/
def EndSound (junk : Int64) (target : Int) : Prop :=
  if 0 ≤ target ∧ target < 2 ^ 63 then junk = 0 else (junk.toInt + target).bmod (2 ^ 64) < 0

section

variable {services : Services} {filp : Nat} {fPos : Int64} {origin : Whence} {state : DriverState}

/-- With its target formed in 64 bits, the call is exact if the target is, or if
it comes out negative where no position is possible. -/
theorem llseek_exact_of_target (locks : services.interrupted = false) {formed : Int64}
    (found : seekTarget state.dev.buffer services.junk (state.fPos filp) fPos origin =
      some formed) :
    LlseekExact services filp fPos origin state ↔
      if 0 ≤ seekBase state filp origin + fPos.toInt ∧
          seekBase state filp origin + fPos.toInt < 2 ^ 63 then
        formed.toInt = seekBase state filp origin + fPos.toInt
      else formed.toInt < 0 := by
  obtain ⟨retval, memory⟩ := aesdLlseek_effect services filp fPos origin state
  have positions := congrArg Memory.fPos memory
  change ((aesdLlseek services filp fPos origin).run state).2.fPos = _ at positions
  have known : seekTarget state.memory.buffer services.junk (state.memory.fPos filp) fPos origin =
      some formed := found
  have refused : (-EINVAL : Int64).toInt = -22 := by decide
  rw [LlseekExact, retval, positions, Memory.llseek, if_neg (Bool.eq_false_iff.mp locks)]
  simp only [known, Int64.lt_iff_toInt_lt, Int64.toInt_zero]
  by_cases negative : formed.toInt < 0
  · simp only [negative, ↓reduceIte, refused]
    split
    · exact iff_of_false (by omega) (by omega)
    · exact iff_of_true ⟨trivial, rfl⟩ trivial
  · simp only [negative, ↓reduceIte]
    split
    · exact and_iff_left rfl
    · refine iff_of_false ?_ id
      rintro ⟨same, _⟩
      rw [same, refused] at negative
      omega

theorem llseek_interrupted (interrupted : services.interrupted = true) :
    ¬ LlseekExact services filp fPos origin state := by
  obtain ⟨retval, _⟩ := aesdLlseek_effect services filp fPos origin state
  have restarts : (-ERESTARTSYS : Int64).toInt = -512 := by decide
  rw [LlseekExact, retval, Memory.llseek, if_pos interrupted]
  simp only [restarts]
  split
  · omega
  · exact fun refused => absurd refused.1 (by decide)

end

/-- A sum of two positions that leaves the range of `loff_t` comes out negative. -/
theorem wrapped_sum_negative {sum : Int} (low : -2 ^ 63 ≤ sum) (high : sum < 2 ^ 64 - 1)
    (outside : ¬ (0 ≤ sum ∧ sum < 2 ^ 63)) : sum.bmod (2 ^ 64) < 0 := by
  by_cases small : sum < 2 ^ 63
  · rw [Int.bmod_eq_of_le (by omega) (by omega)]
    omega
  · rw [← Int.sub_bmod_right, Int.bmod_eq_of_le (by omega) (by omega)]
    omega

theorem bmod_add_eq_iff {junk : Int64} {target : Int} (low : 0 ≤ target) (high : target < 2 ^ 63) :
    (junk.toInt + target).bmod (2 ^ 64) = target ↔ junk = 0 := by
  have exact : (0 + target).bmod (2 ^ 64) = target := by
    rw [Int.zero_add]
    exact Int.bmod_eq_of_le (by omega) (by omega)
  have same : junk.toInt.bmod (2 ^ 64) = junk.toInt := Int64.toInt_bmod junk
  calc (junk.toInt + target).bmod (2 ^ 64) = target
      ↔ (junk.toInt + target).bmod (2 ^ 64) = (0 + target).bmod (2 ^ 64) := by rw [exact]
    _ ↔ junk.toInt = 0 := by rw [Int.bmod_add_cancel_right, same, Int.zero_bmod]
    _ ↔ junk = 0 := by rw [← Int64.toInt_zero, Int64.toInt_inj]

/-- For every origin, `aesd_llseek` is exact unless it was interrupted or the end
was counted from stack contents that do not cancel out. -/
theorem llseek_exact_iff {state : DriverState} (reached : driver.Reachable aesdInitModule state)
    {filp : Nat} (nonneg : 0 ≤ (state.fPos filp).toInt) {origin : Whence}
    (known : origin ≠ .other) (services : Services) (fPos : Int64) :
    LlseekExact services filp fPos origin state ↔
      services.interrupted = false ∧
        (origin = .seekEnd →
          EndSound services.junk (state.dev.buffer.sizes.sum + fPos.toInt)) := by
  by_cases interrupted : services.interrupted = true
  · exact iff_of_false (llseek_interrupted interrupted)
      (fun both => absurd (both.1.symm.trans interrupted) Bool.false_ne_true)
  have locks := Bool.eq_false_iff.mpr interrupted
  have low := fPos.le_toInt
  have high := fPos.toInt_lt
  cases origin with
  | seekSet =>
    refine iff_of_true ((llseek_exact_of_target locks rfl).mpr ?_) ⟨locks, Whence.noConfusion⟩
    rw [seekBase, Int.zero_add]
    split
    · rfl
    · omega
  | seekCur =>
    refine iff_of_true ((llseek_exact_of_target locks rfl).mpr ?_) ⟨locks, Whence.noConfusion⟩
    have current := (state.fPos filp).toInt_lt
    rw [Int64.toInt_add, seekBase]
    split
    · exact Int.bmod_eq_of_le (by omega) (by omega)
    · rename_i outside
      exact wrapped_sum_negative (by omega) (by omega) outside
  | seekEnd =>
    obtain ⟨added, valid⟩ := reachable_ring reached
    have formed : (walkToEnd state.dev.buffer state.dev.buffer.outSlot services.junk + fPos).toInt =
        (services.junk.toInt + (state.dev.buffer.sizes.sum + fPos.toInt)).bmod (2 ^ 64) := by
      rw [walkToEnd_total valid, Int64.toInt_add, Int64.toInt_add, Int64.toInt_ofNat']
      simp [Int.add_assoc]
    rw [llseek_exact_of_target locks rfl, formed, seekBase, EndSound]
    simp only [locks, true_and, forall_const]
    split
    · rename_i inside
      exact bmod_add_eq_iff inside.1 inside.2
    · rfl
  | other => exact absurd rfl known

/-- Two commands in the ring and a zero on the stack: the end is where it should be. -/
theorem twoCommands_end :
    LlseekExact .smooth 0 (-1) .seekEnd
      (replay aesdInitModule [⟨0, .smooth, .write (.bytes [120, newline] (by decide))⟩,
        ⟨1, .smooth, .write (.bytes [newline] (by decide))⟩]) :=
  (llseek_exact_iff (replay_reachable aesdInitModule _) (by decide) (by decide) .smooth (-1)).mpr
    ⟨rfl, fun _ => by
      rw [EndSound, if_pos (by decide)]
      rfl⟩

/-- With 7 on the stack, the end of an empty device is position 7. -/
theorem llseek_end_from_junk :
    ¬ ∀ state, driver.Reachable aesdInitModule state → ∀ (services : Services) (filp : Nat)
      (fPos : Int64) (origin : Whence), services.interrupted = false → origin ≠ .other →
      0 ≤ (state.fPos filp).toInt → LlseekExact services filp fPos origin state := by
  intro always
  have reached : driver.Reachable aesdInitModule aesdInitModule := ⟨[], .start⟩
  have exact := always aesdInitModule reached { Services.smooth with junk := 7 } 0 0 .seekEnd rfl
    (by decide) (by decide)
  have position := walkToEnd_total ringInvariant_init 7
  rw [llseek_exact_of_target rfl rfl, if_pos (by decide)] at exact
  rw [show (walkToEnd aesdInitModule.dev.buffer aesdInitModule.dev.buffer.outSlot 7 + 0 : Int64) = 7
    by rw [aesdInitModule, position]; decide] at exact
  exact absurd exact (by decide)

end Aesd.Driver
