import Aesd.Driver.EndPosition
import Mathlib.Order.Bounds.Basic

namespace Aesd.Driver

open Aesd.Library AesdCircularBuffer

/-- Until it stops, the walk comes nearer to the slot before `in_offs`. -/
theorem walk_nearer {buffer : AesdCircularBuffer} {position : Slot}
    (continues : nextPosition position ≠ buffer.inSlot) :
    (buffer.inOffs.toNat + 9 - (nextPosition position).val) % 10 <
      (buffer.inOffs.toNat + 9 - position.val) % 10 := by
  have below : position.val < 10 := position.isLt
  have target := buffer.inOffs_lt_ten
  rw [nextPosition_eq] at continues ⊢
  have values := mt Fin.ext continues
  rw [slotOf_val, inSlot_val] at values
  rw [slotOf_val]
  omega

/-- The walk with the slots it reads, in order. -/
def walkLogged (buffer : AesdCircularBuffer) (position : Slot) (totalLength : Int64) :
    Int64 × List Slot :=
  let totalLength := (totalLength.toUInt64 + (buffer.entry position).size).toInt64
  if nextPosition position = buffer.inSlot then (totalLength, [position])
  else
    let later := walkLogged buffer (nextPosition position) totalLength
    (later.1, position :: later.2)
termination_by (buffer.inOffs.toNat + 9 - position.val) % 10
decreasing_by exact walk_nearer ‹_›

variable {buffer : AesdCircularBuffer}

theorem walkLogged_fst (position : Slot) (totalLength : Int64) :
    (walkLogged buffer position totalLength).1 = walkToEnd buffer position totalLength := by
  induction position, totalLength using walkLogged.induct buffer with
  | case1 position totalLength stops =>
    rw [walkLogged, walkToEnd, if_pos stops, if_pos stops]
  | case2 position totalLength total continues ih =>
    rw [walkLogged, walkToEnd, if_neg continues, if_neg continues]
    exact ih

/-- The walk reads one slot after the other, from its start to the one it stops at. -/
theorem walkLogged_snd (rounds : Nat) (position : Slot) (totalLength : Int64)
    (passes : ∀ round < rounds, slotOf (position.val + round + 1) ≠ buffer.inSlot)
    (stops : slotOf (position.val + rounds + 1) = buffer.inSlot) :
    (walkLogged buffer position totalLength).2 =
      (List.range (rounds + 1)).map fun round => slotOf (position.val + round) := by
  induction rounds generalizing position totalLength with
  | zero =>
    rw [walkLogged, nextPosition_eq, if_pos stops]
    simp [slotOf_slot]
  | succ rounds ih =>
    have continues : slotOf (position.val + 1) ≠ buffer.inSlot :=
      passes 0 (Nat.succ_pos rounds)
    have shift := slotOf_next_add position
    rw [walkLogged, nextPosition_eq, if_neg continues, List.range_succ_eq_map]
    simp only [List.map_cons, List.map_map, Nat.add_zero, slotOf_slot]
    rw [ih]
    · exact congrArg _ (List.map_congr_left fun round _ => shift round)
    · intro round inside
      rw [Nat.add_assoc, shift]
      exact passes (round + 1) (Nat.succ_lt_succ inside)
    · rw [Nat.add_assoc, shift]
      exact stops

/-- The walk from `out_offs` reads the slots of a range of rounds that covers the live ones. -/
theorem walkLogged_rounds {added : List AesdBufferEntry} (valid : RingInvariant added buffer)
    (totalLength : Int64) :
    ∃ rounds, buffer.totalEntries ≤ rounds ∧ rounds ≤ 10 ∧
      (walkLogged buffer buffer.outSlot totalLength).2 =
        (List.range rounds).map fun round => slotOf (buffer.outOffs.toNat + round) := by
  obtain ⟨rounds, enough, inside, passes, stops⟩ := rounds_to_end valid
  exact ⟨rounds + 1, enough, inside, walkLogged_snd rounds _ _ passes stops⟩

theorem nodup_rounds (start : Nat) {rounds : Nat} (inside : rounds ≤ 10) :
    ((List.range rounds).map fun round => slotOf (start + round)).Nodup := by
  refine List.Nodup.map_on ?_ List.nodup_range
  intro first isFirst second isSecond same
  rw [List.mem_range] at isFirst isSecond
  exact slotOf_add_injective start (by omega) (by omega) same

/-- The content ends where the lookup first finds nothing. -/
theorem isLeast_not_found (fits : buffer.sizes.sum < 2 ^ 64) (rtn : UInt64) :
    IsLeast {charOffset |
      (aesdCircularBufferFindEntryOffsetForFpos buffer charOffset rtn).1 = none}
        (UInt64.ofNat buffer.sizes.sum) := by
  have missing : ∀ charOffset,
      (aesdCircularBufferFindEntryOffsetForFpos buffer charOffset rtn).1 = none ↔
        buffer.sizes.sum ≤ charOffset.toNat := by
    intro charOffset
    rw [find_spec, ← locate_eq_none_iff]
    cases locate buffer.sizes charOffset.toNat with
    | none => simp
    | some place => simp
  have exact : (UInt64.ofNat buffer.sizes.sum).toNat = buffer.sizes.sum :=
    UInt64.toNat_ofNat_of_lt' fits
  constructor
  · exact (missing _).mpr (Nat.le_of_eq exact.symm)
  · intro charOffset ends
    rw [UInt64.le_iff_toNat_le, exact]
    exact (missing charOffset).mp ends

/-- Whatever was added, the walk ends after at most ten slots. It reads each live slot
once and otherwise only slots of size zero, and what it adds to `totalLength` is the
least offset that the lookup does not find. -/
theorem walk_measures_content (added : List AesdBufferEntry) (totalLength : Int64) :
    let buffer := ringAfter added
    let walked := walkLogged buffer buffer.outSlot totalLength
    walked.1 = walkToEnd buffer buffer.outSlot totalLength ∧
    walked.2.length ≤ 10 ∧
    (∀ index < buffer.totalEntries,
      walked.2.count (slotOf (buffer.outOffs.toNat + index)) = 1) ∧
    (∀ slot ∈ walked.2,
      (∃ index < buffer.totalEntries, slotOf (buffer.outOffs.toNat + index) = slot) ∨
        (buffer.entry slot).size = 0) ∧
    (buffer.sizes.sum < 2 ^ 63 → ∀ rtn,
      (walked.1 - totalLength).toInt = buffer.sizes.sum ∧
      IsLeast {charOffset |
        (aesdCircularBufferFindEntryOffsetForFpos buffer charOffset rtn).1 = none}
          (walked.1 - totalLength).toUInt64) := by
  intro buffer walked
  have valid := ringInvariant_ringAfter added
  obtain ⟨rounds, enough, inside, read⟩ := walkLogged_rounds valid totalLength
  have distinct := nodup_rounds buffer.outOffs.toNat inside
  refine ⟨walkLogged_fst _ _, ?_, ?_, ?_, ?_⟩
  · rw [read, List.length_map, List.length_range]
    exact inside
  · intro index isLive
    rw [read]
    refine List.count_eq_one_of_mem distinct (List.mem_map_of_mem ?_)
    exact List.mem_range.mpr (Nat.lt_of_lt_of_le isLive enough)
  · intro slot _
    by_cases isLive : ∃ index < buffer.totalEntries, slotOf (buffer.outOffs.toNat + index) = slot
    · exact .inl isLive
    · right
      rw [valid.dead_slot slot fun index below same => isLive ⟨index, below, same⟩]
      rfl
  · intro fits rtn
    have total : walked.1 - totalLength = Int64.ofNat buffer.sizes.sum := by
      rw [walkLogged_fst, walkToEnd_total valid, Int64.add_comm, Int64.add_sub_cancel]
    rw [total]
    refine ⟨Int64.toInt_ofNat_of_lt fits, ?_⟩
    exact isLeast_not_found (Nat.lt_trans fits (by decide)) rtn

end Aesd.Driver
