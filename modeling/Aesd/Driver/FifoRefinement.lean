import Aesd.Driver.CircularBuffer

namespace Aesd.Driver

open Aesd.Library

/-- The ring after the entries `added` were put into an empty one. -/
def ringAfter (added : List AesdBufferEntry) : AesdCircularBuffer :=
  added.foldl (fun buffer entry => (aesdCircularBufferAddEntry buffer entry).2)
    aesdCircularBufferInit

/-- What the two offsets, the flag and the ten slots say about everything added
so far. The recent entries sit where their position modulo ten puts them. -/
structure RingInvariant (added : List AesdBufferEntry) (buffer : AesdCircularBuffer) : Prop where
  inOffs : buffer.inOffs.toNat = added.length % 10
  outOffs : buffer.outOffs.toNat =
    if added.length < 10 then 0
    else added.length % 10
  full : buffer.full = true ↔ 10 ≤ added.length
  recent : ∀ (position : Nat) (present : position < added.length),
    added.length ≤ position + 10 →
      buffer.entry (slotOf position) = added[position]
  untouched : ∀ slot : Slot, added.length ≤ slot.val → buffer.entry slot = .zero

theorem ringInvariant_init : RingInvariant [] aesdCircularBufferInit := by
  constructor <;> simp [aesdCircularBufferInit]

private theorem slotOf_eq_inSlot_iff {added : List AesdBufferEntry} {buffer : AesdCircularBuffer}
    (valid : RingInvariant added buffer) (position : Nat) :
    slotOf position = buffer.inSlot ↔
      position % 10 =
        added.length % 10 := by
  simp [Fin.ext_iff, valid.inOffs]

/-- One call keeps the invariant, through filling, the moment of filling up, and wrapping. -/
theorem RingInvariant.add {added : List AesdBufferEntry} {buffer : AesdCircularBuffer}
    (valid : RingInvariant added buffer) (entry : AesdBufferEntry) :
    RingInvariant (added ++ [entry]) (aesdCircularBufferAddEntry buffer entry).2 := by
  have inNext : (advance buffer.inOffs).toNat =
      (added.length + 1) % 10 := by
    rw [advance_toNat, valid.inOffs, Nat.mod_add_mod]
  have outNext : (if buffer.full then advance buffer.outOffs else buffer.outOffs).toNat =
      if added.length < 10 then 0
      else (added.length + 1) % 10 := by
    have out := valid.outOffs
    by_cases filled : buffer.full = true
    · have enough := valid.full.mp filled
      rw [if_neg (by omega)] at out
      rw [if_pos filled, advance_toNat, out, Nat.mod_add_mod, if_neg (by omega)]
    · have room : added.length < 10 := by
        have := mt valid.full.mpr filled; omega
      rw [if_pos room] at out
      rw [if_neg filled, out, if_pos room]
  refine ⟨?_, ?_, ?_, ?_, ?_⟩
  · simpa [aesdCircularBufferAddEntry] using inNext
  · simp only [aesdCircularBufferAddEntry, outNext, List.length_append, List.length_singleton]
    grind
  · simp only [aesdCircularBufferAddEntry, UInt8.toNat_inj.symm, inNext, outNext,
      List.length_append, List.length_singleton]
    have flag := valid.full
    grind
  · intro position present recent
    simp only [List.length_append, List.length_singleton] at present recent
    simp only [aesdCircularBufferAddEntry, Function.update_apply,
      slotOf_eq_inSlot_iff valid position]
    by_cases last : position = added.length
    · subst position; simp
    · have old : position < added.length := by omega
      have elsewhere : ¬ position % 10 =
          added.length % 10 := by omega
      rw [if_neg elsewhere, List.getElem_append_left old]
      exact valid.recent position old (by omega)
  · intro slot later
    simp only [List.length_append, List.length_singleton] at later
    have below : slot.val < 10 := slot.isLt
    have other : slot ≠ buffer.inSlot := by
      intro same
      have value := congrArg Fin.val same
      simp only [AesdCircularBuffer.inSlot_val, valid.inOffs] at value
      omega
    simp only [aesdCircularBufferAddEntry, Function.update_of_ne other]
    exact valid.untouched slot (by omega)

/-- No addition leaves the ring as it was. -/
theorem add_entry_ne (buffer : AesdCircularBuffer) (entry : AesdBufferEntry) :
    (aesdCircularBufferAddEntry buffer entry).2 ≠ buffer := by
  intro unchanged
  have moved := congrArg (fun ring => ring.inOffs.toNat) unchanged
  have below := buffer.inOffs_lt_ten
  change (advance buffer.inOffs).toNat = buffer.inOffs.toNat at moved
  rw [advance_toNat] at moved
  omega

theorem ringInvariant_ringAfter (added : List AesdBufferEntry) :
    RingInvariant added (ringAfter added) := by
  induction added using List.reverseRecOn with
  | nil => exact ringInvariant_init
  | append_singleton rest entry ih =>
    rw [ringAfter, List.foldl_append]
    exact ih.add entry

namespace RingInvariant

variable {added : List AesdBufferEntry} {buffer : AesdCircularBuffer}

theorem totalEntries (valid : RingInvariant added buffer) :
    buffer.totalEntries = min 10 added.length := by
  have flag := valid.full
  have inOffs := valid.inOffs
  rw [AesdCircularBuffer.totalEntries_eq]
  split
  · rename_i filled
    have := flag.mp filled; omega
  · rename_i notFull
    have := mt flag.mpr notFull; omega

theorem fromOldest (valid : RingInvariant added buffer) {index : Nat}
    (present : added.length - 10 + index < added.length) :
    buffer.fromOldest index = added[added.length - 10 + index] := by
  have out := valid.outOffs
  have same : slotOf (buffer.outOffs.toNat + index) = slotOf (added.length - 10 + index) := by
    apply Fin.ext
    simp only [slotOf_val]
    split at out <;> omega
  rw [AesdCircularBuffer.fromOldest, same]
  exact valid.recent _ present (by omega)

/-- Reading from `out_offs` yields exactly the most recent entries in order. -/
theorem live (valid : RingInvariant added buffer) :
    buffer.live = added.rtake 10 := by
  have total := valid.totalEntries
  apply List.ext_getElem
  · simp [AesdCircularBuffer.live, List.rtake, total]; omega
  · intro index inLive inAdded
    have round : index < buffer.totalEntries := by
      simpa [AesdCircularBuffer.live] using inLive
    rw [total] at round
    have present : added.length - 10 + index < added.length := by
      omega
    simp only [AesdCircularBuffer.live, List.getElem_map, List.getElem_range, List.rtake,
      List.getElem_drop]
    exact valid.fromOldest present

theorem live_length (valid : RingInvariant added buffer) :
    buffer.live.length = min 10 added.length := by
  rw [valid.live, length_rtake]

theorem live_add (valid : RingInvariant added buffer) (entry : AesdBufferEntry) :
    (aesdCircularBufferAddEntry buffer entry).2.live = (buffer.live ++ [entry]).rtake 10 := by
  rw [(valid.add entry).live, valid.live, rtake_rtake_append_singleton]

/-- The entry a full ring gives up is the oldest of the ten it holds. -/
theorem removed (valid : RingInvariant added buffer) (entry : AesdBufferEntry) :
    (aesdCircularBufferAddEntry buffer entry).1 =
      if 10 ≤ added.length then
        buffer.live.head?.bind AesdBufferEntry.buffptr
      else none := by
  have flag := valid.full
  have total := valid.totalEntries
  by_cases filled : buffer.full = true
  · have enough := flag.mp filled
    have oldest : buffer.entry buffer.outSlot = buffer.fromOldest 0 := by
      have below := buffer.outOffs_lt_ten
      rw [AesdCircularBuffer.fromOldest, Nat.add_zero]
      congr 1
      apply Fin.ext
      simp only [AesdCircularBuffer.outSlot_val, slotOf_val]
      omega
    have nonempty : buffer.live.head? = some (buffer.fromOldest 0) := by
      have some : 0 < buffer.totalEntries := by omega
      obtain ⟨rest, same⟩ := Nat.exists_eq_add_one.mpr some
      simp [AesdCircularBuffer.live, same, List.range_succ_eq_map]
    simp [aesdCircularBufferAddEntry, filled, enough, oldest, nonempty]
  · have room := mt flag.mpr filled
    simp [aesdCircularBufferAddEntry, filled, room]

/-- A slot outside the live rounds was never written. -/
theorem dead_slot (valid : RingInvariant added buffer) (slot : Slot)
    (dead : ∀ index < buffer.totalEntries, slotOf (buffer.outOffs.toNat + index) ≠ slot) :
    buffer.entry slot = .zero := by
  apply valid.untouched
  by_contra early
  have below : slot.val < 10 := slot.isLt
  have out := valid.outOffs
  have total := valid.totalEntries
  by_cases filling : added.length < 10
  · apply dead slot.val (by omega)
    rw [if_pos filling] at out
    apply Fin.ext
    simp only [slotOf_val, out]
    omega
  · rw [if_neg filling] at out
    have starts := buffer.outOffs_lt_ten
    apply dead ((slot.val + 10 - buffer.outOffs.toNat) % 10) (by omega)
    apply Fin.ext
    simp only [slotOf_val]
    omega

end RingInvariant

/-- The abstract store a ring stands for. -/
def AesdCircularBuffer.abstract (buffer : AesdCircularBuffer) :
    BoundedFifo 10 AesdBufferEntry :=
  ⟨buffer.live, by
    have below := buffer.inOffs_lt_ten
    simp only [live, List.length_map, List.length_range, totalEntries_eq]
    split <;> omega⟩

@[simp] theorem AesdCircularBuffer.abstract_items (buffer : AesdCircularBuffer) :
    buffer.abstract.items = buffer.live := rfl

/-- Adding an entry is a push of the abstract store, returned pointer included. -/
theorem RingInvariant.push {added : List AesdBufferEntry} {buffer : AesdCircularBuffer}
    (valid : RingInvariant added buffer) (entry : AesdBufferEntry) :
    (aesdCircularBufferAddEntry buffer entry).2.abstract = (buffer.abstract.push entry).2 ∧
      (aesdCircularBufferAddEntry buffer entry).1 =
        (buffer.abstract.push entry).1.bind AesdBufferEntry.buffptr := by
  constructor
  · apply BoundedFifo.ext
    rw [BoundedFifo.push_items, AesdCircularBuffer.abstract_items,
      AesdCircularBuffer.abstract_items, valid.live_add]
  · have length := valid.live_length
    rw [valid.removed entry, BoundedFifo.push_evicted, AesdCircularBuffer.abstract_items]
    by_cases enough : 10 ≤ added.length
    · have filled : buffer.live.length = 10 := by omega
      rw [if_pos enough, if_pos filled]
      cases entries : buffer.live with
      | nil => simp [entries] at filled
      | cons oldest rest => simp
    · rw [if_neg enough, if_neg (by omega)]
      rfl

theorem ringAfter_abstract (added : List AesdBufferEntry) :
    (ringAfter added).abstract = (BoundedFifo.empty 10 AesdBufferEntry).pushAll added := by
  induction added using List.reverseRecOn with
  | nil => apply BoundedFifo.ext; rfl
  | append_singleton rest entry ih =>
    rw [BoundedFifo.pushAll_append_singleton, ← ih, ringAfter, List.foldl_append]
    exact ((ringInvariant_ringAfter rest).push entry).1

/-- After any sequence of additions the ring is the bounded queue of the last ten
entries, and its offsets, flag, dead slots and next return value are as the
number of additions determines them. -/
theorem ring_refines_bounded_fifo (added : List AesdBufferEntry) :
    (ringAfter added).abstract = (BoundedFifo.empty 10 AesdBufferEntry).pushAll added ∧
      (ringAfter added).live = added.rtake 10 ∧
      (ringAfter added).totalEntries = min added.length 10 ∧
      ((ringAfter added).full = true ↔ 10 ≤ added.length) ∧
      (ringAfter added).inOffs.toNat = added.length % 10 ∧
      (ringAfter added).outOffs =
        (if added.length < 10 then 0
         else (ringAfter added).inOffs) ∧
      (∀ slot, (∀ index < (ringAfter added).totalEntries,
          slotOf ((ringAfter added).outOffs.toNat + index) ≠ slot) →
        (ringAfter added).entry slot = .zero) ∧
      ∀ entry, (aesdCircularBufferAddEntry (ringAfter added) entry).1 =
        if 10 ≤ added.length then
          (added.rtake 10).head?.bind AesdBufferEntry.buffptr
        else none := by
  have valid := ringInvariant_ringAfter added
  have refined := ringAfter_abstract added
  refine ⟨refined, ?_, ?_, valid.full, valid.inOffs, ?_, valid.dead_slot, ?_⟩
  · rw [← AesdCircularBuffer.abstract_items, refined, BoundedFifo.pushAll_items]
    rfl
  · rw [valid.totalEntries, Nat.min_comm]
  · apply UInt8.toNat_inj.mp
    have out := valid.outOffs
    have into := valid.inOffs
    split <;> simp_all
  · intro entry
    rw [valid.removed entry, valid.live]

end Aesd.Driver
