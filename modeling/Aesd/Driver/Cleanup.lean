import Aesd.Driver.EndPosition
import Aesd.Driver.Ownership

namespace Aesd.Driver

open Aesd.Library

/-- The rounds of `AESD_CIRCULAR_BUFFER_FOREACH`. -/
def cleanupRounds : List Nat → KernelM Unit
  | [] => pure ()
  | index :: rounds => do
    kfree (← readBuffer fun buffer => (buffer.entry (slotOf index)).buffptr)
    cleanupRounds rounds

/-- The pending entry is not among the slots. -/
def aesdCleanupModule : KernelM Unit :=
  cleanupRounds (List.range aesdcharMaxWriteOperationsSupported)

/-- A block that a slot or the pending entry points to. -/
def PointedTo (state : DriverState) (block : Nat) : Prop :=
  (∃ slot, (state.dev.buffer.entry slot).buffptr = some block) ∨
    state.dev.entry.buffptr = some block

/-- The requests that unloading the module adds. -/
def freedByCleanup (state : DriverState) : List Release :=
  (aesdCleanupModule.run state).2.heap.releases.drop state.heap.releases.length

/-- Unloading frees each block that is still pointed to once, and nothing else. -/
structure CleanedUp (state : DriverState) : Prop where
  once : ∀ block, PointedTo state block →
    ((freedByCleanup state).map fun release => release.pointer.block).count block = 1
  only : ∀ release ∈ freedByCleanup state,
    release.valid = true ∧ PointedTo state release.pointer.block

/-- The pointers of the slots in array order, without the `NULL`s. -/
def AesdCircularBuffer.pointers (buffer : AesdCircularBuffer) : List Nat :=
  (List.range 10).filterMap fun index => (buffer.entry (slotOf index)).buffptr

/-- The rounds free the pointers of their slots, one after the other. -/
theorem cleanupRounds_heap (rounds : List Nat) (state : DriverState) :
    ((cleanupRounds rounds).run state).2.heap = state.heap.freeAll
      (rounds.filterMap fun index => (state.dev.buffer.entry (slotOf index)).buffptr) := by
  induction rounds generalizing state with
  | nil => rfl
  | cons index rest ih =>
    simp only [cleanupRounds, Program.run_bind, ih, readBuffer, run_once]
    cases pointed : (state.dev.buffer.entry (slotOf index)).buffptr with
    | none =>
      rw [List.filterMap_cons, pointed]
      rfl
    | some block =>
      rw [List.filterMap_cons, pointed]
      rfl

theorem cleanup_heap (state : DriverState) :
    (aesdCleanupModule.run state).2.heap = state.heap.freeAll state.dev.buffer.pointers := by
  rw [aesdCleanupModule, cleanupRounds_heap, AesdCircularBuffer.pointers]

/-- Every slot that points to a block is a live one. -/
theorem RingInvariant.pointers_perm {added : List AesdBufferEntry} {buffer : AesdCircularBuffer}
    (valid : RingInvariant added buffer) :
    buffer.pointers.Perm (buffer.live.filterMap AesdBufferEntry.buffptr) := by
  have rotated := rotated_slots buffer.outOffs.toNat buffer.outOffs_lt_ten
  have pointers := rotated.filterMap fun slot => (buffer.entry slot).buffptr
  rw [List.filterMap_map, List.filterMap_map] at pointers
  refine pointers.symm.trans (List.Perm.of_eq ?_)
  have rounds : List.range 10 = List.range buffer.totalEntries ++
      (List.range (10 - buffer.totalEntries)).map (buffer.totalEntries + ·) := by
    rw [← List.range_add, Nat.add_sub_cancel' buffer.totalEntries_le]
  have dead : ((List.range (10 - buffer.totalEntries)).map (buffer.totalEntries + ·)).filterMap
      (fun index => (buffer.fromOldest index).buffptr) = [] := by
    rw [List.filterMap_eq_nil_iff]
    intro index member
    obtain ⟨distance, inside, rfl⟩ := List.mem_map.mp member
    rw [List.mem_range] at inside
    have empty := valid.dead_slot (slotOf (buffer.outOffs.toNat + (buffer.totalEntries + distance)))
      fun other isLive same => by
        have equal := slotOf_add_injective _ (by omega) (by omega) same
        omega
    rw [AesdCircularBuffer.fromOldest, empty]
    rfl
  change (List.range 10).filterMap (fun index => (buffer.fromOldest index).buffptr) = _
  rw [rounds, List.filterMap_append, dead, List.append_nil, AesdCircularBuffer.live,
    List.filterMap_map]
  rfl

section

variable {state : DriverState}

theorem Memory.Valid.nodup_pointers (valid : state.memory.Valid) :
    state.dev.buffer.pointers.Nodup := by
  obtain ⟨added, ring⟩ := valid.ring
  exact (ring.pointers_perm.nodup_iff).mpr (List.nodup_append.mp valid.distinct).1

theorem mem_pointers {buffer : AesdCircularBuffer} {block : Nat} :
    block ∈ buffer.pointers ↔ ∃ slot, (buffer.entry slot).buffptr = some block := by
  rw [AesdCircularBuffer.pointers, List.mem_filterMap]
  constructor
  · exact fun ⟨index, _, pointed⟩ => ⟨_, pointed⟩
  · exact fun ⟨slot, pointed⟩ =>
      ⟨slot.val, List.mem_range.mpr slot.isLt, by rw [slotOf_slot]; exact pointed⟩

/-- The requests that unloading adds are those for the pointers of the slots, all valid. -/
theorem Memory.Valid.freedByCleanup_eq (valid : state.memory.Valid) :
    freedByCleanup state = state.dev.buffer.pointers.map fun block => ⟨⟨block, 0⟩, true⟩ := by
  have present : ∀ block ∈ state.dev.buffer.pointers, state.heap.live block := by
    obtain ⟨added, ring⟩ := valid.ring
    intro block member
    refine valid.references_live block (List.mem_append_left _ ?_)
    exact ring.pointers_perm.mem_iff.mp member
  rw [freedByCleanup, cleanup_heap, Heap.freeAll_releases _ valid.nodup_pointers present,
    List.drop_left]

/-- The pending entry's block is not in the ring. -/
theorem Memory.Valid.pending_notMem_pointers (valid : state.memory.Valid) {block : Nat}
    (pending : state.dev.entry.buffptr = some block) : block ∉ state.dev.buffer.pointers := by
  obtain ⟨added, ring⟩ := valid.ring
  intro member
  refine List.disjoint_of_nodup_append valid.distinct (ring.pointers_perm.mem_iff.mp member) ?_
  exact Option.mem_toList.mpr pending

end

/-- From any reachable state, unloading the module frees what the device points to,
once and nothing else, exactly when no pending entry has a block. -/
theorem cleanup_frees_iff {state : DriverState} (reached : driver.Reachable aesdInitModule state) :
    CleanedUp state ↔ state.dev.entry.buffptr = none := by
  have valid := reachable_valid reached
  have blocks : (freedByCleanup state).map (fun release => release.pointer.block) =
      state.dev.buffer.pointers := by
    rw [valid.freedByCleanup_eq, List.map_map]
    exact List.map_id _
  constructor
  · intro clean
    by_contra pending
    obtain ⟨block, pointed⟩ := Option.ne_none_iff_exists'.mp pending
    have once := clean.once block (.inr pointed)
    rw [blocks, List.count_eq_zero_of_not_mem (valid.pending_notMem_pointers pointed)] at once
    cases once
  · intro nothing
    constructor
    · rintro block (⟨slot, pointed⟩ | pointed)
      · rw [blocks]
        exact List.count_eq_one_of_mem valid.nodup_pointers (mem_pointers.mpr ⟨slot, pointed⟩)
      · rw [nothing] at pointed
        cases pointed
    · intro release member
      rw [valid.freedByCleanup_eq] at member
      obtain ⟨block, inside, rfl⟩ := List.mem_map.mp member
      exact ⟨rfl, .inl (mem_pointers.mp inside)⟩

/-- Eleven commands and nothing pending: unloading frees the ten blocks of the ring. -/
theorem elevenCommands_cleaned : CleanedUp (replay aesdInitModule elevenCommands) :=
  (cleanup_frees_iff (replay_reachable aesdInitModule elevenCommands)).mpr (by decide)

/-- The block of a command without its newline is not freed. -/
theorem pendingByte_not_cleaned : ¬ ∀ trace state, driver.Run aesdInitModule trace state →
    (∀ step ∈ trace, 0 ≤ step.2.retval.toInt) → CleanedUp state := by
  intro always
  have clean := always _ _ (replay_run aesdInitModule
    [⟨0, .smooth, .write (.bytes [120] (by decide))⟩]) (by decide)
  have nothing := (cleanup_frees_iff (replay_reachable aesdInitModule _)).mp clean
  exact absurd nothing (by decide)

end Aesd.Driver
