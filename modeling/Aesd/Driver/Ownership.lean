import Aesd.Driver.CommandStore

namespace Aesd.Driver

open Aesd.Library

/-- Every live block has one owner, and every owner's block is live. -/
structure Memory.Owned (memory : Memory) : Prop where
  counted : ∀ block, memory.heap.live block → memory.references.count block = 1
  present : ∀ block ∈ memory.references, memory.heap.live block

/-- What a call owes the entries it evicts: one release of the block of each. -/
def ReleasesEvicted (before after : Memory) : Prop :=
  ∀ entry ∈ before.buffer.live, entry ∉ after.buffer.live →
    ∀ block, entry.buffptr = some block →
      ((after.heap.releases.drop before.heap.releases.length).map
        fun release => release.pointer.block).count block = 1

/-- A write leaks when it allocates over the block that an empty copy left behind,
or when it finishes a command while the ring is full. -/
def Leaks (memory : Memory) (call : Call) : Prop :=
  ∃ data fits, call.operation = .write (.bytes data fits) ∧ data ≠ [] ∧
    call.services.interrupted = false ∧
      ((memory.entry.size = 0 ∧ memory.entry.buffptr ≠ none) ∨
        (memory.buffer.full = true ∧ newline ∈ accepted call.services data))

theorem AesdCircularBuffer.full_iff (buffer : AesdCircularBuffer) :
    buffer.full = true ↔ buffer.live.length = 10 := by
  have below := buffer.inOffs_lt_ten
  rw [length_live, totalEntries_eq]
  cases buffer.full
  · simp
    omega
  · simp

namespace Memory.Valid

variable {memory : Memory}

theorem references_live (valid : memory.Valid) :
    ∀ block ∈ memory.references, memory.heap.live block := by
  intro block member
  rcases List.mem_append.mp member with inSlots | inPending
  · obtain ⟨entry, isLive, pointed⟩ := List.mem_filterMap.mp inSlots
    obtain ⟨owner, backed⟩ := valid.slotBlock entry isLive
    obtain rfl := Option.some.inj (backed.1.symm.trans pointed)
    exact backed.2.1
  · exact (valid.entryBlock block (Option.mem_toList.mp inPending)).2.1

/-- References are distinct and live in every run, so ownership only asks that
no block is forgotten. -/
theorem owned_iff (valid : memory.Valid) :
    memory.Owned ↔ ∀ block, memory.heap.live block → block ∈ memory.references := by
  constructor
  · intro owned block present
    exact List.count_pos_iff.mp (Nat.lt_of_lt_of_eq Nat.zero_lt_one (owned.counted block present).symm)
  · intro remembered
    exact ⟨fun block present => List.count_eq_one_of_mem valid.distinct (remembered block present),
      valid.references_live⟩

/-- Filling forgets nothing but a block that an empty entry still points to. -/
theorem filled_owned_iff (valid : memory.Valid) (owned : memory.Owned) {services : Services}
    {data : List Byte} {filled : Memory} (facts : Filled services data memory filled) :
    filled.Owned ↔ ¬ (memory.entry.size = 0 ∧ memory.entry.buffptr ≠ none) := by
  have references : filled.references =
      memory.buffer.live.filterMap AesdBufferEntry.buffptr ++ [memory.heap.next] := by
    rw [Memory.references, facts.buffer, facts.backed.1, Option.toList_some]
  rw [(valid.filled facts).owned_iff, references]
  constructor
  · rintro remembered ⟨empty, pointed⟩
    obtain ⟨block, found⟩ := Option.ne_none_iff_exists'.mp pointed
    have present := (valid.entryBlock block found).2.1
    have carried : memory.carried ≠ some block := by
      rw [carried, if_pos empty]
      exact (Option.some_ne_none block).symm
    have inPending : block ∈ memory.entry.buffptr.toList := Option.mem_toList.mpr found
    rcases List.mem_append.mp (remembered block ((facts.live block).mpr (.inr ⟨present, carried⟩)))
      with inSlots | isNext
    · exact List.disjoint_of_nodup_append valid.distinct inSlots inPending
    · exact Nat.ne_of_lt (Heap.live_lt_next present) (List.mem_singleton.mp isNext)
  · intro kept block present
    rcases (facts.live block).mp present with isNext | ⟨older, notCarried⟩
    · exact List.mem_append_right _ (List.mem_singleton.mpr isNext)
    · rcases List.mem_append.mp (valid.owned_iff.mp owned block older) with inSlots | inPending
      · exact List.mem_append_left _ inSlots
      · have pointed := Option.mem_toList.mp inPending
        refine absurd ⟨?_, ?_⟩ kept
        · by_contra nonempty
          exact notCarried (by rw [carried, if_neg nonempty, pointed])
        · rw [pointed]
          exact Option.some_ne_none block

theorem live_eq_concat (valid : memory.Valid) (room : memory.buffer.full = false) :
    (aesdCircularBufferAddEntry memory.buffer memory.entry).2.live =
      memory.buffer.live ++ [memory.entry] := by
  have few : memory.buffer.live.length ≠ 10 :=
    mt memory.buffer.full_iff.mpr (Bool.eq_false_iff.mp room)
  have most := memory.buffer.length_live.trans_le memory.buffer.totalEntries_le
  exact valid.live_commit.trans
    (rtake_append_singleton_of_length_lt memory.entry (lt_of_le_of_ne most few))

/-- Finishing a command moves its block to the ring; a full ring forgets the oldest. -/
theorem commit_owned_iff (valid : memory.Valid) (filp : Nat) (finished : newline ∈ memory.pending) :
    (memory.commit filp).Owned ↔ memory.Owned ∧ memory.buffer.full = false := by
  have shape : (memory.commit filp).heap = memory.heap ∧
      (memory.commit filp).references =
        (aesdCircularBufferAddEntry memory.buffer memory.entry).2.live.filterMap
          AesdBufferEntry.buffptr := by
    simp [Memory.commit, finished, references]
  have whole : (memory.buffer.live ++ [memory.entry]).filterMap AesdBufferEntry.buffptr =
      memory.references := by
    cases pointed : memory.entry.buffptr <;> simp [references, List.filterMap_append, pointed]
  rw [(valid.commit filp).owned_iff, valid.owned_iff, shape.1, shape.2]
  cases room : memory.buffer.full with
  | false =>
    rw [valid.live_eq_concat room, whole]
    exact (and_iff_left rfl).symm
  | true =>
    have ten := memory.buffer.full_iff.mp room
    obtain ⟨oldest, rest, split⟩ := List.exists_cons_of_length_pos
      (Nat.lt_of_lt_of_eq (Nat.succ_pos 9) ten.symm)
    rw [split, List.length_cons] at ten
    obtain ⟨block, backed⟩ := valid.slotBlock oldest (split ▸ List.mem_cons_self)
    have kept : (memory.buffer.live ++ [memory.entry]).rtake 10 = rest ++ [memory.entry] := by
      simp [split, List.rtake, ten]
    have forgotten : block ∉ (rest ++ [memory.entry]).filterMap AesdBufferEntry.buffptr := by
      have distinct := valid.distinct
      rw [← whole, split, List.cons_append, List.filterMap_cons_some backed.1] at distinct
      exact (List.nodup_cons.mp distinct).1
    rw [valid.live_commit, kept]
    refine iff_of_false (fun remembered => forgotten (remembered block backed.2.1)) ?_
    rintro ⟨_, filling⟩
    cases filling

end Memory.Valid

theorem releasesEvicted_of_subset {before after : Memory}
    (kept : ∀ entry ∈ before.buffer.live, entry ∈ after.buffer.live) :
    ReleasesEvicted before after :=
  fun entry present evicted => absurd (kept entry present) evicted

theorem leaks_iff {memory : Memory} {call : Call} {data : List Byte} {fits : data.length < 2 ^ 63}
    (operation : call.operation = .write (.bytes data fits)) (nonempty : data ≠ [])
    (locks : call.services.interrupted = false) :
    Leaks memory call ↔ (memory.entry.size = 0 ∧ memory.entry.buffptr ≠ none) ∨
      (memory.buffer.full = true ∧ newline ∈ accepted call.services data) := by
  constructor
  · rintro ⟨other, _, same, _, _, reason⟩
    obtain rfl : data = other := UserBuffer.bytes.inj (Operation.write.inj (operation.symm.trans same))
    exact reason
  · exact fun reason => ⟨data, fits, operation, nonempty, locks, reason⟩

/-- Looking for the newline loses a block exactly when it evicts an entry. -/
theorem Memory.Valid.commit_accounts_iff {before filled : Memory} (valid : filled.Valid)
    (same : filled.buffer = before.buffer) (filp : Nat) :
    ((filled.commit filp).Owned ∧ ReleasesEvicted before (filled.commit filp)) ↔
      filled.Owned ∧ ¬ (before.buffer.full = true ∧ newline ∈ filled.pending) := by
  by_cases finished : newline ∈ filled.pending
  · rw [valid.commit_owned_iff filp finished, and_iff_left finished, Bool.not_eq_true, same]
    refine and_iff_left_of_imp fun owned => releasesEvicted_of_subset ?_
    intro entry present
    have shape : (filled.commit filp).buffer =
        (aesdCircularBufferAddEntry filled.buffer filled.entry).2 := by
      simp [Memory.commit, finished]
    rw [shape, valid.live_eq_concat (same ▸ owned.2), same]
    exact List.mem_append_left _ present
  · have unchanged : filled.commit filp = filled := if_neg finished
    rw [unchanged]
    refine and_congr_right fun _ => iff_of_true (releasesEvicted_of_subset ?_) ?_
    · exact fun entry present => same ▸ present
    · exact fun both => finished both.2

/-- From an owned memory, a call accounts for every block exactly when it does not leak. -/
theorem Memory.Clean.effect_owned_iff {memory : Memory} (clean : memory.Clean)
    (owned : memory.Owned) (call : Call) (allocated : (memory.effect call).1.retval ≠ -ENOMEM) :
    ((memory.effect call).2.Owned ∧ ReleasesEvicted memory (memory.effect call).2) ↔
      ¬ Leaks memory call := by
  by_cases isWrite : ∃ buf, call.operation = .write buf
  · obtain ⟨buf, operation⟩ := isWrite
    rw [effect_of_write memory operation] at allocated ⊢
    rcases write_cases call.services call.filp buf memory with
      ⟨retval, _, refused, same⟩ | ⟨_, _, _, _, _, _, same⟩ |
        ⟨data, fits, grown, bytes, nonempty, locks, succeeds, same⟩
    · rw [same]
      refine iff_of_true ⟨owned, releasesEvicted_of_subset fun _ present => present⟩ ?_
      rintro ⟨data, fits, leaking, nonempty, locks, _⟩
      have bytes : buf = .bytes data fits := Operation.write.inj (operation.symm.trans leaking)
      rcases refused data fits bytes with empty | interrupted
      · exact nonempty empty
      · rw [locks] at interrupted
        cases interrupted
    · rw [same] at allocated
      exact absurd rfl allocated
    · have facts := (clean.valid.grow fits succeeds).fill clean.valid
      rw [same, leaks_iff (operation.trans (congrArg _ bytes)) nonempty locks, not_or,
        ← clean.valid.filled_owned_iff owned facts, ← clean.newline_filled facts]
      exact (clean.valid.filled facts).commit_accounts_iff facts.buffer call.filp
  · obtain ⟨fPos, same⟩ := effect_of_not_write memory (not_exists.mp isWrite)
    rw [same]
    refine iff_of_true ⟨⟨owned.counted, owned.present⟩,
      releasesEvicted_of_subset fun _ present => present⟩ ?_
    rintro ⟨data, fits, operation, _⟩
    exact isWrite ⟨_, operation⟩

theorem Memory.owned_init : aesdInitModule.memory.Owned where
  counted := by
    intro block present
    cases present
  present := by
    intro block member
    cases member

theorem run_each_clean {trace : List (Call × Reply)}
    (allocated : ∀ step ∈ trace, step.2.retval ≠ -ENOMEM) :
    driver.EachStep aesdInitModule trace fun before _ reply _ =>
      before.memory.Clean ∧ reply.retval ≠ -ENOMEM := by
  intro past call reply before after inside run _
  have present : ∀ step ∈ past ++ [(call, reply)], step.2.retval ≠ -ENOMEM :=
    fun step member => allocated step (inside.subset member)
  exact ⟨(run_store run fun step member => present step (List.mem_append_left _ member)).1,
    present (call, reply) (List.mem_append_right _ (List.mem_singleton_self _))⟩

/-- In a run without a failed allocation, every block has one owner in every state
and every evicted block is released in its step, exactly when no write leaks. -/
theorem blocks_owned_iff {trace : List (Call × Reply)} {state : DriverState}
    (run : driver.Run aesdInitModule trace state)
    (allocated : ∀ step ∈ trace, step.2.retval ≠ -ENOMEM) :
    (driver.Along aesdInitModule trace (fun passed => passed.memory.Owned) ∧
      driver.EachStep aesdInitModule trace
        (fun before _ _ after => ReleasesEvicted before.memory after.memory)) ↔
      driver.EachStep aesdInitModule trace (fun before call _ _ => ¬ Leaks before.memory call) := by
  refine run.along_iff_eachStep Memory.owned_init (run_each_clean allocated) ?_
  rintro before call reply after ⟨clean, noFailure⟩ owned taken
  obtain ⟨sameReply, sameMemory⟩ := driver_step taken
  rw [sameMemory]
  exact clean.effect_owned_iff owned call (sameReply ▸ noFailure)

/-- Two writes that make one command: no block is lost. -/
theorem twoWrites_owned :
    (replay aesdInitModule [⟨0, .smooth, .write (.bytes [120] (by decide))⟩,
      ⟨0, .smooth, .write (.bytes [newline] (by decide))⟩]).memory.Owned := by
  have run := replay_run aesdInitModule [⟨0, .smooth, .write (.bytes [120] (by decide))⟩,
    ⟨0, .smooth, .write (.bytes [newline] (by decide))⟩]
  refine ((blocks_owned_iff run (by decide)).mpr ?_).1.final run
  refine Machine.eachStep_cons rfl ?_ (Machine.eachStep_cons rfl ?_ Machine.eachStep_nil)
  · rw [leaks_iff rfl (by decide) rfl]
    decide
  · rw [leaks_iff rfl (by decide) rfl]
    decide

/-- The eleventh command leaves the block of the first one live and unreachable. -/
theorem elevenCommands_leak :
    ¬ ∀ trace state, driver.Run aesdInitModule trace state →
      (∀ step ∈ trace, step.2.retval ≠ -ENOMEM) → state.memory.Owned := by
  intro always
  have owned := always _ _ (replay_run aesdInitModule elevenCommands) (by decide)
  exact absurd (owned.counted 0 (by decide)) (by decide)

end Aesd.Driver
