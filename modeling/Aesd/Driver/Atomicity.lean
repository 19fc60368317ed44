import Aesd.Driver.CommandStore

namespace Aesd.Driver

open Aesd.Library

/-- Nothing that a later call can show has changed. -/
structure Unchanged (before after : Memory) : Prop where
  ring : after.buffer = before.buffer
  commands : after.commands = before.commands
  pending : after.pending = before.pending
  fPos : after.fPos = before.fPos

/-- A write that fails to grow a pending command forgets where its bytes are. -/
def LosesPending (memory : Memory) (call : Call) : Prop :=
  ∃ data fits, call.operation = .write (.bytes data fits) ∧ data ≠ [] ∧
    call.services.interrupted = false ∧ memory.entry.size ≠ 0 ∧ memory.entry.buffptr ≠ none ∧
      allocatable call.services (memory.entry.size + UInt64.ofNat data.length) = false

/-- Two memories that differ at most in the pointer of an empty pending entry. -/
structure Similar (first second : Memory) : Prop where
  buffer : first.buffer = second.buffer
  heap : first.heap = second.heap
  fPos : first.fPos = second.fPos
  size : first.entry.size = second.entry.size
  buffptr : first.entry.size ≠ 0 → first.entry.buffptr = second.entry.buffptr

namespace Similar

variable {first second third : Memory}

theorem refl (memory : Memory) : Similar memory memory :=
  ⟨rfl, rfl, rfl, rfl, fun _ => rfl⟩

theorem trans (same : Similar first second) (again : Similar second third) :
    Similar first third :=
  ⟨same.buffer.trans again.buffer, same.heap.trans again.heap, same.fPos.trans again.fPos,
    same.size.trans again.size,
    fun nonempty => (same.buffptr nonempty).trans (again.buffptr (same.size ▸ nonempty))⟩

theorem contents (same : Similar first second) (entry : AesdBufferEntry) :
    first.contents entry = second.contents entry := by
  rw [Memory.contents, Memory.contents, same.heap]

theorem pending (same : Similar first second) : first.pending = second.pending := by
  by_cases empty : first.entry.size = 0
  · have alsoEmpty : second.entry.size = 0 := same.size ▸ empty
    simp [Memory.pending, Memory.contents, empty, alsoEmpty]
  · rw [Memory.pending, Memory.pending, same.contents, Memory.contents, Memory.contents,
      same.size, same.buffptr empty]

theorem unchanged (same : Similar first second) : Unchanged first second where
  ring := same.buffer.symm
  commands := by
    rw [Memory.commands, Memory.commands, same.buffer]
    exact (List.map_congr_left fun entry _ => same.contents entry).symm
  pending := same.pending.symm
  fPos := same.fPos.symm

theorem carried (same : Similar first second) : first.carried = second.carried := by
  by_cases empty : first.entry.size = 0
  · rw [Memory.carried, Memory.carried, if_pos empty, if_pos (same.size ▸ empty)]
  · rw [Memory.carried, Memory.carried, if_neg empty, if_neg (same.size ▸ empty),
      same.buffptr empty]

theorem grow (same : Similar first second) (services : Services) (count : UInt64) :
    first.grow services count = second.grow services count := by
  simp only [Memory.grow, same.carried, same.size, same.heap, same.buffer, same.fPos]

theorem write (same : Similar first second) (services : Services) (filp : Nat)
    (buf : UserBuffer) :
    (first.write services filp buf).1 = (second.write services filp buf).1 ∧
      Similar (first.write services filp buf).2 (second.write services filp buf).2 := by
  unfold Memory.write
  rw [same.grow]
  split
  · exact ⟨rfl, same⟩
  · split
    · exact ⟨rfl, same⟩
    · split
      · exact ⟨rfl, same⟩
      · split
        · exact ⟨rfl, same.buffer, same.heap, same.fPos, same.size, fun _ => rfl⟩
        · exact ⟨rfl, refl _⟩

/-- Similar memories answer every call alike and stay similar. -/
theorem effect (same : Similar first second) (call : Call) :
    (first.effect call).1 = (second.effect call).1 ∧
      Similar (first.effect call).2 (second.effect call).2 := by
  have moved : ∀ fPos, Similar { second with entry := first.entry, fPos } { second with fPos } :=
    fun _ => ⟨rfl, rfl, rfl, same.size, same.buffptr⟩
  cases operation : call.operation with
  | read bufIsNull count =>
    simp only [Memory.effect, operation, Memory.read, same.buffer, same.fPos, same.heap]
    split
    · exact ⟨rfl, same⟩
    · split
      · exact ⟨rfl, same⟩
      · split
        · exact ⟨rfl, same⟩
        · exact ⟨rfl, moved _⟩
  | write buf =>
    obtain ⟨reply, after⟩ := same.write call.services call.filp buf
    simp only [Memory.effect, operation]
    exact ⟨by rw [reply], after⟩
  | llseek fPos origin =>
    simp only [Memory.effect, operation, Memory.llseek, same.buffer, same.fPos, same.heap]
    split
    · exact ⟨rfl, same⟩
    · split
      · exact ⟨rfl, same⟩
      · split
        · exact ⟨rfl, same⟩
        · exact ⟨rfl, moved _⟩
  | ioctl cmd arg =>
    simp only [Memory.effect, operation, Memory.ioctl, same.buffer, same.fPos, same.heap]
    split
    · exact ⟨rfl, same⟩
    · split
      · exact ⟨rfl, same⟩
      · split
        · exact ⟨rfl, same⟩
        · split
          · exact ⟨rfl, same⟩
          · exact ⟨rfl, moved _⟩

end Similar

theorem length_accepted_lt (services : Services) {data : List Byte} (fits : data.length < 2 ^ 63) :
    (accepted services data).length < 2 ^ 63 := by
  rw [length_accepted]
  omega

theorem not_neg_of_toNat_lt {value : UInt64} (small : value.toNat < 2 ^ 63) :
    ¬ value.toInt64 < 0 := by
  have same : value.toInt64.toInt = value.toNat := by
    have exact := Int64.toInt_ofNat_of_lt small
    rwa [← UInt64.toInt64_ofNat', UInt64.ofNat_toNat] at exact
  rw [Int64.lt_iff_toInt_lt, same]
  exact Int.not_lt.mpr (Int.natCast_nonneg _)

theorem Memory.llseek_negative (memory : Memory) {services : Services} {filp : Nat} {fPos : Int64}
    {origin : Whence} (negative : (memory.llseek services filp fPos origin).1 < 0) :
    (memory.llseek services filp fPos origin).2 = memory := by
  revert negative
  unfold Memory.llseek
  split
  · exact fun _ => rfl
  · split
    · exact fun _ => rfl
    · split
      · exact fun _ => rfl
      · rename_i accepted
        exact fun negative => absurd negative accepted

theorem Memory.ioctl_negative (memory : Memory) {services : Services} {filp : Nat} {cmd : UInt32}
    {arg : AesdSeekto} (negative : (memory.ioctl services filp cmd arg).1 < 0) :
    (memory.ioctl services filp cmd arg).2 = memory := by
  revert negative
  unfold Memory.ioctl
  split
  · exact fun _ => rfl
  · split
    · exact fun _ => rfl
    · split
      · exact fun _ => rfl
      · split
        · exact fun _ => rfl
        · exact fun (negative : (0 : Int64) < 0) => absurd negative (by decide)

namespace Memory.Valid

variable {memory : Memory}

/-- What a read returns lies within one entry, so it is no error code. -/
theorem read_negative (valid : memory.Valid) {services : Services} {filp : Nat}
    {bufIsNull : Bool} {count : UInt64}
    (negative : (memory.read services filp bufIsNull count).1.retval < 0) :
    (memory.read services filp bufIsNull count).2 = memory := by
  revert negative
  simp only [Memory.read]
  split
  · exact fun _ => rfl
  · split
    · exact fun _ => rfl
    · split
      · exact fun _ => rfl
      · rename_i slot found
        intro negative
        refine absurd negative (not_neg_of_toNat_lt ?_)
        obtain ⟨isLive, inside⟩ := find_some found
        have size := valid.slotSize _ isLive
        generalize (aesdCircularBufferFindEntryOffsetForFpos memory.buffer
          (memory.fPos filp).toUInt64 0).2 = offset at inside ⊢
        have rest := UInt64.toNat_sub_of_le _ _ (UInt64.le_of_lt inside)
        generalize (memory.buffer.entry slot).size - offset = room at rest ⊢
        have clipped : (if count > room then room else count).toNat ≤ room.toNat := by
          split
          · exact le_rfl
          · rename_i fits
            exact UInt64.le_iff_toNat_le.mp (UInt64.not_lt.mp fits)
        generalize (if count > room then room else count) = clip at clipped ⊢
        have most := Nat.min_le_right services.uncopied clip.toNat
        have uncopied : UInt64.ofNat (min services.uncopied clip.toNat) ≤ clip := by
          rw [UInt64.le_iff_toNat_le,
            UInt64.toNat_ofNat_of_lt' (Nat.lt_of_le_of_lt most clip.toNat_lt)]
          exact most
        rw [UInt64.toNat_sub_of_le _ _ uncopied]
        omega

/-- A call that reports an error changed nothing, except for a failed growth. -/
theorem effect_negative (valid : memory.Valid) {call : Call}
    (negative : (memory.effect call).1.retval < 0) :
    (memory.effect call).2 = memory ∨
      ∃ data fits, call.operation = .write (.bytes data fits) ∧ data ≠ [] ∧
        call.services.interrupted = false ∧
          allocatable call.services (memory.entry.size + UInt64.ofNat data.length) = false ∧
            (memory.effect call).2 = { memory with entry := ⟨none, memory.entry.size⟩ } := by
  cases operation : call.operation with
  | read bufIsNull count =>
    simp only [Memory.effect, operation] at negative ⊢
    exact .inl (valid.read_negative negative)
  | write buf =>
    rw [effect_of_write memory operation] at negative ⊢
    rcases write_cases call.services call.filp buf memory with
      ⟨_, _, _, same⟩ | ⟨data, fits, bytes, nonempty, locks, fails, same⟩ |
        ⟨data, fits, grown, _, _, _, _, same⟩
    · exact .inl (by rw [same])
    · refine .inr ⟨data, fits, congrArg _ bytes, nonempty, locks, ?_, by rw [same]⟩
      unfold Memory.grow at fails
      split at fails
      · cases fails
      · exact Bool.eq_false_iff.mpr ‹_›
    · rw [same] at negative
      refine absurd negative (not_neg_of_toNat_lt ?_)
      have small := length_accepted_lt call.services fits
      rwa [UInt64.toNat_ofNat_of_lt' (Nat.lt_trans small (by decide))]
  | llseek fPos origin =>
    simp only [Memory.effect, operation] at negative ⊢
    exact .inl (llseek_negative memory negative)
  | ioctl cmd arg =>
    simp only [Memory.effect, operation] at negative ⊢
    exact .inl (ioctl_negative memory negative)

/-- An error leaves a similar memory unless it lost the pending bytes. -/
theorem effect_similar (valid : memory.Valid) {call : Call}
    (negative : (memory.effect call).1.retval < 0) (kept : ¬ LosesPending memory call) :
    Similar memory (memory.effect call).2 := by
  rcases valid.effect_negative negative with
    same | ⟨data, fits, operation, nonempty, locks, fails, same⟩
  · rw [same]
    exact Similar.refl memory
  · rw [same]
    refine ⟨rfl, rfl, rfl, rfl, fun unfinished => ?_⟩
    by_contra pointed
    exact kept ⟨data, fits, operation, nonempty, locks, unfinished, pointed, fails⟩

theorem effect_loses (valid : memory.Valid) {call : Call} (loses : LosesPending memory call) :
    (memory.effect call).1.retval < 0 ∧ (memory.effect call).2.pending ≠ memory.pending := by
  obtain ⟨data, fits, operation, nonempty, locks, unfinished, pointed, fails⟩ := loses
  have refuses : memory.grow call.services (UInt64.ofNat data.length) = none := by
    rw [Memory.grow, fails]
    exact if_neg Bool.false_ne_true
  rw [effect_of_write memory operation]
  rcases write_cases call.services call.filp (.bytes data fits) memory with
    ⟨_, _, refused, _⟩ | ⟨other, _, _, _, _, _, same⟩ | ⟨other, _, grown, bytes, _, _, succeeds, _⟩
  · rcases refused data fits rfl with empty | interrupted
    · exact absurd empty nonempty
    · rw [locks] at interrupted
      cases interrupted
  · rw [same]
    have negative : -ENOMEM < 0 := by decide
    refine ⟨negative, ?_⟩
    obtain ⟨block, found⟩ := Option.ne_none_iff_exists'.mp pointed
    have length := length_contents (valid.entryBlock block found)
    intro lost
    rw [← pending, ← lost] at length
    refine unfinished (UInt64.toNat_inj.mp (length.symm.trans ?_))
    simp [pending, contents]
  · obtain rfl := UserBuffer.bytes.inj bytes
    rw [refuses] at succeeds
    cases succeeds

/-- An error leaves everything as it was exactly when it did not lose pending bytes. -/
theorem effect_unchanged_iff (valid : memory.Valid) (call : Call) :
    ((memory.effect call).1.retval < 0 → Unchanged memory (memory.effect call).2) ↔
      ¬ LosesPending memory call := by
  constructor
  · intro atomic loses
    obtain ⟨negative, different⟩ := valid.effect_loses loses
    exact different (atomic negative).pending
  · exact fun kept negative => (valid.effect_similar negative kept).unchanged

end Memory.Valid

/-- The calls of a trace that did not report an error. -/
def succeeded (step : Call × Reply) : Bool := decide (0 ≤ step.2.retval)

/-- What retrying relies on: the run without its failed calls is a run with the
same replies to the others and the same outcome, and only accepted bytes are in it. -/
structure Retryable (trace : List (Call × Reply)) (state : DriverState) : Prop where
  skipped : ∃ other, driver.Run aesdInitModule (trace.filter succeeded) other ∧
    Unchanged other.memory state.memory
  supplied : state.memory.store = (trace.map acceptedChunk).foldl CommandStore.accept .empty

theorem negative_of_failed {step : Call × Reply} (failed : succeeded step = false) :
    step.2.retval < 0 := by
  simpa [succeeded] using failed

theorem acceptedChunk_of_failed {step : Call × Reply} (failed : succeeded step = false) :
    acceptedChunk step = [] := by
  have negative := negative_of_failed failed
  have nothing : step.2.retval.toInt.toNat = 0 :=
    Int.toNat_of_nonpos (Int.le_of_lt (Int64.lt_iff_toInt_lt.mp negative))
  unfold acceptedChunk
  split
  · rw [nothing, List.take_zero]
  · rfl

theorem accept_succeeded (trace : List (Call × Reply)) (store : CommandStore) :
    ((trace.filter succeeded).map acceptedChunk).foldl CommandStore.accept store =
      (trace.map acceptedChunk).foldl CommandStore.accept store := by
  induction trace generalizing store with
  | nil => rfl
  | cons step rest ih =>
    cases kept : succeeded step with
    | true =>
      rw [List.filter_cons_of_pos kept]
      exact ih _
    | false =>
      rw [List.filter_cons_of_neg (by simp [kept]), ih, List.map_cons, List.foldl_cons,
        acceptedChunk_of_failed kept, CommandStore.accept_nil]

theorem retryable {trace : List (Call × Reply)} {state : DriverState}
    (run : driver.Run aesdInitModule trace state)
    (kept : driver.EachStep aesdInitModule trace
      fun before call _ _ => ¬ LosesPending before.memory call) :
    Retryable trace state := by
  have skips : ∃ other, driver.Run aesdInitModule (trace.filter succeeded) other ∧
      Similar other.memory state.memory := by
    refine run.skip (fun first second => Similar second.memory first.memory) succeeded
      (Similar.refl _) ?_ ?_
    · intro first second call reply after same taken
      obtain ⟨sameReply, sameMemory⟩ := driver_step taken
      obtain ⟨answers, stays⟩ := same.effect call
      obtain ⟨reply', memory'⟩ := run_effect call second
      refine ⟨(call.run second).2, ?_, ?_⟩
      · rw [sameReply, ← answers, ← reply']
        rfl
      · rw [memory', sameMemory]
        exact stays
    · intro past call reply before after inside passed taken failed other same
      obtain ⟨sameReply, sameMemory⟩ := driver_step taken
      have negative := negative_of_failed failed
      rw [sameReply] at negative
      rw [sameMemory]
      exact same.trans ((reachable_valid ⟨past, passed⟩).effect_similar negative
        (kept past call reply before after inside passed taken))
  obtain ⟨other, skipped, same⟩ := skips
  have allocated : ∀ step ∈ trace.filter succeeded, step.2.retval ≠ -ENOMEM := by
    intro step member failed
    have nonnegative := (List.mem_filter.mp member).2
    rw [succeeded, failed] at nonnegative
    cases nonnegative
  refine ⟨⟨other, skipped, same.unchanged⟩, ?_⟩
  rw [← accept_succeeded, ← (run_store skipped allocated).2, Memory.store, Memory.store,
    same.unchanged.commands, same.unchanged.pending]

/-- In every reachable state a call that reports an error leaves everything as it
was, exactly when it does not lose the pending command; and a run in which no
call loses it can be retried as if its failed calls had never been made. -/
theorem failed_call_harmless_iff {trace : List (Call × Reply)} {state : DriverState}
    (run : driver.Run aesdInitModule trace state) :
    (∀ call : Call, ((call.run state).1.retval < 0 →
        Unchanged state.memory (call.run state).2.memory) ↔ ¬ LosesPending state.memory call) ∧
      (driver.EachStep aesdInitModule trace
          (fun before call _ _ => ¬ LosesPending before.memory call) →
        Retryable trace state) := by
  refine ⟨fun call => ?_, retryable run⟩
  obtain ⟨sameReply, sameMemory⟩ := run_effect call state
  rw [sameReply, sameMemory]
  exact (reachable_valid ⟨trace, run⟩).effect_unchanged_iff call

/-- One byte is pending. -/
def onePending : List Call := [⟨0, .smooth, .write (.bytes [120] (by decide))⟩]

def outOfMemory : Call :=
  ⟨0, { Services.smooth with noMemory := true }, .write (.bytes [newline] (by decide))⟩

theorem onePending_interrupted :
    Unchanged (replay aesdInitModule onePending).memory
      ((({ outOfMemory with services := { Services.smooth with interrupted := true } }) : Call).run
        (replay aesdInitModule onePending)).2.memory := by
  refine ((failed_call_harmless_iff (replay_run aesdInitModule onePending)).1 _).mpr ?_ (by decide)
  rintro ⟨_, _, _, _, locks, _⟩
  cases locks

/-- The write that should finish the command fails, and the byte is gone. -/
theorem onePending_lost :
    ¬ ∀ state, driver.Reachable aesdInitModule state → ∀ call : Call,
      (call.run state).1.retval < 0 → Unchanged state.memory (call.run state).2.memory := by
  intro always
  have unchanged := always _ (replay_reachable aesdInitModule onePending) outOfMemory (by decide)
  exact absurd unchanged.pending (by decide)

end Aesd.Driver
