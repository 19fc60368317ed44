import Aesd.Driver.Cleanup

/-! The blocks that lose their last pointer, whatever the services do. -/
namespace Aesd.Driver

open Aesd.Library

namespace Memory

/-- The block of the command that a full ring gives up for the pending one. -/
def evicted (memory : Memory) : List Nat :=
  if newline ∈ memory.pending ∧ memory.buffer.full = true then
    (memory.buffer.live.take 1).filterMap AesdBufferEntry.buffptr
  else []

/-- The blocks that a call leaves without a pointer: the pending entry's, when its
pointer is overwritten with the result of an allocation that failed or started afresh,
and the one of an evicted command. -/
def forgets (memory : Memory) (call : Call) : List Nat :=
  match call.operation with
  | .write (.bytes data _) =>
    if data = [] ∨ call.services.interrupted = true then []
    else match memory.grow call.services (UInt64.ofNat data.length) with
      | none => memory.entry.buffptr.toList
      | some grown =>
        (if memory.entry.size = 0 then memory.entry.buffptr.toList else []) ++
          (grown.fill call.services data).evicted
  | _ => []

/-- Every live block is pointed to or was forgotten, and not both. -/
def Accounted (memory : Memory) (lost : List Nat) : Prop :=
  memory.heap.blocks.Perm (memory.references ++ lost)

variable {memory : Memory} {lost : List Nat}

theorem Accounted.distinct (accounted : memory.Accounted lost) :
    (memory.references ++ lost).Nodup :=
  accounted.nodup_iff.mp memory.heap.nodup_blocks

theorem Accounted.of_perm {after : Memory} {more : List Nat} (accounted : memory.Accounted lost)
    (heap : after.heap = memory.heap)
    (moved : memory.references.Perm (after.references ++ more)) : after.Accounted (lost ++ more) := by
  unfold Accounted
  rw [heap]
  refine accounted.trans ((moved.append_right lost).trans ?_)
  rw [List.append_assoc]
  exact List.perm_append_comm.append_left _

/-- A failed allocation overwrites the pointer of the pending entry. -/
theorem Accounted.dropped (accounted : memory.Accounted lost) :
    ({ memory with entry := ⟨none, memory.entry.size⟩ } : Memory).Accounted
      (lost ++ memory.entry.buffptr.toList) := by
  refine accounted.of_perm rfl (List.Perm.of_eq ?_)
  simp [references]

/-- An entry of size zero gets a new block, whatever it points to. -/
theorem Accounted.filled (valid : memory.Valid) (accounted : memory.Accounted lost)
    {services : Services} {data : List Byte} {filled : Memory}
    (facts : Filled services data memory filled) :
    filled.Accounted (lost ++ if memory.entry.size = 0 then memory.entry.buffptr.toList else []) := by
  have kept : filled.heap.blocks.Perm (memory.heap.next ::
      memory.heap.blocks.filter fun block => decide (memory.carried ≠ some block)) := by
    refine Heap.blocks_perm (List.nodup_cons.mpr ⟨?_, memory.heap.nodup_blocks.filter _⟩) ?_
    · intro member
      have older := Heap.mem_blocks.mp (List.mem_filter.mp member).1
      exact Nat.lt_irrefl _ (Heap.live_lt_next older)
    · intro block
      rw [facts.live, List.mem_cons, List.mem_filter, Heap.mem_blocks, decide_eq_true_iff]
  have slots : (memory.buffer.live.filterMap AesdBufferEntry.buffptr).filter
      (fun block => decide (memory.carried ≠ some block)) =
        memory.buffer.live.filterMap AesdBufferEntry.buffptr := by
    refine List.filter_eq_self.mpr fun block member => decide_eq_true ?_
    obtain ⟨entry, isLive, pointed⟩ := List.mem_filterMap.mp member
    exact valid.slot_ne_carried isLive pointed
  have older : lost.filter (fun block => decide (memory.carried ≠ some block)) = lost := by
    refine List.filter_eq_self.mpr fun block member => decide_eq_true fun carried => ?_
    have pointed := (valid.carried_live carried).1.1
    refine List.disjoint_of_nodup_append accounted.distinct ?_ member
    exact List.mem_append_right _ (Option.mem_toList.mpr pointed)
  have pending : memory.entry.buffptr.toList.filter
      (fun block => decide (memory.carried ≠ some block)) =
        if memory.entry.size = 0 then memory.entry.buffptr.toList else [] := by
    unfold carried
    split
    · simp
    · cases memory.entry.buffptr <;> simp
  have references : filled.references =
      memory.buffer.live.filterMap AesdBufferEntry.buffptr ++ [memory.heap.next] := by
    rw [Memory.references, facts.buffer, facts.backed.1, Option.toList_some]
  have before := accounted.filter fun block => decide (memory.carried ≠ some block)
  rw [Memory.references, List.filter_append, List.filter_append, slots, older, pending] at before
  unfold Accounted
  rw [references]
  refine kept.trans ((before.cons _).trans (List.perm_iff_count.mpr fun block => ?_))
  simp only [List.count_append, List.count_cons, List.count_nil]
  omega

@[simp] theorem commit_heap (memory : Memory) (filp : Nat) :
    (memory.commit filp).heap = memory.heap := by
  unfold Memory.commit
  split
  · rfl
  · rfl

/-- A full ring gives the block of its oldest command up for the new one. -/
theorem Accounted.commit (valid : memory.Valid) (accounted : memory.Accounted lost) (filp : Nat) :
    (memory.commit filp).Accounted (lost ++ memory.evicted) := by
  by_cases finished : newline ∈ memory.pending
  · have shape : (memory.commit filp).heap = memory.heap ∧
        (memory.commit filp).references =
          (aesdCircularBufferAddEntry memory.buffer memory.entry).2.live.filterMap
            AesdBufferEntry.buffptr := by
      simp [Memory.commit, finished, references]
    have whole : memory.references =
        (memory.buffer.live ++ [memory.entry]).filterMap AesdBufferEntry.buffptr := by
      cases pointed : memory.entry.buffptr <;> simp [references, List.filterMap_append, pointed]
    refine accounted.of_perm shape.1 ?_
    rw [shape.2, whole]
    cases room : memory.buffer.full with
    | false =>
      rw [valid.live_eq_concat room]
      simp [evicted, room]
    | true =>
      have ten := memory.buffer.full_iff.mp room
      obtain ⟨oldest, rest, split⟩ := List.exists_cons_of_length_pos
        (Nat.lt_of_lt_of_eq (Nat.succ_pos 9) ten.symm)
      rw [split, List.length_cons] at ten
      have kept : (memory.buffer.live ++ [memory.entry]).rtake 10 = rest ++ [memory.entry] := by
        simp [split, List.rtake, ten]
      have leaves : memory.evicted = [oldest].filterMap AesdBufferEntry.buffptr := by
        simp [evicted, finished, room, split]
      rw [valid.live_commit, kept, leaves, split, ← List.filterMap_append]
      have moved : ([oldest] ++ (rest ++ [memory.entry])).Perm (rest ++ [memory.entry] ++ [oldest]) :=
        List.perm_append_comm
      exact moved.filterMap _
  · have unchanged : memory.commit filp = memory := if_neg finished
    have nothing : memory.evicted = [] := if_neg fun both => finished both.1
    rw [unchanged, nothing, List.append_nil]
    exact accounted

theorem Accounted.effect (valid : memory.Valid) (accounted : memory.Accounted lost) (call : Call) :
    (memory.effect call).2.Accounted (lost ++ memory.forgets call) := by
  by_cases isWrite : ∃ buf, call.operation = .write buf
  · obtain ⟨buf, operation⟩ := isWrite
    rw [effect_of_write memory operation]
    rcases write_cases call.services call.filp buf memory with
      ⟨retval, _, refused, same⟩ | ⟨data, fits, rfl, nonempty, locks, fails, same⟩ |
        ⟨data, fits, grown, rfl, nonempty, locks, succeeds, same⟩
    · have nothing : memory.forgets call = [] := by
        unfold forgets
        split
        · rename_i data fits bytes
          exact if_pos (refused data fits (Operation.write.inj (operation.symm.trans bytes)))
        · rfl
      rw [same, nothing, List.append_nil]
      exact accounted
    · have overwritten : memory.forgets call = memory.entry.buffptr.toList := by
        simp [forgets, operation, nonempty, locks, fails]
      rw [same, overwritten]
      exact accounted.dropped
    · have facts := (valid.grow fits succeeds).fill valid
      have both : memory.forgets call =
          (if memory.entry.size = 0 then memory.entry.buffptr.toList else []) ++
            (grown.fill call.services data).evicted := by
        simp [forgets, operation, nonempty, locks, succeeds]
      rw [same, both, ← List.append_assoc]
      exact (accounted.filled valid facts).commit (valid.filled facts) call.filp
  · obtain ⟨fPos, same⟩ := effect_of_not_write memory (not_exists.mp isWrite)
    have nothing : memory.forgets call = [] := by
      unfold forgets
      split
      · rename_i data fits operation
        exact absurd ⟨_, operation⟩ isWrite
      · rfl
    rw [same, nothing, List.append_nil]
    exact accounted

theorem Valid.effect_tidy (valid : memory.Valid) (tidy : memory.heap.Tidy) (call : Call) :
    (memory.effect call).2.heap.Tidy := by
  by_cases isWrite : ∃ buf, call.operation = .write buf
  · obtain ⟨buf, operation⟩ := isWrite
    rw [effect_of_write memory operation]
    rcases write_cases call.services call.filp buf memory with
      ⟨_, _, _, same⟩ | ⟨_, _, _, _, _, _, same⟩ | ⟨data, fits, grown, rfl, _, _, succeeds, same⟩
    · rw [same]
      exact tidy
    · rw [same]
      exact tidy
    · have facts := (valid.grow fits succeeds).fill valid
      have isNext : (grown.fill call.services data).heap.live memory.heap.next :=
        (facts.live _).mpr (.inl rfl)
      rw [same, commit_heap]
      refine tidy.grows facts.releases (Nat.le_of_lt (Heap.live_lt_next isNext)) ?_
      intro block before present
      rcases (facts.live block).mp present with rfl | ⟨older, _⟩
      · exact absurd before (Nat.lt_irrefl _)
      · exact older
  · obtain ⟨fPos, same⟩ := effect_of_not_write memory (not_exists.mp isWrite)
    rw [same]
    exact tidy

end Memory

end Aesd.Driver
