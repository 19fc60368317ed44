import Aesd.Driver.Validity
import Aesd.Library.Grouping

namespace Aesd.Driver

open Aesd.Library

/-- What the device is for: the ten most recent commands and an unfinished one. -/
structure CommandStore where
  commands : List (List Byte)
  pending : List Byte
deriving DecidableEq, Repr

namespace CommandStore

def empty : CommandStore := ⟨[], []⟩

/-- Take a chunk; a newline in it finishes the command. -/
def accept (store : CommandStore) (chunk : List Byte) : CommandStore :=
  if newline ∈ chunk then ⟨(store.commands ++ [store.pending ++ chunk]).rtake 10, []⟩
  else ⟨store.commands, store.pending ++ chunk⟩

def hasNewline (chunk : List Byte) : Bool := chunk.contains newline

/-- Accepting chunks is cutting them into groups and keeping the last ten. -/
theorem accept_all (chunks : List (List Byte)) :
    chunks.foldl accept empty =
      ⟨((cut hasNewline chunks).1.map List.flatten).rtake 10,
        (cut hasNewline chunks).2.flatten⟩ := by
  induction chunks using List.reverseRecOn with
  | nil => rfl
  | append_singleton rest chunk ih =>
    rw [List.foldl_append, ih, cut_append_singleton]
    by_cases finished : newline ∈ chunk
    · have closes : hasNewline chunk = true := by simpa [hasNewline] using finished
      simp only [List.foldl_cons, List.foldl_nil, accept, finished, ↓reduceIte, cutStep, closes,
        rtake_rtake_append_singleton, List.map_append, List.map_cons, List.map_nil,
        List.flatten_append, List.flatten_singleton, List.flatten_nil]
    · have continues : hasNewline chunk = false := by simpa [hasNewline] using finished
      simp [accept, finished, cutStep, continues]

theorem accept_nil (store : CommandStore) : store.accept [] = store := by
  simp [accept]

end CommandStore

/-- The prefix of a write's data that its returned value accounts for. -/
def acceptedChunk (step : Call × Reply) : List Byte :=
  match step.1.operation with
  | .write (.bytes data _) => data.take step.2.retval.toInt.toNat
  | _ => []

def Memory.store (memory : Memory) : CommandStore := ⟨memory.commands, memory.pending⟩

/-- A device whose pending bytes are all there and hold no newline. -/
structure Memory.Clean (memory : Memory) : Prop where
  valid : memory.Valid
  intact : memory.Intact
  unfinished : newline ∉ memory.pending

/-- A device without commands is valid on top of any heap. -/
theorem Memory.Clean.empty (heap : Heap Byte) (fPos : Nat → Int64) :
    (⟨aesdCircularBufferInit, .zero, heap, fPos⟩ : Memory).Clean where
  valid := {
    ring := ⟨[], ringInvariant_init⟩
    entrySize := (by decide : AesdBufferEntry.zero.size.toNat < 2 ^ 63)
    entryBlock := by
      intro block pointed
      cases pointed
    slotBlock := by
      intro entry member
      cases member
    slotNewline := by
      intro entry member
      cases member
    slotSize := by
      intro entry member
      cases member
    distinct := List.nodup_nil }
  intact := .inl rfl
  unfinished := List.not_mem_nil

theorem Memory.clean_init : aesdInitModule.memory.Clean := .empty .empty fun _ => 0

theorem toInt_accepted {services : Services} {data : List Byte} (fits : data.length < 2 ^ 63) :
    (UInt64.ofNat (accepted services data).length).toInt64.toInt =
      (accepted services data).length := by
  have shorter : (accepted services data).length ≤ data.length := by
    rw [length_accepted]
    omega
  rw [UInt64.toInt64_ofNat', Int64.toInt_ofNat_of_lt (by omega)]

theorem take_accepted (services : Services) (data : List Byte) :
    data.take (accepted services data).length = accepted services data := by
  rw [length_accepted, accepted]

namespace Memory.Clean

variable {memory : Memory}

theorem newline_filled (clean : memory.Clean) {services : Services} {data : List Byte}
    {filled : Memory} (facts : Filled services data memory filled) :
    newline ∈ filled.pending ↔ newline ∈ accepted services data := by
  rw [facts.pending clean.intact, List.mem_append]
  exact or_iff_right clean.unfinished

theorem commit_store (clean : memory.Clean) {services : Services} {data : List Byte}
    {filled : Memory} (facts : Filled services data memory filled) (filp : Nat) :
    (filled.commit filp).Clean ∧
      (filled.commit filp).store = memory.store.accept (accepted services data) := by
  have pending := facts.pending clean.intact
  have valid := clean.valid.filled facts
  have commands := clean.valid.commands_filled facts
  have decides := clean.newline_filled facts
  have committed := valid.commit filp
  by_cases finished : newline ∈ accepted services data
  · have stored := valid.commands_commit filp (decides.mpr finished)
    have shape : (filled.commit filp).entry = ⟨none, 0⟩ := by
      rw [Memory.commit, if_pos (decides.mpr finished)]
    have nothing : (filled.commit filp).pending = [] := by
      simp [Memory.pending, contents, shape]
    refine ⟨⟨committed, .inl (by rw [shape]), by simp [nothing]⟩, ?_⟩
    simp only [store, CommandStore.accept, finished, ↓reduceIte, CommandStore.mk.injEq]
    exact ⟨by rw [stored, commands, pending], nothing⟩
  · have shape : filled.commit filp = filled := if_neg (mt decides.mp finished)
    rw [shape]
    refine ⟨⟨valid, .inr ?_, mt decides.mp finished⟩, ?_⟩
    · rw [facts.backed.1]
      exact Option.some_ne_none _
    · simp only [store, CommandStore.accept, finished, ↓reduceIte, commands, pending]

theorem effect_store (clean : memory.Clean) (call : Call)
    (allocated : (memory.effect call).1.retval ≠ -ENOMEM) :
    (memory.effect call).2.Clean ∧
      (memory.effect call).2.store =
        memory.store.accept (acceptedChunk (call, (memory.effect call).1)) := by
  by_cases isWrite : ∃ buf, call.operation = .write buf
  · obtain ⟨buf, operation⟩ := isWrite
    rw [effect_of_write memory operation] at allocated ⊢
    rcases write_cases call.services call.filp buf memory with
      ⟨retval, refused, _, same⟩ | ⟨_, _, _, _, _, _, same⟩ |
        ⟨data, fits, grown, bytes, _, _, succeeds, same⟩
    · have nothing : retval.toInt.toNat = 0 := by
        rcases refused with ⟨zero, _⟩ | fault | restart
        · rw [zero]; decide
        · rw [fault]; decide
        · rw [restart]; decide
      have chunk : acceptedChunk (call, ⟨retval, []⟩) = [] := by
        cases buf with
        | null count => simp [acceptedChunk, operation]
        | bytes data fits => simp [acceptedChunk, operation, nothing]
      rw [same]
      exact ⟨clean, by rw [chunk, CommandStore.accept_nil]⟩
    · rw [same] at allocated
      exact absurd rfl allocated
    · have chunk : acceptedChunk
          (call, ⟨(UInt64.ofNat (accepted call.services data).length).toInt64, []⟩) =
            accepted call.services data := by
        simp only [acceptedChunk, operation, bytes, toInt_accepted fits, Int.toNat_natCast,
          take_accepted]
      rw [same, chunk]
      exact clean.commit_store ((clean.valid.grow fits succeeds).fill clean.valid) call.filp
  · obtain ⟨fPos, same⟩ := effect_of_not_write memory (not_exists.mp isWrite)
    have chunk : acceptedChunk (call, (memory.effect call).1) = [] := by
      unfold acceptedChunk
      split
      · rename_i data fits operation
        exact absurd ⟨_, operation⟩ isWrite
      · rfl
    rw [chunk, CommandStore.accept_nil, same]
    exact ⟨⟨same ▸ clean.valid.effect call, clean.intact, clean.unfinished⟩, rfl⟩

end Memory.Clean

/-- As long as no allocation fails, the device holds what accepting the chunks makes. -/
theorem run_store {trace : List (Call × Reply)} {state : DriverState}
    (run : driver.Run aesdInitModule trace state)
    (allocated : ∀ step ∈ trace, step.2.retval ≠ -ENOMEM) :
    state.memory.Clean ∧
      state.memory.store = (trace.map acceptedChunk).foldl CommandStore.accept .empty := by
  refine driver_history (fun past memory => (∀ step ∈ past, step.2.retval ≠ -ENOMEM) →
    memory.Clean ∧ memory.store = (past.map acceptedChunk).foldl CommandStore.accept .empty)
    run (fun _ => ⟨Memory.clean_init, rfl⟩) ?_ allocated
  intro past memory call known allocated
  obtain ⟨clean, same⟩ := known fun step member => allocated step (List.mem_append_left _ member)
  obtain ⟨cleanAfter, sameAfter⟩ := clean.effect_store call
    (allocated (call, (memory.effect call).1) (List.mem_append_right _ (List.mem_singleton_self _)))
  refine ⟨cleanAfter, ?_⟩
  rw [sameAfter, same, List.map_append, List.foldl_append]
  rfl

/-- Over any run without a failed allocation, the commands read from `out_offs` are
the last ten complete groups of accepted chunks, the pending entry is the
unfinished group, and nothing accepted is missing, repeated or out of order. -/
theorem commands_are_last_groups {trace : List (Call × Reply)} {state : DriverState}
    (run : driver.Run aesdInitModule trace state)
    (allocated : ∀ step ∈ trace, step.2.retval ≠ -ENOMEM) :
    state.memory.commands =
        ((cut CommandStore.hasNewline (trace.map acceptedChunk)).1.map List.flatten).rtake 10 ∧
      state.memory.pending =
        (cut CommandStore.hasNewline (trace.map acceptedChunk)).2.flatten ∧
      (∀ command ∈ state.memory.commands, newline ∈ command) ∧
      newline ∉ state.memory.pending ∧
      ((cut CommandStore.hasNewline (trace.map acceptedChunk)).1.map List.flatten).flatten ++
          (cut CommandStore.hasNewline (trace.map acceptedChunk)).2.flatten =
        (trace.map acceptedChunk).flatten := by
  obtain ⟨clean, same⟩ := run_store run allocated
  rw [CommandStore.accept_all] at same
  refine ⟨congrArg CommandStore.commands same, congrArg CommandStore.pending same, ?_,
    clean.unfinished, ?_⟩
  · intro command member
    obtain ⟨entry, isLive, contents⟩ := List.mem_map.mp member
    rw [← contents]
    exact clean.valid.slotNewline entry isLive
  · have whole := congrArg List.flatten
      (@cut_flatten _ CommandStore.hasNewline (trace.map acceptedChunk))
    rwa [List.flatten_append, List.flatten_flatten] at whole

/-- A command sent in two writes, the first of them copied short. -/
def splitCommand : List Call :=
  [⟨0, { Services.smooth with uncopied := 1 }, .write (.bytes [119, newline] (by decide))⟩,
   ⟨1, .smooth, .write (.bytes [121, newline, 122] (by decide))⟩,
   ⟨0, .smooth, .write (.bytes [97] (by decide))⟩]

theorem splitCommand_groups :
    (replay aesdInitModule splitCommand).memory.commands = [[119, 121, newline, 122]] ∧
      (replay aesdInitModule splitCommand).memory.pending = [97] := by
  obtain ⟨commands, pending, _⟩ :=
    commands_are_last_groups (replay_run aesdInitModule splitCommand) (by decide)
  exact ⟨commands.trans (by decide), pending.trans (by decide)⟩

end Aesd.Driver
