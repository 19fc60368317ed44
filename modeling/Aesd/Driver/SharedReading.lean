import Aesd.Driver.Reading
import Aesd.Driver.CommandStore
import Mathlib.Data.List.Infix

namespace Aesd.Driver

open Aesd.Library

/-- Every command completed so far, oldest first. -/
def stream (trace : List (Call × Reply)) : List (List Byte) :=
  (cut CommandStore.hasNewline (trace.map acceptedChunk)).1.map List.flatten

/-- How many bytes of the stream the ring has already given up. -/
def evicted (trace : List (Call × Reply)) : Nat := ((stream trace).rdrop 10).flatten.length

/-- A successful read on `filp` from a position that fits, or a successful call on
another file. -/
def SharedStep (filp : Nat) (before : DriverState) (call : Call) (reply : Reply)
    (_ : DriverState) : Prop :=
  (call.filp = filp ∧ call.services.interrupted = false ∧ ∃ count,
      call.operation = .read false count ∧
        (before.fPos filp).toInt + min count.toNat (before.memory.upcoming filp).length < 2 ^ 63) ∨
    (call.filp ≠ filp ∧ 0 ≤ reply.retval.toInt)

theorem stream_append_singleton (trace : List (Call × Reply)) (step : Call × Reply) :
    stream trace <+: stream (trace ++ [step]) := by
  rw [stream, stream, List.map_append, List.map_singleton, cut_append_singleton, cutStep]
  split
  · rw [List.map_append]
    exact List.prefix_append _ _
  · exact List.prefix_refl _

theorem stream_grows (first second : List (Call × Reply)) :
    stream first <+: stream (first ++ second) := by
  induction second using List.reverseRecOn with
  | nil => simp
  | append_singleton rest last ih =>
    rw [← List.append_assoc]
    exact ih.trans (stream_append_singleton _ _)

theorem evicted_mono (first second : List (Call × Reply)) :
    evicted first ≤ evicted (first ++ second) := by
  have older := rdrop_mono 10 (stream_grows first second)
  obtain ⟨rest, whole⟩ := older
  rw [evicted, evicted, ← whole, List.flatten_append, List.length_append]
  exact Nat.le_add_right _ _

/-- What the ring holds is the stream without the evicted bytes. -/
theorem commands_flatten {trace : List (Call × Reply)} {state : DriverState}
    (run : driver.Run aesdInitModule trace state)
    (allocated : ∀ step ∈ trace, step.2.retval ≠ -ENOMEM) :
    state.memory.commands.flatten = (stream trace).flatten.drop (evicted trace) := by
  have recent : state.memory.commands = (stream trace).rtake 10 := by
    have known := (run_store run allocated).2
    rw [CommandStore.accept_all] at known
    exact congrArg CommandStore.commands known
  have whole : ((stream trace).rdrop 10).flatten ++ ((stream trace).rtake 10).flatten =
      (stream trace).flatten := by
    rw [← List.flatten_append]
    exact congrArg List.flatten (List.take_append_drop _ _)
  rw [recent, evicted, ← whole, List.drop_left]

/-- Where in the stream the next read on `filp` begins. -/
def streamOffset (filp : Nat) (trace : List (Call × Reply)) : Nat :=
  evicted trace + (returned filp trace).flatten.length

/-- What is known of the reader after a shared run. -/
structure Sharing (filp : Nat) (past : List (Call × Reply)) (state : DriverState) : Prop where
  run : driver.Run aesdInitModule past state
  allocated : ∀ step ∈ past, step.2.retval ≠ -ENOMEM
  position : (state.fPos filp).toInt = (returned filp past).flatten.length

theorem Sharing.nonneg {filp : Nat} {past : List (Call × Reply)} {state : DriverState}
    (sharing : Sharing filp past state) : 0 ≤ (state.fPos filp).toInt := by
  rw [sharing.position]
  exact Int.natCast_nonneg _

theorem ne_ENOMEM_of_nonneg {retval : Int64} (nonneg : 0 ≤ retval.toInt) : retval ≠ -ENOMEM := by
  rintro rfl
  exact absurd nonneg (by decide)

section

variable {filp : Nat} {past : List (Call × Reply)} {before after : DriverState} {call : Call}
variable {reply : Reply}

/-- A read of the sharing file hands over the stream from its offset on. -/
theorem Sharing.read (sharing : Sharing filp past before)
    (shared : SharedStep filp before call reply after) (own : call.filp = filp)
    (taken : driver.step before call = some (reply, after)) :
    reply.received <+: (stream past).flatten.drop (streamOffset filp past) ∧
      reply.retval.toInt = reply.received.length ∧
      (after.fPos filp).toInt = (before.fPos filp).toInt + reply.received.length := by
  have valid := reachable_valid ⟨past, sharing.run⟩
  rcases shared with ⟨_, locks, count, operation, fits⟩ | ⟨other, _⟩
  · have delivers := read_delivers valid own operation locks ⟨sharing.nonneg, fits⟩ taken
    have place : (before.fPos filp).toInt.toNat = (returned filp past).flatten.length := by
      rw [sharing.position, Int.toNat_natCast]
    have upcoming := segmentFrom_prefix before.memory.commands (before.fPos filp).toInt.toNat
    rw [commands_flatten sharing.run sharing.allocated, place, List.drop_drop] at upcoming
    refine ⟨?_, ?_, ?_⟩
    · rw [delivers.received, Memory.upcoming]
      change (segmentFrom before.memory.commands (before.fPos filp).toInt.toNat).take _ <+: _
      rw [place]
      exact (List.take_prefix _ _).trans upcoming
    · rw [delivers.retval, delivers.length]
    · rw [delivers.moves, delivers.length]
  · exact absurd own other

theorem Sharing.step (sharing : Sharing filp past before)
    (shared : SharedStep filp before call reply after)
    (taken : driver.step before call = some (reply, after)) :
    Sharing filp (past ++ [(call, reply)]) after := by
  have allocated : reply.retval ≠ -ENOMEM → ∀ step ∈ past ++ [(call, reply)],
      step.2.retval ≠ -ENOMEM := by
    intro last step member
    rcases List.mem_append.mp member with earlier | same
    · exact sharing.allocated step earlier
    · rw [List.mem_singleton.mp same]
      exact last
  by_cases own : call.filp = filp
  · obtain ⟨_, retval, moved⟩ := sharing.read shared own taken
    refine ⟨sharing.run.next taken, allocated (ne_ENOMEM_of_nonneg (by omega)), ?_⟩
    rw [moved, sharing.position, returned_append_self _ own, List.flatten_append,
      List.flatten_singleton, List.length_append, Int.natCast_add]
  · rcases shared with ⟨same, _⟩ | ⟨_, succeeded⟩
    · exact absurd same own
    · have still := before.memory.effect_fPos_other call (Ne.symm own)
      rw [← (driver_step taken).2] at still
      refine ⟨sharing.run.next taken, allocated (ne_ENOMEM_of_nonneg succeeded), ?_⟩
      rw [returned_append_other _ own, ← sharing.position]
      exact congrArg Int64.toInt still

end

theorem run_sharing {filp : Nat} {trace : List (Call × Reply)} {state : DriverState}
    (run : driver.Run aesdInitModule trace state)
    (shared : driver.EachStep aesdInitModule trace (SharedStep filp)) :
    Sharing filp trace state := by
  refine Machine.Run.history_of_eachStep (Sharing filp) run ?_ shared ?_
  · exact ⟨.start, by simp, by simp [returned, aesdInitModule]⟩
  · intro past before call reply after fine sharing taken
    exact sharing.step fine taken

/-- While nothing is evicted, what the reads return is contiguous. -/
theorem contiguous_until_evicted {filp : Nat} {past later : List (Call × Reply)} {state : DriverState}
    (run : driver.Run aesdInitModule (past ++ later) state)
    (shared : driver.EachStep aesdInitModule (past ++ later) (SharedStep filp))
    (same : evicted (past ++ later) = evicted past) :
    (returned filp later).flatten <+:
      (stream (past ++ later)).flatten.drop (streamOffset filp past) := by
  induction later using List.reverseRecOn generalizing state with
  | nil => simp [returned]
  | append_singleton rest last ih =>
    obtain ⟨call, reply⟩ := last
    rw [← List.append_assoc] at run shared same ⊢
    obtain ⟨before, earlier, taken⟩ := run.last
    obtain ⟨sharedEarlier, fine⟩ := (Machine.eachStep_append_singleton earlier taken).mp shared
    have stays : evicted (past ++ rest) = evicted past := by
      have lower := evicted_mono past rest
      have upper := evicted_mono (past ++ rest) [(call, reply)]
      omega
    have known := ih earlier sharedEarlier stays
    have grows : (stream (past ++ rest)).flatten <+:
        (stream (past ++ rest ++ [(call, reply)])).flatten := by
      obtain ⟨more, whole⟩ := stream_append_singleton (past ++ rest) (call, reply)
      rw [← whole, List.flatten_append]
      exact List.prefix_append _ _
    by_cases own : call.filp = filp
    · obtain ⟨next, _⟩ := (run_sharing earlier sharedEarlier).read fine own taken
      have place : streamOffset filp (past ++ rest) =
          streamOffset filp past + (returned filp rest).flatten.length := by
        simp only [streamOffset, stays, returned, List.filter_append, List.map_append,
          List.flatten_append, List.length_append]
        omega
      obtain ⟨others, whole⟩ := known
      rw [place, ← List.drop_drop, ← whole, List.drop_left] at next
      rw [returned_append_self _ own, List.flatten_append, List.flatten_singleton]
      refine List.IsPrefix.trans ?_ (grows.drop _)
      rw [← whole]
      exact (List.prefix_append_right_inj _).mpr next
    · rw [returned_append_other _ own]
      exact known.trans (grows.drop _)

/-- A reader among writers. Each of its reads takes the bytes of the stream that
start at the number of bytes evicted so far plus the number it has read so far. So
a later read starts behind what an earlier one returned, by what was read in
between and what was evicted in between, and as long as nothing is evicted the
reads return one contiguous piece. -/
theorem shared_reads_advance {filp : Nat} {trace : List (Call × Reply)} {state : DriverState}
    (run : driver.Run aesdInitModule trace state)
    (shared : driver.EachStep aesdInitModule trace (SharedStep filp)) :
    (∀ past call reply, past ++ [(call, reply)] <+: trace → call.filp = filp →
      reply.retval.toInt = reply.received.length ∧
        reply.received <+: (stream past).flatten.drop (streamOffset filp past)) ∧
      (∀ past call reply later, past ++ [(call, reply)] ++ later <+: trace → call.filp = filp →
        evicted past ≤ evicted (past ++ [(call, reply)] ++ later) ∧
          streamOffset filp (past ++ [(call, reply)] ++ later) =
            streamOffset filp past + reply.received.length + (returned filp later).flatten.length +
              (evicted (past ++ [(call, reply)] ++ later) - evicted past)) ∧
      ∀ past later, past ++ later <+: trace → evicted (past ++ later) = evicted past →
        (returned filp later).flatten <+:
          (stream (past ++ later)).flatten.drop (streamOffset filp past) := by
  refine ⟨?_, ?_, ?_⟩
  · rintro past call reply ⟨rest, rfl⟩ own
    obtain ⟨middle, passed, _⟩ := run.split
    obtain ⟨before, earlier, taken⟩ := passed.last
    obtain ⟨sharedEarlier, fine⟩ :=
      (Machine.eachStep_append_singleton earlier taken).mp shared.earlier
    obtain ⟨bytes, retval, _⟩ := (run_sharing earlier sharedEarlier).read fine own taken
    exact ⟨retval, bytes⟩
  · intro past call reply later _ own
    have grows : evicted past ≤ evicted (past ++ [(call, reply)] ++ later) := by
      rw [List.append_assoc]
      exact evicted_mono _ _
    refine ⟨grows, ?_⟩
    have read : (returned filp (past ++ [(call, reply)] ++ later)).flatten.length =
        (returned filp past).flatten.length + reply.received.length +
          (returned filp later).flatten.length := by
      simp [returned, own, Nat.add_assoc]
    rw [streamOffset, streamOffset, read]
    omega
  · rintro past later ⟨rest, rfl⟩ same
    obtain ⟨middle, passed, _⟩ := run.split
    exact contiguous_until_evicted passed shared.earlier same

/-- A test for the steps of a concrete shared run. -/
def sharesHere (filp : Nat) (before : DriverState) (call : Call) (_ : DriverState) : Bool :=
  if call.filp = filp then
    match call.operation with
    | .read false count =>
      call.services.interrupted = false ∧
        (before.fPos filp).toInt + min count.toNat (before.memory.upcoming filp).length < 2 ^ 63
    | _ => false
  else 0 ≤ (call.run before).1.retval.toInt

theorem sharedStep_of_sharesHere {filp : Nat} {before after : DriverState} {call : Call}
    {reply : Reply} (tested : sharesHere filp before call after = true)
    (taken : driver.step before call = some (reply, after)) :
    SharedStep filp before call reply after := by
  unfold sharesHere at tested
  split at tested
  · rename_i own
    split at tested
    · rename_i count operation
      obtain ⟨locks, fits⟩ := of_decide_eq_true tested
      exact .inl ⟨own, locks, count, operation, fits⟩
    · exact absurd tested Bool.false_ne_true
  · rename_i other
    rw [show call.run before = (reply, after) from Option.some.inj taken] at tested
    exact .inr ⟨other, of_decide_eq_true tested⟩

theorem replay_shared {filp : Nat} {calls : List Call}
    (tested : driver.every (sharesHere filp) aesdInitModule calls = true) :
    driver.EachStep aesdInitModule (replayTrace aesdInitModule calls) (SharedStep filp) :=
  fun past call reply before after inside passed taken =>
    sharedStep_of_sharesHere
      (Machine.eachStep_of_every (sharesHere filp) (exec_replay aesdInitModule calls) tested past
        call reply before after inside passed taken) taken

/-- Ten commands of two bytes, a read of the first one, and an eleventh command. -/
def readThenEvict : List Call :=
  (List.range 10).map (fun index =>
    ⟨1, .smooth, .write (.bytes [UInt8.ofNat (97 + index), newline] (by simp))⟩) ++
    [⟨0, .smooth, .read false 2⟩, ⟨1, .smooth, .write (.bytes [107, newline] (by simp))⟩]

/-- The next read starts two bytes behind the first one, at byte 4 of the stream. -/
theorem readThenEvict_advances :
    ((⟨0, .smooth, .read false 2⟩ : Call).run (replay aesdInitModule readThenEvict)).1.received <+:
      (stream (replayTrace aesdInitModule readThenEvict)).flatten.drop 4 := by
  have last := replayTrace_append_singleton aesdInitModule readThenEvict ⟨0, .smooth, .read false 2⟩
  have bytes := ((shared_reads_advance (replay_run aesdInitModule _)
    (@replay_shared 0 (readThenEvict ++ [⟨0, .smooth, .read false 2⟩]) (by decide +kernel))).1 _ _ _
      (by rw [last]) rfl).2
  have offset : streamOffset 0 (replayTrace aesdInitModule readThenEvict) = 4 := by decide +kernel
  rwa [offset] at bytes

/-- A reader that has read the first of eleven commands reads the third one next,
while the second one is still held. -/
theorem eviction_skips_held_bytes :
    ¬ ∀ (filp : Nat) (trace : List (Call × Reply)) (state : DriverState),
      driver.Run aesdInitModule trace state →
      driver.EachStep aesdInitModule trace (SharedStep filp) →
      (∀ step ∈ trace, step.1.filp ≠ filp → ∃ buf, step.1.operation = .write buf) →
        (returned filp trace).flatten <:+: (stream trace).flatten := by
  intro always
  have piece := always 0 _ _
    (replay_run aesdInitModule (readThenEvict ++ [⟨0, .smooth, .read false 2⟩]))
    (replay_shared (by decide +kernel)) ?_
  · exact absurd piece (by decide +kernel)
  · intro step member other
    have called : step.1 ∈ readThenEvict ++ [⟨0, .smooth, .read false 2⟩] := by
      rw [← Machine.exec_inputs (exec_replay aesdInitModule (readThenEvict ++ [_]))]
      exact List.mem_map_of_mem member
    simp only [readThenEvict, List.mem_append, List.mem_map, List.mem_cons, List.not_mem_nil,
      or_false] at called
    rcases called with (⟨index, _, same⟩ | same | same) | same
    · exact ⟨_, congrArg Call.operation same.symm⟩
    · exact absurd (congrArg Call.filp same) other
    · exact ⟨_, congrArg Call.operation same⟩
    · exact absurd (congrArg Call.filp same) other

end Aesd.Driver
