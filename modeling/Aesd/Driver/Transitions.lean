import Aesd.Driver.Effects
import Aesd.Driver.FifoRefinement

namespace Aesd.Driver

open Aesd.Library

theorem driver_step {state after : DriverState} {call : Call} {reply : Reply}
    (taken : driver.step state call = some (reply, after)) :
    reply = (state.memory.effect call).1 ∧ after.memory = (state.memory.effect call).2 := by
  have same : call.run state = (reply, after) := Option.some.inj taken
  have effect := run_effect call state
  rw [same] at effect
  exact effect

/-- The invariant rule for runs of the driver, in terms of memory transitions. -/
theorem driver_history {trace : List (Call × Reply)} {start state : DriverState}
    (holds : List (Call × Reply) → Memory → Prop) (run : driver.Run start trace state)
    (initial : holds [] start.memory)
    (preserved : ∀ past memory call, holds past memory →
      holds (past ++ [(call, (memory.effect call).1)]) (memory.effect call).2) :
    holds trace state.memory := by
  refine Machine.Run.history (fun past state => holds past state.memory) run initial ?_
  intro past state call reply after kept taken
  obtain ⟨sameReply, sameMemory⟩ := driver_step taken
  rw [sameReply, sameMemory]
  exact preserved past state.memory call kept

namespace Memory

/-- Only writes touch anything beyond the position of the file they are called on. -/
theorem effect_of_not_write {call : Call} (memory : Memory)
    (notWrite : ∀ buf, call.operation ≠ .write buf) :
    ∃ fPos, (memory.effect call).2 = { memory with fPos } := by
  cases operation : call.operation with
  | read bufIsNull count =>
    simp only [effect, operation, read]
    split <;> [exact ⟨_, rfl⟩; split <;> [exact ⟨_, rfl⟩; split <;> exact ⟨_, rfl⟩]]
  | llseek fPos origin =>
    simp only [effect, operation, llseek]
    split <;> [exact ⟨_, rfl⟩; split <;> [exact ⟨_, rfl⟩; split <;> exact ⟨_, rfl⟩]]
  | ioctl cmd arg =>
    simp only [effect, operation, ioctl]
    split <;> [exact ⟨_, rfl⟩; split <;> [exact ⟨_, rfl⟩; split <;> [exact ⟨_, rfl⟩;
      split <;> exact ⟨_, rfl⟩]]]
  | write buf => exact False.elim (notWrite buf operation)

theorem effect_of_write {call : Call} {buf : UserBuffer} (memory : Memory)
    (isWrite : call.operation = .write buf) :
    memory.effect call =
      (⟨(memory.write call.services call.filp buf).1, []⟩,
        (memory.write call.services call.filp buf).2) := by
  simp [effect, isWrite]

theorem eq_nil_of_count {data : List Byte} {fits : data.length < 2 ^ 63}
    (nothing : (UserBuffer.bytes data fits).count = 0) : data = [] := by
  have length : data.length % 2 ^ 64 = 0 := by
    rw [← UInt64.toNat_ofNat']
    exact congrArg UInt64.toNat nothing
  rw [Nat.mod_eq_of_lt (by omega)] at length
  exact List.length_eq_zero_iff.mp length

/-- All a write can do: refuse before touching anything, fail to allocate, or
take the accepted bytes. -/
theorem write_cases (services : Services) (filp : Nat) (buf : UserBuffer) (memory : Memory) :
    (∃ retval, ((retval = 0 ∧ buf.count = 0) ∨ retval = -EFAULT ∨ retval = -ERESTARTSYS) ∧
      (∀ data fits, buf = .bytes data fits → data = [] ∨ services.interrupted = true) ∧
      memory.write services filp buf = (retval, memory)) ∨
    (∃ data fits, buf = .bytes data fits ∧ data ≠ [] ∧ services.interrupted = false ∧
      memory.grow services (UInt64.ofNat data.length) = none ∧
      memory.write services filp buf = (-ENOMEM, { memory with entry := ⟨none, memory.entry.size⟩ })) ∨
    (∃ data fits grown, buf = .bytes data fits ∧ data ≠ [] ∧ services.interrupted = false ∧
      memory.grow services (UInt64.ofNat data.length) = some grown ∧
      memory.write services filp buf =
        ((UInt64.ofNat (accepted services data).length).toInt64,
          (grown.fill services data).commit filp)) := by
  by_cases nothing : buf.count = 0
  · refine .inl ⟨0, .inl ⟨rfl, nothing⟩, ?_, by simp [write, nothing]⟩
    rintro data fits rfl
    exact .inl (eq_nil_of_count nothing)
  · cases buf with
    | null count => exact .inl ⟨-EFAULT, .inr (.inl rfl), by simp, by simp [write, nothing]⟩
    | bytes data fits =>
      have nonempty : data ≠ [] := by
        intro empty
        subst empty
        exact nothing rfl
      by_cases interrupted : services.interrupted = true
      · refine .inl ⟨-ERESTARTSYS, .inr (.inr rfl), ?_, by simp [write, nothing, interrupted]⟩
        exact fun _ _ _ => .inr interrupted
      · have passed := Bool.eq_false_iff.mpr interrupted
        rw [UserBuffer.count] at nothing
        cases outcome : memory.grow services (UInt64.ofNat data.length) with
        | none =>
          refine .inr (.inl ⟨data, fits, rfl, nonempty, passed, outcome, ?_⟩)
          simp [write, UserBuffer.count, nothing, passed, outcome]
        | some grown =>
          refine .inr (.inr ⟨data, fits, grown, rfl, nonempty, passed, outcome, ?_⟩)
          simp [write, UserBuffer.count, nothing, passed, outcome]

@[simp] theorem fill_buffer (services : Services) (data : List Byte) (memory : Memory) :
    (memory.fill services data).buffer = memory.buffer := by
  unfold fill
  split <;> rfl

theorem grow_buffer {services : Services} {count : UInt64} {memory grown : Memory}
    (succeeds : memory.grow services count = some grown) : grown.buffer = memory.buffer := by
  unfold grow at succeeds
  split at succeeds <;> cases succeeds
  rfl

@[simp] theorem fill_fPos (services : Services) (data : List Byte) (memory : Memory) :
    (memory.fill services data).fPos = memory.fPos := by
  unfold fill
  split <;> rfl

theorem grow_fPos {services : Services} {count : UInt64} {memory grown : Memory}
    (succeeds : memory.grow services count = some grown) : grown.fPos = memory.fPos := by
  unfold grow at succeeds
  split at succeeds <;> cases succeeds
  rfl

/-- A call leaves the ring alone or adds one entry to it. -/
theorem effect_buffer (call : Call) (memory : Memory) :
    (memory.effect call).2.buffer = memory.buffer ∨
      ∃ entry, (memory.effect call).2.buffer =
        (aesdCircularBufferAddEntry memory.buffer entry).2 := by
  by_cases isWrite : ∃ buf, call.operation = .write buf
  · obtain ⟨buf, operation⟩ := isWrite
    rw [effect_of_write memory operation]
    rcases write_cases call.services call.filp buf memory with
      ⟨_, _, _, same⟩ | ⟨_, _, _, _, _, _, same⟩ | ⟨data, _, grown, _, _, _, succeeds, same⟩
    · exact .inl (by rw [same])
    · exact .inl (by rw [same])
    · rw [same, commit]
      split
      · exact .inr ⟨_, by rw [fill_buffer, grow_buffer succeeds]⟩
      · exact .inl (by rw [fill_buffer, grow_buffer succeeds])
  · obtain ⟨fPos, same⟩ := effect_of_not_write memory (not_exists.mp isWrite)
    exact .inl (by rw [same])

end Memory

theorem reachable_ring {state : DriverState} (reached : driver.Reachable aesdInitModule state) :
    ∃ added, RingInvariant added state.dev.buffer := by
  obtain ⟨trace, run⟩ := reached
  refine driver_history (fun _ memory => ∃ added, RingInvariant added memory.buffer) run
    ⟨[], ringInvariant_init⟩ ?_
  rintro past memory call ⟨added, valid⟩
  rcases memory.effect_buffer call with same | ⟨entry, same⟩
  · exact ⟨added, same ▸ valid⟩
  · exact ⟨added ++ [entry], same ▸ valid.add entry⟩

end Aesd.Driver
