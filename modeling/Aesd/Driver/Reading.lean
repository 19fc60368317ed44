import Aesd.Driver.Validity
import Aesd.Library.Words

namespace Aesd.Driver

open Aesd.Library

namespace Memory

/-- The bytes from the position of `filp` to the end of the command it falls into. -/
def upcoming (memory : Memory) (filp : Nat) : List Byte :=
  segmentFrom memory.commands (memory.fPos filp).toInt.toNat

/-- How many bytes a read of `count` takes from the upcoming ones. -/
def taken (memory : Memory) (services : Services) (filp : Nat) (count : UInt64) : Nat :=
  let requested := min count.toNat (memory.upcoming filp).length
  requested - min services.uncopied requested

theorem taken_le (memory : Memory) (services : Services) (filp : Nat) (count : UInt64) :
    memory.taken services filp count ≤ count.toNat ∧
      memory.taken services filp count ≤ (memory.upcoming filp).length := by
  simp only [taken]
  omega

end Memory

/-- The bytes that a read of `count` asks for end in the range of `loff_t`. The VFS
checks as much of `count` itself before every read, and where the content is shorter
than 2^63 bytes any `count` will do. -/
def PositionFits (memory : Memory) (filp : Nat) (count : UInt64) : Prop :=
  0 ≤ (memory.fPos filp).toInt ∧
    (memory.fPos filp).toInt + min count.toNat (memory.upcoming filp).length < 2 ^ 63

namespace Memory.Valid

variable {memory : Memory}

theorem sizes_eq (valid : memory.Valid) :
    memory.buffer.sizes = memory.commands.map List.length := by
  rw [AesdCircularBuffer.sizes, commands, List.map_map]
  apply List.map_congr_left
  intro entry member
  obtain ⟨block, backed⟩ := valid.slotBlock entry member
  exact (length_contents backed).symm

theorem sizes_at (valid : memory.Valid) {filp : Nat} (nonneg : 0 ≤ (memory.fPos filp).toInt) :
    locate memory.buffer.sizes (memory.fPos filp).toUInt64.toNat =
      locate (memory.commands.map List.length) (memory.fPos filp).toInt.toNat := by
  have position : (memory.fPos filp).toUInt64.toNat = (memory.fPos filp).toInt.toNat :=
    Int64.toNat_toUInt64_of_le (Int64.le_iff_toInt_le.mpr nonneg)
  rw [valid.sizes_eq, position]

theorem upcoming_of_located (valid : memory.Valid) {filp segment inner : Nat}
    (located : locate (memory.commands.map List.length) (memory.fPos filp).toInt.toNat =
      some (segment, inner)) :
    let entry := memory.buffer.entry (slotOf (memory.buffer.outOffs.toNat + segment))
    inner < entry.size.toNat ∧
      (memory.upcoming filp).length = entry.size.toNat - inner ∧
      memory.upcoming filp = ((memory.heap.deref entry.buffptr).drop inner).take
        (entry.size.toNat - inner) := by
  intro entry
  obtain ⟨command, present, inside, rest⟩ := segmentFrom_of_locate located
  rw [commands, List.getElem?_map, Option.map_eq_some_iff] at present
  obtain ⟨live, atSegment, same⟩ := present
  have isEntry : live = entry := by
    have isLive : segment < memory.buffer.totalEntries := by
      simpa using (List.getElem?_eq_some_iff.mp atSegment).1
    have named : live = memory.buffer.fromOldest segment := by
      simpa [AesdCircularBuffer.live, isLive] using atSegment.symm
    exact named
  subst live
  obtain ⟨block, backed⟩ := valid.slotBlock entry (List.mem_of_getElem? atSegment)
  rw [← same, length_contents backed] at inside
  rw [upcoming, rest, ← same, List.length_drop, length_contents backed, contents, List.drop_take]
  exact ⟨inside, rfl, rfl⟩

theorem clip_eq (count room : UInt64) :
    (if count > room then room else count) = UInt64.ofNat (min count.toNat room.toNat) := by
  split
  · rename_i more
    rw [Nat.min_eq_right (Nat.le_of_lt (UInt64.lt_iff_toNat_lt.mp more)), UInt64.ofNat_toNat]
  · rename_i enough
    rw [Nat.min_eq_left (UInt64.le_iff_toNat_le.mp (UInt64.not_lt.mp enough)), UInt64.ofNat_toNat]

theorem sub_uncopied (requested uncopied : Nat) :
    (UInt64.ofNat requested - UInt64.ofNat (min uncopied requested)).toInt64 =
      Int64.ofNat (requested - min uncopied requested) := by
  rw [← UInt64.ofNat_sub (Nat.min_le_right _ _), UInt64.toInt64_ofNat']

/-- A read hands over the next bytes of one command, and moves the position past them. -/
theorem read_eq (valid : memory.Valid) {services : Services} (locks : services.interrupted = false)
    {filp : Nat} {count : UInt64} (fits : PositionFits memory filp count) :
    memory.read services filp false count =
      (⟨Int64.ofNat (memory.taken services filp count),
          (memory.upcoming filp).take (memory.taken services filp count)⟩,
        { memory with
          fPos := Function.update memory.fPos filp
            (memory.fPos filp + Int64.ofNat (memory.taken services filp count)) }) := by
  have found := find_spec memory.buffer (memory.fPos filp).toUInt64 0
  rw [valid.sizes_at fits.1] at found
  simp only [read, Bool.false_eq_true, locks, ↓reduceIte]
  cases located : locate (memory.commands.map List.length) (memory.fPos filp).toInt.toNat with
  | none =>
    have nothing : memory.upcoming filp = [] := by
      rw [upcoming, segmentFrom_eq_nil_iff, List.length_flatten, ← locate_eq_none_iff]
      exact located
    simp only [located] at found
    simp only [found, taken, nothing, List.length_nil, Nat.min_zero, Nat.sub_self, List.take_nil]
    rw [show Int64.ofNat 0 = 0 from rfl, Int64.add_zero, Function.update_eq_self]
  | some place =>
    obtain ⟨segment, inner⟩ := place
    obtain ⟨inside, length, bytes⟩ := valid.upcoming_of_located located
    simp only [located] at found
    simp only [found]
    generalize memory.buffer.entry (slotOf (memory.buffer.outOffs.toNat + segment)) = entry at *
    have byte : (UInt64.ofNat inner).toNat = inner :=
      UInt64.toNat_ofNat_of_lt' (Nat.lt_trans inside entry.size.toNat_lt)
    have left : (entry.size - UInt64.ofNat inner).toNat = (memory.upcoming filp).length := by
      rw [length, UInt64.toNat_sub_of_le _ _ (UInt64.le_iff_toNat_le.mpr (by omega)), byte]
    have requested := clip_eq count (entry.size - UInt64.ofNat inner)
    have small : min count.toNat (memory.upcoming filp).length < 2 ^ 64 :=
      Nat.lt_of_le_of_lt (Nat.min_le_left _ _) count.toNat_lt
    have exact : (UInt64.ofNat (min count.toNat (memory.upcoming filp).length)).toNat =
        min count.toNat (memory.upcoming filp).length := UInt64.toNat_ofNat_of_lt' small
    have shorter : memory.taken services filp count ≤ entry.size.toNat - inner := by
      rw [taken, ← length]
      omega
    have received : (memory.upcoming filp).take (memory.taken services filp count) =
        ((memory.heap.deref entry.buffptr).drop inner).take (memory.taken services filp count) := by
      rw [bytes, List.take_take, Nat.min_eq_left shorter]
    rw [left] at requested
    rw [requested, exact, sub_uncopied, byte, received]
    rfl

/-- Leaving the ring alone leaves the commands alone, and anything else adds one. -/
theorem effect_commands (valid : memory.Valid) (call : Call) :
    ((memory.effect call).2.buffer = memory.buffer ∧
        (memory.effect call).2.commands = memory.commands) ∨
      ((memory.effect call).2.buffer ≠ memory.buffer ∧ ∃ command,
        (memory.effect call).2.commands = (memory.commands ++ [command]).rtake 10) := by
  by_cases isWrite : ∃ buf, call.operation = .write buf
  · obtain ⟨buf, operation⟩ := isWrite
    rw [effect_of_write memory operation]
    rcases write_cases call.services call.filp buf memory with
      ⟨_, _, _, same⟩ | ⟨_, _, _, _, _, _, same⟩ | ⟨data, fits, grown, _, _, _, succeeds, same⟩
    · rw [same]
      exact .inl ⟨rfl, rfl⟩
    · rw [same]
      exact .inl ⟨rfl, rfl⟩
    · have facts := (valid.grow fits succeeds).fill valid
      rw [same, ← facts.buffer, ← valid.commands_filled facts]
      by_cases finished : newline ∈ (grown.fill call.services data).pending
      · refine .inr ⟨?_, _, (valid.filled facts).commands_commit call.filp finished⟩
        rw [Memory.commit, if_pos finished]
        exact add_entry_ne _ _
      · rw [Memory.commit, if_neg finished]
        exact .inl ⟨rfl, rfl⟩
  · obtain ⟨fPos, same⟩ := effect_of_not_write memory (not_exists.mp isWrite)
    rw [same]
    exact .inl ⟨rfl, rfl⟩

end Memory.Valid

theorem Memory.effect_fPos_other (memory : Memory) (call : Call) {filp : Nat}
    (other : filp ≠ call.filp) : (memory.effect call).2.fPos filp = memory.fPos filp := by
  cases operation : call.operation with
  | write buf =>
    rw [effect_of_write memory operation]
    rcases write_cases call.services call.filp buf memory with
      ⟨_, _, _, same⟩ | ⟨_, _, _, _, _, _, same⟩ | ⟨data, _, grown, _, _, _, succeeds, same⟩
    · rw [same]
    · rw [same]
    · have positions : (grown.fill call.services data).fPos = memory.fPos := by
        rw [fill_fPos, grow_fPos succeeds]
      rw [same, Memory.commit]
      split
      · exact (Function.update_of_ne other _ _).trans (congrFun positions filp)
      · exact congrFun positions filp
  | read bufIsNull count =>
    simp only [effect, operation, read]
    split <;> [rfl; split <;> [rfl; split <;> [rfl; exact Function.update_of_ne other _ _]]]
  | llseek fPos origin =>
    simp only [effect, operation, llseek]
    split <;> [rfl; split <;> [rfl; split <;> [rfl; exact Function.update_of_ne other _ _]]]
  | ioctl cmd arg =>
    simp only [effect, operation, ioctl]
    split <;> [rfl; split <;> [rfl; split <;> [rfl;
      split <;> [rfl; exact Function.update_of_ne other _ _]]]]

/-- What a read that gets the lock does with the upcoming bytes. -/
structure Delivers (filp : Nat) (count : UInt64) (before : DriverState) (call : Call)
    (reply : Reply) (after : DriverState) : Prop where
  received : reply.received =
    (before.memory.upcoming filp).take (before.memory.taken call.services filp count)
  length : reply.received.length = before.memory.taken call.services filp count
  retval : reply.retval.toInt = before.memory.taken call.services filp count
  moves : (after.fPos filp).toInt =
    (before.fPos filp).toInt + before.memory.taken call.services filp count
  commands : after.memory.commands = before.memory.commands

theorem read_delivers {before after : DriverState} {call : Call} {reply : Reply} {filp : Nat}
    {count : UInt64} (valid : before.memory.Valid) (own : call.filp = filp)
    (operation : call.operation = .read false count) (locks : call.services.interrupted = false)
    (fits : PositionFits before.memory filp count)
    (taken : driver.step before call = some (reply, after)) :
    Delivers filp count before call reply after := by
  obtain ⟨rfl, same⟩ := driver_step taken
  obtain ⟨within, available⟩ := Memory.taken_le before.memory call.services filp count
  obtain ⟨nonneg, room⟩ := fits
  rw [Memory.effect, operation, own] at same ⊢
  simp only [valid.read_eq locks ⟨nonneg, room⟩] at same ⊢
  refine ⟨rfl, ?_, ?_, ?_, ?_⟩
  · rw [List.length_take, Nat.min_eq_left available]
  · exact Int64.toInt_ofNat_of_lt (by omega)
  · have position := congrArg (fun memory => (memory.fPos filp).toInt) same
    simp only [Function.update_self] at position
    exact position.trans (toInt_add_ofNat_of_fits (by omega) (by omega))
  · rw [same]
    rfl

/-- A read of `count` bytes on `filp` from a position that fits, that gets the lock,
and that copies at least one byte if there is one. -/
structure Reads (filp : Nat) (count : UInt64) (memory : Memory) (call : Call) : Prop where
  file : call.filp = filp
  operation : call.operation = .read false count
  positive : 1 ≤ count.toNat
  fits : (memory.fPos filp).toInt + min count.toNat (memory.upcoming filp).length < 2 ^ 63
  locks : call.services.interrupted = false
  copies : memory.upcoming filp ≠ [] →
    call.services.uncopied < min count.toNat (memory.upcoming filp).length

/-- One step of a sequence of reads on `filp`; other files may do anything but
finish a command. -/
def ReadingStep (filp : Nat) (before : DriverState) (call : Call) (_ : Reply)
    (after : DriverState) : Prop :=
  (∃ count, Reads filp count before.memory call) ∨
    (call.filp ≠ filp ∧ after.dev.buffer = before.dev.buffer)

/-- What the reads on `filp` handed over, in order. -/
def returned (filp : Nat) (trace : List (Call × Reply)) : List (List Byte) :=
  (trace.filter fun step => step.1.filp = filp).map fun step => step.2.received

/-- What one read should do: between one and `count` bytes of one command, from the
position on, or nothing at the end. -/
structure ReadExact (filp : Nat) (before : DriverState) (call : Call) (reply : Reply)
    (after : DriverState) : Prop where
  length : reply.retval.toInt = reply.received.length
  moves : (after.fPos filp).toInt = (before.fPos filp).toInt + reply.retval.toInt
  ends : reply.retval = 0 ↔
    before.memory.commands.flatten.length ≤ (before.fPos filp).toInt.toNat
  bounded : reply.retval ≠ 0 → 1 ≤ reply.retval.toInt ∧
    ∃ count, call.operation = .read false count ∧ reply.retval.toInt ≤ count.toNat
  within : reply.retval ≠ 0 → ∃ index command inner,
    before.memory.commands[index]? = some command ∧
      (before.memory.commands.take index).flatten.length + inner =
        (before.fPos filp).toInt.toNat ∧
      inner + reply.received.length ≤ command.length ∧
      reply.received = (command.drop inner).take reply.received.length

section

variable {memory : Memory} {filp : Nat} {count : UInt64} {call : Call}

theorem Reads.taken_eq_zero_iff (reads : Reads filp count memory call) :
    memory.taken call.services filp count = 0 ↔ memory.upcoming filp = [] := by
  have positive := reads.positive
  constructor
  · intro nothing
    by_contra some
    have copies := reads.copies some
    simp only [Memory.taken] at nothing
    omega
  · intro ended
    simp [Memory.taken, ended]

end

theorem Memory.upcoming_within (memory : Memory) (filp : Nat) (some : memory.upcoming filp ≠ []) :
    ∃ index command inner, memory.commands[index]? = .some command ∧
      (memory.commands.take index).flatten.length + inner = (memory.fPos filp).toInt.toNat ∧
      inner < command.length ∧ memory.upcoming filp = command.drop inner := by
  cases located : locate (memory.commands.map List.length) (memory.fPos filp).toInt.toNat with
  | none =>
    rw [locate_eq_none_iff, ← List.length_flatten] at located
    exact absurd ((segmentFrom_eq_nil_iff _ _).mpr located) some
  | some place =>
    obtain ⟨index, inner⟩ := place
    obtain ⟨command, present, inside, rest⟩ := segmentFrom_of_locate located
    obtain ⟨_, _, _, total⟩ := (locate_eq_some_iff _ _ _ _).mp located
    rw [← List.map_take, ← List.length_flatten] at total
    exact ⟨index, command, inner, present, total, inside, rest⟩

section

variable {before after : DriverState} {call : Call} {reply : Reply} {filp : Nat} {count : UInt64}

theorem Reads.delivers (reads : Reads filp count before.memory call) (valid : before.memory.Valid)
    (nonneg : 0 ≤ (before.fPos filp).toInt) (taken : driver.step before call = some (reply, after)) :
    Delivers filp count before call reply after :=
  read_delivers valid reads.file reads.operation reads.locks ⟨nonneg, reads.fits⟩ taken

theorem Reads.exact (reads : Reads filp count before.memory call)
    (delivers : Delivers filp count before call reply after) :
    ReadExact filp before call reply after := by
  obtain ⟨within, available⟩ := Memory.taken_le before.memory call.services filp count
  have length := delivers.length
  have retval := delivers.retval
  have zero : reply.retval = 0 ↔ before.memory.upcoming filp = [] := by
    rw [← reads.taken_eq_zero_iff, ← Int64.toInt_inj, retval, Int64.toInt_zero]
    exact Int.natCast_eq_zero
  refine ⟨?_, ?_, ?_, ?_, ?_⟩
  · rw [retval, length]
  · rw [retval]
    exact delivers.moves
  · rw [zero, Memory.upcoming, segmentFrom_eq_nil_iff]
    rfl
  · intro moves
    have some := mt reads.taken_eq_zero_iff.mp (mt zero.mpr moves)
    rw [retval]
    exact ⟨by omega, count, reads.operation, by omega⟩
  · intro moves
    obtain ⟨index, command, inner, present, total, inside, rest⟩ :=
      before.memory.upcoming_within filp (mt zero.mpr moves)
    rw [rest, List.length_drop] at available
    refine ⟨index, command, inner, present, total, ?_, ?_⟩
    · rw [length]
      omega
    · rw [length, delivers.received, rest]

end

theorem returned_append_self (trace : List (Call × Reply)) {call : Call} {filp : Nat}
    (own : call.filp = filp) (reply : Reply) :
    returned filp (trace ++ [(call, reply)]) = returned filp trace ++ [reply.received] := by
  simp [returned, own]

theorem returned_append_other (trace : List (Call × Reply)) {call : Call} {filp : Nat}
    (other : call.filp ≠ filp) (reply : Reply) :
    returned filp (trace ++ [(call, reply)]) = returned filp trace := by
  simp [returned, other]

/-- The reads on `filp` that returned something. -/
def moving (filp : Nat) (trace : List (Call × Reply)) : List (Call × Reply) :=
  trace.filter fun step => step.1.filp = filp ∧ step.2.retval ≠ 0

/-- What the reads on `filp` have done so far, seen from the start. -/
structure ReadSoFar (filp : Nat) (start : Memory) (past : List (Call × Reply)) (memory : Memory) :
    Prop where
  valid : memory.Valid
  commands : memory.commands = start.commands
  position : (memory.fPos filp).toInt =
    (start.fPos filp).toInt + (returned filp past).flatten.length
  bytes : (returned filp past).flatten <+:
    start.commands.flatten.drop (start.fPos filp).toInt.toNat
  progress : (moving filp past).length ≤ (returned filp past).flatten.length

theorem ReadSoFar.nonneg {filp : Nat} {start memory : Memory} {past : List (Call × Reply)}
    (soFar : ReadSoFar filp start past memory) (nonneg : 0 ≤ (start.fPos filp).toInt) :
    0 ≤ (memory.fPos filp).toInt := by
  rw [soFar.position]
  omega

/-- The upcoming bytes continue what was returned so far. -/
theorem ReadSoFar.continues {filp : Nat} {start memory : Memory} {past : List (Call × Reply)}
    (soFar : ReadSoFar filp start past memory) (nonneg : 0 ≤ (start.fPos filp).toInt) (length : Nat) :
    (returned filp past).flatten ++ (memory.upcoming filp).take length <+:
      start.commands.flatten.drop (start.fPos filp).toInt.toNat := by
  obtain ⟨rest, whole⟩ := soFar.bytes
  have place : (memory.fPos filp).toInt.toNat =
      (start.fPos filp).toInt.toNat + (returned filp past).flatten.length := by
    rw [soFar.position]
    omega
  have next := segmentFrom_prefix memory.commands (memory.fPos filp).toInt.toNat
  rw [soFar.commands, place, ← List.drop_drop, ← whole, List.drop_left] at next
  rw [← whole, Memory.upcoming, soFar.commands, place]
  exact List.prefix_append_right_inj _ |>.mpr ((List.take_prefix _ _).trans next)

theorem ReadSoFar.step {filp : Nat} {start : Memory} {past : List (Call × Reply)}
    {before after : DriverState} {call : Call} {reply : Reply}
    (soFar : ReadSoFar filp start past before.memory) (nonneg : 0 ≤ (start.fPos filp).toInt)
    (reading : ReadingStep filp before call reply after)
    (taken : driver.step before call = some (reply, after)) :
    ReadSoFar filp start (past ++ [(call, reply)]) after.memory := by
  have sameMemory := (driver_step taken).2
  rcases reading with ⟨count, reads⟩ | ⟨other, quiet⟩
  · have positive := soFar.nonneg nonneg
    have delivers := reads.delivers soFar.valid positive taken
    have exact := reads.exact delivers
    refine ⟨?_, ?_, ?_, ?_, ?_⟩
    · rw [sameMemory]
      exact soFar.valid.effect call
    · exact delivers.commands.trans soFar.commands
    · rw [returned_append_self _ reads.file, List.flatten_append, List.flatten_singleton,
        List.length_append]
      have moved := delivers.moves
      rw [← delivers.length] at moved
      have earlier := soFar.position
      change (before.fPos filp).toInt = _ at earlier
      change (after.fPos filp).toInt = _
      omega
    · rw [returned_append_self _ reads.file, List.flatten_append, List.flatten_singleton,
        delivers.received]
      exact soFar.continues nonneg _
    · rw [returned_append_self _ reads.file, List.flatten_append, List.flatten_singleton,
        List.length_append, moving, List.filter_append, List.length_append]
      have progress := soFar.progress
      have last : (moving filp [(call, reply)]).length ≤ reply.received.length := by
        by_cases nothing : reply.retval = 0
        · simp [moving, nothing]
        · have bounded := (exact.bounded nothing).1
          have length := exact.length
          simp only [moving, reads.file, nothing, ne_eq, not_false_eq_true, and_self,
            decide_true, List.filter_cons_of_pos, List.filter_nil, List.length_singleton]
          omega
      exact Nat.add_le_add progress last
  · rcases soFar.valid.effect_commands call with ⟨_, kept⟩ | ⟨changed, _⟩
    · have still := before.memory.effect_fPos_other call (Ne.symm other)
      rw [← sameMemory] at kept still
      refine ⟨?_, kept.trans soFar.commands, ?_, ?_, ?_⟩
      · rw [sameMemory]
        exact soFar.valid.effect call
      · rw [returned_append_other _ other, still]
        exact soFar.position
      · rw [returned_append_other _ other]
        exact soFar.bytes
      · rw [returned_append_other _ other, moving, List.filter_append]
        simpa [other, moving] using soFar.progress
    · rw [← sameMemory] at changed
      exact absurd quiet changed

theorem run_readSoFar {start state : DriverState} {trace : List (Call × Reply)} {filp : Nat}
    (reached : driver.Reachable aesdInitModule start) (nonneg : 0 ≤ (start.fPos filp).toInt)
    (run : driver.Run start trace state)
    (reading : driver.EachStep start trace (ReadingStep filp)) :
    ReadSoFar filp start.memory trace state.memory := by
  refine Machine.Run.history_of_eachStep
    (fun past state => ReadSoFar filp start.memory past state.memory) run ?_ reading ?_
  · exact ⟨reachable_valid reached, rfl, by simp [returned], List.nil_prefix, Nat.le_refl 0⟩
  · intro past before call reply after fine soFar taken
    exact soFar.step nonneg fine taken

/-- Reading on from any position returns the commands from there to their end,
piece by piece: each read is exact, no more reads than bytes can return something,
and once a read returns nothing all bytes have been returned. -/
theorem reads_return_content {start state : DriverState} {trace : List (Call × Reply)} {filp : Nat}
    (reached : driver.Reachable aesdInitModule start) (nonneg : 0 ≤ (start.fPos filp).toInt)
    (run : driver.Run start trace state)
    (reading : driver.EachStep start trace (ReadingStep filp)) :
    driver.EachStep start trace (fun before call reply after =>
      before.memory.commands = start.memory.commands ∧
        (call.filp = filp → ReadExact filp before call reply after)) ∧
      (returned filp trace).flatten <+:
        start.memory.commands.flatten.drop (start.fPos filp).toInt.toNat ∧
      (moving filp trace).length ≤
        start.memory.commands.flatten.length - (start.fPos filp).toInt.toNat ∧
      ∀ past call reply, trace = past ++ [(call, reply)] → call.filp = filp → reply.retval = 0 →
        (returned filp trace).flatten =
          start.memory.commands.flatten.drop (start.fPos filp).toInt.toNat := by
  have soFar := run_readSoFar reached nonneg run reading
  have each : driver.EachStep start trace (fun before call reply after =>
      before.memory.commands = start.memory.commands ∧
        (call.filp = filp → ReadExact filp before call reply after)) := by
    intro past call reply before after inside passed taken
    obtain ⟨later, whole⟩ := inside
    rw [← whole] at reading
    have earlier : driver.EachStep start past (ReadingStep filp) := reading.earlier.earlier
    have known := run_readSoFar reached nonneg passed earlier
    refine ⟨known.commands, fun own => ?_⟩
    rcases reading past call reply before after ⟨later, rfl⟩ passed taken with
      ⟨count, reads⟩ | ⟨other, _⟩
    · exact reads.exact (reads.delivers known.valid (known.nonneg nonneg) taken)
    · exact absurd own other
  refine ⟨each, soFar.bytes, ?_, ?_⟩
  · have shorter := soFar.bytes.length_le
    rw [List.length_drop] at shorter
    exact Nat.le_trans soFar.progress shorter
  · rintro past call reply rfl own ended
    obtain ⟨before, passed, taken⟩ := run.last
    have known := run_readSoFar reached nonneg passed reading.earlier
    obtain ⟨same, exact⟩ := each past call reply before state (List.prefix_refl _) passed taken
    have finished := (exact own).ends.mp ended
    have moved := (exact own).moves
    rw [ended, Int64.toInt_zero, Int.add_zero] at moved
    have position := soFar.position
    change (state.fPos filp).toInt = (start.fPos filp).toInt + _ at position
    rw [same] at finished
    refine soFar.bytes.eq_of_length_le ?_
    rw [List.length_drop]
    change start.memory.commands.flatten.length - (start.fPos filp).toInt.toNat ≤ _
    omega

/-- Two commands in the ring. -/
def twoStored : List Call :=
  [⟨1, .smooth, .write (.bytes [120, 121, newline] (by decide))⟩,
   ⟨1, .smooth, .write (.bytes [122, newline] (by decide))⟩]

/-- A short read inside the first command, one up to its end, and one of the second. -/
def threeReads : List Call :=
  [⟨0, { Services.smooth with uncopied := 1 }, .read false 2⟩, ⟨0, .smooth, .read false 9⟩,
   ⟨0, .smooth, .read false 9⟩]

def endRead : Call := ⟨0, .smooth, .read false 9⟩

/-- A test for the reads among the steps of a concrete run. -/
def readsHere (filp : Nat) (before : DriverState) (call : Call) (_ : DriverState) : Bool :=
  match call.operation with
  | .read false count =>
    call.filp = filp ∧ 1 ≤ count.toNat ∧
      (before.fPos filp).toInt + min count.toNat (before.memory.upcoming filp).length < 2 ^ 63 ∧
      call.services.interrupted = false ∧ (before.memory.upcoming filp ≠ [] →
        call.services.uncopied < min count.toNat (before.memory.upcoming filp).length)
  | _ => false

theorem readingStep_of_readsHere {filp : Nat} {before after : DriverState} {call : Call}
    (tested : readsHere filp before call after = true) (reply : Reply) :
    ReadingStep filp before call reply after := by
  unfold readsHere at tested
  split at tested
  · rename_i count operation
    obtain ⟨file, positive, fits, locks, copies⟩ := of_decide_eq_true tested
    exact .inl ⟨count, file, operation, positive, fits, locks, copies⟩
  · exact absurd tested Bool.false_ne_true

/-- The three reads return the two commands, and the fourth one finds the end. -/
theorem threeReads_return :
    (returned 0 (replayTrace (replay aesdInitModule twoStored) (threeReads ++ [endRead]))).flatten =
      [120, 121, newline, 122, newline] := by
  have computed := exec_replay (replay aesdInitModule twoStored) (threeReads ++ [endRead])
  have tested := Machine.eachStep_of_every (readsHere 0) computed (by decide +kernel)
  have whole := (reads_return_content (replay_reachable aesdInitModule twoStored) (by decide)
    (replay_run _ (threeReads ++ [endRead]))
    (fun past call reply before after inside passed taken =>
      readingStep_of_readsHere (tested past call reply before after inside passed taken) reply)).2.2.2
  exact (whole _ _ _ (replayTrace_append_singleton _ threeReads endRead) rfl
    (by decide +kernel)).trans (by decide +kernel)

end Aesd.Driver
