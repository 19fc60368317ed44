import Aesd.Driver.EndPosition
import Aesd.Driver.SharedReading

namespace Aesd.Driver

open Aesd.Library AesdCircularBuffer

/-- What the callers see to. The VFS lets a read or a write through only where position
and count stay in the range of `loff_t`, and the total of a seek to the end is the
length of the content. -/
def CallAllowed (before : DriverState) (call : Call) : Prop :=
  match call.operation with
  | .read _ count =>
    0 ≤ (before.fPos call.filp).toInt ∧ (before.fPos call.filp).toInt + count.toNat < 2 ^ 63
  | .write buf =>
    0 ≤ (before.fPos call.filp).toInt ∧ (before.fPos call.filp).toInt + buf.count.toNat < 2 ^ 63
  | .llseek _ origin => origin = .seekEnd →
    (walkToEnd before.dev.buffer before.dev.buffer.outSlot call.services.junk).toInt =
      before.dev.buffer.sizes.sum
  | .ioctl _ _ => True

/-- The chunk of a write that finishes the pending command, if the call is such a write. -/
def finishing (memory : Memory) (call : Call) : Option (List Byte) :=
  match call.operation with
  | .write (.bytes data _) =>
    if data = [] ∨ call.services.interrupted = true then none
    else match memory.grow call.services (UInt64.ofNat data.length) with
      | none => none
      | some grown =>
        if newline ∈ (grown.fill call.services data).pending then
          some (accepted call.services data)
        else none
  | _ => none

/-- The seek command that `aesd_ioctl` accepts, if the call is one. -/
def seeking (memory : Memory) (call : Call) : Option AesdSeekto :=
  match call.operation with
  | .ioctl cmd arg =>
    if iocType cmd = AESD_IOC_MAGIC ∧ iocNr cmd ≤ AESDCHAR_IOC_MAXNR ∧
        call.services.uncopied = 0 ∧ call.services.interrupted = false ∧ arg.writeCmd.toNat < 10 ∧
        arg.writeCmdOffset.toNat < memory.buffer.slotSize arg.writeCmd.toNat then
      some arg
    else none
  | _ => none

/-- Where a call that returned `retval` should leave the position of its file, in
numbers without bounds: behind the bytes read, behind the command that a write finished,
at the requested offset from its base, or at the byte of the seek command. -/
def positionAfter (before : DriverState) (call : Call) (retval : Int64) : Int :=
  let position := (before.fPos call.filp).toInt
  match call.operation with
  | .read _ _ => position + max 0 retval.toInt
  | .write _ =>
    match finishing before.memory call with
    | none => position
    | some chunk => position + (before.dev.entry.size.toNat + chunk.length)
  | .llseek fPos origin =>
    if retval.toInt < 0 then position else seekBase before call.filp origin + fPos.toInt
  | .ioctl _ _ =>
    match seeking before.memory call with
    | none => position
    | some arg =>
      (AesdCircularBuffer.before before.dev.buffer.slotSize arg.writeCmd.toNat : Int) +
        arg.writeCmdOffset.toNat

/-- The position of the call's file is where it should be, and in range. -/
structure PositionKept (before : DriverState) (call : Call) (reply : Reply) (after : DriverState) :
    Prop where
  nonneg : 0 ≤ (after.fPos call.filp).toInt
  exact : (after.fPos call.filp).toInt = positionAfter before call reply.retval

/-- There is room for the finished command behind the position, and for the bytes
before the one that a seek command asks for. -/
structure PositionRoom (before : DriverState) (call : Call) : Prop where
  command : ∀ chunk, finishing before.memory call = some chunk →
    (before.fPos call.filp).toInt + (before.dev.entry.size.toNat + chunk.length) < 2 ^ 63
  seek : ∀ arg, seeking before.memory call = some arg →
    AesdCircularBuffer.before before.dev.buffer.slotSize arg.writeCmd.toNat +
      arg.writeCmdOffset.toNat < 2 ^ 63

section

variable {before after : DriverState} {call : Call} {reply : Reply}

theorem positionKept_of_still (nonneg : 0 ≤ (before.fPos call.filp).toInt)
    (still : after.fPos call.filp = before.fPos call.filp)
    (target : positionAfter before call reply.retval = (before.fPos call.filp).toInt) :
    PositionKept before call reply after :=
  ⟨by rw [still]; exact nonneg, by rw [still, target]⟩

theorem read_positionKept (valid : before.memory.Valid) {bufIsNull : Bool} {count : UInt64}
    (operation : call.operation = .read bufIsNull count) (allowed : CallAllowed before call)
    (taken : driver.step before call = some (reply, after)) :
    PositionKept before call reply after := by
  rw [CallAllowed, operation] at allowed
  obtain ⟨nonneg, room⟩ := allowed
  have refused : ∀ {code : Int64}, code.toInt < 0 → before.memory.effect call =
      (⟨code, []⟩, before.memory) → PositionKept before call reply after := by
    intro code negative same
    obtain ⟨sameReply, sameMemory⟩ := driver_step taken
    rw [same] at sameReply sameMemory
    refine positionKept_of_still nonneg (congrArg (fun memory => memory.fPos call.filp) sameMemory) ?_
    simp only [positionAfter, operation, sameReply]
    omega
  cases null : bufIsNull with
  | true =>
    exact @refused (-EFAULT) (by decide) (by simp [Memory.effect, operation, Memory.read, null])
  | false =>
    by_cases interrupted : call.services.interrupted = true
    · exact @refused (-ERESTARTSYS) (by decide)
        (by simp [Memory.effect, operation, Memory.read, null, interrupted])
    · rw [null] at operation
      have within := Memory.taken_le before.memory call.services call.filp count
      have delivers := read_delivers valid rfl operation (Bool.eq_false_iff.mpr interrupted)
        ⟨nonneg, by change (before.fPos call.filp).toInt + _ < _; omega⟩ taken
      have retval := delivers.retval
      have moves := delivers.moves
      refine ⟨by omega, ?_⟩
      simp only [positionAfter, operation]
      omega

/-- A seek by offset forms its target from two numbers of which one is not negative. -/
theorem seekTarget_exact {fPos : Int64} {origin : Whence} {formed : Int64}
    (operation : call.operation = .llseek fPos origin) (allowed : CallAllowed before call)
    (current : 0 ≤ (before.fPos call.filp).toInt)
    (found : seekTarget before.dev.buffer call.services.junk (before.fPos call.filp) fPos origin =
      some formed) (nonneg : 0 ≤ formed.toInt) :
    formed.toInt = seekBase before call.filp origin + fPos.toInt := by
  rw [CallAllowed, operation] at allowed
  cases origin with
  | seekSet =>
    obtain rfl := Option.some.inj found
    rw [seekBase, Int.zero_add]
  | seekCur =>
    obtain rfl := Option.some.inj found
    exact toInt_add_of_nonneg current nonneg
  | seekEnd =>
    obtain rfl := Option.some.inj found
    rw [seekBase, ← allowed rfl]
    refine toInt_add_of_nonneg ?_ nonneg
    rw [allowed rfl]
    exact Int.natCast_nonneg _
  | other => cases found

theorem llseek_positionKept {fPos : Int64} {origin : Whence}
    (operation : call.operation = .llseek fPos origin) (allowed : CallAllowed before call)
    (current : 0 ≤ (before.fPos call.filp).toInt)
    (taken : driver.step before call = some (reply, after)) :
    PositionKept before call reply after := by
  obtain ⟨sameReply, sameMemory⟩ := driver_step taken
  have refused : ∀ {code : Int64}, code.toInt < 0 → before.memory.effect call =
      (⟨code, []⟩, before.memory) → PositionKept before call reply after := by
    intro code negative same
    rw [same] at sameReply sameMemory
    refine positionKept_of_still current (congrArg (fun memory => memory.fPos call.filp) sameMemory) ?_
    simp only [positionAfter, operation, sameReply, negative, ↓reduceIte]
  by_cases interrupted : call.services.interrupted = true
  · exact @refused (-ERESTARTSYS) (by decide)
      (by simp [Memory.effect, operation, Memory.llseek, interrupted])
  · cases found : seekTarget before.dev.buffer call.services.junk (before.fPos call.filp) fPos origin
      with
    | none =>
      have shape : seekTarget before.memory.buffer call.services.junk
        (before.memory.fPos call.filp) fPos origin = none := found
      exact @refused (-EINVAL) (by decide)
        (by simp [Memory.effect, operation, Memory.llseek, interrupted, shape])
    | some formed =>
      have shape : seekTarget before.memory.buffer call.services.junk
        (before.memory.fPos call.filp) fPos origin = some formed := found
      by_cases negative : formed < 0
      · exact @refused (-EINVAL) (by decide)
          (by simp [Memory.effect, operation, Memory.llseek, interrupted, shape, negative])
      · have same : before.memory.effect call = (⟨formed, []⟩, { before.memory with
            fPos := Function.update before.memory.fPos call.filp formed }) := by
          simp [Memory.effect, operation, Memory.llseek, interrupted, shape, negative]
        rw [same] at sameReply sameMemory
        have moved : after.fPos call.filp = formed :=
          (congrArg (fun memory => memory.fPos call.filp) sameMemory).trans (Function.update_self _ _ _)
        rw [Int64.lt_iff_toInt_lt, Int64.toInt_zero] at negative
        refine ⟨by rw [moved]; omega, ?_⟩
        simp only [positionAfter, operation, sameReply, negative, ↓reduceIte, moved]
        exact seekTarget_exact operation allowed current found (by omega)

/-- What the accepted seek commands have in common with their effect. -/
theorem ioctl_effect_cases (memory : Memory) {cmd : UInt32} {arg : AesdSeekto}
    (operation : call.operation = .ioctl cmd arg) :
    (seeking memory call = none ∧ (memory.effect call).2 = memory) ∨
      (seeking memory call = some arg ∧ (memory.effect call).2 = { memory with
        fPos := Function.update memory.fPos call.filp
          (Int64.ofNat (AesdCircularBuffer.before memory.buffer.slotSize arg.writeCmd.toNat +
            arg.writeCmdOffset.toNat)) }) := by
  have target : sizesBelow memory.buffer arg.writeCmd.toNat +
      arg.writeCmdOffset.toUInt64.toInt64 =
        Int64.ofNat (AesdCircularBuffer.before memory.buffer.slotSize arg.writeCmd.toNat +
          arg.writeCmdOffset.toNat) := by
    rw [← Int64.toInt64_toUInt64 (sizesBelow _ _), sizesBelow_toUInt64, UInt64.toInt64_ofNat',
      Int64.ofNat_add, ← UInt64.toInt64_ofNat' (n := arg.writeCmdOffset.toNat)]
    congr 2
    simp
  have outside : ∀ offset : UInt32, (arg.writeCmd.toNat ≥ 10 ∨
      offset.toUInt64 ≥ (memory.buffer.entry (slotOf arg.writeCmd.toNat)).size) ↔
        ¬ (arg.writeCmd.toNat < 10 ∧ offset.toNat < memory.buffer.slotSize arg.writeCmd.toNat) := by
    intro offset
    rw [offset_ge_iff, slotSize]
    omega
  have seeks : seeking memory call =
      if iocType cmd = AESD_IOC_MAGIC ∧ iocNr cmd ≤ AESDCHAR_IOC_MAXNR ∧
        call.services.uncopied = 0 ∧ call.services.interrupted = false ∧ arg.writeCmd.toNat < 10 ∧
        arg.writeCmdOffset.toNat < memory.buffer.slotSize arg.writeCmd.toNat then
      some arg else none := by
    simp only [seeking, operation]
  have effects : (memory.effect call).2 =
      (memory.ioctl call.services call.filp cmd arg).2 := by
    simp only [Memory.effect, operation]
  rw [seeks, effects, Memory.ioctl]
  by_cases foreign : iocType cmd ≠ AESD_IOC_MAGIC ∨ iocNr cmd > AESDCHAR_IOC_MAXNR
  · rw [if_pos foreign, if_neg]
    · exact .inl ⟨rfl, rfl⟩
    · rintro ⟨magic, number, _⟩
      exact foreign.elim (fun other => other magic) (UInt32.not_lt.mpr number)
  rw [if_neg foreign]
  obtain ⟨magic, number⟩ := not_or.mp foreign
  by_cases short : min call.services.uncopied 8 ≠ 0
  · rw [if_pos short, if_neg]
    · exact .inl ⟨rfl, rfl⟩
    · rintro ⟨_, _, copies, _⟩
      omega
  rw [if_neg short]
  by_cases interrupted : call.services.interrupted = true
  · rw [if_pos interrupted, if_neg]
    · exact .inl ⟨rfl, rfl⟩
    · rintro ⟨_, _, _, locks, _⟩
      exact absurd (locks.symm.trans interrupted) Bool.false_ne_true
  rw [if_neg interrupted]
  by_cases inside : arg.writeCmd.toNat < 10 ∧
      arg.writeCmdOffset.toNat < memory.buffer.slotSize arg.writeCmd.toNat
  · rw [if_neg (mt (outside _).mp (not_not.mpr inside)), if_pos]
    · exact .inr ⟨rfl, by rw [target]⟩
    · exact ⟨not_not.mp magic, UInt32.not_lt.mp number, by omega, Bool.eq_false_iff.mpr interrupted, inside⟩
  · rw [if_pos ((outside _).mpr inside), if_neg]
    · exact .inl ⟨rfl, rfl⟩
    · exact fun accepted => inside accepted.2.2.2.2

theorem seeking_eq_none {memory : Memory} (notIoctl : ∀ cmd arg, call.operation ≠ .ioctl cmd arg) :
    seeking memory call = none := by
  unfold seeking
  split
  · rename_i cmd arg operation
    exact absurd operation (notIoctl _ _)
  · rfl

theorem positionRoom_of_none (unfinished : finishing before.memory call = none)
    (elsewhere : seeking before.memory call = none) : PositionRoom before call := by
  refine ⟨?_, ?_⟩
  · intro chunk finishes
    cases unfinished.symm.trans finishes
  · intro arg seeks
    cases elsewhere.symm.trans seeks

/-- A 64-bit position made of an exact one is exact if and only if it fits. -/
theorem toInt_ofNat_eq_iff (position : Nat) :
    (Int64.ofNat position).toInt = position ↔ position < 2 ^ 63 := by
  constructor
  · intro exact
    have high := (Int64.ofNat position).toInt_lt
    omega
  · exact Int64.toInt_ofNat_of_lt

theorem ioctl_positionKept_iff {cmd : UInt32} {arg : AesdSeekto}
    (operation : call.operation = .ioctl cmd arg) (nonneg : 0 ≤ (before.fPos call.filp).toInt)
    (taken : driver.step before call = some (reply, after)) :
    PositionKept before call reply after ↔ PositionRoom before call := by
  obtain ⟨sameReply, sameMemory⟩ := driver_step taken
  have noChunk : finishing before.memory call = none := by
    simp only [finishing, operation]
  rcases ioctl_effect_cases before.memory operation with ⟨none, same⟩ | ⟨accepted, same⟩
  · refine iff_of_true (positionKept_of_still nonneg ?_ ?_) (positionRoom_of_none noChunk none)
    · rw [same] at sameMemory
      exact congrArg (fun memory => memory.fPos call.filp) sameMemory
    · simp only [positionAfter, operation, none]
  · rw [same] at sameMemory
    have moved := congrArg (fun memory => memory.fPos call.filp) sameMemory
    simp only [Function.update_self] at moved
    have target : positionAfter before call reply.retval =
        ((AesdCircularBuffer.before before.dev.buffer.slotSize arg.writeCmd.toNat +
          arg.writeCmdOffset.toNat : Nat) : Int) := by
      simp only [positionAfter, operation, accepted]
      push_cast
      rfl
    change after.fPos call.filp = _ at moved
    constructor
    · intro kept
      have exact := kept.exact
      rw [moved, target] at exact
      refine ⟨?_, ?_⟩
      · intro chunk finishes
        cases noChunk.symm.trans finishes
      · intro other seeks
        obtain rfl := Option.some.inj (accepted.symm.trans seeks)
        exact (toInt_ofNat_eq_iff _).mp exact
    · intro room
      have exact := (toInt_ofNat_eq_iff _).mpr (room.seek arg accepted)
      refine ⟨?_, ?_⟩
      · rw [moved]
        exact exact ▸ Int.natCast_nonneg _
      · rw [moved, target]
        exact exact

theorem finishing_of_write {data : List Byte} {fits : data.length < 2 ^ 63} {memory grown : Memory}
    (operation : call.operation = .write (.bytes data fits)) (nonempty : data ≠ [])
    (locks : call.services.interrupted = false)
    (succeeds : memory.grow call.services (UInt64.ofNat data.length) = some grown) :
    finishing memory call = if newline ∈ (grown.fill call.services data).pending then
      some (accepted call.services data) else none := by
  simp only [finishing, operation, nonempty, locks, succeeds, Bool.false_eq_true, or_self,
    ↓reduceIte]

theorem finishing_eq_none {buf : UserBuffer} {memory : Memory}
    (operation : call.operation = .write buf)
    (fails : ∀ data fits, buf = .bytes data fits → data = [] ∨ call.services.interrupted = true ∨
      memory.grow call.services (UInt64.ofNat data.length) = none) :
    finishing memory call = none := by
  cases buf with
  | null count => simp only [finishing, operation]
  | bytes data fits =>
    simp only [finishing, operation]
    by_cases early : data = [] ∨ call.services.interrupted = true
    · rw [if_pos early]
    · have refused := fails data fits rfl
      rw [← or_assoc] at refused
      rw [if_neg early, refused.resolve_left early]

theorem write_positionKept_iff (valid : before.memory.Valid) {buf : UserBuffer}
    (operation : call.operation = .write buf) (nonneg : 0 ≤ (before.fPos call.filp).toInt)
    (taken : driver.step before call = some (reply, after)) :
    PositionKept before call reply after ↔ PositionRoom before call := by
  have elsewhere : seeking before.memory call = none := by
    refine seeking_eq_none fun cmd arg other => ?_
    rw [operation] at other
    cases other
  obtain ⟨sameReply, sameMemory⟩ := driver_step taken
  rw [Memory.effect_of_write _ operation] at sameMemory
  -- Without a finished command nothing moves.
  have unfinished : finishing before.memory call = none →
      after.fPos call.filp = before.fPos call.filp →
        (PositionKept before call reply after ↔ PositionRoom before call) := by
    intro none still
    refine iff_of_true (positionKept_of_still nonneg still ?_)
      (positionRoom_of_none none elsewhere)
    simp only [positionAfter, operation, none]
  rcases Memory.write_cases call.services call.filp buf before.memory with
    ⟨_, _, refused, same⟩ | ⟨data, fits, bytes, _, _, fails, same⟩ |
      ⟨data, fits, grown, bytes, nonempty, locks, succeeds, same⟩
  · rw [same] at sameMemory
    refine unfinished (finishing_eq_none operation ?_)
      (congrArg (fun memory => memory.fPos call.filp) sameMemory)
    exact fun data fits bytes => (refused data fits bytes).imp_right .inl
  · rw [same] at sameMemory
    refine unfinished (finishing_eq_none operation ?_)
      (congrArg (fun memory => memory.fPos call.filp) sameMemory)
    intro other otherFits otherBytes
    obtain rfl : data = other := UserBuffer.bytes.inj (bytes.symm.trans otherBytes)
    exact .inr (.inr fails)
  · have facts := (valid.grow fits succeeds).fill valid
    have decides := finishing_of_write (operation.trans (congrArg _ bytes)) nonempty locks succeeds
    rw [same] at sameMemory
    have moved := congrArg (fun memory => memory.fPos call.filp) sameMemory
    simp only [Memory.commit] at moved
    by_cases finished : newline ∈ (grown.fill call.services data).pending
    · rw [if_pos finished] at decides moved
      have size : (grown.fill call.services data).entry.size.toInt64 =
          Int64.ofNat (before.dev.entry.size.toNat + (accepted call.services data).length) := by
        have exact := facts.size
        change _ = before.dev.entry.size.toNat + _ at exact
        rw [← exact, ← UInt64.toInt64_ofNat', UInt64.ofNat_toNat]
      simp only [Function.update_self, facts.fPos, size] at moved
      have target : positionAfter before call reply.retval = (before.fPos call.filp).toInt +
          (before.dev.entry.size.toNat + (accepted call.services data).length : Nat) := by
        simp only [positionAfter, operation, decides]
        push_cast
        rfl
      have exact := @toInt_add_ofNat_eq_iff (before.fPos call.filp)
        (before.dev.entry.size.toNat + (accepted call.services data).length)
        (facts.size ▸ facts.small)
      constructor
      · intro kept
        have fits := exact.mp ((congrArg Int64.toInt moved).symm.trans (kept.exact.trans target))
        refine ⟨?_, ?_⟩
        · intro chunk finishes
          obtain rfl := Option.some.inj (decides.symm.trans finishes)
          exact_mod_cast fits
        · intro arg seeks
          cases elsewhere.symm.trans seeks
      · intro room
        have fits := room.command _ decides
        have there := exact.mpr (by exact_mod_cast fits)
        have position : (after.fPos call.filp).toInt = _ := (congrArg Int64.toInt moved).trans there
        exact ⟨by omega, position.trans target.symm⟩
    · rw [if_neg finished] at decides moved
      exact unfinished decides (moved.trans (congrFun facts.fPos _))

/-- From positions in range, an allowed call keeps its position exact and in range if
and only if there is room for it. -/
theorem positionKept_iff (valid : before.memory.Valid) (allowed : CallAllowed before call)
    (nonneg : 0 ≤ (before.fPos call.filp).toInt)
    (taken : driver.step before call = some (reply, after)) :
    PositionKept before call reply after ↔ PositionRoom before call := by
  cases operation : call.operation with
  | read bufIsNull count =>
    refine iff_of_true (read_positionKept valid operation allowed taken)
      (positionRoom_of_none ?_ ?_)
    · simp only [finishing, operation]
    · simp only [seeking, operation]
  | write buf => exact write_positionKept_iff valid operation nonneg taken
  | llseek fPos origin =>
    refine iff_of_true (llseek_positionKept operation allowed nonneg taken)
      (positionRoom_of_none ?_ ?_)
    · simp only [finishing, operation]
    · simp only [seeking, operation]
  | ioctl cmd arg => exact ioctl_positionKept_iff operation nonneg taken

end

/-- No file stands before the start. -/
def InRange (state : DriverState) : Prop := ∀ filp, 0 ≤ (state.fPos filp).toInt

/-- In a run of allowed calls, all positions stay in the range of `loff_t` and move
exactly as they should, if and only if every call finds room: behind the position for
the whole command that a write finishes, and for the target of a seek command. -/
theorem positions_in_range_iff {trace : List (Call × Reply)} {state : DriverState}
    (run : driver.Run aesdInitModule trace state)
    (allowed : driver.EachStep aesdInitModule trace fun before call _ _ => CallAllowed before call) :
    (driver.Along aesdInitModule trace InRange ∧
      driver.EachStep aesdInitModule trace PositionKept) ↔
        driver.EachStep aesdInitModule trace fun before call _ _ => PositionRoom before call := by
  have known : driver.EachStep aesdInitModule trace fun before call _ _ =>
      before.memory.Valid ∧ CallAllowed before call :=
    fun past call reply before after inside passed taken =>
      ⟨reachable_valid ⟨past, passed⟩, allowed past call reply before after inside passed taken⟩
  refine run.along_iff_eachStep (fun _ => Int.le_refl 0) known ?_
  intro before call reply after ⟨valid, allows⟩ inRange taken
  rw [← positionKept_iff valid allows (inRange call.filp) taken]
  refine and_iff_right_of_imp fun kept filp => ?_
  by_cases own : filp = call.filp
  · rw [own]
    exact kept.nonneg
  · have still := before.memory.effect_fPos_other call own
    rw [← (driver_step taken).2] at still
    exact (congrArg Int64.toInt still).symm ▸ inRange filp

/-- A command in two writes. -/
def twoPieces : List Call :=
  [⟨0, .smooth, .write (.bytes [104] (by decide))⟩,
   ⟨0, .smooth, .write (.bytes [105, newline] (by decide))⟩]

theorem twoPieces_inRange :
    driver.Along aesdInitModule (replayTrace aesdInitModule twoPieces) InRange := by
  refine ((positions_in_range_iff (replay_run aesdInitModule twoPieces) ?_).mpr ?_).1
  · exact Machine.eachStep_cons rfl ⟨by decide, by decide⟩
      (Machine.eachStep_cons rfl ⟨by decide, by decide⟩ Machine.eachStep_nil)
  · refine Machine.eachStep_cons rfl ?_ (Machine.eachStep_cons rfl ?_ Machine.eachStep_nil)
    · exact positionRoom_of_none (by decide) (by decide)
    · refine ⟨fun chunk finishes => ?_, fun arg seeks => ?_⟩
      · obtain rfl : [105, newline] = chunk := Option.some.inj finishes
        decide
      · cases seeks

/-- The same two writes from the last position but two. -/
theorem twoPieces_wrap : ¬ ∀ trace state, driver.Run aesdInitModule trace state →
    driver.EachStep aesdInitModule trace (fun before call _ _ => CallAllowed before call) →
      driver.Along aesdInitModule trace InRange := by
  intro always
  have run := replay_run aesdInitModule
    (⟨0, .smooth, .llseek 9223372036854775805 .seekSet⟩ :: twoPieces)
  have inRange := (always _ _ run ?_).final run
  · exact absurd (inRange 0) (by decide)
  · refine Machine.eachStep_cons rfl ?_ (Machine.eachStep_cons rfl ⟨by decide, by decide⟩
      (Machine.eachStep_cons rfl ⟨by decide, by decide⟩ Machine.eachStep_nil))
    rintro ⟨⟩

end Aesd.Driver
