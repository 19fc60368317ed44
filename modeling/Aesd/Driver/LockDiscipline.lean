import Aesd.Driver.CharDevice

namespace Aesd.Driver

open Aesd.Library

def Free (state : DriverState) : Prop := state.dev.lock = false

def Locked (state : DriverState) : Prop := state.dev.lock = true

/-- Nothing but accesses under the lock. -/
def Guarded (events : List LockEvent) : Prop := ∀ event ∈ events, event = .access true

/-- What one call may do with the lock: leave it alone, or get it without being
interrupted, work under it and release it as the last thing. -/
inductive LockUse (services : Services) : List LockEvent → Prop where
  | untouched : LockUse services []
  | held (locks : services.interrupted = false) {accesses : List LockEvent}
      (guarded : Guarded accesses) :
      LockUse services (.acquired :: (accesses ++ [.released true]))

/-- What a step under the lock appends to the trace: nothing, or its one access. -/
def Notes (before after : DriverState) : Prop :=
  after.lockTrace = before.lockTrace ∨
    after.lockTrace = before.lockTrace ++ [.access before.dev.lock]

/-- The steps of a call: one that takes the lock, ones that leave it alone and make at
most one access each, one that releases it. -/
def lockRules (services : Services) : SectionRules DriverState where
  enters effect := services.interrupted = false ∧ ∀ state,
    (effect state).dev.lock = true ∧ (effect state).lockTrace = state.lockTrace ++ [.acquired]
  works effect := ∀ state, (effect state).dev.lock = state.dev.lock ∧ Notes state (effect state)
  leaves effect := ∀ state, (effect state).dev.lock = false ∧
    (effect state).lockTrace = state.lockTrace ++ [.released state.dev.lock]

section Rules

variable {α : Type} {services : Services}

theorem plain_of_silent {primitive : DriverState → α × DriverState}
    (lock : ∀ state, (primitive state).2.dev.lock = state.dev.lock)
    (quiet : ∀ state, (primitive state).2.lockTrace = state.lockTrace) :
    (once primitive).Plain (lockRules services) :=
  ⟨fun state => ⟨lock state, .inl (quiet state)⟩, fun _ => trivial⟩

theorem plain_of_access {primitive : DriverState → α × DriverState}
    (lock : ∀ state, (primitive state).2.dev.lock = state.dev.lock)
    (accesses : ∀ state, (primitive state).2.lockTrace =
      state.lockTrace ++ [.access state.dev.lock]) :
    (once primitive).Plain (lockRules services) :=
  ⟨fun state => ⟨lock state, .inr (accesses state)⟩, fun _ => trivial⟩

theorem plain_readBuffer (member : AesdCircularBuffer → α) :
    (readBuffer member).Plain (lockRules services) :=
  plain_of_access (fun _ => rfl) fun _ => rfl

theorem plain_writeBuffer (change : AesdCircularBuffer → AesdCircularBuffer) :
    (writeBuffer change).Plain (lockRules services) :=
  plain_of_access (fun _ => rfl) fun _ => rfl

theorem plain_readEntry (member : AesdBufferEntry → α) :
    (readEntry member).Plain (lockRules services) :=
  plain_of_access (fun _ => rfl) fun _ => rfl

theorem plain_writeEntry (change : AesdBufferEntry → AesdBufferEntry) :
    (writeEntry change).Plain (lockRules services) :=
  plain_of_access (fun _ => rfl) fun _ => rfl

theorem plain_readByte (buffptr : Option Nat) (index : Nat) :
    (readByte buffptr index).Plain (lockRules services) :=
  plain_of_access (fun _ => rfl) fun _ => rfl

theorem plain_writeByte (block index : Nat) (byte : Byte) :
    (writeByte block index byte).Plain (lockRules services) :=
  plain_of_access (fun _ => rfl) fun _ => rfl

theorem plain_getFPos (filp : Nat) : (getFPos filp).Plain (lockRules services) :=
  plain_of_silent (fun _ => rfl) fun _ => rfl

theorem plain_setFPos (filp : Nat) (position : Int64) :
    (setFPos filp position).Plain (lockRules services) :=
  plain_of_silent (fun _ => rfl) fun _ => rfl

theorem plain_kmalloc (size : UInt64) : (kmalloc services size).Plain (lockRules services) := by
  apply plain_of_silent
  · intro state
    split <;> rfl
  · intro state
    split <;> rfl

theorem plain_krealloc (buffptr : Option Nat) (size : UInt64) :
    (krealloc services buffptr size).Plain (lockRules services) := by
  cases buffptr with
  | none => exact plain_kmalloc size
  | some old =>
    apply plain_of_silent
    · intro state
      split <;> rfl
    · intro state
      split <;> rfl

theorem plain_kfree (buffptr : Option Nat) : (kfree buffptr).Plain (lockRules services) := by
  cases buffptr with
  | none => exact .pure _
  | some block => exact plain_of_silent (fun _ => rfl) fun _ => rfl

theorem plain_storeBytes (block index : Nat) (bytes : List Byte) :
    (storeBytes block index bytes).Plain (lockRules services) := by
  induction bytes generalizing index with
  | nil => exact .pure _
  | cons byte rest ih => exact .bind (plain_writeByte block index byte) fun _ => ih _

theorem plain_loadBytes (buffptr : Option Nat) (indices : List Nat) :
    (loadBytes buffptr indices).Plain (lockRules services) := by
  induction indices with
  | nil => exact .pure _
  | cons index rest ih =>
    exact .bind (plain_readByte buffptr index) fun _ => .bind ih fun _ => .pure _

theorem plain_findByte (buffptr : Option Nat) (wanted : Byte) (indices : List Nat) :
    (findByte buffptr wanted indices).Plain (lockRules services) := by
  induction indices with
  | nil => exact .pure _
  | cons index rest ih =>
    exact .bind (plain_readByte buffptr index) fun _ => .ite (fun _ => .pure _) fun _ => ih

theorem plain_copyFromUser (buffptr : Option Nat) (offset : UInt64) (data : List Byte) :
    (copyFromUser services buffptr offset data).Plain (lockRules services) := by
  cases buffptr with
  | none => exact .pure _
  | some block => exact .bind (plain_storeBytes block _ _) fun _ => .pure _

theorem plain_copyToUser (buffptr : Option Nat) (offset count : UInt64) :
    (copyToUser services buffptr offset count).Plain (lockRules services) :=
  .bind (plain_loadBytes buffptr _) fun _ => .pure _

end Rules

namespace Shared

variable {services : Services}

theorem plain_findRounds (charOffset entryOffsetByteRtn : UInt64) (rounds : List Nat) :
    (findRounds charOffset entryOffsetByteRtn rounds).Plain (lockRules services) := by
  induction rounds generalizing charOffset with
  | nil => exact .pure _
  | cons i rest ih =>
    refine .bind (plain_readBuffer _) fun _ => .bind (plain_readBuffer _) fun _ => ?_
    exact .ite (fun _ => .pure _) fun _ => .bind (plain_readBuffer _) fun _ => ih _

theorem plain_findEntry (charOffset entryOffsetByteRtn : UInt64) :
    (aesdCircularBufferFindEntryOffsetForFpos charOffset entryOffsetByteRtn).Plain
      (lockRules services) := by
  refine .bind (.bind (plain_readBuffer _) fun _ => ?_) fun _ => plain_findRounds _ _ _
  exact .ite (fun _ => .pure _) fun _ => .bind (plain_readBuffer _) fun _ => .pure _

theorem plain_makeRoom : makeRoom.Plain (lockRules services) := by
  refine .bind (plain_readBuffer _) fun _ => .ite (fun _ => ?_) fun _ => .pure _
  exact .bind (plain_readBuffer _) fun _ => .bind (plain_readBuffer _) fun _ =>
    .bind (plain_readBuffer _) fun _ => .bind (plain_writeBuffer _) fun _ => .pure _

theorem plain_addEntry : aesdCircularBufferAddEntry.Plain (lockRules services) := by
  refine .bind plain_makeRoom fun _ => .bind (plain_readEntry _) fun _ =>
    .bind (plain_readEntry _) fun _ => .bind (plain_readBuffer _) fun _ =>
      .bind (plain_writeBuffer _) fun _ => .bind (plain_readBuffer _) fun _ =>
        .bind (plain_writeBuffer _) fun _ => .bind (plain_readBuffer _) fun _ =>
          .bind (plain_readBuffer _) fun _ => .ite (fun _ => ?_) fun _ => .pure _
  exact .bind (plain_writeBuffer _) fun _ => .pure _

theorem plain_walkToEnd (rounds : Nat) (position : Slot) (totalLength : Int64) :
    (walkToEnd rounds position totalLength).Plain (lockRules services) := by
  induction rounds generalizing position totalLength with
  | zero => exact .pure _
  | succ rounds ih =>
    refine .bind (plain_readBuffer _) fun _ => .bind (plain_readBuffer _) fun _ => ?_
    exact .ite (fun _ => .pure _) fun _ => ih _ _

theorem plain_seekTarget (filp : Nat) (position : Slot) (junk fPos : Int64) (origin : Whence) :
    (seekTarget filp position junk fPos origin).Plain (lockRules services) := by
  cases origin with
  | seekSet => exact .pure _
  | seekCur => exact .bind (plain_getFPos filp) fun _ => .pure _
  | seekEnd => exact .bind (plain_walkToEnd _ position junk) fun _ => .pure _
  | other => exact .pure _

theorem plain_sizesBelow (offset : Int64) (rounds : List Nat) :
    (sizesBelow offset rounds).Plain (lockRules services) := by
  induction rounds generalizing offset with
  | nil => exact .pure _
  | cons i rest ih => exact .bind (plain_readBuffer _) fun _ => ih _

theorem plain_outside (seekTo : AesdSeekto) : (outside seekTo).Plain (lockRules services) :=
  .ite (fun _ => .pure _) fun _ => .bind (plain_readBuffer _) fun _ => .pure _

end Shared

section Operations

variable (services : Services)

theorem plain_clipCount (slot : Slot) (offset count : UInt64) :
    (clipCount slot offset count).Plain (lockRules services) := by
  refine .bind (plain_readBuffer _) fun _ => .ite (fun _ => ?_) fun _ => .pure _
  exact .bind (plain_readBuffer _) fun _ => .pure _

theorem plain_growEntry (count : UInt64) :
    (growEntry services count).Plain (lockRules services) := by
  refine .bind (plain_readEntry _) fun _ => .ite (fun _ => ?_) fun _ => ?_
  · exact .bind (plain_kmalloc count) fun _ => .bind (plain_writeEntry _) fun _ =>
      .bind (plain_readEntry _) fun _ => .pure _
  · exact .bind (plain_readEntry _) fun _ => .bind (plain_readEntry _) fun _ =>
      .bind (plain_krealloc _ _) fun _ => .bind (plain_writeEntry _) fun _ =>
        .bind (plain_readEntry _) fun _ => .pure _

theorem plain_fillEntry (count : UInt64) (data : List Byte) :
    (fillEntry services count data).Plain (lockRules services) :=
  .bind (plain_readEntry _) fun _ => .bind (plain_readEntry _) fun _ =>
    .bind (plain_copyFromUser _ _ data) fun _ => .bind (plain_readEntry _) fun _ =>
      .bind (plain_writeEntry _) fun _ => .pure _

theorem plain_commitEntry (fPos : Nat) : (commitEntry fPos).Plain (lockRules services) := by
  refine .bind (plain_readEntry _) fun _ => .bind (plain_readEntry _) fun _ =>
    .bind (plain_findByte _ _ _) fun _ => .ite (fun _ => ?_) fun _ => .pure _
  have rest : (do
      writeEntry fun entry => { entry with buffptr := none }
      let position ← getFPos fPos
      let size ← readEntry AesdBufferEntry.size
      setFPos fPos (position + size.toInt64)
      writeEntry fun entry => { entry with size := 0 } : KernelM Unit).Plain
        (lockRules services) :=
    .bind (plain_writeEntry _) fun _ => .bind (plain_getFPos fPos) fun _ =>
      .bind (plain_readEntry _) fun _ => .bind (plain_setFPos fPos _) fun _ => plain_writeEntry _
  refine .bind Shared.plain_addEntry fun entry => .ite (fun _ => ?_) fun _ => rest
  exact .bind (plain_kfree entry) fun _ => rest

/-- Every way out of a locked section is an unlock and a return. -/
theorem inside_unlock {α : Type} (value : α) :
    (mutexUnlock >>= fun _ => (pure value : KernelM α)).Inside (lockRules services) :=
  ⟨fun _ => ⟨rfl, rfl⟩, trivial⟩

/-- A call that starts with the lock: it fails to get it and returns, or goes on under it. -/
theorem sectioned_lock {α : Type} (value : α) {rest : KernelM α}
    (inside : rest.Inside (lockRules services)) :
    (mutexLockInterruptible services >>= fun failed =>
      if failed = true then pure value else rest).Sectioned (lockRules services) := by
  unfold mutexLockInterruptible
  split
  · trivial
  · rename_i locks
    exact ⟨⟨Bool.eq_false_iff.mpr locks, fun _ => ⟨rfl, rfl⟩⟩, inside⟩

/-- What `PDEBUG` reads is printed and forgotten. -/
theorem sectioned_debug {α : Type} (fPos : Nat) {rest : KernelM α}
    (sectioned : rest.Sectioned (lockRules services)) :
    (debugFPos fPos >>= fun _ => rest).Sectioned (lockRules services) :=
  ⟨⟨fun _ => rfl, fun _ _ => rfl⟩, fun _ => sectioned⟩

theorem aesdRead_sectioned (fPos : Nat) (bufIsNull : Bool) (count : UInt64) :
    (aesdRead services fPos bufIsNull count).Sectioned (lockRules services) := by
  refine sectioned_debug services fPos (.ite (fun _ => trivial) fun _ => sectioned_lock services _ ?_)
  refine .bind (plain_getFPos fPos) fun position =>
    .bind (Shared.plain_findEntry _ _) fun found => ?_
  obtain ⟨readEntry, offset⟩ := found
  cases readEntry with
  | none => exact inside_unlock services _
  | some slot =>
    exact .bind (plain_clipCount services slot offset count) fun _ =>
      .bind (plain_readBuffer _) fun _ => .bind (plain_copyToUser _ _ _) fun _ =>
        .bind (plain_getFPos fPos) fun _ => .bind (plain_setFPos fPos _) fun _ =>
          inside_unlock services _

theorem aesdWrite_sectioned (fPos : Nat) (buf : UserBuffer) :
    (aesdWrite services fPos buf).Sectioned (lockRules services) := by
  refine sectioned_debug services fPos (.ite (fun _ => trivial) fun _ => ?_)
  cases buf with
  | null count => trivial
  | bytes data fits =>
    refine sectioned_lock services _ (.bind (plain_growEntry services _) fun _ =>
      .ite (fun _ => inside_unlock services _) fun _ => ?_)
    exact .bind (plain_fillEntry services _ data) fun _ =>
      .bind (plain_commitEntry services fPos) fun _ => inside_unlock services _

theorem aesdLlseek_sectioned (filp : Nat) (fPos : Int64) (origin : Whence) :
    (aesdLlseek services filp fPos origin).Sectioned (lockRules services) := by
  refine sectioned_lock services _ (.bind (plain_readBuffer _) fun position =>
    .bind (Shared.plain_seekTarget filp position _ fPos origin) fun target => ?_)
  cases target with
  | none => exact inside_unlock services _
  | some retval =>
    refine .ite (fun _ => inside_unlock services _) fun _ => ?_
    exact .bind (plain_setFPos filp _) fun _ => inside_unlock services _

theorem aesdIoctl_sectioned (filp : Nat) (cmd : UInt32) (arg : AesdSeekto) :
    (aesdIoctl services filp cmd arg).Sectioned (lockRules services) := by
  refine .ite (fun _ => trivial) fun _ => .ite (fun _ => trivial) fun _ =>
    .ite (fun _ => trivial) fun _ => sectioned_lock services _ ?_
  refine .bind (Shared.plain_outside arg) fun _ => .ite (fun _ => inside_unlock services _) fun _ => ?_
  exact .bind (Shared.plain_sizesBelow _ _) fun _ => .bind (plain_setFPos filp _) fun _ =>
    inside_unlock services _

/-- Every path of every call touches the device only between its one acquisition of the
lock and its one release. -/
theorem sectioned (call : Call) : call.code.Sectioned (lockRules call.services) := by
  unfold Call.code
  cases call.operation with
  | read bufIsNull count => exact aesdRead_sectioned _ _ _ _
  | write buf => exact (aesdWrite_sectioned _ _ _).returning _
  | llseek fPos origin => exact (aesdLlseek_sectioned _ _ _ _).returning _
  | ioctl cmd arg => exact (aesdIoctl_sectioned _ _ _ _).returning _

end Operations

section Runs

variable {services : Services} {start now : DriverState} {effect : DriverState → DriverState}

/-- The lock was free at the start, has been taken and is still held. -/
structure Holding (services : Services) (start now : DriverState) : Prop where
  locked : Locked now
  locks : services.interrupted = false
  notes : ∃ accesses, Guarded accesses ∧
    now.lockTrace = start.lockTrace ++ .acquired :: accesses

/-- It has been used and given back. -/
structure Used (services : Services) (start now : DriverState) : Prop where
  free : Free now
  notes : ∃ events, LockUse services events ∧ now.lockTrace = start.lockTrace ++ events

theorem holding_of_enters (entering : (lockRules services).enters effect) :
    Holding services start (effect start) := by
  obtain ⟨locks, takes⟩ := entering
  exact ⟨(takes start).1, locks, [], fun _ member => absurd member List.not_mem_nil,
    (takes start).2⟩

theorem Holding.works (holding : Holding services start now)
    (working : (lockRules services).works effect) : Holding services start (effect now) := by
  obtain ⟨locked, locks, accesses, guarded, grown⟩ := holding
  obtain ⟨kept, noted⟩ := working now
  refine ⟨kept.trans locked, locks, ?_⟩
  rcases noted with silent | access
  · exact ⟨accesses, guarded, silent.trans grown⟩
  · refine ⟨accesses ++ [.access true], ?_, ?_⟩
    · intro event member
      rcases List.mem_append.mp member with earlier | last
      · exact guarded event earlier
      · exact List.mem_singleton.mp last
    · rw [access, grown, show now.dev.lock = true from locked, List.append_assoc, List.cons_append]

theorem Holding.leaves (holding : Holding services start now)
    (leaving : (lockRules services).leaves effect) : Used services start (effect now) := by
  obtain ⟨locked, locks, accesses, guarded, grown⟩ := holding
  obtain ⟨free, noted⟩ := leaving now
  refine ⟨free, _, .held locks guarded, ?_⟩
  rw [noted, grown, show now.dev.lock = true from locked, List.append_assoc, List.cons_append]

theorem run_uses (call : Call) (free : Free start) :
    Used call.services start (call.run start).2 := by
  have outcome := (sectioned call).run_rule
    (fun effect entering state (same : state = start) =>
      show Holding call.services start (effect state) from same ▸ holding_of_enters entering)
    (fun effect working state holding => holding.works working)
    (fun effect leaving state holding => holding.leaves leaving) start rfl
  rcases outcome with untouched | used
  · refine ⟨?_, [], .untouched, ?_⟩
    · rwa [Call.run, untouched]
    · rw [Call.run, untouched, List.append_nil]
  · exact used

/-- One call after the other: what happened to the lock is one use for each. -/
theorem uses_of_run {trace : List (Call × Reply)} {state : DriverState}
    (run : driver.Run start trace state) (free : Free start) (unused : start.lockTrace = []) :
    Free state ∧ ∃ uses,
      List.Forall₂ (fun step events => LockUse step.1.services events) trace uses ∧
        state.lockTrace = uses.flatten := by
  induction run with
  | start => exact ⟨free, [], .nil, unused⟩
  | @next trace before after call reply _ taken ih =>
    obtain ⟨freeBefore, uses, matching, flat⟩ := ih
    obtain rfl : (call.run before).2 = after := congrArg Prod.snd (Option.some.inj taken)
    obtain ⟨freeAfter, events, use, grows⟩ := run_uses call freeBefore
    refine ⟨freeAfter, uses ++ [events], List.rel_append matching (.cons use .nil), ?_⟩
    rw [grows, flat, List.flatten_append, List.flatten_singleton]

end Runs

/-- Nothing was touched or released by a call that did not hold the lock. -/
def HeldOnly (events : List LockEvent) : Prop :=
  ∀ event ∈ events, event ≠ .access false ∧ event ≠ .released false

theorem LockUse.held_only {services : Services} {events : List LockEvent}
    (uses : LockUse services events) : HeldOnly events := by
  cases uses with
  | untouched => exact fun _ member => absurd member List.not_mem_nil
  | held _ guarded =>
    intro event member
    rcases List.mem_cons.mp member with rfl | later
    · exact ⟨by decide, by decide⟩
    · rcases List.mem_append.mp later with inside | last
      · rw [guarded event inside]
        exact ⟨by decide, by decide⟩
      · rw [List.mem_singleton.mp last]
        exact ⟨by decide, by decide⟩

theorem held_only_flatten {trace : List (Call × Reply)} {uses : List (List LockEvent)}
    (matching : List.Forall₂ (fun step events => LockUse step.1.services events) trace uses) :
    HeldOnly uses.flatten := by
  induction matching with
  | nil => exact fun _ member => absurd member List.not_mem_nil
  | cons use _ ih =>
    intro event member
    rw [List.flatten_cons] at member
    rcases List.mem_append.mp member with first | later
    · exact use.held_only event first
    · exact ih event later

/-- After any calls the lock is free, and what happened to it is one use for each
call: the call left it alone, as an interrupted one does, or took it, worked, and
released it as the last thing. So no member of the ring or the pending entry and no
byte of a command was touched, and nothing released, by a call that did not hold it. -/
theorem lock_held_in_turn {trace : List (Call × Reply)} {state : DriverState}
    (run : driver.Run aesdInitModule trace state) :
    Free state ∧
      (∃ uses, List.Forall₂ (fun step events => LockUse step.1.services events) trace uses ∧
        state.lockTrace = uses.flatten) ∧
      HeldOnly state.lockTrace := by
  obtain ⟨free, uses, matching, flat⟩ := uses_of_run run rfl rfl
  refine ⟨free, ⟨uses, matching, flat⟩, ?_⟩
  rw [flat]
  exact held_only_flatten matching

/-- A write whose allocation fails, an interrupted read, a command with its newline, a
read of it, a seek to the end and one to an unknown origin. -/
def failingCalls : List Call :=
  [⟨0, { Services.smooth with noMemory := true }, .write (.bytes [118] (by decide))⟩,
   ⟨1, { Services.smooth with interrupted := true }, .read false 5⟩,
   ⟨0, .smooth, .write (.bytes [118, newline] (by decide))⟩, ⟨1, .smooth, .read false 1⟩,
   ⟨0, .smooth, .llseek 0 .seekEnd⟩, ⟨0, .smooth, .llseek 0 .other⟩]

/-- Five of them get the lock and make 39 accesses under it. -/
theorem failingCalls_lock :
    Free (replay aesdInitModule failingCalls) ∧
      (∃ uses, List.Forall₂ (fun step events => LockUse step.1.services events)
          (replayTrace aesdInitModule failingCalls) uses ∧
        (replay aesdInitModule failingCalls).lockTrace = uses.flatten) ∧
      (replay aesdInitModule failingCalls).lockTrace.count .acquired = 5 ∧
      (replay aesdInitModule failingCalls).lockTrace.count (.access true) = 39 ∧
      .access false ∉ (replay aesdInitModule failingCalls).lockTrace := by
  obtain ⟨free, uses, held⟩ := lock_held_in_turn (replay_run aesdInitModule failingCalls)
  exact ⟨free, uses, by decide, by decide, fun member => (held _ member).1 rfl⟩

end Aesd.Driver
