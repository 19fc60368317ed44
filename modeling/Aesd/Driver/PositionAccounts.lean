import Aesd.Driver.CommandStore
import Aesd.Library.Shares
import Aesd.Library.Words

namespace Aesd.Driver

open Aesd.Library

/-- The bytes that a write adds to the pending command. -/
def chunk (call : Call) : List Byte :=
  match call.operation with
  | .write (.bytes data _) => accepted call.services data
  | _ => []

def chunkSize (call : Call) : Nat := (chunk call).length

/-- Whether the write finishes the pending command. -/
def finishes (call : Call) : Bool := CommandStore.hasNewline (chunk call)

/-- What the writes of one open file returned in sum. -/
def returnedThrough (filp : Nat) (past : List (Call × Reply)) : Int :=
  shareOf (fun step => step.1.filp) (fun step => step.2.retval.toInt) filp past

/-- A step that is a write and reports no error. -/
def Wrote (_ : DriverState) (call : Call) (reply : Reply) (_ : DriverState) : Prop :=
  (∃ buf, call.operation = .write buf) ∧ 0 ≤ reply.retval.toInt

/-- What a successful write answers and leaves behind. -/
structure Taken (memory : Memory) (call : Call) (outcome : Reply × Memory) : Prop where
  clean : outcome.2.Clean
  retval : outcome.1.retval.toInt = chunkSize call
  pending : outcome.2.pending = if finishes call then [] else memory.pending ++ chunk call
  small : (memory.pending ++ chunk call).length < 2 ^ 63
  fPos : outcome.2.fPos = if finishes call then Function.update memory.fPos call.filp
    (memory.fPos call.filp + Int64.ofNat (memory.pending ++ chunk call).length) else memory.fPos

theorem hasNewline_iff {bytes : List Byte} :
    CommandStore.hasNewline bytes = true ↔ newline ∈ bytes := by
  simp [CommandStore.hasNewline]

namespace Memory

theorem write_success (services : Services) (filp : Nat) {buf : UserBuffer} {memory : Memory}
    (success : 0 ≤ (memory.write services filp buf).1.toInt) :
    (buf.count = 0 ∧ memory.write services filp buf = (0, memory)) ∨
      ∃ data fits grown, buf = .bytes data fits ∧
        memory.grow services (UInt64.ofNat data.length) = some grown ∧
          memory.write services filp buf =
            ((UInt64.ofNat (accepted services data).length).toInt64,
              (grown.fill services data).commit filp) := by
  rcases write_cases services filp buf memory with
    ⟨retval, refused, _, same⟩ | ⟨_, _, _, _, _, _, same⟩ |
      ⟨data, fits, grown, bytes, _, _, succeeds, same⟩
  · rw [same] at success
    rcases refused with ⟨rfl, nothing⟩ | rfl | rfl
    · exact .inl ⟨nothing, same⟩
    · exact absurd success (by decide : ¬ 0 ≤ (-EFAULT).toInt)
    · exact absurd success (by decide : ¬ 0 ≤ (-ERESTARTSYS).toInt)
  · rw [same] at success
    exact absurd success (by decide : ¬ 0 ≤ (-ENOMEM).toInt)
  · exact .inr ⟨data, fits, grown, bytes, succeeds, same⟩

namespace Clean

variable {memory : Memory}

theorem length_pending (clean : memory.Clean) :
    memory.pending.length = memory.entry.size.toNat := by
  rcases clean.intact with empty | pointed
  · simp [pending, contents, empty]
  · obtain ⟨block, found⟩ := Option.ne_none_iff_exists'.mp pointed
    exact length_contents (clean.valid.entryBlock block found)

theorem effect_taken (clean : memory.Clean) {call : Call} {buf : UserBuffer}
    (operation : call.operation = .write buf)
    (success : 0 ≤ (memory.effect call).1.retval.toInt) :
    Taken memory call (memory.effect call) := by
  rw [effect_of_write memory operation] at success ⊢
  rcases write_success call.services call.filp success with
    ⟨nothing, same⟩ | ⟨data, fits, grown, bytes, succeeds, same⟩
  · have none : chunk call = [] := by
      cases buf with
      | null count => simp [chunk, operation]
      | bytes data fits =>
        simp [chunk, operation, accepted, eq_nil_of_count nothing]
    have goesOn : finishes call = false := by simp [finishes, none, CommandStore.hasNewline]
    rw [same]
    refine ⟨clean, ?_, ?_, ?_, ?_⟩
    · simp [chunkSize, none]
    · simp [goesOn, none]
    · rw [none, List.append_nil, clean.length_pending]
      exact clean.valid.entrySize
    · simp [goesOn]
  · have facts := (clean.valid.grow fits succeeds).fill clean.valid
    have sameChunk : chunk call = accepted call.services data := by
      simp only [chunk, operation, bytes]
    have decides : finishes call = true ↔ newline ∈ accepted call.services data := by
      rw [finishes, sameChunk, hasNewline_iff]
    have size : (memory.pending ++ accepted call.services data).length =
        (grown.fill call.services data).entry.size.toNat := by
      rw [facts.size, List.length_append, clean.length_pending]
    obtain ⟨cleanAfter, store⟩ := clean.commit_store facts call.filp
    have after := congrArg CommandStore.pending store
    rw [CommandStore.accept] at after
    rw [same]
    refine ⟨cleanAfter, ?_, ?_, ?_, ?_⟩
    · rw [chunkSize, sameChunk]
      exact toInt_accepted fits
    · rw [sameChunk]
      by_cases finished : newline ∈ accepted call.services data
      · rw [if_pos finished] at after
        rwa [if_pos (decides.mpr finished)]
      · rw [if_neg finished] at after
        rwa [if_neg (mt decides.mp finished)]
    · rw [sameChunk, size]
      exact facts.small
    · rw [sameChunk, size, ← UInt64.toInt64_ofNat', UInt64.ofNat_toNat, ← facts.fPos, commit]
      by_cases finished : newline ∈ accepted call.services data
      · rw [if_pos (decides.mpr finished), if_pos ((clean.newline_filled facts).mpr finished)]
      · rw [if_neg (mt decides.mp finished), if_neg (mt (clean.newline_filled facts).mp finished)]

end Clean

end Memory

/-- The finished commands of a run, and the writes since the last of them. -/
def finishedCommands (calls : List Call) : List (List Call) := (cut finishes calls).1

def unfinishedWrites (calls : List Call) : List Call := (cut finishes calls).2

/-- How many bytes of these writes came through one open file. -/
def bytesThrough (filp : Nat) (calls : List Call) : Nat := shareOf Call.filp chunkSize filp calls

/-- Every finished command came through one open file, whose position has room for
all its bytes. -/
structure Attributed (start : DriverState) (calls : List Call) : Prop where
  oneWriter : ∀ command ∈ finishedCommands calls, OneOwner Call.filp chunkSize command
  room : ∀ filp, (start.fPos filp).toInt + bytesThrough filp (finishedCommands calls).flatten < 2 ^ 63

/-- Every position is ahead of its start by the bytes that its file brought to the
finished commands. -/
def Settled (start : DriverState) (calls : List Call) (memory : Memory) : Prop :=
  ∀ filp, (memory.fPos filp).toInt =
    (start.fPos filp).toInt + bytesThrough filp (finishedCommands calls).flatten

/-- What the device holds after successful writes, and what they returned. -/
structure Tallied (past : List (Call × Reply)) (memory : Memory) : Prop where
  clean : memory.Clean
  pending : memory.pending = ((unfinishedWrites (past.map Prod.fst)).map chunk).flatten
  returned : ∀ filp, returnedThrough filp past = bytesThrough filp (past.map Prod.fst)

section

variable {start : DriverState} {calls : List Call} {call : Call} {memory : Memory}

theorem finishedCommands_append_open (goesOn : finishes call = false) :
    finishedCommands (calls ++ [call]) = finishedCommands calls := by
  rw [finishedCommands, cut_append_singleton, cutStep, goesOn]
  rfl

theorem finishedCommands_append_finished (finished : finishes call = true) :
    finishedCommands (calls ++ [call]) =
      finishedCommands calls ++ [unfinishedWrites calls ++ [call]] := by
  rw [finishedCommands, cut_append_singleton, cutStep, finished]
  rfl

theorem unfinishedWrites_append (calls : List Call) (call : Call) :
    unfinishedWrites (calls ++ [call]) =
      if finishes call then [] else unfinishedWrites calls ++ [call] := by
  rw [unfinishedWrites, cut_append_singleton, cutStep]
  split <;> rfl

theorem length_chunks (calls : List Call) :
    (calls.map chunk).flatten.length = (calls.map chunkSize).sum := by
  rw [List.length_flatten, List.map_map]
  rfl

theorem chunkSize_of_finishes (finished : finishes call = true) : chunkSize call ≠ 0 :=
  List.length_pos_iff.mpr (List.ne_nil_of_mem (hasNewline_iff.mp finished)) |>.ne'

/-- A finishing write gives every file its own bytes of the command exactly when they
all came through the file that finishes it and there is room behind its position. -/
theorem Taken.credits_iff {outcome : Reply × Memory} (taken : Taken memory call outcome)
    (finished : finishes call = true)
    (pending : memory.pending = ((unfinishedWrites calls).map chunk).flatten) :
    (∀ filp, (outcome.2.fPos filp).toInt =
        (memory.fPos filp).toInt + bytesThrough filp (unfinishedWrites calls ++ [call])) ↔
      OneOwner Call.filp chunkSize (unfinishedWrites calls ++ [call]) ∧
        ∀ filp, (memory.fPos filp).toInt +
          bytesThrough filp (unfinishedWrites calls ++ [call]) < 2 ^ 63 := by
  have moves := taken.fPos
  have small := taken.small
  have whole : memory.pending ++ chunk call =
      ((unfinishedWrites calls ++ [call]).map chunk).flatten := by
    simp [pending]
  rw [if_pos finished, whole, length_chunks] at moves
  rw [whole, length_chunks] at small
  generalize command : unfinishedWrites calls ++ [call] = members at moves small ⊢
  have member : call ∈ members := by simp [← command]
  have own : outcome.2.fPos call.filp =
      memory.fPos call.filp + Int64.ofNat (members.map chunkSize).sum := by
    rw [moves, Function.update_self]
  have others : ∀ filp, filp ≠ call.filp → outcome.2.fPos filp = memory.fPos filp := by
    intro filp other
    rw [moves, Function.update_of_ne other]
  have heavy := chunkSize_of_finishes finished
  constructor
  · intro exact
    have nothing : ∀ filp, filp ≠ call.filp → bytesThrough filp members = 0 := by
      intro filp other
      have still := exact filp
      rw [others filp other] at still
      omega
    have mine : ∀ item ∈ members, chunkSize item ≠ 0 → item.filp = call.filp := by
      intro item inside weighs
      by_contra other
      exact weighs (shareOf_eq_zero_iff.mp (nothing _ other) item inside rfl)
    have all : bytesThrough call.filp members = (members.map chunkSize).sum := shareOf_eq_sum mine
    refine ⟨(credit_iff_oneOwner member heavy).mp fun filp => ?_, fun filp => ?_⟩
    · by_cases same : filp = call.filp
      · rw [if_pos same, same]
        exact all
      · rw [if_neg same]
        exact nothing filp same
    · by_cases same : filp = call.filp
      · have lands := exact call.filp
        rw [own, all] at lands
        rw [same, all]
        exact (toInt_add_ofNat_eq_iff small).mp lands
      · have high := (memory.fPos filp).toInt_lt
        rw [nothing filp same]
        omega
  · rintro ⟨one, room⟩ filp
    have credited : bytesThrough filp members = _ := (credit_iff_oneOwner member heavy).mpr one filp
    have fits := room filp
    rw [credited] at fits ⊢
    by_cases same : filp = call.filp
    · rw [if_pos same, same] at fits ⊢
      rw [own]
      exact toInt_add_ofNat_of_fits small fits
    · rw [if_neg same, others filp same]
      omega

theorem bytesThrough_append (filp : Nat) (first second : List Call) :
    bytesThrough filp (first ++ second) = bytesThrough filp first + bytesThrough filp second :=
  shareOf_append first second

/-- One more successful write settles the positions exactly when it is attributed. -/
theorem Taken.settled_iff {outcome : Reply × Memory} (taken : Taken memory call outcome)
    (finished : finishes call = true)
    (pending : memory.pending = ((unfinishedWrites calls).map chunk).flatten)
    (attributed : Attributed start calls) (settled : Settled start calls memory) :
    Settled start (calls ++ [call]) outcome.2 ↔ Attributed start (calls ++ [call]) := by
  have bytes : ∀ filp, bytesThrough filp (finishedCommands (calls ++ [call])).flatten =
      bytesThrough filp (finishedCommands calls).flatten +
        bytesThrough filp (unfinishedWrites calls ++ [call]) := by
    intro filp
    rw [finishedCommands_append_finished finished, List.flatten_append, List.flatten_singleton,
      bytesThrough_append]
  have credits := taken.credits_iff finished pending
  constructor
  · intro lands
    obtain ⟨one, room⟩ := credits.mp fun filp => by
      have before := settled filp
      have after := lands filp
      have sum := bytes filp
      omega
    refine ⟨?_, fun filp => ?_⟩
    · intro command member
      rw [finishedCommands_append_finished finished] at member
      rcases List.mem_append.mp member with earlier | last
      · exact attributed.oneWriter command earlier
      · exact List.mem_singleton.mp last ▸ one
    · have before := settled filp
      have fits := room filp
      have sum := bytes filp
      omega
  · intro kept filp
    have one := kept.oneWriter (unfinishedWrites calls ++ [call]) (by
      rw [finishedCommands_append_finished finished]
      exact List.mem_append_right _ (List.mem_singleton_self _))
    have lands := credits.mpr ⟨one, fun filp => by
      have before := settled filp
      have fits := kept.room filp
      have sum := bytes filp
      omega⟩ filp
    have before := settled filp
    have sum := bytes filp
    omega

/-- A write that does not finish the command changes neither side. -/
theorem Taken.settled_open {outcome : Reply × Memory} (taken : Taken memory call outcome)
    (goesOn : finishes call = false) (settled : Settled start calls memory) :
    Settled start (calls ++ [call]) outcome.2 := by
  have still := taken.fPos
  rw [goesOn, if_neg Bool.false_ne_true] at still
  intro filp
  rw [finishedCommands_append_open goesOn, still]
  exact settled filp

theorem attributed_append_open (goesOn : finishes call = false) :
    Attributed start (calls ++ [call]) ↔ Attributed start calls := by
  constructor
  · rintro ⟨one, room⟩
    rw [finishedCommands_append_open goesOn] at one room
    exact ⟨one, room⟩
  · rintro ⟨one, room⟩
    refine ⟨?_, ?_⟩
    · rwa [finishedCommands_append_open goesOn]
    · rwa [finishedCommands_append_open goesOn]

theorem Attributed.earlier {first second : List Call}
    (attributed : Attributed start (first ++ second)) : Attributed start first := by
  obtain ⟨later, same⟩ := @cut_grows _ finishes first second
  change finishedCommands first ++ later = finishedCommands (first ++ second) at same
  refine ⟨fun command member => ?_, fun filp => ?_⟩
  · exact attributed.oneWriter command (same ▸ List.mem_append_left _ member)
  · have room := attributed.room filp
    rw [← same, List.flatten_append, bytesThrough_append] at room
    omega

end

theorem run_tallied {start state : DriverState} {trace : List (Call × Reply)}
    (begins : start.memory.Clean) (nothing : start.memory.pending = [])
    (run : driver.Run start trace state) (written : driver.EachStep start trace Wrote) :
    Tallied trace state.memory ∧
      (Attributed start (trace.map Prod.fst) → Settled start (trace.map Prod.fst) state.memory) := by
  refine run.history_of_eachStep (fun past state => Tallied past state.memory ∧
    (Attributed start (past.map Prod.fst) → Settled start (past.map Prod.fst) state.memory))
    ⟨⟨begins, nothing, fun _ => rfl⟩, fun _ _ => (Int.add_zero _).symm⟩ written ?_
  rintro past before call reply after ⟨⟨buf, operation⟩, success⟩ ⟨tallied, settles⟩ stepped
  obtain ⟨sameReply, sameMemory⟩ := driver_step stepped
  rw [sameReply] at success ⊢
  rw [sameMemory, List.map_append, List.map_singleton]
  have taken := tallied.clean.effect_taken operation success
  refine ⟨⟨taken.clean, ?_, fun filp => ?_⟩, fun attributed => ?_⟩
  · rw [taken.pending, List.map_append, List.map_singleton, unfinishedWrites_append, tallied.pending]
    split
    · rfl
    · rw [List.map_append, List.flatten_append, List.map_singleton, List.flatten_singleton]
  · have earlier := tallied.returned filp
    rw [returnedThrough] at earlier
    rw [returnedThrough, shareOf_append, earlier, List.map_append, List.map_singleton,
      bytesThrough_append, bytesThrough, bytesThrough, shareOf_singleton, shareOf_singleton,
      taken.retval]
    push_cast
    rfl
  · have settled := settles attributed.earlier
    cases finished : finishes call with
    | false => exact taken.settled_open finished settled
    | true => exact (taken.settled_iff finished tallied.pending attributed.earlier settled).mpr attributed

/-- With nothing pending, every byte that came through a file belongs to a finished command. -/
theorem Tallied.settled_iff {start : DriverState} {past : List (Call × Reply)} {memory : Memory}
    (tallied : Tallied past memory) (nothing : memory.entry.size = 0) :
    (∀ filp, (memory.fPos filp).toInt = (start.fPos filp).toInt + returnedThrough filp past) ↔
      Settled start (past.map Prod.fst) memory := by
  have empty : ((unfinishedWrites (past.map Prod.fst)).map chunk).flatten = [] := by
    rw [← tallied.pending, ← List.length_eq_zero_iff, tallied.clean.length_pending, nothing]
    rfl
  have none : ∀ filp, bytesThrough filp (unfinishedWrites (past.map Prod.fst)) = 0 := by
    intro filp
    refine shareOf_eq_zero fun call member _ => ?_
    have nil := List.flatten_eq_nil_iff.mp empty _ (List.mem_map_of_mem member)
    rw [chunkSize, nil, List.length_nil]
  have split : ∀ filp, returnedThrough filp past =
      bytesThrough filp (finishedCommands (past.map Prod.fst)).flatten := by
    intro filp
    have whole := @cut_flatten _ finishes (past.map Prod.fst)
    rw [tallied.returned filp, ← whole, bytesThrough_append]
    change ((_ + bytesThrough filp (unfinishedWrites (past.map Prod.fst)) : Nat) : Int) = _
    rw [none filp, Nat.add_zero, whole]
    rfl
  exact forall_congr' fun filp => by rw [split filp]

/-- Whatever open files write in whatever order, from a device with nothing pending:
whenever nothing is pending, every position has advanced by what its own writes returned,
if and only if each finished command came through one file alone, with room behind its
position. -/
theorem positions_advance_iff {start state : DriverState} {trace : List (Call × Reply)}
    (begins : driver.Reachable aesdInitModule start) (nothing : start.dev.entry.size = 0)
    (run : driver.Run start trace state) (written : driver.EachStep start trace Wrote) :
    driver.Throughout start trace (fun past state => state.dev.entry.size = 0 → ∀ filp,
        (state.fPos filp).toInt = (start.fPos filp).toInt + returnedThrough filp past) ↔
      Attributed start (trace.map Prod.fst) := by
  have empty : start.memory.pending = [] := by
    have size : start.memory.entry.size = 0 := nothing
    simp [Memory.pending, Memory.contents, size]
  have clean : start.memory.Clean :=
    ⟨reachable_valid begins, .inl nothing, by simp [empty]⟩
  have attributed : driver.Throughout start trace
      (fun past _ => Attributed start (past.map Prod.fst)) ↔ Attributed start (trace.map Prod.fst) := by
    constructor
    · exact fun throughout => throughout trace state (List.prefix_refl _) run
    · rintro whole past middle ⟨later, rfl⟩ _
      rw [List.map_append] at whole
      exact whole.earlier
  rw [← attributed]
  refine run.throughout_iff ?_ ?_
  · refine iff_of_true (fun _ _ => (Int.add_zero _).symm) ⟨?_, fun filp => ?_⟩
    · rintro command ⟨⟩
    · have high := (start.fPos filp).toInt_lt
      simpa [finishedCommands, cut, bytesThrough, shareOf] using high
  · intro past before call reply after inside passed stepped _ sofar
    have earlier : driver.EachStep start past Wrote := by
      obtain ⟨later, rfl⟩ := inside
      exact written.earlier.earlier
    obtain ⟨tallied, settles⟩ := run_tallied clean empty passed earlier
    have settled := settles sofar
    obtain ⟨⟨buf, operation⟩, success⟩ := written past call reply before after inside passed stepped
    have talliedAfter := (run_tallied clean empty (passed.next stepped)
      fun past' call' reply' before' after' inside' =>
        written past' call' reply' before' after' (inside'.trans inside)).1
    obtain ⟨sameReply, sameMemory⟩ := driver_step stepped
    rw [sameReply] at success
    have taken := tallied.clean.effect_taken operation success
    cases finished : finishes call with
    | false =>
      refine iff_of_true (fun size => (talliedAfter.settled_iff size).mpr ?_) ?_
      · rw [List.map_append, sameMemory]
        exact taken.settled_open finished settled
      · rw [List.map_append]
        exact (attributed_append_open finished).mpr sofar
    | true =>
      have size : after.dev.entry.size = 0 := by
        have length := talliedAfter.clean.length_pending
        rw [sameMemory, taken.pending, if_pos finished, ← sameMemory] at length
        exact UInt64.toNat_inj.mp length.symm
      refine (imp_iff_right size).trans ((talliedAfter.settled_iff size).trans ?_)
      rw [List.map_append, sameMemory]
      exact taken.settled_iff finished tallied.pending sofar settled

/-- One command in two writes of one file, and one of another file. -/
def twoWriters : List Call :=
  [⟨0, .smooth, .write (.bytes [101] (by decide))⟩,
   ⟨0, .smooth, .write (.bytes [102, newline] (by decide))⟩,
   ⟨1, .smooth, .write (.bytes [103, newline] (by decide))⟩]

private theorem write_wrote {start state : DriverState} {filp : Nat} {services : Services}
    {buf : UserBuffer} {reply : Reply} (success : 0 ≤ reply.retval.toInt) :
    Wrote start ⟨filp, services, .write buf⟩ reply state := ⟨⟨buf, rfl⟩, success⟩

theorem twoWriters_advance :
    driver.Throughout aesdInitModule (replayTrace aesdInitModule twoWriters)
      (fun past state => state.dev.entry.size = 0 → ∀ filp,
        (state.fPos filp).toInt = (aesdInitModule.fPos filp).toInt + returnedThrough filp past) := by
  refine (positions_advance_iff ⟨[], .start⟩ rfl (replay_run aesdInitModule twoWriters) ?_).mpr ?_
  · exact Machine.eachStep_cons rfl (write_wrote (by decide)) (Machine.eachStep_cons rfl
      (write_wrote (by decide)) (Machine.eachStep_cons rfl (write_wrote (by decide))
        Machine.eachStep_nil))
  · have commands : finishedCommands ((replayTrace aesdInitModule twoWriters).map Prod.fst) =
        [twoWriters.take 2, twoWriters.drop 2] := rfl
    refine ⟨?_, fun filp => ?_⟩
    · intro command member first firstInside second secondInside _ _
      rw [commands] at member
      obtain rfl | rfl : command = twoWriters.take 2 ∨ command = twoWriters.drop 2 := by
        simpa using member
      · have own : ∀ call ∈ twoWriters.take 2, call.filp = 0 := by simp [twoWriters]
        rw [own first firstInside, own second secondInside]
      · have own : ∀ call ∈ twoWriters.drop 2, call.filp = 1 := by simp [twoWriters]
        rw [own first firstInside, own second secondInside]
    · have most : bytesThrough filp twoWriters ≤ 5 := shareOf_le_sum twoWriters
      have zero : (aesdInitModule.fPos filp).toInt = 0 := rfl
      rw [commands]
      change _ + (bytesThrough filp twoWriters : Int) < _
      omega

/-- Two files write one command together. -/
def mixedCommand : List Call :=
  [⟨0, .smooth, .write (.bytes [101] (by decide))⟩,
   ⟨1, .smooth, .write (.bytes [102, newline] (by decide))⟩]

theorem mixedCommand_misattributed : ¬ ∀ start trace state,
    driver.Reachable aesdInitModule start → start.dev.entry.size = 0 →
      driver.Run start trace state → driver.EachStep start trace Wrote →
        state.dev.entry.size = 0 → ∀ filp,
          (state.fPos filp).toInt = (start.fPos filp).toInt + returnedThrough filp trace := by
  intro always
  have exact := always aesdInitModule _ _ ⟨[], .start⟩ rfl (replay_run aesdInitModule mixedCommand)
    (Machine.eachStep_cons rfl (write_wrote (by decide)) (Machine.eachStep_cons rfl
      (write_wrote (by decide)) Machine.eachStep_nil)) (by decide) 0
  exact absurd exact (by decide)

end Aesd.Driver
