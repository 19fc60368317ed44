import Aesd.Server.Buffers

namespace Aesd.Server

open Aesd.Library Aesd.Driver

/-- How far a turn is with its buffers. -/
inductive Stage where
  | between
  | receiving
  | replying
  | released
deriving DecidableEq, Repr

def Pc.stage : Pc → Stage
  | .callocRecv => .between
  | .read | .send | .close false | .unlock false => .replying
  | .unlockExit | .returned => .released
  | _ => .receiving

/-- The blocks that the two buffer pointers lead to. -/
def Thread.owned (thread : Thread) : List Nat :=
  (thread.recvBuffer.map Pointer.block).toList ++ (thread.sendBuffer.map Pointer.block).toList

/-- At most two blocks are allocated, and none once the handler has returned. -/
structure NoLeak (thread : Thread) : Prop where
  few : thread.heap.blocks.length ≤ 2
  freed : thread.pc = .returned → thread.heap.blocks = []

/-- Another turn begins over the buffers of the last one, or an error exit frees the
pointer that a seek command has moved. -/
def Leaks (thread : Thread) (event : Event) : Prop :=
  (event.pc = .callocRecv ∧ thread.recvBuffer ≠ none) ∨ MisfreesSeek thread event

/-- As long as nothing leaks, every live block is one of the buffers. -/
structure Accounted (thread : Thread) : Prop where
  owned : ∀ block, thread.heap.live block → block ∈ thread.owned
  between : thread.pc.stage = .between →
    thread.recvBuffer.isSome = thread.sendBuffer.isSome
  receiving : thread.pc.stage = .receiving →
    thread.recvBuffer.isSome = true ∧ thread.sendBuffer = none
  replying : thread.pc.stage = .replying →
    thread.recvBuffer.isSome = true ∧ thread.sendBuffer.isSome = true
  released : thread.pc.stage = .released → thread.heap.blocks = []

section Released

variable {thread : Thread}

/-- What `freeBuffers` leaves: a receive pointer that was moved frees nothing. -/
theorem freeBuffers_live (owns : OwnsBuffers thread.heap thread.recvBuffer thread.sendBuffer)
    {block : Nat} : thread.freeBuffers.heap.live block ↔ thread.heap.live block ∧
      (∀ pointer, thread.recvBuffer = some pointer → pointer.offset = 0 → pointer.block ≠ block) ∧
      ∀ pointer, thread.sendBuffer = some pointer → pointer.block ≠ block := by
  cases recv : thread.recvBuffer with
  | none =>
    cases send : thread.sendBuffer with
    | none => simp [Thread.freeBuffers, recv, send]
    | some second =>
      have start := (owns.sendLive second send).2
      simp [Thread.freeBuffers, recv, send, Heap.free_live, start]
  | some first =>
    cases send : thread.sendBuffer with
    | none => simp [Thread.freeBuffers, recv, send, Heap.free_live]
    | some second =>
      have start := (owns.sendLive second send).2
      simp [Thread.freeBuffers, recv, send, Heap.free_live, start, and_assoc]

theorem freeBuffers_blocks (owns : OwnsBuffers thread.heap thread.recvBuffer thread.sendBuffer)
    (owned : ∀ block, thread.heap.live block → block ∈ thread.owned)
    (start : ∀ pointer, thread.recvBuffer = some pointer → pointer.offset = 0) :
    thread.freeBuffers.heap.blocks = [] := by
  refine List.eq_nil_iff_forall_not_mem.mpr fun block member => ?_
  obtain ⟨present, notRecv, notSend⟩ := (freeBuffers_live owns).mp (Heap.mem_blocks.mp member)
  rcases List.mem_append.mp (owned block present) with recv | send
  · simp only [Option.mem_toList, Option.map_eq_some_iff] at recv
    obtain ⟨pointer, pointed, same⟩ := recv
    exact notRecv pointer pointed (start pointer pointed) same
  · simp only [Option.mem_toList, Option.map_eq_some_iff] at send
    obtain ⟨pointer, pointed, same⟩ := send
    exact notSend pointer pointed same

end Released

namespace Accounted

variable {thread after : Thread} {event : Event} {call : Syscall}

theorem start : Accounted Thread.start :=
  ⟨fun _ present => absurd present Bool.false_ne_true, fun _ => rfl, by rintro ⟨⟩,
    by rintro ⟨⟩, by rintro ⟨⟩⟩

theorem length_owned_le (thread : Thread) : thread.owned.length ≤ 2 := by
  unfold Thread.owned
  cases thread.recvBuffer <;> cases thread.sendBuffer <;> simp

theorem noLeak (accounted : Accounted thread) : NoLeak thread where
  few := Nat.le_trans (Heap.length_blocks_le accounted.owned) (length_owned_le thread)
  freed := fun returned => accounted.released (by rw [returned]; rfl)

theorem moved (accounted : Accounted thread)
    (live : ∀ block, after.heap.live block → thread.heap.live block)
    (recv : after.recvBuffer.map Pointer.block = thread.recvBuffer.map Pointer.block)
    (send : after.sendBuffer = thread.sendBuffer) (stage : after.pc.stage = thread.pc.stage)
    (holding : thread.pc.stage ≠ .released) : Accounted after := by
  have isSome : after.recvBuffer.isSome = thread.recvBuffer.isSome := by
    rw [← Option.isSome_map (f := Pointer.block), recv, Option.isSome_map]
  constructor
  · intro block present
    rw [Thread.owned, recv, send]
    exact accounted.owned block (live block present)
  all_goals rw [stage]
  · rw [isSome, send]
    exact accounted.between
  · rw [isSome, send]
    exact accounted.receiving
  · rw [isSome, send]
    exact accounted.replying
  · exact fun gone => absurd gone holding

theorem gone (empty : after.heap.blocks = []) (stage : after.pc.stage = .released) :
    Accounted after := by
  constructor
  · intro block present
    rw [← Heap.mem_blocks, empty] at present
    exact absurd present List.not_mem_nil
  all_goals rw [stage]
  · rintro ⟨⟩
  · rintro ⟨⟩
  · rintro ⟨⟩
  · exact fun _ => empty

/-- An exit through `freeBuffers` leaves nothing if it frees no moved pointer. -/
theorem exit (accounted : Accounted thread) (buffers : Buffers thread)
    (taken : thread.step event = some (call, after)) (tidy : ¬ MisfreesSeek thread event)
    (heap : after.heap = thread.freeBuffers.heap) (stage : after.pc.stage = .released) :
    Accounted after := by
  have sound := (buffers.step_sound_iff taken).mpr tidy
  rw [heap, sound_freeBuffers_iff buffers.owns] at sound
  exact gone (heap ▸ freeBuffers_blocks buffers.owns accounted.owned sound) stage

theorem put_live {pointer : Option Pointer} {position : Nat} {bytes : List Byte} {block : Nat} :
    (thread.put pointer position bytes).live block ↔ thread.heap.live block := by
  unfold Thread.put
  split
  · rfl
  · exact Heap.store_live

/-- Everything up to the reply keeps the stage. -/
theorem scan_stage (thread : Thread) : thread.scan.pc.stage = .receiving := by
  unfold Thread.scan
  dsimp only
  split <;> rfl

theorem scan (accounted : Accounted thread) (stage : thread.pc.stage = .receiving) :
    Accounted thread.scan := by
  refine accounted.moved (fun block present => ?_) rfl rfl ?_ (by rw [stage]; rintro ⟨⟩)
  · exact (@put_live thread thread.recvBuffer _ _ block).mp present
  · rw [scan_stage, stage]

theorem receive (accounted : Accounted thread) (receiving : thread.pc = .recv)
    (data : List Byte) : Accounted (thread.receive data) := by
  have stage : thread.pc.stage = .receiving := by rw [receiving]; rfl
  simp only [Thread.receive]
  split
  · exact accounted.moved (fun _ => put_live.mp) rfl rfl stage.symm (by rw [stage]; rintro ⟨⟩)
  · refine Accounted.scan ?_ stage
    exact accounted.moved (fun _ => put_live.mp) rfl rfl rfl (by rw [stage]; rintro ⟨⟩)

/-- The block that `realloc` leaves is exchanged for the one it returns. -/
theorem grow (accounted : Accounted thread) (reallocating : thread.pc = .realloc)
    (fresh : List Byte) : Accounted (thread.grow fresh) := by
  have stage : thread.pc.stage = .receiving := by rw [reallocating]; rfl
  obtain ⟨isSome, unsent⟩ := accounted.receiving stage
  obtain ⟨old, pointed⟩ := Option.isSome_iff_exists.mp isSome
  have shape : thread.grow fresh = ({ thread with
      heap := (thread.heap.alloc (thread.heap.bytes old.block ++ fresh)).2.discard old.block
      recvBuffer := some ⟨thread.heap.next, 0⟩ } : Thread).scan := by
    unfold Thread.grow
    rw [pointed]
    rfl
  have exchanged : Accounted ({ thread with
      heap := (thread.heap.alloc (thread.heap.bytes old.block ++ fresh)).2.discard old.block
      recvBuffer := some ⟨thread.heap.next, 0⟩ } : Thread) := by
    constructor
    · intro block present
      obtain ⟨other, allocated⟩ := Heap.discard_live.mp present
      rcases Heap.alloc_live.mp allocated with rfl | earlier
      · simp [Thread.owned]
      · have owned := accounted.owned block earlier
        rw [Thread.owned, pointed, unsent] at owned
        exact absurd (List.mem_singleton.mp owned) other
    all_goals dsimp only
    all_goals rw [stage]
    · rintro ⟨⟩
    · exact fun _ => ⟨rfl, unsent⟩
    · rintro ⟨⟩
    · rintro ⟨⟩
  rw [shape]
  exact exchanged.scan stage

theorem dispatch (accounted : Accounted thread) (opening : thread.pc = .openDevice) :
    Accounted thread.dispatch := by
  have stage : thread.pc.stage = .receiving := by rw [opening]; rfl
  have advanced : thread.advance.recvBuffer.map Pointer.block =
      thread.recvBuffer.map Pointer.block := by
    rw [Thread.advance, Option.map_map]
    rfl
  unfold Thread.dispatch
  split
  · split
    · exact accounted.moved (fun _ => id) advanced rfl stage.symm (by rw [stage]; rintro ⟨⟩)
    · exact accounted.moved (fun _ => id) advanced rfl stage.symm (by rw [stage]; rintro ⟨⟩)
  · exact accounted.moved (fun _ => id) rfl rfl stage.symm (by rw [stage]; rintro ⟨⟩)

theorem chooseOffset (accounted : Accounted thread) (stage : thread.pc.stage = .receiving) :
    Accounted thread.chooseOffset := by
  unfold Thread.chooseOffset
  split
  · exact accounted.moved (fun _ => id) rfl rfl stage.symm (by rw [stage]; rintro ⟨⟩)
  · exact accounted.moved (fun _ => id) rfl rfl stage.symm (by rw [stage]; rintro ⟨⟩)

theorem callocRecv (accounted : Accounted thread) (waiting : thread.pc = .callocRecv)
    (unused : thread.recvBuffer = none) :
    thread.sendBuffer = none ∧ ∀ block, ¬ thread.heap.live block := by
  have same := accounted.between (by rw [waiting]; rfl)
  rw [unused] at same
  have unsent := Option.isSome_eq_false_iff.mp same.symm
  rw [Option.isNone_iff_eq_none] at unsent
  refine ⟨unsent, fun block present => ?_⟩
  have owned := accounted.owned block present
  rw [Thread.owned, unused, unsent] at owned
  exact absurd owned List.not_mem_nil

/-- Every step that leaks nothing keeps the account. -/
theorem step (accounted : Accounted thread) (buffers : Buffers thread)
    (taken : thread.step event = some (call, after)) (tidy : ¬ Leaks thread event) :
    Accounted after := by
  obtain ⟨waiting, resumes⟩ := Thread.step_cases taken
  have exits := accounted.exit buffers taken fun misfrees => tidy (.inr misfrees)
  have unused : event.pc = .callocRecv → thread.recvBuffer = none := by
    intro again
    by_contra used
    exact tidy (.inl ⟨again, used⟩)
  cases resumes with
  | callocRecvFails =>
    refine exits ?_ rfl
    simp [Thread.giveUp, Thread.freeBuffers, unused rfl]
  | callocRecv =>
    obtain ⟨unsent, empty⟩ := accounted.callocRecv waiting (unused rfl)
    constructor
    · intro block present
      rcases Heap.alloc_live.mp present with rfl | earlier
      · simp [Thread.owned]
      · exact absurd earlier (empty block)
    · rintro ⟨⟩
    · exact fun _ => ⟨rfl, unsent⟩
    · rintro ⟨⟩
    · rintro ⟨⟩
  | exits | recvFails | reallocFails | writeFails | readFails | sendFails | unlockFailed =>
    exact exits rfl rfl
  | recv fits => exact accounted.receive waiting _
  | realloc possible total => exact accounted.grow waiting _
  | openDevice => exact accounted.dispatch waiting
  | ioctl | write => exact accounted.chooseOffset (by rw [waiting]; rfl)
  | callocSendFails =>
    obtain ⟨_, unsent⟩ := accounted.receiving (by rw [waiting]; rfl)
    refine exits ?_ rfl
    simp [Thread.giveUp, Thread.freeBuffers, unsent]
  | callocSend possible =>
    obtain ⟨isSome, unsent⟩ := accounted.receiving (by rw [waiting]; rfl)
    constructor
    · intro block present
      rcases Heap.alloc_live.mp present with rfl | earlier
      · simp [Thread.owned]
      · have owned := accounted.owned block earlier
        rw [Thread.owned, unsent] at owned
        exact List.mem_append_left _ (by simpa using owned)
    · rintro ⟨⟩
    · rintro ⟨⟩
    · exact fun _ => ⟨isSome, rfl⟩
    · rintro ⟨⟩
  | readEnds | read =>
    exact accounted.moved (fun _ => put_live.mp) rfl rfl (by rw [waiting]; rfl)
      (by rw [waiting]; rintro ⟨⟩)
  | @close failed =>
    refine accounted.moved (fun _ => id) rfl rfl ?_ ?_
    · rw [waiting]
      cases failed <;> rfl
    · rw [waiting]
      cases failed <;> rintro ⟨⟩
  | unlock =>
    obtain ⟨recv, send⟩ := accounted.replying (by rw [waiting]; rfl)
    exact ⟨accounted.owned, fun _ => recv.trans send.symm, by rintro ⟨⟩, by rintro ⟨⟩, by rintro ⟨⟩⟩
  | unlockExit => exact gone (accounted.released (by rw [waiting]; rfl)) rfl
  | _ =>
    exact accounted.moved (fun _ => id) rfl rfl (by rw [waiting]; rfl)
      (by rw [waiting]; rintro ⟨⟩)

/-- A turn that begins over the buffers of the last one leaves a third block, or
returns with the first one. -/
theorem leak_of_again (accounted : Accounted thread) (buffers : Buffers thread)
    (taken : thread.step event = some (call, after)) (again : event.pc = .callocRecv)
    (used : thread.recvBuffer ≠ none) : ¬ NoLeak after := by
  obtain ⟨waiting, _, resumed⟩ := Thread.step_eq_some_iff.mp taken
  obtain ⟨first, recv⟩ := Option.ne_none_iff_exists'.mp used
  have same := accounted.between (by rw [waiting, again]; rfl)
  rw [recv] at same
  obtain ⟨second, send⟩ := Option.isSome_iff_exists.mp same.symm
  have firstLive := buffers.owns.recvLive first recv
  have secondLive := (buffers.owns.sendLive second send).1
  have different := buffers.owns.distinct first second recv send
  rintro ⟨few, freed⟩
  cases event with
  | callocRecv succeeds =>
    cases succeeds with
    | true =>
      obtain rfl := Option.some.inj resumed
      have distinct : [thread.heap.next, first.block, second.block].Nodup := by
        have firstOld := Heap.live_lt_next firstLive
        have secondOld := Heap.live_lt_next secondLive
        simp only [List.nodup_cons, List.mem_cons, List.not_mem_nil, or_false, not_or,
          not_false_eq_true, List.nodup_nil, and_true]
        omega
      have present : ∀ block ∈ [thread.heap.next, first.block, second.block],
          (thread.heap.alloc (List.replicate (sizeT kBufferStartLength) 0)).2.live block := by
        intro block member
        simp only [List.mem_cons, List.not_mem_nil, or_false] at member
        rcases member with rfl | rfl | rfl
        · exact Heap.alloc_live.mpr (.inl rfl)
        · exact Heap.alloc_live.mpr (.inr firstLive)
        · exact Heap.alloc_live.mpr (.inr secondLive)
      have three := Nat.le_trans (Heap.le_length_blocks distinct present) few
      exact absurd three (by simp)
    | false =>
      obtain rfl := Option.some.inj resumed
      have stays : ({ thread with recvBuffer := none } : Thread).freeBuffers.heap.live first.block := by
        refine (@freeBuffers_live { thread with recvBuffer := none } buffers.owns.drop_recv _).mpr
          ⟨firstLive, nofun, fun pointer pointed => ?_⟩
        obtain rfl := Option.some.inj (send.symm.trans pointed)
        exact different.symm
      rw [← Heap.mem_blocks] at stays
      have empty := freed rfl
      rw [Thread.giveUp] at empty
      rw [empty] at stays
      exact absurd stays List.not_mem_nil
  | _ => cases again

theorem exit_heap (accounted : Accounted thread)
    (taken : thread.step event = some (call, after))
    (exits : event = .unlock true ∨ event = .callocSend false ∨ event = .read none ∨
      event = .send none) :
    thread.pc.dispatched = true ∧ after.heap = thread.freeBuffers.heap ∧ after.pc = .returned := by
  obtain ⟨waiting, _, resumed⟩ := Thread.step_eq_some_iff.mp taken
  rw [waiting]
  rcases exits with rfl | rfl | rfl | rfl
  · obtain rfl := Option.some.inj resumed
    exact ⟨rfl, rfl, rfl⟩
  · obtain rfl := Option.some.inj resumed
    have unsent := (accounted.receiving (by rw [waiting]; rfl)).2
    exact ⟨rfl, by simp [Thread.giveUp, Thread.freeBuffers, unsent], rfl⟩
  · obtain rfl := Option.some.inj resumed
    exact ⟨rfl, rfl, rfl⟩
  · obtain rfl := Option.some.inj resumed
    exact ⟨rfl, rfl, rfl⟩

/-- An exit that frees the moved pointer leaves the receive buffer. -/
theorem leak_of_misfree (accounted : Accounted thread) (buffers : Buffers thread)
    (taken : thread.step event = some (call, after)) (misfrees : MisfreesSeek thread event) :
    ¬ NoLeak after := by
  obtain ⟨isSeek, exits⟩ := misfrees
  obtain ⟨dispatched, heap, returned⟩ := accounted.exit_heap taken exits
  rintro ⟨_, freed⟩
  cases recv : thread.recvBuffer with
  | none =>
    rw [Thread.message, recv] at isSeek
    cases isSeek
  | some first =>
    have moved := (buffers.advanced dispatched first recv).mpr isSeek
    have stays : thread.freeBuffers.heap.live first.block := by
      refine (freeBuffers_live buffers.owns).mpr ⟨buffers.owns.recvLive first recv, ?_, ?_⟩
      · intro pointer pointed start
        obtain rfl := Option.some.inj (recv.symm.trans pointed)
        exact absurd start moved
      · exact fun pointer pointed => (buffers.owns.distinct first pointer recv pointed).symm
    rw [← Heap.mem_blocks, ← heap, freed returned] at stays
    exact absurd stays List.not_mem_nil

end Accounted

/-- In a run, at most two blocks are allocated in every state and none once the handler
has returned, exactly when no step leaks: only the first turn allocates a receive
buffer, and no error exit frees the pointer that a seek command has moved. -/
theorem blocks_freed_iff {trace : List (Event × Syscall)} {thread : Thread}
    (run : process.Run Thread.start trace thread) :
    process.Along Thread.start trace NoLeak ↔
      process.EachStep Thread.start trace fun before event _ _ => ¬ Leaks before event := by
  have known : process.EachStep Thread.start trace fun before _ _ _ =>
      before.pc.holdsBuffers = true → Buffers before :=
    fun past event call before after _ passed _ => run_buffers passed
  have step : ∀ before event call after, (before.pc.holdsBuffers = true → Buffers before) →
      ¬ Leaks before event → Accounted before → process.step before event = some (call, after) →
        Accounted after := by
    intro before event call after buffers tidy accounted taken
    cases holding : before.pc.holdsBuffers with
    | true => exact accounted.step (buffers holding) taken tidy
    | false =>
      obtain ⟨waiting, _, resumed⟩ := Thread.step_eq_some_iff.mp taken
      obtain ⟨_, rfl, _⟩ := step_after_release taken holding
      obtain rfl := Option.some.inj resumed
      exact .gone (accounted.released (by rw [waiting]; rfl)) rfl
  refine run.along_iff_of_invariant Accounted.start Accounted.start.noLeak known step ?_
  intro before event call after buffers accounted taken
  constructor
  · rintro noLeak (⟨again, used⟩ | misfrees)
    · refine accounted.leak_of_again (buffers ?_) taken again used noLeak
      rw [(Thread.step_eq_some_iff.mp taken).1, again]
      rfl
    · refine accounted.leak_of_misfree (buffers ?_) taken misfrees noLeak
      rw [(Thread.step_eq_some_iff.mp taken).1]
      rcases misfrees.2 with rfl | rfl | rfl | rfl <;> rfl
  · exact fun tidy => (step before event call after buffers tidy accounted taken).noLeak

/-- One line is answered, and the client is gone at the end of its reply. -/
def oneLine : List Event :=
  [.callocRecv true, .checkExit false, .recv (some [120, newline]), .lock, .openDevice (some 3),
   .write (some 2), .lseekEnd 2, .lseekSet 0, .callocSend true, .read (some [120, newline]),
   .send none]

theorem oneLine_freed : ∃ trace thread, process.exec Thread.start oneLine = some (trace, thread) ∧
    process.Along Thread.start trace NoLeak := by
  have runs : (process.exec Thread.start oneLine).isSome = true := by decide
  have tested : process.every (fun before event _ =>
      !(event.pc == .callocRecv && before.recvBuffer.isSome) &&
        !kIOCtrlStr.isPrefixOf before.message) Thread.start oneLine = true := by decide
  obtain ⟨⟨trace, thread⟩, computed⟩ := Option.isSome_iff_exists.mp runs
  refine ⟨trace, thread, computed, (blocks_freed_iff (.of_exec computed)).mpr ?_⟩
  have each := Machine.eachStep_of_every _ computed tested
  intro past event call before after inside passed taken
  have fine := each past event call before after inside passed taken
  simp only [Bool.and_eq_true, Bool.not_eq_true', Bool.and_eq_false_iff, beq_eq_false_iff_ne,
    Option.isSome_eq_false_iff, Option.isNone_iff_eq_none] at fine
  rintro (⟨again, used⟩ | ⟨isSeek, _⟩)
  · exact fine.1.elim (fun other => other again) used
  · rw [fine.2] at isSeek
    cases isSeek

/-- A line is answered, and the next turn begins. -/
def twoTurns : List Event :=
  [.callocRecv true, .checkExit false, .recv (some [120, newline]), .lock, .openDevice (some 3),
   .write (some 2), .lseekEnd 2, .lseekSet 0, .callocSend true, .read (some [120, newline]),
   .send (some 2), .read (some []), .close false, .unlock false, .callocRecv true]

theorem twoTurns_leak : ¬ ∀ trace thread, process.Run Thread.start trace thread → NoLeak thread := by
  intro always
  have runs : ((process.exec Thread.start twoTurns).any fun result =>
      result.2.heap.blocks.length == 3) = true := by decide
  obtain ⟨⟨trace, thread⟩, computed, three⟩ := (Option.any_eq_true _ _).mp runs
  have few := (always trace thread (.of_exec computed)).few
  rw [eq_of_beq three] at few
  exact absurd few (by decide)

end Aesd.Server
