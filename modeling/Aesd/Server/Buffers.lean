import Aesd.Server.ControlFlow

namespace Aesd.Server

open Aesd.Library Aesd.Driver

/-- Places before the seek parser moves the receive pointer, or where it was passed by. -/
def Pc.atStart : Pc → Bool
  | .checkExit | .recv | .realloc | .lock | .openDevice | .write => true
  | _ => false

/-- Places after the choice between seek and write, up to the end of the turn. -/
def Pc.dispatched : Pc → Bool
  | .ioctl | .write | .lseekCur | .lseekEnd | .lseekSet | .callocSend | .read | .send
  | .close _ | .unlock _ => true
  | _ => false

/-- Places before the buffers are released. -/
def Pc.holdsBuffers : Pc → Bool
  | .unlockExit | .returned => false
  | _ => true

/-- The string that begins where the receive block begins. -/
def Thread.message (thread : Thread) : List Byte :=
  match thread.recvBuffer with
  | none => []
  | some pointer => cString (thread.heap.bytes pointer.block)

/-- Both buffers lie in live blocks of their own, and nothing was released yet. -/
structure OwnsBuffers (heap : Heap Byte) (recvBuffer sendBuffer : Option Pointer) : Prop where
  silent : heap.releases = []
  recvLive : ∀ pointer, recvBuffer = some pointer → heap.live pointer.block
  sendLive : ∀ pointer, sendBuffer = some pointer → heap.live pointer.block ∧ pointer.offset = 0
  distinct : ∀ first second, recvBuffer = some first → sendBuffer = some second →
    first.block ≠ second.block

/-- The invariant of a thread that still has its buffers. -/
structure Buffers (thread : Thread) : Prop where
  owns : OwnsBuffers thread.heap thread.recvBuffer thread.sendBuffer
  atStart : thread.pc.atStart = true →
    ∀ pointer, thread.recvBuffer = some pointer → pointer.offset = 0
  advanced : thread.pc.dispatched = true →
    ∀ pointer, thread.recvBuffer = some pointer →
      (pointer.offset ≠ 0 ↔ kIOCtrlStr.isPrefixOf thread.message = true)

namespace OwnsBuffers

variable {heap : Heap Byte} {recvBuffer sendBuffer : Option Pointer}

theorem start : OwnsBuffers (.empty : Heap Byte) none none :=
  ⟨rfl, nofun, nofun, nofun⟩

theorem alloc_recv (owns : OwnsBuffers heap recvBuffer sendBuffer) (contents : List Byte) :
    OwnsBuffers (heap.alloc contents).2 (some ⟨heap.next, 0⟩) sendBuffer := by
  refine ⟨owns.silent, ?_, ?_, ?_⟩
  · rintro pointer ⟨⟩
    exact Heap.alloc_live.mpr (.inl rfl)
  · intro pointer same
    obtain ⟨present, start⟩ := owns.sendLive pointer same
    exact ⟨Heap.alloc_live.mpr (.inr present), start⟩
  · rintro first second ⟨⟩ same
    exact (Nat.ne_of_lt (Heap.live_lt_next (owns.sendLive second same).1)).symm

theorem alloc_send (owns : OwnsBuffers heap recvBuffer sendBuffer) (contents : List Byte) :
    OwnsBuffers (heap.alloc contents).2 recvBuffer (some ⟨heap.next, 0⟩) := by
  refine ⟨owns.silent, ?_, ?_, ?_⟩
  · intro pointer same
    exact Heap.alloc_live.mpr (.inr (owns.recvLive pointer same))
  · rintro pointer ⟨⟩
    exact ⟨Heap.alloc_live.mpr (.inl rfl), rfl⟩
  · rintro first second same ⟨⟩
    exact Nat.ne_of_lt (Heap.live_lt_next (owns.recvLive first same))

theorem store (owns : OwnsBuffers heap recvBuffer sendBuffer) (block : Nat)
    (contents : List Byte) : OwnsBuffers (heap.store block contents) recvBuffer sendBuffer :=
  ⟨owns.silent, fun pointer same => Heap.store_live.mpr (owns.recvLive pointer same),
    fun pointer same => (owns.sendLive pointer same).imp Heap.store_live.mpr id, owns.distinct⟩

/-- The receive block moves to a new one, as a successful `realloc` does. -/
theorem move (owns : OwnsBuffers heap recvBuffer sendBuffer) {old : Pointer}
    (pointed : recvBuffer = some old) (contents : List Byte) :
    OwnsBuffers ((heap.alloc contents).2.discard old.block) (some ⟨heap.next, 0⟩) sendBuffer := by
  have moved := owns.alloc_recv contents
  refine ⟨owns.silent, ?_, ?_, moved.distinct⟩
  · rintro pointer ⟨⟩
    refine Heap.discard_live.mpr ⟨?_, moved.recvLive _ rfl⟩
    exact (Nat.ne_of_lt (Heap.live_lt_next (owns.recvLive old pointed))).symm
  · intro pointer same
    obtain ⟨present, start⟩ := moved.sendLive pointer same
    exact ⟨Heap.discard_live.mpr ⟨(owns.distinct old pointer pointed same).symm, present⟩, start⟩

theorem drop_recv (owns : OwnsBuffers heap recvBuffer sendBuffer) :
    OwnsBuffers heap none sendBuffer :=
  ⟨owns.silent, nofun, owns.sendLive, nofun⟩

theorem drop_send (owns : OwnsBuffers heap recvBuffer sendBuffer) :
    OwnsBuffers heap recvBuffer none :=
  ⟨owns.silent, owns.recvLive, nofun, nofun⟩

theorem advance (owns : OwnsBuffers heap recvBuffer sendBuffer) (distance : Nat) :
    OwnsBuffers heap
      (recvBuffer.map fun (pointer : Pointer) => { pointer with offset := pointer.offset + distance })
      sendBuffer := by
  refine ⟨owns.silent, ?_, owns.sendLive, ?_⟩
  · intro pointer same
    obtain ⟨old, pointed, rfl⟩ := Option.map_eq_some_iff.mp same
    exact owns.recvLive old pointed
  · intro first second same other
    obtain ⟨old, pointed, rfl⟩ := Option.map_eq_some_iff.mp same
    exact owns.distinct old second pointed other

end OwnsBuffers

/-- `freeBuffers` is sound exactly when the receive pointer was not moved. -/
theorem sound_freeBuffers_iff {thread : Thread}
    (owns : OwnsBuffers thread.heap thread.recvBuffer thread.sendBuffer) :
    thread.freeBuffers.heap.Sound ↔
      ∀ pointer, thread.recvBuffer = some pointer → pointer.offset = 0 := by
  have sendAccepted : ∀ pointer, thread.sendBuffer = some pointer →
      thread.heap.accepts pointer = true := by
    intro pointer same
    exact Heap.accepts_iff.mpr (owns.sendLive pointer same).symm
  cases recv : thread.recvBuffer with
  | none =>
    refine iff_of_true ?_ nofun
    cases send : thread.sendBuffer with
    | none => exact Heap.sound_of_silent (by simp [Thread.freeBuffers, recv, send, owns.silent])
    | some second =>
      constructor <;>
        simp [Thread.freeBuffers, recv, send, Heap.free_releases, owns.silent, sendAccepted second send]
  | some first =>
    have recvAccepted : thread.heap.accepts first = true ↔ first.offset = 0 :=
      Heap.accepts_iff.trans (and_iff_left (owns.recvLive first recv))
    rw [show (∀ pointer, some first = some pointer → pointer.offset = 0) ↔ first.offset = 0 by
      simp, ← recvAccepted]
    cases send : thread.sendBuffer with
    | none =>
      have releases : thread.freeBuffers.heap.releases = [⟨first, thread.heap.accepts first⟩] := by
        simp [Thread.freeBuffers, recv, send, Heap.free_releases, owns.silent]
      constructor
      · intro sound
        exact sound.valid ⟨first, thread.heap.accepts first⟩ (by simp [releases])
      · intro valid
        constructor <;> simp [releases, valid]
    | some second =>
      have different := owns.distinct first second recv send
      have stays : (thread.heap.free first).accepts second = true := by
        have same := Heap.free_cells_of_ne thread.heap different.symm
        exact Heap.accepts_iff.mpr ⟨(owns.sendLive second send).2,
          (Heap.live_congr same).mpr (owns.sendLive second send).1⟩
      have releases : thread.freeBuffers.heap.releases =
          [⟨first, thread.heap.accepts first⟩, ⟨second, true⟩] := by
        simp [Thread.freeBuffers, recv, send, Heap.free_releases, owns.silent, stays]
      constructor
      · intro sound
        exact sound.valid ⟨first, thread.heap.accepts first⟩ (by simp [releases])
      · intro valid
        constructor <;> simp [releases, valid, different]

namespace Buffers

variable {thread : Thread}

theorem put (owns : OwnsBuffers thread.heap thread.recvBuffer thread.sendBuffer)
    (pointer : Option Pointer) (position : Nat) (bytes : List Byte) :
    OwnsBuffers (thread.put pointer position bytes) thread.recvBuffer thread.sendBuffer := by
  cases pointer with
  | none => exact owns
  | some pointer => exact owns.store _ _

theorem scan (owns : OwnsBuffers thread.heap thread.recvBuffer thread.sendBuffer)
    (start : ∀ pointer, thread.recvBuffer = some pointer → pointer.offset = 0) :
    Buffers thread.scan where
  owns := put owns _ _ _
  atStart := fun _ => start
  advanced := by
    intro dispatched
    simp only [Thread.scan] at dispatched
    split at dispatched <;> cases dispatched

theorem receive (buffers : Buffers thread) (receiving : thread.pc = .recv) (data : List Byte) :
    Buffers (thread.receive data) := by
  have start := buffers.atStart (by rw [receiving]; rfl)
  have stored := put buffers.owns thread.recvBuffer thread.bufferIndex.toInt.toNat data
  simp only [Thread.receive]
  split
  · exact ⟨stored, fun _ => start, (absurd · Bool.false_ne_true)⟩
  · exact scan stored start

theorem grow (buffers : Buffers thread) (reallocating : thread.pc = .realloc)
    (fresh : List Byte) : Buffers (thread.grow fresh) := by
  unfold Thread.grow
  split
  · refine ⟨buffers.owns, buffers.atStart, ?_⟩
    rw [reallocating]
    exact nofun
  · rename_i old pointed
    refine scan (buffers.owns.move pointed _) ?_
    rintro pointer ⟨⟩
    rfl

theorem bytesAt_recv (buffers : Buffers thread) (start : thread.pc.atStart = true) :
    thread.text = thread.message := by
  unfold Thread.text Thread.message Thread.bytesAt
  cases pointed : thread.recvBuffer with
  | none => rfl
  | some pointer =>
    have zero := buffers.atStart start pointer pointed
    simp only [zero, List.drop_zero]

/-- The choice moves the pointer exactly when the message has the prefix. -/
theorem dispatch (buffers : Buffers thread) (opening : thread.pc = .openDevice) :
    Buffers thread.dispatch := by
  have atStart : thread.pc.atStart = true := by rw [opening]; rfl
  have start := buffers.atStart atStart
  have same := buffers.bytesAt_recv atStart
  unfold Thread.dispatch
  rw [same]
  split
  · rename_i isSeek
    have owns := buffers.owns.advance kIOCtrlStr.length
    split
    · exact ⟨owns, nofun, nofun⟩
    · refine ⟨owns, nofun, fun _ pointer moved => ?_⟩
      obtain ⟨old, pointed, rfl⟩ := Option.map_eq_some_iff.mp moved
      refine iff_of_true (Nat.succ_ne_zero _) (Eq.trans ?_ isSeek)
      simp [Thread.message, Thread.advance, pointed]
  · rename_i isLine
    refine ⟨buffers.owns, fun _ => start, fun _ pointer pointed => ?_⟩
    exact iff_of_false (fun moved => moved (start pointer pointed)) isLine

theorem moved {after : Thread} (buffers : Buffers thread) (heap : after.heap = thread.heap)
    (recv : after.recvBuffer = thread.recvBuffer) (send : after.sendBuffer = thread.sendBuffer)
    (atStart : after.pc.atStart = true → thread.pc.atStart = true)
    (dispatched : after.pc.dispatched = true → thread.pc.dispatched = true) :
    Buffers after where
  owns := by
    rw [heap, recv, send]
    exact buffers.owns
  atStart := by
    rw [recv]
    exact fun start => buffers.atStart (atStart start)
  advanced := by
    have message : after.message = thread.message := by
      rw [Thread.message, recv, heap, Thread.message]
    rw [recv, message]
    exact fun later => buffers.advanced (dispatched later)

theorem chooseOffset (buffers : Buffers thread) (dispatched : thread.pc.dispatched = true) :
    Buffers thread.chooseOffset := by
  unfold Thread.chooseOffset
  split
  · exact buffers.moved rfl rfl rfl nofun fun _ => dispatched
  · exact buffers.moved rfl rfl rfl nofun fun _ => dispatched

theorem replace_heap {heap : Heap Byte} {sendBuffer : Option Pointer} (buffers : Buffers thread)
    (owns : OwnsBuffers heap thread.recvBuffer sendBuffer)
    (same : ∀ pointer, thread.recvBuffer = some pointer →
      heap.bytes pointer.block = thread.heap.bytes pointer.block) (later : thread.pc.dispatched = true)
    {after : Thread} (sameHeap : after.heap = heap) (recv : after.recvBuffer = thread.recvBuffer)
    (send : after.sendBuffer = sendBuffer) (atStart : after.pc.atStart = false) :
    Buffers after where
  owns := by
    rw [sameHeap, recv, send]
    exact owns
  atStart := by
    rw [atStart]
    exact nofun
  advanced := by
    have message : after.message = thread.message := by
      rw [Thread.message, recv, sameHeap, Thread.message]
      cases pointed : thread.recvBuffer with
      | none => rfl
      | some pointer => exact congrArg cString (same pointer pointed)
    rw [recv, message]
    exact fun _ => buffers.advanced later

theorem step {after : Thread} {event : Event} {call : Syscall} (buffers : Buffers thread)
    (taken : thread.step event = some (call, after)) (holding : after.pc.holdsBuffers = true) :
    Buffers after := by
  obtain ⟨waiting, resumes⟩ := Thread.step_cases taken
  cases resumes with
  | callocRecv =>
    refine ⟨buffers.owns.alloc_recv _, fun _ => ?_, nofun⟩
    rintro pointer ⟨⟩
    rfl
  | stays | lock => exact buffers.moved rfl rfl rfl (fun _ => by rw [waiting]; rfl) nofun
  | recv fits => exact buffers.receive waiting _
  | realloc possible total => exact buffers.grow waiting _
  | openDevice => exact buffers.dispatch waiting
  | ioctl | write => exact buffers.chooseOffset (by rw [waiting]; rfl)
  | ioctlFails | lseekCur | lseekEndFails | lseekEnd | lseekSet =>
    exact buffers.moved rfl rfl rfl nofun fun _ => by rw [waiting]; rfl
  | callocSend possible =>
    refine buffers.replace_heap (buffers.owns.alloc_send _) ?_ (by rw [waiting]; rfl) rfl rfl rfl rfl
    intro pointer pointed
    have present := buffers.owns.recvLive pointer pointed
    rw [Heap.bytes, Heap.alloc_cells_of_live _ present, Heap.bytes]
  | readEnds | read =>
    refine buffers.replace_heap (put buffers.owns thread.sendBuffer 0 _) ?_
      (by rw [waiting]; rfl) rfl rfl rfl rfl
    intro pointer pointed
    unfold Thread.put
    split
    · rfl
    · rename_i send target
      have different := buffers.owns.distinct pointer send pointed target
      rw [Heap.bytes, Heap.store_cells_of_ne _ _ different, Heap.bytes]
  | send | close =>
    exact buffers.moved rfl rfl rfl (absurd · Bool.false_ne_true) fun _ => by rw [waiting]; rfl
  | unlock =>
    exact buffers.moved rfl rfl rfl (absurd · Bool.false_ne_true)
      (absurd · Bool.false_ne_true)
  | _ => cases holding

theorem start : Buffers Thread.start :=
  ⟨OwnsBuffers.start, nofun, nofun⟩

end Buffers

/-- An error exit is taken while the receive buffer holds a seek message. -/
def MisfreesSeek (thread : Thread) (event : Event) : Prop :=
  kIOCtrlStr.isPrefixOf thread.message = true ∧
    (event = .unlock true ∨ event = .callocSend false ∨ event = .read none ∨ event = .send none)

namespace Buffers

variable {thread after : Thread} {event : Event} {call : Syscall}

/-- An exit after the choice is sound exactly when the message was a line. -/
private theorem exit_dispatched (buffers : Buffers thread) (later : thread.pc.dispatched = true) :
    thread.freeBuffers.heap.Sound ↔ ¬ kIOCtrlStr.isPrefixOf thread.message = true := by
  rw [sound_freeBuffers_iff buffers.owns]
  cases found : thread.recvBuffer with
  | none =>
    have empty : thread.message = [] := by rw [Thread.message, found]
    rw [empty]
    exact iff_of_true nofun (by decide)
  | some pointer =>
    rw [← buffers.advanced later pointer found, not_not]
    constructor
    · exact fun start => start pointer rfl
    · rintro start other ⟨⟩
      exact start

private theorem exit_atStart (buffers : Buffers thread) (start : thread.pc.atStart = true) :
    thread.freeBuffers.heap.Sound :=
  (sound_freeBuffers_iff buffers.owns).mpr (buffers.atStart start)

private theorem sound_of_holds (buffers : Buffers thread)
    (taken : thread.step event = some (call, after)) (holding : after.pc.holdsBuffers = true)
    (notUnlock : event ≠ .unlock true) (notCalloc : event ≠ .callocSend false)
    (notRead : event ≠ .read none) (notSend : event ≠ .send none) :
    after.heap.Sound ↔ ¬ MisfreesSeek thread event := by
  refine iff_of_true (Heap.sound_of_silent (buffers.step taken holding).owns.silent) ?_
  rintro ⟨_, unlock | calloc | read | send⟩
  · exact notUnlock unlock
  · exact notCalloc calloc
  · exact notRead read
  · exact notSend send

/-- One step stays sound exactly when it is no error exit with a seek message. -/
theorem step_sound_iff (buffers : Buffers thread)
    (taken : thread.step event = some (call, after)) :
    after.heap.Sound ↔ ¬ MisfreesSeek thread event := by
  obtain ⟨waiting, resumes⟩ := Thread.step_cases taken
  have kept := fun holding => buffers.sound_of_holds taken holding
  cases resumes with
  | callocRecvFails =>
    have sound := (@sound_freeBuffers_iff { thread with recvBuffer := none }
      buffers.owns.drop_recv).mpr nofun
    exact iff_of_true sound (by simp [MisfreesSeek])
  | exits | recvFails | reallocFails | writeFails =>
    have sound := buffers.exit_atStart (by rw [waiting]; rfl)
    exact iff_of_true sound (by simp [MisfreesSeek])
  | callocSendFails =>
    have later : thread.pc.dispatched = true := by rw [waiting]; rfl
    have dropped : Buffers { thread with sendBuffer := none } :=
      buffers.replace_heap buffers.owns.drop_send (fun _ _ => rfl) later rfl rfl rfl
        (by rw [waiting]; rfl)
    exact (dropped.exit_dispatched later).trans (by simp [MisfreesSeek, Thread.message])
  | readFails | sendFails | unlockFailed =>
    exact (buffers.exit_dispatched (by rw [waiting]; rfl)).trans (by simp [MisfreesSeek])
  | unlockExit =>
    exact iff_of_true (Heap.sound_of_silent buffers.owns.silent) (by simp [MisfreesSeek])
  | recv | realloc | openDevice | ioctl | write =>
    exact kept (Thread.holds_of_next taken rfl) nofun nofun nofun nofun
  | callocSend | readEnds | read | send | unlock =>
    exact kept rfl (by simp) (by simp) (by simp) (by simp)
  | _ => exact kept rfl nofun nofun nofun nofun

end Buffers

/-- Once the buffers are gone, nothing more happens to the heap. -/
theorem step_after_release {thread after : Thread} {event : Event} {call : Syscall}
    (taken : thread.step event = some (call, after)) (gone : thread.pc.holdsBuffers = false) :
    after.heap = thread.heap ∧ event = .unlockExit ∧ after.pc.holdsBuffers = false := by
  obtain ⟨waiting, _, resumed⟩ := Thread.step_eq_some_iff.mp taken
  rw [waiting] at gone
  cases event with
  | unlockExit =>
    obtain rfl := Option.some.inj resumed
    exact ⟨rfl, rfl, rfl⟩
  | _ => cases gone

theorem run_buffers {trace : List (Event × Syscall)} {thread : Thread}
    (run : process.Run Thread.start trace thread) (holding : thread.pc.holdsBuffers = true) :
    Buffers thread := by
  refine run.invariant (fun thread => thread.pc.holdsBuffers = true → Buffers thread)
    (fun _ => Buffers.start) ?_ holding
  intro thread event call after known taken later
  cases before : thread.pc.holdsBuffers with
  | true => exact (known before).step taken later
  | false =>
    rw [(step_after_release taken before).2.2] at later
    cases later

/-- In a run, every pointer passed to `free` is the start of a block that is still
allocated, and none is passed twice, exactly when no step misfrees a seek buffer. -/
theorem releases_sound_iff {trace : List (Event × Syscall)} {thread : Thread}
    (run : process.Run Thread.start trace thread) :
    process.Along Thread.start trace (fun passed => passed.heap.Sound) ↔
      process.EachStep Thread.start trace (fun before event _ _ => ¬ MisfreesSeek before event) := by
  have known : process.EachStep Thread.start trace fun before _ _ _ =>
      before.pc.holdsBuffers = true → Buffers before :=
    fun past event call before after _ passed _ => run_buffers passed
  refine run.along_iff (Heap.sound_of_silent rfl) known ?_
  intro before event call after buffers sound taken
  cases holding : before.pc.holdsBuffers with
  | true => exact (buffers holding).step_sound_iff taken
  | false =>
    obtain ⟨same, isExit, _⟩ := step_after_release taken holding
    rw [same, isExit]
    exact iff_of_true sound (by simp [MisfreesSeek])

/-- A seek is answered, and receiving the next message fails. -/
def seekThenError : List Event :=
  [.callocRecv true, .checkExit false,
   .recv (some (kIOCtrlStr ++ [48, comma, 49, newline])), .lock, .openDevice (some 3),
   .ioctl true, .lseekCur 1, .lseekEnd 2, .lseekSet 1, .callocSend true,
   .read (some [newline]), .send (some 1), .read (some []), .close false, .unlock false,
   .callocRecv true, .checkExit false, .recv none]

theorem seekThenError_sound : ∃ trace thread,
    process.exec Thread.start seekThenError = some (trace, thread) ∧ thread.heap.Sound := by
  have runs : (process.exec Thread.start seekThenError).isSome = true := by decide
  obtain ⟨⟨trace, thread⟩, computed⟩ := Option.isSome_iff_exists.mp runs
  have run := Machine.Run.of_exec computed
  refine ⟨trace, thread, computed, ((releases_sound_iff run).mpr ?_).final run⟩
  rintro past event call before after inside _ _ ⟨_, exits⟩
  have member := Machine.input_mem_of_inside computed inside
  rcases exits with rfl | rfl | rfl | rfl <;> exact absurd member (by decide)

/-- The driver refuses a seek, and the error exit frees the advanced pointer. -/
def refusedSeek : List Event :=
  [.callocRecv true, .checkExit false,
   .recv (some (kIOCtrlStr ++ [57, comma, 48, newline])), .lock, .openDevice (some 3),
   .ioctl false, .close true, .unlock true]

theorem refusedSeek_misfreed :
    ¬ ∀ trace thread, process.Run Thread.start trace thread → thread.heap.Sound := by
  intro always
  have runs : ((process.exec Thread.start refusedSeek).any fun result =>
      result.2.heap.releases.any fun release => !release.valid) = true := by decide
  obtain ⟨⟨trace, thread⟩, computed, bad⟩ := (Option.any_eq_true _ _).mp runs
  obtain ⟨release, member, invalid⟩ := List.any_eq_true.mp bad
  have valid := (always trace thread (Machine.Run.of_exec computed)).valid release member
  rw [valid] at invalid
  cases invalid

end Aesd.Server
