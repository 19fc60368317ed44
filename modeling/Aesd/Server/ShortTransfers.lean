import Aesd.Library.Transfers
import Aesd.Server.ControlFlow
import Aesd.Server.Turn

namespace Aesd.Server

open Aesd.Library Aesd.Driver

/-- The payload of a write that reported how much of it the device took. -/
def written : Event → Syscall → List (Transfer Byte)
  | .write (some count), .write payload => [⟨payload, count⟩]
  | _, _ => []

/-- The bytes of a send that reported how many of them the socket took. -/
def handedOver : Event → Syscall → List (Transfer Byte)
  | .send (some count), .send bytes => [⟨bytes, count⟩]
  | _, _ => []

def Event.bytesRead : Event → List Byte
  | .read (some data) => data
  | _ => []

def writes (trace : List (Event × Syscall)) : List (Transfer Byte) :=
  trace.flatMap fun step => written step.1 step.2

def sends (trace : List (Event × Syscall)) : List (Transfer Byte) :=
  trace.flatMap fun step => handedOver step.1 step.2

/-- All bytes that were read from the device. -/
def readBack (trace : List (Event × Syscall)) : List Byte :=
  trace.flatMap fun step => step.1.bytesRead

/-- Where the thread goes on after a payload, to find out how long the reply is. -/
def Pc.computesReply : Pc → Bool
  | .lseekCur | .lseekEnd => true
  | _ => false

/-- Nothing was dropped: when the reply is computed the device has all payloads, and
when the thread goes back to receive the socket has all bytes read, in order and once. -/
structure Complete (past : List (Event × Syscall)) (thread : Thread) : Prop where
  payloads : thread.pc.computesReply = true →
    Transfer.takenAll (writes past) = Transfer.offeredAll (writes past)
  replies : thread.pc = .callocRecv → Transfer.takenAll (sends past) = readBack past

/-- No write was short, and no send of a turn that came to its end was. -/
structure NeverShort (trace : List (Event × Syscall)) : Prop where
  writes : ∀ transfer ∈ writes trace, transfer.Full
  sends : ∀ past call, past ++ [(.unlock false, call)] <+: trace →
    ∀ transfer ∈ sends past, transfer.Full

/-- Read from the device and not yet offered to the socket. -/
def Thread.unsent (thread : Thread) : List Byte :=
  if thread.pc = .send then
    (thread.bytesAt thread.sendBuffer).take thread.bytesRead.toInt.toNat
  else []

/-- The invariant of the transfers of a thread. -/
structure Relayed (past : List (Event × Syscall)) (thread : Thread) : Prop where
  writesPossible : ∀ transfer ∈ writes past, transfer.Possible
  sendsPossible : ∀ transfer ∈ sends past, transfer.Possible
  buffer : thread.pc = .read ∨ thread.pc = .send → SendBuffer thread
  staged : thread.pc = .send →
    ((thread.bytesAt thread.sendBuffer).take thread.bytesRead.toInt.toNat).length =
      thread.bytesRead.toInt.toNat
  account : thread.pc ≠ .returned →
    readBack past = Transfer.offeredAll (sends past) ++ thread.unsent

section

variable {past : List (Event × Syscall)} {thread after : Thread} {event : Event} {call : Syscall}

theorem writes_append (past : List (Event × Syscall)) (event : Event) (call : Syscall) :
    writes (past ++ [(event, call)]) = writes past ++ written event call := by
  simp [writes]

theorem sends_append (past : List (Event × Syscall)) (event : Event) (call : Syscall) :
    sends (past ++ [(event, call)]) = sends past ++ handedOver event call := by
  simp [sends]

theorem readBack_append (past : List (Event × Syscall)) (event : Event) (call : Syscall) :
    readBack (past ++ [(event, call)]) = readBack past ++ event.bytesRead := by
  simp [readBack]

theorem Thread.unsent_of_ne (elsewhere : thread.pc ≠ .send) : thread.unsent = [] :=
  if_neg elsewhere

/-- The outcomes that take part in the loop of the replies. -/
def Event.replies : Event → Bool
  | .callocSend true | .read (some _) | .send _ => true
  | _ => false

/-- A step beside that loop. -/
structure Aside (event : Event) (call : Syscall) (after : Thread) : Prop where
  handedOver : handedOver event call = []
  bytesRead : event.bytesRead = []
  elsewhere : event.pc ≠ .send
  outside : after.pc ≠ .read ∧ after.pc ≠ .send

theorem aside_of_replies (quiet : event.replies = false)
    (taken : thread.step event = some (call, after)) : Aside event call after := by
  have next := Thread.step_next taken
  have outside : .read ∉ event.next ∧ .send ∉ event.next →
      after.pc ≠ .read ∧ after.pc ≠ .send := by
    rintro ⟨noRead, noSend⟩
    exact ⟨fun reads => noRead (reads ▸ next), fun sends => noSend (sends ▸ next)⟩
  cases event with
  | callocRecv succeeds | checkExit succeeds | ioctl succeeds | unlock succeeds =>
    cases succeeds <;> exact ⟨rfl, rfl, by rintro ⟨⟩, outside (by simp [Event.next])⟩
  | callocSend succeeds =>
    cases succeeds with
    | false => exact ⟨rfl, rfl, by rintro ⟨⟩, outside (by simp [Event.next])⟩
    | true => cases quiet
  | recv result | realloc result | write result =>
    cases result <;> exact ⟨rfl, rfl, by rintro ⟨⟩, outside (by simp [Event.next])⟩
  | read result =>
    cases result with
    | none => exact ⟨rfl, rfl, by rintro ⟨⟩, outside (by simp [Event.next])⟩
    | some data => cases quiet
  | send result => cases quiet
  | _ => exact ⟨rfl, rfl, by rintro ⟨⟩, outside (by simp [Event.next])⟩

theorem Event.pc_ne_returned (event : Event) : event.pc ≠ .returned := by
  cases event <;> rintro ⟨⟩

namespace Relayed

theorem writesKept (relayed : Relayed past thread) (none : written event call = []) :
    ∀ transfer ∈ writes (past ++ [(event, call)]), transfer.Possible := by
  rw [writes_append, none, List.append_nil]
  exact relayed.writesPossible

theorem sendsKept (relayed : Relayed past thread) (none : handedOver event call = []) :
    ∀ transfer ∈ sends (past ++ [(event, call)]), transfer.Possible := by
  rw [sends_append, none, List.append_nil]
  exact relayed.sendsPossible

theorem account_idle (relayed : Relayed past thread) (running : thread.pc ≠ .returned)
    (idle : thread.pc ≠ .send) : readBack past = Transfer.offeredAll (sends past) := by
  rw [relayed.account running, Thread.unsent_of_ne idle, List.append_nil]

theorem quiet (relayed : Relayed past thread) (waiting : thread.pc = event.pc)
    (aside : Aside event call after) (possible : ∀ transfer ∈ written event call, transfer.Possible) :
    Relayed (past ++ [(event, call)]) after := by
  refine ⟨?_, ?_, fun inside => absurd inside (not_or.mpr aside.outside),
    fun inside => absurd inside aside.outside.2, fun _ => ?_⟩
  · rw [writes_append]
    exact List.forall_mem_append.mpr ⟨relayed.writesPossible, possible⟩
  · exact relayed.sendsKept aside.handedOver
  · have account := relayed.account_idle (waiting ▸ event.pc_ne_returned)
      (waiting ▸ aside.elsewhere)
    rw [readBack_append, sends_append, aside.handedOver, aside.bytesRead, List.append_nil,
      List.append_nil, account, Thread.unsent_of_ne aside.outside.2, List.append_nil]

theorem callocSend (relayed : Relayed past thread) (allocating : thread.pc = .callocSend)
    (possible : sizeT thread.bytesProcessed < 2 ^ 63) (call : Syscall) :
    Relayed (past ++ [(.callocSend true, call)]) { thread with
      heap := (thread.heap.alloc (List.replicate (sizeT thread.bytesProcessed) 0)).2
      sendBuffer := some ⟨thread.heap.next, 0⟩
      pc := .read } := by
  have nonneg := nonneg_of_sizeT_lt possible
  have size := sizeT_of_nonneg nonneg
  refine ⟨?_, ?_, fun _ => ⟨thread.heap.next, _, rfl, Heap.alloc_cells_self _ _, ?_⟩, by rintro ⟨⟩,
    fun _ => ?_⟩
  · exact relayed.writesKept rfl
  · exact relayed.sendsKept rfl
  · rw [List.length_replicate]
    exact size
  · have account := relayed.account_idle (by rw [allocating]; rintro ⟨⟩)
      (by rw [allocating]; rintro ⟨⟩)
    rw [readBack_append, sends_append, Thread.unsent_of_ne (by rintro ⟨⟩)]
    simpa [Event.bytesRead, handedOver] using account

theorem read (relayed : Relayed past thread) (reading : thread.pc = .read) {data : List Byte}
    (fits : data.length ≤ sizeT thread.bytesProcessed) (call : Syscall) :
    Relayed (past ++ [(.read (some data), call)]) { thread with
      heap := thread.put thread.sendBuffer 0 data
      bytesRead := Int64.ofNat data.length
      pc := .send } := by
  obtain ⟨buffered, count, staged⟩ := SendBuffer.staged (relayed.buffer (.inl reading)) fits
  refine ⟨?_, ?_, fun _ => buffered, fun _ => ?_, fun _ => ?_⟩
  · exact relayed.writesKept rfl
  · exact relayed.sendsKept rfl
  · exact (congrArg List.length staged).trans (by rw [count, Int.toNat_natCast])
  · have account := relayed.account_idle (by rw [reading]; rintro ⟨⟩)
      (by rw [reading]; rintro ⟨⟩)
    have unsent : Thread.unsent { thread with
        heap := thread.put thread.sendBuffer 0 data
        bytesRead := Int64.ofNat data.length
        pc := .send } = data := (if_pos rfl).trans staged
    rw [readBack_append, sends_append, account, unsent]
    simp [Event.bytesRead, handedOver]

/-- What the socket did not take of the bytes read is not offered again. -/
theorem send (relayed : Relayed past thread) (sending : thread.pc = .send) {count : Nat}
    (fits : count ≤ thread.bytesRead.toInt.toNat) :
    Relayed (past ++ [(.send (some count), thread.syscall)]) { thread with pc := .read } := by
  have asked : thread.syscall =
      .send ((thread.bytesAt thread.sendBuffer).take thread.bytesRead.toInt.toNat) := by
    rw [Thread.syscall, sending]
  refine ⟨?_, ?_, fun _ => relayed.buffer (.inr sending), by rintro ⟨⟩, fun _ => ?_⟩
  · exact relayed.writesKept rfl
  · rw [sends_append, asked]
    refine List.forall_mem_append.mpr ⟨relayed.sendsPossible, fun transfer member => ?_⟩
    obtain rfl := List.mem_singleton.mp member
    rw [Transfer.Possible, relayed.staged sending]
    exact fits
  · have account := relayed.account (by rw [sending]; rintro ⟨⟩)
    rw [Thread.unsent, if_pos sending] at account
    rw [readBack_append, sends_append, Transfer.offeredAll_append, asked,
      Thread.unsent_of_ne (by rintro ⟨⟩), account]
    simp [Event.bytesRead, handedOver, Transfer.offeredAll]

theorem step (relayed : Relayed past thread)
    (taken : thread.step event = some (call, after)) : Relayed (past ++ [(event, call)]) after := by
  obtain ⟨waiting, asked, _⟩ := Thread.step_eq_some_iff.mp taken
  cases (Thread.step_cases taken).2 with
  | @write count fits =>
    rw [Thread.syscall, waiting] at asked
    obtain rfl : call = .write thread.text := asked
    refine relayed.quiet waiting (aside_of_replies rfl taken) fun transfer member => ?_
    obtain rfl := List.mem_singleton.mp member
    exact fits
  | callocSend possible => exact relayed.callocSend waiting possible call
  | @readEnds data fits ends =>
    obtain ⟨_, count, _⟩ := SendBuffer.staged (relayed.buffer (.inl waiting)) fits
    rw [ends] at count
    obtain rfl : data = [] := List.length_eq_zero_iff.mp (Int.ofNat_inj.mp count.symm)
    refine relayed.quiet waiting ⟨rfl, rfl, by rintro ⟨⟩, by rintro ⟨⟩, by rintro ⟨⟩⟩ ?_
    rintro transfer ⟨⟩
  | read fits more => exact relayed.read waiting fits call
  | sendFails =>
    exact ⟨relayed.writesKept rfl, relayed.sendsKept rfl, by rintro (⟨⟨⟩⟩ | ⟨⟨⟩⟩), by rintro ⟨⟩,
      fun running => absurd rfl running⟩
  | send fits =>
    obtain rfl := asked
    exact relayed.send waiting fits
  | _ => exact relayed.quiet waiting (aside_of_replies rfl taken) (by rintro transfer ⟨⟩)

end Relayed

theorem run_relayed {trace : List (Event × Syscall)} (run : process.Run Thread.start trace thread) :
    Relayed trace thread := by
  refine run.history Relayed ⟨by rintro transfer ⟨⟩, by rintro transfer ⟨⟩, ?_, by rintro ⟨⟩,
    fun _ => rfl⟩ fun past before event call after relayed taken => relayed.step taken
  rintro (⟨⟨⟩⟩ | ⟨⟨⟩⟩)

theorem Event.eq_unlock (back : .callocRecv ∈ event.next) : event = .unlock false := by
  cases event with
  | callocRecv succeeds | checkExit succeeds | ioctl succeeds | callocSend succeeds =>
    cases succeeds <;> simp [next] at back
  | recv result | realloc result | write result | read result | send result =>
    cases result <;> simp [next] at back
  | unlock failed =>
    cases failed with
    | true => simp [next] at back
    | false => rfl
  | _ => simp [next] at back

/-- After a write that did not fail the thread goes on, however much was taken. -/
theorem computesReply_of_written {transfer : Transfer Byte}
    (taken : thread.step event = some (call, after)) (member : transfer ∈ written event call) :
    after.pc.computesReply = true := by
  have next := Thread.step_next taken
  unfold written at member
  split at member
  · rw [Event.next, List.mem_cons, List.mem_singleton] at next
    rcases next with current | ending
    · rw [current]
      rfl
    · rw [ending]
      rfl
  · cases member

theorem Relayed.replies_iff (relayed : Relayed past thread) (receiving : thread.pc = .callocRecv) :
    Transfer.takenAll (sends past) = readBack past ↔ ∀ transfer ∈ sends past, transfer.Full := by
  have account := relayed.account_idle (by rw [receiving]; rintro ⟨⟩)
    (by rw [receiving]; rintro ⟨⟩)
  rw [← Transfer.takenAll_eq_iff relayed.sendsPossible, account]

end

/-- Whatever the calls return, short or not: no byte of a payload or a reply is dropped,
if and only if no write was short and no send of a finished turn was. -/
theorem nothing_dropped_iff {trace : List (Event × Syscall)} {thread : Thread}
    (run : process.Run Thread.start trace thread) :
    process.Throughout Thread.start trace Complete ↔ NeverShort trace := by
  constructor
  · intro complete
    refine ⟨fun transfer member => ?_, fun past call inside => ?_⟩
    · obtain ⟨⟨event, call⟩, stepped, inStep⟩ := List.mem_flatMap.mp member
      obtain ⟨past, inside⟩ := Machine.inside_of_mem stepped
      obtain ⟨before, after, earlier, taken⟩ := run.step_inside inside
      have passed := earlier.next taken
      have last : transfer ∈ writes (past ++ [(event, call)]) := by
        rw [writes_append]
        exact List.mem_append_right _ inStep
      have goesOn := computesReply_of_written taken inStep
      have whole := (complete _ after inside passed).payloads goesOn
      exact (Transfer.takenAll_eq_iff (run_relayed passed).writesPossible).mp whole transfer last
    · obtain ⟨before, after, earlier, taken⟩ := run.step_inside inside
      have passed := earlier.next taken
      have receiving : after.pc = .callocRecv := List.mem_singleton.mp (Thread.step_next taken)
      have all := (complete _ after inside passed).replies receiving
      have full := ((run_relayed passed).replies_iff receiving).mp all
      rw [sends_append] at full
      exact (List.forall_mem_append.mp full).1
  · rintro ⟨writesFull, sendsFull⟩ past middle inside passed
    refine ⟨fun _ => ?_, fun receiving => ?_⟩
    · refine (Transfer.takenAll_eq_iff (run_relayed passed).writesPossible).mpr ?_
      intro transfer member
      obtain ⟨step, inPast, inStep⟩ := List.mem_flatMap.mp member
      exact writesFull transfer (List.mem_flatMap.mpr ⟨step, inside.subset inPast, inStep⟩)
    · refine ((run_relayed passed).replies_iff receiving).mpr ?_
      cases passed with
      | start => rintro transfer ⟨⟩
      | next earlier taken =>
        obtain rfl := Event.eq_unlock (receiving ▸ Thread.step_next taken)
        rw [sends_append]
        exact List.forall_mem_append.mpr ⟨sendsFull _ _ inside, by rintro transfer ⟨⟩⟩

/-- A line of two bytes, written and sent back in one piece each. -/
def wholeTurn : List Event :=
  [.callocRecv true, .checkExit false, .recv (some [97, newline]), .lock, .openDevice (some 3),
   .write (some 2), .lseekEnd 2, .lseekSet 0, .callocSend true, .read (some [97, newline]),
   .send (some 2), .read (some []), .close false, .unlock false]

theorem wholeTurn_complete : ∃ trace thread,
    process.exec Thread.start wholeTurn = some (trace, thread) ∧
      process.Throughout Thread.start trace Complete := by
  have runs : ((process.exec Thread.start wholeTurn).any fun result =>
      writes result.1 == [⟨[97, newline], 2⟩] && sends result.1 == [⟨[97, newline], 2⟩]) = true := by
    decide
  obtain ⟨⟨trace, thread⟩, computed, facts⟩ := (Option.any_eq_true _ _).mp runs
  simp only [Bool.and_eq_true, beq_iff_eq] at facts
  obtain ⟨oneWrite, oneSend⟩ := facts
  refine ⟨trace, thread, computed, (nothing_dropped_iff (.of_exec computed)).mpr ⟨?_, ?_⟩⟩
  · intro transfer member
    rw [oneWrite] at member
    obtain rfl := List.mem_singleton.mp member
    rfl
  · intro past call inside transfer member
    have earlier : transfer ∈ sends trace := by
      obtain ⟨step, inPast, inStep⟩ := List.mem_flatMap.mp member
      exact List.mem_flatMap.mpr ⟨step, inside.subset (List.mem_append_left _ inPast), inStep⟩
    rw [oneSend] at earlier
    obtain rfl := List.mem_singleton.mp earlier
    rfl

/-- The same turn where the device, and then the socket, takes one byte only. -/
def shortWrite : List Event :=
  [.callocRecv true, .checkExit false, .recv (some [97, newline]), .lock, .openDevice (some 3),
   .write (some 1)]

def shortSend : List Event :=
  [.callocRecv true, .checkExit false, .recv (some [97, newline]), .lock, .openDevice (some 3),
   .write (some 2), .lseekEnd 2, .lseekSet 0, .callocSend true, .read (some [97, newline]),
   .send (some 1), .read (some []), .close false, .unlock false]

theorem shortTransfers_dropped :
    (¬ ∀ trace thread, process.Run Thread.start trace thread → thread.pc.computesReply = true →
      Transfer.takenAll (writes trace) = Transfer.offeredAll (writes trace)) ∧
    ¬ ∀ trace thread, process.Run Thread.start trace thread → thread.pc = .callocRecv →
      Transfer.takenAll (sends trace) = readBack trace := by
  constructor
  · intro always
    have runs : ((process.exec Thread.start shortWrite).any fun result =>
        result.2.pc.computesReply &&
          !(Transfer.takenAll (writes result.1) == Transfer.offeredAll (writes result.1))) = true := by
      decide
    obtain ⟨⟨trace, thread⟩, computed, facts⟩ := (Option.any_eq_true _ _).mp runs
    simp only [Bool.and_eq_true, Bool.not_eq_true', beq_eq_false_iff_ne] at facts
    exact facts.2 (always trace thread (.of_exec computed) facts.1)
  · intro always
    have runs : ((process.exec Thread.start shortSend).any fun result =>
        result.2.pc == .callocRecv && !(Transfer.takenAll (sends result.1) == readBack result.1)) =
          true := by
      decide
    obtain ⟨⟨trace, thread⟩, computed, facts⟩ := (Option.any_eq_true _ _).mp runs
    simp only [Bool.and_eq_true, Bool.not_eq_true', beq_eq_false_iff_ne, beq_iff_eq] at facts
    exact facts.2 (always trace thread (.of_exec computed) facts.1)

end Aesd.Server
