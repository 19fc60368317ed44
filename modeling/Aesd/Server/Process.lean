import Aesd.Server.CString

/-! The handler thread `process`, cut at its system calls. -/
namespace Aesd.Server

open Aesd.Library Aesd.Driver

/-- The places where the thread waits for the outcome of a call. The flag of the
last two says whether they lie on the way out after an error. -/
inductive Pc where
  | callocRecv
  | checkExit
  | recv
  | realloc
  | lock
  | openDevice
  | ioctl
  | write
  | lseekCur
  | lseekEnd
  | lseekSet
  | callocSend
  | read
  | send
  | close (failed : Bool)
  | unlock (failed : Bool)
  | unlockExit
  | returned
  | crashed
deriving DecidableEq, Repr

/-- What the thread asks for, with the arguments that matter. The device calls go to
the global descriptor. -/
inductive Syscall where
  | calloc (size : Nat)
  | exitFlag
  | recv (window : Nat)
  | realloc (size : Nat)
  | lock
  | openDevice
  | ioctl (seekto : AesdSeekto)
  | write (payload : List Byte)
  | lseek (offset : Int64) (whence : Whence)
  | read (count : Nat)
  | send (bytes : List Byte)
  | close
  | unlock
  | unlockExit
  | nothing
deriving DecidableEq, Repr

/-- The outcome of the call at each place; `none` and `false` stand for failure. -/
inductive Event where
  | callocRecv (succeeds : Bool)
  | checkExit (exit : Bool)
  | recv (result : Option (List Byte))
  | realloc (fresh : Option (List Byte))
  | lock
  | openDevice (result : Option Nat)
  | ioctl (succeeds : Bool)
  | write (result : Option Nat)
  | lseekCur (result : Int64)
  | lseekEnd (result : Int64)
  | lseekSet (result : Int64)
  | callocSend (succeeds : Bool)
  | read (result : Option (List Byte))
  | send (result : Option Nat)
  | close (failed : Bool)
  | unlock (failed : Bool)
  | unlockExit
deriving DecidableEq, Repr

def Event.pc : Event → Pc
  | .callocRecv _ => .callocRecv
  | .checkExit _ => .checkExit
  | .recv _ => .recv
  | .realloc _ => .realloc
  | .lock => .lock
  | .openDevice _ => .openDevice
  | .ioctl _ => .ioctl
  | .write _ => .write
  | .lseekCur _ => .lseekCur
  | .lseekEnd _ => .lseekEnd
  | .lseekSet _ => .lseekSet
  | .callocSend _ => .callocSend
  | .read _ => .read
  | .send _ => .send
  | .close failed => .close failed
  | .unlock failed => .unlock failed
  | .unlockExit => .unlockExit

def kBufferStartLength : Int32 := 128

/-- The local variables of `process` with the memory they point into. -/
structure Thread where
  pc : Pc
  heap : Heap Byte
  recvBuffer : Option Pointer
  sendBuffer : Option Pointer
  bytesRead : Int64
  bytesProcessed : Int32
  bufferSize : Int32
  bufferIndex : Int32
  ioctlCmdRecv : Bool
  seekto : AesdSeekto
  offset : Int64
  complete : Bool

/-- A thread about to enter the outer loop. -/
def Thread.start : Thread :=
  ⟨.callocRecv, .empty, none, none, 0, 0, 0, 0, false, ⟨0, 0⟩, 0, false⟩

/-- An `int` passed where a `size_t` is expected. -/
def sizeT (value : Int32) : Nat := value.toInt64.toUInt64.toNat

namespace Thread

/-- The memory a buffer pointer leads to. -/
def bytesAt (thread : Thread) : Option Pointer → List Byte
  | none => []
  | some pointer => (thread.heap.bytes pointer.block).drop pointer.offset

/-- The string in the receive buffer. -/
def text (thread : Thread) : List Byte := cString (thread.bytesAt thread.recvBuffer)

def freeBuffers (thread : Thread) : Thread :=
  let freeOne (heap : Heap Byte) : Option Pointer → Heap Byte
    | none => heap
    | some pointer => heap.free pointer
  { thread with heap := freeOne (freeOne thread.heap thread.recvBuffer) thread.sendBuffer }

/-- The common tail of the error exits. -/
def giveUp (thread : Thread) : Thread :=
  { thread.freeBuffers with complete := true, pc := .returned }

def recvWindow (thread : Thread) : Int32 := thread.bufferSize - thread.bufferIndex - 1

/-- Put `bytes` into memory, `position` bytes behind `pointer`. -/
def put (thread : Thread) (pointer : Option Pointer) (position : Nat) (bytes : List Byte) :
    Heap Byte :=
  match pointer with
  | none => thread.heap
  | some pointer => thread.heap.store pointer.block
      (patch (thread.heap.bytes pointer.block) (pointer.offset + position) bytes)

/-- Lines 143 to 148: terminate the buffer and look for a newline. -/
def scan (thread : Thread) : Thread :=
  let terminated := { thread with
    heap := thread.put thread.recvBuffer (thread.bufferSize - 1).toInt.toNat [0] }
  { terminated with pc := if newline ∈ terminated.text then .lock else .checkExit }

/-- Lines 122 to 141 for a `recv` that did not fail, up to the call of `realloc`. -/
def receive (thread : Thread) (data : List Byte) : Thread :=
  let received := { thread with
    heap := thread.put thread.recvBuffer thread.bufferIndex.toInt.toNat data }
  let bytesRecv := Int64.ofNat data.length
  if bytesRecv = thread.recvWindow.toInt64 then
    let bufferSize := thread.bufferSize + kBufferStartLength
    { received with
      bufferSize
      bufferIndex := bufferSize - kBufferStartLength - 1
      pc := .realloc }
  else
    { received with bufferIndex := (thread.bufferIndex.toInt64 + bytesRecv).toInt32 }.scan

/-- The block moves; its bytes stay and unspecified ones follow. -/
def grow (thread : Thread) (fresh : List Byte) : Thread :=
  match thread.recvBuffer with
  | none => thread
  | some old =>
    let (block, heap) := thread.heap.alloc (thread.heap.bytes old.block ++ fresh)
    { thread with heap := heap.discard old.block, recvBuffer := some ⟨block, 0⟩ }.scan

/-- Lines 157 and 158: the receive pointer itself steps over the prefix. -/
def advance (thread : Thread) : Thread :=
  { thread with
    ioctlCmdRecv := true
    recvBuffer := thread.recvBuffer.map fun (pointer : Pointer) =>
      { pointer with offset := pointer.offset + kIOCtrlStr.length } }

/-- Lines 155 to 176: choose between the seek and the write. -/
def dispatch (thread : Thread) : Thread :=
  if kIOCtrlStr.isPrefixOf thread.text then
    match parseSeekto thread.advance.text with
    | none => { thread.advance with pc := .crashed }
    | some seekto => { thread.advance with seekto, pc := .ioctl }
  else
    { thread with pc := .write }

/-- Lines 187 to 194: where the reply starts. -/
def chooseOffset (thread : Thread) : Thread :=
  if thread.ioctlCmdRecv then { thread with pc := .lseekCur }
  else { thread with offset := 0, pc := .lseekEnd }

/-- The call the thread waits for at its place. -/
def syscall (thread : Thread) : Syscall :=
  match thread.pc with
  | .callocRecv => .calloc (sizeT kBufferStartLength)
  | .checkExit => .exitFlag
  | .recv => .recv (sizeT thread.recvWindow)
  | .realloc => .realloc (sizeT thread.bufferSize)
  | .lock => .lock
  | .openDevice => .openDevice
  | .ioctl => .ioctl thread.seekto
  | .write => .write thread.text
  | .lseekCur => .lseek 0 .seekCur
  | .lseekEnd => .lseek 0 .seekEnd
  | .lseekSet => .lseek thread.offset .seekSet
  | .callocSend => .calloc (sizeT thread.bytesProcessed)
  | .read => .read (sizeT thread.bytesProcessed)
  | .send => .send ((thread.bytesAt thread.sendBuffer).take thread.bytesRead.toInt.toNat)
  | .close _ => .close
  | .unlock _ => .unlock
  | .unlockExit => .unlockExit
  | .returned => .nothing
  | .crashed => .nothing

/-- What the thread does with an outcome, up to its next call. `none` for outcomes
the call cannot have: more bytes than asked for, or memory beyond `PTRDIFF_MAX`. -/
def resume (thread : Thread) : Event → Option Thread
  | .callocRecv false => some { thread with recvBuffer := none }.giveUp
  | .callocRecv true =>
    let (block, heap) :=
      thread.heap.alloc (List.replicate (sizeT kBufferStartLength) 0)
    some { thread with
      heap
      recvBuffer := some ⟨block, 0⟩
      bufferSize := kBufferStartLength
      bufferIndex := 0
      pc := .checkExit }
  | .checkExit true => some { thread.giveUp with pc := .unlockExit }
  | .checkExit false => some { thread with pc := .recv }
  | .recv none => some thread.giveUp
  | .recv (some data) =>
    if data.length ≤ sizeT thread.recvWindow then some (thread.receive data) else none
  | .realloc none => some thread.giveUp
  | .realloc (some fresh) =>
    if sizeT thread.bufferSize < 2 ^ 63 ∧
        (thread.bytesAt thread.recvBuffer).length + fresh.length = sizeT thread.bufferSize then
      some (thread.grow fresh)
    else none
  | .lock => some { thread with pc := .openDevice }
  | .openDevice _ => some thread.dispatch
  | .ioctl true => some thread.chooseOffset
  | .ioctl false => some { thread with pc := .close true }
  | .write none => some thread.giveUp
  | .write (some count) => if count ≤ thread.text.length then some thread.chooseOffset else none
  | .lseekCur result => some { thread with offset := result, pc := .lseekEnd }
  | .lseekEnd result =>
    let bytesProcessed := result.toInt32
    some { thread with
      bytesProcessed
      pc := if bytesProcessed = -1 then .close true else .lseekSet }
  | .lseekSet _ => some { thread with pc := .callocSend }
  | .callocSend false => some { thread with sendBuffer := none }.giveUp
  | .callocSend true =>
    if sizeT thread.bytesProcessed < 2 ^ 63 then
      let (block, heap) :=
        thread.heap.alloc (List.replicate (sizeT thread.bytesProcessed) 0)
      some { thread with heap, sendBuffer := some ⟨block, 0⟩, pc := .read }
    else none
  | .read none => some thread.giveUp
  | .read (some data) =>
    if data.length ≤ sizeT thread.bytesProcessed then
      some { thread with
        heap := thread.put thread.sendBuffer 0 data
        bytesRead := Int64.ofNat data.length
        pc := if Int64.ofNat data.length = 0 then .close false else .send }
    else none
  | .send none => some thread.giveUp
  | .send (some count) =>
    if count ≤ thread.bytesRead.toInt.toNat then some { thread with pc := .read } else none
  | .close failed => some { thread with pc := .unlock failed }
  | .unlock false => some { thread with pc := .callocRecv }
  | .unlock true => some thread.giveUp
  | .unlockExit => some { thread with pc := .returned }

def step (thread : Thread) (event : Event) : Option (Syscall × Thread) :=
  if thread.pc = event.pc then (thread.resume event).map (Prod.mk thread.syscall) else none

theorem step_eq_some_iff {thread after : Thread} {event : Event} {call : Syscall} :
    thread.step event = some (call, after) ↔
      thread.pc = event.pc ∧ call = thread.syscall ∧ thread.resume event = some after := by
  by_cases waiting : thread.pc = event.pc
  · rw [step, if_pos waiting, Option.map_eq_some_iff]
    constructor
    · rintro ⟨next, resumed, same⟩
      cases same
      exact ⟨waiting, rfl, resumed⟩
    · rintro ⟨_, rfl, resumed⟩
      exact ⟨after, resumed, rfl⟩
  · rw [step, if_neg waiting]
    exact iff_of_false (fun impossible => nomatch impossible) fun taken => waiting taken.1

/-- What a thread does with each outcome that a call can have. -/
inductive Resumes (thread : Thread) : Event → Thread → Prop where
  | callocRecvFails :
      Resumes thread (.callocRecv false) ({ thread with recvBuffer := none } : Thread).giveUp
  | callocRecv : Resumes thread (.callocRecv true) { thread with
      heap := (thread.heap.alloc (List.replicate (sizeT kBufferStartLength) 0)).2
      recvBuffer := some ⟨thread.heap.next, 0⟩
      bufferSize := kBufferStartLength
      bufferIndex := 0
      pc := .checkExit }
  | exits : Resumes thread (.checkExit true) { thread.giveUp with pc := .unlockExit }
  | stays : Resumes thread (.checkExit false) { thread with pc := .recv }
  | recvFails : Resumes thread (.recv none) thread.giveUp
  | recv {data : List Byte} (fits : data.length ≤ sizeT thread.recvWindow) :
      Resumes thread (.recv (some data)) (thread.receive data)
  | reallocFails : Resumes thread (.realloc none) thread.giveUp
  | realloc {fresh : List Byte} (possible : sizeT thread.bufferSize < 2 ^ 63)
      (total : (thread.bytesAt thread.recvBuffer).length + fresh.length =
        sizeT thread.bufferSize) : Resumes thread (.realloc (some fresh)) (thread.grow fresh)
  | lock : Resumes thread .lock { thread with pc := .openDevice }
  | openDevice {result : Option Nat} : Resumes thread (.openDevice result) thread.dispatch
  | ioctlFails : Resumes thread (.ioctl false) { thread with pc := .close true }
  | ioctl : Resumes thread (.ioctl true) thread.chooseOffset
  | writeFails : Resumes thread (.write none) thread.giveUp
  | write {count : Nat} (fits : count ≤ thread.text.length) :
      Resumes thread (.write (some count)) thread.chooseOffset
  | lseekCur {result : Int64} :
      Resumes thread (.lseekCur result) { thread with offset := result, pc := .lseekEnd }
  | lseekEndFails {result : Int64} (failed : result.toInt32 = -1) :
      Resumes thread (.lseekEnd result)
        { thread with bytesProcessed := result.toInt32, pc := .close true }
  | lseekEnd {result : Int64} (moved : result.toInt32 ≠ -1) :
      Resumes thread (.lseekEnd result)
        { thread with bytesProcessed := result.toInt32, pc := .lseekSet }
  | lseekSet {result : Int64} :
      Resumes thread (.lseekSet result) { thread with pc := .callocSend }
  | callocSendFails :
      Resumes thread (.callocSend false) ({ thread with sendBuffer := none } : Thread).giveUp
  | callocSend (possible : sizeT thread.bytesProcessed < 2 ^ 63) :
      Resumes thread (.callocSend true) { thread with
        heap := (thread.heap.alloc (List.replicate (sizeT thread.bytesProcessed) 0)).2
        sendBuffer := some ⟨thread.heap.next, 0⟩
        pc := .read }
  | readFails : Resumes thread (.read none) thread.giveUp
  | readEnds {data : List Byte} (fits : data.length ≤ sizeT thread.bytesProcessed)
      (ends : Int64.ofNat data.length = 0) : Resumes thread (.read (some data)) { thread with
        heap := thread.put thread.sendBuffer 0 data
        bytesRead := Int64.ofNat data.length
        pc := .close false }
  | read {data : List Byte} (fits : data.length ≤ sizeT thread.bytesProcessed)
      (more : Int64.ofNat data.length ≠ 0) : Resumes thread (.read (some data)) { thread with
        heap := thread.put thread.sendBuffer 0 data
        bytesRead := Int64.ofNat data.length
        pc := .send }
  | sendFails : Resumes thread (.send none) thread.giveUp
  | send {count : Nat} (fits : count ≤ thread.bytesRead.toInt.toNat) :
      Resumes thread (.send (some count)) { thread with pc := .read }
  | close {failed : Bool} : Resumes thread (.close failed) { thread with pc := .unlock failed }
  | unlock : Resumes thread (.unlock false) { thread with pc := .callocRecv }
  | unlockFailed : Resumes thread (.unlock true) thread.giveUp
  | unlockExit : Resumes thread .unlockExit { thread with pc := .returned }

section Resuming

variable {thread after : Thread}

theorem resumes_callocRecv {succeeds : Bool}
    (resumed : thread.resume (.callocRecv succeeds) = some after) :
    thread.Resumes (.callocRecv succeeds) after := by
  cases succeeds with
  | false =>
    obtain rfl := Option.some.inj resumed
    exact .callocRecvFails
  | true =>
    obtain rfl := Option.some.inj resumed
    exact .callocRecv

theorem resumes_checkExit {exit : Bool} (resumed : thread.resume (.checkExit exit) = some after) :
    thread.Resumes (.checkExit exit) after := by
  cases exit with
  | false =>
    obtain rfl := Option.some.inj resumed
    exact .stays
  | true =>
    obtain rfl := Option.some.inj resumed
    exact .exits

theorem resumes_recv {result : Option (List Byte)}
    (resumed : thread.resume (.recv result) = some after) : thread.Resumes (.recv result) after := by
  cases result with
  | none =>
    obtain rfl := Option.some.inj resumed
    exact .recvFails
  | some data =>
    simp only [resume, Option.ite_none_right_eq_some, Option.some.injEq] at resumed
    obtain ⟨fits, rfl⟩ := resumed
    exact .recv fits

theorem resumes_realloc {fresh : Option (List Byte)}
    (resumed : thread.resume (.realloc fresh) = some after) :
    thread.Resumes (.realloc fresh) after := by
  cases fresh with
  | none =>
    obtain rfl := Option.some.inj resumed
    exact .reallocFails
  | some fresh =>
    simp only [resume, Option.ite_none_right_eq_some, Option.some.injEq] at resumed
    obtain ⟨⟨possible, total⟩, rfl⟩ := resumed
    exact .realloc possible total

theorem resumes_ioctl {succeeds : Bool} (resumed : thread.resume (.ioctl succeeds) = some after) :
    thread.Resumes (.ioctl succeeds) after := by
  cases succeeds with
  | false =>
    obtain rfl := Option.some.inj resumed
    exact .ioctlFails
  | true =>
    obtain rfl := Option.some.inj resumed
    exact .ioctl

theorem resumes_write {result : Option Nat} (resumed : thread.resume (.write result) = some after) :
    thread.Resumes (.write result) after := by
  cases result with
  | none =>
    obtain rfl := Option.some.inj resumed
    exact .writeFails
  | some count =>
    simp only [resume, Option.ite_none_right_eq_some, Option.some.injEq] at resumed
    obtain ⟨fits, rfl⟩ := resumed
    exact .write fits

theorem resumes_lseekEnd {result : Int64} (resumed : thread.resume (.lseekEnd result) = some after) :
    thread.Resumes (.lseekEnd result) after := by
  obtain rfl := Option.some.inj resumed
  by_cases failed : result.toInt32 = -1
  · rw [if_pos failed]
    exact .lseekEndFails failed
  · rw [if_neg failed]
    exact .lseekEnd failed

theorem resumes_callocSend {succeeds : Bool}
    (resumed : thread.resume (.callocSend succeeds) = some after) :
    thread.Resumes (.callocSend succeeds) after := by
  cases succeeds with
  | false =>
    obtain rfl := Option.some.inj resumed
    exact .callocSendFails
  | true =>
    simp only [resume, Option.ite_none_right_eq_some, Option.some.injEq] at resumed
    obtain ⟨possible, rfl⟩ := resumed
    exact .callocSend possible

theorem resumes_read {result : Option (List Byte)}
    (resumed : thread.resume (.read result) = some after) : thread.Resumes (.read result) after := by
  cases result with
  | none =>
    obtain rfl := Option.some.inj resumed
    exact .readFails
  | some data =>
    simp only [resume, Option.ite_none_right_eq_some, Option.some.injEq] at resumed
    obtain ⟨fits, rfl⟩ := resumed
    by_cases ends : Int64.ofNat data.length = 0
    · rw [if_pos ends]
      exact .readEnds fits ends
    · rw [if_neg ends]
      exact .read fits ends

theorem resumes_send {result : Option Nat} (resumed : thread.resume (.send result) = some after) :
    thread.Resumes (.send result) after := by
  cases result with
  | none =>
    obtain rfl := Option.some.inj resumed
    exact .sendFails
  | some count =>
    simp only [resume, Option.ite_none_right_eq_some, Option.some.injEq] at resumed
    obtain ⟨fits, rfl⟩ := resumed
    exact .send fits

theorem resumes_unlock {failed : Bool} (resumed : thread.resume (.unlock failed) = some after) :
    thread.Resumes (.unlock failed) after := by
  cases failed with
  | false =>
    obtain rfl := Option.some.inj resumed
    exact .unlock
  | true =>
    obtain rfl := Option.some.inj resumed
    exact .unlockFailed

theorem resumes {event : Event} (resumed : thread.resume event = some after) :
    thread.Resumes event after := by
  cases event with
  | callocRecv succeeds => exact resumes_callocRecv resumed
  | checkExit exit => exact resumes_checkExit resumed
  | recv result => exact resumes_recv resumed
  | realloc fresh => exact resumes_realloc resumed
  | ioctl succeeds => exact resumes_ioctl resumed
  | write result => exact resumes_write resumed
  | lseekEnd result => exact resumes_lseekEnd resumed
  | callocSend succeeds => exact resumes_callocSend resumed
  | read result => exact resumes_read resumed
  | send result => exact resumes_send resumed
  | unlock failed => exact resumes_unlock resumed
  | lock =>
    obtain rfl := Option.some.inj resumed
    exact .lock
  | openDevice result =>
    obtain rfl := Option.some.inj resumed
    exact .openDevice
  | lseekCur result =>
    obtain rfl := Option.some.inj resumed
    exact .lseekCur
  | lseekSet result =>
    obtain rfl := Option.some.inj resumed
    exact .lseekSet
  | close failed =>
    obtain rfl := Option.some.inj resumed
    exact .close
  | unlockExit =>
    obtain rfl := Option.some.inj resumed
    exact .unlockExit

end Resuming

/-- The inversion of a step. -/
theorem step_cases {thread after : Thread} {event : Event} {call : Syscall}
    (taken : thread.step event = some (call, after)) :
    thread.pc = event.pc ∧ thread.Resumes event after := by
  obtain ⟨waiting, _, resumed⟩ := step_eq_some_iff.mp taken
  exact ⟨waiting, resumes resumed⟩

end Thread

/-- One handler thread under every outcome of its calls. -/
def process : Machine Thread Event Syscall where
  step := Thread.step

end Aesd.Server
