import Aesd.Server.IdealDevice

namespace Aesd.Server

open Aesd.Library Aesd.Driver

def isSeek (payload : List Byte) : Bool := kIOCtrlStr.isPrefixOf payload

/-- A line that is not a seek command, with its newline. -/
def OrdinaryLine (text : List Byte) : Prop :=
  isSeek text = false ∧ text.getLast? = some newline

instance (text : List Byte) : Decidable (OrdinaryLine text) :=
  inferInstanceAs (Decidable (_ ∧ _))

/-- The commands after a payload's operation, and the position it leaves. -/
def outcome (retention : Retention) (commands : List (List Byte)) (payload : List Byte) :
    Option (List (List Byte) × Nat) :=
  match operationOf payload with
  | none => none
  | some (.write line) =>
    let written := retention.retain (commands ++ [line])
    some (written, written.flatten.length)
  | some (.seek seekto) => (IdealDevice.target commands seekto).map (Prod.mk commands)

/-- The line that a call appended to the device. -/
def appended : Event → Syscall → List (List Byte)
  | .write (some _), .write payload => [payload]
  | _, _ => []

/-- The bytes that a call handed to the client. -/
def delivered : Event → Syscall → List Byte
  | .send (some _), .send bytes => bytes
  | _, _ => []

def writesOf (payload : List Byte) : List (List Byte) :=
  if isSeek payload then [] else [payload]

section Flag

@[simp] theorem Thread.giveUp_ioctlCmdRecv (thread : Thread) :
    thread.giveUp.ioctlCmdRecv = thread.ioctlCmdRecv := rfl

@[simp] theorem Thread.scan_ioctlCmdRecv (thread : Thread) :
    thread.scan.ioctlCmdRecv = thread.ioctlCmdRecv := rfl

@[simp] theorem Thread.receive_ioctlCmdRecv (thread : Thread) (data : List Byte) :
    (thread.receive data).ioctlCmdRecv = thread.ioctlCmdRecv := by
  simp only [Thread.receive]
  split <;> rfl

@[simp] theorem Thread.grow_ioctlCmdRecv (thread : Thread) (fresh : List Byte) :
    (thread.grow fresh).ioctlCmdRecv = thread.ioctlCmdRecv := by
  unfold Thread.grow
  split <;> rfl

@[simp] theorem Thread.chooseOffset_ioctlCmdRecv (thread : Thread) :
    thread.chooseOffset.ioctlCmdRecv = thread.ioctlCmdRecv := by
  unfold Thread.chooseOffset
  split <;> rfl

/-- Only the choice behind the open sets the flag, and nothing resets it. -/
theorem resume_ioctlCmdRecv {thread next : Thread} {event : Event}
    (resumed : thread.resume event = some next)
    (quiet : ∀ result, event ≠ .openDevice result) : next.ioctlCmdRecv = thread.ioctlCmdRecv := by
  cases Thread.resumes resumed with
  | openDevice => exact absurd rfl (quiet _)
  | recv | realloc | ioctl | write => simp
  | _ => rfl

end Flag

section Phases

variable (retention : Retention) (payload : List Byte) (commands : List (List Byte)) (flag : Bool)

/-- The operation is performed, and the reply is to start at `start`. -/
structure Working (thread : Thread) (device : IdealDevice) (start : Nat) : Prop where
  performed : ∃ after, outcome retention commands payload = some (device.commands, after) ∧
    start = if flag || isSeek payload then after else 0
  flagged : thread.ioctlCmdRecv = (flag || isSeek payload)

/-- `bytesProcessed` is the length of the content, as far as an `int` can tell. -/
def Measured (thread : Thread) (device : IdealDevice) : Prop :=
  thread.bytesProcessed.toInt = (device.content.length : Int).bmod (2 ^ 32)

def SendBuffer (thread : Thread) : Prop :=
  ∃ block bytes, thread.sendBuffer = some ⟨block, 0⟩ ∧ thread.heap.cells block = some bytes ∧
    (bytes.length : Int) = thread.bytesProcessed.toInt

/-- What the reply is when it is finished. -/
def Replied (thread : Thread) (device : IdealDevice) (start : Nat) (sent : List Byte) : Prop :=
  0 ≤ thread.bytesProcessed.toInt ∧
    sent = if thread.bytesProcessed.toInt = 0 then [] else device.content.drop start

/-- The states of a turn in which nothing has failed: `written` and `sent` are what
was written to the device and sent since the lock. -/
inductive Phase (thread : Thread) (fd : Option Nat) (device : IdealDevice)
    (written : List (List Byte)) (sent : List Byte) : Prop where
  | opening (pc : thread.pc = .openDevice) (text : thread.text = payload)
      (flagged : thread.ioctlCmdRecv = flag) (kept : device.commands = commands)
      (unwritten : written = []) (silent : sent = [])
  | writing {descriptor : Nat} (pc : thread.pc = .write) (text : thread.text = payload)
      (isLine : isSeek payload = false) (flagged : thread.ioctlCmdRecv = flag)
      (opened : fd = some descriptor) (position : device.position descriptor = some 0)
      (kept : device.commands = commands) (unwritten : written = []) (silent : sent = [])
  | seeking {descriptor : Nat} (pc : thread.pc = .ioctl)
      (means : operationOf payload = some (.seek thread.seekto))
      (flagged : thread.ioctlCmdRecv = true) (opened : fd = some descriptor)
      (position : device.position descriptor = some 0) (kept : device.commands = commands)
      (unwritten : written = []) (silent : sent = [])
  | asking {descriptor after : Nat} (pc : thread.pc = .lseekCur)
      (performed : outcome retention commands payload = some (device.commands, after))
      (flagged : thread.ioctlCmdRecv = true) (isSet : (flag || isSeek payload) = true)
      (opened : fd = some descriptor) (position : device.position descriptor = some after)
      (wrote : written = writesOf payload) (silent : sent = [])
  | measuring {descriptor position start : Nat} (pc : thread.pc = .lseekEnd)
      (working : Working retention payload commands flag thread device start)
      (offset : thread.offset.toInt = start) (opened : fd = some descriptor)
      (position : device.position descriptor = some position)
      (wrote : written = writesOf payload) (silent : sent = [])
  | rewinding {descriptor position start : Nat} (pc : thread.pc = .lseekSet)
      (working : Working retention payload commands flag thread device start)
      (measured : Measured thread device) (offset : thread.offset.toInt = start)
      (opened : fd = some descriptor) (position : device.position descriptor = some position)
      (wrote : written = writesOf payload) (silent : sent = [])
  | allocating {descriptor start : Nat} (pc : thread.pc = .callocSend)
      (working : Working retention payload commands flag thread device start)
      (measured : Measured thread device) (opened : fd = some descriptor)
      (position : device.position descriptor = some start)
      (wrote : written = writesOf payload) (silent : sent = [])
  | reading {descriptor position start : Nat} (pc : thread.pc = .read)
      (working : Working retention payload commands flag thread device start)
      (measured : Measured thread device) (buffer : SendBuffer thread)
      (opened : fd = some descriptor) (positioned : device.position descriptor = some position)
      (wrote : written = writesOf payload)
      (account : sent ++ device.content.drop position = device.content.drop start)
      (idle : thread.bytesProcessed.toInt = 0 → sent = [])
  | sending {descriptor position start : Nat} {data : List Byte} (pc : thread.pc = .send)
      (working : Working retention payload commands flag thread device start)
      (measured : Measured thread device) (buffer : SendBuffer thread)
      (opened : fd = some descriptor) (positioned : device.position descriptor = some position)
      (wrote : written = writesOf payload)
      (staged : (thread.bytesAt thread.sendBuffer).take thread.bytesRead.toInt.toNat = data)
      (account : sent ++ data ++ device.content.drop position = device.content.drop start)
      (some : 0 < thread.bytesProcessed.toInt)
  | closing {descriptor position start : Nat} (pc : thread.pc = .close false)
      (working : Working retention payload commands flag thread device start)
      (measured : Measured thread device) (opened : fd = some descriptor)
      (positioned : device.position descriptor = some position)
      (wrote : written = writesOf payload) (replied : Replied thread device start sent)
  | unlocking {start : Nat} (pc : thread.pc = .unlock false)
      (working : Working retention payload commands flag thread device start)
      (measured : Measured thread device) (wrote : written = writesOf payload)
      (replied : Replied thread device start sent)
  | leaving {start : Nat} (pc : thread.pc = .close true)
      (working : Working retention payload commands flag thread device start)
      (measured : Measured thread device) (refused : thread.bytesProcessed.toInt = -1)

end Phases

section Answers

variable {retention : Retention} {device after : IdealDevice} {fd : Option Nat} {call : Syscall}
variable {event : Event} {descriptor position : Nat}

theorem answer_succeed (onDevice : event.onDevice = true) (works : event.failed = false)
    (opened : fd = some descriptor) (positioned : device.position descriptor = some position) :
    device.answer retention fd call event =
      device.succeed retention descriptor position call event := by
  subst opened
  simp [IdealDevice.answer, onDevice, works, positioned]

theorem answer_send {bytes : List Byte} {count : Nat}
    (answered : device.answer retention fd (.send bytes) (.send (some count)) = some after) :
    after = device := by
  simp only [IdealDevice.answer, Event.onDevice, Bool.false_and, Bool.false_eq_true,
    ↓reduceIte, Option.ite_none_right_eq_some, Option.some.injEq] at answered
  exact answered.2.symm

@[simp] theorem moveTo_commands (device : IdealDevice) (descriptor position : Nat) :
    (device.moveTo descriptor position).commands = device.commands := rfl

@[simp] theorem moveTo_content (device : IdealDevice) (descriptor position : Nat) :
    (device.moveTo descriptor position).content = device.content := rfl

@[simp] theorem moveTo_position (device : IdealDevice) (descriptor position : Nat) :
    (device.moveTo descriptor position).position descriptor = some position := by
  simp [IdealDevice.moveTo]

theorem succeed_ioctl {seekto : AesdSeekto}
    (answered : device.succeed retention descriptor position (.ioctl seekto) (.ioctl true) =
      some after) :
    ∃ target, IdealDevice.target device.commands seekto = some target ∧
      after = device.moveTo descriptor target := by
  obtain ⟨target, found, same⟩ := Option.map_eq_some_iff.mp answered
  exact ⟨target, found, same.symm⟩

theorem succeed_write {payload : List Byte} {count : Nat}
    (answered : device.succeed retention descriptor position (.write payload)
      (.write (some count)) = some after) :
    after.commands = retention.retain (device.commands ++ [payload]) ∧
      after.position descriptor = some after.content.length := by
  simp only [IdealDevice.succeed, Option.ite_none_right_eq_some, Option.some.injEq] at answered
  obtain ⟨_, rfl⟩ := answered
  exact ⟨rfl, moveTo_position _ _ _⟩

theorem succeed_lseekCur {offset result : Int64}
    (answered : device.succeed retention descriptor position (.lseek offset .seekCur)
      (.lseekCur result) = some after) : result.toInt = position ∧ after = device := by
  simp only [IdealDevice.succeed, Option.ite_none_right_eq_some, Option.some.injEq] at answered
  exact ⟨answered.1, answered.2.symm⟩

theorem succeed_lseekEnd {offset result : Int64}
    (answered : device.succeed retention descriptor position (.lseek offset .seekEnd)
      (.lseekEnd result) = some after) :
    result.toInt = device.content.length ∧
      after = device.moveTo descriptor device.content.length := by
  simp only [IdealDevice.succeed, Option.ite_none_right_eq_some, Option.some.injEq] at answered
  exact ⟨answered.1, answered.2.symm⟩

theorem succeed_lseekSet {offset result : Int64}
    (answered : device.succeed retention descriptor position (.lseek offset .seekSet)
      (.lseekSet result) = some after) :
    after = device.moveTo descriptor offset.toInt.toNat := by
  simp only [IdealDevice.succeed, Option.ite_none_right_eq_some, Option.some.injEq] at answered
  exact answered.2.symm

theorem succeed_read {count : Nat} {data : List Byte}
    (answered : device.succeed retention descriptor position (.read count)
      (.read (some data)) = some after) :
    data ++ device.content.drop (position + data.length) = device.content.drop position ∧
      (data = [] → device.content.drop position = [] ∨ count = 0) ∧
        after = device.moveTo descriptor (position + data.length) := by
  simp only [IdealDevice.succeed, Option.ite_none_right_eq_some, Option.some.injEq] at answered
  obtain ⟨⟨isPrefix, _, stops⟩, same⟩ := answered
  refine ⟨?_, stops, same.symm⟩
  obtain ⟨rest, whole⟩ := List.isPrefixOf_iff_prefix.mp isPrefix
  rw [← List.drop_drop, ← whole, List.drop_left]

end Answers

/-- The global descriptor after an event. -/
def Event.globalFd (fd : Option Nat) : Event → Option Nat
  | .openDevice result => result
  | _ => fd

section Step

variable {retention : Retention} {payload : List Byte} {commands : List (List Byte)} {flag : Bool}
variable {thread next : Thread} {fd : Option Nat} {device after : IdealDevice}
variable {written : List (List Byte)} {sent : List Byte} {event : Event} {call : Syscall}

/-- After the operation the thread asks for the position when a seek was received on
the connection, and starts at 0 otherwise. -/
theorem phase_chooseOffset {descriptor position : Nat}
    (performed : outcome retention commands payload = some (after.commands, position))
    (flagged : thread.ioctlCmdRecv = (flag || isSeek payload)) (opened : fd = some descriptor)
    (positioned : after.position descriptor = some position)
    (wrote : written = writesOf payload) (silent : sent = []) :
    Phase retention payload commands flag thread.chooseOffset fd after written sent := by
  unfold Thread.chooseOffset
  cases isSet : flag || isSeek payload with
  | true =>
    rw [if_pos (flagged.trans isSet)]
    exact .asking rfl performed (flagged.trans isSet) isSet opened positioned wrote silent
  | false =>
    have unset : ¬ thread.ioctlCmdRecv = true := by
      rw [flagged, isSet]
      nofun
    rw [if_neg unset]
    have start : 0 = if (flag || isSeek payload) = true then position else 0 := by
      rw [isSet]
      rfl
    exact .measuring rfl ⟨⟨position, performed, start⟩, flagged⟩ rfl opened positioned wrote silent

theorem outcome_line (isLine : isSeek payload = false) :
    outcome retention commands payload =
      some (retention.retain (commands ++ [payload]),
        (retention.retain (commands ++ [payload])).flatten.length) := by
  rw [outcome, operationOf_eq_write.mpr ⟨rfl, isLine⟩]

theorem outcome_seek {seekto : AesdSeekto} (means : operationOf payload = some (.seek seekto)) :
    outcome retention commands payload =
      (IdealDevice.target commands seekto).map (Prod.mk commands) := by
  rw [outcome, means]

theorem writesOf_line (isLine : isSeek payload = false) : writesOf payload = [payload] := by
  rw [writesOf, isLine]
  exact if_neg Bool.false_ne_true

theorem writesOf_seek (seeks : isSeek payload = true) : writesOf payload = [] := by
  rw [writesOf, seeks]
  exact if_pos rfl

theorem Working.move {start : Nat} (working : Working retention payload commands flag thread device start)
    (flagged : next.ioctlCmdRecv = thread.ioctlCmdRecv) (kept : after.commands = device.commands) :
    Working retention payload commands flag next after start := by
  obtain ⟨performed, set⟩ := working
  exact ⟨kept ▸ performed, flagged.trans set⟩

theorem put_send {block : Nat} {bytes data : List Byte}
    (pointed : thread.sendBuffer = some ⟨block, 0⟩)
    (cells : thread.heap.cells block = some bytes) (fits : data.length ≤ bytes.length) :
    ∃ filled, (thread.put thread.sendBuffer 0 data).cells block = some filled ∧
      filled.length = bytes.length ∧ filled.take data.length = data := by
  have present : thread.heap.live block := by
    rw [Heap.live, cells]
    rfl
  have shape : thread.put thread.sendBuffer 0 data =
      thread.heap.store block (patch bytes 0 data) := by
    simp only [Thread.put, pointed, Heap.bytes, cells, Option.getD_some, Nat.zero_add]
  refine ⟨patch bytes 0 data, ?_, ?_, ?_⟩
  · rw [shape]
    exact Heap.store_cells_self _ present
  · exact length_patch (by omega)
  · simp [patch]

theorem SendBuffer.staged {thread : Thread} (buffer : SendBuffer thread) {data : List Byte}
    (fits : data.length ≤ sizeT thread.bytesProcessed) :
    SendBuffer { thread with heap := thread.put thread.sendBuffer 0 data } ∧
      (Int64.ofNat data.length).toInt = data.length ∧
      ({ thread with
        heap := thread.put thread.sendBuffer 0 data
        bytesRead := Int64.ofNat data.length }.bytesAt thread.sendBuffer).take
          (Int64.ofNat data.length).toInt.toNat = data := by
  obtain ⟨block, bytes, pointed, cells, length⟩ := buffer
  have nonneg : 0 ≤ thread.bytesProcessed.toInt := by omega
  have size := sizeT_of_nonneg nonneg
  have bound := thread.bytesProcessed.toInt_lt
  have count : (Int64.ofNat data.length).toInt = data.length :=
    Int64.toInt_ofNat_of_lt (by omega)
  obtain ⟨filled, stored, same, taken⟩ := put_send pointed cells (by omega : data.length ≤ bytes.length)
  refine ⟨⟨block, filled, pointed, stored, ?_⟩, count, ?_⟩
  · rw [same]
    exact length
  · rw [count, Int.toNat_natCast]
    simp only [Thread.bytesAt, pointed, Heap.bytes, List.drop_zero]
    rw [pointed] at stored
    rw [stored, Option.getD_some, taken]

namespace Phase

/-- In the first step the text tells which of the two operations follows. -/
theorem opening_step (pc : thread.pc = .openDevice) (text : thread.text = payload)
    (flagged : thread.ioctlCmdRecv = flag) (kept : device.commands = commands)
    (meaningful : operationOf payload ≠ none) (taken : thread.step event = some (call, next))
    (answered : device.answer retention fd call event = some after)
    (works : event.failed = false) :
    Phase retention payload commands flag next (event.globalFd fd) after
      ([] ++ appended event call) ([] ++ delivered event call) := by
  obtain ⟨waiting, asked, resumed⟩ := Thread.step_eq_some_iff.mp taken
  rw [pc] at waiting
  obtain rfl : call = .openDevice := by rw [asked, Thread.syscall, pc]
  cases event with
  | openDevice result =>
    obtain rfl := Option.some.inj resumed
    cases result with
    | none => cases works
    | some descriptor =>
      obtain rfl := Option.some.inj answered
      rw [dispatch_eq, text]
      cases means : operationOf payload with
      | none => exact absurd means meaningful
      | some operation =>
        cases operation with
        | write line =>
          have isLine := (operationOf_eq_write.mp means).2
          exact .writing rfl text isLine flagged rfl (moveTo_position _ _ _) kept rfl rfl
        | seek seekto => exact .seeking rfl means rfl rfl (moveTo_position _ _ _) kept rfl rfl
  | _ => cases waiting

theorem writing_step {descriptor : Nat} (pc : thread.pc = .write) (text : thread.text = payload)
    (isLine : isSeek payload = false) (flagged : thread.ioctlCmdRecv = flag)
    (opened : fd = some descriptor) (positioned : device.position descriptor = some 0)
    (kept : device.commands = commands) (taken : thread.step event = some (call, next))
    (answered : device.answer retention fd call event = some after)
    (works : event.failed = false) :
    Phase retention payload commands flag next (event.globalFd fd) after
      ([] ++ appended event call) ([] ++ delivered event call) := by
  obtain ⟨waiting, asked, resumed⟩ := Thread.step_eq_some_iff.mp taken
  rw [pc] at waiting
  obtain rfl : call = .write payload := by rw [asked, Thread.syscall, pc, text]
  cases event with
  | write result =>
    cases result with
    | none => cases works
    | some count =>
      simp only [Thread.resume, Option.ite_none_right_eq_some, Option.some.injEq] at resumed
      obtain ⟨_, rfl⟩ := resumed
      rw [answer_succeed rfl rfl opened positioned] at answered
      obtain ⟨stored, moved⟩ := succeed_write answered
      rw [kept] at stored
      refine phase_chooseOffset ?_ ?_ opened moved (writesOf_line isLine).symm rfl
      · rw [outcome_line isLine, IdealDevice.content, stored]
      · rw [flagged, isLine, Bool.or_false]
  | _ => cases waiting

theorem seeking_step {descriptor : Nat} (pc : thread.pc = .ioctl)
    (means : operationOf payload = some (.seek thread.seekto))
    (flagged : thread.ioctlCmdRecv = true) (opened : fd = some descriptor)
    (positioned : device.position descriptor = some 0) (kept : device.commands = commands)
    (taken : thread.step event = some (call, next))
    (answered : device.answer retention fd call event = some after)
    (works : event.failed = false) :
    Phase retention payload commands flag next (event.globalFd fd) after
      ([] ++ appended event call) ([] ++ delivered event call) := by
  obtain ⟨waiting, asked, resumed⟩ := Thread.step_eq_some_iff.mp taken
  rw [pc] at waiting
  obtain rfl : call = .ioctl thread.seekto := by rw [asked, Thread.syscall, pc]
  have seeks : isSeek payload = true := isPrefixOf_of_operationOf_seek means
  cases event with
  | ioctl succeeds =>
    cases succeeds with
    | false => cases works
    | true =>
      obtain rfl := Option.some.inj resumed
      rw [answer_succeed rfl rfl opened positioned] at answered
      obtain ⟨target, found, rfl⟩ := succeed_ioctl answered
      refine phase_chooseOffset ?_ ?_ opened (moveTo_position _ _ _) (writesOf_seek seeks).symm rfl
      · rw [kept] at found
        rw [outcome_seek means, moveTo_commands, kept]
        exact congrArg (Option.map (Prod.mk commands)) found
      · rw [flagged, seeks, Bool.or_true]
  | _ => cases waiting

theorem asking_step {descriptor start : Nat} (pc : thread.pc = .lseekCur)
    (performed : outcome retention commands payload = some (device.commands, start))
    (flagged : thread.ioctlCmdRecv = true) (isSet : (flag || isSeek payload) = true)
    (opened : fd = some descriptor) (position : device.position descriptor = some start)
    (wrote : written = writesOf payload) (taken : thread.step event = some (call, next))
    (answered : device.answer retention fd call event = some after)
    (works : event.failed = false) :
    Phase retention payload commands flag next (event.globalFd fd) after
      (written ++ appended event call) ([] ++ delivered event call) := by
  obtain ⟨waiting, asked, resumed⟩ := Thread.step_eq_some_iff.mp taken
  rw [pc] at waiting
  obtain rfl : call = .lseek 0 .seekCur := by rw [asked, Thread.syscall, pc]
  cases event with
  | lseekCur result =>
    obtain rfl := Option.some.inj resumed
    rw [answer_succeed rfl works opened position] at answered
    obtain ⟨exact, rfl⟩ := succeed_lseekCur answered
    have chosen : start = if (flag || isSeek payload) = true then start else 0 :=
      (if_pos isSet).symm
    simp only [appended, List.append_nil]
    exact .measuring rfl ⟨⟨_, performed, chosen⟩, flagged.trans isSet.symm⟩ exact opened position
      wrote rfl
  | _ => cases waiting

/-- The length goes into an `int`; a -1 there counts as a failure. -/
theorem measuring_step {descriptor position start : Nat} (pc : thread.pc = .lseekEnd)
    (working : Working retention payload commands flag thread device start)
    (offset : thread.offset.toInt = start) (opened : fd = some descriptor)
    (positioned : device.position descriptor = some position) (wrote : written = writesOf payload)
    (taken : thread.step event = some (call, next))
    (answered : device.answer retention fd call event = some after)
    (works : event.failed = false) :
    Phase retention payload commands flag next (event.globalFd fd) after
      (written ++ appended event call) ([] ++ delivered event call) := by
  obtain ⟨waiting, asked, resumed⟩ := Thread.step_eq_some_iff.mp taken
  rw [pc] at waiting
  obtain rfl : call = .lseek 0 .seekEnd := by rw [asked, Thread.syscall, pc]
  cases event with
  | lseekEnd result =>
    obtain rfl := Option.some.inj resumed
    rw [answer_succeed rfl works opened positioned] at answered
    obtain ⟨exact, rfl⟩ := succeed_lseekEnd answered
    have measured : result.toInt32.toInt = (device.content.length : Int).bmod (2 ^ 32) := by
      rw [← exact]
      exact Int64.toInt_toInt32 result
    simp only [appended, List.append_nil]
    by_cases refused : result.toInt32 = -1
    · exact .leaving (if_pos refused) (working.move rfl rfl) measured (congrArg Int32.toInt refused)
    · exact .rewinding (if_neg refused) (working.move rfl rfl) measured offset opened
        (moveTo_position _ _ _) wrote rfl
  | _ => cases waiting

theorem rewinding_step {descriptor position start : Nat} (pc : thread.pc = .lseekSet)
    (working : Working retention payload commands flag thread device start)
    (measured : Measured thread device) (offset : thread.offset.toInt = start)
    (opened : fd = some descriptor) (positioned : device.position descriptor = some position)
    (wrote : written = writesOf payload) (taken : thread.step event = some (call, next))
    (answered : device.answer retention fd call event = some after)
    (works : event.failed = false) :
    Phase retention payload commands flag next (event.globalFd fd) after
      (written ++ appended event call) ([] ++ delivered event call) := by
  obtain ⟨waiting, asked, resumed⟩ := Thread.step_eq_some_iff.mp taken
  rw [pc] at waiting
  obtain rfl : call = .lseek thread.offset .seekSet := by rw [asked, Thread.syscall, pc]
  cases event with
  | lseekSet result =>
    obtain rfl := Option.some.inj resumed
    rw [answer_succeed rfl works opened positioned] at answered
    have same := succeed_lseekSet answered
    rw [offset, Int.toNat_natCast] at same
    subst same
    simp only [appended, List.append_nil]
    exact .allocating rfl (working.move rfl rfl) measured opened (moveTo_position _ _ _) wrote rfl
  | _ => cases waiting

theorem allocating_step {descriptor start : Nat} (pc : thread.pc = .callocSend)
    (working : Working retention payload commands flag thread device start)
    (measured : Measured thread device) (opened : fd = some descriptor)
    (position : device.position descriptor = some start) (wrote : written = writesOf payload)
    (taken : thread.step event = some (call, next))
    (answered : device.answer retention fd call event = some after)
    (works : event.failed = false) :
    Phase retention payload commands flag next (event.globalFd fd) after
      (written ++ appended event call) ([] ++ delivered event call) := by
  obtain ⟨waiting, asked, resumed⟩ := Thread.step_eq_some_iff.mp taken
  rw [pc] at waiting
  obtain rfl : call = .calloc (sizeT thread.bytesProcessed) := by rw [asked, Thread.syscall, pc]
  cases event with
  | callocSend succeeds =>
    cases succeeds with
    | false => cases works
    | true =>
      simp only [Thread.resume, Option.ite_none_right_eq_some, Option.some.injEq] at resumed
      obtain ⟨possible, rfl⟩ := resumed
      obtain rfl := Option.some.inj answered
      have size := sizeT_of_nonneg (nonneg_of_sizeT_lt possible)
      simp only [appended, List.append_nil]
      refine .reading rfl (working.move rfl rfl) measured
        ⟨_, _, rfl, Heap.alloc_cells_self _ _, ?_⟩ opened position wrote rfl fun _ => rfl
      rw [List.length_replicate]
      exact size
  | _ => cases waiting

theorem read_reply {descriptor position start : Nat}
    (working : Working retention payload commands flag thread device start)
    (measured : Measured thread device) (buffer : SendBuffer thread)
    (opened : fd = some descriptor) (positioned : device.position descriptor = some position)
    (wrote : written = writesOf payload)
    (account : sent ++ device.content.drop position = device.content.drop start)
    (idle : thread.bytesProcessed.toInt = 0 → sent = []) {data : List Byte}
    (resumed : thread.resume (.read (some data)) = some next)
    (answered : device.answer retention fd (.read (sizeT thread.bytesProcessed))
      (.read (some data)) = some after) :
    Phase retention payload commands flag next fd after written sent := by
  obtain ⟨_, bytes, _, _, length⟩ := id buffer
  have nonneg : 0 ≤ thread.bytesProcessed.toInt := by omega
  have size := sizeT_of_nonneg nonneg
  simp only [Thread.resume, Option.ite_none_right_eq_some, Option.some.injEq] at resumed
  obtain ⟨fits, rfl⟩ := resumed
  obtain ⟨buffered, count, staged⟩ := SendBuffer.staged buffer fits
  rw [answer_succeed rfl rfl opened positioned] at answered
  obtain ⟨rest, stops, rfl⟩ := succeed_read answered
  by_cases finished : data = []
  · subst finished
    have moved : Working retention payload commands flag
        { thread with
          heap := thread.put thread.sendBuffer 0 []
          bytesRead := Int64.ofNat ([] : List Byte).length
          pc := .close false }
        (device.moveTo descriptor (position + ([] : List Byte).length)) start :=
      working.move rfl rfl
    refine .closing rfl moved measured opened (moveTo_position _ _ _) wrote ⟨nonneg, ?_⟩
    dsimp only
    by_cases nothing : thread.bytesProcessed.toInt = 0
    · rw [if_pos nothing]
      exact idle nothing
    · rcases stops rfl with exhausted | zero
      · rw [if_neg nothing, moveTo_content, ← account, exhausted, List.append_nil]
      · omega
  · have some := List.length_pos_iff.mpr finished
    have nonzero : ¬ Int64.ofNat data.length = 0 := by
      intro zero
      rw [zero] at count
      have none : (0 : Int64).toInt = 0 := rfl
      omega
    refine .sending (if_neg nonzero) (working.move rfl rfl) measured buffered opened
      (moveTo_position _ _ _) wrote staged ?_ ?_
    · rw [List.append_assoc, moveTo_content, rest, account]
    · dsimp only
      omega

theorem reading_step {descriptor position start : Nat} (pc : thread.pc = .read)
    (working : Working retention payload commands flag thread device start)
    (measured : Measured thread device) (buffer : SendBuffer thread)
    (opened : fd = some descriptor) (positioned : device.position descriptor = some position)
    (wrote : written = writesOf payload)
    (account : sent ++ device.content.drop position = device.content.drop start)
    (idle : thread.bytesProcessed.toInt = 0 → sent = [])
    (taken : thread.step event = some (call, next))
    (answered : device.answer retention fd call event = some after)
    (works : event.failed = false) :
    Phase retention payload commands flag next (event.globalFd fd) after
      (written ++ appended event call) (sent ++ delivered event call) := by
  obtain ⟨waiting, asked, resumed⟩ := Thread.step_eq_some_iff.mp taken
  rw [pc] at waiting
  obtain rfl : call = .read (sizeT thread.bytesProcessed) := by rw [asked, Thread.syscall, pc]
  cases event with
  | read result =>
    cases result with
    | none => cases works
    | some data =>
      simp only [appended, delivered, List.append_nil]
      exact read_reply working measured buffer opened positioned wrote account idle resumed answered
  | _ => cases waiting

/-- A `send` is given all that was read. -/
theorem sending_step {descriptor position start : Nat} {data : List Byte}
    (pc : thread.pc = .send) (working : Working retention payload commands flag thread device start)
    (measured : Measured thread device) (buffer : SendBuffer thread)
    (opened : fd = some descriptor) (positioned : device.position descriptor = some position)
    (wrote : written = writesOf payload)
    (staged : (thread.bytesAt thread.sendBuffer).take thread.bytesRead.toInt.toNat = data)
    (account : sent ++ data ++ device.content.drop position = device.content.drop start)
    (some : 0 < thread.bytesProcessed.toInt) (taken : thread.step event = .some (call, next))
    (answered : device.answer retention fd call event = .some after)
    (works : event.failed = false) :
    Phase retention payload commands flag next (event.globalFd fd) after
      (written ++ appended event call) (sent ++ delivered event call) := by
  obtain ⟨waiting, asked, resumed⟩ := Thread.step_eq_some_iff.mp taken
  rw [pc] at waiting
  obtain rfl : call = .send data := by rw [asked, Thread.syscall, pc, staged]
  cases event with
  | send result =>
    cases result with
    | none => cases works
    | some count =>
      simp only [Thread.resume, Option.ite_none_right_eq_some, Option.some.injEq] at resumed
      obtain ⟨_, rfl⟩ := resumed
      obtain rfl := answer_send answered
      simp only [appended, List.append_nil]
      refine .reading rfl (working.move rfl rfl) measured buffer opened positioned wrote account ?_
      intro nothing
      dsimp only at nothing
      omega
  | _ => cases waiting

theorem closing_step {descriptor start : Nat} (pc : thread.pc = .close false)
    (working : Working retention payload commands flag thread device start)
    (measured : Measured thread device) (opened : fd = some descriptor)
    (wrote : written = writesOf payload) (replied : Replied thread device start sent)
    (taken : thread.step event = some (call, next))
    (answered : device.answer retention fd call event = some after)
    (works : event.failed = false) :
    Phase retention payload commands flag next (event.globalFd fd) after
      (written ++ appended event call) (sent ++ delivered event call) := by
  obtain ⟨waiting, asked, resumed⟩ := Thread.step_eq_some_iff.mp taken
  rw [pc] at waiting
  obtain rfl : call = .close := by rw [asked, Thread.syscall, pc]
  cases event with
  | close failed =>
    obtain rfl : failed = false := works
    obtain rfl := Option.some.inj resumed
    subst opened
    obtain rfl := Option.some.inj answered
    simp only [appended, delivered, List.append_nil]
    exact .unlocking rfl (working.move rfl rfl) measured wrote replied
  | _ => cases waiting

/-- A step of the turn's own thread, as long as nothing fails and the turn goes on. -/
theorem step (meaningful : operationOf payload ≠ none)
    (phase : Phase retention payload commands flag thread fd device written sent)
    (taken : thread.step event = some (call, next))
    (answered : device.answer retention fd call event = some after)
    (works : event.failed = false) (stays : event ≠ .unlock false) :
    Phase retention payload commands flag next (event.globalFd fd) after
      (written ++ appended event call) (sent ++ delivered event call) := by
  cases phase with
  | opening pc text flagged kept unwritten silent =>
    subst unwritten silent
    exact opening_step pc text flagged kept meaningful taken answered works
  | writing pc text isLine flagged opened position kept unwritten silent =>
    subst unwritten silent
    exact writing_step pc text isLine flagged opened position kept taken answered works
  | seeking pc means flagged opened position kept unwritten silent =>
    subst unwritten silent
    exact seeking_step pc means flagged opened position kept taken answered works
  | asking pc performed flagged isSet opened position wrote silent =>
    subst silent
    exact asking_step pc performed flagged isSet opened position wrote taken answered works
  | measuring pc working offset opened position wrote silent =>
    subst silent
    exact measuring_step pc working offset opened position wrote taken answered works
  | rewinding pc working measured offset opened position wrote silent =>
    subst silent
    exact rewinding_step pc working measured offset opened position wrote taken answered works
  | allocating pc working measured opened position wrote silent =>
    subst silent
    exact allocating_step pc working measured opened position wrote taken answered works
  | reading pc working measured buffer opened positioned wrote account idle =>
    exact reading_step pc working measured buffer opened positioned wrote account idle taken
      answered works
  | sending pc working measured buffer opened positioned wrote staged account some =>
    exact sending_step pc working measured buffer opened positioned wrote staged account some taken
      answered works
  | closing pc working measured opened positioned wrote replied =>
    exact closing_step pc working measured opened wrote replied taken answered works
  | unlocking pc working measured wrote replied =>
    obtain ⟨waiting, _⟩ := Thread.step_eq_some_iff.mp taken
    rw [pc] at waiting
    cases event with
    | unlock failed =>
      obtain rfl : failed = false := works
      exact absurd rfl stays
    | _ => cases waiting
  | leaving pc =>
    obtain ⟨waiting, _⟩ := Thread.step_eq_some_iff.mp taken
    rw [pc] at waiting
    cases event with
    | close failed =>
      obtain rfl : failed = false := works
      cases waiting
    | _ => cases waiting

end Phase

end Step

end Aesd.Server
