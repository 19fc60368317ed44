import Aesd.Server.Process

namespace Aesd.Server

open Aesd.Library Aesd.Driver

/-- The places an outcome can lead to. -/
def Event.next : Event → List Pc
  | .callocRecv succeeds => if succeeds then [.checkExit] else [.returned]
  | .checkExit exit => if exit then [.unlockExit] else [.recv]
  | .recv none => [.returned]
  | .recv (some _) => [.realloc, .lock, .checkExit]
  | .realloc none => [.returned]
  | .realloc (some _) => [.realloc, .lock, .checkExit]
  | .lock => [.openDevice]
  | .openDevice _ => [.crashed, .ioctl, .write]
  | .ioctl succeeds => if succeeds then [.lseekCur, .lseekEnd] else [.close true]
  | .write none => [.returned]
  | .write (some _) => [.lseekCur, .lseekEnd]
  | .lseekCur _ => [.lseekEnd]
  | .lseekEnd _ => [.close true, .lseekSet]
  | .lseekSet _ => [.callocSend]
  | .callocSend succeeds => if succeeds then [.read] else [.returned]
  | .read none => [.returned]
  | .read (some _) => [.close false, .send]
  | .send none => [.returned]
  | .send (some _) => [.read]
  | .close failed => [.unlock failed]
  | .unlock failed => if failed then [.returned] else [.callocRecv]
  | .unlockExit => [.returned]

namespace Thread

variable {thread after : Thread} {event : Event} {call : Syscall}

theorem scan_pc (thread : Thread) : thread.scan.pc ∈ [Pc.realloc, .lock, .checkExit] := by
  unfold scan
  dsimp only
  split_ifs
  · exact List.mem_cons_of_mem _ List.mem_cons_self
  · exact List.mem_cons_of_mem _ (List.mem_cons_of_mem _ List.mem_cons_self)

theorem receive_pc (thread : Thread) (data : List Byte) :
    (thread.receive data).pc ∈ [Pc.realloc, .lock, .checkExit] := by
  simp only [receive]
  split
  · exact List.mem_cons_self
  · exact scan_pc _

theorem grow_pc (growing : thread.pc = .realloc) (fresh : List Byte) :
    (thread.grow fresh).pc ∈ [Pc.realloc, .lock, .checkExit] := by
  unfold grow
  split
  · rw [growing]
    exact List.mem_cons_self
  · exact scan_pc _

theorem dispatch_pc (thread : Thread) : thread.dispatch.pc ∈ [Pc.crashed, .ioctl, .write] := by
  unfold dispatch
  split
  · split
    · exact List.mem_cons_self
    · exact List.mem_cons_of_mem _ List.mem_cons_self
  · exact List.mem_cons_of_mem _ (List.mem_cons_of_mem _ List.mem_cons_self)

theorem chooseOffset_pc (thread : Thread) : thread.chooseOffset.pc ∈ [Pc.lseekCur, .lseekEnd] := by
  unfold chooseOffset
  split
  · exact List.mem_cons_self
  · exact List.mem_cons_of_mem _ List.mem_cons_self

theorem step_next (taken : thread.step event = some (call, after)) : after.pc ∈ event.next := by
  obtain ⟨waiting, resumes⟩ := step_cases taken
  cases resumes with
  | recv => exact receive_pc thread _
  | realloc => exact grow_pc waiting _
  | openDevice => exact dispatch_pc thread
  | ioctl | write => exact chooseOffset_pc thread
  | lseekEnd | read => exact List.mem_cons_of_mem _ List.mem_cons_self
  | _ => exact List.mem_cons_self

/-- What holds of every place an outcome can lead to holds after the step. -/
theorem holds_of_next {good : Pc → Bool} (taken : thread.step event = some (call, after))
    (everywhere : event.next.all good = true) : good after.pc = true :=
  List.all_eq_true.mp everywhere _ (step_next taken)

end Thread

end Aesd.Server
