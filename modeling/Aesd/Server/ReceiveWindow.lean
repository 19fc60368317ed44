import Aesd.Server.StaleBytes

namespace Aesd.Server

open Aesd.Library Aesd.Driver

/-- The receive buffer is the start of a block of `bufferSize` bytes. -/
def InBlock (thread : Thread) (bytes : List Byte) : Prop :=
  (∃ block, thread.recvBuffer = some ⟨block, 0⟩ ∧ thread.heap.cells block = some bytes) ∧
    thread.bufferSize.toInt = bytes.length

/-- The bytes that `recv` may write: at least one, all in the block, before its last
one and behind the bytes received so far. -/
structure WindowInside (received : List Byte) (thread : Thread) : Prop where
  block : ∃ bytes, InBlock thread bytes
  index : thread.bufferIndex.toInt = received.length
  nonempty : thread.bufferIndex.toInt < thread.bufferSize.toInt - 1
  asked : ∃ window, thread.syscall = .recv window ∧
    (window : Int) = thread.bufferSize.toInt - 1 - thread.bufferIndex.toInt

/-- The string that `strchr` scans ends in the block, at its last byte if not before. -/
def ScanInside (thread : Thread) : Prop :=
  ∃ bytes, InBlock thread bytes ∧ bytes[(thread.bufferSize.toInt - 1).toNat]? = some 0 ∧
    thread.text.length < bytes.length

section

variable {past : List (Event × Syscall)} {thread : Thread}

theorem HoldsBlock.inBlock (holds : HoldsBlock past thread Sized) :
    InBlock thread ((turnOf past).flatten ++ behind past) := by
  obtain ⟨⟨block, holding⟩, sized, _⟩ := holds
  refine ⟨⟨block, holding.pointed, holding.cells⟩, ?_⟩
  rw [List.length_append]
  push_cast
  exact sized

theorem HoldsBlock.window (holds : HoldsBlock past thread Sized) (waiting : thread.pc = .recv)
    (room : 2 ≤ (behind past).length) : WindowInside (turnOf past).flatten thread := by
  have inside := holds.inBlock
  obtain ⟨⟨block, holding⟩, sized, _⟩ := holds
  have index := holding.index
  have window := holding.window sized
  have exact := sizeT_of_nonneg (show 0 ≤ thread.recvWindow.toInt by omega)
  unfold Sized at sized
  refine ⟨⟨_, inside⟩, index, by omega, sizeT thread.recvWindow, ?_, by omega⟩
  rw [Thread.syscall, waiting]

theorem length_cString_lt {text rest : List Byte} :
    (cString (text ++ 0 :: rest)).length < (text ++ 0 :: rest).length := by
  have shorter := (List.takeWhile_prefix (l := text ++ 0 :: rest) (· ≠ 0)).length_le
  refine Nat.lt_of_le_of_ne shorter fun same => ?_
  have whole := List.takeWhile_eq_self_iff.mp
    ((List.takeWhile_prefix (l := text ++ 0 :: rest) (· ≠ 0)).eq_of_length same) 0 (by simp)
  exact absurd whole (by decide)

theorem HoldsBlock.scanInside (holds : HoldsBlock past thread Sized) : ScanInside thread := by
  have inside := holds.inBlock
  have text := holds.text
  obtain ⟨_, _, front, ends⟩ := holds
  have last : (turnOf past).flatten ++ behind past = (turnOf past).flatten ++ front ++ 0 :: [] := by
    rw [ends, List.append_assoc]
  rw [last] at inside text
  refine ⟨_, inside, ?_, ?_⟩
  · have position : (thread.bufferSize.toInt - 1).toNat = ((turnOf past).flatten ++ front).length := by
      have size := inside.2
      rw [List.length_append, List.length_singleton] at size
      omega
    rw [position, List.getElem?_concat_length]
  · rw [text]
    exact length_cString_lt

end

/-- In every run, whatever `recv` and `realloc` return: at each `recv` the window is
not empty and lies in the block, right behind the bytes received since it was
allocated; and after each scan the last byte of the block is zero, so the scan has
stayed inside. -/
theorem window_and_scan_inside {trace : List (Event × Syscall)} {thread : Thread}
    (run : process.Run Thread.start trace thread) :
    (thread.pc = .recv → WindowInside (turnOf trace).flatten thread) ∧
      (thread.pc = .checkExit ∨ thread.pc = .recv ∨ thread.pc = .lock → ScanInside thread) := by
  have held := run_held run
  constructor
  · intro waiting
    rw [Held, waiting] at held
    exact held.1.window waiting held.2.2
  · rintro (waiting | waiting | waiting)
    · rw [Held, waiting] at held
      exact held.1.scanInside
    · rw [Held, waiting] at held
      exact held.1.scanInside
    · rw [Held, waiting] at held
      exact held.1.scanInside

/-- After a full window the block grows, and the next window starts at its 128th byte. -/
theorem longLine_window : ∃ trace thread,
    process.exec Thread.start ((longLine 121).take 5) = some (trace, thread) ∧
      thread.pc = .recv ∧ WindowInside (turnOf trace).flatten thread := by
  have runs : ((process.exec Thread.start ((longLine 121).take 5)).any fun result =>
      result.2.pc == .recv) = true := by
    decide +kernel
  obtain ⟨⟨trace, thread⟩, computed, waiting⟩ := (Option.any_eq_true _ _).mp runs
  have place := eq_of_beq waiting
  exact ⟨trace, thread, computed, place, (window_and_scan_inside (.of_exec computed)).1 place⟩

end Aesd.Server
