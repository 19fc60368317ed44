import Aesd.Server.Buffers
import Aesd.Library.Words

namespace Aesd.Server

open Aesd.Library Aesd.Driver

theorem sizeT_eq (value : Int32) : (sizeT value : Int) = value.toInt % 2 ^ 64 := by
  have same := BitVec.toInt_eq_toNat_bmod value.toInt64.toBitVec
  have exact : value.toInt64.toBitVec.toInt = value.toInt := Int32.toInt_toInt64 value
  have small := value.toInt64.toBitVec.isLt
  have wraps : value.toInt % 2 ^ 64 = value.toInt64.toBitVec.toNat := by
    rw [← exact, same]
    exact (Int.bmod_emod).trans (Int.emod_eq_of_lt (by omega) (by omega))
  rw [wraps]
  rfl

theorem sizeT_of_nonneg {value : Int32} (nonneg : 0 ≤ value.toInt) :
    (sizeT value : Int) = value.toInt := by
  have small := value.toInt_lt
  rw [sizeT_eq]
  exact Int.emod_eq_of_lt nonneg (by omega)

theorem nonneg_of_sizeT_lt {value : Int32} (possible : sizeT value < 2 ^ 63) :
    0 ≤ value.toInt := by
  have low := value.le_toInt
  have same := sizeT_eq value
  omega

/-- The receive block holds what was received, and at least one more byte. -/
structure Holding (thread : Thread) (block : Nat) (received tail : List Byte) : Prop where
  pointed : thread.recvBuffer = some ⟨block, 0⟩
  cells : thread.heap.cells block = some (received ++ tail)
  room : tail ≠ []
  index : thread.bufferIndex.toInt = received.length
  small : received.length + tail.length < 2 ^ 31
  aligned : (received.length + tail.length) % 128 = 0

/-- `bufferSize` is the length of the block. -/
def Sized (thread : Thread) (received tail : List Byte) : Prop :=
  thread.bufferSize.toInt = received.length + tail.length

namespace Holding

variable {thread : Thread} {block : Nat} {received tail : List Byte}

theorem start {thread : Thread} : Holding
    { thread with
      heap := (thread.heap.alloc (List.replicate (sizeT kBufferStartLength) 0)).2
      recvBuffer := some ⟨thread.heap.next, 0⟩
      bufferSize := kBufferStartLength
      bufferIndex := 0
      pc := .checkExit } thread.heap.next [] (List.replicate 128 0) where
  pointed := rfl
  cells := Heap.alloc_cells_self _ _
  room := by simp
  index := rfl
  small := by
    rw [List.length_replicate]
    decide
  aligned := by
    rw [List.length_replicate]
    rfl

theorem put (holding : Holding thread block received tail) (position : Nat) (bytes : List Byte) :
    thread.put thread.recvBuffer position bytes =
      thread.heap.store block (patch (received ++ tail) position bytes) := by
  simp only [Thread.put, holding.pointed, Nat.zero_add, Heap.bytes, holding.cells,
    Option.getD_some]

theorem live (holding : Holding thread block received tail) : thread.heap.live block := by
  rw [Heap.live, holding.cells]
  rfl

theorem text (holding : Holding thread block received tail) :
    thread.text = cString (received ++ tail) := by
  simp only [Thread.text, Thread.bytesAt, holding.pointed, List.drop_zero, Heap.bytes,
    holding.cells, Option.getD_some]

theorem window (holding : Holding thread block received tail)
    (sized : Sized thread received tail) : thread.recvWindow.toInt = tail.length - 1 := by
  have present := List.length_pos_iff.mpr holding.room
  have index := holding.index
  have small := holding.small
  unfold Sized at sized
  have difference : (thread.bufferSize - thread.bufferIndex).toInt = tail.length := by
    rw [toInt_sub_of_fits] <;> omega
  have one : (1 : Int32).toInt = 1 := rfl
  rw [Thread.recvWindow, toInt_sub_of_fits] <;> omega

/-- The scan sees the received bytes, terminated at the end of the block. -/
theorem scan (holding : Holding thread block received tail) (sized : Sized thread received tail) :
    Holding thread.scan block received (tail.dropLast ++ [0]) ∧
      Sized thread.scan received (tail.dropLast ++ [0]) ∧
      thread.scan.pc =
        if newline ∈ cString (received ++ (tail.dropLast ++ [0])) then .lock else .checkExit := by
  have present := List.length_pos_iff.mpr holding.room
  have small := holding.small
  have position : (thread.bufferSize - 1).toInt.toNat = (received ++ tail).length - 1 := by
    have one : (1 : Int32).toInt = 1 := rfl
    unfold Sized at sized
    rw [toInt_sub_of_fits, List.length_append] <;> omega
  have nonempty : received ++ tail ≠ [] := fun empty =>
    holding.room (List.append_eq_nil_iff.mp empty).2
  have patched : patch (received ++ tail) (thread.bufferSize - 1).toInt.toNat [0] =
      received ++ (tail.dropLast ++ [0]) := by
    rw [position, patch_last nonempty, List.dropLast_append_of_ne_nil holding.room,
      List.append_assoc]
  have length : (tail.dropLast ++ [(0 : Byte)]).length = tail.length := by
    simp
    omega
  have cells : (thread.put thread.recvBuffer (thread.bufferSize - 1).toInt.toNat [0]).cells block =
      some (received ++ (tail.dropLast ++ [0])) := by
    rw [holding.put, patched]
    exact Heap.store_cells_self _ holding.live
  have held : Holding thread.scan block received (tail.dropLast ++ [0]) :=
    ⟨holding.pointed, cells, by simp, holding.index, by rw [length]; exact small,
      by rw [length]; exact holding.aligned⟩
  refine ⟨held, ?_, ?_⟩
  · rw [Sized, length]
    exact sized
  · have text := held.text
    rw [← text]
    rfl

/-- A `recv` that did not fail puts its bytes behind the ones received before. It
either leaves exactly the last byte, and the block must grow, or goes on to the scan. -/
theorem receive (holding : Holding thread block received tail)
    (sized : Sized thread received tail) {data : List Byte}
    (fits : data.length ≤ sizeT thread.recvWindow) :
    data.length < tail.length ∧
      ((Holding (thread.receive data) block (received ++ data) (tail.drop data.length) ∧
          (thread.receive data).bufferSize = thread.bufferSize + kBufferStartLength ∧
          (thread.receive data).pc = .realloc ∧ data.length + 1 = tail.length) ∨
        (∃ middle : Thread, thread.receive data = middle.scan ∧
          Holding middle block (received ++ data) (tail.drop data.length) ∧
          Sized middle (received ++ data) (tail.drop data.length) ∧
          data.length + 1 < tail.length)) := by
  have present := List.length_pos_iff.mpr holding.room
  have window := holding.window sized
  have exact := sizeT_of_nonneg (show 0 ≤ thread.recvWindow.toInt by omega)
  have less : data.length < tail.length := by omega
  have small := holding.small
  have aligned := holding.aligned
  have index := holding.index
  have position : thread.bufferIndex.toInt.toNat = received.length := by omega
  have cells : (thread.put thread.recvBuffer thread.bufferIndex.toInt.toNat data).cells block =
      some (received ++ data ++ tail.drop data.length) := by
    rw [holding.put, position, patch_append]
    exact Heap.store_cells_self _ holding.live
  have room : tail.drop data.length ≠ [] := by
    rw [ne_eq, List.drop_eq_nil_iff]
    omega
  have length : (received ++ data).length + (tail.drop data.length).length =
      received.length + tail.length := by
    rw [List.length_append, List.length_drop]
    omega
  have count : (Int64.ofNat data.length).toInt = data.length :=
    Int64.toInt_ofNat_of_lt (by omega)
  have full : Int64.ofNat data.length = thread.recvWindow.toInt64 ↔
      data.length + 1 = tail.length := by
    rw [← Int64.toInt_inj, count, Int32.toInt_toInt64, window]
    omega
  refine ⟨less, ?_⟩
  by_cases filled : data.length + 1 = tail.length
  · left
    have advanced : (thread.bufferSize + kBufferStartLength - kBufferStartLength - 1).toInt =
        (received ++ data).length := by
      have one : (1 : Int32).toInt = 1 := rfl
      unfold Sized at sized
      rw [Int32.add_sub_cancel, toInt_sub_of_fits, List.length_append] <;> omega
    simp only [Thread.receive, full.mpr filled, ↓reduceIte]
    exact ⟨⟨holding.pointed, cells, room, advanced, by rw [length]; exact small,
      by rw [length]; exact aligned⟩, trivial, trivial, filled⟩
  · right
    have sum : (thread.bufferIndex.toInt64 + Int64.ofNat data.length).toInt =
        received.length + data.length := by
      rw [Int64.toInt_add, Int32.toInt_toInt64, index, count]
      exact Int.bmod_eq_of_le (by omega) (by omega)
    have advanced : (thread.bufferIndex.toInt64 + Int64.ofNat data.length).toInt32.toInt =
        (received ++ data).length := by
      rw [Int64.toInt_toInt32, sum, bmod_of_fits, List.length_append] <;> omega
    simp only [Thread.receive, mt full.mp filled, ↓reduceIte]
    refine ⟨_, rfl, ⟨holding.pointed, cells, room, advanced, by rw [length]; exact small,
      by rw [length]; exact aligned⟩, ?_, by omega⟩
    refine sized.trans ?_
    exact_mod_cast length.symm

/-- A `realloc` that succeeds adds 128 bytes; sizes beyond `INT_MAX` cannot succeed. -/
theorem grown_length (holding : Holding thread block received tail)
    (sized : thread.bufferSize.toInt =
      ((received.length + tail.length : Int) + 128).bmod (2 ^ 32))
    {fresh : List Byte} (possible : sizeT thread.bufferSize < 2 ^ 63)
    (total : (thread.bytesAt thread.recvBuffer).length + fresh.length = sizeT thread.bufferSize) :
    fresh.length = 128 ∧
      thread.bufferSize.toInt = received.length + tail.length + 128 := by
  have small := holding.small
  have aligned := holding.aligned
  have nonneg := nonneg_of_sizeT_lt possible
  have size := sizeT_of_nonneg nonneg
  have old : (thread.bytesAt thread.recvBuffer).length = received.length + tail.length := by
    simp [Thread.bytesAt, holding.pointed, Heap.bytes, holding.cells]
  have grown : thread.bufferSize.toInt = received.length + tail.length + 128 := by
    rw [sized]
    rw [sized] at nonneg
    by_cases fits : (received.length + tail.length : Int) + 128 < 2 ^ 31
    · exact bmod_of_fits (by omega) fits
    · have wrapped : ((received.length + tail.length : Int) + 128).bmod (2 ^ 32) < 0 := by
        rw [show (received.length + tail.length : Int) + 128 = 2 ^ 31 by omega]
        decide
      omega
  exact ⟨by omega, grown⟩

theorem grow (holding : Holding thread block received tail)
    (sized : thread.bufferSize.toInt =
      ((received.length + tail.length : Int) + 128).bmod (2 ^ 32))
    {fresh : List Byte} (possible : sizeT thread.bufferSize < 2 ^ 63)
    (total : (thread.bytesAt thread.recvBuffer).length + fresh.length = sizeT thread.bufferSize) :
    ∃ middle : Thread, thread.grow fresh = middle.scan ∧
      Holding middle thread.heap.next received (tail ++ fresh) ∧
        Sized middle received (tail ++ fresh) := by
  obtain ⟨more, grown⟩ := holding.grown_length sized possible total
  have aligned := holding.aligned
  unfold Thread.grow
  simp only [holding.pointed]
  refine ⟨_, rfl, ⟨rfl, ?_, by simp [holding.room], holding.index, ?_, ?_⟩, ?_⟩
  · have other : thread.heap.next ≠ block := (Nat.ne_of_lt (Heap.live_lt_next holding.live)).symm
    have bytes : thread.heap.bytes block = received ++ tail := by
      rw [Heap.bytes, holding.cells, Option.getD_some]
    dsimp only
    rw [Heap.discard_cells_of_ne _ other, bytes, List.append_assoc, Heap.alloc_cells_self]
  · have bound := thread.bufferSize.toInt_lt
    rw [List.length_append]
    omega
  · rw [List.length_append]
    omega
  · rw [Sized, List.length_append]
    push_cast
    exact grown.trans (by omega)

end Holding

end Aesd.Server
