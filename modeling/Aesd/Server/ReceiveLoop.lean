import Aesd.Server.Framing
import Aesd.Library.Progress

/-! The receive loop over whole runs, whatever `realloc` appends and whatever is sent. -/
namespace Aesd.Server

open Aesd.Library Aesd.Driver

def turnStep (turn : List (List Byte)) (step : Event × Syscall) : List (List Byte) :=
  match step.1 with
  | .callocRecv _ => []
  | .recv (some data) => turn ++ [data]
  | _ => turn

/-- The chunks received since the receive buffer was allocated. -/
def turnOf (trace : List (Event × Syscall)) : List (List Byte) := trace.foldl turnStep []

def behindStep (tail : List Byte) (step : Event × Syscall) : List Byte :=
  match step.1 with
  | .callocRecv true => List.replicate 128 0
  | .recv (some data) => tail.drop data.length
  | .realloc (some fresh) => tail ++ (fresh.dropLast ++ [0])
  | _ => tail

/-- The rest of the receive block behind the received bytes. It starts as the zeros
of `calloc`; each chunk overwrites the front of it, and `realloc` appends its bytes,
of which the source zeroes the last. -/
def behind (trace : List (Event × Syscall)) : List Byte := trace.foldl behindStep []

/-- The receive buffer holds the turn's chunks and what is behind them, up to a zero. -/
def HoldsBlock (past : List (Event × Syscall)) (thread : Thread)
    (sizes : Thread → List Byte → List Byte → Prop) : Prop :=
  (∃ block, Holding thread block (turnOf past).flatten (behind past)) ∧
    sizes thread (turnOf past).flatten (behind past) ∧ ∃ front, behind past = front ++ [0]

/-- What is known of the receive buffer at each place. -/
def Held (past : List (Event × Syscall)) (thread : Thread) : Prop :=
  match thread.pc with
  | .checkExit | .recv =>
    HoldsBlock past thread Sized ∧ newline ∉ thread.text ∧ 2 ≤ (behind past).length
  | .realloc => HoldsBlock past thread Ahead ∧ behind past = [0]
  | .lock | .openDevice => HoldsBlock past thread Sized ∧ newline ∈ thread.text
  | .write => HoldsBlock past thread Sized
  | _ => True

@[simp] theorem turnOf_append (trace : List (Event × Syscall)) (step : Event × Syscall) :
    turnOf (trace ++ [step]) = turnStep (turnOf trace) step := by
  rw [turnOf, List.foldl_append]
  rfl

@[simp] theorem behind_append (trace : List (Event × Syscall)) (step : Event × Syscall) :
    behind (trace ++ [step]) = behindStep (behind trace) step := by
  rw [behind, List.foldl_append]
  rfl

section

variable {past : List (Event × Syscall)} {thread after : Thread} {event : Event} {call : Syscall}

theorem HoldsBlock.text {sizes : Thread → List Byte → List Byte → Prop}
    (holds : HoldsBlock past thread sizes) :
    thread.text = cString ((turnOf past).flatten ++ behind past) := by
  obtain ⟨⟨block, holding⟩, _⟩ := holds
  exact holding.text

theorem HoldsBlock.move (holds : HoldsBlock past thread Sized) (pc : Pc) :
    HoldsBlock past { thread with pc } Sized := by
  obtain ⟨⟨block, holding⟩, sized, ends⟩ := holds
  exact ⟨⟨block, holding.pointed, holding.cells, holding.room, holding.index, holding.small,
    holding.aligned⟩, sized, ends⟩

theorem HoldsBlock.scan (holds : HoldsBlock past thread Sized) :
    HoldsBlock past thread.scan Sized ∧
      thread.scan.pc = if newline ∈ thread.scan.text then .lock else .checkExit := by
  obtain ⟨⟨block, holding⟩, sized, front, ends⟩ := holds
  obtain ⟨held, sizedAfter, pc⟩ := holding.scan sized
  have same : (behind past).dropLast ++ [0] = behind past := by
    rw [ends, List.dropLast_concat]
  rw [same] at held sizedAfter pc
  rw [← held.text] at pc
  exact ⟨⟨⟨block, held⟩, sizedAfter, front, ends⟩, pc⟩

theorem HoldsBlock.quiet {sizes : Thread → List Byte → List Byte → Prop}
    (holds : HoldsBlock past thread sizes) (sameTurn : turnStep (turnOf past) (event, call) = turnOf past)
    (sameTail : behindStep (behind past) (event, call) = behind past) :
    HoldsBlock (past ++ [(event, call)]) thread sizes := by
  rw [HoldsBlock, turnOf_append, behind_append, sameTurn, sameTail]
  exact holds

/-- A chunk that leaves exactly the last byte of the block, or more. -/
theorem HoldsBlock.receive (holds : HoldsBlock past thread Sized) {data : List Byte}
    (fits : data.length ≤ sizeT thread.recvWindow) :
    (HoldsBlock (past ++ [(.recv (some data), call)]) (thread.receive data) Ahead ∧
        (thread.receive data).pc = .realloc ∧
        behind (past ++ [(.recv (some data), call)]) = [0]) ∨
      ∃ middle : Thread, thread.receive data = middle.scan ∧
        HoldsBlock (past ++ [(.recv (some data), call)]) middle Sized ∧
        2 ≤ (behind (past ++ [(.recv (some data), call)])).length := by
  obtain ⟨⟨block, holding⟩, sized, front, ends⟩ := holds
  have turn : (turnOf (past ++ [(.recv (some data), call)])).flatten =
      (turnOf past).flatten ++ data := by
    rw [turnOf_append]
    simp only [turnStep, List.flatten_append, List.flatten_singleton]
  have tail : behind (past ++ [(.recv (some data), call)]) = (behind past).drop data.length := by
    rw [behind_append]
    rfl
  obtain ⟨less, ⟨held, size, pc, filled⟩ | ⟨middle, same, held, sizedAfter, more⟩⟩ :=
    holding.receive sized fits
  all_goals
    have inside : data.length ≤ front.length := by
      rw [ends, List.length_append, List.length_singleton] at less
      omega
    have rest : (behind past).drop data.length = front.drop data.length ++ [0] := by
      rw [ends, List.drop_append_of_le_length inside]
  · left
    have last : (behind past).drop data.length = [0] := by
      rw [rest, List.drop_eq_nil_of_le, List.nil_append]
      rw [ends, List.length_append, List.length_singleton] at filled
      omega
    refine ⟨⟨⟨block, by rw [turn, tail]; exact held⟩, ?_, [], by rw [tail, last]; rfl⟩, pc,
      by rw [tail, last]⟩
    have constant : kBufferStartLength.toInt = 128 := rfl
    rw [Ahead, turn, tail, size, Int32.toInt_add, sized, constant, List.length_append,
      List.length_drop]
    congr 1
    omega
  · right
    refine ⟨middle, same, ⟨⟨block, by rw [turn, tail]; exact held⟩, by rw [turn, tail]; exact sizedAfter,
      front.drop data.length, by rw [tail, rest]⟩, ?_⟩
    rw [tail, List.length_drop]
    omega

/-- A growth appends what `realloc` found in memory, up to the terminator. -/
theorem HoldsBlock.grow (holds : HoldsBlock past thread Ahead) {fresh : List Byte}
    (possible : sizeT thread.bufferSize < 2 ^ 63)
    (total : (thread.bytesAt thread.recvBuffer).length + fresh.length = sizeT thread.bufferSize) :
    HoldsBlock (past ++ [(.realloc (some fresh), call)]) (thread.grow fresh) Sized ∧
      (thread.grow fresh).pc =
        (if newline ∈ (thread.grow fresh).text then .lock else .checkExit) ∧
      2 ≤ (behind (past ++ [(.realloc (some fresh), call)])).length := by
  obtain ⟨⟨block, holding⟩, ahead, front, ends⟩ := holds
  obtain ⟨more, _⟩ := holding.grown_length ahead possible total
  obtain ⟨middle, same, held, sized⟩ := holding.grow ahead possible total
  obtain ⟨scanned, sizedAfter, pc⟩ := held.scan sized
  have turn : turnOf (past ++ [(.realloc (some fresh), call)]) = turnOf past := by
    rw [turnOf_append]
    rfl
  have nonempty : fresh ≠ [] := by
    rintro rfl
    cases more
  have tail : behind (past ++ [(.realloc (some fresh), call)]) =
      (behind past ++ fresh).dropLast ++ [0] := by
    rw [behind_append, List.dropLast_append_of_ne_nil nonempty, List.append_assoc]
    rfl
  rw [← scanned.text] at pc
  rw [same]
  refine ⟨⟨⟨_, by rw [turn, tail]; exact scanned⟩, by rw [turn, tail]; exact sizedAfter,
    _, tail⟩, pc, ?_⟩
  rw [tail, List.length_append, List.length_dropLast, List.length_append, List.length_singleton]
  omega

theorem held_of_scanned (holds : HoldsBlock past thread Sized)
    (pc : thread.pc = if newline ∈ thread.text then .lock else .checkExit)
    (room : 2 ≤ (behind past).length) : Held past thread := by
  rw [Held, pc]
  by_cases found : newline ∈ thread.text
  · rw [if_pos found]
    exact ⟨holds, found⟩
  · rw [if_neg found]
    exact ⟨holds, found, room⟩

theorem held_start {block : Nat} (holding : Holding thread block [] (List.replicate 128 0))
    (size : thread.bufferSize = kBufferStartLength) (pc : thread.pc = .checkExit) :
    Held (past ++ [(.callocRecv true, call)]) thread := by
  have turn : turnOf (past ++ [(.callocRecv true, call)]) = [] := turnOf_append _ _
  have tail : behind (past ++ [(.callocRecv true, call)]) = List.replicate 128 0 :=
    behind_append _ _
  have last : List.replicate 128 (0 : Byte) = List.replicate 127 0 ++ [0] :=
    List.replicate_succ'
  have text : thread.text = [] := by
    rw [holding.text, List.nil_append, cString, List.replicate_succ]
    rfl
  rw [Held, pc]
  refine ⟨⟨⟨block, ?_⟩, ?_, _, tail.trans last⟩, ?_, ?_⟩
  · rw [turn, tail]
    exact holding
  · rw [Sized, turn, tail, size, List.length_replicate]
    rfl
  · rw [text]
    exact List.not_mem_nil
  · rw [tail, List.length_replicate]
    decide

theorem held_chooseOffset (thread : Thread) : Held past thread.chooseOffset := by
  unfold Thread.chooseOffset
  split <;> trivial

theorem Held.dispatch (holds : HoldsBlock past thread Sized) : Held past thread.dispatch := by
  rw [dispatch_eq]
  cases operationOf thread.text with
  | none => trivial
  | some operation =>
    cases operation with
    | write payload => exact holds.move .write
    | seek seekto => trivial

theorem Held.step (held : Held past thread) (taken : thread.step event = some (call, after)) :
    Held (past ++ [(event, call)]) after := by
  obtain ⟨waiting, resumes⟩ := Thread.step_cases taken
  rw [Held, waiting] at held
  cases resumes with
  | callocRecv => exact held_start Holding.start rfl rfl
  | stays =>
    obtain ⟨holds, none, room⟩ := held
    exact ⟨(holds.quiet rfl rfl).move .recv, none, by rw [behind_append]; exact room⟩
  | recv fits =>
    rcases held.1.receive fits with ⟨holds, pc, last⟩ | ⟨middle, same, holds, room⟩
    · rw [Held, pc]
      exact ⟨holds, last⟩
    · rw [same]
      exact held_of_scanned holds.scan.1 holds.scan.2 room
  | realloc possible total =>
    obtain ⟨holds, pc, room⟩ := held.1.grow possible total
    exact held_of_scanned holds pc room
  | lock => exact ⟨(held.1.quiet rfl rfl).move .openDevice, held.2⟩
  | openDevice => exact Held.dispatch (held.1.quiet rfl rfl)
  | ioctl | write => exact held_chooseOffset thread
  | _ => trivial

end

theorem run_held {trace : List (Event × Syscall)} {thread : Thread}
    (run : process.Run Thread.start trace thread) : Held trace thread :=
  run.history Held trivial fun _ _ _ _ _ held taken => held.step taken

end Aesd.Server
