import Aesd.Server.ReceiveLoop
import Mathlib.Data.List.Infix

namespace Aesd.Server

open Aesd.Library Aesd.Driver

/-- What the receive loop should have done at each place with the chunks of the turn:
gone on while none had a newline, and handed on exactly their bytes. -/
def TurnReceived (turn : List (List Byte)) (thread : Thread) : Prop :=
  match thread.pc with
  | .checkExit | .recv => ∀ chunk ∈ turn, hasNewline chunk = false
  | .realloc => ∀ chunk ∈ turn.dropLast, hasNewline chunk = false
  | .lock | .openDevice =>
    (∀ chunk ∈ turn.dropLast, hasNewline chunk = false) ∧ CompleteTurn turn ∧
      thread.text = turn.flatten
  | .write => thread.syscall = .write turn.flatten
  | _ => True

/-- Read up to the first zero, the bytes behind the received ones hold no newline,
and once a newline was received there are none. -/
def CleanBehind (turn : List (List Byte)) (tail : List Byte) : Prop :=
  newline ∉ cString tail ∧ (newline ∈ turn.flatten → cString tail = [])

instance (turn : List (List Byte)) (tail : List Byte) : Decidable (CleanBehind turn tail) :=
  inferInstanceAs (Decidable (_ ∧ _))

/-- The scan ends the turn rightly exactly when what lies behind it is clean. -/
theorem turnReceived_scanned_iff {turn : List (List Byte)} {tail : List Byte} {thread : Thread}
    (text : thread.text = cString (turn.flatten ++ tail))
    (pc : thread.pc = if newline ∈ thread.text then .lock else .checkExit)
    (noNul : ∀ chunk ∈ turn, (0 : Byte) ∉ chunk)
    (pending : ∀ chunk ∈ turn.dropLast, hasNewline chunk = false) :
    TurnReceived turn thread ↔ CleanBehind turn tail := by
  rw [cString_append (zero_notMem_flatten noNul)] at text
  by_cases found : newline ∈ thread.text
  · rw [if_pos found] at pc
    have place : TurnReceived turn thread ↔
        (∀ chunk ∈ turn.dropLast, hasNewline chunk = false) ∧ CompleteTurn turn ∧
          thread.text = turn.flatten := by
      rw [TurnReceived, pc]
    rw [place]
    constructor
    · rintro ⟨_, complete, exact⟩
      have nothing : cString tail = [] := by
        rw [text] at exact
        exact List.append_cancel_left (exact.trans (List.append_nil _).symm)
      rw [CleanBehind, nothing]
      exact ⟨List.not_mem_nil, fun _ => rfl⟩
    · rintro ⟨silent, ended⟩
      rw [text] at found
      have received := (List.mem_append.mp found).resolve_right silent
      refine ⟨pending, (completeTurn_iff pending).mp received, ?_⟩
      rw [text, ended received, List.append_nil]
  · rw [if_neg found] at pc
    have place : TurnReceived turn thread ↔ ∀ chunk ∈ turn, hasNewline chunk = false := by
      rw [TurnReceived, pc]
    rw [text, List.mem_append, not_or] at found
    rw [place]
    refine iff_of_true ?_ ⟨found.2, fun received => absurd received found.1⟩
    exact continues_of_not_complete pending (mt (completeTurn_iff pending).mpr found.1)

theorem turnReceived_chooseOffset (turn : List (List Byte)) (thread : Thread) :
    TurnReceived turn thread.chooseOffset := by
  unfold Thread.chooseOffset
  split <;> trivial

theorem TurnReceived.dispatch {turn : List (List Byte)} {thread : Thread}
    (text : thread.text = turn.flatten) : TurnReceived turn thread.dispatch := by
  rw [dispatch_eq]
  cases operationOf thread.text with
  | none => trivial
  | some operation =>
    cases operation with
    | write payload => exact congrArg Syscall.write text
    | seek seekto => trivial

section

variable {past : List (Event × Syscall)} {thread after : Thread} {event : Event} {call : Syscall}

/-- A chunk ends the turn rightly exactly when what lies behind it is clean. -/
theorem TurnReceived.receive_iff {data : List Byte} (received : TurnReceived (turnOf past) thread)
    (held : Held past thread) (waiting : thread.pc = .recv)
    (noNul : ∀ chunk ∈ turnOf past ++ [data], (0 : Byte) ∉ chunk)
    (fits : data.length ≤ sizeT thread.recvWindow) :
    TurnReceived (turnOf (past ++ [(.recv (some data), call)])) (thread.receive data) ↔
      CleanBehind (turnOf (past ++ [(.recv (some data), call)]))
        (behind (past ++ [(.recv (some data), call)])) := by
  rw [TurnReceived, waiting] at received
  rw [Held, waiting] at held
  have turn : turnOf (past ++ [(.recv (some data), call)]) = turnOf past ++ [data] :=
    turnOf_append _ _
  have pending : ∀ chunk ∈ (turnOf (past ++ [(.recv (some data), call)])).dropLast,
      hasNewline chunk = false := by
    rw [turn, List.dropLast_concat]
    exact received
  rcases @HoldsBlock.receive _ _ call held.1 data fits with
    ⟨holds, pc, last⟩ | ⟨middle, same, holds, _⟩
  · rw [TurnReceived, pc, last]
    exact iff_of_true pending ⟨by decide, fun _ => rfl⟩
  · obtain ⟨scanned, pc⟩ := holds.scan
    rw [same]
    exact turnReceived_scanned_iff scanned.text pc (by rw [turn]; exact noNul) pending

theorem TurnReceived.grow_iff {fresh : List Byte} (received : TurnReceived (turnOf past) thread)
    (held : Held past thread) (waiting : thread.pc = .realloc)
    (noNul : ∀ chunk ∈ turnOf past, (0 : Byte) ∉ chunk)
    (possible : sizeT thread.bufferSize < 2 ^ 63)
    (total : (thread.bytesAt thread.recvBuffer).length + fresh.length = sizeT thread.bufferSize) :
    TurnReceived (turnOf (past ++ [(.realloc (some fresh), call)])) (thread.grow fresh) ↔
      CleanBehind (turnOf (past ++ [(.realloc (some fresh), call)]))
        (behind (past ++ [(.realloc (some fresh), call)])) := by
  rw [TurnReceived, waiting] at received
  rw [Held, waiting] at held
  have turn : turnOf (past ++ [(.realloc (some fresh), call)]) = turnOf past := turnOf_append _ _
  obtain ⟨holds, pc, _⟩ := @HoldsBlock.grow _ _ call held.1 fresh possible total
  exact turnReceived_scanned_iff holds.text pc (by rw [turn]; exact noNul)
    (by rw [turn]; exact received)

/-- One step: the turn stays rightly received exactly as long as what is behind it is clean. -/
theorem turnReceived_step_iff (held : Held past thread)
    (taken : thread.step event = some (call, after))
    (noNul : ∀ chunk ∈ turnOf (past ++ [(event, call)]), (0 : Byte) ∉ chunk)
    (received : TurnReceived (turnOf past) thread) (clean : CleanBehind (turnOf past) (behind past)) :
    TurnReceived (turnOf (past ++ [(event, call)])) after ↔
      CleanBehind (turnOf (past ++ [(event, call)])) (behind (past ++ [(event, call)])) := by
  obtain ⟨waiting, resumes⟩ := Thread.step_cases taken
  have place := received
  rw [TurnReceived, waiting] at place
  have quiet : turnStep (turnOf past) (event, call) = turnOf past →
      behindStep (behind past) (event, call) = behind past → TurnReceived (turnOf past) after →
      (TurnReceived (turnOf (past ++ [(event, call)])) after ↔
        CleanBehind (turnOf (past ++ [(event, call)])) (behind (past ++ [(event, call)]))) := by
    intro sameTurn sameTail still
    rw [turnOf_append, behind_append, sameTurn, sameTail]
    exact iff_of_true still clean
  cases resumes with
  | callocRecvFails =>
    rw [turnOf_append, behind_append]
    exact iff_of_true trivial ⟨clean.1, fun received => absurd received List.not_mem_nil⟩
  | callocRecv =>
    rw [turnOf_append, behind_append]
    refine iff_of_true (fun _ member => absurd member List.not_mem_nil) ⟨?_, fun received =>
      absurd received List.not_mem_nil⟩
    rw [behindStep, cString, List.replicate_succ]
    exact List.not_mem_nil
  | recv fits =>
    rw [turnOf_append] at noNul
    exact received.receive_iff held waiting noNul fits
  | realloc possible total =>
    rw [turnOf_append] at noNul
    exact received.grow_iff held waiting noNul possible total
  | stays | lock => exact quiet rfl rfl place
  | openDevice => exact quiet rfl rfl (TurnReceived.dispatch place.2.2)
  | ioctl | write => exact quiet rfl rfl (turnReceived_chooseOffset _ thread)
  | _ => exact quiet rfl rfl trivial

end

theorem turnOf_subset (trace : List (Event × Syscall)) : ∀ chunk ∈ turnOf trace, chunk ∈ chunks trace := by
  induction trace using List.reverseRecOn with
  | nil => exact fun _ member => absurd member List.not_mem_nil
  | append_singleton rest step ih =>
    intro chunk member
    rw [turnOf_append, turnStep] at member
    rw [chunks, List.filterMap_append, List.mem_append]
    split at member
    · exact absurd member List.not_mem_nil
    · rename_i data received
      rcases List.mem_append.mp member with earlier | same
      · exact .inl (ih chunk earlier)
      · refine .inr (List.mem_filterMap.mpr ⟨step, List.mem_singleton_self _, ?_⟩)
        rw [received, List.mem_singleton.mp same]
        rfl
    · exact .inl (ih chunk member)

/-- In a run on a stream without `NUL`, every turn of the receive loop ends exactly
after its first newline and hands on exactly its chunks, if and only if after every
scan the bytes behind the received ones are clean. -/
theorem turns_received_iff {trace : List (Event × Syscall)} {thread : Thread}
    (run : process.Run Thread.start trace thread) (noNul : ∀ chunk ∈ chunks trace, (0 : Byte) ∉ chunk) :
    process.Throughout Thread.start trace (fun past thread => TurnReceived (turnOf past) thread) ↔
      ∀ past, past <+: trace → CleanBehind (turnOf past) (behind past) := by
  have both : process.Throughout Thread.start trace
        (fun past thread => TurnReceived (turnOf past) thread) ↔
      process.Throughout Thread.start trace fun past _ => CleanBehind (turnOf past) (behind past) := by
    refine run.throughout_iff ?_ ?_
    · exact iff_of_true trivial ⟨List.not_mem_nil, fun received => absurd received List.not_mem_nil⟩
    · intro past before event call after inside passed taken received clean
      refine turnReceived_step_iff (run_held passed) taken ?_ received clean
      obtain ⟨later, whole⟩ := inside
      intro chunk member
      refine noNul chunk ?_
      rw [← whole, chunks, List.filterMap_append]
      exact List.mem_append_left _ (turnOf_subset _ chunk member)
  rw [both]
  constructor
  · rintro clean past ⟨later, rfl⟩
    obtain ⟨middle, passed, _⟩ := run.split
    exact clean past middle (List.prefix_append _ _) passed
  · exact fun clean past _ inside _ => clean past inside

/-- A chunk that fills the first window, the growth, and the end of the line. -/
def longLine (fresh : Byte) : List Event :=
  [.callocRecv true, .checkExit false, .recv (some (List.replicate 127 120)),
   .realloc (some (List.replicate 128 fresh)), .checkExit false, .recv (some [newline])]

/-- With zeros from `realloc` the long line is received as it was sent. -/
theorem longLine_received : ∃ trace thread, process.exec Thread.start (longLine 0) = some (trace, thread) ∧
    process.Throughout Thread.start trace fun past thread => TurnReceived (turnOf past) thread := by
  have runs : ((process.exec Thread.start (longLine 0)).any fun result =>
      (chunks result.1).all (fun chunk => !chunk.contains 0) &&
        result.1.inits.all fun past => decide (CleanBehind (turnOf past) (behind past))) = true := by
    decide +kernel
  obtain ⟨⟨trace, thread⟩, computed, facts⟩ := (Option.any_eq_true _ _).mp runs
  simp only [Bool.and_eq_true, List.all_eq_true, Bool.not_eq_true', List.contains_eq_mem,
    decide_eq_false_iff_not, decide_eq_true_eq, List.mem_inits] at facts
  exact ⟨trace, thread, computed,
    (turns_received_iff (Machine.Run.of_exec computed) facts.1).mpr facts.2⟩

/-- With other bytes from `realloc` they follow the line into the payload. -/
theorem longLine_trailed : ¬ ∀ trace thread, process.Run Thread.start trace thread →
    (∀ chunk ∈ chunks trace, chunk ≠ [] ∧ (0 : Byte) ∉ chunk) →
      process.Throughout Thread.start trace fun past thread => TurnReceived (turnOf past) thread := by
  intro always
  have runs : ((process.exec Thread.start (longLine 121)).any fun result =>
      (chunks result.1).all (fun chunk => !chunk.isEmpty && !chunk.contains 0) &&
        (result.2.pc == .lock) && !(result.2.text == (turnOf result.1).flatten)) = true := by
    decide +kernel
  obtain ⟨⟨trace, thread⟩, computed, facts⟩ := (Option.any_eq_true _ _).mp runs
  simp only [Bool.and_eq_true, List.all_eq_true, Bool.not_eq_true', beq_eq_false_iff_ne,
    List.contains_eq_mem, decide_eq_false_iff_not, List.isEmpty_eq_false_iff, beq_iff_eq] at facts
  obtain ⟨⟨fine, waits⟩, longer⟩ := facts
  have run := Machine.Run.of_exec computed
  have received : TurnReceived (turnOf trace) thread :=
    always trace thread run fine trace thread (List.prefix_refl _) run
  rw [TurnReceived, waits] at received
  exact longer received.2.2

end Aesd.Server
