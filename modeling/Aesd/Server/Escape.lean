import Aesd.Server.Buffers
import Aesd.Server.World

/-! The way out of the handler, and the places without one. -/
namespace Aesd.Server

open Aesd.Library Aesd.Driver

namespace Thread

/-- In front of the device with a seek command that has no second number. -/
def Dies (thread : Thread) : Prop :=
  (thread.pc = .lock ∨ thread.pc = .openDevice) ∧ thread.dispatch.pc = .crashed

/-- In front of a `calloc` of more memory than there can be. -/
def Starves (thread : Thread) : Prop :=
  (thread.pc = .lseekSet ∨ thread.pc = .callocSend) ∧ 2 ^ 63 ≤ sizeT thread.bytesProcessed

/-- Behind a seek command, on the error exit or bound to take one: `freeBuffers` gets the
pointer that was moved over the prefix. -/
def Misfrees (thread : Thread) : Prop :=
  kIOCtrlStr.isPrefixOf thread.message = true ∧
    (thread.pc = .close true ∨ thread.pc = .unlock true ∨ thread.Starves)

/-- The outcomes that lead out, past the regular unlock where that is possible. -/
def escape (thread : Thread) (exit : Bool) : Event :=
  match thread.pc with
  | .callocRecv => .callocRecv false
  | .checkExit => .checkExit exit
  | .recv => .recv none
  | .realloc => .realloc none
  | .openDevice => .openDevice none
  | .ioctl => .ioctl true
  | .write => .write (some 0)
  | .lseekCur => .lseekCur 0
  | .lseekEnd => .lseekEnd 0
  | .lseekSet => .lseekSet 0
  | .callocSend => .callocSend (decide (sizeT thread.bytesProcessed < 2 ^ 63))
  | .read => .read (some [])
  | .send => .send (some 0)
  | .close failed => .close failed
  | .unlock failed => .unlock failed
  | .unlockExit => .unlockExit
  | .lock | .returned | .crashed => .lock

end Thread

/-- How many calls the way out takes at most. -/
def Pc.farness : Pc → Nat
  | .lock => 11
  | .openDevice => 10
  | .ioctl | .write => 9
  | .lseekCur => 8
  | .lseekEnd => 7
  | .lseekSet => 6
  | .callocSend | .send => 5
  | .read => 4
  | .close _ => 3
  | .checkExit | .unlock _ => 2
  | .callocRecv | .recv | .realloc | .unlockExit => 1
  | .returned | .crashed => 0

/-- A step on the way out. No `free` of it is an invalid one, and inside the critical
section it neither ends nor starves the thread as long as the mutex is held. -/
structure Escapes (thread : Thread) (event : Event) (next : Thread) : Prop where
  nearer : next.pc.farness < thread.pc.farness
  lives : next.pc ≠ .crashed
  entered : next.pc ≠ .lock
  possible : ¬ next.Dies
  tidy : ¬ MisfreesSeek thread event
  spared : ¬ next.Misfrees
  serves : event = .lock ∨ (thread.zone.inside = true ∧ ¬ thread.Starves ∧
    ∀ failed, event ≠ .unlock failed) → next.zone ≠ .returned ∧ ¬ next.Starves

section Steps

variable {thread next : Thread} {event : Event} {exit : Bool}

theorem not_dies (elsewhere : thread.pc ≠ .lock ∧ thread.pc ≠ .openDevice) : ¬ thread.Dies := by
  intro dies
  rcases dies.1 with here | here
  · exact elsewhere.1 here
  · exact elsewhere.2 here

theorem not_starves (elsewhere : thread.pc ≠ .lseekSet ∧ thread.pc ≠ .callocSend) :
    ¬ thread.Starves := by
  intro starves
  rcases starves.1 with here | here
  · exact elsewhere.1 here
  · exact elsewhere.2 here

theorem not_misfrees (onWay : thread.pc ≠ .close true ∧ thread.pc ≠ .unlock true)
    (fed : ¬ thread.Starves) : ¬ thread.Misfrees := by
  intro misfrees
  rcases misfrees.2 with here | here | starves
  · exact onWay.1 here
  · exact onWay.2 here
  · exact fed starves

/-- The outcomes that no `freeBuffers` behind the choice between seek and write follows. -/
def Event.keeps : Event → Bool
  | .unlock true | .callocSend false | .read none | .send none => false
  | _ => true

theorem Event.keeps.tidy (keeps : event.keeps = true) : ¬ MisfreesSeek thread event := by
  intro misfrees
  rcases misfrees.2 with rfl | rfl | rfl | rfl
  all_goals cases keeps

/-- The places whose next call fails or succeeds whatever the thread holds. -/
def Pc.plain : Pc → Bool
  | .lock | .openDevice | .lseekSet | .callocSend | .close true | .unlock true | .crashed => false
  | _ => true

theorem Escapes.between {pc : Pc} (moved : Pc) (here : thread.pc = pc) (there : next.pc = moved)
    (nearer : moved.farness < pc.farness) (plain : moved.plain = true) (notLock : event ≠ .lock)
    (tidy : ¬ MisfreesSeek thread event)
    (stays : pc.zone.inside = false ∨ moved.zone ≠ .returned ∨ ∃ failed, event = .unlock failed) :
    Escapes thread event next := by
  have elsewhere : ∀ special : Pc, special.plain = false → next.pc ≠ special := by
    intro special notPlain same
    rw [there] at same
    rw [same, notPlain] at plain
    cases plain
  have fed : ¬ next.Starves := not_starves ⟨elsewhere _ rfl, elsewhere _ rfl⟩
  refine ⟨by rw [here, there]; exact nearer, elsewhere _ rfl, elsewhere _ rfl,
    not_dies ⟨elsewhere _ rfl, elsewhere _ rfl⟩, tidy,
    not_misfrees ⟨elsewhere _ rfl, elsewhere _ rfl⟩ fed, ?_⟩
  intro goesOn
  refine ⟨?_, fed⟩
  rcases goesOn with locking | ⟨inside, _, stillLocked⟩
  · exact absurd locking notLock
  rw [Thread.zone, here] at inside
  rw [Thread.zone, there]
  rcases stays with outside | stays | ⟨failed, unlocks⟩
  · rw [outside] at inside
    cases inside
  · exact stays
  · exact absurd unlocks (stillLocked failed)

theorem dispatch_plain (possible : thread.dispatch.pc ≠ .crashed) :
    thread.dispatch.pc = .ioctl ∨ thread.dispatch.pc = .write := by
  have somewhere := thread.dispatch_pc
  simp only [List.mem_cons, List.not_mem_nil, or_false] at somewhere
  rcases somewhere with crashed | there
  · exact absurd crashed possible
  · exact there

theorem chooseOffset_near (thread : Thread) :
    thread.chooseOffset.pc = .lseekCur ∨ thread.chooseOffset.pc = .lseekEnd := by
  simpa using thread.chooseOffset_pc

/-- The thread has a way out from here. -/
def Thread.WayOut (thread : Thread) (exit : Bool) : Prop :=
  ∃ next, thread.step (thread.escape exit) = some (thread.syscall, next) ∧
    Escapes thread (thread.escape exit) next

theorem Thread.WayOut.of_resume (same : thread.escape exit = event) (waiting : thread.pc = event.pc)
    (resumed : thread.resume event = some next) (escapes : Escapes thread event next) :
    thread.WayOut exit := by
  refine ⟨next, ?_, ?_⟩
  · rw [same]
    exact step_eq_some_iff.mpr ⟨waiting, rfl, resumed⟩
  · rw [same]
    exact escapes

/-- In front of the lock every place has a way out. -/
theorem wayOut_outside (outside : thread.pc.zone = .outside) (notLock : thread.pc ≠ .lock)
    (lives : thread.pc ≠ .crashed) : thread.WayOut exit := by
  cases here : thread.pc with
  | callocRecv =>
    apply Thread.WayOut.of_resume (by rw [Thread.escape, here]) here rfl
    exact .between .returned here rfl (by decide) rfl (by simp) (Event.keeps.tidy rfl) (.inl rfl)
  | checkExit =>
    cases exit with
    | true =>
      apply Thread.WayOut.of_resume (by rw [Thread.escape, here]) here rfl
      exact .between .unlockExit here rfl (by decide) rfl (by simp) (Event.keeps.tidy rfl) (.inl rfl)
    | false =>
      apply Thread.WayOut.of_resume (by rw [Thread.escape, here]) here rfl
      exact .between .recv here rfl (by decide) rfl (by simp) (Event.keeps.tidy rfl) (.inl rfl)
  | recv =>
    apply Thread.WayOut.of_resume (by rw [Thread.escape, here]) here rfl
    exact .between .returned here rfl (by decide) rfl (by simp) (Event.keeps.tidy rfl) (.inl rfl)
  | realloc =>
    apply Thread.WayOut.of_resume (by rw [Thread.escape, here]) here rfl
    exact .between .returned here rfl (by decide) rfl (by simp) (Event.keeps.tidy rfl) (.inl rfl)
  | unlockExit =>
    apply Thread.WayOut.of_resume (by rw [Thread.escape, here]) here rfl
    exact .between .returned here rfl (by decide) rfl (by simp) (Event.keeps.tidy rfl) (.inl rfl)
  | lock => exact absurd here notLock
  | crashed => exact absurd here lives
  | _ =>
    rw [here] at outside
    cases outside

theorem wayOut_lock (here : thread.pc = .lock) (possible : ¬ thread.Dies) : thread.WayOut exit := by
  apply Thread.WayOut.of_resume (by rw [Thread.escape, here]) here rfl
  have fed : ¬ ({ thread with pc := .openDevice } : Thread).Starves :=
    not_starves ⟨Pc.noConfusion, Pc.noConfusion⟩
  refine ⟨?_, Pc.noConfusion, Pc.noConfusion, ?_, Event.keeps.tidy rfl,
    not_misfrees ⟨Pc.noConfusion, Pc.noConfusion⟩ fed, fun _ => ⟨Zone.noConfusion, fed⟩⟩
  · rw [here]
    exact Nat.lt_succ_self 10
  · intro dies
    exact possible ⟨.inl here, dies.2⟩

/-- The text tells whether the handler gets past the device. -/
theorem wayOut_openDevice (here : thread.pc = .openDevice) (possible : ¬ thread.Dies) :
    thread.WayOut exit := by
  apply Thread.WayOut.of_resume (by rw [Thread.escape, here]) here rfl
  rcases dispatch_plain fun dies => possible ⟨.inr here, dies⟩ with there | there
  · exact .between _ here there (by decide) rfl (by simp) (Event.keeps.tidy rfl)
      (.inr (.inl Zone.noConfusion))
  · exact .between _ here there (by decide) rfl (by simp) (Event.keeps.tidy rfl)
      (.inr (.inl Zone.noConfusion))

theorem wayOut_request (here : thread.pc = .ioctl ∨ thread.pc = .write) : thread.WayOut exit := by
  rcases here with here | here
  · apply Thread.WayOut.of_resume (by rw [Thread.escape, here]) here rfl
    rcases chooseOffset_near thread with there | there
    · exact .between _ here there (by decide) rfl (by simp) (Event.keeps.tidy rfl)
        (.inr (.inl Zone.noConfusion))
    · exact .between _ here there (by decide) rfl (by simp) (Event.keeps.tidy rfl)
        (.inr (.inl Zone.noConfusion))
  · have writes : thread.resume (.write (some 0)) = some thread.chooseOffset := by
      simp [Thread.resume]
    apply Thread.WayOut.of_resume (by rw [Thread.escape, here]) here writes
    rcases chooseOffset_near thread with there | there
    · exact .between _ here there (by decide) rfl (by simp) (Event.keeps.tidy rfl)
        (.inr (.inl Zone.noConfusion))
    · exact .between _ here there (by decide) rfl (by simp) (Event.keeps.tidy rfl)
        (.inr (.inl Zone.noConfusion))

theorem wayOut_lseekCur (here : thread.pc = .lseekCur) : thread.WayOut exit := by
  apply Thread.WayOut.of_resume (by rw [Thread.escape, here]) here rfl
  exact .between .lseekEnd here rfl (by decide) rfl (by simp) (Event.keeps.tidy rfl)
    (.inr (.inl Zone.noConfusion))

/-- An empty device asks for no memory. -/
theorem wayOut_lseekEnd (here : thread.pc = .lseekEnd) : thread.WayOut exit := by
  have resumed : thread.resume (.lseekEnd 0) = some { thread with
      bytesProcessed := (0 : Int64).toInt32
      pc := .lseekSet } := by
    simp [Thread.resume]
  apply Thread.WayOut.of_resume (by rw [Thread.escape, here]) here resumed
  have small : sizeT (0 : Int64).toInt32 < 2 ^ 63 := by decide
  have fed : ¬ ({ thread with
      bytesProcessed := (0 : Int64).toInt32
      pc := .lseekSet } : Thread).Starves :=
    fun starves => Nat.not_le.mpr small starves.2
  refine ⟨?_, Pc.noConfusion, Pc.noConfusion, not_dies ⟨Pc.noConfusion, Pc.noConfusion⟩,
    Event.keeps.tidy rfl, not_misfrees ⟨Pc.noConfusion, Pc.noConfusion⟩ fed,
    fun _ => ⟨Zone.noConfusion, fed⟩⟩
  rw [here]
  exact Nat.lt_succ_self 6

theorem wayOut_lseekSet (here : thread.pc = .lseekSet) (spared : ¬ thread.Misfrees) :
    thread.WayOut exit := by
  apply Thread.WayOut.of_resume (by rw [Thread.escape, here]) here rfl
  have kept : ({ thread with pc := .callocSend } : Thread).Starves → thread.Starves :=
    fun starves => ⟨.inl here, starves.2⟩
  refine ⟨?_, Pc.noConfusion, Pc.noConfusion, not_dies ⟨Pc.noConfusion, Pc.noConfusion⟩,
    Event.keeps.tidy rfl, ?_, ?_⟩
  · rw [here]
    exact Nat.lt_succ_self 5
  · intro misfrees
    rcases misfrees.2 with impossible | impossible | starves
    · cases impossible
    · cases impossible
    · exact spared ⟨misfrees.1, .inr (.inr (kept starves))⟩
  · intro goesOn
    rcases goesOn with locking | ⟨_, fed, _⟩
    · cases locking
    · exact ⟨Zone.noConfusion, fun starves => fed (kept starves)⟩

theorem wayOut_callocSend (here : thread.pc = .callocSend) (spared : ¬ thread.Misfrees) :
    thread.WayOut exit := by
  by_cases small : sizeT thread.bytesProcessed < 2 ^ 63
  · have resumed : thread.resume (.callocSend true) = some { thread with
        heap := (thread.heap.alloc (List.replicate (sizeT thread.bytesProcessed) 0)).2
        sendBuffer := some ⟨thread.heap.next, 0⟩
        pc := .read } := if_pos small
    apply Thread.WayOut.of_resume (by rw [Thread.escape, here, decide_eq_true small]) here resumed
    exact .between .read here rfl (by decide) rfl (by simp) (Event.keeps.tidy rfl)
      (.inr (.inl Zone.noConfusion))
  · apply Thread.WayOut.of_resume (by rw [Thread.escape, here, decide_eq_false small]) here rfl
    have starves : thread.Starves := ⟨.inr here, Nat.le_of_not_lt small⟩
    have fed := @not_starves ({ thread with sendBuffer := none } : Thread).giveUp
      ⟨Pc.noConfusion, Pc.noConfusion⟩
    refine ⟨?_, Pc.noConfusion, Pc.noConfusion, not_dies ⟨Pc.noConfusion, Pc.noConfusion⟩,
      fun misfrees => spared ⟨misfrees.1, .inr (.inr starves)⟩,
      not_misfrees ⟨Pc.noConfusion, Pc.noConfusion⟩ fed, ?_⟩
    · rw [here]
      exact Nat.succ_pos 4
    · intro goesOn
      rcases goesOn with locking | ⟨_, fine, _⟩
      · cases locking
      · exact absurd starves fine

theorem wayOut_reply (here : thread.pc = .read ∨ thread.pc = .send) : thread.WayOut exit := by
  rcases here with here | here
  · have ends : thread.resume (.read (some [])) = some { thread with
        heap := thread.put thread.sendBuffer 0 []
        bytesRead := 0
        pc := .close false } := by
      simp [Thread.resume]
    apply Thread.WayOut.of_resume (by rw [Thread.escape, here]) here ends
    exact .between (.close false) here rfl (by decide) rfl (by simp) (Event.keeps.tidy rfl)
      (.inr (.inl Zone.noConfusion))
  · have goesOn : thread.resume (.send (some 0)) = some { thread with pc := .read } := by
      simp [Thread.resume]
    apply Thread.WayOut.of_resume (by rw [Thread.escape, here]) here goesOn
    exact .between .read here rfl (by decide) rfl (by simp) (Event.keeps.tidy rfl)
      (.inr (.inl Zone.noConfusion))

theorem wayOut_close {failed : Bool} (here : thread.pc = .close failed)
    (spared : ¬ thread.Misfrees) : thread.WayOut exit := by
  apply Thread.WayOut.of_resume (by rw [Thread.escape, here]) here rfl
  refine ⟨?_, Pc.noConfusion, Pc.noConfusion, not_dies ⟨Pc.noConfusion, Pc.noConfusion⟩,
    Event.keeps.tidy rfl, ?_, fun _ => ⟨Zone.noConfusion, ?_⟩⟩
  · rw [here]
    exact Nat.lt_succ_self 2
  · intro misfrees
    rcases misfrees.2 with impossible | unlocks | starves
    · cases impossible
    · cases unlocks
      exact spared ⟨misfrees.1, .inl here⟩
    · exact not_starves ⟨Pc.noConfusion, Pc.noConfusion⟩ starves
  · exact not_starves ⟨Pc.noConfusion, Pc.noConfusion⟩

theorem wayOut_unlock {failed : Bool} (here : thread.pc = .unlock failed)
    (spared : ¬ thread.Misfrees) : thread.WayOut exit := by
  cases failed with
  | true =>
    apply Thread.WayOut.of_resume (by rw [Thread.escape, here]) here rfl
    exact .between .returned here rfl (by decide) rfl (by simp)
      (fun misfrees => spared ⟨misfrees.1, .inr (.inl here)⟩) (.inr (.inr ⟨true, rfl⟩))
  | false =>
    apply Thread.WayOut.of_resume (by rw [Thread.escape, here]) here rfl
    exact .between .callocRecv here rfl (by decide) rfl (by simp) (Event.keeps.tidy rfl)
      (.inr (.inr ⟨false, rfl⟩))

/-- Whoever is not gone, does not die in front of the device and is not bound to free
what is no block has a way out. -/
theorem wayOut (exit : Bool) (running : thread.pc ≠ .returned) (lives : thread.pc ≠ .crashed)
    (possible : ¬ thread.Dies) (spared : ¬ thread.Misfrees) : thread.WayOut exit := by
  cases here : thread.pc with
  | callocRecv | checkExit | recv | realloc | unlockExit =>
    exact wayOut_outside (by rw [here]; rfl) (by rw [here]; exact Pc.noConfusion) lives
  | lock => exact wayOut_lock here possible
  | openDevice => exact wayOut_openDevice here possible
  | ioctl => exact wayOut_request (.inl here)
  | write => exact wayOut_request (.inr here)
  | lseekCur => exact wayOut_lseekCur here
  | lseekEnd => exact wayOut_lseekEnd here
  | lseekSet => exact wayOut_lseekSet here spared
  | callocSend => exact wayOut_callocSend here spared
  | read => exact wayOut_reply (.inl here)
  | send => exact wayOut_reply (.inr here)
  | close failed => exact wayOut_close here spared
  | unlock failed => exact wayOut_unlock here spared
  | returned => exact absurd here running
  | crashed => exact absurd here lives

end Steps

end Aesd.Server
