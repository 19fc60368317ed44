import Aesd.Server.ControlFlow

/-! Any number of handler threads with the mutex, the global descriptor and the
table of open descriptors between them. -/
namespace Aesd.Server

open Aesd.Library Aesd.Driver

/-- Where a thread is with respect to the critical section. -/
inductive Zone where
  | outside
  | locked
  | opened
  | closed
  | returned
deriving DecidableEq, Repr

def Pc.zone : Pc → Zone
  | .callocRecv | .checkExit | .recv | .realloc | .lock | .unlockExit => .outside
  | .openDevice => .locked
  | .ioctl | .write | .lseekCur | .lseekEnd | .lseekSet | .callocSend | .read | .send
  | .close _ | .crashed => .opened
  | .unlock _ => .closed
  | .returned => .returned

/-- Between `pthread_mutex_lock` and `pthread_mutex_unlock`. -/
def Zone.inside : Zone → Bool
  | .locked | .opened | .closed => true
  | .outside | .returned => false

def Thread.zone (thread : Thread) : Zone := thread.pc.zone

/-- The failures after which `process` returns without closing and unlocking. -/
def Event.leavesLocked : Event → Bool
  | .write none | .callocSend false | .read none | .send none => true
  | _ => false

/-- `descriptors` names the thread that opened each open device descriptor. -/
structure World where
  threads : Nat → Thread
  mutex : Option Nat
  fd : Option Nat
  descriptors : Nat → Option Nat
  crashed : Bool

def World.start : World := ⟨fun _ => Thread.start, none, some 0, fun _ => none, false⟩

namespace World

/-- What a call does to what the threads share; `none` when it cannot happen now. -/
def share (world : World) (id : Nat) (event : Event) : Option World :=
  match event with
  | .lock => if world.mutex = none then some { world with mutex := some id } else none
  | .openDevice none => some { world with fd := none }
  | .openDevice (some descriptor) =>
    if world.descriptors descriptor = none then
      some { world with
        fd := some descriptor
        descriptors := Function.update world.descriptors descriptor (some id) }
    else none
  | .close _ =>
    match world.fd with
    | none => some world
    | some descriptor =>
      some { world with descriptors := Function.update world.descriptors descriptor none }
  | .unlock _ => some { world with mutex := none }
  | _ => some world

/-- One thread gets the outcome of its call. A crash ends the whole program. -/
def step (world : World) (input : Nat × Event) : Option (Syscall × World) :=
  if world.crashed then none
  else match (world.threads input.1).step input.2 with
    | none => none
    | some (call, thread) =>
      (world.share input.1 input.2).map fun shared =>
        (call, { shared with
          threads := Function.update world.threads input.1 thread
          crashed := thread.pc == .crashed })

theorem step_cases {world after : World} {id : Nat} {event : Event} {call : Syscall}
    (taken : world.step (id, event) = some (call, after)) :
    ∃ thread shared, (world.threads id).step event = some (call, thread) ∧
      world.share id event = some shared ∧
        after = { shared with
          threads := Function.update world.threads id thread
          crashed := thread.pc == .crashed } := by
  unfold step at taken
  split at taken
  · cases taken
  · split at taken
    · cases taken
    · rename_i asked thread stepped
      obtain ⟨shared, shares, same⟩ := Option.map_eq_some_iff.mp taken
      cases same
      exact ⟨thread, shared, stepped, shares, rfl⟩

end World

/-- All interleavings of the handler threads under every outcome of their calls. -/
def server : Machine World (Nat × Event) Syscall where
  step := World.step

section Zones

variable {thread after : Thread} {event : Event} {call : Syscall}

/-- What one step of a thread does to its place. -/
inductive ZoneStep : Event → Zone → Zone → Prop where
  | lock : ZoneStep .lock .outside .locked
  | openDevice (result : Option Nat) : ZoneStep (.openDevice result) .locked .opened
  | close (failed : Bool) : ZoneStep (.close failed) .opened .closed
  | unlock : ZoneStep (.unlock false) .closed .outside
  | unlockReturn : ZoneStep (.unlock true) .closed .returned
  | leave {event : Event} (leaves : event.leavesLocked = true)
      (quiet : ∀ world id, World.share world id event = some world) : ZoneStep event .opened .returned
  | within {event : Event} (zone : Zone) (stays : event.leavesLocked = false)
      (quiet : ∀ world id, World.share world id event = some world)
      (still : zone = .outside ∨ zone = .opened) : ZoneStep event zone zone
  | quit {event : Event} (quiet : ∀ world id, World.share world id event = some world)
      (stays : event.leavesLocked = false) : ZoneStep event .outside .returned

theorem step_zone (taken : thread.step event = some (call, after)) :
    ZoneStep event thread.zone after.zone := by
  obtain ⟨waiting, resumes⟩ := Thread.step_cases taken
  have before : thread.zone = event.pc.zone := congrArg Pc.zone waiting
  have next := Thread.step_next taken
  rw [before]
  cases resumes with
  | callocRecvFails | recvFails | reallocFails | unlockExit =>
    exact .quit (fun _ _ => rfl) rfl
  | callocRecv | exits | stays =>
    exact .within .outside rfl (fun _ _ => rfl) (.inl rfl)
  | recv | realloc =>
    have outside : ∀ pc ∈ [Pc.realloc, .lock, .checkExit], pc.zone = .outside := by simp [Pc.zone]
    rw [Thread.zone, outside _ next]
    exact .within .outside rfl (fun _ _ => rfl) (.inl rfl)
  | lock => exact .lock
  | openDevice =>
    have opened : ∀ pc ∈ [Pc.crashed, .ioctl, .write], pc.zone = .opened := by simp [Pc.zone]
    rw [Thread.zone, opened _ next]
    exact .openDevice _
  | ioctl | write fits =>
    have opened : ∀ pc ∈ [Pc.lseekCur, .lseekEnd], pc.zone = .opened := by simp [Pc.zone]
    rw [Thread.zone, opened _ next]
    exact .within .opened rfl (fun _ _ => rfl) (.inr rfl)
  | ioctlFails | lseekCur | lseekEndFails _ | lseekEnd _ | lseekSet | callocSend _
  | readEnds _ _ | read _ _ | send _ =>
    exact .within .opened rfl (fun _ _ => rfl) (.inr rfl)
  | writeFails | callocSendFails | readFails | sendFails =>
    exact .leave rfl (fun _ _ => rfl)
  | close => exact .close _
  | unlockFailed => exact .unlockReturn
  | unlock => exact .unlock

end Zones

end Aesd.Server
