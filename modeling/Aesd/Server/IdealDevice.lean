import Aesd.Server.Framing
import Aesd.Server.CriticalSection

/-! The handlers on a device that does what a user expects of it. -/
namespace Aesd.Server

open Aesd.Library Aesd.Driver

/-- What an ideal device keeps of its commands; a command just written is never lost. -/
structure Retention where
  retain : List (List Byte) → List (List Byte)
  nonempty : ∀ commands payload, payload ≠ [] → (retain (commands ++ [payload])).flatten ≠ []

/-- Everything is kept. -/
def Retention.all : Retention where
  retain := id
  nonempty := by
    intro commands payload some
    simp [some]

/-- The ten most recent commands are kept. -/
def Retention.recent : Retention where
  retain := fun commands => commands.rtake 10
  nonempty := by
    intro commands payload some
    rw [List.rtake_concat_succ]
    simp [some]

/-- The commands, and the position of each open descriptor. -/
structure IdealDevice where
  commands : List (List Byte)
  position : Nat → Option Nat

namespace IdealDevice

def content (device : IdealDevice) : List Byte := device.commands.flatten

/-- The position of the byte that a seek addresses. -/
def target (commands : List (List Byte)) (seekto : AesdSeekto) : Option Nat :=
  match commands[seekto.writeCmd.toNat]? with
  | none => none
  | some command =>
    if seekto.writeCmdOffset.toNat < command.length then
      some ((commands.take seekto.writeCmd.toNat).flatten.length + seekto.writeCmdOffset.toNat)
    else none

def moveTo (device : IdealDevice) (descriptor position : Nat) : IdealDevice :=
  { device with position := Function.update device.position descriptor (some position) }

/-- The device calls that succeed, on an open descriptor at `position`; `none` for
outcomes that an ideal device does not give. -/
def succeed (retention : Retention) (device : IdealDevice) (descriptor position : Nat) :
    Syscall → Event → Option IdealDevice
  | .ioctl seekto, .ioctl true =>
    (target device.commands seekto).map (device.moveTo descriptor)
  | .write payload, .write (some count) =>
    if count = payload.length then
      let written := { device with commands := retention.retain (device.commands ++ [payload]) }
      some (written.moveTo descriptor written.content.length)
    else none
  | .lseek _ .seekCur, .lseekCur result =>
    if result.toInt = position then some device else none
  | .lseek _ .seekEnd, .lseekEnd result =>
    if result.toInt = device.content.length then
      some (device.moveTo descriptor device.content.length)
    else none
  | .lseek offset .seekSet, .lseekSet result =>
    if 0 ≤ offset.toInt ∧ result = offset then
      some (device.moveTo descriptor offset.toInt.toNat)
    else none
  | .read count, .read (some data) =>
    if data.isPrefixOf (device.content.drop position) ∧ data.length ≤ count ∧
        (data = [] → device.content.drop position = [] ∨ count = 0) then
      some (device.moveTo descriptor (position + data.length))
    else none
  | _, _ => none

end IdealDevice

/-- Outcomes by which a call reports an error. -/
def Event.failed : Event → Bool
  | .callocRecv succeeds | .ioctl succeeds | .callocSend succeeds => !succeeds
  | .recv result | .realloc result | .read result => result.isNone
  | .openDevice result | .write result | .send result => result.isNone
  | .lseekCur result | .lseekEnd result | .lseekSet result => result == -1
  | .close failed | .unlock failed => failed
  | .checkExit _ | .lock | .unlockExit => false

/-- Calls that the device answers. -/
def Event.onDevice : Event → Bool
  | .ioctl _ | .write _ | .lseekCur _ | .lseekEnd _ | .lseekSet _ | .read _ => true
  | _ => false

/-- The device after a call on the global descriptor `fd`. Any call may fail. -/
def IdealDevice.answer (retention : Retention) (device : IdealDevice) (fd : Option Nat)
    (call : Syscall) (event : Event) : Option IdealDevice :=
  if event.onDevice && !event.failed then
    match fd with
    | none => none
    | some descriptor =>
      match device.position descriptor with
      | none => none
      | some position => device.succeed retention descriptor position call event
  else match call, event with
    | _, .openDevice (some descriptor) => some (device.moveTo descriptor 0)
    | _, .close _ =>
      match fd with
      | none => some device
      | some descriptor =>
        some { device with position := Function.update device.position descriptor none }
    | .send bytes, .send (some count) => if count = bytes.length then some device else none
    | _, _ => some device

structure IdealWorld where
  world : World
  device : IdealDevice

def IdealWorld.start (commands : List (List Byte)) : IdealWorld :=
  ⟨World.start, ⟨commands, fun _ => none⟩⟩

def IdealWorld.step (retention : Retention) (state : IdealWorld) (input : Nat × Event) :
    Option (Syscall × IdealWorld) :=
  match state.world.step input with
  | none => none
  | some (call, world) =>
    (state.device.answer retention state.world.fd call input.2).map fun device =>
      (call, ⟨world, device⟩)

/-- The server on an ideal device, with complete writes and sends. -/
def ideal (retention : Retention) : Machine IdealWorld (Nat × Event) Syscall where
  step := IdealWorld.step retention

theorem ideal_step {retention : Retention} {state after : IdealWorld} {input : Nat × Event}
    {call : Syscall} (taken : (ideal retention).step state input = some (call, after)) :
    state.world.step input = some (call, after.world) ∧
      state.device.answer retention state.world.fd call input.2 = some after.device := by
  simp only [ideal, IdealWorld.step] at taken
  split at taken
  · cases taken
  · rename_i asked world stepped
    obtain ⟨device, answered, same⟩ := Option.map_eq_some_iff.mp taken
    cases same
    exact ⟨stepped, answered⟩

/-- A run on the ideal device is a run of the server. -/
theorem ideal_run {retention : Retention} {trace : List ((Nat × Event) × Syscall)}
    {commands : List (List Byte)} {state : IdealWorld}
    (run : (ideal retention).Run (.start commands) trace state) :
    server.Run World.start trace state.world := by
  refine run.history (fun past state => server.Run World.start past state.world) .start ?_
  intro past state input call after earlier taken
  exact earlier.next (ideal_step taken).1

end Aesd.Server
