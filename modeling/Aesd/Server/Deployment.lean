import Aesd.Driver.CommandDevice
import Aesd.Server.Serial

/-! The handlers of `aesdsocket` on the driver of `aesdchar`. -/
namespace Aesd.Server

open Aesd.Library Aesd.Driver

/-- The driver, the open file behind each descriptor of the device, and how many
files were opened so far. -/
structure Kernel where
  driver : DriverState
  files : Nat → Option Nat
  opened : Nat

def Kernel.start : Kernel := ⟨aesdInitModule, fun _ => none, 0⟩

def Kernel.device (kernel : Kernel) : CommandDevice := kernel.driver.memory.device

theorem sizeT_lt (value : Int32) : sizeT value < 2 ^ 64 := UInt64.toNat_lt _

/-- The file operation that a system call on the device comes to. -/
def Syscall.fileOperation : Syscall → Option Operation
  | .ioctl seekto => some (.ioctl AESDCHAR_IOCSEEKTO seekto)
  | .write payload =>
    if fits : payload.length < 2 ^ 63 then some (.write (.bytes payload fits)) else none
  | .lseek offset whence => some (.llseek offset whence)
  | .read count => some (.read false (UInt64.ofNat count))
  | _ => none

/-- A negative result of the driver reaches the program as a failure. -/
def Event.reports (event : Event) (reply : Reply) : Bool :=
  let moved : Int64 := if reply.retval < 0 then -1 else reply.retval
  match event with
  | .ioctl succeeds => succeeds == decide (reply.retval = 0)
  | .write result =>
    result == if reply.retval < 0 then none else some reply.retval.toInt.toNat
  | .lseekCur result => result == moved
  | .lseekEnd result => result == moved
  | .lseekSet result => result == moved
  | .read result => result == if reply.retval < 0 then none else some reply.received
  | _ => true

namespace Kernel

def openFile (kernel : Kernel) (descriptor : Nat) : Kernel where
  driver := kernel.driver
  files := Function.update kernel.files descriptor (some kernel.opened)
  opened := kernel.opened + 1

def closeFile (kernel : Kernel) (descriptor : Nat) : Kernel where
  driver := kernel.driver
  files := Function.update kernel.files descriptor none
  opened := kernel.opened

/-- The driver on one call, if it reports this outcome. -/
def call (kernel : Kernel) (filp : Nat) (services : Services) (operation : Operation)
    (event : Event) : Option Kernel :=
  let (reply, driver) := (⟨filp, services, operation⟩ : Call).run kernel.driver
  if event.reports reply then some { kernel with driver } else none

/-- What a system call of a handler does to the kernel; `none` for an outcome it
does not give. A descriptor that is not open makes the call fail. -/
def serve (kernel : Kernel) (fd : Option Nat) (services : Services) (asked : Syscall)
    (event : Event) : Option Kernel :=
  if event.onDevice then
    match fd.bind kernel.files, asked.fileOperation with
    | none, _ => if event.failed then some kernel else none
    | some _, none => none
    | some filp, some operation => kernel.call filp services operation event
  else match event with
    | .openDevice (some descriptor) => some (kernel.openFile descriptor)
    | .close _ =>
      match fd with
      | none => some kernel
      | some descriptor => some (kernel.closeFile descriptor)
    | _ => some kernel

theorem call_eq (kernel : Kernel) (filp : Nat) (services : Services) (operation : Operation)
    (event : Event) : kernel.call filp services operation event =
      if event.reports ((⟨filp, services, operation⟩ : Call).run kernel.driver).1 then
        some { kernel with driver := ((⟨filp, services, operation⟩ : Call).run kernel.driver).2 }
      else none := rfl

theorem call_driver {kernel after : Kernel} {filp : Nat} {services : Services}
    {operation : Operation} {event : Event}
    (called : kernel.call filp services operation event = some after) :
    after = { kernel with driver := ((⟨filp, services, operation⟩ : Call).run kernel.driver).2 } ∧
      event.reports ((⟨filp, services, operation⟩ : Call).run kernel.driver).1 = true := by
  rw [call_eq, Option.ite_none_right_eq_some, Option.some.injEq] at called
  exact ⟨called.2.symm, called.1⟩

theorem serve_driver {kernel after : Kernel} {fd : Option Nat} {services : Services}
    {asked : Syscall} {event : Event}
    (served : kernel.serve fd services asked event = some after) :
    after.driver = kernel.driver ∨ ∃ call : Driver.Call, after.driver = (call.run kernel.driver).2 := by
  unfold serve at served
  split at served
  · split at served
    · obtain ⟨_, same⟩ := Option.ite_none_right_eq_some.mp served
      exact .inl (congrArg driver (Option.some.inj same).symm)
    · cases served
    · rename_i filp operation _ _
      exact .inr ⟨⟨filp, services, operation⟩, congrArg driver (call_driver served).1⟩
  · split at served
    · obtain rfl := Option.some.inj served
      exact .inl rfl
    · split at served
      · obtain rfl := Option.some.inj served
        exact .inl rfl
      · obtain rfl := Option.some.inj served
        exact .inl rfl
    · obtain rfl := Option.some.inj served
      exact .inl rfl

theorem serve_close {kernel after : Kernel} {fd : Option Nat} {services : Services}
    {asked : Syscall} {failed : Bool}
    (served : kernel.serve fd services asked (.close failed) = some after) :
    after.driver = kernel.driver := by
  cases fd with
  | none =>
    obtain rfl := Option.some.inj served
    rfl
  | some descriptor =>
    obtain rfl := Option.some.inj served
    rfl

theorem serve_outside {kernel after : Kernel} {fd : Option Nat} {services : Services}
    {asked : Syscall} {event : Event} (outside : event.pc.zone = .outside)
    (served : kernel.serve fd services asked event = some after) : after = kernel := by
  cases event with
  | callocRecv | checkExit | recv | realloc | lock | unlockExit =>
    exact (Option.some.inj served).symm
  | _ => cases outside

end Kernel

structure Deployment where
  world : World
  kernel : Kernel

def Deployment.start : Deployment := ⟨.start, .start⟩

def Deployment.step (state : Deployment) (input : (Nat × Event) × Services) :
    Option (Syscall × Deployment) :=
  match state.world.step input.1 with
  | none => none
  | some (asked, world) =>
    (state.kernel.serve state.world.fd input.2 asked input.1.2).map fun kernel =>
      (asked, ⟨world, kernel⟩)

/-- All interleavings of the handlers on the driver, under any behaviour of the
services that the driver uses. -/
def deployed : Machine Deployment ((Nat × Event) × Services) Syscall where
  step := Deployment.step

theorem deployed_step {state after : Deployment} {id : Nat} {event : Event}
    {services : Services} {asked : Syscall}
    (taken : deployed.step state ((id, event), services) = some (asked, after)) :
    state.world.step (id, event) = some (asked, after.world) ∧
      state.kernel.serve state.world.fd services asked event = some after.kernel := by
  simp only [deployed, Deployment.step] at taken
  split at taken
  · cases taken
  · rename_i called world stepped
    obtain ⟨kernel, served, same⟩ := Option.map_eq_some_iff.mp taken
    cases same
    exact ⟨stepped, served⟩

/-- The same steps without the services behind them. -/
def bare (step : ((Nat × Event) × Services) × Syscall) : (Nat × Event) × Syscall :=
  (step.1.1, step.2)

theorem deployed_run {trace : List (((Nat × Event) × Services) × Syscall)} {state : Deployment}
    (run : deployed.Run .start trace state) :
    server.Run World.start (trace.map bare) state.world := by
  refine run.history (fun past state => server.Run World.start (past.map bare) state.world)
    .start ?_
  intro past state ⟨⟨id, event⟩, services⟩ asked after earlier taken
  rw [List.map_append]
  exact earlier.next (deployed_step taken).1

/-- A thread that is about to use what it received has a newline in it. -/
def Thread.Ready (thread : Thread) : Prop :=
  (thread.pc = .lock ∨ thread.pc = .openDevice ∨ thread.pc = .write) → newline ∈ thread.text

namespace Thread.Ready

variable {thread after : Thread} {event : Event} {asked : Syscall}

theorem of_elsewhere (elsewhere : (!(thread.pc == .lock || thread.pc == .openDevice ||
    thread.pc == .write)) = true) : thread.Ready := by
  rintro (place | place | place)
  · rw [place] at elsewhere
    exact absurd elsewhere Bool.false_ne_true
  · rw [place] at elsewhere
    exact absurd elsewhere Bool.false_ne_true
  · rw [place] at elsewhere
    exact absurd elsewhere Bool.false_ne_true

theorem scan (thread : Thread) : thread.scan.Ready := by
  unfold Thread.scan
  dsimp only
  split
  · rename_i found
    exact fun _ => found
  · exact of_elsewhere rfl

theorem receive (thread : Thread) (data : List Byte) : (thread.receive data).Ready := by
  simp only [Thread.receive]
  split
  · exact of_elsewhere rfl
  · exact scan _

theorem grow (growing : thread.pc = .realloc) (fresh : List Byte) : (thread.grow fresh).Ready := by
  unfold Thread.grow
  split
  · exact of_elsewhere (by rw [growing]; rfl)
  · exact scan _

theorem dispatch (found : newline ∈ thread.text) : thread.dispatch.Ready := by
  unfold Thread.dispatch
  split
  · split
    · exact of_elsewhere rfl
    · exact of_elsewhere rfl
  · exact fun _ => found

theorem step (ready : thread.Ready) (taken : thread.step event = some (asked, after)) :
    after.Ready := by
  obtain ⟨waiting, resumes⟩ := Thread.step_cases taken
  have away : event.next.all (fun pc => !(pc == .lock || pc == .openDevice || pc == .write)) =
      true → after.Ready := fun everywhere => of_elsewhere (Thread.holds_of_next taken everywhere)
  cases resumes with
  | recv => exact receive thread _
  | realloc => exact grow waiting _
  | lock => exact fun _ => ready (.inl waiting)
  | openDevice => exact dispatch (ready (.inr (.inl waiting)))
  | _ => exact away rfl

end Thread.Ready

/-- What a handler writes has a newline in it. -/
theorem run_ready {trace : List ((Nat × Event) × Syscall)} {world : World}
    (run : server.Run World.start trace world) (id : Nat) : (world.threads id).Ready := by
  refine run.invariant (fun world => (world.threads id).Ready) (.of_elsewhere rfl) ?_
  rintro world ⟨other, event⟩ asked after ready taken
  obtain ⟨thread, shared, stepped, _, rfl⟩ := World.step_cases taken
  by_cases mine : id = other
  · subst mine
    simpa using ready.step stepped
  · simpa [Function.update_of_ne mine] using ready

end Aesd.Server
