import Aesd.Server.CriticalSection
import Aesd.Server.Reaping

/-! The whole program: `main` and the handlers it starts, with one table of descriptors. -/
namespace Aesd.Server

open Aesd.Library

/-- Who uses a descriptor that is a socket. A client's socket goes by its handler. -/
inductive Socket where
  | listener
  | client (handler : Nat)
deriving DecidableEq, Repr

/-- `sockets` is the part of the table that is not about the device; the descriptors of
the device are in the table of `world`. -/
structure Aesdsocket where
  main : MainState
  world : World
  sfd : Nat
  sockets : Nat → Option Socket

/-- What `main` does, and what a handler gets back from its call. That a handler has set
its flag follows from its call; `returns` is left to the scheduler. -/
inductive Happening where
  | main (event : MainEvent)
  | handler (id : Nat) (event : Event)
deriving DecidableEq, Repr

namespace Aesdsocket

/-- The listening socket is open and `main` is in front of its accept loop. -/
def start (sfd : Nat) : Aesdsocket :=
  ⟨.start, .start, sfd, Function.update (fun _ => none) sfd (some .listener)⟩

/-- The number is free from here on, whatever it stood for. -/
def close (program : Aesdsocket) (descriptor : Nat) : Aesdsocket :=
  { program with
    sockets := Function.update program.sockets descriptor none
    world := { program.world with
      descriptors := Function.update program.world.descriptors descriptor none } }

/-- What `main` does before it ends the process. -/
def cleanup (program : Aesdsocket) : Aesdsocket :=
  match program.world.fd with
  | none => program.close program.sfd
  | some fd => (program.close program.sfd).close fd

end Aesdsocket

def MainPc.exits : MainPc → Bool
  | .exited _ => true
  | _ => false

/-- The sockets that `main` closes in one step. -/
def Output.closes (output : Output) : List Nat :=
  output.effects.filterMap fun effect =>
    match effect with
    | .closed _ cfd => some cfd
    | _ => none

namespace Aesdsocket

/-- The new connection, if any, gets its number in the table. -/
def accept (program : Aesdsocket) (output : Output) : Aesdsocket :=
  match output.accepted with
  | none => program
  | some connection => { program with
      sockets := Function.update program.sockets connection.cfd
        (some (.client connection.handler)) }

/-- `accept` and `open` return numbers that are not in use. -/
def free (program : Aesdsocket) (descriptor : Nat) : Bool :=
  (program.sockets descriptor).isNone && (program.world.descriptors descriptor).isNone

/-- A handler returns once its code has. -/
def mayHappen (program : Aesdsocket) : MainEvent → Bool
  | .complete _ => false
  | .returns id => (program.world.threads id).pc == .returned
  | _ => true

def mainStep (program : Aesdsocket) (event : MainEvent) : Option (Output × Aesdsocket) :=
  if program.mayHappen event && !program.main.pc.exits then
    match program.main.step event with
    | none => none
    | some (output, main) =>
      if output.accepted.all fun connection => program.free connection.cfd then
        let program := (accept { program with main } output)
        let program := output.closes.foldl close program
        some (output, if main.pc.exits then program.cleanup else program)
      else none
  else none

/-- The flag that `main` sets, as the handler reads it. -/
def exitFlag (program : Aesdsocket) (id : Nat) : Option Bool := do
  let handler ← program.main.handlers[id]?
  let threadData ← readThreadData program.main.heap handler.threadData
  return threadData.exit

/-- What the call can come back with, as far as `main` and the sockets have a say. -/
def allows (program : Aesdsocket) (id : Nat) : Event → Bool
  | .checkExit exit => program.exitFlag id == some exit
  | .openDevice (some descriptor) => (program.sockets descriptor).isNone
  | _ => true

/-- The flag of a handler that has just set it, in the memory of `main`. -/
def complete (program : Aesdsocket) (id : Nat) (thread : Thread) : MainState :=
  if thread.complete && !(program.world.threads id).complete then
    ((program.main.step (.complete id)).map Prod.snd).getD program.main
  else program.main

/-- The sockets after a call: `close` goes to whatever `fd` stands for. -/
def socketsAfter (program : Aesdsocket) : Event → Nat → Option Socket
  | .close _ =>
    match program.world.fd with
    | none => program.sockets
    | some fd => Function.update program.sockets fd none
  | _ => program.sockets

def handlerStep (program : Aesdsocket) (id : Nat) (event : Event) : Option (Syscall × Aesdsocket) :=
  match program.main.handlers[id]? with
  | some ⟨_, false⟩ =>
    if program.allows id event && !program.main.pc.exits then
      (program.world.step (id, event)).map fun (call, world) =>
        (call, { program with
          main := program.complete id (world.threads id)
          world
          sockets := program.socketsAfter event })
    else none
  | _ => none

def step (program : Aesdsocket) : Happening → Option ((Output ⊕ Syscall) × Aesdsocket)
  | .main event =>
    if program.world.crashed then none
    else (program.mainStep event).map fun (output, after) => (.inl output, after)
  | .handler id event =>
    (program.handlerStep id event).map fun (call, after) => (.inr call, after)

end Aesdsocket

/-- All interleavings of `main` and the handlers. -/
def aesdsocket : Machine Aesdsocket Happening (Output ⊕ Syscall) where
  step := Aesdsocket.step

end Aesd.Server
