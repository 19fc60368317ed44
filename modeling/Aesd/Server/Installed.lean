import Aesd.Library.Refinement
import Aesd.Server.Discipline
import Aesd.Server.EndToEnd

/-! The whole program on the driver: `main`, the handlers, their sockets and the device. -/
namespace Aesd.Server

open Aesd.Library Aesd.Driver

structure Installation where
  program : Aesdsocket
  kernel : Kernel

namespace Installation

def start (sfd : Nat) : Installation := ⟨.start sfd, .start⟩

/-- What the handlers and the driver are by themselves. -/
def deployment (state : Installation) : Deployment := ⟨state.program.world, state.kernel⟩

/-- The numbers that a step of `main` closes, those of the clean-up among them. -/
def closes (state : Installation) (output : Output) (after : Aesdsocket) : List Nat :=
  output.closes ++
    if after.main.pc.exits then state.program.sfd :: state.program.world.fd.toList else []

/-- The kernel after a step: a call of a handler reaches it, and every close of `main`. -/
def serve (state : Installation) (input : Happening × Services) (after : Aesdsocket) :
    Output ⊕ Syscall → Option Kernel
  | .inl output => some ((state.closes output after).foldl Kernel.closeFile state.kernel)
  | .inr asked =>
    match input.1 with
    | .handler _ event => state.kernel.serve state.program.world.fd input.2 asked event
    | .main _ => none

def step (state : Installation) (input : Happening × Services) :
    Option ((Output ⊕ Syscall) × Installation) :=
  match state.program.step input.1 with
  | none => none
  | some (output, program) =>
    (state.serve input program output).map fun kernel => (output, ⟨program, kernel⟩)

end Installation

/-- All interleavings of `main` and the handlers on the driver, under any behaviour of the
services that the driver uses. -/
def installed : Machine Installation (Happening × Services) (Output ⊕ Syscall) where
  step := Installation.step

/-- A step of a handler, as the driver sees it. -/
def handled (step : (Happening × Services) × (Output ⊕ Syscall)) :
    Option (((Nat × Event) × Services) × Syscall) :=
  match step.1.1, step.2 with
  | .handler id event, .inr asked => some (((id, event), step.1.2), asked)
  | _, _ => none

theorem handled_eq_some {happening : Happening} {services : Services}
    {output : Output ⊕ Syscall} {shown : ((Nat × Event) × Services) × Syscall}
    (shows : handled ((happening, services), output) = some shown) :
    happening = .handler shown.1.1.1 shown.1.1.2 ∧ services = shown.1.2 ∧
      output = .inr shown.2 := by
  cases happening with
  | main event => cases shows
  | handler id event =>
    cases output with
    | inl said => cases shows
    | inr asked =>
      cases shows
      exact ⟨rfl, rfl, rfl⟩

/-- Only descriptors of the device have a file behind them. -/
def Filed (state : Deployment) : Prop :=
  ∀ descriptor, state.kernel.files descriptor ≠ none → state.world.descriptors descriptor ≠ none

/-- The program fits together, and so do its device descriptors and the files. -/
structure Sound (state : Installation) : Prop where
  consistent : Consistent state.program
  filed : Filed state.deployment

section Kernel

variable {kernel after : Kernel} {fd : Option Nat} {services : Services} {asked : Syscall}
variable {event : Event}

theorem Kernel.closeFile_free {descriptor : Nat} (free : kernel.files descriptor = none) :
    kernel.closeFile descriptor = kernel := by
  have same : Function.update kernel.files descriptor none = kernel.files := by
    rw [← free]
    exact Function.update_eq_self descriptor kernel.files
  rw [Kernel.closeFile, same]

theorem Kernel.closeAll_free {descriptors : List Nat}
    (free : ∀ descriptor ∈ descriptors, kernel.files descriptor = none) :
    descriptors.foldl Kernel.closeFile kernel = kernel := by
  induction descriptors with
  | nil => rfl
  | cons first rest ih =>
    rw [List.foldl_cons, Kernel.closeFile_free (free first List.mem_cons_self)]
    exact ih fun descriptor member => free descriptor (List.mem_cons_of_mem _ member)

theorem Kernel.serve_files (served : kernel.serve fd services asked event = some after)
    (onDevice : event.onDevice = true) : after.files = kernel.files := by
  unfold Kernel.serve at served
  rw [if_pos onDevice] at served
  split at served
  · obtain ⟨_, same⟩ := Option.ite_none_right_eq_some.mp served
    rw [Option.some.inj same]
  · cases served
  · rw [(Kernel.call_driver served).1]

/-- The files and the descriptors of the device are opened and closed together. -/
theorem Filed.step {state next : Deployment} {id : Nat} (filed : Filed state)
    (taken : deployed.step state ((id, event), services) = some (asked, next)) : Filed next := by
  obtain ⟨moved, served⟩ := deployed_step taken
  obtain ⟨_, shared, _, shares, same⟩ := World.step_cases moved
  intro descriptor
  rw [same]
  cases event with
  | openDevice result =>
    cases result with
    | none =>
      rw [← Option.some.inj served, ← Option.some.inj shares]
      exact filed descriptor
    | some number =>
      obtain ⟨_, opened⟩ := Option.ite_none_right_eq_some.mp shares
      rw [← Option.some.inj served, ← Option.some.inj opened]
      by_cases mine : descriptor = number
      · simp [mine]
      · simpa [Kernel.openFile, Function.update_of_ne mine] using filed descriptor
  | close failed =>
    simp only [World.share] at shares
    cases fd : state.world.fd with
    | none =>
      rw [fd] at shares served
      rw [← Option.some.inj served, ← Option.some.inj shares]
      exact filed descriptor
    | some number =>
      rw [fd] at shares served
      rw [← Option.some.inj served, ← Option.some.inj shares]
      by_cases mine : descriptor = number
      · simp [mine, Kernel.closeFile]
      · simpa [Kernel.closeFile, Function.update_of_ne mine] using filed descriptor
  | lock =>
    obtain ⟨_, locked⟩ := Option.ite_none_right_eq_some.mp shares
    rw [← Option.some.inj served, ← Option.some.inj locked]
    exact filed descriptor
  | ioctl | write | lseekCur | lseekEnd | lseekSet | read =>
    rw [Kernel.serve_files served rfl, ← Option.some.inj shares]
    exact filed descriptor
  | _ =>
    rw [← Option.some.inj served, ← Option.some.inj shares]
    exact filed descriptor

end Kernel

section Steps

variable {state after : Installation} {happening : Happening} {services : Services}
variable {output : Output ⊕ Syscall}

theorem installed_step (taken : installed.step state (happening, services) = some (output, after)) :
    aesdsocket.step state.program happening = some (output, after.program) ∧
      state.serve (happening, services) after.program output = some after.kernel := by
  simp only [installed, Installation.step] at taken
  split at taken
  · cases taken
  · rename_i said program stepped
    obtain ⟨kernel, served, same⟩ := Option.map_eq_some_iff.mp taken
    cases same
    exact ⟨stepped, served⟩

theorem handler_asks {id : Nat} {event : Event}
    (taken : installed.step state (.handler id event, services) = some (output, after)) :
    ∃ asked, output = .inr asked := by
  obtain ⟨_, _, same⟩ := Option.map_eq_some_iff.mp (installed_step taken).1
  exact ⟨_, (Prod.mk.inj same).1.symm⟩

/-- A handler's step is one of the handlers on the driver. -/
theorem handler_deployed {id : Nat} {event : Event} {asked : Syscall}
    (taken : installed.step state (.handler id event, services) = some (.inr asked, after)) :
    deployed.step state.deployment ((id, event), services) = some (asked, after.deployment) := by
  obtain ⟨stepped, served⟩ := installed_step taken
  obtain ⟨⟨call, next⟩, moved, same⟩ := Option.map_eq_some_iff.mp stepped
  cases same
  obtain ⟨_, world, _, _, _, moved, worldAfter⟩ := handlerStep_cases moved
  have kernelAfter : state.kernel.serve state.program.world.fd services asked event =
      some after.kernel := served
  simp only [deployed, Deployment.step, Installation.deployment, moved, kernelAfter, Option.map_some]
  rw [worldAfter]

/-- A step of `main` that is not its last leaves the handlers and the driver alone. -/
theorem main_deployed {event : MainEvent} (sound : Sound state)
    (alive : after.program.main.pc.exits = false)
    (taken : installed.step state (.main event, services) = some (output, after)) :
    after.deployment = state.deployment := by
  obtain ⟨stepped, served⟩ := installed_step taken
  simp only [aesdsocket, Aesdsocket.step, Option.ite_none_left_eq_some] at stepped
  obtain ⟨_, mapped⟩ := stepped
  obtain ⟨⟨said, next⟩, stepped, same⟩ := Option.map_eq_some_iff.mp mapped
  cases same
  obtain ⟨main, may, _, moved, free, afterwards⟩ := mainStep_cases stepped
  have kept : after.program = if main.pc.exits then (state.program.after said main).cleanup
      else state.program.after said main := afterwards
  have stays : main.pc.exits = false := by
    rw [kept] at alive
    by_contra exits
    rw [if_pos (by simpa using exits), Aesdsocket.cleanup_main, Aesdsocket.after_main] at alive
    exact exits alive
  rw [if_neg (by simp [stays])] at kept
  -- the numbers that are closed are those of clients, and no file is behind them
  have unfiled : ∀ descriptor ∈ said.closes, state.kernel.files descriptor = none := by
    intro descriptor closes
    obtain ⟨_, _, isClient, _⟩ := sound.consistent.main_closes moved may free closes
    by_contra file
    exact sound.filed descriptor file
      (sound.consistent.apart descriptor (by rw [isClient]; exact Option.some_ne_none _))
  have closing : state.closes said after.program = said.closes := by
    simp [Installation.closes, alive]
  have kernel : some (said.closes.foldl Kernel.closeFile state.kernel) = some after.kernel := by
    rw [← closing]
    exact served
  rw [Kernel.closeAll_free unfiled] at kernel
  rw [Installation.deployment, Installation.deployment, kept,
    (sound.consistent.main_step moved may free).2, Option.some.inj kernel]

/-- The handlers and the driver in the whole program run as they do without `main`. -/
theorem projects : installed.Projects deployed Installation.deployment handled Sound
    fun _ _ _ after => after.program.main.pc.exits = false where
  kept := by
    intro before ⟨happening, services⟩ output after sound alive taken
    obtain ⟨stepped, _⟩ := installed_step taken
    refine ⟨(whole_step sound.consistent stepped).2.1 alive, ?_⟩
    cases happening with
    | main event =>
      rw [main_deployed sound alive taken]
      exact sound.filed
    | handler id event =>
      obtain ⟨asked, rfl⟩ := handler_asks taken
      exact sound.filed.step (handler_deployed taken)
  seen := by
    intro before ⟨happening, services⟩ output after shown _ _ taken shows
    cases happening with
    | main event => cases shows
    | handler id event =>
      cases output with
      | inl said => cases shows
      | inr asked =>
        cases shows
        exact handler_deployed taken
  unseen := by
    intro before ⟨happening, services⟩ output after sound alive taken shows
    cases happening with
    | main event => exact main_deployed sound alive taken
    | handler id event =>
      obtain ⟨asked, rfl⟩ := handler_asks taken
      cases shows

end Steps

section Runs

variable {sfd : Nat} {state : Installation}
variable {trace : List ((Happening × Services) × (Output ⊕ Syscall))}

theorem sound_start (sfd : Nat) : Sound (.start sfd) where
  consistent := .start sfd
  filed := fun _ file => absurd rfl file

theorem handler_output {start : Installation} {id : Nat} {event : Event} {services : Services}
    {output : Output ⊕ Syscall} (run : installed.Run start trace state)
    (member : ((.handler id event, services), output) ∈ trace) : ∃ asked, output = .inr asked := by
  obtain ⟨_, inside⟩ := Machine.inside_of_mem member
  obtain ⟨_, _, _, taken⟩ := run.step_inside inside
  exact handler_asks taken

theorem each_alive (run : installed.Run (.start sfd) trace state)
    (alive : state.program.main.pc.exits = false) :
    installed.EachStep (.start sfd) trace fun _ _ _ after =>
      after.program.main.pc.exits = false := by
  induction run with
  | start => exact Machine.eachStep_nil
  | next earlier taken ih =>
    refine (Machine.eachStep_append_singleton earlier taken).mpr ⟨ih ?_, alive⟩
    exact alive_of_step (installed_step taken).1

/-- What the handlers do in the whole program they do on the driver alone. -/
theorem handlers_run (run : installed.Run (.start sfd) trace state)
    (alive : state.program.main.pc.exits = false) :
    Sound state ∧ deployed.Run .start (trace.filterMap handled) state.deployment :=
  projects.run run (sound_start sfd) (each_alive run alive)

end Runs

/-- The socket that a handler sends to. -/
def Aesdsocket.cfd (program : Aesdsocket) (id : Nat) : Option Nat := do
  let handler ← program.main.handlers[id]?
  let threadData ← readThreadData program.main.heap handler.threadData
  return threadData.cfd

/-- The bytes that a step puts on the socket of one client. -/
def receives (id : Nat) (state : Installation) (input : Happening × Services) : List Byte :=
  match input.1 with
  | .handler mover (.send (some count)) =>
    match (state.program.world.threads mover).syscall with
    | .send bytes =>
      if (state.program.cfd mover).bind state.program.sockets = some (.client id) then
        bytes.take count
      else []
    | _ => []
  | _ => []

/-- What one client has received after these steps. -/
def receivedBy (sfd id : Nat) (trace : List ((Happening × Services) × (Output ⊕ Syscall))) :
    List Byte :=
  installed.collect (receives id) (.start sfd) (trace.map Prod.fst)

section Clients

variable {sfd id : Nat} {state after : Installation} {services : Services}
variable {trace : List ((Happening × Services) × (Output ⊕ Syscall))}

/-- A handler that runs sends to its own client. -/
theorem Sound.sends_own (sound : Sound state) {mover threadData : Nat}
    (runs : state.program.main.handlers[mover]? = some ⟨threadData, false⟩) :
    (state.program.cfd mover).bind state.program.sockets = some (.client mover) := by
  obtain ⟨data, found, isOpen⟩ := sound.consistent.running runs
  simp [Aesdsocket.cfd, runs, found, isOpen]

/-- The bytes of a complete send reach the client of the handler, and nobody else. -/
theorem receives_handler (sound : Sound state) {mover : Nat} {event : Event} {asked : Syscall}
    (taken : installed.step state (.handler mover event, services) = some (.inr asked, after))
    (undisturbed : Undisturbed ((mover, event), services) asked) :
    receives id state (.handler mover event, services) =
      if mover = id then delivered event asked else [] := by
  obtain ⟨_, _, moved, _, _⟩ := World.step_cases (deployed_step (handler_deployed taken)).1
  obtain ⟨_, asks, _⟩ := Thread.step_eq_some_iff.mp moved
  obtain ⟨_, handles, _⟩ := Option.map_eq_some_iff.mp (installed_step taken).1
  obtain ⟨_, _, runs, _⟩ := handlerStep_cases handles
  have own := sound.sends_own runs
  have asks : asked = (state.program.world.threads mover).syscall := asks
  cases event with
  | send result =>
    cases result with
    | none => simp [receives, delivered]
    | some count =>
      simp only [receives, ← asks, own]
      cases asked with
      | send bytes =>
        have complete : count = bytes.length := undisturbed.sends bytes count rfl rfl
        simp [delivered, complete]
      | _ => simp [delivered]
  | _ => simp [receives, delivered]

/-- What a client receives in a run is what its handler sent. -/
theorem received_sent {start : Installation} (run : installed.Run start trace state)
    (sound : Sound start)
    (alive : installed.EachStep start trace fun _ _ _ after =>
      after.program.main.pc.exits = false)
    (undisturbed : installed.EachStep start trace fun _ input output _ =>
      ∀ mover event asked, input.1 = .handler mover event → output = .inr asked →
        Undisturbed ((mover, event), input.2) asked) :
    installed.collect (receives id) start (trace.map Prod.fst) =
      sentBy id ((trace.filterMap handled).map bare) := by
  induction run with
  | start => rfl
  | next earlier taken ih =>
    rename_i trace before after input output
    obtain ⟨aliveEarlier, _⟩ := (Machine.eachStep_append_singleton earlier taken).mp alive
    obtain ⟨calmEarlier, calm⟩ := (Machine.eachStep_append_singleton earlier taken).mp undisturbed
    have now := (projects.run earlier sound aliveEarlier).1
    rw [earlier.collect_next, ih aliveEarlier calmEarlier, List.filterMap_append, List.map_append]
    obtain ⟨happening, services⟩ := input
    cases happening with
    | main event =>
      have unseen : handled ((.main event, services), output) = none := rfl
      simp [receives, unseen]
    | handler mover event =>
      obtain ⟨asked, rfl⟩ := handler_asks taken
      rw [receives_handler now taken (calm mover event asked rfl rfl)]
      simp [sentBy, handled, bare]

end Clients

section Replies

variable {sfd : Nat} {state : Installation}
variable {trace past middle later : List ((Happening × Services) × (Output ⊕ Syscall))}

/-- In the whole program, with `main` accepting, reaping and asking for the end at any
time: a line handled without a failure comes back from the driver behind the nine lines
before it, and it is the client that sent the line whose socket the reply goes to. -/
theorem installed_replies {id : Nat} {locking unlocking : Syscall} {first last : Services}
    (run : installed.Run (.start sfd) trace state)
    (alive : state.program.main.pc.exits = false)
    (whole : trace = past ++ ((.handler id .lock, first), .inr locking) :: middle ++
      ((.handler id (.unlock false), last), .inr unlocking) :: later)
    (lines : installed.EachStep (.start sfd) trace fun before input _ _ =>
      ∀ mover, input.1 = .handler mover .lock →
        OrdinaryLine (before.program.world.threads mover).text)
    (undisturbed : installed.EachStep (.start sfd) trace fun _ input output _ =>
      ∀ mover event asked, input.1 = .handler mover event → output = .inr asked →
        Undisturbed ((mover, event), input.2) asked)
    (small : installed.Along (.start sfd) trace fun state =>
      state.kernel.driver.memory.commands.flatten.length < 2 ^ 31)
    (works : ∀ step ∈ middle, ∀ event, step.1.1 = .handler id event →
      event.failed = false ∧ event ≠ .unlock false) :
    ∃ line, OrdinaryLine line ∧
      (∀ before, installed.Run (.start sfd) past before →
        (before.program.world.threads id).text = line) ∧
      linesOf ((middle.filterMap handled).map bare) = [line] ∧
      receivedBy sfd id (past ++ ((.handler id .lock, first), .inr locking) :: middle) =
        receivedBy sfd id past ++
          recentContent [] (linesOf ((past.filterMap handled).map bare) ++ [line]) := by
  have sound := sound_start sfd
  have eachAlive := each_alive run alive
  have deployedLines : LinesOnly (trace.filterMap handled) := by
    refine projects.eachStep run sound eachAlive lines ?_
    intro before ⟨happening, services⟩ output after ⟨⟨⟨mover, event⟩, _⟩, asked⟩ shows ordinary isLock
    obtain ⟨isHandler, _, _⟩ := handled_eq_some shows
    have locks : event = .lock := isLock
    exact ordinary mover (by rw [isHandler, locks])
  have deployedCalm : deployed.EachStep .start (trace.filterMap handled)
      fun _ input asked _ => Undisturbed input asked := by
    refine projects.eachStep run sound eachAlive undisturbed ?_
    intro before ⟨happening, services⟩ output after ⟨⟨⟨mover, event⟩, _⟩, asked⟩ shows calm
    obtain ⟨isHandler, rfl, isCall⟩ := handled_eq_some shows
    exact calm mover event asked isHandler isCall
  have deployedSmall : deployed.Along .start (trace.filterMap handled) fun state =>
      state.kernel.driver.memory.commands.flatten.length < 2 ^ 31 :=
    projects.along run sound eachAlive small
  have shown : trace.filterMap handled = past.filterMap handled ++ (((id, .lock), first), locking) ::
      middle.filterMap handled ++ (((id, .unlock false), last), unlocking) ::
        later.filterMap handled := by
    rw [whole]
    simp [handled]
  have fine : ∀ step ∈ middle.filterMap handled, step.1.1.1 = id →
      step.1.1.2.failed = false ∧ step.1.1.2 ≠ .unlock false := by
    intro step member mine
    obtain ⟨⟨⟨happening, services⟩, output⟩, inside, shows⟩ := List.mem_filterMap.mp member
    obtain ⟨isHandler, _, _⟩ := handled_eq_some shows
    exact works _ inside step.1.1.2 (by rw [isHandler, mine])
  obtain ⟨line, ordinary, texts, wrote, sent⟩ := deployed_replies (handlers_run run alive).2 shown
    deployedLines deployedCalm deployedSmall fine
  subst whole
  obtain ⟨_, turnRun, _⟩ := run.split
  obtain ⟨_, pastRun, _⟩ := turnRun.split
  refine ⟨line, ordinary, ?_, wrote, ?_⟩
  · intro before passed
    exact texts before.deployment (projects.run passed sound eachAlive.earlier.earlier).2
  · rw [receivedBy, received_sent turnRun sound eachAlive.earlier undisturbed.earlier, receivedBy,
      received_sent pastRun sound eachAlive.earlier.earlier undisturbed.earlier.earlier, ← sent]
    simp [sentBy, handled, bare, delivered]

end Replies

/-- Both clients are accepted, and the signal comes in the middle of the second turn. -/
def signalInTurn : List Happening :=
  let turns := lineByLine.map fun step => Happening.handler step.1 step.2
  let main := fun (steps : Nat) => List.replicate steps (Happening.main .main)
  main 1 ++ [.main (.accept (.connection 101 1))] ++ main 4 ++
    [.main (.accept (.connection 102 2))] ++ turns.take 22 ++
    [.main .main, .main .signal, .main .main] ++ turns.drop 22

def bothClients : List (Happening × Services) := signalInTurn.map (·, .smooth)

/-- A test for the steps of a concrete run: ordinary lines, nothing disturbed, little stored. -/
def Installation.test (before : Installation) (input : Happening × Services)
    (after : Installation) : Bool :=
  decide (after.kernel.driver.memory.commands.flatten.length < 2 ^ 31) &&
    match input.1 with
    | .main _ => true
    | .handler mover event => Undisturbed.test before.deployment ((mover, event), input.2) &&
        (event != .lock || decide (OrdinaryLine (before.program.world.threads mover).text))

theorem passes_test {start state : Installation} {inputs : List (Happening × Services)}
    {trace : List ((Happening × Services) × (Output ⊕ Syscall))}
    (computed : installed.exec start inputs = some (trace, state))
    (tested : installed.every Installation.test start inputs = true) :
    (installed.EachStep start trace fun before input _ _ => ∀ mover,
        input.1 = .handler mover .lock →
          OrdinaryLine (before.program.world.threads mover).text) ∧
      (installed.EachStep start trace fun _ input output _ => ∀ mover event asked,
        input.1 = .handler mover event → output = .inr asked →
          Undisturbed ((mover, event), input.2) asked) ∧
      installed.EachStep start trace fun _ _ _ after =>
        after.kernel.driver.memory.commands.flatten.length < 2 ^ 31 := by
  have each := Machine.eachStep_of_every Installation.test computed tested
  refine ⟨?_, ?_, ?_⟩
  · rintro past ⟨_, services⟩ output before after inside passed taken mover rfl
    obtain ⟨_, both⟩ := Bool.and_eq_true_iff.mp (each past _ output before after inside passed taken)
    simpa using (Bool.and_eq_true_iff.mp both).2
  · rintro past ⟨_, services⟩ _ before after inside passed taken mover event asked rfl rfl
    obtain ⟨_, both⟩ := Bool.and_eq_true_iff.mp (each past _ _ before after inside passed taken)
    exact undisturbed_of_test (Bool.and_eq_true_iff.mp both).1 (handler_deployed taken)
  · intro past input output before after inside passed taken
    exact of_decide_eq_true
      (Bool.and_eq_true_iff.mp (each past input output before after inside passed taken)).1

/-- Not a step of the handler, or one that goes well within its turn. -/
def Happening.goesWell (id : Nat) : Happening → Bool
  | .main _ => true
  | .handler mover event => mover != id || (!event.failed && event != .unlock false)

theorem bothClients_replies : ∃ trace state locking line,
    ∃ past middle : List ((Happening × Services) × (Output ⊕ Syscall)),
    installed.exec (.start 100) bothClients = some (trace, state) ∧
      past.map Prod.fst = bothClients.take 24 ∧ middle.map Prod.fst = (bothClients.drop 25).take 16 ∧
      receivedBy 100 1 (past ++ ((.handler 1 .lock, .smooth), .inr locking) :: middle) =
        receivedBy 100 1 past ++
          recentContent [] (linesOf ((past.filterMap handled).map bare) ++ [line]) := by
  obtain ⟨⟨trace, state⟩, computed, alive⟩ := (Option.any_eq_true _ _).mp
    (by decide +kernel : ((installed.exec (.start 100) bothClients).any fun result =>
      !result.2.program.main.pc.exits) = true)
  have whole : trace.map Prod.fst = bothClients.take 24 ++ (.handler 1 .lock, .smooth) ::
      ((bothClients.drop 25).take 16 ++ [(.handler 1 (.unlock false), .smooth)]) :=
    Machine.exec_inputs computed
  obtain ⟨past, turn, rfl, pastInputs, turnInputs⟩ := List.map_eq_append_iff.mp whole
  obtain ⟨⟨_, lockCall⟩, tail, rfl, rfl, tailInputs⟩ := List.map_eq_cons_iff.mp turnInputs
  obtain ⟨middle, ending, rfl, middleInputs, endInputs⟩ := List.map_eq_append_iff.mp tailInputs
  obtain ⟨⟨_, unlockCall⟩, rest, rfl, rfl, _⟩ := List.map_eq_cons_iff.mp endInputs
  have run := Machine.Run.of_exec computed
  obtain ⟨locking, rfl⟩ := handler_output run (List.mem_append_right past List.mem_cons_self)
  obtain ⟨unlocking, rfl⟩ := handler_output run (List.mem_append_right past
    (List.mem_cons_of_mem _ (List.mem_append_right middle List.mem_cons_self)))
  obtain ⟨lines, undisturbed, small⟩ := passes_test computed (by decide +kernel)
  have fine : ∀ input ∈ (bothClients.drop 25).take 16, input.1.goesWell 1 = true := by decide
  have works : ∀ step ∈ middle, ∀ event, step.1.1 = .handler 1 event →
      event.failed = false ∧ event ≠ .unlock false := by
    intro step member event isHandler
    have well := fine step.1 (middleInputs ▸ List.mem_map_of_mem member)
    simpa [isHandler, Happening.goesWell] using well
  obtain ⟨line, _, _, _, answer⟩ := installed_replies run (by simpa using alive)
    (List.append_assoc past (_ :: middle) (_ :: rest)).symm lines undisturbed
      (run.along_of_eachStep (by decide) small) works
  exact ⟨_, state, locking, line, past, middle, computed, pastInputs, middleInputs, answer⟩

end Aesd.Server
