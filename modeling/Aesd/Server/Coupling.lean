import Aesd.Server.Mirroring

/-! The handlers on the driver are the handlers on the ideal device. -/
namespace Aesd.Server

open Aesd.Library Aesd.Driver

/-- The driver is between two commands, and files not opened yet are at their start. -/
structure Kernel.Sound (kernel : Kernel) : Prop where
  clean : kernel.driver.memory.Clean
  fresh : ∀ filp, kernel.opened ≤ filp → kernel.driver.memory.fPos filp = 0
  below : ∀ descriptor filp, kernel.files descriptor = some filp → filp < kernel.opened

theorem Kernel.Sound.call {kernel after : Kernel} (sound : kernel.Sound)
    (pending : kernel.device.store.pending = []) {filp : Nat} {services : Services}
    {operation : Operation} {event : Event} (known : filp < kernel.opened)
    (called : kernel.call filp services operation event = some after) :
    after.Sound ∧ after.files = kernel.files ∧ after.opened = kernel.opened ∧
      after.device = (kernel.device.step ⟨filp, services, operation⟩).2 ∧
      event.reports (kernel.device.step ⟨filp, services, operation⟩).1 = true := by
  obtain ⟨sameReply, sameMemory⟩ := run_effect ⟨filp, services, operation⟩ kernel.driver
  obtain ⟨clean, stepped⟩ := sound.clean.step_device ⟨filp, services, operation⟩ fun _ => pending
  obtain ⟨rfl, reported⟩ := Kernel.call_driver called
  rw [sameReply] at reported
  rw [Kernel.device, Kernel.device, stepped]
  refine ⟨⟨sameMemory ▸ clean, ?_, sound.below⟩, rfl, rfl, congrArg Memory.device sameMemory,
    reported⟩
  intro other unopened
  have apart : other ≠ filp := Nat.ne_of_gt (Nat.lt_of_lt_of_le known unopened)
  rw [sameMemory, Memory.effect_fPos_other _ _ apart]
  exact sound.fresh other unopened

/-- Which descriptors may be behind after a call on `fd`. -/
def lateAfter (event : Event) (fd : Option Nat) (late : Nat → Prop) (other : Nat) : Prop :=
  match event with
  | .lseekEnd result => late other ∧ (fd = some other → result = -1)
  | .write result => late other ∨ (fd = some other ∧ result ≠ none)
  | _ => late other

theorem answer_of_failed (ideal : IdealDevice) (fd : Option Nat) (asked : Syscall) {event : Event}
    (onDevice : event.onDevice = true) (failed : event.failed = true) :
    ideal.answer .recent fd asked event = some ideal := by
  cases event <;> simp_all [IdealDevice.answer, Event.onDevice]

/-- What the steps of a run need, beyond what the handlers and the driver do by
themselves, for the device to be ideal. -/
structure Suited (before : Deployment) (input : (Nat × Event) × Services) (asked : Syscall)
    (after : Deployment) : Prop where
  copies : input.2.uncopied = 0
  stack : input.2.junk = 0
  small : after.kernel.device.store.commands.flatten.length < 2 ^ 63
  seeks : input.1.2 = .ioctl true → before.kernel.device.oldest = 0
  unflagged : ∀ count, input.1.2 = .write (some count) →
    (before.world.threads input.1.1).ioctlCmdRecv = false
  sends : ∀ bytes count, asked = .send bytes → input.1.2 = .send (some count) →
    count = bytes.length

section Device

variable {kernel after : Kernel} {fd : Option Nat} {services : Services} {thread : Thread}
variable {event : Event} {ideal : IdealDevice} {late : Nat → Prop}

/-- The driver answers a handler as the ideal device does. -/
theorem serve_device (sound : kernel.Sound)
    (mirrors : Mirrors kernel.device kernel.files ideal late) (onDevice : event.onDevice = true)
    (waiting : thread.pc = event.pc)
    (served : kernel.serve fd services thread.syscall event = some after)
    (line : event.pc = .write → newline ∈ thread.text)
    (punctual : event.pc ≠ .lseekEnd → ∀ descriptor, fd = some descriptor → ¬ late descriptor)
    (copies : services.uncopied = 0) (stack : services.junk = 0)
    (small : after.device.store.commands.flatten.length < 2 ^ 63)
    (seeks : event = .ioctl true → kernel.device.oldest = 0) :
    after.Sound ∧ ∃ next, ideal.answer .recent fd thread.syscall event = some next ∧
      Mirrors after.device after.files next (lateAfter event fd late) := by
  unfold Kernel.serve at served
  rw [if_pos onDevice] at served
  split at served
  · rename_i unopened
    simp only [Option.ite_none_right_eq_some, Option.some.injEq] at served
    obtain ⟨failed, rfl⟩ := served
    refine ⟨sound, ideal, answer_of_failed ideal fd _ onDevice failed, mirrors.weaken ?_⟩
    intro other opens behind
    have apart : fd ≠ some other := by
      rintro rfl
      exact opens unopened
    cases event with
    | lseekEnd result => exact ⟨behind, fun same => absurd same apart⟩
    | write result => exact .inl behind
    | _ => exact behind
  · cases served
  · rename_i filp operation opens asks
    obtain ⟨descriptor, rfl, isOpen⟩ := Option.bind_eq_some_iff.mp opens
    obtain ⟨soundAfter, files, _, device, reported⟩ :=
      sound.call mirrors.pending (sound.below descriptor filp isOpen) served
    refine ⟨soundAfter, ?_⟩
    rw [device] at small ⊢
    rw [files]
    cases event with
    | ioctl succeeds =>
      simp only [Thread.syscall, waiting, Event.pc, Syscall.fileOperation, Option.some.injEq]
        at asks ⊢
      subst asks
      exact mirrors.ioctl isOpen copies (fun yes => seeks (yes ▸ rfl)) reported
    | write result =>
      simp only [Thread.syscall, waiting, Event.pc, Syscall.fileOperation,
        Option.dite_none_right_eq_some, Option.some.injEq] at asks ⊢
      obtain ⟨fits, rfl⟩ := asks
      obtain ⟨next, answered, mirrored⟩ := mirrors.write isOpen copies fits (line rfl) small reported
      exact ⟨next, answered, mirrored.weaken fun other _ behind =>
        behind.imp_right fun mine => ⟨congrArg some mine.1.symm, mine.2⟩⟩
    | lseekCur result =>
      simp only [Thread.syscall, waiting, Event.pc, Syscall.fileOperation, Option.some.injEq]
        at asks ⊢
      subst asks
      exact mirrors.lseekCur isOpen (punctual (by rintro ⟨⟩) descriptor rfl) reported
    | lseekEnd result =>
      simp only [Thread.syscall, waiting, Event.pc, Syscall.fileOperation, Option.some.injEq]
        at asks ⊢
      subst asks
      obtain ⟨next, answered, mirrored⟩ := mirrors.lseekEnd isOpen stack reported
      exact ⟨next, answered, mirrored.weaken fun other _ behind =>
        ⟨behind.1, fun same => behind.2 (Option.some.inj same).symm⟩⟩
    | lseekSet result =>
      simp only [Thread.syscall, waiting, Event.pc, Syscall.fileOperation, Option.some.injEq]
        at asks ⊢
      subst asks
      exact mirrors.lseekSet isOpen reported
    | read result =>
      simp only [Thread.syscall, waiting, Event.pc, Syscall.fileOperation, Option.some.injEq]
        at asks ⊢
      subst asks
      exact mirrors.read isOpen (punctual (by rintro ⟨⟩) descriptor rfl) copies (sizeT_lt _)
        reported
    | _ => exact absurd onDevice Bool.false_ne_true

end Device

/-- Between the end of a write and the seek that follows, or on the way out. -/
def Pc.lags : Pc → Bool
  | .lseekEnd | .close _ => true
  | _ => false

/-- The descriptor in use, while the thread that uses it is at such a place. -/
def Late (world : World) (descriptor : Nat) : Prop :=
  world.fd = some descriptor ∧ ∃ id, (world.threads id).pc.lags = true

/-- The deployment and the ideal device are in the same state. -/
structure Coupled (state : Deployment) (ideal : IdealDevice) : Prop where
  sound : state.kernel.Sound
  mirrors : Mirrors state.kernel.device state.kernel.files ideal (Late state.world)

theorem inside_of_lags {thread : Thread} (lags : thread.pc.lags = true) :
    thread.zone.inside = true := by
  unfold Thread.zone
  generalize thread.pc = pc at lags
  cases pc <;> first | rfl | cases lags

/-- Only the thread in the section can be at a place where its descriptor is late. -/
theorem Guarded.lagging {world : World} (guarded : Guarded world) {id other : Nat}
    (inside : (world.zone id).inside = true) (lags : (world.threads other).pc.lags = true) :
    other = id :=
  guarded.exclusive (inside_of_lags lags) inside

theorem Guarded.punctual {world : World} (guarded : Guarded world) {id : Nat}
    (inside : (world.zone id).inside = true) (prompt : (world.threads id).pc.lags = false)
    (descriptor : Nat) : ¬ Late world descriptor := by
  rintro ⟨_, other, lags⟩
  rw [guarded.lagging inside lags, prompt] at lags
  cases lags

namespace Coupled

variable {state after : Deployment} {ideal : IdealDevice} {id : Nat} {event : Event}
variable {services : Services} {asked : Syscall}

theorem start : Coupled .start ⟨[], fun _ => none⟩ where
  sound := ⟨Memory.clean_init, fun _ _ => rfl, by rintro descriptor filp ⟨⟩⟩
  mirrors := {
    commands := rfl
    pending := rfl
    small := by decide
    distinct := by rintro first second filp ⟨⟩
    closed := fun _ _ => rfl
    known := by rintro descriptor filp ⟨⟩ }

theorem device_step (coupled : Coupled state ideal) (guarded : Guarded state.world)
    (ready : (state.world.threads id).Ready)
    (taken : deployed.step state ((id, event), services) = some (asked, after))
    (suited : Suited state ((id, event), services) asked after) (onDevice : event.onDevice = true) :
    ∃ next, ideal.answer .recent state.world.fd asked event = some next ∧ Coupled after next := by
  obtain ⟨stepped, served⟩ := deployed_step taken
  obtain ⟨thread, shared, moved, shares, world⟩ := World.step_cases stepped
  obtain ⟨waiting, rfl, resumed⟩ := Thread.step_eq_some_iff.mp moved
  have zone : state.world.zone id = .opened := by
    rw [World.zone, Thread.zone, waiting]
    cases event <;> first | rfl | cases onDevice
  have inside : (state.world.zone id).inside = true := by rw [zone]; rfl
  have quiet : shared = state.world := by
    cases event <;> first | exact (Option.some.inj shares).symm | cases onDevice
  have prompt : event.pc ≠ .lseekEnd → (state.world.threads id).pc.lags = false := by
    rw [waiting]
    intro elsewhere
    cases event <;> first | exact absurd rfl elsewhere | rfl | cases onDevice
  obtain ⟨soundAfter, next, answered, mirrored⟩ :=
    serve_device coupled.sound coupled.mirrors onDevice waiting served
      (fun place => ready (.inr (.inr (waiting.trans place))))
      (fun elsewhere descriptor _ => guarded.punctual inside (prompt elsewhere) descriptor)
      suited.copies suited.stack suited.small suited.seeks
  refine ⟨next, answered, soundAfter, mirrored.weaken fun other _ behind => ?_⟩
  rw [world, quiet]
  have here : ∀ place, thread.pc = place → place.lags = true → state.world.fd = some other →
      Late { state.world with
        threads := Function.update state.world.threads id thread
        crashed := thread.pc == .crashed } other := by
    intro place standing lags fd
    refine ⟨fd, id, ?_⟩
    simp only [Function.update_self, standing, lags]
  cases event with
  | lseekEnd result =>
    obtain ⟨⟨fd, _⟩, minus⟩ := behind
    have failed := minus fd
    subst failed
    cases Thread.resumes resumed with
    | lseekEndFails _ => exact here _ rfl rfl fd
    | lseekEnd goesOn => exact absurd (by decide : (-1 : Int64).toInt32 = -1) goesOn
  | write result =>
    rcases behind with late | ⟨fd, written⟩
    · exact absurd late (guarded.punctual inside (prompt (by rintro ⟨⟩)) other)
    · cases result with
      | none => exact absurd rfl written
      | some count =>
        cases Thread.resumes resumed with
        | write _ =>
          refine here .lseekEnd ?_ rfl fd
          rw [Thread.chooseOffset, suited.unflagged count rfl]
          rfl
  | ioctl succeeds => exact absurd behind (guarded.punctual inside (prompt (by rintro ⟨⟩)) other)
  | lseekCur result => exact absurd behind (guarded.punctual inside (prompt (by rintro ⟨⟩)) other)
  | lseekSet result => exact absurd behind (guarded.punctual inside (prompt (by rintro ⟨⟩)) other)
  | read result => exact absurd behind (guarded.punctual inside (prompt (by rintro ⟨⟩)) other)
  | _ => exact absurd onDevice Bool.false_ne_true

theorem quiet_step (coupled : Coupled state ideal) (kernel : after.kernel = state.kernel)
    (fd : after.world.fd = state.world.fd) (prompt : (state.world.threads id).pc.lags = false)
    (others : ∀ other, other ≠ id → after.world.threads other = state.world.threads other) :
    Coupled after ideal where
  sound := kernel ▸ coupled.sound
  mirrors := by
    rw [kernel]
    refine coupled.mirrors.weaken ?_
    rintro descriptor _ ⟨used, other, lags⟩
    have apart : other ≠ id := by
      rintro rfl
      rw [prompt] at lags
      cases lags
    exact ⟨fd.trans used, other, by rw [others other apart, lags]⟩

theorem openDevice_step (coupled : Coupled state ideal) (guarded : Guarded state.world)
    {result : Option Nat}
    (taken : deployed.step state ((id, .openDevice result), services) = some (asked, after)) :
    ∃ next, ideal.answer .recent state.world.fd asked (.openDevice result) = some next ∧
      Coupled after next := by
  obtain ⟨stepped, served⟩ := deployed_step taken
  obtain ⟨thread, shared, moved, shares, world⟩ := World.step_cases stepped
  obtain ⟨waiting, rfl, resumed⟩ := Thread.step_eq_some_iff.mp moved
  have inside : (state.world.zone id).inside = true := by
    rw [World.zone, Thread.zone, waiting]
    rfl
  have prompt : (state.world.threads id).pc.lags = false := by
    rw [waiting]
    rfl
  have punctual := guarded.punctual inside prompt
  have asks : (state.world.threads id).syscall = .openDevice := by
    rw [Thread.syscall, waiting]
    rfl
  have same : Mirrors state.kernel.device state.kernel.files ideal (Late after.world) :=
    coupled.mirrors.weaken fun descriptor _ behind => absurd behind (punctual descriptor)
  rw [asks]
  cases result with
  | none =>
    have kernel : after.kernel = state.kernel := (Option.some.inj served).symm
    exact ⟨ideal, rfl, kernel ▸ coupled.sound, kernel ▸ same⟩
  | some descriptor =>
    have kernel : after.kernel = state.kernel.openFile descriptor := (Option.some.inj served).symm
    have fresh : ∀ other, state.kernel.files other ≠ some state.kernel.opened :=
      fun other opens => Nat.lt_irrefl _ (coupled.sound.below other _ opens)
    refine ⟨ideal.moveTo descriptor 0, rfl, ?_, ?_⟩
    · rw [kernel]
      refine ⟨coupled.sound.clean, ?_, ?_⟩
      · exact fun filp unopened => coupled.sound.fresh filp (Nat.le_of_succ_le unopened)
      · intro other filp opens
        simp only [Kernel.openFile, Function.update_apply] at opens
        split at opens
        · exact Option.some.inj opens ▸ Nat.lt_succ_self _
        · exact Nat.lt_succ_of_lt (coupled.sound.below other filp opens)
    · rw [kernel]
      exact same.openFile fresh (coupled.sound.fresh _ (Nat.le_refl _)) descriptor

theorem close_step (coupled : Coupled state ideal) {failed : Bool}
    (taken : deployed.step state ((id, .close failed), services) = some (asked, after)) :
    ∃ next, ideal.answer .recent state.world.fd asked (.close failed) = some next ∧
      Coupled after next := by
  obtain ⟨stepped, served⟩ := deployed_step taken
  obtain ⟨thread, shared, moved, shares, world⟩ := World.step_cases stepped
  obtain ⟨waiting, rfl, resumed⟩ := Thread.step_eq_some_iff.mp moved
  have asks : (state.world.threads id).syscall = .close := by
    rw [Thread.syscall, waiting]
    rfl
  rw [asks]
  cases used : state.world.fd with
  | none =>
    have kernel : after.kernel = state.kernel := by
      rw [used] at served
      exact (Option.some.inj served).symm
    refine ⟨ideal, rfl, kernel ▸ coupled.sound, ?_⟩
    rw [kernel]
    refine coupled.mirrors.weaken ?_
    rintro descriptor _ ⟨fd, _⟩
    cases used.symm.trans fd
  | some descriptor =>
    have kernel : after.kernel = state.kernel.closeFile descriptor := by
      rw [used] at served
      exact (Option.some.inj served).symm
    refine ⟨{ ideal with position := Function.update ideal.position descriptor none }, rfl, ?_, ?_⟩
    · rw [kernel]
      refine ⟨coupled.sound.clean, coupled.sound.fresh, fun other filp opens => ?_⟩
      simp only [Kernel.closeFile, Function.update_apply, ite_eq_iff] at opens
      rcases opens with ⟨_, nothing⟩ | ⟨_, opens⟩
      · cases nothing
      · exact coupled.sound.below other filp opens
    · rw [kernel]
      refine (coupled.mirrors.closeFile descriptor).weaken ?_
      rintro other _ ⟨⟨fd, _⟩, apart⟩
      exact absurd (Option.some.inj (fd.symm.trans used)) apart

/-- Every step of the deployment is one on the ideal device. -/
theorem step (coupled : Coupled state ideal) (guarded : Guarded state.world)
    (ready : (state.world.threads id).Ready)
    (taken : deployed.step state ((id, event), services) = some (asked, after))
    (suited : Suited state ((id, event), services) asked after) :
    ∃ next, ideal.answer .recent state.world.fd asked event = some next ∧ Coupled after next := by
  by_cases onDevice : event.onDevice = true
  · exact coupled.device_step guarded ready taken suited onDevice
  obtain ⟨stepped, served⟩ := deployed_step taken
  obtain ⟨thread, shared, moved, shares, world⟩ := World.step_cases stepped
  obtain ⟨waiting, asks, _⟩ := Thread.step_eq_some_iff.mp moved
  have others : ∀ other, other ≠ id →
      after.world.threads other = state.world.threads other := by
    intro other apart
    rw [world]
    exact Function.update_of_ne apart _ _
  have still : after.kernel = state.kernel → after.world.fd = state.world.fd →
      event.pc.lags = false → Coupled after ideal := fun kernel fd prompt =>
    coupled.quiet_step kernel fd (by rw [waiting]; exact prompt) others
  have fd : shared.fd = state.world.fd → after.world.fd = state.world.fd := by
    intro same
    rw [world, same]
  cases event with
  | openDevice result => exact coupled.openDevice_step guarded taken
  | close failed => exact coupled.close_step taken
  | send result =>
    have kernel : after.kernel = state.kernel := (Option.some.inj served).symm
    have same : shared = state.world := (Option.some.inj shares).symm
    refine ⟨ideal, ?_, still kernel (fd (by rw [same])) rfl⟩
    have sends : ∃ bytes, asked = .send bytes := by
      rw [asks, Thread.syscall, waiting]
      exact ⟨_, rfl⟩
    obtain ⟨bytes, rfl⟩ := sends
    cases result with
    | none => rfl
    | some count => exact if_pos (suited.sends bytes count rfl rfl)
  | lock =>
    have kernel : after.kernel = state.kernel := (Option.some.inj served).symm
    obtain ⟨_, same⟩ := Option.ite_none_right_eq_some.mp shares
    exact ⟨ideal, by rw [asks, Thread.syscall, waiting]; rfl,
      still kernel (fd (by rw [← Option.some.inj same])) rfl⟩
  | unlock failed =>
    have kernel : after.kernel = state.kernel := (Option.some.inj served).symm
    have same := Option.some.inj shares
    exact ⟨ideal, by rw [asks, Thread.syscall, waiting]; rfl,
      still kernel (fd (by rw [← same])) rfl⟩
  | callocRecv succeeds | checkExit exit | recv result | realloc fresh | callocSend succeeds
  | unlockExit =>
    have kernel : after.kernel = state.kernel := (Option.some.inj served).symm
    have same := Option.some.inj shares
    exact ⟨ideal, by rw [asks, Thread.syscall, waiting]; rfl,
      still kernel (fd (by rw [← same])) rfl⟩
  | _ => exact absurd rfl onDevice

end Coupled

/-- A suited run is a run on the ideal device, step by step. -/
theorem run_coupled {trace : List (((Nat × Event) × Services) × Syscall)} {state : Deployment}
    (run : deployed.Run .start trace state) (suited : deployed.EachStep .start trace Suited) :
    ∃ device, (ideal .recent).Run (.start []) (trace.map bare) ⟨state.world, device⟩ ∧
      Coupled state device := by
  refine run.history_of_eachStep (fun past state => ∃ device,
    (ideal .recent).Run (.start []) (past.map bare) ⟨state.world, device⟩ ∧
      Coupled state device) ⟨_, .start, Coupled.start⟩ suited ?_
  rintro past before ⟨⟨id, event⟩, services⟩ asked after fine ⟨device, earlier, coupled⟩ taken
  have passed := ideal_run earlier
  obtain ⟨next, answered, coupledAfter⟩ :=
    coupled.step (run_guarded passed) (run_ready passed id) taken fine
  refine ⟨next, ?_, coupledAfter⟩
  rw [List.map_append]
  refine earlier.next ?_
  have stepped := (deployed_step taken).1
  simp only [ideal, IdealWorld.step, stepped, answered, Option.map_some]

/-- The handlers on the driver are the handlers on the ideal device, with the ring of
the driver for its commands, as long as the services of the driver copy completely,
`lseek` finds a clean stack slot, sends are complete, and nobody seeks to a command
once commands were pushed out or writes a line after a seek. -/
theorem deployed_refines_ideal {trace : List (((Nat × Event) × Services) × Syscall)}
    {state : Deployment} (run : deployed.Run .start trace state)
    (suited : deployed.EachStep .start trace Suited) :
    ∃ device, (ideal .recent).Run (.start []) (trace.map bare) ⟨state.world, device⟩ ∧
      state.kernel.driver.memory.commands = device.commands ∧
      state.kernel.driver.memory.commands = (linesOf (trace.map bare)).rtake 10 ∧
      state.kernel.driver.memory.pending = [] := by
  obtain ⟨device, ideally, coupled⟩ := run_coupled run suited
  have same : state.kernel.driver.memory.commands = device.commands :=
    coupled.mirrors.commands.symm
  have lines : device.commands = (linesOf (trace.map bare)).rtake 10 :=
    @run_commands [] ⟨state.world, device⟩ (trace.map bare) ideally
  exact ⟨device, ideally, same, same.trans lines, coupled.mirrors.pending⟩

/-- The driver hands the second handler the two lines in two reads. -/
def lineByLine : List (Nat × Event) :=
  beforeSecond ++ [(1, .lock), (1, .openDevice (some 4)), (1, .write (some 2)),
    (0, .callocRecv true), (1, .lseekEnd 4), (1, .lseekSet 0), (1, .callocSend true),
    (1, .read (some [97, newline])), (1, .send (some 2)), (0, .checkExit false),
    (1, .read (some [98, newline])), (1, .send (some 2)), (1, .read (some [])),
    (1, .close false), (1, .unlock false)]

def twoHandlers : List ((Nat × Event) × Services) := lineByLine.map (·, .smooth)

/-- A test for the steps of a concrete run without seeks. -/
def suits (before : Deployment) (input : (Nat × Event) × Services) (after : Deployment) : Bool :=
  input.2.uncopied == 0 && input.2.junk == 0 &&
    decide (after.kernel.device.store.commands.flatten.length < 2 ^ 63) &&
    match (before.world.threads input.1.1).syscall, input.1.2 with
    | _, .ioctl _ => false
    | _, .write _ => !(before.world.threads input.1.1).ioctlCmdRecv
    | .send bytes, .send (some count) => count == bytes.length
    | _, _ => true

theorem suited_of_suits {before after : Deployment} {input : (Nat × Event) × Services}
    {asked : Syscall} (tested : suits before input after = true)
    (taken : deployed.step before input = some (asked, after)) :
    Suited before input asked after := by
  obtain ⟨⟨id, event⟩, services⟩ := input
  obtain ⟨stepped, _⟩ := deployed_step taken
  obtain ⟨_, _, moved, _, _⟩ := World.step_cases stepped
  obtain ⟨_, asks, _⟩ := Thread.step_eq_some_iff.mp moved
  simp only [suits, Bool.and_eq_true, beq_iff_eq, decide_eq_true_eq, ← asks] at tested
  obtain ⟨⟨⟨copies, stack⟩, small⟩, fits⟩ := tested
  refine ⟨copies, stack, small, ?_, ?_, ?_⟩
  · rintro rfl
    exact absurd fits Bool.false_ne_true
  · rintro count rfl
    simpa using fits
  · rintro bytes count rfl rfl
    simpa using fits

theorem twoHandlers_ideal : ∃ trace state,
    deployed.exec .start twoHandlers = some (trace, state) ∧
      ∃ device, (ideal .recent).Run (.start []) (trace.map bare) ⟨state.world, device⟩ ∧
        state.kernel.driver.memory.commands = device.commands ∧
        state.kernel.driver.memory.commands = (linesOf (trace.map bare)).rtake 10 ∧
        state.kernel.driver.memory.pending = [] := by
  obtain ⟨⟨trace, state⟩, computed⟩ := Option.isSome_iff_exists.mp
    (by decide +kernel : (deployed.exec .start twoHandlers).isSome = true)
  refine ⟨trace, state, computed, deployed_refines_ideal (.of_exec computed) ?_⟩
  have tested := Machine.eachStep_of_every suits computed (by decide +kernel)
  intro past input asked before after inside passed taken
  exact suited_of_suits (tested past input asked before after inside passed taken) taken

end Aesd.Server
