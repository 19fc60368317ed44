import Aesd.Server.Deployment
import Aesd.Server.Silence

namespace Aesd.Server

open Aesd.Library Aesd.Driver

theorem position_after_read {position : Int64} {amount : Nat}
    (fits : position.toUInt64.toNat + amount < 2 ^ 63) :
    (position + Int64.ofNat amount).toUInt64.toNat = position.toUInt64.toNat + amount := by
  have exact : (Int64.ofNat amount).toUInt64.toNat = amount := by
    have small : amount < 2 ^ 63 := by omega
    rw [Int64.toUInt64_ofNat', UInt64.toNat_ofNat_of_lt' (Nat.lt_trans small (by decide))]
  rw [Int64.toUInt64_add, UInt64.toNat_add, exact, Nat.mod_eq_of_lt (by omega)]

/-- A read that hands bytes over moves the position over them, inside the content. -/
theorem read_advances {device : CommandDevice} {services : Services} {filp : Nat} {count : UInt64}
    (small : device.store.commands.flatten.length < 2 ^ 63)
    (some : (device.read services filp false count).1.received ≠ []) :
    ((device.read services filp false count).2.position filp).toUInt64.toNat =
        (device.position filp).toUInt64.toNat +
          (device.read services filp false count).1.received.length ∧
      (device.position filp).toUInt64.toNat +
          (device.read services filp false count).1.received.length ≤
        device.store.commands.flatten.length := by
  by_cases interrupted : services.interrupted = true
  · simp [CommandDevice.read, interrupted] at some
  simp only [CommandDevice.read, interrupted, Bool.false_eq_true, ↓reduceIte] at some ⊢
  generalize ahead : segmentFrom device.store.commands (device.position filp).toUInt64.toNat =
    segment at some ⊢
  generalize received : (segment.take count.toNat).take
    ((segment.take count.toNat).length - services.uncopied) = bytes at some ⊢
  have shorter : bytes.length ≤ segment.length := by
    rw [← received, List.length_take, List.length_take]
    omega
  have within : segment.length ≤
      device.store.commands.flatten.length - (device.position filp).toUInt64.toNat := by
    rw [← ahead, ← List.length_drop]
    have ahead := segmentFrom_prefix device.store.commands (device.position filp).toUInt64.toNat
    exact ahead.length_le
  have nonempty := List.length_pos_iff.mpr some
  have inside : (device.position filp).toUInt64.toNat + bytes.length ≤
      device.store.commands.flatten.length := by
    omega
  refine ⟨?_, inside⟩
  have there : (device.moved filp (device.position filp + Int64.ofNat bytes.length)).position filp =
      device.position filp + Int64.ofNat bytes.length :=
    Function.update_self ..
  rw [there, position_after_read (by omega)]

theorem read_store (device : CommandDevice) (services : Services) (filp : Nat) (bufIsNull : Bool)
    (count : UInt64) : (device.read services filp bufIsNull count).2.store = device.store := by
  unfold CommandDevice.read
  split
  · rfl
  · split
    · rfl
    · rfl

/-- How far the reading through the global descriptor has come. -/
def Kernel.progress (kernel : Kernel) (fd : Option Nat) : Nat :=
  match fd.bind kernel.files with
  | none => 0
  | some filp => min kernel.device.store.commands.flatten.length
      (kernel.device.position filp).toUInt64.toNat

theorem Kernel.progress_le (kernel : Kernel) (fd : Option Nat) :
    kernel.progress fd ≤ kernel.device.store.commands.flatten.length := by
  unfold progress
  split
  · exact Nat.zero_le _
  · exact Nat.min_le_left _ _

/-- How many steps of its turn a thread has behind it at most, by the place it is at. -/
def Pc.spent (content progress : Nat) : Pc → Nat
  | .openDevice => 0
  | .ioctl | .write => 1
  | .lseekCur => 2
  | .lseekEnd => 3
  | .lseekSet => 4
  | .callocSend => 5
  | .read => 6 + 2 * progress
  | .send => 5 + 2 * progress
  | .close _ => 7 + 2 * content
  | _ => 8 + 2 * content

theorem Pc.spent_le {content progress : Nat} (within : progress ≤ content) (pc : Pc) :
    pc.spent content progress ≤ 8 + 2 * content := by
  cases pc <;> simp only [spent] <;> omega

/-- Reading leaves the content alone, and bytes handed over are progress. -/
theorem serve_read {kernel after : Kernel} {fd : Option Nat} {services : Services} {count : Nat}
    {result : Option (List Byte)} (valid : kernel.driver.memory.Valid)
    (small : kernel.device.store.commands.flatten.length < 2 ^ 63)
    (served : kernel.serve fd services (.read count) (.read result) = some after) :
    after.device.store = kernel.device.store ∧
      ∀ data, result = some data → data ≠ [] → kernel.progress fd + 1 ≤ after.progress fd := by
  have onDevice : (Event.read result).onDevice = true := rfl
  unfold Kernel.serve at served
  rw [if_pos onDevice] at served
  split at served
  · obtain ⟨failed, same⟩ := Option.ite_none_right_eq_some.mp served
    obtain rfl := Option.some.inj same
    refine ⟨rfl, ?_⟩
    intro data isData
    subst isData
    cases failed
  · cases served
  · rename_i filp operation opened asks
    obtain rfl := Option.some.inj asks
    obtain ⟨same, reported⟩ := Kernel.call_driver served
    obtain ⟨sameReply, sameMemory⟩ :=
      run_effect ⟨filp, services, .read false (UInt64.ofNat count)⟩ kernel.driver
    obtain ⟨readReply, readDevice⟩ := valid.read_device services filp false (UInt64.ofNat count)
    rw [sameReply.trans readReply] at reported
    have files : after.files = kernel.files := by rw [same]
    have device : after.device = (kernel.device.read services filp false (UInt64.ofNat count)).2 := by
      rw [same]
      exact (congrArg Memory.device sameMemory).trans readDevice
    refine ⟨by rw [device, read_store], ?_⟩
    intro data isData some
    subst isData
    have received :
        data = (kernel.device.read services filp false (UInt64.ofNat count)).1.received := by
      simp only [Event.reports] at reported
      split at reported
      · cases reported
      · exact Option.some.inj (eq_of_beq reported)
    rw [received] at some
    obtain ⟨moved, inside⟩ := read_advances small some
    have nonempty := List.length_pos_iff.mpr some
    simp only [Kernel.progress, files, opened, device, read_store, moved]
    omega

section Step

variable {state after : Deployment} {id : Nat} {event : Event} {services : Services}
variable {asked : Syscall}

theorem deployed_valid (valid : state.kernel.driver.memory.Valid)
    (taken : deployed.step state ((id, event), services) = some (asked, after)) :
    after.kernel.driver.memory.Valid := by
  obtain ⟨_, served⟩ := deployed_step taken
  rcases Kernel.serve_driver served with same | ⟨call, called⟩
  · rw [same]
    exact valid
  · rw [called, (run_effect call state.kernel.driver).2]
    exact valid.effect call

theorem run_valid {trace : List (((Nat × Event) × Services) × Syscall)}
    (run : deployed.Run .start trace state) : state.kernel.driver.memory.Valid :=
  run.invariant (fun state => state.kernel.driver.memory.Valid) Memory.valid_init
    fun _ _ _ _ valid taken => deployed_valid valid taken

/-- The others, in front of the lock, change nothing that the turn depends on. -/
theorem deployed_outside (outside : event.pc.zone = .outside ∧ event ≠ .lock)
    (taken : deployed.step state ((id, event), services) = some (asked, after)) :
    after.kernel = state.kernel ∧ after.world.fd = state.world.fd ∧
      after.world.mutex = state.world.mutex ∧
      ∀ other, other ≠ id → after.world.threads other = state.world.threads other := by
  obtain ⟨stepped, served⟩ := deployed_step taken
  obtain ⟨thread, shared, _, shares, world⟩ := World.step_cases stepped
  obtain rfl := Option.some.inj ((share_outside outside.1 outside.2).symm.trans shares)
  refine ⟨Kernel.serve_outside outside.1 served, ?_, ?_, ?_⟩
  · rw [world]
  · rw [world]
  · intro other apart
    rw [world]
    exact Function.update_of_ne apart _ _

/-- The content that a turn may read. -/
def Deployment.content (state : Deployment) : Nat :=
  state.kernel.device.store.commands.flatten.length

/-- How many steps of its turn a thread has behind it at most. -/
def Deployment.spent (state : Deployment) (id : Nat) : Nat :=
  (state.world.threads id).pc.spent state.content (state.kernel.progress state.world.fd)

/-- The places of a turn before its reply. -/
def Pc.beforeReply : Pc → Bool
  | .openDevice | .ioctl | .write | .lseekCur | .lseekEnd | .lseekSet | .callocSend => true
  | _ => false

/-- Up to the allocation of the reply, each place is one step behind the next. -/
theorem spent_next {content later progress come : Nat} {next : Pc} (leads : next ∈ event.next)
    (early : event.pc.beforeReply = true) :
    event.pc.spent content progress + 1 ≤ next.spent later come := by
  cases event with
  | openDevice result =>
    simp only [Event.next, List.mem_cons, List.not_mem_nil, or_false] at leads
    rcases leads with rfl | rfl | rfl <;> simp only [Event.pc, Pc.spent] <;> omega
  | ioctl succeeds =>
    cases succeeds with
    | true =>
      simp only [Event.next, ↓reduceIte, List.mem_cons, List.not_mem_nil, or_false] at leads
      rcases leads with rfl | rfl <;> simp only [Event.pc, Pc.spent] <;> omega
    | false =>
      obtain rfl := List.mem_singleton.mp leads
      simp only [Event.pc, Pc.spent]
      omega
  | write result =>
    cases result with
    | none =>
      obtain rfl := List.mem_singleton.mp leads
      simp only [Event.pc, Pc.spent]
      omega
    | some count =>
      simp only [Event.next, List.mem_cons, List.not_mem_nil, or_false] at leads
      rcases leads with rfl | rfl <;> simp only [Event.pc, Pc.spent] <;> omega
  | lseekCur result =>
    obtain rfl := List.mem_singleton.mp leads
    simp only [Event.pc, Pc.spent]
    omega
  | lseekEnd result =>
    simp only [Event.next, List.mem_cons, List.not_mem_nil, or_false] at leads
    rcases leads with rfl | rfl <;> simp only [Event.pc, Pc.spent] <;> omega
  | lseekSet result =>
    obtain rfl := List.mem_singleton.mp leads
    simp only [Event.pc, Pc.spent]
    omega
  | callocSend succeeds =>
    cases succeeds with
    | true =>
      obtain rfl := List.mem_singleton.mp leads
      simp only [Event.pc, Pc.spent]
      omega
    | false =>
      obtain rfl := List.mem_singleton.mp leads
      simp only [Event.pc, Pc.spent]
      omega
  | _ => exact absurd early Bool.false_ne_true

/-- A step of a turn is paid for by the place it leads to. -/
theorem spent_step (valid : state.kernel.driver.memory.Valid) (small : state.content < 2 ^ 63)
    (inside : event.pc.zone ≠ .outside) (stays : ∀ failed, event ≠ .unlock failed)
    (taken : deployed.step state ((id, event), services) = some (asked, after)) :
    state.spent id + 1 ≤ after.spent id := by
  obtain ⟨stepped, served⟩ := deployed_step taken
  obtain ⟨thread, shared, moved, shares, world⟩ := World.step_cases stepped
  obtain ⟨waiting, asks, resumed⟩ := Thread.step_eq_some_iff.mp moved
  have there : after.world.threads id = thread := by
    rw [world]
    exact Function.update_self ..
  have within : state.kernel.progress state.world.fd ≤ state.content := state.kernel.progress_le _
  unfold Deployment.spent
  rw [there, waiting]
  cases event with
  | read result =>
    have quiet : after.world.fd = state.world.fd := by
      obtain rfl := Option.some.inj shares
      rw [world]
    rw [asks, Thread.syscall, waiting] at served
    obtain ⟨store, advanced⟩ := serve_read valid small served
    have content : after.content = state.content := by
      rw [Deployment.content, store, Deployment.content]
    rw [content, quiet]
    cases Thread.resumes resumed with
    | readFails =>
      simp only [Event.pc, Pc.spent, Thread.giveUp]
      omega
    | readEnds =>
      simp only [Event.pc, Pc.spent]
      omega
    | read _ more =>
      have some := advanced _ rfl (by rintro rfl; exact more rfl)
      simp only [Event.pc, Pc.spent]
      omega
  | send result =>
    have quiet : after.world.fd = state.world.fd := by
      obtain rfl := Option.some.inj shares
      rw [world]
    have kernel : after.kernel = state.kernel := (Option.some.inj served).symm
    have content : after.content = state.content := by
      rw [Deployment.content, kernel, Deployment.content]
    rw [content, kernel, quiet]
    cases Thread.resumes resumed with
    | sendFails =>
      simp only [Event.pc, Pc.spent, Thread.giveUp]
      omega
    | send =>
      simp only [Event.pc, Pc.spent]
      omega
  | close failed =>
    have content : after.content = state.content := by
      rw [Deployment.content, Kernel.device, Kernel.serve_close served]
      rfl
    rw [content]
    cases Thread.resumes resumed with
    | close =>
      simp only [Event.pc, Pc.spent]
      omega
  | unlock failed => exact absurd rfl (stays failed)
  | callocRecv | checkExit | recv | realloc | lock | unlockExit => exact absurd rfl inside
  | openDevice | ioctl | write | lseekCur | lseekEnd | lseekSet | callocSend =>
    exact spent_next (Thread.step_next moved) rfl

theorem share_mutex {world shared : World} (notLock : event ≠ .lock)
    (notUnlock : ∀ failed, event ≠ .unlock failed) (shares : world.share id event = some shared) :
    shared.mutex = world.mutex := by
  cases event with
  | lock => exact absurd rfl notLock
  | unlock failed => exact absurd rfl (notUnlock failed)
  | openDevice result =>
    cases result with
    | none =>
      obtain rfl := Option.some.inj shares
      rfl
    | some descriptor =>
      obtain ⟨_, same⟩ := Option.ite_none_right_eq_some.mp shares
      obtain rfl := Option.some.inj same
      rfl
  | close failed =>
    simp only [World.share] at shares
    split at shares
    · obtain rfl := Option.some.inj shares
      rfl
    · obtain rfl := Option.some.inj shares
      rfl
  | _ =>
    obtain rfl := Option.some.inj shares
    rfl

end Step

/-- The steps that one thread took. -/
def stepsOf (id : Nat) (trace : List (((Nat × Event) × Services) × Syscall)) : Nat :=
  trace.countP fun step => step.1.1.1 == id

/-- A turn under way, its steps paid for by the place its thread is at. -/
structure Underway (id : Nat) (during : List (((Nat × Event) × Services) × Syscall))
    (state : Deployment) : Prop where
  guarded : Guarded state.world
  valid : state.kernel.driver.memory.Valid
  mutex : state.world.mutex = some id
  paid : stepsOf id during ≤ state.spent id

namespace Underway

variable {state after : Deployment} {id other : Nat} {event : Event} {services : Services}
variable {asked : Syscall} {during : List (((Nat × Event) × Services) × Syscall)}

theorem start (guarded : Guarded state.world) (valid : state.kernel.driver.memory.Valid)
    (taken : deployed.step state ((id, .lock), services) = some (asked, after)) :
    Underway id [] after := by
  obtain ⟨stepped, _⟩ := deployed_step taken
  refine ⟨guarded.step stepped, deployed_valid valid taken, ?_, Nat.zero_le _⟩
  obtain ⟨_, shared, _, shares, world⟩ := World.step_cases stepped
  obtain ⟨_, same⟩ := Option.ite_none_right_eq_some.mp shares
  rw [world, ← Option.some.inj same]

theorem step_self (underway : Underway id during state) (small : state.content < 2 ^ 63)
    (stays : ∀ failed, event ≠ .unlock failed)
    (taken : deployed.step state ((id, event), services) = some (asked, after)) :
    Underway id (during ++ [(((id, event), services), asked)]) after := by
  obtain ⟨stepped, _⟩ := deployed_step taken
  have inside : event.pc.zone ≠ .outside := by
    rw [← own_zone stepped]
    exact underway.guarded.known id underway.mutex
  have notLock : event ≠ .lock := by
    intro locking
    subst locking
    exact inside rfl
  refine ⟨underway.guarded.step stepped, deployed_valid underway.valid taken, ?_, ?_⟩
  · obtain ⟨_, shared, _, shares, world⟩ := World.step_cases stepped
    rw [world]
    exact (share_mutex notLock stays shares).trans underway.mutex
  · have paid := spent_step underway.valid small inside stays taken
    have before := underway.paid
    simp only [stepsOf, List.countP_append, List.countP_singleton, beq_self_eq_true, ↓reduceIte]
      at before ⊢
    omega

theorem step_other (underway : Underway id during state) (apart : other ≠ id)
    (taken : deployed.step state ((other, event), services) = some (asked, after)) :
    Underway id (during ++ [(((other, event), services), asked)]) after := by
  obtain ⟨stepped, _⟩ := deployed_step taken
  have outside := underway.guarded.outside_of_held underway.mutex apart stepped
  obtain ⟨kernel, fd, mutex, others⟩ := deployed_outside outside taken
  refine ⟨underway.guarded.step stepped, deployed_valid underway.valid taken,
    mutex.trans underway.mutex, ?_⟩
  rw [Deployment.spent, Deployment.content, kernel, fd, others id apart.symm]
  have before := underway.paid
  simp only [stepsOf, List.countP_append, List.countP_singleton, beq_eq_false_iff_ne.mpr apart,
    Bool.false_eq_true, ↓reduceIte, Nat.add_zero]
  exact before

theorem bounded (underway : Underway id during state) :
    stepsOf id during ≤ 2 * state.content + 8 := by
  have most := Pc.spent_le (state.kernel.progress_le state.world.fd) (state.world.threads id).pc
  have paid : stepsOf id during ≤ 8 + 2 * state.content := underway.paid.trans most
  omega

end Underway

/-- Whatever the services of the driver do, whatever fails and whoever moves in between,
a thread that took the mutex makes at most eight calls, and two for each byte of the
content, before it gives it back or is gone. -/
theorem turn_bounded {past during : List (((Nat × Event) × Services) × Syscall)}
    {state : Deployment} {id : Nat} {services : Services} {locking : Syscall}
    (run : deployed.Run .start (past ++ (((id, .lock), services), locking) :: during) state)
    (small : deployed.Along .start (past ++ (((id, .lock), services), locking) :: during)
      fun state => state.content < 2 ^ 63)
    (stays : ∀ step ∈ during, step.1.1.1 = id → ∀ failed, step.1.1.2 ≠ .unlock failed) :
    stepsOf id during ≤ 2 * state.content + 8 := by
  obtain ⟨before, earlier, turn⟩ := run.split
  obtain ⟨locked, lockStep, goesOn⟩ := turn.head
  have begins := Underway.start (run_guarded (deployed_run earlier)) (run_valid earlier) lockStep
  have smallAfter := ((small.later earlier).later (.single lockStep)).eachStep
  have underway : (∀ step ∈ during, step.1.1.1 = id → ∀ failed, step.1.1.2 ≠ .unlock failed) →
      Underway id during state := by
    refine goesOn.history_of_eachStep (fun during state =>
      (∀ step ∈ during, step.1.1.1 = id → ∀ failed, step.1.1.2 ≠ .unlock failed) →
        Underway id during state) (fun _ => begins) smallAfter ?_
    intro during state ⟨⟨mover, event⟩, services⟩ asked after fits known taken stays
    have underway := known fun step member => stays step (List.mem_append_left _ member)
    by_cases own : mover = id
    · subst own
      have last := stays _ (List.mem_append_right _ (List.mem_singleton_self _)) rfl
      exact underway.step_self fits last taken
    · exact underway.step_other own taken
  exact (underway stays).bounded

end Aesd.Server
