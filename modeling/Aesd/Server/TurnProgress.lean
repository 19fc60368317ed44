import Aesd.Server.TurnBound
import Aesd.Server.ReceiveLoop

namespace Aesd.Server

open Aesd.Library Aesd.Driver

theorem thread_run {trace : List ((Nat × Event) × Syscall)} {world : World}
    (run : server.Run World.start trace world) (id : Nat) :
    ∃ own, process.Run Thread.start own (world.threads id) := by
  refine run.invariant (fun world => ∃ own, process.Run Thread.start own (world.threads id))
    ⟨[], .start⟩ ?_
  intro world ⟨mover, event⟩ asked after ⟨own, earlier⟩ taken
  obtain ⟨thread, shared, moved, _, rfl⟩ := World.step_cases taken
  by_cases mine : id = mover
  · subst mine
    refine ⟨own ++ [(event, asked)], earlier.next ?_⟩
    simpa [process] using moved
  · refine ⟨own, ?_⟩
    simpa [Function.update_of_ne mine] using earlier

theorem text_small {own : List (Event × Syscall)} {thread : Thread}
    (run : process.Run Thread.start own thread) (writing : thread.pc = .write) :
    thread.text.length < 2 ^ 31 := by
  have held := run_held run
  rw [Held, writing] at held
  have text := held.text
  obtain ⟨⟨block, holding⟩, _⟩ := held
  have shorter := (List.takeWhile_prefix (l := (turnOf own).flatten ++ behind own) (· ≠ 0)).length_le
  have small := holding.small
  rw [List.length_append] at shorter
  rw [text]
  exact Nat.lt_of_le_of_lt shorter small

section Replies

variable {services : Services} {filp : Nat} {state : DriverState}

/-- A write accepts no more than it is given. -/
theorem write_accepts {data : List Byte} (fits : data.length < 2 ^ 63) :
    (((⟨filp, services, .write (.bytes data fits)⟩ : Call).run state).1.retval < 0) ∨
      ((⟨filp, services, .write (.bytes data fits)⟩ : Call).run state).1.retval.toInt.toNat ≤
        data.length := by
  rw [(run_effect _ state).1, Memory.effect]
  rcases state.memory.write_cases services filp (.bytes data fits) with
    ⟨retval, small, _, wrote⟩ | ⟨_, _, _, _, _, _, wrote⟩ | ⟨chunk, _, grown, same, _, _, _, wrote⟩
  · simp only [wrote]
    rcases small with ⟨rfl, _⟩ | rfl | rfl
    · exact .inr (Nat.zero_le _)
    · exact .inl (by decide)
    · exact .inl (by decide)
  · simp only [wrote]
    exact .inl (by decide)
  · simp only [wrote]
    obtain rfl := (UserBuffer.bytes.inj same)
    have shorter : (Driver.accepted services data).length ≤ data.length := by
      rw [length_accepted]
      exact Nat.sub_le _ _
    right
    rw [UInt64.toInt64_ofNat', Int64.toInt_ofNat_of_lt (Nat.lt_of_le_of_lt shorter fits)]
    exact shorter

theorem read_fits (valid : state.memory.Valid) {count : UInt64} :
    ((⟨filp, services, .read false count⟩ : Call).run state).1.received.length ≤ count.toNat := by
  rw [(run_effect _ state).1]
  change (state.memory.read services filp false count).1.received.length ≤ count.toNat
  rw [(valid.read_device services filp false count).1, CommandDevice.read]
  split
  · exact Nat.zero_le _
  · split
    · exact Nat.zero_le _
    · simp only [List.length_take]
      omega

end Replies

/-- The places where the driver is asked. -/
def Pc.onDevice : Pc → Bool
  | .ioctl | .write | .lseekCur | .lseekEnd | .lseekSet | .read => true
  | _ => false

/-- What a reply of the driver comes to, at each place where it is asked. -/
def Pc.outcome (reply : Reply) : Pc → Event
  | .ioctl => .ioctl (decide (reply.retval = 0))
  | .write => .write (if reply.retval < 0 then none else some reply.retval.toInt.toNat)
  | .lseekCur => .lseekCur (if reply.retval < 0 then -1 else reply.retval)
  | .lseekEnd => .lseekEnd (if reply.retval < 0 then -1 else reply.retval)
  | .lseekSet => .lseekSet (if reply.retval < 0 then -1 else reply.retval)
  | .read => .read (if reply.retval < 0 then none else some reply.received)
  | _ => .lock

section Outcomes

variable {pc : Pc} {reply : Reply}

theorem outcome_onDevice (asking : pc.onDevice = true) :
    (pc.outcome reply).onDevice = true ∧ (pc.outcome reply).pc = pc := by
  cases pc with
  | ioctl | write | lseekCur | lseekEnd | lseekSet | read => exact ⟨rfl, rfl⟩
  | _ => cases asking

theorem outcome_reports (asking : pc.onDevice = true) : (pc.outcome reply).reports reply = true := by
  cases pc with
  | ioctl | write | lseekCur | lseekEnd | lseekSet | read => exact beq_self_eq_true _
  | _ => cases asking

theorem outcome_failed (asking : pc.onDevice = true) : (pc.outcome ⟨-1, []⟩).failed = true := by
  cases pc with
  | ioctl | write | lseekCur | lseekEnd | lseekSet | read => rfl
  | _ => cases asking

/-- A thread can handle every reply of the size it asked for. -/
theorem outcome_resumes {thread : Thread} (asking : thread.pc.onDevice = true)
    (accepts : thread.pc = .write → reply.retval < 0 ∨
      reply.retval.toInt.toNat ≤ thread.text.length)
    (fits : thread.pc = .read → reply.received.length ≤ sizeT thread.bytesProcessed) :
    ∃ next, thread.step (thread.pc.outcome reply) = some (thread.syscall, next) := by
  have resumed : ∃ next, thread.resume (thread.pc.outcome reply) = some next := by
    cases place : thread.pc with
    | ioctl =>
      simp only [Pc.outcome]
      cases decide (reply.retval = 0) with
      | true => exact ⟨_, rfl⟩
      | false => exact ⟨_, rfl⟩
    | write =>
      simp only [Pc.outcome]
      split
      · exact ⟨_, rfl⟩
      · rename_i nonneg
        rcases accepts place with negative | shorter
        · exact absurd negative nonneg
        · exact ⟨_, if_pos shorter⟩
    | lseekCur | lseekEnd | lseekSet => exact ⟨_, rfl⟩
    | read =>
      simp only [Pc.outcome]
      split
      · exact ⟨_, rfl⟩
      · exact ⟨_, if_pos (fits place)⟩
    | _ =>
      rw [place] at asking
      cases asking
  obtain ⟨next, resumed⟩ := resumed
  exact ⟨next, Thread.step_eq_some_iff.mpr ⟨(outcome_onDevice asking).2.symm, rfl, resumed⟩⟩

end Outcomes

/-- What the driver answers to the next call of a thread; a call on a descriptor that is
not open fails. -/
def Kernel.Replies (kernel : Kernel) (fd : Option Nat) (services : Services) (thread : Thread)
    (reply : Reply) : Prop :=
  match fd.bind kernel.files with
  | none => reply = ⟨-1, []⟩
  | some filp => ∃ operation, thread.syscall.fileOperation = some operation ∧
      reply = ((⟨filp, services, operation⟩ : Call).run kernel.driver).1

section Device

variable {kernel : Kernel} {fd : Option Nat} {services : Services} {thread : Thread}
variable {reply : Reply}

theorem replies_exists (asking : thread.pc.onDevice = true)
    (fits : thread.pc = .write → thread.text.length < 2 ^ 63) :
    ∃ reply, kernel.Replies fd services thread reply := by
  have possible : ∃ operation, thread.syscall.fileOperation = some operation := by
    unfold Thread.syscall
    cases place : thread.pc with
    | ioctl | lseekCur | lseekEnd | lseekSet | read => exact ⟨_, rfl⟩
    | write => exact ⟨_, dif_pos (fits place)⟩
    | _ =>
      rw [place] at asking
      cases asking
  obtain ⟨operation, asks⟩ := possible
  unfold Kernel.Replies
  cases fd.bind kernel.files with
  | none => exact ⟨_, rfl⟩
  | some filp => exact ⟨_, operation, asks, rfl⟩

theorem serve_outcome (asking : thread.pc.onDevice = true)
    (replies : kernel.Replies fd services thread reply) :
    ∃ after, kernel.serve fd services thread.syscall (thread.pc.outcome reply) = some after := by
  unfold Kernel.serve
  rw [if_pos (outcome_onDevice asking).1]
  unfold Kernel.Replies at replies
  cases opened : fd.bind kernel.files with
  | none =>
    simp only [opened] at replies
    obtain rfl := replies
    exact ⟨kernel, if_pos (outcome_failed asking)⟩
  | some filp =>
    simp only [opened] at replies
    obtain ⟨operation, asks, rfl⟩ := replies
    simp only [asks]
    rw [Kernel.call_eq, if_pos (outcome_reports asking)]
    exact ⟨_, rfl⟩

/-- Whatever the driver answers, the handler can handle it. -/
theorem replies_resume (valid : kernel.driver.memory.Valid) (asking : thread.pc.onDevice = true)
    (fits : thread.pc = .write → thread.text.length < 2 ^ 63)
    (replies : kernel.Replies fd services thread reply) :
    ∃ next, thread.step (thread.pc.outcome reply) = some (thread.syscall, next) := by
  have origin : reply = ⟨-1, []⟩ ∨ ∃ filp operation,
      thread.syscall.fileOperation = some operation ∧
        reply = ((⟨filp, services, operation⟩ : Call).run kernel.driver).1 := by
    unfold Kernel.Replies at replies
    split at replies
    · exact .inl replies
    · obtain ⟨operation, asks, same⟩ := replies
      exact .inr ⟨_, operation, asks, same⟩
  apply outcome_resumes asking
  · intro place
    rcases origin with rfl | ⟨filp, operation, asks, rfl⟩
    · exact .inl (by decide)
    · rw [Thread.syscall, place, Syscall.fileOperation, dif_pos (fits place)] at asks
      obtain rfl := Option.some.inj asks
      exact write_accepts (fits place)
  · intro place
    rcases origin with rfl | ⟨filp, operation, asks, rfl⟩
    · exact Nat.zero_le _
    · rw [Thread.syscall, place] at asks
      obtain rfl := Option.some.inj asks
      have handed := @read_fits services filp kernel.driver valid
        (UInt64.ofNat (sizeT thread.bytesProcessed))
      rw [UInt64.toNat_ofNat_of_lt' (sizeT_lt _)] at handed
      exact handed

end Device

/-- The outcomes that the next call of a thread in its section can have: what the driver
answers under these services; an unused descriptor from `open`, memory up to
`PTRDIFF_MAX` from `calloc`, no more than was asked from `send`, or their failure. -/
inductive Deployment.Gives (state : Deployment) (id : Nat) (services : Services) : Event → Prop where
  | device {reply : Reply} (asking : (state.world.threads id).pc.onDevice = true)
      (replies : state.kernel.Replies state.world.fd services (state.world.threads id) reply) :
      Gives state id services ((state.world.threads id).pc.outcome reply)
  | openFails (waits : (state.world.threads id).pc = .openDevice) :
      Gives state id services (.openDevice none)
  | opens {descriptor : Nat} (waits : (state.world.threads id).pc = .openDevice)
      (unused : state.world.descriptors descriptor = none) :
      Gives state id services (.openDevice (some descriptor))
  | callocFails (waits : (state.world.threads id).pc = .callocSend) :
      Gives state id services (.callocSend false)
  | calloc (waits : (state.world.threads id).pc = .callocSend)
      (possible : sizeT (state.world.threads id).bytesProcessed < 2 ^ 63) :
      Gives state id services (.callocSend true)
  | sendFails (waits : (state.world.threads id).pc = .send) : Gives state id services (.send none)
  | sends {bytes : List Byte} {count : Nat} (waits : (state.world.threads id).pc = .send)
      (asks : (state.world.threads id).syscall = .send bytes) (fits : count ≤ bytes.length) :
      Gives state id services (.send (some count))
  | close {failed : Bool} (waits : (state.world.threads id).pc = .close failed) :
      Gives state id services (.close failed)
  | unlock {failed : Bool} (waits : (state.world.threads id).pc = .unlock failed) :
      Gives state id services (.unlock failed)

section Turn

variable {state : Deployment} {id : Nat} {event : Event} {services : Services} {next : Thread}

theorem deployed_enabled (alive : state.world.crashed = false)
    (moves : (state.world.threads id).step event = some ((state.world.threads id).syscall, next))
    (shares : ∃ shared, state.world.share id event = some shared)
    (serves : ∃ kernel, state.kernel.serve state.world.fd services (state.world.threads id).syscall
      event = some kernel) :
    ∃ asked after, deployed.step state ((id, event), services) = some (asked, after) := by
  obtain ⟨shared, shares⟩ := shares
  obtain ⟨kernel, serves⟩ := serves
  refine ⟨(state.world.threads id).syscall, ⟨{ shared with
    threads := Function.update state.world.threads id next
    crashed := next.pc == .crashed }, kernel⟩, ?_⟩
  simp only [deployed, Deployment.step, World.step, alive, Bool.false_eq_true, ↓reduceIte, moves,
    shares, Option.map_some, serves]

theorem share_onDevice {world : World} (onDevice : event.onDevice = true) :
    world.share id event = some world := by
  cases event with
  | ioctl | write | lseekCur | lseekEnd | lseekSet | read => rfl
  | _ => cases onDevice

theorem crashed_of_thread {trace : List ((Nat × Event) × Syscall)} {world : World}
    (run : server.Run World.start trace world) (crashed : (world.threads id).pc = .crashed) :
    world.crashed = true := by
  revert crashed
  refine run.invariant (fun world => (world.threads id).pc = .crashed → world.crashed = true)
    Pc.noConfusion ?_
  intro world ⟨mover, event⟩ asked after known taken
  obtain ⟨thread, shared, moved, _, rfl⟩ := World.step_cases taken
  by_cases mine : id = mover
  · subst mine
    simp
  · intro crashed
    simp only [Function.update_of_ne mine] at crashed
    -- nobody moves in a crashed program
    simp [server, World.step, known crashed] at taken

/-- A thread in the critical section can handle every outcome of its next call. -/
theorem gives_step {trace : List (((Nat × Event) × Services) × Syscall)}
    (run : deployed.Run .start trace state) (alive : state.world.crashed = false)
    (gives : state.Gives id services event) :
    ∃ asked after, deployed.step state ((id, event), services) = some (asked, after) := by
  obtain ⟨own, ownRun⟩ := thread_run (deployed_run run) id
  have step : ∀ {event next}, (state.world.threads id).pc = event.pc →
      (state.world.threads id).resume event = some next → (state.world.threads id).step event =
        some ((state.world.threads id).syscall, next) :=
    fun waiting resumed => Thread.step_eq_some_iff.mpr ⟨waiting, rfl, resumed⟩
  cases gives with
  | device asking replies =>
    have fits : (state.world.threads id).pc = .write →
        (state.world.threads id).text.length < 2 ^ 63 :=
      fun place => Nat.lt_trans (text_small ownRun place) (by decide)
    obtain ⟨next, moves⟩ := replies_resume (run_valid run) asking fits replies
    exact deployed_enabled alive moves ⟨_, share_onDevice (outcome_onDevice asking).1⟩
      (serve_outcome asking replies)
  | openFails waits => exact deployed_enabled alive (step waits rfl) ⟨_, rfl⟩ ⟨_, rfl⟩
  | opens waits unused =>
    exact deployed_enabled alive (step waits rfl) ⟨_, if_pos unused⟩ ⟨_, rfl⟩
  | callocFails waits => exact deployed_enabled alive (step waits rfl) ⟨_, rfl⟩ ⟨_, rfl⟩
  | calloc waits possible =>
    exact deployed_enabled alive (step waits (if_pos possible)) ⟨_, rfl⟩ ⟨_, rfl⟩
  | sendFails waits => exact deployed_enabled alive (step waits rfl) ⟨_, rfl⟩ ⟨_, rfl⟩
  | sends waits asks fits =>
    have asked := asks
    rw [Thread.syscall, waits] at asked
    obtain rfl := Syscall.send.inj asked
    have bounded := fits.trans (List.length_take_le _ _)
    exact deployed_enabled alive (step waits (if_pos bounded)) ⟨_, rfl⟩ ⟨_, rfl⟩
  | close waits =>
    refine deployed_enabled alive (step waits rfl) ?_ ?_
    · unfold World.share
      cases state.world.fd with
      | none => exact ⟨_, rfl⟩
      | some descriptor => exact ⟨_, rfl⟩
    · cases state.world.fd with
      | none => exact ⟨_, rfl⟩
      | some descriptor => exact ⟨_, rfl⟩
  | @unlock failed waits =>
    cases failed with
    | true => exact deployed_enabled alive (step waits rfl) ⟨_, rfl⟩ ⟨_, rfl⟩
    | false => exact deployed_enabled alive (step waits rfl) ⟨_, rfl⟩ ⟨_, rfl⟩

theorem gives_exists {trace : List (((Nat × Event) × Services) × Syscall)}
    (run : deployed.Run .start trace state) (alive : state.world.crashed = false)
    (inside : (state.world.zone id).inside = true) : ∃ event, state.Gives id services event := by
  obtain ⟨own, ownRun⟩ := thread_run (deployed_run run) id
  unfold World.zone Thread.zone at inside
  cases place : (state.world.threads id).pc with
  | ioctl | write | lseekCur | lseekEnd | lseekSet | read =>
    have asking : (state.world.threads id).pc.onDevice = true := by rw [place]; rfl
    obtain ⟨reply, replies⟩ := @replies_exists state.kernel state.world.fd services _ asking
      fun writing => Nat.lt_trans (text_small ownRun writing) (by decide)
    exact ⟨_, .device asking replies⟩
  | openDevice => exact ⟨_, .openFails place⟩
  | callocSend => exact ⟨_, .callocFails place⟩
  | send => exact ⟨_, .sendFails place⟩
  | close failed => exact ⟨_, .close place⟩
  | unlock failed => exact ⟨_, .unlock place⟩
  | crashed =>
    rw [crashed_of_thread (deployed_run run) place] at alive
    cases alive
  | _ =>
    rw [place] at inside
    cases inside

end Turn

/-- Every turn on the driver is bounded and never stuck, whatever its services do,
whatever fails and whoever moves in between: a thread that took the mutex makes at most
eight calls, and two for each byte of the content, before it gives it back or is gone;
and as long as it is there, and the program with it, it goes on after every outcome that
its next call can have. -/
theorem turn_ends {past during : List (((Nat × Event) × Services) × Syscall)}
    {state : Deployment} {id : Nat} {services : Services} {locking : Syscall}
    (run : deployed.Run .start (past ++ (((id, .lock), services), locking) :: during) state)
    (small : deployed.Along .start (past ++ (((id, .lock), services), locking) :: during)
      fun state => state.content < 2 ^ 63)
    (stays : ∀ step ∈ during, step.1.1.1 = id → ∀ failed, step.1.1.2 ≠ .unlock failed) :
    stepsOf id during ≤ 2 * state.content + 8 ∧
      (state.world.crashed = false → (state.world.zone id).inside = true → ∀ services,
        (∃ event, state.Gives id services event) ∧
          ∀ event, state.Gives id services event → ∃ asked after,
            deployed.step state ((id, event), services) = some (asked, after)) :=
  ⟨turn_bounded run small stays, fun alive inside _ =>
    ⟨gives_exists run alive inside, fun _ gives => gives_step run alive gives⟩⟩

/-- A turn in the middle of its reply. -/
def halfwayTurn : List ((Nat × Event) × Services) :=
  ([.callocRecv true, .checkExit false, .recv (some [101, newline]), .lock,
    .openDevice (some 3), .write (some 2), .lseekEnd 2, .lseekSet 0, .callocSend true,
    .read (some [101, newline]), .send (some 1)] : List Event).map fun event =>
      ((0, event), Services.smooth)

theorem halfwayTurn_ends : ∃ trace state,
    deployed.exec .start halfwayTurn = some (trace, state) ∧
      ∃ during, stepsOf 0 during ≤ 2 * state.content + 8 ∧ ∀ services,
        (∃ event, state.Gives 0 services event) ∧
          ∀ event, state.Gives 0 services event → ∃ asked after,
            deployed.step state ((0, event), services) = some (asked, after) := by
  obtain ⟨⟨trace, state⟩, computed, facts⟩ := (Option.any_eq_true _ _).mp
    (by decide +kernel : ((deployed.exec .start halfwayTurn).any fun result =>
      !result.2.world.crashed && (result.2.world.zone 0).inside) = true)
  simp only [Bool.and_eq_true, Bool.not_eq_true'] at facts
  have whole : trace.map Prod.fst = halfwayTurn.take 3 ++ ((0, .lock), .smooth) ::
      halfwayTurn.drop 4 :=
    Machine.exec_inputs computed
  obtain ⟨past, turn, rfl, _, turnInputs⟩ := List.map_eq_append_iff.mp whole
  obtain ⟨⟨_, locking⟩, during, rfl, rfl, duringInputs⟩ := List.map_eq_cons_iff.mp turnInputs
  have small := Machine.eachStep_of_every (fun _ _ after => decide (after.content < 2 ^ 63)) computed
    (by decide +kernel)
  simp only [decide_eq_true_eq] at small
  have stays : ∀ input ∈ halfwayTurn.drop 4, ∀ failed, input.1.2 ≠ .unlock failed := by
    decide
  have run := Machine.Run.of_exec computed
  obtain ⟨bounded, goesOn⟩ := turn_ends run (run.along_of_eachStep (by decide) small)
    fun step member _ => stays step.1 (duringInputs ▸ List.mem_map_of_mem member)
  exact ⟨_, state, computed, during, bounded, goesOn facts.1 facts.2⟩

end Aesd.Server
