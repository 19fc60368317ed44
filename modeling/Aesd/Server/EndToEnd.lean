import Aesd.Server.Coupling

namespace Aesd.Server

open Aesd.Library Aesd.Driver

/-- Services that copy completely, a clean stack slot, and complete sends. -/
structure Undisturbed (input : (Nat × Event) × Services) (asked : Syscall) : Prop where
  copies : input.2.uncopied = 0
  stack : input.2.junk = 0
  sends : ∀ bytes count, asked = .send bytes → input.1.2 = .send (some count) →
    count = bytes.length

/-- A thread that has received ordinary lines only does not seek. -/
structure Unseeking (thread : Thread) : Prop extends Unflagged thread where
  elsewhere : thread.pc ≠ .ioctl

theorem Unseeking.step {thread next : Thread} {event : Event} {call : Syscall}
    (unseeking : Unseeking thread) (taken : thread.step event = some (call, next))
    (ordinary : event = .lock → isSeek thread.text = false) : Unseeking next := by
  refine ⟨unseeking.toUnflagged.step taken ordinary, ?_⟩
  have away : event.next.all (fun pc => !(pc == .ioctl)) = true → next.pc ≠ .ioctl := by
    intro everywhere there
    have holds := Thread.holds_of_next taken everywhere
    simp [there] at holds
  obtain ⟨waiting, resumes⟩ := Thread.step_cases taken
  cases resumes with
  | openDevice =>
    have isLine : ¬ kIOCtrlStr.isPrefixOf thread.text = true :=
      Bool.eq_false_iff.mp (unseeking.isLine waiting)
    rw [Thread.dispatch, if_neg isLine]
    exact Pc.noConfusion
  | _ => exact away rfl

section Runs

variable {trace past middle later : List (((Nat × Event) × Services) × Syscall)}
variable {state : Deployment}

/-- Every payload was an ordinary line when its turn began. -/
def LinesOnly (trace : List (((Nat × Event) × Services) × Syscall)) : Prop :=
  deployed.EachStep .start trace fun before input _ _ =>
    input.1.2 = .lock → OrdinaryLine (before.world.threads input.1.1).text

theorem run_unseeking (run : deployed.Run .start trace state) (lines : LinesOnly trace)
    (id : Nat) : Unseeking (state.world.threads id) := by
  refine run.invariant_of_eachStep (fun state => Unseeking (state.world.threads id))
    ⟨⟨rfl, Pc.noConfusion⟩, Pc.noConfusion⟩ lines ?_
  intro before ((other, event), services) asked after isLine unseeking taken
  obtain ⟨thread, shared, moved, _, same⟩ := World.step_cases (deployed_step taken).1
  rw [same]
  by_cases mine : id = other
  · subst mine
    simpa using unseeking.step moved fun locking => (isLine locking).1
  · simpa [Function.update_of_ne mine] using unseeking

/-- Ordinary lines, undisturbed services and a small content make every step a step of
the ideal device. -/
theorem suited_of_lines (lines : LinesOnly trace)
    (undisturbed : deployed.EachStep .start trace fun _ input asked _ => Undisturbed input asked)
    (small : deployed.Along .start trace fun state =>
      state.kernel.driver.memory.commands.flatten.length < 2 ^ 31) :
    deployed.EachStep .start trace Suited := by
  intro past ((id, event), services) asked before after inside passed taken
  have calm := undisturbed past _ asked before after inside passed taken
  have earlier : LinesOnly past := by
    obtain ⟨rest, whole⟩ := inside
    rw [← whole, List.append_assoc] at lines
    exact lines.earlier
  have unseeking := run_unseeking passed earlier id
  obtain ⟨_, _, moved, _, _⟩ := World.step_cases (deployed_step taken).1
  have waiting := (Thread.step_eq_some_iff.mp moved).1
  refine ⟨calm.copies, calm.stack, ?_, ?_, fun _ _ => unseeking.unset, calm.sends⟩
  · exact Nat.lt_trans (small _ after inside (passed.next taken)) (by decide)
  · intro seeks
    cases seeks
    exact absurd waiting unseeking.elsewhere

/-- The reply of an undisturbed turn, on the ideal device. -/
theorem turn_reply {before locked ending : IdealWorld} {during : List ((Nat × Event) × Syscall)}
    {first : List ((Nat × Event) × Syscall)} {id : Nat} {locking : Syscall}
    (pastRun : (ideal .recent).Run (.start []) first before)
    (lockStep : (ideal .recent).step before (id, .lock) = some (locking, locked))
    (middleRun : (ideal .recent).Run locked during ending)
    (ended : (ending.world.threads id).pc = .unlock false)
    (line : OrdinaryLine (before.world.threads id).text)
    (unset : (before.world.threads id).ioctlCmdRecv = false)
    (small : ending.device.content.length < 2 ^ 31)
    (works : ∀ step ∈ during, step.1.1 = id → step.1.2.failed = false ∧ step.1.2 ≠ .unlock false) :
    linesOf during = [(before.world.threads id).text] ∧
      sentBy id during = recentContent [] (linesOf first ++ [(before.world.threads id).text]) := by
  have begins := InTurn.start (run_guarded (ideal_run pastRun)) lockStep
  rw [unset] at begins
  have meaningful : operationOf (before.world.threads id).text ≠ none := by
    rw [operationOf_eq_write.mpr ⟨rfl, line.1⟩]
    exact Option.some_ne_none _
  have turn := run_inTurn meaningful begins middleRun works
  obtain ⟨wrote, stored, reply⟩ := turn.phase.line_reply ended line small
  have kept : before.device.commands = (linesOf first).rtake 10 := @run_commands [] _ _ pastRun
  refine ⟨wrote, ?_⟩
  rw [reply, IdealDevice.content, stored, kept, recentContent, List.nil_append]
  exact congrArg List.flatten (rtake_rtake_append_singleton _ _ _)

/-- However the handlers interleave, on whatever interruptions and failures elsewhere, a
line handled without a failure comes back from the driver behind the nine lines before
it, and nobody else's line comes in between. -/
theorem deployed_replies {id : Nat} {locking unlocking : Syscall} {first last : Services}
    (run : deployed.Run .start trace state)
    (whole : trace = past ++ (((id, .lock), first), locking) :: middle ++
      (((id, .unlock false), last), unlocking) :: later)
    (lines : LinesOnly trace)
    (undisturbed : deployed.EachStep .start trace fun _ input asked _ => Undisturbed input asked)
    (small : deployed.Along .start trace fun state =>
      state.kernel.driver.memory.commands.flatten.length < 2 ^ 31)
    (works : ∀ step ∈ middle, step.1.1.1 = id →
      step.1.1.2.failed = false ∧ step.1.1.2 ≠ .unlock false) :
    ∃ line, OrdinaryLine line ∧
      (∀ before, deployed.Run .start past before → (before.world.threads id).text = line) ∧
      linesOf (middle.map bare) = [line] ∧
      sentBy id (middle.map bare) = recentContent [] (linesOf (past.map bare) ++ [line]) := by
  subst whole
  have suited := suited_of_lines lines undisturbed small
  obtain ⟨ending, earlier, closing⟩ := run.split
  obtain ⟨before, pastRun, turnRun⟩ := earlier.split
  obtain ⟨locked, lockStep, middleRun⟩ := turnRun.head
  obtain ⟨_, unlockStep, _⟩ := closing.head
  have cut : past ++ (((id, .lock), first), locking) :: middle ++
      (((id, .unlock false), last), unlocking) :: later =
      past ++ ([(((id, .lock), first), locking)] ++
        (middle ++ (((id, .unlock false), last), unlocking) :: later)) := by
    simp
  rw [cut] at lines suited
  have line : OrdinaryLine (before.world.threads id).text :=
    lines past ((id, .lock), first) locking before locked
      ⟨_, List.append_assoc ..⟩ pastRun lockStep rfl
  have unset := (run_unseeking pastRun lines.earlier id).unset
  -- the ideal device passes the state before the lock and the one before the unlock
  obtain ⟨deviceBefore, idealPast, _⟩ := run_coupled pastRun suited.earlier
  rw [← cut] at suited
  obtain ⟨device, ideally, coupled⟩ := run_coupled earlier suited.earlier
  rw [List.map_append] at ideally
  obtain ⟨idealBefore, again, idealTurn⟩ := ideally.split
  obtain rfl := again.state_unique idealPast
  obtain ⟨idealLocked, idealLock, idealMiddle⟩ := idealTurn.head
  have ended : (ending.world.threads id).pc = .unlock false := by
    obtain ⟨_, _, moved, _, _⟩ := World.step_cases (deployed_step unlockStep).1
    exact (Thread.step_eq_some_iff.mp moved).1
  have fits : device.content.length < 2 ^ 31 := by
    rw [IdealDevice.content, coupled.mirrors.commands]
    exact small _ ending (List.prefix_append _ _) earlier
  have fine : ∀ step ∈ middle.map bare, step.1.1 = id →
      step.1.2.failed = false ∧ step.1.2 ≠ .unlock false := by
    intro step member
    obtain ⟨full, inside, rfl⟩ := List.mem_map.mp member
    exact works full inside
  obtain ⟨wrote, answered⟩ :=
    turn_reply idealPast idealLock idealMiddle ended line unset fits fine
  refine ⟨_, line, ?_, wrote, answered⟩
  intro other otherRun
  rw [otherRun.state_unique pastRun]

end Runs

/-- A test for the steps of a concrete run. -/
def Undisturbed.test (before : Deployment) (input : (Nat × Event) × Services) : Bool :=
  input.2.uncopied == 0 && input.2.junk == 0 &&
    match (before.world.threads input.1.1).syscall, input.1.2 with
    | .send bytes, .send (some count) => count == bytes.length
    | _, _ => true

theorem undisturbed_of_test {before after : Deployment} {input : (Nat × Event) × Services}
    {asked : Syscall} (tested : Undisturbed.test before input = true)
    (taken : deployed.step before input = some (asked, after)) : Undisturbed input asked := by
  obtain ⟨⟨id, event⟩, services⟩ := input
  obtain ⟨_, _, moved, _, _⟩ := World.step_cases (deployed_step taken).1
  obtain ⟨_, asks, _⟩ := Thread.step_eq_some_iff.mp moved
  simp only [Undisturbed.test, Bool.and_eq_true, beq_iff_eq, ← asks] at tested
  obtain ⟨⟨copies, stack⟩, fits⟩ := tested
  refine ⟨copies, stack, ?_⟩
  intro bytes count isSend sends
  subst isSend
  obtain rfl : event = .send (some count) := sends
  exact beq_iff_eq.mp fits

theorem twoHandlers_replies : ∃ trace state,
    ∃ past middle : List (((Nat × Event) × Services) × Syscall), ∃ line,
    deployed.exec .start twoHandlers = some (trace, state) ∧
      past.map Prod.fst = twoHandlers.take 17 ∧ middle.map Prod.fst = (twoHandlers.drop 18).take 13 ∧
      sentBy 1 (middle.map bare) = recentContent [] (linesOf (past.map bare) ++ [line]) := by
  obtain ⟨⟨trace, state⟩, computed⟩ := Option.isSome_iff_exists.mp
    (by decide +kernel : (deployed.exec .start twoHandlers).isSome = true)
  have whole : trace.map Prod.fst = twoHandlers.take 17 ++ ((1, .lock), .smooth) ::
      ((twoHandlers.drop 18).take 13 ++ [((1, .unlock false), .smooth)]) :=
    Machine.exec_inputs computed
  obtain ⟨past, turn, rfl, pastInputs, turnInputs⟩ := List.map_eq_append_iff.mp whole
  obtain ⟨⟨_, locking⟩, tail, rfl, rfl, tailInputs⟩ := List.map_eq_cons_iff.mp turnInputs
  obtain ⟨middle, ending, rfl, middleInputs, endInputs⟩ := List.map_eq_append_iff.mp tailInputs
  obtain ⟨⟨_, unlocking⟩, rest, rfl, rfl, _⟩ := List.map_eq_cons_iff.mp endInputs
  have works : ∀ input ∈ (twoHandlers.drop 18).take 13, input.1.1 = 1 →
      input.1.2.failed = false ∧ input.1.2 ≠ .unlock false := by
    decide
  have lines := Machine.eachStep_of_every (fun before input _ =>
    decide (input.1.2 = .lock → OrdinaryLine (before.world.threads input.1.1).text)) computed
      (by decide +kernel)
  have tested := Machine.eachStep_of_every (fun before input _ => Undisturbed.test before input)
    computed (by decide +kernel)
  have small := Machine.eachStep_of_every (fun _ _ after =>
    decide (after.kernel.driver.memory.commands.flatten.length < 2 ^ 31)) computed
      (by decide +kernel)
  simp only [decide_eq_true_eq] at lines small
  have run := Machine.Run.of_exec computed
  obtain ⟨line, _, _, _, answer⟩ := deployed_replies run
    (List.append_assoc past (_ :: middle) (_ :: rest)).symm lines
    (fun past input asked before after inside passed taken => undisturbed_of_test
      (tested past input asked before after inside passed taken) taken)
    (run.along_of_eachStep (by decide) small)
    (fun step member => works step.1 (middleInputs ▸ List.mem_map_of_mem member))
  exact ⟨_, state, past, middle, line, computed, pastInputs, middleInputs, answer⟩

end Aesd.Server
