import Aesd.Server.Turn

namespace Aesd.Server

open Aesd.Library Aesd.Driver

/-- The lines that a run appended to the device, in order. -/
def linesOf (trace : List ((Nat × Event) × Syscall)) : List (List Byte) :=
  trace.flatMap fun step => appended step.1.2 step.2

/-- The bytes that one thread handed to its client. -/
def sentBy (id : Nat) (trace : List ((Nat × Event) × Syscall)) : List Byte :=
  trace.flatMap fun step => if step.1.1 = id then delivered step.1.2 step.2 else []

def Event.descriptor : Event → Option Nat
  | .openDevice result => result
  | _ => none

/-- The descriptors that one thread opened. -/
def openedBy (id : Nat) (trace : List ((Nat × Event) × Syscall)) : List Nat :=
  trace.filterMap fun step => if step.1.1 = id then step.1.2.descriptor else none

section Traces

variable {id other : Nat} {trace : List ((Nat × Event) × Syscall)} {event : Event}
variable {call : Syscall}

theorem linesOf_append (first second : List ((Nat × Event) × Syscall)) :
    linesOf (first ++ second) = linesOf first ++ linesOf second :=
  List.flatMap_append

theorem openedBy_append (first second : List ((Nat × Event) × Syscall)) :
    openedBy id (first ++ second) = openedBy id first ++ openedBy id second :=
  List.filterMap_append

theorem eq_singleton_of_append {α : Type} {first second : List α} {item : α}
    (whole : first ++ second = [item]) (some : first ≠ []) : first = [item] := by
  rcases List.append_eq_singleton_iff.mp whole with ⟨none, _⟩ | ⟨found, _⟩
  · exact absurd none some
  · exact found

theorem linesOf_cons {input : Nat × Event} :
    linesOf ((input, call) :: trace) = appended input.2 call ++ linesOf trace :=
  List.flatMap_cons

theorem linesOf_append_singleton {input : Nat × Event} :
    linesOf (trace ++ [(input, call)]) = linesOf trace ++ appended input.2 call := by
  simp [linesOf]

theorem sentBy_append_self :
    sentBy id (trace ++ [((id, event), call)]) = sentBy id trace ++ delivered event call := by
  simp [sentBy]

theorem sentBy_append_other (different : other ≠ id) :
    sentBy id (trace ++ [((other, event), call)]) = sentBy id trace := by
  simp [sentBy, different]

theorem openedBy_append_self :
    openedBy id (trace ++ [((id, event), call)]) = openedBy id trace ++ event.descriptor.toList := by
  cases found : event.descriptor <;> simp [openedBy, found]

theorem openedBy_append_other (different : other ≠ id) :
    openedBy id (trace ++ [((other, event), call)]) = openedBy id trace := by
  simp [openedBy, different]

end Traces

section Steps

variable {retention : Retention} {state after : IdealWorld} {id other : Nat} {event : Event}
variable {call : Syscall}

theorem own_step (taken : (ideal retention).step state (id, event) = some (call, after)) :
    (state.world.threads id).step event = some (call, after.world.threads id) ∧
      state.device.answer retention state.world.fd call event = some after.device ∧
        after.world.fd = event.globalFd state.world.fd := by
  obtain ⟨stepped, answered⟩ := ideal_step taken
  obtain ⟨thread, shared, moved, shares, same⟩ := World.step_cases stepped
  refine ⟨?_, answered, ?_⟩
  · rw [same]
    simpa using moved
  · rw [same]
    cases event with
    | openDevice result =>
      cases result with
      | none =>
        obtain rfl := Option.some.inj shares
        rfl
      | some descriptor =>
        simp only [World.share, Option.ite_none_right_eq_some, Option.some.injEq] at shares
        rw [← shares.2]
        rfl
    | lock =>
      simp only [World.share, Option.ite_none_right_eq_some, Option.some.injEq] at shares
      rw [← shares.2]
      rfl
    | close failed =>
      simp only [World.share] at shares
      split at shares
      · obtain rfl := Option.some.inj shares
        rfl
      · obtain rfl := Option.some.inj shares
        rfl
    | _ =>
      obtain rfl := Option.some.inj shares
      rfl

theorem answer_outside {fd : Option Nat} {device moved : IdealDevice}
    (outside : event.pc.zone = .outside)
    (answered : device.answer retention fd call event = some moved) :
    moved = device ∧ appended event call = [] := by
  cases event with
  | callocRecv | checkExit | recv | realloc | lock | unlockExit =>
    cases call <;> exact ⟨(Option.some.inj answered).symm, rfl⟩
  | _ => cases outside

/-- While one thread is in the critical section, the others touch neither the
descriptor nor the device. -/
theorem outside_step (guarded : Guarded state.world) (inside : (state.world.zone id).inside = true)
    (different : other ≠ id)
    (taken : (ideal retention).step state (other, event) = some (call, after)) :
    after.world.threads id = state.world.threads id ∧ after.world.fd = state.world.fd ∧
      after.device = state.device ∧ appended event call = [] := by
  have notInside : (state.world.zone other).inside = false := by
    rw [Bool.eq_false_iff]
    intro both
    exact different (guarded.exclusive both inside)
  obtain ⟨moved, answered, fd⟩ := own_step taken
  have waiting : state.world.zone other = event.pc.zone :=
    congrArg Pc.zone (Thread.step_eq_some_iff.mp moved).1
  have outside : event.pc.zone = .outside := by
    rw [waiting] at notInside
    cases event <;> first | rfl | cases notInside
  obtain ⟨thread, shared, _, _, same⟩ := World.step_cases (ideal_step taken).1
  obtain ⟨kept, silent⟩ := answer_outside outside answered
  refine ⟨?_, ?_, kept, silent⟩
  · rw [same]
    exact Function.update_of_ne different.symm _ _
  · rw [fd]
    cases event <;> first | rfl | cases outside

end Steps

/-- Only the lock leads to the place before the open. -/
theorem ZoneStep.eq_lock {before now : Zone} {event : Event} (moves : ZoneStep event before now)
    (locked : now = .locked) : event = .lock := by
  subst locked
  cases moves with
  | lock => rfl
  | within zone stays quiet still => rcases still with impossible | impossible <;> cases impossible

/-- A turn that has not failed so far, seen in the world that holds its thread. -/
structure InTurn (retention : Retention) (payload : List Byte) (commands : List (List Byte))
    (flag : Bool) (id : Nat) (during : List ((Nat × Event) × Syscall)) (state : IdealWorld) :
    Prop where
  guarded : Guarded state.world
  phase : Phase retention payload commands flag (state.world.threads id) state.world.fd
    state.device (linesOf during) (sentBy id during)
  opened : (state.world.zone id = .locked ∧ openedBy id during = []) ∨
    (state.world.zone id ≠ .locked ∧
      ∃ descriptor, openedBy id during = [descriptor] ∧ state.world.fd = some descriptor)

section Turns

variable {retention : Retention} {payload : List Byte} {commands : List (List Byte)} {flag : Bool}
variable {id : Nat} {during : List ((Nat × Event) × Syscall)} {state after : IdealWorld}
variable {event : Event} {call : Syscall}

theorem Phase.inside {thread : Thread} {fd : Option Nat} {device : IdealDevice}
    {written : List (List Byte)} {sent : List Byte}
    (phase : Phase retention payload commands flag thread fd device written sent) :
    thread.zone.inside = true := by
  cases phase with
  | opening pc | writing pc | seeking pc | asking pc | measuring pc | rewinding pc
  | allocating pc | reading pc | sending pc | closing pc | unlocking pc | leaving pc =>
    rw [Thread.zone, pc]
    rfl

namespace InTurn

theorem start (guarded : Guarded state.world)
    (taken : (ideal retention).step state (id, .lock) = some (call, after)) :
    InTurn retention (state.world.threads id).text state.device.commands
      (state.world.threads id).ioctlCmdRecv id [] after := by
  obtain ⟨stepped, answered, _⟩ := own_step taken
  have kept := (answer_outside rfl answered).1
  have resumed := (Thread.step_eq_some_iff.mp stepped).2.2
  have moved := (Option.some.inj resumed).symm
  refine ⟨guarded.step (ideal_step taken).1, ?_, .inl ⟨?_, rfl⟩⟩
  · rw [moved]
    exact .opening rfl rfl rfl (congrArg IdealDevice.commands kept) rfl rfl
  · rw [World.zone, moved]
    rfl

theorem inside (turn : InTurn retention payload commands flag id during state) :
    (state.world.zone id).inside = true :=
  turn.phase.inside

theorem step_self (meaningful : operationOf payload ≠ none)
    (turn : InTurn retention payload commands flag id during state)
    (taken : (ideal retention).step state (id, event) = some (call, after))
    (works : event.failed = false) (stays : event ≠ .unlock false) :
    InTurn retention payload commands flag id (during ++ [((id, event), call)]) after := by
  obtain ⟨stepped, answered, fd⟩ := own_step taken
  have phase := turn.phase.step meaningful stepped answered works stays
  refine ⟨turn.guarded.step (ideal_step taken).1, ?_, ?_⟩
  · rw [fd, linesOf_append_singleton, sentBy_append_self]
    exact phase
  · rw [openedBy_append_self, fd]
    have waiting : state.world.zone id = event.pc.zone :=
      congrArg Pc.zone (Thread.step_eq_some_iff.mp stepped).1
    have inside := turn.inside
    have notLocked : after.world.zone id ≠ .locked := by
      intro locked
      obtain rfl := (step_zone stepped).eq_lock locked
      rw [waiting] at inside
      cases inside
    refine .inr ⟨notLocked, ?_⟩
    rcases turn.opened with ⟨locked, none⟩ | ⟨moved, opens⟩
    · cases event with
      | openDevice result =>
        cases result with
        | none => cases works
        | some descriptor => exact ⟨descriptor, by rw [none]; rfl, rfl⟩
      | _ => cases locked.symm.trans waiting
    · cases event with
      | openDevice result => exact absurd waiting moved
      | _ => simpa [Event.descriptor, Event.globalFd] using opens

theorem step_other {other : Nat} (different : other ≠ id)
    (turn : InTurn retention payload commands flag id during state)
    (taken : (ideal retention).step state (other, event) = some (call, after)) :
    InTurn retention payload commands flag id (during ++ [((other, event), call)]) after := by
  obtain ⟨thread, fd, device, silent⟩ := outside_step turn.guarded turn.inside different taken
  refine ⟨turn.guarded.step (ideal_step taken).1, ?_, ?_⟩
  · rw [thread, fd, device, linesOf_append_singleton, silent, List.append_nil,
      sentBy_append_other different]
    exact turn.phase
  · rw [openedBy_append_other different, fd, World.zone, thread]
    exact turn.opened

end InTurn

/-- A turn as long as nothing in it fails and it is not over: whatever the other
threads do in the meantime. -/
theorem run_inTurn {start : IdealWorld} (meaningful : operationOf payload ≠ none)
    (begins : InTurn retention payload commands flag id [] start)
    (run : (ideal retention).Run start during state)
    (works : ∀ step ∈ during, step.1.1 = id → step.1.2.failed = false ∧ step.1.2 ≠ .unlock false) :
    InTurn retention payload commands flag id during state := by
  refine run.history (fun past state =>
    (∀ step ∈ past, step.1.1 = id → step.1.2.failed = false ∧ step.1.2 ≠ .unlock false) →
      InTurn retention payload commands flag id past state) (fun _ => begins) ?_ works
  rintro past state ⟨other, event⟩ call after known taken works
  have turn := known fun step member => works step (List.mem_append_left _ member)
  by_cases self : other = id
  · subst self
    obtain ⟨fine, stays⟩ := works ((other, event), call)
      (List.mem_append_right _ (List.mem_singleton_self _)) rfl
    exact turn.step_self meaningful taken fine stays
  · exact turn.step_other self taken

end Turns

/-- A thread that has received ordinary lines only. -/
structure Unflagged (thread : Thread) : Prop where
  unset : thread.ioctlCmdRecv = false
  isLine : thread.pc = .openDevice → isSeek thread.text = false

theorem Unflagged.step {thread next : Thread} {event : Event} {call : Syscall}
    (unflagged : Unflagged thread) (taken : thread.step event = some (call, next))
    (ordinary : event = .lock → isSeek thread.text = false) : Unflagged next := by
  obtain ⟨waiting, _, resumed⟩ := Thread.step_eq_some_iff.mp taken
  refine ⟨?_, ?_⟩
  · cases event with
    | openDevice result =>
      obtain rfl := Option.some.inj resumed
      have isLine : ¬ kIOCtrlStr.isPrefixOf thread.text = true :=
        Bool.eq_false_iff.mp (unflagged.isLine waiting)
      rw [Thread.dispatch, if_neg isLine]
      exact unflagged.unset
    | _ => exact (resume_ioctlCmdRecv resumed nofun).trans unflagged.unset
  · intro opening
    obtain rfl := (step_zone taken).eq_lock (congrArg Pc.zone opening)
    obtain rfl := Option.some.inj resumed
    exact ordinary rfl

section Reply

variable {retention : Retention} {payload : List Byte} {commands : List (List Byte)} {flag : Bool}
variable {thread : Thread} {fd : Option Nat} {device : IdealDevice} {written : List (List Byte)}
variable {sent : List Byte}

theorem Phase.finished
    (phase : Phase retention payload commands flag thread fd device written sent)
    (ended : thread.pc = .unlock false) :
    ∃ start, Working retention payload commands flag thread device start ∧
      Measured thread device ∧ written = writesOf payload ∧ Replied thread device start sent := by
  cases phase with
  | unlocking pc working measured wrote replied => exact ⟨_, working, measured, wrote, replied⟩
  | opening pc | writing pc | seeking pc | asking pc | measuring pc | rewinding pc
  | allocating pc | reading pc | sending pc | closing pc | leaving pc => cases pc.symm.trans ended

/-- A line is answered with everything when no seek was received on the connection. -/
theorem Phase.line_reply
    (phase : Phase retention payload commands false thread fd device written sent)
    (ended : thread.pc = .unlock false) (ordinary : OrdinaryLine payload)
    (small : device.content.length < 2 ^ 31) :
    written = [payload] ∧ device.commands = retention.retain (commands ++ [payload]) ∧
      sent = device.content := by
  obtain ⟨isLine, ends⟩ := ordinary
  obtain ⟨start, ⟨⟨after, performed, chosen⟩, _⟩, measured, wrote, _, reply⟩ := phase.finished ended
  rw [outcome_line isLine] at performed
  obtain ⟨stored, _⟩ := Prod.mk.inj (Option.some.inj performed)
  have some : payload ≠ [] := by
    rintro rfl
    cases ends
  have present : 0 < device.content.length := by
    rw [IdealDevice.content, ← stored]
    exact List.length_pos_iff.mpr (retention.nonempty commands payload some)
  have fits : thread.bytesProcessed.toInt = device.content.length :=
    measured.trans (bmod_of_fits (by omega) (by omega))
  have all : ¬ thread.bytesProcessed.toInt = 0 := by omega
  rw [isLine, Bool.false_or, if_neg Bool.false_ne_true] at chosen
  rw [if_neg all, chosen, List.drop_zero] at reply
  exact ⟨wrote.trans (writesOf_line isLine), stored.symm, reply⟩

end Reply

section Order

variable {retention : Retention} {initial : List (List Byte)} {state : IdealWorld}
variable {trace : List ((Nat × Event) × Syscall)}

/-- Every payload was an ordinary line when its turn began. -/
def OrdinaryLines (retention : Retention) (start : IdealWorld)
    (trace : List ((Nat × Event) × Syscall)) : Prop :=
  (ideal retention).EachStep start trace fun before input _ _ =>
    input.2 = .lock → OrdinaryLine (before.world.threads input.1).text

theorem run_unflagged (run : (ideal retention).Run (.start initial) trace state)
    (ordinary : OrdinaryLines retention (.start initial) trace) (id : Nat) :
    Unflagged (state.world.threads id) := by
  refine run.invariant_of_eachStep (fun state => Unflagged (state.world.threads id))
    ⟨rfl, nofun⟩ ordinary ?_
  rintro before ⟨other, event⟩ call after isLine unflagged taken
  by_cases self : other = id
  · subst self
    exact unflagged.step (own_step taken).1 fun locking => (isLine locking).1
  · obtain ⟨thread, shared, _, _, same⟩ := World.step_cases (ideal_step taken).1
    have kept : after.world.threads id = before.world.threads id := by
      rw [same]
      exact Function.update_of_ne (Ne.symm self) _ _
    rw [kept]
    exact unflagged

private theorem succeed_commands {device moved : IdealDevice} {descriptor position : Nat} {event : Event}
    {call : Syscall}
    (answered : device.succeed retention descriptor position call event = some moved) :
    (appended event call = [] ∧ moved.commands = device.commands) ∨
      ∃ payload, appended event call = [payload] ∧
        moved.commands = retention.retain (device.commands ++ [payload]) := by
  unfold IdealDevice.succeed at answered
  split at answered
  case h_1 =>
    obtain ⟨_, _, rfl⟩ := Option.map_eq_some_iff.mp answered
    exact .inl ⟨rfl, rfl⟩
  case h_2 payload count =>
    simp only [Option.ite_none_right_eq_some, Option.some.injEq] at answered
    obtain ⟨_, rfl⟩ := answered
    exact .inr ⟨payload, rfl, rfl⟩
  case h_7 => cases answered
  all_goals
    simp only [Option.ite_none_right_eq_some, Option.some.injEq] at answered
    obtain ⟨_, rfl⟩ := answered
    exact .inl ⟨rfl, rfl⟩

theorem answer_commands {device moved : IdealDevice} {fd : Option Nat} {event : Event}
    {call : Syscall} (answered : device.answer retention fd call event = some moved) :
    (appended event call = [] ∧ moved.commands = device.commands) ∨
      ∃ payload, appended event call = [payload] ∧
        moved.commands = retention.retain (device.commands ++ [payload]) := by
  unfold IdealDevice.answer at answered
  split at answered
  · split at answered
    · cases answered
    · split at answered
      · cases answered
      · exact succeed_commands answered
  · rename_i refused
    left
    have silent : appended event call = [] := by
      cases event with
      | write result =>
        cases result with
        | none => rfl
        | some count => exact absurd rfl refused
      | _ => rfl
    refine ⟨silent, ?_⟩
    split at answered
    · obtain rfl := Option.some.inj answered
      rfl
    · split at answered
      · obtain rfl := Option.some.inj answered
        rfl
      · obtain rfl := Option.some.inj answered
        rfl
    · simp only [Option.ite_none_right_eq_some, Option.some.injEq] at answered
      rw [← answered.2]
    · obtain rfl := Option.some.inj answered
      rfl

/-- The device holds the lines of the run so far, and the ones it started with. -/
theorem run_commands
    (run : (ideal .recent).Run (.start (initial.rtake 10)) trace state) :
    state.device.commands = (initial ++ linesOf trace).rtake 10 := by
  refine run.history (fun past state => state.device.commands = (initial ++ linesOf past).rtake 10)
    (by rw [linesOf, List.flatMap_nil, List.append_nil]; rfl) ?_
  rintro past state ⟨id, event⟩ call after known taken
  rw [linesOf_append_singleton]
  rcases answer_commands (own_step taken).2.1 with ⟨silent, same⟩ | ⟨payload, wrote, stored⟩
  · rw [silent, List.append_nil, same, known]
  · rw [wrote, stored, known, ← List.append_assoc]
    exact rtake_rtake_append_singleton _ _ _

/-- The content of a device that keeps the ten most recent of these lines. -/
def recentContent (initial lines : List (List Byte)) : List Byte :=
  ((initial ++ lines).rtake 10).flatten

theorem suffix_recentContent (initial lines : List (List Byte)) (line : List Byte) :
    line <:+ recentContent initial (lines ++ [line]) := by
  rw [recentContent, ← List.append_assoc, List.rtake_concat_succ, List.flatten_append,
    List.flatten_singleton]
  exact List.suffix_append _ _

/-- What a turn with an ordinary line has done when only the unlock is left. -/
theorem InTurn.finished {line : List Byte} {lines commands : List (List Byte)} {id : Nat}
    {during : List ((Nat × Event) × Syscall)}
    (turn : InTurn .recent line commands false id during state)
    (stored : commands = (initial ++ lines).rtake 10)
    (ended : (state.world.threads id).pc = .unlock false) (ordinary : OrdinaryLine line)
    (small : state.device.content.length < 2 ^ 31) :
    linesOf during = [line] ∧ sentBy id during = recentContent initial (lines ++ [line]) ∧
      ∃ descriptor, openedBy id during = [descriptor] := by
  obtain ⟨wrote, kept, reply⟩ := turn.phase.line_reply ended ordinary small
  refine ⟨wrote, ?_, ?_⟩
  · rw [reply, IdealDevice.content, kept, stored, recentContent, ← List.append_assoc]
    exact congrArg List.flatten (rtake_rtake_append_singleton _ _ _)
  · have closed : state.world.zone id = .closed := congrArg Pc.zone ended
    rcases turn.opened with ⟨stays, _⟩ | ⟨_, descriptor, opens, _⟩
    · cases closed.symm.trans stays
    · exact ⟨descriptor, opens⟩

/-- Until a turn has opened the device nobody has it open, and then `fd` is its own. -/
theorem InTurn.owns_fd {line : List Byte} {commands : List (List Byte)} {flag : Bool} {id : Nat}
    {first rest : List ((Nat × Event) × Syscall)} {descriptor : Nat}
    (during : InTurn retention line commands flag id first state)
    (opens : openedBy id (first ++ rest) = [descriptor]) :
    (openedBy id first = [] → ∀ descriptor, state.world.descriptors descriptor = none) ∧
      (openedBy id first ≠ [] → state.world.fd = some descriptor) := by
  rw [openedBy_append] at opens
  constructor
  · intro none
    rcases during.opened with ⟨zone, _⟩ | ⟨_, other, found, _⟩
    · apply during.guarded.nothing_open during.inside
      rw [zone]
      exact Zone.noConfusion
    · cases none.symm.trans found
  · intro some
    rcases during.opened with ⟨_, none⟩ | ⟨_, other, found, fd⟩
    · exact absurd none some
    · rw [eq_singleton_of_append opens some] at found
      rw [fd, List.singleton_inj.mp found]

/-- However the handlers interleave and whatever fails elsewhere, a line answered
without a failure is answered with the device content right after it was appended: no
other line enters between its lock and its unlock, the global descriptor is its own
from the open on, and the lines of all connections are in one order. -/
theorem replies_follow_one_order {past middle later : List ((Nat × Event) × Syscall)} {id : Nat}
    {locking unlocking : Syscall}
    (run : (ideal .recent).Run (.start (initial.rtake 10)) trace state)
    (whole : trace =
      past ++ ((id, .lock), locking) :: middle ++ ((id, .unlock false), unlocking) :: later)
    (ordinary : OrdinaryLines .recent (.start (initial.rtake 10)) trace)
    (small : (ideal .recent).Along (.start (initial.rtake 10)) trace fun state =>
      state.device.content.length < 2 ^ 31)
    (works : ∀ step ∈ middle, step.1.1 = id →
      step.1.2.failed = false ∧ step.1.2 ≠ .unlock false) :
    ∃ line descriptor, OrdinaryLine line ∧
      (∀ before, (ideal .recent).Run (.start (initial.rtake 10)) past before →
        (before.world.threads id).text = line) ∧
      linesOf middle = [line] ∧ openedBy id middle = [descriptor] ∧
      linesOf trace = linesOf past ++ line :: linesOf later ∧
      sentBy id middle = recentContent initial (linesOf past ++ [line]) ∧
      line <:+ sentBy id middle ∧
      ∀ first rest now, middle = first ++ rest →
        (ideal .recent).Run (.start (initial.rtake 10)) (past ++ ((id, .lock), locking) :: first)
          now →
        (openedBy id first = [] → ∀ descriptor, now.world.descriptors descriptor = none) ∧
          (openedBy id first ≠ [] → now.world.fd = some descriptor) ∧
          (linesOf first ≠ [] → now.device.content = sentBy id middle) := by
  subst whole
  obtain ⟨ending, earlier, closing⟩ := run.split
  obtain ⟨before, pastRun, turnRun⟩ := earlier.split
  obtain ⟨locked, lockStep, middleRun⟩ := turnRun.head
  obtain ⟨_, unlockStep, _⟩ := closing.head
  have whole : past ++ ((id, .lock), locking) :: middle ++
      ((id, .unlock false), unlocking) :: later =
      past ++ [((id, .lock), locking)] ++
        (middle ++ ((id, .unlock false), unlocking) :: later) := by
    simp
  have line : OrdinaryLine (before.world.threads id).text :=
    ordinary past (id, .lock) locking before locked ⟨_, whole.symm⟩ pastRun lockStep rfl
  have unset := (run_unflagged pastRun (by
    rw [OrdinaryLines, List.append_assoc] at ordinary
    exact ordinary.earlier) id).unset
  have begins := InTurn.start (run_guarded (ideal_run pastRun)) lockStep
  rw [unset] at begins
  have meaningful : operationOf (before.world.threads id).text ≠ none := by
    rw [operationOf_eq_write.mpr ⟨rfl, line.1⟩]
    exact Option.some_ne_none _
  have turn := run_inTurn meaningful begins middleRun works
  have ended : (ending.world.threads id).pc = .unlock false :=
    (Thread.step_eq_some_iff.mp (own_step unlockStep).1).1
  have fits := small _ ending (List.prefix_append _ _) earlier
  obtain ⟨wrote, answer, descriptor, opens⟩ :=
    turn.finished (run_commands pastRun) ended line fits
  refine ⟨(before.world.threads id).text, descriptor, line, ?_, wrote, opens, ?_, answer, ?_, ?_⟩
  · intro other otherRun
    rw [otherRun.state_unique pastRun]
  · rw [linesOf_append, linesOf_append, linesOf_cons, linesOf_cons, wrote]
    simp [appended]
  · rw [answer]
    exact suffix_recentContent initial (linesOf past) _
  · intro first rest now cut nowRun
    subst cut
    obtain ⟨state, firstRun, _⟩ := middleRun.split
    have same : now = state := nowRun.state_unique
      (pastRun.append ((Machine.Run.single lockStep).append firstRun))
    subst same
    have during := run_inTurn meaningful begins firstRun
      fun step member => works step (List.mem_append_left _ member)
    obtain ⟨nobody, own⟩ := during.owns_fd opens
    refine ⟨nobody, own, ?_⟩
    intro some
    rw [linesOf_append] at wrote
    have lines : linesOf (past ++ ((id, .lock), locking) :: first) =
        linesOf past ++ [(before.world.threads id).text] := by
      rw [linesOf_append, linesOf_cons, eq_singleton_of_append wrote some]
      rfl
    rw [IdealDevice.content, run_commands nowRun, lines, answer]
    rfl

end Order

/-- A handler gets its line while another one is in its turn, and waits for the lock. -/
def beforeSecond : List (Nat × Event) :=
  [(0, .callocRecv true), (1, .callocRecv true), (0, .checkExit false), (1, .checkExit false),
   (0, .recv (some [97, newline])), (0, .lock), (1, .recv (some [98, newline])),
   (0, .openDevice (some 3)), (0, .write (some 2)), (0, .lseekEnd 2), (0, .lseekSet 0),
   (0, .callocSend true), (0, .read (some [97, newline])), (0, .send (some 2)),
   (0, .read (some [])), (0, .close false), (0, .unlock false)]

def secondTurn : List (Nat × Event) :=
  [(1, .openDevice (some 4)), (1, .write (some 2)), (0, .callocRecv true), (1, .lseekEnd 4),
   (1, .lseekSet 0), (1, .callocSend true), (0, .checkExit false),
   (1, .read (some [97, newline, 98, newline])), (1, .send (some 4)), (1, .read (some [])),
   (1, .close false)]

def bothTurns : List (Nat × Event) :=
  beforeSecond ++ (1, .lock) :: secondTurn ++ [(1, .unlock false)]

theorem secondTurn_order : ∃ trace state,
    (ideal .recent).exec (.start []) bothTurns = some (trace, state) ∧
      sentBy 1 ((trace.drop 18).take 11) = recentContent [] [[97, newline], [98, newline]] := by
  have runs : (((ideal .recent).exec (.start []) bothTurns).any fun result =>
      (result.1 == result.1.take 17 ++ ((1, .lock), .lock) :: (result.1.drop 18).take 11 ++
        ((1, .unlock false), .unlock) :: []) &&
      ((result.1.drop 18).take 11).all (fun step =>
        decide (step.1.1 = 1 → step.1.2.failed = false ∧ step.1.2 ≠ .unlock false)) &&
      (linesOf (result.1.take 17) == [[97, newline]]) &&
      (linesOf ((result.1.drop 18).take 11) == [[98, newline]])) = true := by decide
  obtain ⟨⟨trace, state⟩, computed, facts⟩ := (Option.any_eq_true _ _).mp runs
  simp only [Bool.and_eq_true, List.all_eq_true, beq_iff_eq, decide_eq_true_eq] at facts
  obtain ⟨⟨⟨whole, works⟩, earlier⟩, own⟩ := facts
  have run := Machine.Run.of_exec computed
  have ordinary := Machine.eachStep_of_every (fun before input _ =>
    decide (input.2 = .lock → OrdinaryLine (before.world.threads input.1).text)) computed (by decide)
  have small := Machine.eachStep_of_every (fun _ _ after =>
    decide (after.device.content.length < 2 ^ 31)) computed (by decide)
  simp only [decide_eq_true_eq] at ordinary small
  obtain ⟨line, _, _, _, wrote, _, _, answer, _⟩ := @replies_follow_one_order [] state trace _ _ [] 1
    .lock .unlock run whole ordinary (run.along_of_eachStep (by decide) small) works
  obtain rfl := List.singleton_inj.mp (own.symm.trans wrote)
  exact ⟨trace, state, computed, answer.trans (by rw [earlier]; rfl)⟩

end Aesd.Server
