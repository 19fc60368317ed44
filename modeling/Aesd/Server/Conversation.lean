import Mathlib.Data.Prod.Lex
import Aesd.Library.Progress
import Aesd.Server.Requests

namespace Aesd.Server

open Aesd.Library Aesd.Driver

/-- The server with what its one client has seen: the messages taken up, and the bytes
sent since the last lock. -/
structure Conversation where
  server : IdealWorld
  messages : List (List Byte)
  reply : List Byte

namespace Conversation

def start (commands : List (List Byte)) : Conversation := ⟨.start commands, [], []⟩

def thread (state : Conversation) : Thread := state.server.world.threads 0

def text (state : Conversation) : List Byte := state.thread.text

def commands (state : Conversation) : List (List Byte) := state.server.device.commands

/-- The commands once the message in the buffer is performed. -/
def stored (state : Conversation) : List (List Byte) :=
  if isSeek state.text then state.commands else state.commands ++ [state.text]

def messagesAfter (state : Conversation) : Event → List (List Byte)
  | .openDevice _ => state.messages ++ [state.text]
  | _ => state.messages

def replyAfter (state : Conversation) (call : Syscall) : Event → List Byte
  | .lock => []
  | event => state.reply ++ delivered event call

/-- A call that does not fail. -/
def step (state : Conversation) (event : Event) : Option (Syscall × Conversation) :=
  if event.failed then none
  else match (ideal .all).step state.server (0, event) with
    | none => none
    | some (call, server) =>
      some (call, ⟨server, state.messagesAfter event, state.replyAfter call event⟩)

end Conversation

def conversation : Machine Conversation Event Syscall where
  step := Conversation.step

theorem conversation_step {state after : Conversation} {event : Event} {call : Syscall}
    (taken : conversation.step state event = some (call, after)) :
    event.failed = false ∧
      (ideal .all).step state.server (0, event) = some (call, after.server) ∧
      after.messages = state.messagesAfter event ∧ after.reply = state.replyAfter call event := by
  simp only [conversation, Conversation.step] at taken
  split at taken
  · cases taken
  · rename_i works
    split at taken
    · cases taken
    · rename_i asked server stepped
      cases taken
      exact ⟨Bool.eq_false_iff.mpr works, stepped, rfl, rfl⟩

theorem talk_step {state after : Conversation} {event : Event} {call : Syscall}
    (taken : conversation.step state event = some (call, after)) :
    state.thread.step event = some (call, after.thread) ∧
      state.server.device.answer .all state.server.world.fd call event =
        some after.server.device ∧
      after.server.world.fd = event.globalFd state.server.world.fd :=
  own_step (conversation_step taken).2.1

theorem dispatch_flag (thread : Thread) :
    thread.dispatch.ioctlCmdRecv = (thread.ioctlCmdRecv || [thread.text].any isSeek) := by
  unfold Thread.dispatch
  cases seeks : kIOCtrlStr.isPrefixOf thread.text with
  | true =>
    have found : [thread.text].any isSeek = true := by simp [isSeek, seeks]
    rw [if_pos rfl, found, Bool.or_true]
    split <;> rfl
  | false =>
    have absent : [thread.text].any isSeek = false := by simp [isSeek, seeks]
    rw [if_neg Bool.false_ne_true, absent, Bool.or_false]

/-- The flag remembers every seek of the conversation. -/
theorem run_flag {commands : List (List Byte)} {trace : List (Event × Syscall)}
    {state : Conversation} (run : conversation.Run (.start commands) trace state) :
    state.thread.ioctlCmdRecv = state.messages.any isSeek := by
  refine run.invariant (fun state => state.thread.ioctlCmdRecv = state.messages.any isSeek) rfl ?_
  intro state event call after known taken
  obtain ⟨_, _, resumed⟩ := Thread.step_eq_some_iff.mp (talk_step taken).1
  rw [(conversation_step taken).2.2.1]
  cases event with
  | openDevice result =>
    have moved : after.thread = state.thread.dispatch := (Option.some.inj resumed).symm
    rw [Conversation.messagesAfter, List.any_append, ← known, moved]
    exact dispatch_flag state.thread
  | _ => exact (resume_ioctlCmdRecv resumed nofun).trans known

theorem run_conversation_guarded {commands : List (List Byte)} {trace : List (Event × Syscall)}
    {state : Conversation} (run : conversation.Run (.start commands) trace state) :
    Guarded state.server.world := by
  refine run.invariant (fun state => Guarded state.server.world) guarded_start ?_
  intro state event call after guarded taken
  exact guarded.step (ideal_step (conversation_step taken).2.1).1

/-- A turn of the conversation, as long as it lasts. -/
structure Talking (payload : List Byte) (commands : List (List Byte)) (flag : Bool)
    (state : Conversation) : Prop where
  guarded : Guarded state.server.world
  running : state.server.world.crashed = false
  phase : ∃ written, Phase .all payload commands flag state.thread state.server.world.fd
    state.server.device written state.reply

section Turns

variable {payload : List Byte} {commands : List (List Byte)} {flag : Bool}
variable {state after : Conversation} {event : Event} {call : Syscall}

theorem Phase.not_crashed {retention : Retention} {thread : Thread} {fd : Option Nat}
    {device : IdealDevice} {written : List (List Byte)} {sent : List Byte}
    (phase : Phase retention payload commands flag thread fd device written sent) :
    (thread.pc == .crashed) = false := by
  cases phase with
  | opening pc | writing pc | seeking pc | asking pc | measuring pc | rewinding pc
  | allocating pc | reading pc | sending pc | closing pc | unlocking pc | leaving pc =>
    rw [pc]
    rfl

theorem crashed_step {world after : World} {id : Nat}
    (taken : world.step (id, event) = some (call, after)) :
    after.crashed = ((after.threads id).pc == .crashed) := by
  obtain ⟨thread, shared, _, _, rfl⟩ := World.step_cases taken
  simp

theorem Talking.start (guarded : Guarded state.server.world)
    (taken : conversation.step state .lock = some (call, after)) :
    Talking state.text state.commands state.thread.ioctlCmdRecv after := by
  obtain ⟨_, stepped, _, silent⟩ := conversation_step taken
  have begins := InTurn.start guarded stepped
  have phase := begins.phase
  refine ⟨begins.guarded, ?_, [], ?_⟩
  · rw [crashed_step (ideal_step stepped).1]
    exact phase.not_crashed
  · rw [silent]
    exact phase

theorem Talking.step (meaningful : operationOf payload ≠ none)
    (talking : Talking payload commands flag state)
    (taken : conversation.step state event = some (call, after)) (stays : event ≠ .unlock false) :
    Talking payload commands flag after := by
  obtain ⟨works, stepped, _, said⟩ := conversation_step taken
  obtain ⟨moved, answered, fd⟩ := talk_step taken
  obtain ⟨written, phase⟩ := talking.phase
  have next := phase.step meaningful moved answered works stays
  have waiting : state.thread.zone = event.pc.zone :=
    congrArg Pc.zone (Thread.step_eq_some_iff.mp moved).1
  have same : after.reply = state.reply ++ delivered event call := by
    have inside := phase.inside
    rw [said]
    cases event with
    | lock =>
      rw [waiting] at inside
      cases inside
    | _ => rfl
  refine ⟨talking.guarded.step (ideal_step stepped).1, ?_, written ++ appended event call, ?_⟩
  · rw [crashed_step (ideal_step stepped).1]
    exact next.not_crashed
  · rw [same, fd]
    exact next

theorem conversation_enabled (event : Event) (running : state.server.world.crashed = false)
    (works : event.failed = false) (waiting : state.thread.pc = event.pc)
    (resumed : (state.thread.resume event).isSome)
    (shares : (state.server.world.share 0 event).isSome)
    (answered : (state.server.device.answer .all state.server.world.fd state.thread.syscall
      event).isSome) :
    ∃ event call after, conversation.step state event = some (call, after) := by
  obtain ⟨next, moved⟩ := Option.isSome_iff_exists.mp resumed
  obtain ⟨shared, sharedSame⟩ := Option.isSome_iff_exists.mp shares
  obtain ⟨device, deviceSame⟩ := Option.isSome_iff_exists.mp answered
  have stepped : (state.server.world.threads 0).step event =
      some (state.thread.syscall, next) :=
    Thread.step_eq_some_iff.mpr ⟨waiting, rfl, moved⟩
  have enabled : (conversation.step state event).isSome := by
    simp [conversation, Conversation.step, works, ideal, IdealWorld.step, World.step, running,
      stepped, sharedSame, deviceSame]
  obtain ⟨⟨call, after⟩, taken⟩ := Option.isSome_iff_exists.mp enabled
  exact ⟨event, call, after, taken⟩

/-- The rest of the content behind the thread's position. -/
def Conversation.unread (state : Conversation) : List Byte :=
  match state.server.world.fd with
  | none => []
  | some descriptor =>
    state.server.device.content.drop ((state.server.device.position descriptor).getD 0)

theorem unread_eq {descriptor position : Nat} (opened : state.server.world.fd = some descriptor)
    (placed : state.server.device.position descriptor = some position) :
    state.unread = state.server.device.content.drop position := by
  rw [Conversation.unread, opened]
  simp only [placed, Option.getD_some]

variable {stored : List (List Byte)} {position : Nat}

theorem Working.content {retention : Retention} {thread : Thread} {device : IdealDevice}
    {start : Nat} (working : Working retention payload commands flag thread device start)
    (performed : outcome retention commands payload = some (stored, position)) :
    device.commands = stored ∧ start = if flag || isSeek payload then position else 0 := by
  obtain ⟨⟨after, found, chosen⟩, _⟩ := working
  rw [performed] at found
  cases found
  exact ⟨rfl, chosen⟩

theorem not_error {result : Int64} {length : Nat} (reported : result.toInt = length) :
    (result == -1) = false := by
  rw [beq_eq_false_iff_ne]
  rintro rfl
  have minus : (-1 : Int64).toInt = -1 := rfl
  omega

section Enabled

variable {descriptor position : Nat}

/-- The three seeks of a turn can be answered where an `lseek` can say the position. -/
theorem enabled_lseekCur (running : state.server.world.crashed = false)
    (pc : state.thread.pc = .lseekCur) (opened : state.server.world.fd = some descriptor)
    (placed : state.server.device.position descriptor = some position)
    (fits : position < 2 ^ 63) :
    ∃ event call after, conversation.step state event = some (call, after) := by
  have reported : (Int64.ofNat position).toInt = position := Int64.toInt_ofNat_of_lt fits
  have works : (Event.lseekCur (Int64.ofNat position)).failed = false := not_error reported
  apply conversation_enabled (.lseekCur (Int64.ofNat position)) running works pc rfl rfl
  rw [answer_succeed rfl works opened placed, Thread.syscall, pc]
  simp [IdealDevice.succeed, reported]

theorem enabled_lseekEnd (running : state.server.world.crashed = false)
    (pc : state.thread.pc = .lseekEnd) (opened : state.server.world.fd = some descriptor)
    (placed : state.server.device.position descriptor = some position)
    (fits : state.server.device.content.length < 2 ^ 63) :
    ∃ event call after, conversation.step state event = some (call, after) := by
  have reported : (Int64.ofNat state.server.device.content.length).toInt =
      state.server.device.content.length := Int64.toInt_ofNat_of_lt fits
  have works : (Event.lseekEnd (Int64.ofNat state.server.device.content.length)).failed = false :=
    not_error reported
  apply conversation_enabled (.lseekEnd (Int64.ofNat state.server.device.content.length)) running
    works pc rfl rfl
  rw [answer_succeed rfl works opened placed, Thread.syscall, pc, IdealDevice.succeed,
    if_pos reported]
  rfl

theorem enabled_lseekSet (running : state.server.world.crashed = false)
    (pc : state.thread.pc = .lseekSet) (opened : state.server.world.fd = some descriptor)
    (placed : state.server.device.position descriptor = some position) {start : Nat}
    (offset : state.thread.offset.toInt = start) :
    ∃ event call after, conversation.step state event = some (call, after) := by
  have works : (Event.lseekSet state.thread.offset).failed = false := not_error offset
  apply conversation_enabled (.lseekSet state.thread.offset) running works pc rfl rfl
  rw [answer_succeed rfl works opened placed, Thread.syscall, pc]
  simp [IdealDevice.succeed, offset]

theorem enabled_callocSend (running : state.server.world.crashed = false)
    (pc : state.thread.pc = .callocSend) (nonneg : 0 ≤ state.thread.bytesProcessed.toInt) :
    ∃ event call after, conversation.step state event = some (call, after) := by
  have size := sizeT_of_nonneg nonneg
  have bound := state.thread.bytesProcessed.toInt_lt
  have possible : sizeT state.thread.bytesProcessed < 2 ^ 63 := by omega
  apply conversation_enabled (.callocSend true) running rfl pc
  · rw [Thread.resume, if_pos possible]
    rfl
  · rfl
  · rw [Thread.syscall, pc]
    rfl

theorem enabled_read (running : state.server.world.crashed = false)
    (pc : state.thread.pc = .read) (opened : state.server.world.fd = some descriptor)
    (placed : state.server.device.position descriptor = some position) :
    ∃ event call after, conversation.step state event = some (call, after) := by
  let data := (state.server.device.content.drop position).take (sizeT state.thread.bytesProcessed)
  have short : data.length ≤ sizeT state.thread.bytesProcessed := List.length_take_le _ _
  have stops : data = [] → state.server.device.content.drop position = [] ∨
      sizeT state.thread.bytesProcessed = 0 := by
    intro empty
    rcases List.take_eq_nil_iff.mp empty with zero | exhausted
    · exact .inr zero
    · exact .inl exhausted
  have first : data.isPrefixOf (state.server.device.content.drop position) = true :=
    List.isPrefixOf_iff_prefix.mpr (List.take_prefix _ _)
  apply conversation_enabled (.read (some data)) running rfl pc
  · simp [Thread.resume, short]
  · rfl
  · rw [answer_succeed rfl rfl opened placed, Thread.syscall, pc, IdealDevice.succeed,
      if_pos ⟨first, short, stops⟩]
    rfl

theorem enabled_send (running : state.server.world.crashed = false)
    (pc : state.thread.pc = .send) :
    ∃ event call after, conversation.step state event = some (call, after) := by
  let data := (state.thread.bytesAt state.thread.sendBuffer).take state.thread.bytesRead.toInt.toNat
  have short : data.length ≤ state.thread.bytesRead.toInt.toNat := List.length_take_le _ _
  apply conversation_enabled (.send (some data.length)) running rfl pc
  · rw [Thread.resume, if_pos short]
    rfl
  · rfl
  · rw [Thread.syscall, pc]
    simp [IdealDevice.answer, Event.onDevice, data]

end Enabled

/-- A turn whose reply has a positive length is never stuck. -/
theorem Talking.enabled (talking : Talking payload commands flag state)
    (performed : outcome .all commands payload = some (stored, position))
    (inside : position ≤ stored.flatten.length) (fits : stored.flatten.length < 2 ^ 63)
    (positive : 0 < (stored.flatten.length : Int).bmod (2 ^ 32)) :
    ∃ event call after, conversation.step state event = some (call, after) := by
  obtain ⟨guarded, running, written, phase⟩ := talking
  have zoned := phase.inside
  cases phase with
  | opening pc =>
    have notOpened : state.server.world.zone 0 ≠ .opened := by
      intro opened
      cases (congrArg Pc.zone pc).symm.trans opened
    have empty := guarded.nothing_open zoned notOpened 0
    refine conversation_enabled (.openDevice (some 0)) running rfl pc rfl ?_ rfl
    simp [World.share, empty]
  | writing pc text isLine flagged opened placed =>
    refine conversation_enabled (.write (some payload.length)) running rfl pc ?_ rfl ?_
    · simp [Thread.resume, text]
    · rw [answer_succeed rfl rfl opened placed, Thread.syscall, pc, text]
      simp [IdealDevice.succeed]
  | seeking pc means flagged opened placed kept =>
    rw [outcome_seek means, Option.map_eq_some_iff] at performed
    obtain ⟨target, found, _⟩ := performed
    refine conversation_enabled (.ioctl true) running rfl pc rfl rfl ?_
    rw [answer_succeed rfl rfl opened placed, Thread.syscall, pc]
    simp [IdealDevice.succeed, kept, found]
  | asking pc done flagged isSet opened placed =>
    rw [performed] at done
    cases done
    exact enabled_lseekCur running pc opened placed (by omega)
  | measuring pc working offset opened placed =>
    apply enabled_lseekEnd running pc opened placed
    rw [IdealDevice.content, (working.content performed).1]
    exact fits
  | rewinding pc working measured offset opened placed =>
    exact enabled_lseekSet running pc opened placed offset
  | allocating pc working measured =>
    rw [Measured, IdealDevice.content, (working.content performed).1] at measured
    exact enabled_callocSend running pc (by omega)
  | reading pc working measured buffer opened placed =>
    exact enabled_read running pc opened placed
  | sending pc => exact enabled_send running pc
  | closing pc working measured opened =>
    refine conversation_enabled (.close false) running rfl pc rfl ?_ ?_
    · simp [World.share, opened]
    · rw [opened, Thread.syscall, pc]
      rfl
  | unlocking pc => exact conversation_enabled (.unlock false) running rfl pc rfl rfl rfl
  | leaving pc working measured refused =>
    rw [Measured, IdealDevice.content, (working.content performed).1] at measured
    omega

/-- How far a place is from the unlock; the two places of the reply loop share theirs. -/
def Pc.rank : Pc → Nat
  | .openDevice => 9
  | .ioctl | .write => 8
  | .lseekCur => 7
  | .lseekEnd => 6
  | .lseekSet => 5
  | .callocSend => 4
  | .read | .send => 3
  | .close _ => 2
  | .unlock _ => 1
  | _ => 0

def Event.transfers : Event → Bool
  | .read _ | .send _ => true
  | _ => false

/-- Outside the reply loop every call that works leads on. -/
theorem rank_resume {thread next : Thread} (inside : event.pc.zone.inside = true)
    (resumed : thread.resume event = some next) (works : event.failed = false)
    (stays : event ≠ .unlock false) (calm : event.transfers = false) :
    next.pc.rank < event.pc.rank := by
  cases Thread.resumes resumed with
  | openDevice =>
    have below : ∀ pc ∈ [Pc.crashed, .ioctl, .write], pc.rank ≤ 8 := by simp [Pc.rank]
    exact Nat.lt_succ_of_le (below _ (Thread.dispatch_pc thread))
  | ioctl | write =>
    have below : ∀ pc ∈ [Pc.lseekCur, .lseekEnd], pc.rank ≤ 7 := by simp [Pc.rank]
    exact Nat.lt_succ_of_le (below _ (Thread.chooseOffset_pc thread))
  | lseekCur => exact Nat.lt_succ_self 6
  | lseekEndFails => simp [Event.pc, Pc.rank]
  | lseekEnd => exact Nat.lt_succ_self 5
  | lseekSet => exact Nat.lt_succ_self 4
  | callocSend => exact Nat.lt_succ_self 3
  | close => exact Nat.lt_succ_self 1
  | unlock => exact absurd rfl stays
  | readEnds | read | send => cases calm
  | ioctlFails | writeFails | callocSendFails | readFails | sendFails | unlockFailed => cases works
  | _ => cases inside

theorem Phase.positioned {retention : Retention} {thread : Thread} {fd : Option Nat}
    {device : IdealDevice} {written : List (List Byte)} {sent : List Byte}
    (phase : Phase retention payload commands flag thread fd device written sent)
    (reading : thread.pc = .read) :
    ∃ descriptor position, fd = some descriptor ∧ device.position descriptor = some position := by
  cases phase with
  | reading pc working measured buffer opened placed => exact ⟨_, _, opened, placed⟩
  | opening pc | writing pc | seeking pc | asking pc | measuring pc | rewinding pc
  | allocating pc | sending pc | closing pc | unlocking pc | leaving pc =>
    cases pc.symm.trans reading

/-- The bytes still to be read, twice, and one more between a read and its send. -/
def Conversation.transfer (state : Conversation) : Nat :=
  2 * state.unread.length + if state.thread.pc = .send then 1 else 0

def Conversation.variant (state : Conversation) : Nat ×ₗ Nat :=
  toLex (state.thread.pc.rank, state.transfer)

/-- A `read` ends the loop or takes bytes off what is unread. -/
theorem read_descends {descriptor position : Nat} {data : List Byte}
    (opened : state.server.world.fd = some descriptor)
    (placed : state.server.device.position descriptor = some position)
    (taken : conversation.step state (.read (some data)) = some (call, after)) :
    after.thread.pc.rank < state.thread.pc.rank ∨
      after.thread.pc.rank = state.thread.pc.rank ∧ after.transfer < state.transfer := by
  obtain ⟨moved, answered, fd⟩ := talk_step taken
  obtain ⟨waiting, asked, resumed⟩ := Thread.step_eq_some_iff.mp moved
  simp only [Thread.resume, Option.ite_none_right_eq_some, Option.some.injEq] at resumed
  rw [Thread.syscall, waiting] at asked
  subst asked
  rw [answer_succeed rfl rfl opened placed] at answered
  obtain ⟨rest, _, same⟩ := succeed_read answered
  have before := unread_eq opened placed
  have now : after.unread = state.server.device.content.drop (position + data.length) := by
    rw [unread_eq (fd.trans opened) (same ▸ moveTo_position _ _ _), same, moveTo_content]
  have lengths := congrArg List.length rest
  rw [List.length_append, ← now, ← before] at lengths
  rw [waiting, ← resumed.2]
  dsimp only
  by_cases nothing : Int64.ofNat data.length = 0
  · left
    rw [if_pos nothing]
    exact Nat.lt_succ_self 2
  · right
    have some : data.length ≠ 0 := by
      intro empty
      rw [empty] at nothing
      exact nothing rfl
    have place : after.thread.pc = .send := by
      rw [← resumed.2]
      exact if_neg nothing
    have old : ¬ state.thread.pc = .send := by
      rw [waiting]
      exact Pc.noConfusion
    rw [Conversation.transfer, Conversation.transfer, if_pos place, if_neg old, if_neg nothing]
    exact ⟨rfl, by omega⟩

/-- A `send` brings the loop back to its `read`. -/
theorem send_descends {count : Nat}
    (taken : conversation.step state (.send (some count)) = some (call, after)) :
    after.thread.pc.rank = state.thread.pc.rank ∧ after.transfer < state.transfer := by
  obtain ⟨moved, answered, fd⟩ := talk_step taken
  obtain ⟨waiting, asked, resumed⟩ := Thread.step_eq_some_iff.mp moved
  simp only [Thread.resume, Option.ite_none_right_eq_some, Option.some.injEq] at resumed
  have kept : after.server.device = state.server.device := by
    rw [Thread.syscall, waiting] at asked
    exact answer_send (asked ▸ answered)
  have place : ¬ after.thread.pc = .send := by
    rw [← resumed.2]
    exact Pc.noConfusion
  have same : after.unread = state.unread := by
    rw [Conversation.unread, Conversation.unread, kept, fd]
    rfl
  have old : state.thread.pc = .send := waiting
  rw [Conversation.transfer, Conversation.transfer, if_neg place, if_pos old, same, old,
    ← resumed.2]
  exact ⟨rfl, Nat.lt_succ_self _⟩

theorem Talking.descends (talking : Talking payload commands flag state)
    (taken : conversation.step state event = some (call, after)) (stays : event ≠ .unlock false) :
    after.variant < state.variant := by
  obtain ⟨waiting, _, resumed⟩ := Thread.step_eq_some_iff.mp (talk_step taken).1
  obtain ⟨written, phase⟩ := talking.phase
  have works := (conversation_step taken).1
  have inside := phase.inside
  rw [Thread.zone, waiting] at inside
  rw [Conversation.variant, Conversation.variant, Prod.Lex.toLex_lt_toLex]
  by_cases calm : event.transfers = false
  · left
    have less := rank_resume inside resumed works stays calm
    rw [← waiting] at less
    exact less
  cases event with
  | read result =>
    cases result with
    | none => cases works
    | some data =>
      obtain ⟨descriptor, position, opened, placed⟩ := phase.positioned waiting
      exact read_descends opened placed taken
  | send result =>
    cases result with
    | none => cases works
    | some count => exact .inr (send_descends taken)
  | _ => exact absurd rfl calm

end Turns

end Aesd.Server
