import Aesd.Server.Conversation

namespace Aesd.Server

open Aesd.Library Aesd.Driver

theorem operationOf_of_outcome {retention : Retention} {payload : List Byte}
    {commands : List (List Byte)} {result : List (List Byte) × Nat}
    (performed : outcome retention commands payload = some result) : operationOf payload ≠ none := by
  intro meaningless
  rw [outcome, meaningless] at performed
  cases performed

section Answers

variable {before after : Conversation} {call : Syscall} {request : Request} {reply : List Byte}

/-- When the reply of a finished turn is the expected one. -/
theorem Phase.reply_iff {payload : List Byte} {commands : List (List Byte)} {flag : Bool}
    {thread : Thread} {fd : Option Nat} {device : IdealDevice} {written : List (List Byte)}
    {sent : List Byte}
    (phase : Phase .all payload commands flag thread fd device written sent)
    (ended : thread.pc = .unlock false) (spells : Spells payload request)
    (expected : request.reply commands = some reply) :
    sent = reply ↔ (flag = false ∨ isSeek payload = true) ∧
      0 < ((request.store commands).flatten.length : Int).bmod (2 ^ 32) := by
  obtain ⟨position, performed, inside, some, drop, atEnd⟩ := spells.meaning expected
  obtain ⟨start, working, measured, _, nonneg, answer⟩ := phase.finished ended
  obtain ⟨stored, chosen⟩ := working.content performed
  rw [Measured, IdealDevice.content, stored] at measured
  rw [IdealDevice.content, stored] at answer
  constructor
  · intro same
    rw [same] at answer
    have nonzero : ¬ thread.bytesProcessed.toInt = 0 := by
      intro zero
      rw [if_pos zero] at answer
      exact some answer
    refine ⟨?_, by omega⟩
    by_contra stale
    rw [not_or] at stale
    have isLine := Bool.eq_false_iff.mpr stale.2
    have flagged : flag = true := Bool.eq_true_of_not_eq_false stale.1
    rw [flagged, Bool.true_or, if_pos rfl, atEnd isLine] at chosen
    rw [if_neg nonzero, chosen, List.drop_length] at answer
    exact some answer
  · rintro ⟨fresh, positive⟩
    have nonzero : ¬ thread.bytesProcessed.toInt = 0 := by omega
    rw [if_neg nonzero, chosen] at answer
    rw [answer, drop]
    rcases fresh with unset | seeks
    · rw [unset, Bool.false_or]
    · rw [seeks, Bool.or_true]

theorem Spells.stored (spells : Spells before.text request) :
    before.stored = request.store before.commands := by
  generalize same : before.text = text at spells
  rw [Conversation.stored, same]
  cases spells with
  | line ordinary => rw [ordinary.1]; rfl
  | seek command offset => exact if_pos (isSeek_spelled _)

/-- A message is sure to be answered as expected exactly when no seek was received
before an ordinary line, and the length of the content is positive as an `int`. -/
theorem lock_answered_iff (guarded : Guarded before.server.world)
    (taken : conversation.step before .lock = some (call, after))
    (spells : Spells before.text request)
    (expected : request.reply before.commands = some reply)
    (fits : before.stored.flatten.length < 2 ^ 63) :
    conversation.Ensures (· = .unlock false) (fun state => state.reply = reply) after ↔
      (before.thread.ioctlCmdRecv = false ∨ isSeek before.text = true) ∧
        0 < (before.stored.flatten.length : Int).bmod (2 ^ 32) := by
  have stored := spells.stored
  obtain ⟨position, performed, inside, _⟩ := spells.meaning expected
  have meaningful := operationOf_of_outcome performed
  have talking := Talking.start guarded taken
  have finishes : ∀ state event call after,
      Talking before.text before.commands before.thread.ioctlCmdRecv state →
      conversation.step state event = some (call, after) → event = .unlock false →
      (after.reply = reply ↔ (before.thread.ioctlCmdRecv = false ∨ isSeek before.text = true) ∧
        0 < (before.stored.flatten.length : Int).bmod (2 ^ 32)) := by
    rintro state event call after talking taken rfl
    obtain ⟨_, phase⟩ := talking.phase
    have ended := (Thread.step_eq_some_iff.mp (talk_step taken).1).1
    have same : after.reply = state.reply :=
      (conversation_step taken).2.2.2.trans (List.append_nil _)
    rw [same, stored]
    exact phase.reply_iff ended spells expected
  constructor
  · intro ensured
    obtain ⟨state, event, call, last, still, taken, ended, answered⟩ := ensured.reached
      (Talking before.text before.commands before.thread.ioctlCmdRecv) talking
      fun _ _ _ _ talking taken stays => talking.step meaningful taken stays
    exact (finishes state event call last still taken ended).mp answered
  · intro fine
    refine Machine.Ensures.of_variant
      (Talking before.text before.commands before.thread.ioctlCmdRecv) Conversation.variant
      ?_ ?_ ?_ talking
    · intro state talking
      rw [stored] at fits fine
      exact talking.enabled performed inside fits fine.2
    · intro state event call after talking taken ended
      exact (finishes state event call after talking taken ended).mpr fine
    · intro state event call after talking taken stays
      exact ⟨talking.step meaningful taken stays, talking.descends taken stays⟩

end Answers

/-- The message in the buffer is a line or a seek to a byte that exists. -/
def Conversation.Askable (state : Conversation) : Prop :=
  ∃ request reply, Spells state.text request ∧ request.reply state.commands = some reply

/-- From its lock on, the message gets the reply the client expects, whatever else
happens: the turn is never stuck, comes to its unlock, and has sent that reply. -/
def Conversation.Answered (before after : Conversation) : Prop :=
  ∀ request reply, Spells before.text request → request.reply before.commands = some reply →
    conversation.Ensures (· = .unlock false) (fun state => state.reply = reply) after

/-- On an ideal device, the messages of a connection are answered as expected exactly
when no line follows a seek and the content is never longer than an `int` can tell. -/
theorem messages_answered_iff {initial : List (List Byte)} {trace : List (Event × Syscall)}
    (asked : conversation.EachStep (.start initial) trace fun before event _ _ =>
      event = .lock → before.Askable)
    (fits : conversation.EachStep (.start initial) trace fun before event _ _ =>
      event = .lock → before.stored.flatten.length < 2 ^ 63) :
    (conversation.EachStep (.start initial) trace fun before event _ after =>
        event = .lock → before.Answered after) ↔
      conversation.EachStep (.start initial) trace fun before event _ _ =>
        event = .lock →
          ((∀ earlier ∈ before.messages, isSeek earlier = false) ∨ isSeek before.text = true) ∧
            0 < (before.stored.flatten.length : Int).bmod (2 ^ 32) := by
  refine Machine.eachStep_congr ?_
  intro past event call before after inside passed taken
  refine forall_congr' fun locking => ?_
  subst locking
  have guarded := run_conversation_guarded passed
  have small := fits past _ call before after inside passed taken rfl
  have flag : before.thread.ioctlCmdRecv = false ↔
      ∀ earlier ∈ before.messages, isSeek earlier = false := by
    rw [run_flag passed, List.any_eq_false]
    simp
  rw [← flag]
  constructor
  · intro answered
    obtain ⟨request, reply, spells, expected⟩ :=
      asked past _ call before after inside passed taken rfl
    exact (lock_answered_iff guarded taken spells expected small).mp
      (answered request reply spells expected)
  · intro fine request reply spells expected
    exact (lock_answered_iff guarded taken spells expected small).mpr fine

/-- A line to an empty device, with its answer. -/
def firstLine : List Event :=
  [.callocRecv true, .checkExit false, .recv (some [97, newline]), .lock, .openDevice (some 3),
   .write (some 2), .lseekEnd 2, .lseekSet 0, .callocSend true, .read (some [97, newline]),
   .send (some 2), .read (some []), .close false, .unlock false]

def seekText : List Byte := kIOCtrlStr ++ ([48] ++ comma :: ([48] ++ [newline]))

def receiveSeek : List Event := [.callocRecv true, .checkExit false, .recv (some seekText)]

/-- The rest of the seek to the start, and the next line up to its lock. -/
def seekThenLine : List Event :=
  [.lock, .openDevice (some 3), .ioctl true, .lseekCur 0, .lseekEnd 2, .lseekSet 0,
   .callocSend true, .read (some [97, newline]), .send (some 2), .read (some []), .close false,
   .unlock false, .callocRecv true, .checkExit false, .recv (some [98, newline])]

theorem decimal_zero : Decimal [48] :=
  ⟨nofun, List.forall_mem_singleton.mpr rfl, by decide⟩

/-- The two lines, and the seek to the start of the first. -/
def askableHere (before : Conversation) (event : Event) (_ : Conversation) : Bool :=
  event != .lock ||
    ([([97, newline], []), (seekText, [[97, newline]]), ([98, newline], [[97, newline]])].contains
        (before.text, before.commands) && before.stored.flatten.length < 100)

theorem askable_of_askableHere {before after : Conversation} {event : Event}
    (tested : askableHere before event after = true) (locking : event = .lock) :
    before.Askable ∧ before.stored.flatten.length < 2 ^ 63 := by
  subst locking
  simp only [askableHere, bne_self_eq_false, Bool.false_or, Bool.and_eq_true, decide_eq_true_eq,
    List.contains_eq_mem, List.mem_cons, List.not_mem_nil, or_false, Prod.mk.injEq] at tested
  obtain ⟨known, small⟩ := tested
  refine ⟨?_, by omega⟩
  rcases known with ⟨text, commands⟩ | ⟨text, commands⟩ | ⟨text, commands⟩
  · exact ⟨.line [97, newline], _, by rw [text]; exact .line (by decide), rfl⟩
  · exact ⟨.seek 0 0, [97, newline], text ▸ .seek decimal_zero decimal_zero, commands ▸ rfl⟩
  · exact ⟨.line [98, newline], _, by rw [text]; exact .line (by decide), rfl⟩

theorem seekAfterLine_answered : ∃ trace state,
    conversation.exec (.start []) (firstLine ++ receiveSeek ++ [.lock]) = some (trace, state) ∧
      conversation.EachStep (.start []) trace fun before event _ after =>
        event = .lock → before.Answered after := by
  have runs : (conversation.exec (.start []) (firstLine ++ receiveSeek ++ [.lock])).isSome := by
    decide +kernel
  obtain ⟨⟨trace, state⟩, computed⟩ := Option.isSome_iff_exists.mp runs
  have askable := Machine.eachStep_of_every askableHere computed (by decide +kernel)
  have fine := Machine.eachStep_of_every (fun before event _ => decide (event = .lock →
    ((∀ earlier ∈ before.messages, isSeek earlier = false) ∨ isSeek before.text = true) ∧
      0 < (before.stored.flatten.length : Int).bmod (2 ^ 32))) computed (by decide +kernel)
  simp only [decide_eq_true_eq] at fine
  refine ⟨trace, state, computed, (messages_answered_iff ?_ ?_).mpr fine⟩
  · intro past event call before after inside passed taken locking
    exact (askable_of_askableHere (askable past event call before after inside passed taken)
      locking).1
  · intro past event call before after inside passed taken locking
    exact (askable_of_askableHere (askable past event call before after inside passed taken)
      locking).2

/-- The turn of the second line up to its unlock. -/
def secondLine : List Event :=
  [.openDevice (some 3), .write (some 2), .lseekCur 4, .lseekEnd 4, .lseekSet 4, .callocSend true,
   .read (some []), .close false]

/-- After a seek the reply to a line starts behind the line: nothing is sent. -/
theorem lineAfterSeek_unanswered :
    ¬ ∀ initial trace state, conversation.Run (.start initial) trace state →
      (conversation.EachStep (.start initial) trace fun before event _ _ =>
        event = .lock → before.Askable ∧ before.stored.flatten.length < 2 ^ 63) →
      conversation.EachStep (.start initial) trace fun before event _ after =>
        event = .lock → before.Answered after := by
  intro always
  have runs : ((conversation.exec (.start []) (firstLine ++ receiveSeek ++ seekThenLine)).any
      fun earlier => (conversation.step earlier.2 .lock).any fun locked =>
        (conversation.exec locked.2 secondLine).any fun turn =>
          (conversation.step turn.2 (.unlock false)).any fun done =>
            askableHere earlier.2 .lock locked.2 && (earlier.2.text == [98, newline]) &&
              (earlier.2.commands == [[97, newline]]) && (done.2.reply == []) &&
                turn.1.all (·.1 != .unlock false)) = true := by decide +kernel
  obtain ⟨⟨trace, before⟩, computed, runs⟩ := (Option.any_eq_true _ _).mp runs
  obtain ⟨⟨locking, after⟩, locked, runs⟩ := (Option.any_eq_true _ _).mp runs
  obtain ⟨⟨turn, ending⟩, finished, runs⟩ := (Option.any_eq_true _ _).mp runs
  obtain ⟨⟨unlocking, last⟩, unlocked, facts⟩ := (Option.any_eq_true _ _).mp runs
  simp only [Bool.and_eq_true, List.all_eq_true, beq_iff_eq, bne_iff_ne] at facts
  obtain ⟨⟨⟨⟨lastAskable, text⟩, commands⟩, empty⟩, goesOn⟩ := facts
  have run := Machine.Run.of_exec computed
  have askable := (Machine.eachStep_append_singleton run locked).mpr
    ⟨Machine.eachStep_of_every askableHere computed (by decide +kernel), lastAskable⟩
  have answered := always [] _ after (run.next locked) fun past event call before after inside
    passed taken locking =>
      askable_of_askableHere (askable past event call before after inside passed taken) locking
  have expected := ((Machine.eachStep_append_singleton run locked).mp answered).2 rfl
    (.line [98, newline]) _ (by rw [text]; exact .line (by decide)) rfl
  have replied := expected.run goesOn (Machine.Run.of_exec finished) unlocked rfl
  rw [empty, commands] at replied
  cases replied

end Aesd.Server
