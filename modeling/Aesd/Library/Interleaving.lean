import Aesd.Library.Programs
import Mathlib.Logic.Function.Basic

/-! Threads that run calls as programs over one shared state and one lock, and the
one order in which such calls take effect. -/
namespace Aesd.Library

universe u v w x

/-- The shared state, the thread in the section, and what each thread has left to do. -/
structure Threads (Thread : Type u) (State : Type v) (Call : Type w) (Reply : Type x) where
  shared : State
  holder : Option Thread
  running : Thread → Option (Call × Program State Reply)

/-- What can be said of a call: it was made, it took effect, it was answered. -/
inductive Moment (Thread : Type u) (Call : Type v) (Reply : Type w) where
  | invoked (thread : Thread) (call : Call)
  | effect (thread : Thread) (call : Call) (reply : Reply)
  | returned (thread : Thread) (reply : Reply)

namespace Moment

variable {Thread : Type u} {Call : Type v} {Reply : Type w}

def thread : Moment Thread Call Reply → Thread
  | .invoked thread _ => thread
  | .effect thread _ _ => thread
  | .returned thread _ => thread

/-- Callers see when they call and when they are answered. -/
def isSeen : Moment Thread Call Reply → Bool
  | .invoked _ _ => true
  | .effect _ _ _ => false
  | .returned _ _ => true

def taken : Moment Thread Call Reply → Option (Call × Reply)
  | .effect _ call reply => some (call, reply)
  | .invoked _ _ => none
  | .returned _ _ => none

end Moment

/-- What a thread has of its present call. -/
inductive Stage (Call : Type u) (Reply : Type v) where
  | idle
  | asked (call : Call)
  | decided (reply : Reply)

/-- In the part of the history that belongs to `thread`, each call is made, takes
effect once and is answered with what the effect gave, one call after the other. -/
inductive Serves {Thread : Type u} {Call : Type v} {Reply : Type w} (thread : Thread) :
    List (Moment Thread Call Reply) → Stage Call Reply → Prop where
  | start : Serves thread [] .idle
  | invoked {history : List (Moment Thread Call Reply)} (call : Call)
      (earlier : Serves thread history .idle) :
      Serves thread (history ++ [.invoked thread call]) (.asked call)
  | effect {history : List (Moment Thread Call Reply)} {call : Call} (reply : Reply)
      (earlier : Serves thread history (.asked call)) :
      Serves thread (history ++ [.effect thread call reply]) (.decided reply)
  | returned {history : List (Moment Thread Call Reply)} {reply : Reply}
      (earlier : Serves thread history (.decided reply)) :
      Serves thread (history ++ [.returned thread reply]) .idle
  | other {history : List (Moment Thread Call Reply)} {stage : Stage Call Reply}
      (moment : Moment Thread Call Reply) (elsewhere : moment.thread ≠ thread)
      (earlier : Serves thread history stage) : Serves thread (history ++ [moment]) stage

/-- What took effect is answered by and by. -/
theorem Serves.answered {Thread : Type u} {Call : Type v} {Reply : Type w} {thread : Thread}
    {history : List (Moment Thread Call Reply)} {stage : Stage Call Reply} {call : Call}
    {reply : Reply} (serves : Serves thread history stage)
    (happened : .effect thread call reply ∈ history) :
    .returned thread reply ∈ history ∨ stage = .decided reply := by
  induction serves with
  | start => cases happened
  | invoked other _ ih =>
    rcases List.mem_append.mp happened with before | last
    · rcases ih before with answered | decided
      · exact .inl (List.mem_append_left _ answered)
      · cases decided
    · cases List.mem_singleton.mp last
  | effect other _ ih =>
    rcases List.mem_append.mp happened with before | last
    · rcases ih before with answered | decided
      · exact .inl (List.mem_append_left _ answered)
      · cases decided
    · cases List.mem_singleton.mp last
      exact .inr rfl
  | returned _ ih =>
    rcases List.mem_append.mp happened with before | last
    · rcases ih before with answered | decided
      · exact .inl (List.mem_append_left _ answered)
      · cases decided
        exact .inl (List.mem_append_right _ (List.mem_singleton_self _))
    · cases List.mem_singleton.mp last
  | other moment elsewhere _ ih =>
    rcases List.mem_append.mp happened with before | last
    · exact (ih before).imp_left (List.mem_append_left _)
    · rw [← List.mem_singleton.mp last] at elsewhere
      exact absurd rfl elsewhere

section Model

variable {Thread : Type u} {State : Type v} {Call : Type w} {Reply : Type x}

namespace Threads

/-- Everybody at rest. -/
def start (shared : State) : Threads Thread State Call Reply := ⟨shared, none, fun _ => none⟩

/-- The thread goes on with a program on a shared state. -/
def goOn [DecidableEq Thread] (threads : Threads Thread State Call Reply) (thread : Thread) (call : Call)
    (shared : State) (program : Program State Reply) : Threads Thread State Call Reply :=
  { threads with
    shared
    running := Function.update threads.running thread (some (call, program)) }

/-- The next step of the thread is an action on the shared state. -/
def acting (threads : Threads Thread State Call Reply) (thread : Thread) : Bool :=
  match threads.running thread with
  | some (_, .act _ _) => true
  | _ => false

/-- Its next step is one that changes nothing and on which nothing depends. -/
def silent (threads : Threads Thread State Call Reply) (thread : Thread) : Prop :=
  ∃ call program, threads.running thread = some (call, program) ∧ program.Silent

/-- It takes the lock on the way. -/
def enter [DecidableEq Thread] (threads : Threads Thread State Call Reply) (thread : Thread)
    (call : Call) (shared : State) (program : Program State Reply) :
    Threads Thread State Call Reply :=
  { threads.goOn thread call shared program with holder := some thread }

/-- It gives the lock back on the way. -/
def leave [DecidableEq Thread] (threads : Threads Thread State Call Reply) (thread : Thread)
    (call : Call) (shared : State) (program : Program State Reply) :
    Threads Thread State Call Reply :=
  { threads.goOn thread call shared program with holder := none }

/-- It answers and is at rest again. -/
def rest [DecidableEq Thread] (threads : Threads Thread State Call Reply) (thread : Thread) :
    Threads Thread State Call Reply :=
  { threads with running := Function.update threads.running thread none }

/-- Let one thread make a call, or do the next step of the one it is in. A thread
whose next step is to acquire the lock waits while another one holds it. -/
def step [DecidableEq Thread] (code : Call → Program State Reply) (threads : Threads Thread State Call Reply)
    (thread : Thread) (made : Option Call) :
    Option (Option Reply × Threads Thread State Call Reply) :=
  match made, threads.running thread with
  | some call, none => some (none, threads.goOn thread call threads.shared (code call))
  | some _, some _ => none
  | none, none => none
  | none, some (call, .act effect next) =>
    some (none, threads.goOn thread call (effect threads.shared) (next threads.shared))
  | none, some (call, .acquire effect next) =>
    if threads.holder.isNone then
      some (none, threads.enter thread call (effect threads.shared) next)
    else none
  | none, some (call, .release effect next) =>
    some (none, threads.leave thread call (effect threads.shared) next)
  | none, some (_, .done reply) => some (some reply, threads.rest thread)

end Threads

/-- The scheduler names the thread, and the call when the thread makes one. -/
def interleaved (Thread : Type u) [DecidableEq Thread] (code : Call → Program State Reply) :
    Machine (Threads Thread State Call Reply) (Thread × Option Call) (Option Reply) where
  step threads move := threads.step code move.1 move.2

/-- The same calls, one whole call after the other. -/
def serial (code : Call → Program State Reply) : Machine State Call Reply where
  step state call := some ((code call).run state)

/-- What the callers see of one step. -/
def seenOf (step : (Thread × Option Call) × Option Reply) : List (Moment Thread Call Reply) :=
  match step with
  | ((thread, some call), _) => [.invoked thread call]
  | ((thread, none), some reply) => [.returned thread reply]
  | ((_, none), none) => []

/-- The history explains what the callers saw: with the effects left out it is what
they saw, each effect lies between its call and its answer, and the effects in
their order are a run of `machine`. -/
structure Linearizes (machine : Machine State Call Reply) (first last : State)
    (seen history : List (Moment Thread Call Reply)) : Prop where
  seen : history.filter Moment.isSeen = seen
  serves : ∀ thread, ∃ stage, Serves thread history stage
  effects : machine.Run first (history.filterMap Moment.taken) last

/-- Where a thread is in its call. Ahead of the section what is left leads wherever the
whole call does; the holder's remaining program leads from the present state to where
the whole call leads from the settled one. -/
inductive Placed (code : Call → Program State Reply) (rules : Call → SectionRules State)
    (threads : Threads Thread State Call Reply) (settled : State) (thread : Thread) :
    Stage Call Reply → Prop where
  | idle (rest : threads.running thread = none) (outside : threads.holder ≠ some thread) :
      Placed code rules threads settled thread .idle
  | waiting {call : Call} {program : Program State Reply}
      (runs : threads.running thread = some (call, program))
      (outside : threads.holder ≠ some thread) (whole : program.Sectioned (rules call))
      (same : ∀ state, program.run state = (code call).run state) :
      Placed code rules threads settled thread (.asked call)
  | inside {call : Call} {program : Program State Reply}
      (runs : threads.running thread = some (call, program))
      (holds : threads.holder = some thread) (within : program.Inside (rules call))
      (same : program.run threads.shared = (code call).run settled) :
      Placed code rules threads settled thread (.asked call)
  | decided {call : Call} {reply : Reply}
      (runs : threads.running thread = some (call, .done reply))
      (outside : threads.holder ≠ some thread) :
      Placed code rules threads settled thread (.decided reply)

/-- The invariant of an interleaved run: a history with a settled state behind its
effects, which is the shared state unless a thread is in the section. -/
structure Explained (code : Call → Program State Reply) (rules : Call → SectionRules State)
    (first : State)
    (trace : List ((Thread × Option Call) × Option Reply))
    (threads : Threads Thread State Call Reply) (history : List (Moment Thread Call Reply))
    (settled : State) : Prop where
  seen : history.filter Moment.isSeen = trace.flatMap seenOf
  effects : (serial code).Run first (history.filterMap Moment.taken) settled
  free : threads.holder = none → threads.shared = settled
  placed : ∀ thread, ∃ stage, Serves thread history stage ∧
    Placed code rules threads settled thread stage

namespace Placed

variable {code : Call → Program State Reply} {rules : Call → SectionRules State}
variable {threads after : Threads Thread State Call Reply}
variable {settled next : State} {thread : Thread} {stage : Stage Call Reply}

theorem outside_step (placed : Placed code rules threads settled thread stage)
    (unmoved : after.running thread = threads.running thread)
    (before : threads.holder ≠ some thread) (later : after.holder ≠ some thread) :
    Placed code rules after next thread stage := by
  cases placed with
  | idle rest outside => exact .idle (unmoved.trans rest) later
  | waiting runs outside whole same => exact .waiting (unmoved.trans runs) later whole same
  | inside runs holds within same => exact absurd holds before
  | decided runs outside => exact .decided (unmoved.trans runs) later

theorem quiet_step (placed : Placed code rules threads settled thread stage)
    (unmoved : after.running thread = threads.running thread)
    (shared : after.shared = threads.shared) (holder : after.holder = threads.holder) :
    Placed code rules after settled thread stage := by
  cases placed with
  | idle rest outside => exact .idle (unmoved.trans rest) (holder ▸ outside)
  | waiting runs outside whole same =>
    exact .waiting (unmoved.trans runs) (holder ▸ outside) whole same
  | inside runs holds within same =>
    exact .inside (unmoved.trans runs) (holder.trans holds) within (shared ▸ same)
  | decided runs outside => exact .decided (unmoved.trans runs) (holder ▸ outside)

end Placed

section Steps

variable {code : Call → Program State Reply} {rules : Call → SectionRules State}
variable {first settled : State}
variable {trace : List ((Thread × Option Call) × Option Reply)}
variable {threads after : Threads Thread State Call Reply}
variable {history : List (Moment Thread Call Reply)} {thread : Thread} {call : Call} {reply : Reply}

theorem explained_start (code : Call → Program State Reply) (rules : Call → SectionRules State)
    (first : State) :
    Explained code rules first [] (Threads.start first : Threads Thread State Call Reply) [] first where
  seen := rfl
  effects := .start
  free := fun _ => rfl
  placed := fun _ => ⟨.idle, .start, .idle rfl (by rintro ⟨⟩)⟩

namespace Explained

theorem linearizes (known : Explained code rules first trace threads history settled) :
    Linearizes (serial code) first settled (trace.flatMap seenOf) history where
  seen := known.seen
  serves := by
    intro thread
    obtain ⟨stage, serves, _⟩ := known.placed thread
    exact ⟨stage, serves⟩
  effects := known.effects

theorem whole_of_outside (known : Explained code rules first trace threads history settled)
    {program : Program State Reply} (outside : threads.holder ≠ some thread)
    (runs : threads.running thread = some (call, program)) : program.Sectioned (rules call) := by
  obtain ⟨stage, _, placed⟩ := known.placed thread
  cases placed with
  | idle rest _ => cases rest.symm.trans runs
  | waiting waits _ whole _ =>
    cases runs.symm.trans waits
    exact whole
  | inside _ holds _ _ => exact absurd holds outside
  | decided ends _ =>
    cases runs.symm.trans ends
    trivial

/-- Only the holder is about to do anything to the shared state, or to learn from it. -/
theorem holder_of_acting (known : Explained code rules first trace threads history settled)
    (acts : threads.acting thread = true) :
    threads.holder = some thread ∨ threads.silent thread := by
  unfold Threads.acting at acts
  split at acts
  · rename_i runs
    by_cases outside : threads.holder = some thread
    · exact .inl outside
    · exact .inr ⟨_, _, runs, (known.whole_of_outside outside runs).1⟩
  · cases acts

theorem free_of_rest (known : Explained code rules first trace threads history settled)
    (rest : ∀ thread, threads.running thread = none) : threads.holder = none := by
  cases held : threads.holder with
  | none => rfl
  | some thread =>
    obtain ⟨stage, _, placed⟩ := known.placed thread
    cases placed with
    | idle _ outside => exact absurd held outside
    | waiting runs _ _ _ => cases (rest thread).symm.trans runs
    | inside runs _ _ _ => cases (rest thread).symm.trans runs
    | decided runs _ => cases (rest thread).symm.trans runs

theorem answered (known : Explained code rules first trace threads history settled)
    (rest : ∀ thread, threads.running thread = none) {step : Call × Reply}
    (happened : step ∈ history.filterMap Moment.taken) : ∃ move, (move, some step.2) ∈ trace := by
  obtain ⟨moment, member, taken⟩ := List.mem_filterMap.mp happened
  cases moment with
  | invoked thread call => cases taken
  | returned thread reply => cases taken
  | effect thread call reply =>
    cases taken
    obtain ⟨stage, serves, placed⟩ := known.placed thread
    rcases serves.answered member with answered | decided
    · have seen : Moment.returned thread reply ∈ trace.flatMap seenOf :=
        known.seen ▸ List.mem_filter.mpr ⟨answered, rfl⟩
      obtain ⟨⟨⟨other, made⟩, output⟩, inTrace, shown⟩ := List.mem_flatMap.mp seen
      cases made with
      | some call => cases List.mem_singleton.mp shown
      | none =>
        cases output with
        | none => cases shown
        | some reply =>
          cases List.mem_singleton.mp shown
          exact ⟨_, inTrace⟩
    · subst decided
      cases placed with
      | decided runs _ => cases (rest thread).symm.trans runs

/-- A thread with steps left is the holder, or has its section ahead of it. -/
theorem holder_or_waiting (known : Explained code rules first trace threads history settled)
    {program : Program State Reply} (runs : threads.running thread = some (call, program))
    (unfinished : ∀ reply, program ≠ .done reply) :
    (threads.holder ≠ some thread ∧ program.Sectioned (rules call) ∧
        Serves thread history (.asked call) ∧
        ∀ state, program.run state = (code call).run state) ∨
      (threads.holder = some thread ∧ program.Inside (rules call) ∧
        Serves thread history (.asked call) ∧
        program.run threads.shared = (code call).run settled) := by
  obtain ⟨stage, serves, placed⟩ := known.placed thread
  cases placed with
  | idle rest _ => cases rest.symm.trans runs
  | waiting waits outside whole same =>
    cases runs.symm.trans waits
    exact .inl ⟨outside, whole, serves, same⟩
  | inside enters holds within same =>
    cases runs.symm.trans enters
    exact .inr ⟨holds, within, serves, same⟩
  | decided ends _ =>
    cases runs.symm.trans ends
    exact absurd rfl (unfinished _)

theorem unseen (known : Explained code rules first trace threads history settled)
    (free : after.holder = none → after.shared = settled)
    (placed : ∀ other stage, Serves other history stage →
      Placed code rules threads settled other stage →
        ∃ next, Serves other history next ∧ Placed code rules after settled other next) :
    Explained code rules first (trace ++ [((thread, none), none)]) after history settled where
  seen := by
    rw [known.seen, List.flatMap_append]
    exact (List.append_nil _).symm
  effects := known.effects
  free := free
  placed := by
    intro other
    obtain ⟨stage, serves, sits⟩ := known.placed other
    exact placed other stage serves sits

section Moves

variable [DecidableEq Thread]

theorem invoke (known : Explained code rules first trace threads history settled)
    (disciplined : (code call).Sectioned (rules call)) (rest : threads.running thread = none) :
    Explained code rules first (trace ++ [((thread, some call), none)])
      (threads.goOn thread call threads.shared (code call)) (history ++ [.invoked thread call])
      settled where
  seen := by
    rw [List.filter_append, known.seen, List.flatMap_append]
    rfl
  effects := by
    rw [List.filterMap_append]
    exact (List.append_nil _).symm ▸ known.effects
  free := known.free
  placed := by
    intro other
    obtain ⟨stage, serves, placed⟩ := known.placed other
    by_cases mine : other = thread
    · subst mine
      cases placed with
      | idle _ outside =>
        exact ⟨_, serves.invoked call,
          .waiting (Function.update_self ..) outside disciplined fun _ => rfl⟩
      | waiting runs _ _ _ => cases rest.symm.trans runs
      | inside runs _ _ _ => cases rest.symm.trans runs
      | decided runs _ => cases rest.symm.trans runs
    · exact ⟨stage, serves.other _ (Ne.symm mine),
        placed.quiet_step (Function.update_of_ne mine _ _) rfl rfl⟩

/-- Ahead of the section an action does nothing; in it nobody else notices. -/
theorem act (known : Explained code rules first trace threads history settled)
    {effect : State → State} {next : State → Program State Reply}
    (runs : threads.running thread = some (call, .act effect next)) :
    Explained code rules first (trace ++ [((thread, none), none)])
      (threads.goOn thread call (effect threads.shared) (next threads.shared)) history settled := by
  rcases known.holder_or_waiting runs (fun _ => by rintro ⟨⟩) with
    ⟨outside, ⟨silent, later⟩, mine, same⟩ | ⟨holds, within, mine, same⟩
  · have kept : effect threads.shared = threads.shared := silent.1 _
    refine known.unseen (fun free => kept.trans (known.free free)) ?_
    intro other stage serves placed
    by_cases isMine : other = thread
    · subst isMine
      refine ⟨_, mine, .waiting (Function.update_self ..) outside (later threads.shared) ?_⟩
      exact fun state => (Program.run_of_silent silent state threads.shared).trans (same state)
    · exact ⟨stage, serves, placed.quiet_step (Function.update_of_ne isMine _ _) kept rfl⟩
  · refine known.unseen (fun free => ?_) ?_
    · cases holds.symm.trans free
    · intro other stage serves placed
      by_cases isMine : other = thread
      · subst isMine
        exact ⟨_, mine, .inside (Function.update_self ..) holds (within.2 threads.shared) same⟩
      · have outside : threads.holder ≠ some other := by
          rw [holds]
          exact fun same => isMine (Option.some.inj same).symm
        exact ⟨stage, serves,
          placed.outside_step (Function.update_of_ne isMine _ _) outside outside⟩

theorem acquire (known : Explained code rules first trace threads history settled)
    {effect : State → State} {next : Program State Reply}
    (runs : threads.running thread = some (call, .acquire effect next))
    (free : threads.holder = none) :
    Explained code rules first (trace ++ [((thread, none), none)])
      (threads.enter thread call (effect threads.shared) next) history settled := by
  rcases known.holder_or_waiting runs (fun _ => by rintro ⟨⟩) with
    ⟨_, whole, mine, same⟩ | ⟨holds, _⟩
  · refine known.unseen (by rintro ⟨⟩) ?_
    intro other stage serves placed
    by_cases isMine : other = thread
    · subst isMine
      refine ⟨_, mine, .inside (Function.update_self ..) rfl whole.2 ?_⟩
      exact (same threads.shared).trans (congrArg (code call).run (known.free free))
    · exact ⟨stage, serves, placed.outside_step (Function.update_of_ne isMine _ _)
        (by rw [free]; rintro ⟨⟩) (fun same => isMine (Option.some.inj same).symm)⟩
  · cases holds.symm.trans free

/-- The call takes effect when its section ends. -/
theorem release (known : Explained code rules first trace threads history settled)
    {effect : State → State} {next : Program State Reply}
    (runs : threads.running thread = some (call, .release effect next)) :
    ∃ reply, Explained code rules first (trace ++ [((thread, none), none)])
      (threads.leave thread call (effect threads.shared) next)
      (history ++ [.effect thread call reply]) (effect threads.shared) := by
  rcases known.holder_or_waiting runs (fun _ => by rintro ⟨⟩) with
    ⟨_, whole, _⟩ | ⟨holds, within, mine, same⟩
  · exact whole.elim
  · obtain ⟨reply, rfl⟩ := Program.Settled.eq_done within.2
    refine ⟨reply, ?_, ?_, fun _ => rfl, ?_⟩
    · rw [List.filter_append, known.seen, List.flatMap_append]
      rfl
    · rw [List.filterMap_append]
      exact known.effects.next (congrArg some same.symm)
    · intro other
      by_cases isMine : other = thread
      · subst isMine
        exact ⟨_, mine.effect reply, .decided (Function.update_self ..) (by rintro ⟨⟩)⟩
      · obtain ⟨stage, serves, placed⟩ := known.placed other
        refine ⟨stage, serves.other _ (Ne.symm isMine),
          placed.outside_step (Function.update_of_ne isMine _ _) ?_ (by rintro ⟨⟩)⟩
        rw [holds]
        exact fun same => isMine (Option.some.inj same).symm

theorem answer (known : Explained code rules first trace threads history settled)
    (runs : threads.running thread = some (call, .done reply)) :
    ∃ later, Explained code rules first (trace ++ [((thread, none), some reply)])
      (threads.rest thread) later settled := by
  obtain ⟨stage, mine, placed⟩ := known.placed thread
  cases placed with
  | idle rest _ => cases rest.symm.trans runs
  | inside enters _ within _ =>
    cases runs.symm.trans enters
    exact within.elim
  | decided ends outside =>
    cases runs.symm.trans ends
    refine ⟨history ++ [.returned thread reply], ?_, ?_, known.free, ?_⟩
    · rw [List.filter_append, known.seen, List.flatMap_append]
      rfl
    · rw [List.filterMap_append]
      exact (List.append_nil _).symm ▸ known.effects
    · intro other
      by_cases isMine : other = thread
      · subst isMine
        exact ⟨_, mine.returned, .idle (Function.update_self ..) outside⟩
      · obtain ⟨stage, serves, placed⟩ := known.placed other
        exact ⟨stage, serves.other _ (Ne.symm isMine),
          placed.quiet_step (Function.update_of_ne isMine _ _) rfl rfl⟩
  | waiting waits outside _ same =>
    obtain ⟨rfl, rfl⟩ := Prod.mk.inj (Option.some.inj (runs.symm.trans waits))
    refine ⟨history ++ [.effect thread call reply] ++ [.returned thread reply], ?_, ?_,
      known.free, ?_⟩
    · rw [List.filter_append, List.filter_append, known.seen, List.flatMap_append]
      exact congrArg (· ++ [_]) (List.append_nil _)
    · rw [List.filterMap_append, List.filterMap_append]
      refine (List.append_nil _).symm ▸ known.effects.next ?_
      exact congrArg some (same settled).symm
    · intro other
      by_cases isMine : other = thread
      · subst isMine
        exact ⟨_, (mine.effect reply).returned, .idle (Function.update_self ..) outside⟩
      · obtain ⟨stage, serves, placed⟩ := known.placed other
        exact ⟨stage, (serves.other _ (Ne.symm isMine)).other _ (Ne.symm isMine),
          placed.quiet_step (Function.update_of_ne isMine _ _) rfl rfl⟩

/-- Every step of the threads keeps a history that explains the run. -/
theorem step (known : Explained code rules first trace threads history settled)
    (disciplined : ∀ call, (code call).Sectioned (rules call)) {move : Thread × Option Call}
    {output : Option Reply}
    (taken : (interleaved Thread code).step threads move = some (output, after)) :
    ∃ later final, Explained code rules first (trace ++ [(move, output)]) after later final := by
  obtain ⟨thread, made⟩ := move
  simp only [interleaved, Threads.step] at taken
  split at taken
  · rename_i rest
    cases taken
    exact ⟨_, _, known.invoke (disciplined _) rest⟩
  · cases taken
  · cases taken
  · rename_i runs
    cases taken
    exact ⟨_, _, known.act runs⟩
  · rename_i runs
    split at taken
    · rename_i free
      cases taken
      exact ⟨_, _, known.acquire runs (Option.isNone_iff_eq_none.mp free)⟩
    · cases taken
  · rename_i runs
    cases taken
    obtain ⟨reply, later⟩ := known.release runs
    exact ⟨_, _, later⟩
  · rename_i runs
    cases taken
    obtain ⟨later, explained⟩ := known.answer runs
    exact ⟨_, _, explained⟩

end Moves

end Explained

variable [DecidableEq Thread]

/-- Every interleaved run of disciplined calls has a history that explains it. -/
theorem explained (disciplined : ∀ call, (code call).Sectioned (rules call))
    (run : (interleaved Thread code).Run (Threads.start first) trace threads) :
    ∃ history settled, Explained code rules first trace threads history settled := by
  refine Machine.Run.history (fun past state => ∃ history settled,
    Explained code rules first past state history settled) run ⟨_, _, explained_start code rules first⟩ ?_
  rintro past state move output after ⟨history, settled, known⟩ taken
  exact known.step disciplined taken

/-- Linearizability: whatever the interleaving, the calls could have been made one
after the other, each at a moment between its call and its answer. -/
theorem linearizes (disciplined : ∀ call, (code call).Sectioned (rules call))
    (run : (interleaved Thread code).Run (Threads.start first) trace threads) :
    ∃ history settled,
      Linearizes (serial code) first settled (trace.flatMap seenOf) history ∧
        (threads.holder = none → threads.shared = settled) := by
  obtain ⟨history, settled, known⟩ := explained disciplined run
  exact ⟨history, settled, known.linearizes, known.free⟩

end Steps

end Model

end Aesd.Library
