import Aesd.Library.Interleaving

namespace Aesd.Library

universe u v w x

variable {Thread : Type u} {State : Type v} {Call : Type w} {Reply : Type x}
variable [DecidableEq Thread] {code : Call → Program State Reply}
variable {rules : Call → SectionRules State} {first : State}
variable {trace : List ((Thread × Option Call) × Option Reply)}
variable {threads : Threads Thread State Call Reply} {thread : Thread} {call : Call}

/-- The threads get to another state by themselves, with no call made on the way. -/
def LeadsTo (code : Call → Program State Reply)
    (threads final : Threads Thread State Call Reply) : Prop :=
  ∃ later, (interleaved Thread code).Run threads later final ∧ ∀ step ∈ later, step.1.2 = none

namespace LeadsTo

variable {middle final : Threads Thread State Call Reply}

theorem refl (code : Call → Program State Reply) (threads : Threads Thread State Call Reply) :
    LeadsTo code threads threads := ⟨[], .start, by simp⟩

theorem trans (first : LeadsTo code threads middle) (second : LeadsTo code middle final) :
    LeadsTo code threads final := by
  obtain ⟨before, run, alone⟩ := first
  obtain ⟨later, goesOn, aloneToo⟩ := second
  refine ⟨before ++ later, run.append goesOn, ?_⟩
  intro step member
  rcases List.mem_append.mp member with early | late
  · exact alone step early
  · exact aloneToo step late

theorem head {output : Option Reply}
    (taken : threads.step code thread none = some (output, middle))
    (rest : LeadsTo code middle final) : LeadsTo code threads final := by
  refine trans ⟨[((thread, none), output)], .single taken, ?_⟩ rest
  intro step member
  rw [List.mem_singleton.mp member]

end LeadsTo

theorem Threads.step_of_ne {move : Thread × Option Call} {output : Option Reply}
    {after : Threads Thread State Call Reply}
    (taken : (interleaved Thread code).step threads move = some (output, after))
    (apart : thread ≠ move.1) : after.running thread = threads.running thread := by
  simp only [interleaved, step] at taken
  split at taken
  · cases taken
    exact Function.update_of_ne apart ..
  · cases taken
  · cases taken
  · cases taken
    exact Function.update_of_ne apart ..
  · split at taken
    · cases taken
      exact Function.update_of_ne apart ..
    · cases taken
  · cases taken
    exact Function.update_of_ne apart ..
  · cases taken
    exact Function.update_of_ne apart ..

/-- The threads with one of them done. -/
def Threads.without (threads : Threads Thread State Call Reply) (thread : Thread)
    (shared : State) : Threads Thread State Call Reply :=
  ⟨shared, none, Function.update threads.running thread none⟩

theorem Threads.without_of_update {after : Threads Thread State Call Reply}
    {left : Option (Call × Program State Reply)}
    (moved : after.running = Function.update threads.running thread left) (shared : State) :
    after.without thread shared = threads.without thread shared := by
  rw [without, without, moved, Function.update_idem]

namespace Threads

variable (threads : Threads Thread State Call Reply) (thread : Thread) (call : Call)
variable (shared : State) (program : Program State Reply)

@[simp] theorem goOn_self :
    (threads.goOn thread call shared program).running thread = some (call, program) :=
  Function.update_self ..

@[simp] theorem enter_self :
    (threads.enter thread call shared program).running thread = some (call, program) :=
  Function.update_self ..

@[simp] theorem leave_self :
    (threads.leave thread call shared program).running thread = some (call, program) :=
  Function.update_self ..

@[simp] theorem without_self : (threads.without thread shared).running thread = none :=
  Function.update_self ..

theorem without_of_ne {other : Thread} (apart : other ≠ thread) :
    (threads.without thread shared).running other = threads.running other :=
  Function.update_of_ne apart ..

theorem busy_without {other : Thread} (busy : (threads.without thread shared).running other ≠ none) :
    other ≠ thread ∧ threads.running other ≠ none := by
  have apart : other ≠ thread := by
    rintro rfl
    exact busy (threads.without_self other shared)
  exact ⟨apart, threads.without_of_ne thread shared apart ▸ busy⟩

end Threads

theorem answers (code : Call → Program State Reply) {reply : Reply}
    (runs : threads.running thread = some (call, .done reply)) (free : threads.holder = none) :
    LeadsTo code threads (threads.without thread threads.shared) := by
  have taken : threads.step code thread none = some (some reply, threads.rest thread) := by
    simp only [Threads.step, runs]
  refine .head taken ?_
  rw [Threads.without, ← free]
  exact .refl code _

/-- The holder gets out of the section and answers, whatever the others wait for. -/
theorem leaves (code : Call → Program State Reply) {program : Program State Reply}
    (within : program.Inside (rules call)) (runs : threads.running thread = some (call, program)) :
    ∃ shared, LeadsTo code threads (threads.without thread shared) := by
  induction program generalizing threads with
  | done reply => exact within.elim
  | act effect next ih =>
    have taken : threads.step code thread none =
        some (none, threads.goOn thread call (effect threads.shared) (next threads.shared)) := by
      simp only [Threads.step, runs]
    obtain ⟨shared, later⟩ := ih threads.shared (within.2 threads.shared)
      (threads.goOn_self thread call (effect threads.shared) (next threads.shared))
    rw [Threads.without_of_update rfl] at later
    exact ⟨shared, later.head taken⟩
  | acquire effect next ih => exact within.elim
  | release effect next ih =>
    obtain ⟨reply, rfl⟩ := Program.Settled.eq_done within.2
    have taken : threads.step code thread none =
        some (none, threads.leave thread call (effect threads.shared) (.done reply)) := by
      simp only [Threads.step, runs]
    have later := answers code
      (threads.leave_self thread call (effect threads.shared) (.done reply)) rfl
    rw [Threads.without_of_update rfl] at later
    exact ⟨_, later.head taken⟩

/-- With the lock free, a thread in a call can be run to its answer. -/
theorem completes (code : Call → Program State Reply) {program : Program State Reply}
    (whole : program.Sectioned (rules call)) (runs : threads.running thread = some (call, program))
    (free : threads.holder = none) :
    ∃ shared, LeadsTo code threads (threads.without thread shared) := by
  induction program generalizing threads with
  | done reply => exact ⟨_, answers code runs free⟩
  | act effect next ih =>
    have taken : threads.step code thread none =
        some (none, threads.goOn thread call (effect threads.shared) (next threads.shared)) := by
      simp only [Threads.step, runs]
    obtain ⟨shared, later⟩ := ih threads.shared (whole.2 threads.shared)
      (threads.goOn_self thread call (effect threads.shared) (next threads.shared)) free
    rw [Threads.without_of_update rfl] at later
    exact ⟨shared, later.head taken⟩
  | acquire effect next ih =>
    have taken : threads.step code thread none =
        some (none, threads.enter thread call (effect threads.shared) next) := by
      simp only [Threads.step, runs, free, Option.isNone_none, ↓reduceIte]
    obtain ⟨shared, later⟩ := leaves code whole.2
      (threads.enter_self thread call (effect threads.shared) next)
    rw [Threads.without_of_update rfl] at later
    exact ⟨shared, later.head taken⟩
  | release effect next ih => exact whole.elim

/-- The lock is free and every call has its section ahead of it or only to answer. -/
structure Threads.Ready (rules : Call → SectionRules State)
    (threads : Threads Thread State Call Reply) : Prop where
  free : threads.holder = none
  whole : ∀ thread call program, threads.running thread = some (call, program) →
    program.Sectioned (rules call)

theorem Explained.ready_without {history : List (Moment Thread Call Reply)} {settled : State}
    (known : Explained code rules first trace threads history settled)
    (holds : threads.holder = some thread) (shared : State) :
    (threads.without thread shared).Ready rules where
  free := rfl
  whole := by
    intro other call program runs
    by_cases mine : other = thread
    · subst mine
      rw [Threads.without_self] at runs
      cases runs
    · rw [Threads.without_of_ne _ _ _ mine] at runs
      refine known.whole_of_outside ?_ runs
      rw [holds]
      exact fun same => mine (Option.some.inj same).symm

theorem Threads.Ready.without (ready : threads.Ready rules) (thread : Thread) (shared : State) :
    (threads.without thread shared).Ready rules where
  free := rfl
  whole := by
    intro other call program runs
    by_cases mine : other = thread
    · subst mine
      rw [Threads.without_self] at runs
      cases runs
    · rw [Threads.without_of_ne _ _ _ mine] at runs
      exact ready.whole other call program runs

theorem Threads.Ready.drains (ready : threads.Ready rules) (busy : List Thread)
    (all : ∀ thread, threads.running thread ≠ none → thread ∈ busy) :
    ∃ shared, LeadsTo code threads (Threads.start shared) := by
  induction busy generalizing threads with
  | nil =>
    have rest : threads.running = fun _ => none :=
      funext fun thread => Decidable.byContradiction fun runs => nomatch all thread runs
    refine ⟨threads.shared, ?_⟩
    rw [Threads.start, ← ready.free, ← rest]
    exact .refl code threads
  | cons thread busy ih =>
    cases runs : threads.running thread with
    | none =>
      refine ih ready fun other some => ?_
      rcases List.mem_cons.mp (all other some) with rfl | later
      · exact absurd runs some
      · exact later
    | some left =>
      obtain ⟨call, program⟩ := left
      obtain ⟨shared, done⟩ := completes code
        (ready.whole thread call program runs) runs ready.free
      have fewer : ∀ other, (threads.without thread shared).running other ≠ none →
          other ∈ busy := by
        intro other some
        obtain ⟨apart, runs⟩ := Threads.busy_without _ _ _ some
        exact (List.mem_cons.mp (all other runs)).resolve_left apart
      obtain ⟨last, others⟩ := ih (ready.without thread shared) fewer
      exact ⟨last, done.trans others⟩

theorem busy_of_run (run : (interleaved Thread code).Run (Threads.start first) trace threads)
    (busy : threads.running thread ≠ none) : thread ∈ trace.map fun step => step.1.1 := by
  refine Machine.Run.history (fun past threads =>
    threads.running thread ≠ none → thread ∈ past.map fun step => step.1.1) run
    (fun busy => absurd rfl busy) ?_ busy
  intro past threads move output after known taken busy
  rw [List.map_append, List.mem_append]
  by_cases mine : thread = move.1
  · exact .inr (List.mem_singleton.mpr mine)
  · exact .inl (known fun rest => busy ((Threads.step_of_ne taken mine).trans rest))

/-- Freedom from deadlock: from every state of every run, the calls that are under
way can all be answered, with no further call made. -/
theorem drains (disciplined : ∀ call, (code call).Sectioned (rules call))
    (run : (interleaved Thread code).Run (Threads.start first) trace threads) :
    ∃ shared, LeadsTo code threads (Threads.start shared) := by
  obtain ⟨history, settled, known⟩ := explained disciplined run
  have all := fun thread => @busy_of_run _ _ _ _ _ code first trace threads thread run
  cases held : threads.holder with
  | none =>
    have ready : threads.Ready rules := ⟨held, fun _ _ _ runs =>
      known.whole_of_outside (by rw [held]; rintro ⟨⟩) runs⟩
    exact ready.drains _ all
  | some thread =>
    obtain ⟨stage, _, placed⟩ := known.placed thread
    cases placed with
    | idle _ outside => exact absurd held outside
    | waiting _ outside _ _ => exact absurd held outside
    | decided _ outside => exact absurd held outside
    | inside runs holds within _ =>
      obtain ⟨shared, out⟩ := leaves code within runs
      have ready := known.ready_without holds shared
      obtain ⟨last, others⟩ := ready.drains (trace.map fun step => step.1.1)
        fun other busy => all other (Threads.busy_without _ _ _ busy).2
      exact ⟨last, out.trans others⟩

end Aesd.Library
