import Aesd.Server.World

/-! The loop in which `main` asks the handlers to exit, and who unlocks `mutexExit`. -/
namespace Aesd.Server

open Aesd.Library Aesd.Driver

inductive Party where
  | main
  | handler (id : Nat)
deriving DecidableEq, Repr

/-- The next of the three lines that `main` runs for each connection. -/
inductive AskPc where
  | lock
  | setExit
  | unlock
deriving DecidableEq, Repr

/-- The handlers with the rest of the list that `main` walks, the flags it sets, and the
holder of each `mutexExit`. A connection goes by the number of its handler. -/
structure Asking where
  world : World
  remaining : List Nat
  pc : AskPc
  exit : Nat → Bool
  mutexExit : Nat → Option Party

/-- Nobody is asked yet; the handlers are free to run before `main` does. -/
def Asking.start (connections : List Nat) : Asking :=
  ⟨World.start, connections, .lock, fun _ => false, fun _ => none⟩

inductive AskEvent where
  | main
  | handler (id : Nat) (event : Event)
deriving DecidableEq, Repr

/-- A call of `pthread_mutex_unlock` on the `mutexExit` of a connection. -/
structure Unlock where
  caller : Party
  connection : Nat
deriving DecidableEq, Repr

namespace Asking

/-- Lines 459 to 461, one at a time. -/
def ask (state : Asking) : Option (Option Unlock × Asking) :=
  match state.remaining with
  | [] => none
  | node :: rest =>
    match state.pc with
    | .lock =>
      if state.mutexExit node = none then
        some (none, { state with
          mutexExit := Function.update state.mutexExit node (some .main)
          pc := .setExit })
      else none
    | .setExit =>
      some (none, { state with exit := Function.update state.exit node true, pc := .unlock })
    | .unlock =>
      some (some ⟨.main, node⟩, { state with
        mutexExit := Function.update state.mutexExit node none
        remaining := rest
        pc := .lock })

/-- A handler reads its flag without the lock, and unlocks what it never locked. -/
def handle (state : Asking) (id : Nat) (event : Event) : Option (Option Unlock × Asking) :=
  if event = .checkExit (!state.exit id) then none
  else (state.world.step (id, event)).map fun (_, world) =>
    if event = .unlockExit then
      (some ⟨.handler id, id⟩,
        { state with world, mutexExit := Function.update state.mutexExit id none })
    else (none, { state with world })

def step (state : Asking) : AskEvent → Option (Option Unlock × Asking)
  | .main => if state.world.crashed then none else state.ask
  | .handler id event => state.handle id event

/-- All that a step can do. -/
inductive Steps (state : Asking) : AskEvent → Option Unlock → Asking → Prop where
  | locks {node : Nat} {rest : List Nat} (listed : state.remaining = node :: rest)
      (free : state.mutexExit node = none) : Steps state .main none { state with
        mutexExit := Function.update state.mutexExit node (some .main)
        pc := .setExit }
  | sets {node : Nat} {rest : List Nat} (listed : state.remaining = node :: rest)
      (locked : state.pc = .setExit) : Steps state .main none { state with
        exit := Function.update state.exit node true
        pc := .unlock }
  | unlocks {node : Nat} {rest : List Nat} (listed : state.remaining = node :: rest)
      (locked : state.pc = .unlock) : Steps state .main (some ⟨.main, node⟩) { state with
        mutexExit := Function.update state.mutexExit node none
        remaining := rest
        pc := .lock }
  | leaves {id : Nat} {world : World} :
      Steps state (.handler id .unlockExit) (some ⟨.handler id, id⟩) { state with
        world
        mutexExit := Function.update state.mutexExit id none }
  | runs {id : Nat} {event : Event} {world : World} (stays : event ≠ .unlockExit) :
      Steps state (.handler id event) none { state with world }

theorem step_cases {state after : Asking} {event : AskEvent} {unlocked : Option Unlock}
    (taken : state.step event = some (unlocked, after)) : state.Steps event unlocked after := by
  cases event with
  | main =>
    simp only [step, Option.ite_none_left_eq_some] at taken
    obtain ⟨_, asked⟩ := taken
    unfold ask at asked
    split at asked
    · cases asked
    · rename_i node rest listed
      split at asked
      · split at asked
        · rename_i free
          cases asked
          exact .locks listed free
        · cases asked
      · rename_i locked
        cases asked
        exact .sets listed locked
      · rename_i locked
        cases asked
        exact .unlocks listed locked
  | handler id event =>
    simp only [step, handle, Option.ite_none_left_eq_some] at taken
    obtain ⟨_, handled⟩ := taken
    obtain ⟨⟨call, world⟩, _, same⟩ := Option.map_eq_some_iff.mp handled
    dsimp only at same
    split at same
    · rename_i leaving
      cases same
      subst leaving
      exact .leaves
    · rename_i stays
      cases same
      exact .runs stays

/-- No handler ever holds a `mutexExit`. -/
def Unclaimed (state : Asking) : Prop :=
  ∀ connection id, state.mutexExit connection ≠ some (.handler id)

/-- Between its lock and its unlock, `main` holds the mutex of the connection it is at. -/
def MainHolds (state : Asking) : Prop :=
  ∀ node rest, state.remaining = node :: rest → state.pc ≠ .lock →
    state.mutexExit node = some .main

section

variable {state after : Asking} {event : AskEvent} {unlocked : Option Unlock}

theorem Unclaimed.set (unclaimed : state.Unclaimed) (node : Nat) {holder : Option Party}
    (fine : ∀ id, holder ≠ some (.handler id)) (connection id : Nat) :
    Function.update state.mutexExit node holder connection ≠ some (.handler id) := by
  by_cases same : connection = node
  · rw [same, Function.update_self]
    exact fine id
  · rw [Function.update_of_ne same]
    exact unclaimed connection id

theorem Unclaimed.step (unclaimed : state.Unclaimed)
    (taken : state.step event = some (unlocked, after)) : after.Unclaimed := by
  cases step_cases taken with
  | locks listed free => exact unclaimed.set _ (by rintro id ⟨⟩)
  | unlocks | leaves => exact unclaimed.set _ (by rintro id ⟨⟩)
  | sets | runs => exact unclaimed

/-- Only a handler that leaves can take the mutex away from `main`. -/
theorem MainHolds.step (holds : state.MainHolds)
    (taken : state.step event = some (unlocked, after))
    (nobody : ∀ id, event ≠ .handler id .unlockExit) : after.MainHolds := by
  cases step_cases taken with
  | @locks node rest listed free =>
    intro other others same _
    obtain ⟨rfl, _⟩ := List.cons.inj (listed.symm.trans same)
    exact Function.update_self _ _ _
  | sets listed locked =>
    intro other others same _
    refine holds other others same ?_
    rw [locked]
    rintro ⟨⟩
  | unlocks => exact fun _ _ _ started => absurd rfl started
  | leaves => exact absurd rfl (nobody _)
  | runs => exact holds

end

end Asking

/-- `main` asking any number of handlers, in every interleaving with all they do. -/
def asking : Machine Asking AskEvent (Option Unlock) where
  step := Asking.step

/-- A step that unlocks nothing, or what its thread holds. -/
def Rightful (before : Asking) (_ : AskEvent) (unlocked : Option Unlock) (_ : Asking) : Prop :=
  ∀ unlock, unlocked = some unlock → before.mutexExit unlock.connection = some unlock.caller

theorem run_unclaimed {connections : List Nat} {trace : List (AskEvent × Option Unlock)}
    {state : Asking} (run : asking.Run (.start connections) trace state) : state.Unclaimed := by
  refine run.invariant Asking.Unclaimed (by rintro connection id ⟨⟩) ?_
  intro before event unlocked after unclaimed taken
  exact unclaimed.step taken

/-- What a leaving handler unlocks is free, or `main` holds it. -/
theorem leaving_unlocks_foreign {connections : List Nat} {trace : List (AskEvent × Option Unlock)}
    {state : Asking} (run : asking.Run (.start connections) trace state) (connection : Nat) :
    state.mutexExit connection = none ∨ state.mutexExit connection = some .main := by
  cases held : state.mutexExit connection with
  | none => exact .inl rfl
  | some holder =>
    cases holder with
    | main => exact .inr rfl
    | handler id => exact absurd held (run_unclaimed run connection id)

theorem nobody_leaves {connections : List Nat} {trace : List (AskEvent × Option Unlock)}
    (rightful : asking.EachStep (.start connections) trace Rightful) :
    asking.EachStep (.start connections) trace
      (fun _ event _ _ => ∀ id, event ≠ .handler id .unlockExit) := by
  intro past event unlocked before after inside passed taken
  have fine := rightful past event unlocked before after inside passed taken
  cases Asking.step_cases taken with
  | leaves =>
    rcases leaving_unlocks_foreign passed _ with free | main
    · rw [fine _ rfl] at free
      cases free
    · rw [fine _ rfl] at main
      cases main
  | runs stays =>
    rintro id ⟨⟩
    exact stays rfl
  | _ => rintro id ⟨⟩

/-- Whatever the interleaving, every `mutexExit` is unlocked by the thread that holds it
only, if and only if no handler that saw its flag gets to its unlock. -/
theorem unlocks_rightful_iff {connections : List Nat} {trace : List (AskEvent × Option Unlock)}
    {state : Asking} (run : asking.Run (.start connections) trace state) :
    asking.EachStep (.start connections) trace Rightful ↔
      asking.EachStep (.start connections) trace
        (fun _ event _ _ => ∀ id, event ≠ .handler id .unlockExit) := by
  constructor
  · exact nobody_leaves
  · intro nobody past event unlocked before after inside passed taken
    have earlier : asking.EachStep (.start connections) past
        (fun _ event _ _ => ∀ id, event ≠ .handler id .unlockExit) := by
      obtain ⟨later, rfl⟩ := inside
      exact nobody.earlier.earlier
    have holds : before.MainHolds := by
      refine passed.invariant_of_eachStep Asking.MainHolds ?_ earlier ?_
      · exact fun _ _ _ started => absurd rfl started
      · exact fun _ _ _ _ nobody holds taken => holds.step taken nobody
    cases Asking.step_cases taken with
    | @unlocks node rest listed locked =>
      rintro unlock ⟨⟩
      refine holds node rest listed ?_
      rw [locked]
      rintro ⟨⟩
    | leaves => exact absurd rfl (nobody past _ _ _ _ inside passed taken _)
    | _ => rintro unlock ⟨⟩

/-- Two handlers are asked to exit while the first one waits for its peer. -/
def busyHandler : List AskEvent :=
  [.handler 0 (.callocRecv true), .handler 0 (.checkExit false), .main, .main, .main, .main, .main,
   .main]

theorem busyHandler_rightful : ∃ trace state,
    asking.exec (.start [0, 1]) busyHandler = some (trace, state) ∧
      asking.EachStep (.start [0, 1]) trace Rightful := by
  have runs : (asking.exec (.start [0, 1]) busyHandler).isSome = true := by decide
  obtain ⟨⟨trace, state⟩, computed⟩ := Option.isSome_iff_exists.mp runs
  refine ⟨trace, state, computed, (unlocks_rightful_iff (.of_exec computed)).mpr ?_⟩
  intro past event unlocked before after inside _ _ id leaving
  have stays : ∀ event ∈ busyHandler, ∀ id, event ≠ .handler id .unlockExit := by
    simp [busyHandler]
  exact stays event (Machine.input_mem_of_inside computed inside) id leaving

/-- A handler sees its flag before `main` has unlocked, and leaves. -/
def seenAtOnce : List AskEvent :=
  [.handler 0 (.callocRecv true), .main, .main, .handler 0 (.checkExit true),
   .handler 0 .unlockExit]

theorem seenAtOnce_wrongful : ¬ ∀ connections trace state,
    asking.Run (.start connections) trace state →
      asking.EachStep (.start connections) trace Rightful := by
  intro always
  have runs : (asking.exec (.start [0]) seenAtOnce).isSome = true := by decide
  obtain ⟨⟨trace, state⟩, computed⟩ := Option.isSome_iff_exists.mp runs
  have run := Machine.Run.of_exec computed
  have nobody := nobody_leaves (always [0] trace state run)
  have member : (AskEvent.handler 0 .unlockExit) ∈ trace.map Prod.fst := by
    rw [Machine.exec_inputs computed]
    simp [seenAtOnce]
  obtain ⟨⟨event, unlocked⟩, stepped, rfl⟩ := List.mem_map.mp member
  obtain ⟨past, inside⟩ := Machine.inside_of_mem stepped
  obtain ⟨before, after, earlier, taken⟩ := run.step_inside inside
  exact nobody past _ _ before after inside earlier taken 0 rfl

end Aesd.Server
