import Aesd.Server.World

namespace Aesd.Server

open Aesd.Library Aesd.Driver

def World.zone (world : World) (id : Nat) : Zone := (world.threads id).zone

/-- What holds in every state, after whatever failures: a thread in the critical
section holds the mutex, and only a thread that left without clean-up keeps it. -/
structure Guarded (world : World) : Prop where
  holder : ∀ id, (world.zone id).inside = true → world.mutex = some id
  known : ∀ id, world.mutex = some id → world.zone id ≠ .outside
  table : ∀ descriptor id, world.descriptors descriptor = some id →
    (world.zone id = .opened ∧ world.fd = some descriptor) ∨
      (world.zone id = .returned ∧ world.mutex = some id)

/-- A thread that returned left nothing locked or open, so that the mutex is free
when no handler is in the critical section. -/
structure Released (world : World) : Prop where
  mutex : ∀ id, world.zone id = .returned → world.mutex ≠ some id
  descriptors : ∀ id, world.zone id = .returned →
    ∀ descriptor, world.descriptors descriptor ≠ some id
  free : (∀ id, (world.zone id).inside = false) → world.mutex = none

theorem guarded_start : Guarded World.start :=
  ⟨nofun, nofun, nofun⟩

theorem released_start : Released World.start :=
  ⟨nofun, nofun, fun _ => rfl⟩

section Step

variable {world after : World} {id : Nat} {event : Event} {call : Syscall}

theorem server_step (taken : world.step (id, event) = some (call, after)) :
    ∃ shared, world.share id event = some shared ∧ after.mutex = shared.mutex ∧
      after.fd = shared.fd ∧ after.descriptors = shared.descriptors ∧
        ZoneStep event (world.zone id) (after.zone id) ∧
          ∀ other, other ≠ id → after.zone other = world.zone other := by
  obtain ⟨thread, shared, stepped, shares, rfl⟩ := World.step_cases taken
  refine ⟨shared, shares, rfl, rfl, rfl, ?_, ?_⟩
  · simpa [World.zone] using step_zone stepped
  · intro other different
    simp [World.zone, different]

/-- Two threads are never in the critical section together. -/
theorem Guarded.exclusive (guarded : Guarded world) {first second : Nat}
    (one : (world.zone first).inside = true) (two : (world.zone second).inside = true) :
    first = second :=
  Option.some.inj ((guarded.holder first one).symm.trans (guarded.holder second two))

/-- A step that leaves the shared part alone keeps the guard when the thread does
not enter, and holds on to the mutex if it had it. -/
theorem Guarded.quiet (guarded : Guarded world) (mutex : after.mutex = world.mutex)
    (fd : after.fd = world.fd) (descriptors : after.descriptors = world.descriptors)
    (others : ∀ other, other ≠ id → after.zone other = world.zone other)
    (same : after.zone id = world.zone id ∨
      (after.zone id = .returned ∧ (world.zone id = .opened ∨ world.zone id = .outside))) :
    Guarded after where
  holder := by
    intro other inside
    rw [mutex]
    by_cases self : other = id
    · subst self
      rcases same with still | ⟨gone, _⟩
      · exact guarded.holder other (still ▸ inside)
      · rw [gone] at inside
        cases inside
    · rw [others other self] at inside
      exact guarded.holder other inside
  known := by
    intro other holds
    rw [mutex] at holds
    by_cases self : other = id
    · subst self
      rcases same with still | ⟨gone, _⟩
      · rw [still]
        exact guarded.known other holds
      · rw [gone]
        exact nofun
    · rw [others other self]
      exact guarded.known other holds
  table := by
    intro descriptor other opened
    rw [descriptors] at opened
    rw [mutex, fd]
    have before := guarded.table descriptor other opened
    by_cases self : other = id
    · subst self
      rcases same with still | ⟨gone, _⟩
      · rw [still]
        exact before
      · right
        refine ⟨gone, ?_⟩
        rcases before with ⟨zone, _⟩ | ⟨_, holds⟩
        · exact guarded.holder other (by rw [zone]; rfl)
        · exact holds
    · rw [others other self]
      exact before

/-- While a thread has the mutex but no descriptor, no device descriptor is open. -/
theorem Guarded.nothing_open (guarded : Guarded world) (inside : (world.zone id).inside = true)
    (notOpened : world.zone id ≠ .opened) (descriptor : Nat) :
    world.descriptors descriptor = none := by
  have holds := guarded.holder id inside
  cases opened : world.descriptors descriptor with
  | none => rfl
  | some owner =>
    rcases guarded.table descriptor owner opened with ⟨zone, _⟩ | ⟨zone, mutex⟩
    · have same : owner = id := guarded.exclusive (by rw [zone]; rfl) inside
      exact absurd (same ▸ zone) notOpened
    · have same : owner = id := Option.some.inj (mutex.symm.trans holds)
      rw [← same, zone] at inside
      cases inside

/-- The holder moves on inside the critical section. -/
theorem Guarded.moved (guarded : Guarded world) (before : (world.zone id).inside = true)
    (now : (after.zone id).inside = true) (mutex : after.mutex = world.mutex)
    (others : ∀ other, other ≠ id → after.zone other = world.zone other)
    (table : ∀ descriptor owner, after.descriptors descriptor = some owner →
      owner = id ∧ after.zone id = .opened ∧ after.fd = some descriptor) : Guarded after where
  holder := by
    intro other inside
    rw [mutex]
    by_cases self : other = id
    · rw [self]
      exact guarded.holder id before
    · rw [others other self] at inside
      exact guarded.holder other inside
  known := by
    intro other holds
    rw [mutex, guarded.holder id before] at holds
    obtain rfl := Option.some.inj holds
    intro outside
    rw [outside] at now
    cases now
  table := by
    intro descriptor owner opened
    obtain ⟨rfl, zone, fd⟩ := table descriptor owner opened
    exact .inl ⟨zone, fd⟩

theorem Guarded.unlocked (guarded : Guarded world) (before : world.zone id = .closed)
    (now : (after.zone id).inside = false) (mutex : after.mutex = none)
    (descriptors : after.descriptors = world.descriptors)
    (others : ∀ other, other ≠ id → after.zone other = world.zone other) : Guarded after where
  holder := by
    intro other inside
    by_cases self : other = id
    · rw [self, now] at inside
      cases inside
    · rw [others other self] at inside
      exact absurd (guarded.exclusive inside (by rw [before]; rfl)) self
  known := by
    intro other holds
    rw [mutex] at holds
    cases holds
  table := by
    intro descriptor owner opened
    have inside : (world.zone id).inside = true := by rw [before]; rfl
    have notOpened : world.zone id ≠ .opened := by rw [before]; nofun
    rw [descriptors, guarded.nothing_open inside notOpened] at opened
    cases opened

theorem Guarded.locked (guarded : Guarded world) (free : world.mutex = none)
    (now : after.zone id = .locked) (mutex : after.mutex = some id)
    (descriptors : after.descriptors = world.descriptors)
    (others : ∀ other, other ≠ id → after.zone other = world.zone other) : Guarded after := by
  have nobody : ∀ other, (world.zone other).inside = false := by
    intro other
    rw [Bool.eq_false_iff]
    intro inside
    rw [guarded.holder other inside] at free
    cases free
  constructor
  · intro other inside
    by_cases self : other = id
    · rw [mutex, self]
    · rw [others other self, nobody other] at inside
      cases inside
  · intro other holds
    obtain rfl : id = other := Option.some.inj (mutex.symm.trans holds)
    rw [now]
    exact Zone.noConfusion
  · intro descriptor other opened
    rw [descriptors] at opened
    rcases guarded.table descriptor other opened with ⟨zone, _⟩ | ⟨_, holds⟩
    · have inside := nobody other
      rw [zone] at inside
      cases inside
    · rw [free] at holds
      cases holds

theorem Guarded.opened (guarded : Guarded world) {result : Option Nat} {shared : World}
    (before : world.zone id = .locked) (now : after.zone id = .opened)
    (shares : world.share id (.openDevice result) = some shared)
    (mutex : after.mutex = shared.mutex) (fd : after.fd = shared.fd)
    (descriptors : after.descriptors = shared.descriptors)
    (others : ∀ other, other ≠ id → after.zone other = world.zone other) : Guarded after := by
  have inside : (world.zone id).inside = true := by rw [before]; rfl
  have empty := guarded.nothing_open inside (by rw [before]; exact Zone.noConfusion)
  have nowInside : (after.zone id).inside = true := by rw [now]; rfl
  cases result with
  | none =>
    obtain rfl := Option.some.inj shares
    refine guarded.moved inside nowInside mutex others ?_
    intro descriptor owner opened
    rw [descriptors, empty] at opened
    cases opened
  | some descriptor =>
    simp only [World.share, Option.ite_none_right_eq_some, Option.some.injEq] at shares
    obtain ⟨_, rfl⟩ := shares
    refine guarded.moved inside nowInside mutex others ?_
    intro other owner opened
    simp only [descriptors, Function.update_apply] at opened
    split at opened
    · rename_i same
      exact ⟨(Option.some.inj opened).symm, now, same ▸ fd⟩
    · rw [empty] at opened
      cases opened

/-- The holder closes what the global descriptor stands for. -/
theorem Guarded.closed (guarded : Guarded world) {failed : Bool} {shared : World}
    (before : world.zone id = .opened) (now : after.zone id = .closed)
    (shares : world.share id (.close failed) = some shared)
    (mutex : after.mutex = shared.mutex) (descriptors : after.descriptors = shared.descriptors)
    (others : ∀ other, other ≠ id → after.zone other = world.zone other) : Guarded after := by
  have inside : (world.zone id).inside = true := by rw [before]; rfl
  have nowInside : (after.zone id).inside = true := by rw [now]; rfl
  have only : ∀ descriptor owner, world.descriptors descriptor = some owner →
      world.fd = some descriptor := by
    intro descriptor owner opened
    rcases guarded.table descriptor owner opened with ⟨_, same⟩ | ⟨zone, holds⟩
    · exact same
    · obtain rfl : owner = id := Option.some.inj (holds.symm.trans (guarded.holder id inside))
      rw [before] at zone
      cases zone
  simp only [World.share] at shares
  split at shares
  · rename_i closed
    obtain rfl := Option.some.inj shares
    refine guarded.moved inside nowInside mutex others ?_
    intro descriptor owner opened
    have same := only descriptor owner (descriptors ▸ opened)
    rw [closed] at same
    cases same
  · rename_i global found
    obtain rfl := Option.some.inj shares
    refine guarded.moved inside nowInside mutex others ?_
    intro descriptor owner opened
    simp only [descriptors, Function.update_apply] at opened
    split at opened
    · cases opened
    · rename_i different
      have same := only descriptor owner opened
      exact absurd (Option.some.inj (same.symm.trans found)) different

theorem Guarded.step (guarded : Guarded world)
    (taken : world.step (id, event) = some (call, after)) : Guarded after := by
  obtain ⟨shared, shares, mutex, fd, descriptors, zones, others⟩ := server_step taken
  generalize before : world.zone id = earlier at zones
  generalize now : after.zone id = later at zones
  cases zones with
  | lock =>
    simp only [World.share, Option.ite_none_right_eq_some, Option.some.injEq] at shares
    obtain ⟨free, rfl⟩ := shares
    exact guarded.locked free now mutex descriptors others
  | openDevice result => exact guarded.opened before now shares mutex fd descriptors others
  | close failed => exact guarded.closed before now shares mutex descriptors others
  | unlock =>
    obtain rfl := Option.some.inj shares
    exact guarded.unlocked before (by rw [now]; rfl) mutex descriptors others
  | unlockReturn =>
    obtain rfl := Option.some.inj shares
    exact guarded.unlocked before (by rw [now]; rfl) mutex descriptors others
  | leave leaves quiet =>
    rw [quiet] at shares
    obtain rfl := Option.some.inj shares
    exact guarded.quiet mutex fd descriptors others (.inr ⟨now, .inl before⟩)
  | within zone stays quiet still =>
    rw [quiet] at shares
    obtain rfl := Option.some.inj shares
    exact guarded.quiet mutex fd descriptors others (.inl (now.trans before.symm))
  | quit quiet stays =>
    rw [quiet] at shares
    obtain rfl := Option.some.inj shares
    exact guarded.quiet mutex fd descriptors others (.inr ⟨now, .inr before⟩)

theorem Guarded.released_of_mutex (guarded : Guarded world)
    (mutexes : ∀ id, world.zone id = .returned → world.mutex ≠ some id) : Released world where
  mutex := mutexes
  descriptors := by
    intro id gone descriptor opened
    rcases guarded.table descriptor id opened with ⟨zone, _⟩ | ⟨_, holds⟩
    · rw [gone] at zone
      cases zone
    · exact mutexes id gone holds
  free := by
    intro nobody
    cases holds : world.mutex with
    | none => rfl
    | some id =>
      have known := guarded.known id holds
      have notInside := nobody id
      cases zone : world.zone id with
      | outside => exact absurd zone known
      | returned => exact absurd holds (mutexes id zone)
      | _ =>
        rw [zone] at notInside
        cases notInside

/-- Leaving without clean-up is the one way to keep the mutex. -/
theorem Guarded.step_released_iff (guarded : Guarded world) (released : Released world)
    (taken : world.step (id, event) = some (call, after)) :
    Released after ↔ event.leavesLocked = false := by
  have guardedAfter := guarded.step taken
  obtain ⟨shared, shares, mutex, fd, descriptors, zones, others⟩ := server_step taken
  generalize before : world.zone id = earlier at zones
  generalize now : after.zone id = later at zones
  have holding : after.mutex = some id → after.zone id ≠ .returned → Released after := by
    intro holds present
    refine guardedAfter.released_of_mutex fun other gone same => ?_
    obtain rfl := Option.some.inj (holds.symm.trans same)
    exact present gone
  have freed : after.mutex = none → Released after := by
    intro free
    refine guardedAfter.released_of_mutex fun other _ same => ?_
    rw [free] at same
    cases same
  cases zones with
  | lock =>
    simp only [World.share, Option.ite_none_right_eq_some, Option.some.injEq] at shares
    obtain ⟨_, rfl⟩ := shares
    exact iff_of_true (holding mutex (by rw [now]; nofun)) rfl
  | openDevice result =>
    have holds := guarded.holder id (by rw [before]; rfl)
    refine iff_of_true (holding ?_ (by rw [now]; nofun)) rfl
    cases result with
    | none =>
      obtain rfl := Option.some.inj shares
      exact mutex.trans holds
    | some descriptor =>
      simp only [World.share, Option.ite_none_right_eq_some, Option.some.injEq] at shares
      obtain ⟨_, rfl⟩ := shares
      exact mutex.trans holds
  | close failed =>
    have holds := guarded.holder id (by rw [before]; rfl)
    refine iff_of_true (holding ?_ (by rw [now]; nofun)) rfl
    simp only [World.share] at shares
    split at shares
    · obtain rfl := Option.some.inj shares
      exact mutex.trans holds
    · obtain rfl := Option.some.inj shares
      exact mutex.trans holds
  | unlock =>
    obtain rfl := Option.some.inj shares
    exact iff_of_true (freed mutex) rfl
  | unlockReturn =>
    obtain rfl := Option.some.inj shares
    exact iff_of_true (freed mutex) rfl
  | leave leaves quiet =>
    rw [quiet] at shares
    obtain rfl := Option.some.inj shares
    have holds := mutex.trans (guarded.holder id (by rw [before]; rfl))
    refine iff_of_false (fun kept => kept.mutex id now holds) ?_
    rw [leaves]
    nofun
  | within zone stays quiet still =>
    rw [quiet] at shares
    obtain rfl := Option.some.inj shares
    refine iff_of_true (guardedAfter.released_of_mutex fun other gone same => ?_) stays
    rw [mutex] at same
    refine released.mutex other ?_ same
    by_cases self : other = id
    · rw [self] at gone ⊢
      exact before.trans (now.symm.trans gone)
    · exact (others other self).symm.trans gone
  | quit quiet stays =>
    rw [quiet] at shares
    obtain rfl := Option.some.inj shares
    refine iff_of_true (guardedAfter.released_of_mutex fun other gone same => ?_) stays
    rw [mutex] at same
    by_cases self : other = id
    · exact guarded.known id (self ▸ same) before
    · exact released.mutex other ((others other self).symm.trans gone) same

end Step

theorem run_guarded {trace : List ((Nat × Event) × Syscall)} {world : World}
    (run : server.Run World.start trace world) : Guarded world := by
  refine run.invariant Guarded guarded_start ?_
  rintro world ⟨id, event⟩ call after guarded taken
  exact guarded.step taken

/-- In a run of any number of handlers, every returned thread has freed the mutex and
closed its descriptor in every state, exactly when no `write`, `calloc`, `read` or
`send` failed in the critical section. -/
theorem sections_released_iff {trace : List ((Nat × Event) × Syscall)} {world : World}
    (run : server.Run World.start trace world) :
    server.Along World.start trace Released ↔
      server.EachStep World.start trace (fun _ input _ _ => input.2.leavesLocked = false) := by
  have known : server.EachStep World.start trace fun before _ _ _ => Guarded before :=
    fun past input call before after _ passed _ => run_guarded passed
  refine run.along_iff released_start known ?_
  rintro before ⟨id, event⟩ call after guarded released taken
  exact guarded.step_released_iff released taken

/-- The driver refuses a seek, and the thread cleans up. -/
def seekRefused : List (Nat × Event) :=
  [.callocRecv true, .checkExit false,
   .recv (some (kIOCtrlStr ++ [57, comma, 48, newline])), .lock, .openDevice (some 3),
   .ioctl false, .close true, .unlock true].map (Prod.mk 0)

theorem seekRefused_released : ∃ trace world,
    server.exec World.start seekRefused = some (trace, world) ∧ Released world := by
  have runs : (server.exec World.start seekRefused).isSome = true := by decide
  obtain ⟨⟨trace, world⟩, computed⟩ := Option.isSome_iff_exists.mp runs
  have run := Machine.Run.of_exec computed
  refine ⟨trace, world, computed, ((sections_released_iff run).mpr ?_).final run⟩
  intro past input call before after inside _ _
  have none : ∀ input ∈ seekRefused, input.2.leavesLocked = false := by decide
  exact none input (Machine.input_mem_of_inside computed inside)

/-- The driver refuses a write, and the mutex stays locked for ever. -/
def writeFailed : List (Nat × Event) :=
  [.callocRecv true, .checkExit false, .recv (some [97, newline]), .lock,
   .openDevice (some 3), .write none].map (Prod.mk 0)

theorem writeFailed_keeps :
    ¬ ∀ trace world, server.Run World.start trace world → Released world := by
  intro always
  have runs : ((server.exec World.start writeFailed).any fun result =>
      (result.2.mutex == some 0) && ((result.2.threads 0).pc == .returned)) = true := by decide
  obtain ⟨⟨trace, world⟩, computed, facts⟩ := (Option.any_eq_true _ _).mp runs
  simp only [Bool.and_eq_true, beq_iff_eq] at facts
  have released := always trace world (Machine.Run.of_exec computed)
  exact released.mutex 0 (congrArg Pc.zone facts.2) facts.1

end Aesd.Server
