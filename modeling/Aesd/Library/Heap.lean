import Mathlib.Data.List.Nodup
import Mathlib.Data.List.Perm.Subperm
import Mathlib.Logic.Function.Basic

/-! Heap blocks with identifiers that are never reused, and the requests made
to release them. A request is valid when it names the start of a live block. -/
namespace Aesd.Library

structure Pointer where
  block : Nat
  offset : Nat
deriving DecidableEq, Repr

structure Release where
  pointer : Pointer
  valid : Bool
deriving DecidableEq, Repr

/-- Overwrite a stretch of `old` starting at `position`. -/
def patch {β : Type*} (old : List β) (position : Nat) (new : List β) : List β :=
  old.take position ++ new ++ old.drop (position + new.length)

theorem length_patch {β : Type*} {old new : List β} {position : Nat}
    (fits : position + new.length ≤ old.length) : (patch old position new).length = old.length := by
  simp [patch]; omega

theorem take_patch_append {β : Type*} {old first second : List β} {position : Nat}
    (inside : position ≤ old.length) :
    (patch old position (first ++ second)).take (position + first.length) =
      old.take position ++ first := by
  have length : (old.take position ++ first).length = position + first.length := by
    rw [List.length_append, List.length_take_of_le inside]
  rw [patch, ← List.append_assoc, List.append_assoc, List.take_append_of_le_length (Nat.le_of_eq length.symm)]
  exact List.take_of_length_le (Nat.le_of_eq length)

theorem patch_append {β : Type*} (first second new : List β) :
    patch (first ++ second) first.length new = first ++ new ++ second.drop new.length := by
  rw [patch, List.take_left, List.drop_append]
  simp

@[simp] theorem patch_nil {β : Type*} (old : List β) (position : Nat) :
    patch old position [] = old := by
  simp [patch]

theorem patch_cons {β : Type*} (old rest : List β) (position : Nat) (item : β) :
    patch (patch old position [item]) (position + 1) rest = patch old position (item :: rest) := by
  have front : (patch old position [item]).take (position + 1) = old.take position ++ [item] := by
    rcases Nat.le_total position old.length with inside | beyond
    · have kept : (patch old position ([item] ++ [])).take (position + [item].length) =
          old.take position ++ [item] := take_patch_append inside
      exact kept
    · rw [patch, List.drop_eq_nil_of_le (by rw [List.length_singleton]; omega), List.append_nil]
      apply List.take_of_length_le
      rw [List.length_append]
      exact Nat.add_le_add_right (List.length_take_le position old) 1
  have back : (patch old position [item]).drop (position + 1 + rest.length) =
      old.drop (position + 1 + rest.length) := by
    rcases Nat.le_total position old.length with inside | beyond
    · rw [patch, List.drop_append, List.length_append, List.length_take_of_le inside,
        List.length_singleton, Nat.add_sub_cancel_left, List.drop_drop,
        List.drop_eq_nil_of_le (by simp; omega), List.nil_append]
    · rw [patch, List.drop_eq_nil_of_le (by simp; omega), List.drop_eq_nil_of_le (by omega)]
  rw [patch, front, back, patch, List.length_cons]
  simp [Nat.add_assoc, Nat.add_comm rest.length]

theorem patch_last {β : Type*} {old : List β} (nonempty : old ≠ []) (last : β) :
    patch old (old.length - 1) [last] = old.dropLast ++ [last] := by
  rcases List.eq_nil_or_concat old with empty | ⟨init, final, rfl⟩
  · exact absurd empty nonempty
  · simpa using patch_append init [final] [last]

structure Heap (β : Type*) where
  cells : Nat → Option (List β)
  next : Nat
  releases : List Release
  beyond : ∀ block, next ≤ block → cells block = none

namespace Heap

variable {β : Type*}

def empty : Heap β := ⟨fun _ => none, 0, [], fun _ _ => rfl⟩

def live (heap : Heap β) (block : Nat) : Prop := (heap.cells block).isSome = true

instance (heap : Heap β) (block : Nat) : Decidable (heap.live block) :=
  inferInstanceAs (Decidable (_ = _))

def bytes (heap : Heap β) (block : Nat) : List β := (heap.cells block).getD []

/-- What a possibly null pointer to the start of a block leads to. -/
def deref (heap : Heap β) : Option Nat → List β
  | none => []
  | some block => heap.bytes block

@[simp] theorem deref_none (heap : Heap β) : heap.deref none = [] := rfl

@[simp] theorem deref_some (heap : Heap β) (block : Nat) :
    heap.deref (some block) = heap.bytes block := rfl

def alloc (heap : Heap β) (contents : List β) : Nat × Heap β :=
  (heap.next,
    { heap with
      cells := Function.update heap.cells heap.next (some contents)
      next := heap.next + 1
      beyond := by
        intro block later
        rw [Function.update_of_ne (by omega)]
        exact heap.beyond block (by omega) })

/-- Drop a block without a release request, as a move by `realloc` does. -/
def discard (heap : Heap β) (block : Nat) : Heap β :=
  { heap with
    cells := Function.update heap.cells block none
    beyond := by
      intro other later
      by_cases same : other = block
      · simp [same]
      · rw [Function.update_of_ne same]
        exact heap.beyond other later }

/-- Replace the contents of a live block; other identifiers are left alone. -/
def store (heap : Heap β) (block : Nat) (contents : List β) : Heap β :=
  { heap with
    cells := Function.update heap.cells block ((heap.cells block).map fun _ => contents)
    beyond := by
      intro other later
      by_cases same : other = block
      · subst other
        simp [heap.beyond block later]
      · rw [Function.update_of_ne same]
        exact heap.beyond other later }

def accepts (heap : Heap β) (pointer : Pointer) : Bool :=
  pointer.offset == 0 && (heap.cells pointer.block).isSome

/-- Record a release request; only a valid one takes the block off the heap. -/
def free (heap : Heap β) (pointer : Pointer) : Heap β :=
  let recorded : Heap β :=
    { heap with releases := heap.releases ++ [⟨pointer, heap.accepts pointer⟩] }
  if heap.accepts pointer then recorded.discard pointer.block else recorded

theorem live_lt_next {heap : Heap β} {block : Nat} (present : heap.live block) :
    block < heap.next := by
  by_contra later
  simp [live, heap.beyond block (by omega)] at present

@[simp] theorem alloc_fst (heap : Heap β) (contents : List β) :
    (heap.alloc contents).1 = heap.next := rfl

@[simp] theorem alloc_next (heap : Heap β) (contents : List β) :
    (heap.alloc contents).2.next = heap.next + 1 := rfl

@[simp] theorem alloc_releases (heap : Heap β) (contents : List β) :
    (heap.alloc contents).2.releases = heap.releases := rfl

@[simp] theorem alloc_cells_self (heap : Heap β) (contents : List β) :
    (heap.alloc contents).2.cells heap.next = some contents := by
  simp [alloc]

theorem alloc_cells_of_ne (heap : Heap β) (contents : List β) {block : Nat}
    (other : block ≠ heap.next) : (heap.alloc contents).2.cells block = heap.cells block := by
  simp [alloc, other]

theorem alloc_cells_of_live {heap : Heap β} (contents : List β) {block : Nat}
    (present : heap.live block) : (heap.alloc contents).2.cells block = heap.cells block :=
  alloc_cells_of_ne heap contents (Nat.ne_of_lt (live_lt_next present))

theorem alloc_live {heap : Heap β} {contents : List β} {block : Nat} :
    (heap.alloc contents).2.live block ↔ block = heap.next ∨ heap.live block := by
  by_cases same : block = heap.next
  · subst block; simp [live]
  · simp [live, alloc_cells_of_ne heap contents same, same]

@[simp] theorem discard_next (heap : Heap β) (block : Nat) :
    (heap.discard block).next = heap.next := rfl

@[simp] theorem discard_releases (heap : Heap β) (block : Nat) :
    (heap.discard block).releases = heap.releases := rfl

@[simp] theorem discard_cells_self (heap : Heap β) (block : Nat) :
    (heap.discard block).cells block = none := by
  simp [discard]

theorem discard_cells_of_ne (heap : Heap β) {block other : Nat} (different : other ≠ block) :
    (heap.discard block).cells other = heap.cells other := by
  simp [discard, different]

theorem discard_live {heap : Heap β} {block other : Nat} :
    (heap.discard block).live other ↔ other ≠ block ∧ heap.live other := by
  by_cases same : other = block
  · subst other; simp [live]
  · simp [live, discard_cells_of_ne heap same, same]

@[simp] theorem store_next (heap : Heap β) (block : Nat) (contents : List β) :
    (heap.store block contents).next = heap.next := rfl

@[simp] theorem store_releases (heap : Heap β) (block : Nat) (contents : List β) :
    (heap.store block contents).releases = heap.releases := rfl

theorem store_cells_self {heap : Heap β} {block : Nat} (contents : List β)
    (present : heap.live block) : (heap.store block contents).cells block = some contents := by
  obtain ⟨old, found⟩ := Option.isSome_iff_exists.mp present
  simp [store, found]

theorem bytes_store_self {heap : Heap β} {block : Nat} (contents : List β)
    (present : heap.live block) : (heap.store block contents).bytes block = contents := by
  rw [bytes, store_cells_self contents present, Option.getD_some]

theorem store_cells_of_ne (heap : Heap β) {block other : Nat} (contents : List β)
    (different : other ≠ block) : (heap.store block contents).cells other = heap.cells other := by
  simp [store, different]

@[simp] theorem store_live {heap : Heap β} {block other : Nat} {contents : List β} :
    (heap.store block contents).live other ↔ heap.live other := by
  by_cases same : other = block
  · subst other; simp [live, store]
  · simp [live, store_cells_of_ne heap contents same]

theorem store_bytes (heap : Heap β) (block : Nat) :
    heap.store block (heap.bytes block) = heap := by
  have same : Function.update heap.cells block
      ((heap.cells block).map fun _ => heap.bytes block) = heap.cells := by
    rw [Function.update_eq_self_iff]
    cases found : heap.cells block with
    | none => rfl
    | some contents => simp [bytes, found]
  simp only [store, same]

theorem store_store (heap : Heap β) (block : Nat) (first second : List β) :
    (heap.store block first).store block second = heap.store block second := by
  simp [store, Function.update_idem, Function.comp_def]

/-- Overwriting a stretch of a block item by item. -/
theorem store_patch_cons (heap : Heap β) (block position : Nat) (item : β) (rest : List β) :
    (heap.store block (patch (heap.bytes block) position [item])).store block
        (patch ((heap.store block (patch (heap.bytes block) position [item])).bytes block)
          (position + 1) rest) =
      heap.store block (patch (heap.bytes block) position (item :: rest)) := by
  rw [store_store]
  by_cases present : heap.live block
  · rw [bytes_store_self _ present, patch_cons]
  · have absent : heap.cells block = none := by simpa [live] using present
    simp [store, absent]

theorem free_releases (heap : Heap β) (pointer : Pointer) :
    (heap.free pointer).releases = heap.releases ++ [⟨pointer, heap.accepts pointer⟩] := by
  unfold free
  split <;> simp [discard]

@[simp] theorem free_next (heap : Heap β) (pointer : Pointer) :
    (heap.free pointer).next = heap.next := by
  unfold free
  split <;> rfl

theorem accepts_iff {heap : Heap β} {pointer : Pointer} :
    heap.accepts pointer = true ↔ pointer.offset = 0 ∧ heap.live pointer.block := by
  simp [accepts, live]

theorem free_cells_of_ne (heap : Heap β) {pointer : Pointer} {block : Nat}
    (different : block ≠ pointer.block) : (heap.free pointer).cells block = heap.cells block := by
  unfold free
  split
  · exact discard_cells_of_ne _ different
  · rfl

theorem free_live {heap : Heap β} {pointer : Pointer} {block : Nat} :
    (heap.free pointer).live block ↔
      heap.live block ∧ ¬ (pointer.offset = 0 ∧ pointer.block = block) := by
  unfold free
  split
  · rename_i accepted
    rw [discard_live]
    have start := (accepts_iff.mp accepted).1
    constructor
    · exact fun left => ⟨left.2, fun same => left.1 same.2.symm⟩
    · exact fun left => ⟨fun same => left.2 ⟨start, same.symm⟩, left.1⟩
  · rename_i refused
    refine (and_iff_left_of_imp ?_).symm
    rintro present ⟨start, rfl⟩
    exact refused (accepts_iff.mpr ⟨start, present⟩)

/-- Free several blocks, one after the other. -/
def freeAll (heap : Heap β) (blocks : List Nat) : Heap β :=
  blocks.foldl (fun heap block => heap.free ⟨block, 0⟩) heap

theorem freeAll_cons (heap : Heap β) (block : Nat) (rest : List Nat) :
    heap.freeAll (block :: rest) = (heap.free ⟨block, 0⟩).freeAll rest := rfl

@[simp] theorem freeAll_next (heap : Heap β) (blocks : List Nat) :
    (heap.freeAll blocks).next = heap.next := by
  induction blocks generalizing heap with
  | nil => rfl
  | cons block rest ih => rw [freeAll_cons, ih, free_next]

theorem freeAll_cells_of_notMem (heap : Heap β) {blocks : List Nat} {other : Nat}
    (outside : other ∉ blocks) : (heap.freeAll blocks).cells other = heap.cells other := by
  induction blocks generalizing heap with
  | nil => rfl
  | cons block rest ih =>
    obtain ⟨different, later⟩ := not_or.mp (mt List.mem_cons.mpr outside)
    rw [freeAll_cons, ih _ later, free_cells_of_ne _ different]

/-- Live blocks that differ are all freed by valid requests. -/
theorem freeAll_releases (heap : Heap β) {blocks : List Nat} (distinct : blocks.Nodup)
    (present : ∀ block ∈ blocks, heap.live block) : (heap.freeAll blocks).releases =
      heap.releases ++ blocks.map fun block => ⟨⟨block, 0⟩, true⟩ := by
  induction blocks generalizing heap with
  | nil => simp [freeAll]
  | cons block rest ih =>
    obtain ⟨first, later⟩ := List.nodup_cons.mp distinct
    have accepted : heap.accepts ⟨block, 0⟩ = true :=
      accepts_iff.mpr ⟨rfl, present block List.mem_cons_self⟩
    rw [freeAll_cons, ih _ later, free_releases, accepted]
    · simp
    · intro other member
      refine free_live.mpr ⟨present other (List.mem_cons_of_mem block member), ?_⟩
      rintro ⟨_, rfl⟩
      exact first member

theorem freeAll_live {heap : Heap β} {blocks : List Nat} {other : Nat} :
    (heap.freeAll blocks).live other ↔ heap.live other ∧ other ∉ blocks := by
  induction blocks generalizing heap with
  | nil => exact (and_iff_left List.not_mem_nil).symm
  | cons block rest ih =>
    rw [freeAll_cons, ih, free_live, List.mem_cons, not_or]
    simp [and_assoc, eq_comm]

/-- The blocks that were allocated and not yet freed. -/
def blocks (heap : Heap β) : List Nat :=
  (List.range heap.next).filter fun block => (heap.cells block).isSome

theorem mem_blocks {heap : Heap β} {block : Nat} : block ∈ heap.blocks ↔ heap.live block := by
  rw [blocks, List.mem_filter, List.mem_range]
  exact and_iff_right_of_imp live_lt_next

theorem nodup_blocks (heap : Heap β) : heap.blocks.Nodup := List.nodup_range.filter _

theorem blocks_perm {heap : Heap β} {known : List Nat} (distinct : known.Nodup)
    (same : ∀ block, heap.live block ↔ block ∈ known) : heap.blocks.Perm known :=
  (List.perm_ext_iff_of_nodup heap.nodup_blocks distinct).mpr fun block =>
    mem_blocks.trans (same block)

theorem blocks_filter {first second : Heap β} {kept : Nat → Bool}
    (same : ∀ block, second.live block ↔ first.live block ∧ kept block = true) :
    second.blocks.Perm (first.blocks.filter kept) := by
  refine blocks_perm (first.nodup_blocks.filter kept) fun block => ?_
  rw [same, List.mem_filter, mem_blocks]

theorem length_blocks_le {heap : Heap β} {known : List Nat}
    (covered : ∀ block, heap.live block → block ∈ known) : heap.blocks.length ≤ known.length :=
  (List.subperm_of_subset heap.nodup_blocks fun block member =>
    covered block (mem_blocks.mp member)).length_le

theorem le_length_blocks {heap : Heap β} {known : List Nat} (distinct : known.Nodup)
    (present : ∀ block ∈ known, heap.live block) : known.length ≤ heap.blocks.length :=
  (List.subperm_of_subset distinct fun block member =>
    mem_blocks.mpr (present block member)).length_le

/-- Every release request named the start of a live block, and no block was named twice. -/
structure Sound (heap : Heap β) : Prop where
  valid : ∀ release ∈ heap.releases, release.valid = true
  once : (heap.releases.map fun release => release.pointer.block).Nodup

theorem sound_of_silent {heap : Heap β} (silent : heap.releases = []) : heap.Sound :=
  ⟨by simp [silent], by simp [silent]⟩

/-- Sound, and what was released is not live again. -/
structure Tidy (heap : Heap β) : Prop extends heap.Sound where
  dead : ∀ release ∈ heap.releases,
    release.pointer.block < heap.next ∧ ¬ heap.live release.pointer.block

theorem tidy_empty : (empty : Heap β).Tidy :=
  ⟨sound_of_silent rfl, by simp [empty]⟩

theorem Tidy.grows {first second : Heap β} (tidy : first.Tidy)
    (silent : second.releases = first.releases) (further : first.next ≤ second.next)
    (older : ∀ block, block < first.next → second.live block → first.live block) :
    second.Tidy := by
  refine ⟨⟨silent ▸ tidy.valid, silent ▸ tidy.once⟩, ?_⟩
  intro release member
  obtain ⟨before, dead⟩ := tidy.dead release (silent ▸ member)
  exact ⟨Nat.lt_of_lt_of_le before further, mt (older _ before) dead⟩

theorem Tidy.freeAll {heap : Heap β} (tidy : heap.Tidy) {blocks : List Nat}
    (distinct : blocks.Nodup) (present : ∀ block ∈ blocks, heap.live block) :
    (heap.freeAll blocks).Tidy := by
  have releases := heap.freeAll_releases distinct present
  have named : (heap.freeAll blocks).releases.map (fun release => release.pointer.block) =
      heap.releases.map (fun release => release.pointer.block) ++ blocks := by
    rw [releases, List.map_append, List.map_map]
    exact congrArg _ (List.map_id _)
  have cases : ∀ release ∈ (heap.freeAll blocks).releases, release ∈ heap.releases ∨
      release.valid = true ∧ release.pointer.block ∈ blocks := by
    intro release member
    rw [releases] at member
    rcases List.mem_append.mp member with earlier | now
    · exact .inl earlier
    · obtain ⟨block, inside, rfl⟩ := List.mem_map.mp now
      exact .inr ⟨rfl, inside⟩
  refine ⟨⟨?_, ?_⟩, ?_⟩
  · intro release member
    rcases cases release member with earlier | ⟨valid, _⟩
    · exact tidy.valid release earlier
    · exact valid
  · rw [named]
    refine tidy.once.append distinct ?_
    intro block earlier now
    obtain ⟨release, member, rfl⟩ := List.mem_map.mp earlier
    exact (tidy.dead release member).2 (present _ now)
  · intro release member
    rw [freeAll_next, freeAll_live]
    rcases cases release member with earlier | ⟨_, now⟩
    · obtain ⟨before, dead⟩ := tidy.dead release earlier
      exact ⟨before, fun both => dead both.1⟩
    · exact ⟨live_lt_next (present _ now), fun both => both.2 now⟩

theorem live_congr {first second : Heap β} {block : Nat}
    (same : first.cells block = second.cells block) : first.live block ↔ second.live block := by
  rw [live, live, same]

end Heap

end Aesd.Library
