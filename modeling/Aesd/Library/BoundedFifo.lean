import Mathlib.Data.List.DropRight

namespace Aesd.Library

variable {α : Type*}

theorem rtake_append_singleton_of_length_lt {capacity : Nat} {items : List α} (item : α)
    (room : items.length < capacity) : (items ++ [item]).rtake capacity = items ++ [item] := by
  have fits : (items ++ [item]).length - capacity = 0 := by simp; omega
  rw [List.rtake, fits, List.drop_zero]

theorem length_rtake (capacity : Nat) (items : List α) :
    (items.rtake capacity).length = min capacity items.length := by
  simp [List.rtake]; omega

/-- Dropping all but the last `capacity` items twice, with a push between, is
dropping once at the end. -/
theorem rtake_rtake_append_singleton (capacity : Nat) (items : List α) (item : α) :
    (items.rtake capacity ++ [item]).rtake capacity = (items ++ [item]).rtake capacity := by
  cases capacity with
  | zero => simp
  | succ capacity =>
    rw [List.rtake_concat_succ, List.rtake_concat_succ]
    congr 1
    simp only [List.rtake, List.length_drop, List.drop_drop]
    congr 1
    omega

theorem rdrop_mono (capacity : Nat) {first second : List α} (earlier : first <+: second) :
    first.rdrop capacity <+: second.rdrop capacity := by
  obtain ⟨rest, rfl⟩ := earlier
  have fewer : first.length - capacity ≤ (first ++ rest).length - capacity := by
    rw [List.length_append]
    omega
  rw [List.rdrop, ← List.take_append_of_le_length (Nat.sub_le first.length capacity)]
  exact List.take_prefix_take_left fewer

structure BoundedFifo (capacity : Nat) (α : Type*) where
  items : List α
  bounded : items.length ≤ capacity

namespace BoundedFifo

variable {capacity : Nat}

@[ext] theorem ext {first second : BoundedFifo capacity α} (same : first.items = second.items) :
    first = second := by
  cases first; cases second; simpa using same

def empty (capacity : Nat) (α : Type*) : BoundedFifo capacity α := ⟨[], Nat.zero_le _⟩

/-- Push one item; a full store gives up its oldest item. -/
def push (fifo : BoundedFifo capacity α) (item : α) : Option α × BoundedFifo capacity α :=
  (if fifo.items.length = capacity then (fifo.items ++ [item]).head? else none,
   ⟨(fifo.items ++ [item]).rtake capacity, by rw [length_rtake]; omega⟩)

theorem push_evicted (fifo : BoundedFifo capacity α) (item : α) :
    (fifo.push item).1 =
      if fifo.items.length = capacity then (fifo.items ++ [item]).head? else none := rfl

@[simp] theorem push_items (fifo : BoundedFifo capacity α) (item : α) :
    (fifo.push item).2.items = (fifo.items ++ [item]).rtake capacity := rfl

def pushAll (fifo : BoundedFifo capacity α) (items : List α) : BoundedFifo capacity α :=
  items.foldl (fun current item => (current.push item).2) fifo

@[simp] theorem pushAll_append_singleton (fifo : BoundedFifo capacity α) (items : List α) (item : α) :
    fifo.pushAll (items ++ [item]) = ((fifo.pushAll items).push item).2 := by
  simp [pushAll]

/-- The store always holds exactly the most recent items. -/
theorem pushAll_items (fifo : BoundedFifo capacity α) (items : List α) :
    (fifo.pushAll items).items = (fifo.items ++ items).rtake capacity := by
  induction items using List.reverseRecOn with
  | nil =>
    have kept : fifo.items.length - capacity = 0 := Nat.sub_eq_zero_of_le fifo.bounded
    simp [pushAll, List.rtake, kept]
  | append_singleton rest item ih =>
    rw [pushAll_append_singleton, push_items, ih, rtake_rtake_append_singleton, List.append_assoc]

end BoundedFifo

end Aesd.Library
