import Mathlib.Algebra.Order.BigOperators.Group.List
import Mathlib.Algebra.Ring.Nat

namespace Aesd.Library

/-- The segment a position falls into, and the position inside that segment. -/
def locate : List Nat → Nat → Option (Nat × Nat)
  | [], _ => none
  | size :: rest, position =>
    if position < size then some (0, position)
    else (locate rest (position - size)).map fun found => (found.1 + 1, found.2)

theorem locate_eq_none_iff (sizes : List Nat) (position : Nat) :
    locate sizes position = none ↔ sizes.sum ≤ position := by
  induction sizes generalizing position with
  | nil => simp [locate]
  | cons size rest ih =>
    by_cases inside : position < size
    · simp [locate, inside]; omega
    · simp [locate, inside, ih]; omega

/-- The located segment is the only one that makes the prefix sum and the inner
position add up. -/
theorem locate_eq_some_iff (sizes : List Nat) (position segment inner : Nat) :
    locate sizes position = some (segment, inner) ↔
      ∃ size, sizes[segment]? = some size ∧ inner < size ∧
        (sizes.take segment).sum + inner = position := by
  induction sizes generalizing position segment with
  | nil => simp [locate]
  | cons size rest ih =>
    by_cases inside : position < size
    · cases segment with
      | zero => simp [locate, inside]; omega
      | succ segment => simp [locate, inside]; omega
    · cases segment with
      | zero => simp [locate, inside]; omega
      | succ segment =>
        have shift : ∀ found : Nat × Nat,
            (found.1 + 1 = segment + 1 ∧ found.2 = inner) ↔ found = (segment, inner) := by
          rintro ⟨first, second⟩; simp
        simp only [locate, inside, ↓reduceIte, Option.map_eq_some_iff, Prod.mk.injEq, shift,
          exists_eq_right, ih, List.getElem?_cons_succ, List.take_succ_cons, List.sum_cons]
        constructor
        · rintro ⟨found, present, less, total⟩
          exact ⟨found, present, less, by omega⟩
        · rintro ⟨found, present, less, total⟩
          exact ⟨found, present, less, by omega⟩

theorem locate_prefix_add {sizes : List Nat} {segment size inner : Nat}
    (present : sizes[segment]? = some size) (inside : inner < size) :
    locate sizes ((sizes.take segment).sum + inner) = some (segment, inner) :=
  (locate_eq_some_iff _ _ _ _).mpr ⟨size, present, inside, rfl⟩

section Lists

variable {α : Type*}

/-- What is left, from a position of the concatenation on, of the list it falls into. -/
def segmentFrom : List (List α) → Nat → List α
  | [], _ => []
  | segment :: rest, position =>
    if position < segment.length then segment.drop position
    else segmentFrom rest (position - segment.length)

theorem segmentFrom_eq_nil_iff (segments : List (List α)) (position : Nat) :
    segmentFrom segments position = [] ↔ segments.flatten.length ≤ position := by
  induction segments generalizing position with
  | nil => simp [segmentFrom]
  | cons segment rest ih =>
    rw [segmentFrom, List.flatten_cons, List.length_append]
    split
    · rw [List.drop_eq_nil_iff]
      omega
    · rw [ih]
      omega

theorem segmentFrom_prefix (segments : List (List α)) (position : Nat) :
    segmentFrom segments position <+: segments.flatten.drop position := by
  induction segments generalizing position with
  | nil => simp [segmentFrom]
  | cons segment rest ih =>
    rw [segmentFrom, List.flatten_cons]
    split
    · rename_i inside
      rw [List.drop_append_of_le_length (Nat.le_of_lt inside)]
      exact List.prefix_append _ _
    · rename_i past
      rw [List.drop_append, List.drop_eq_nil_of_le (not_lt.mp past), List.nil_append]
      exact ih _

/-- Locating a position finds the segment that `segmentFrom` takes the rest of. -/
theorem segmentFrom_of_locate {segments : List (List α)} {position index inner : Nat}
    (located : locate (segments.map List.length) position = some (index, inner)) :
    ∃ segment, segments[index]? = some segment ∧ inner < segment.length ∧
      segmentFrom segments position = segment.drop inner := by
  induction segments generalizing position index with
  | nil => cases located
  | cons segment rest ih =>
    rw [List.map_cons, locate] at located
    rw [segmentFrom]
    split at located
    · rename_i inside
      cases located
      exact ⟨segment, rfl, inside, if_pos inside⟩
    · rename_i past
      obtain ⟨place, found, same⟩ := Option.map_eq_some_iff.mp located
      cases same
      rw [if_neg past]
      exact ih found

end Lists

end Aesd.Library
