import Mathlib.Data.List.Induction

namespace Aesd.Library

variable {α : Type*}

/-- Append one item to the open group, and close the group when the item says so. -/
def cutStep (closes : α → Bool) (groups : List (List α) × List α) (item : α) :
    List (List α) × List α :=
  if closes item then (groups.1 ++ [groups.2 ++ [item]], []) else (groups.1, groups.2 ++ [item])

/-- The complete groups in order, and the open group at the end. -/
def cut (closes : α → Bool) (items : List α) : List (List α) × List α :=
  items.foldl (cutStep closes) ([], [])

variable {closes : α → Bool}

theorem cut_append_singleton (items : List α) (item : α) :
    cut closes (items ++ [item]) = cutStep closes (cut closes items) item := by
  simp [cut]

theorem cut_flatten (items : List α) :
    (cut closes items).1.flatten ++ (cut closes items).2 = items := by
  induction items using List.reverseRecOn with
  | nil => rfl
  | append_singleton rest item ih =>
    rw [cut_append_singleton, cutStep]
    split
    · simp [← List.append_assoc, ih]
    · simp [← List.append_assoc, ih]

/-- Later items do not touch the groups that are complete. -/
theorem cut_grows (first second : List α) :
    (cut closes first).1 <+: (cut closes (first ++ second)).1 := by
  induction second using List.reverseRecOn with
  | nil => simp
  | append_singleton rest item ih =>
    rw [← List.append_assoc, cut_append_singleton, cutStep]
    split
    · exact ih.trans (List.prefix_append _ _)
    · exact ih

/-- Items that do not close anything join the open group. -/
theorem cut_append_open (first : List α) {second : List α}
    (continues : ∀ item ∈ second, closes item = false) :
    cut closes (first ++ second) = ((cut closes first).1, (cut closes first).2 ++ second) := by
  induction second using List.reverseRecOn with
  | nil => simp
  | append_singleton rest last ih =>
    have earlier := ih fun item member => continues item (List.mem_append_left _ member)
    have final := continues last (List.mem_append_right _ (List.mem_singleton_self _))
    rw [← List.append_assoc, cut_append_singleton, earlier, cutStep, final, List.append_assoc]
    rfl

/-- Items of which only the last closes something complete the open group. -/
theorem cut_append_closed (first : List α) {before : List α} {last : α}
    (continues : ∀ item ∈ before, closes item = false) (finished : closes last = true) :
    cut closes (first ++ (before ++ [last])) =
      ((cut closes first).1 ++ [(cut closes first).2 ++ (before ++ [last])], []) := by
  rw [← List.append_assoc, cut_append_singleton, cut_append_open first continues, cutStep, finished,
    List.append_assoc]
  rfl

/-- Where only the last item of a piece may close a group, cutting the pieces is
cutting the sequence they make up. -/
theorem cut_pieces {pieces : List (List α)}
    (lastOnly : ∀ piece ∈ pieces, ∀ item ∈ piece.dropLast, closes item = false) :
    cut closes pieces.flatten =
      ((cut (fun piece => piece.any closes) pieces).1.map List.flatten,
        (cut (fun piece => piece.any closes) pieces).2.flatten) := by
  induction pieces using List.reverseRecOn with
  | nil => rfl
  | append_singleton rest piece ih =>
    have earlier := ih fun other member => lastOnly other (List.mem_append_left _ member)
    have final := lastOnly piece (List.mem_append_right _ (List.mem_singleton_self _))
    rw [List.flatten_append, List.flatten_singleton, cut_append_singleton, cutStep]
    rcases List.eq_nil_or_concat piece with rfl | ⟨before, last, rfl⟩
    · simp [earlier]
    · rw [List.concat_eq_append] at final ⊢
      rw [List.dropLast_concat] at final
      cases finished : closes last with
      | true =>
        rw [cut_append_closed _ final finished, earlier]
        simp [finished]
      | false =>
        have continues : ∀ item ∈ before ++ [last], closes item = false := by
          intro item member
          rcases List.mem_append.mp member with inside | same
          · exact final item inside
          · rw [List.mem_singleton.mp same]
            exact finished
        have none : (before ++ [last]).any closes = false :=
          List.any_eq_false.mpr fun item member => Bool.eq_false_iff.mp (continues item member)
        rw [cut_append_open _ continues, earlier, none]
        simp

end Aesd.Library
