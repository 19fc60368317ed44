import Mathlib.Data.List.Basic

namespace Aesd.Library

variable {α : Type*}

/-- A piece that was offered, and how much of it was taken. -/
structure Transfer (α : Type*) where
  piece : List α
  count : Nat
deriving DecidableEq, Repr

namespace Transfer

def taken (transfer : Transfer α) : List α := transfer.piece.take transfer.count

/-- All of the piece was taken. -/
def Full (transfer : Transfer α) : Prop := transfer.count = transfer.piece.length

/-- No more was taken than was offered. -/
def Possible (transfer : Transfer α) : Prop := transfer.count ≤ transfer.piece.length

/-- What was to go over, and what went over. -/
def offeredAll (transfers : List (Transfer α)) : List α := (transfers.map Transfer.piece).flatten

def takenAll (transfers : List (Transfer α)) : List α := (transfers.map Transfer.taken).flatten

variable {transfer : Transfer α} {transfers : List (Transfer α)}

theorem length_taken (possible : transfer.Possible) : transfer.taken.length = transfer.count := by
  rw [taken, List.length_take, Nat.min_eq_left possible]

theorem taken_of_full (full : transfer.Full) : transfer.taken = transfer.piece := by
  rw [taken, full, List.take_length]

theorem length_takenAll_le (possible : ∀ transfer ∈ transfers, transfer.Possible) :
    (takenAll transfers).length ≤ (offeredAll transfers).length := by
  induction transfers with
  | nil => exact Nat.le_refl 0
  | cons first rest ih =>
    have others := ih fun transfer member => possible transfer (List.mem_cons_of_mem _ member)
    have fits : first.count ≤ first.piece.length := possible first List.mem_cons_self
    have length := length_taken fits
    simp only [takenAll, offeredAll, List.map_cons, List.flatten_cons, List.length_append] at others ⊢
    omega

/-- What went over is what was to go over, in order and once, exactly when every
piece was taken in full: what one piece lacks no later piece makes up for. -/
theorem takenAll_eq_iff (possible : ∀ transfer ∈ transfers, transfer.Possible) :
    takenAll transfers = offeredAll transfers ↔ ∀ transfer ∈ transfers, transfer.Full := by
  induction transfers with
  | nil => exact iff_of_true rfl (by simp)
  | cons first rest ih =>
    have later := fun transfer member => possible transfer (List.mem_cons_of_mem first member)
    have fits : first.count ≤ first.piece.length := possible first List.mem_cons_self
    rw [List.forall_mem_cons, ← ih later]
    change first.taken ++ takenAll rest = first.piece ++ offeredAll rest ↔ _
    constructor
    · intro same
      have short := length_taken fits
      have rests := length_takenAll_le later
      have total := congrArg List.length same
      rw [List.length_append, List.length_append] at total
      have full : first.Full := by
        rw [Full]
        omega
      rw [taken_of_full full] at same
      exact ⟨full, List.append_cancel_left same⟩
    · rintro ⟨full, same⟩
      rw [taken_of_full full, same]

theorem offeredAll_append (first second : List (Transfer α)) :
    offeredAll (first ++ second) = offeredAll first ++ offeredAll second := by
  rw [offeredAll, List.map_append, List.flatten_append]
  rfl

end Transfer

end Aesd.Library
