import Aesd.Driver.FifoRefinement

namespace Aesd.Driver

open Aesd.Library

variable {buffer : AesdCircularBuffer}

@[simp] theorem AesdCircularBuffer.length_live (buffer : AesdCircularBuffer) :
    buffer.live.length = buffer.totalEntries := by
  simp [live]

@[simp] theorem AesdCircularBuffer.length_sizes (buffer : AesdCircularBuffer) :
    buffer.sizes.length = buffer.totalEntries := by
  simp [sizes]

theorem AesdCircularBuffer.totalEntries_le (buffer : AesdCircularBuffer) :
    buffer.totalEntries ≤ 10 := by
  have below := buffer.inOffs_lt_ten
  rw [totalEntries_eq]
  split <;> omega

theorem AesdCircularBuffer.sizes_getElem? (buffer : AesdCircularBuffer) (index : Nat) :
    buffer.sizes[index]? =
      if index < buffer.totalEntries then some (buffer.fromOldest index).size.toNat else none := by
  by_cases inside : index < buffer.totalEntries
  · simp [sizes, live, inside]
  · simp [inside]

/-- The rounds from `first` on look the offset up in the sizes from there on. -/
private theorem findRounds_spec (count first : Nat) (charOffset rtn : UInt64) :
    findRounds buffer charOffset rtn (List.range' first count) =
      match locate ((List.range' first count).map fun i => (buffer.fromOldest i).size.toNat)
          charOffset.toNat with
      | none => (none, rtn)
      | some (segment, inner) =>
        (some (slotOf (buffer.outOffs.toNat + (first + segment))), UInt64.ofNat inner) := by
  induction count generalizing first charOffset with
  | zero => simp [findRounds, locate]
  | succ count ih =>
    rw [List.range'_succ]
    simp only [findRounds, List.map_cons, locate]
    by_cases inside : charOffset < (buffer.fromOldest first).size
    · have less := UInt64.lt_iff_toNat_lt.mp inside
      simp [inside, less]
    · have past : ¬ charOffset.toNat < (buffer.fromOldest first).size.toNat :=
        fun less => inside (UInt64.lt_iff_toNat_lt.mpr less)
      have exact : (charOffset - (buffer.fromOldest first).size).toNat =
          charOffset.toNat - (buffer.fromOldest first).size.toNat :=
        UInt64.toNat_sub_of_le _ _ (UInt64.le_iff_toNat_le.mpr (not_lt.mp past))
      simp only [inside, past, ↓reduceIte, ih, exact]
      cases locate ((List.range' (first + 1) count).map fun i => (buffer.fromOldest i).size.toNat)
          (charOffset.toNat - (buffer.fromOldest first).size.toNat) with
      | none => rfl
      | some found => simp [Nat.add_assoc, Nat.add_comm 1]

/-- The lookup finds the entry and the byte that the offset has in the live
entries laid end to end; it writes the byte only when it finds them. -/
theorem find_spec (buffer : AesdCircularBuffer) (charOffset rtn : UInt64) :
    aesdCircularBufferFindEntryOffsetForFpos buffer charOffset rtn =
      match locate buffer.sizes charOffset.toNat with
      | none => (none, rtn)
      | some (segment, inner) =>
        (some (slotOf (buffer.outOffs.toNat + segment)), UInt64.ofNat inner) := by
  rw [aesdCircularBufferFindEntryOffsetForFpos, List.range_eq_range', findRounds_spec]
  simp only [AesdCircularBuffer.sizes, AesdCircularBuffer.live, List.map_map, List.range_eq_range',
    Nat.zero_add]
  rfl

/-- A lookup that succeeds ends in a live entry, at one of its bytes. -/
theorem find_some {buffer : AesdCircularBuffer} {charOffset rtn : UInt64} {slot : Slot}
    (found : (aesdCircularBufferFindEntryOffsetForFpos buffer charOffset rtn).1 = some slot) :
    buffer.entry slot ∈ buffer.live ∧
      (aesdCircularBufferFindEntryOffsetForFpos buffer charOffset rtn).2 <
        (buffer.entry slot).size := by
  rw [find_spec] at found ⊢
  cases located : locate buffer.sizes charOffset.toNat with
  | none => simp [located] at found
  | some place =>
    obtain ⟨segment, inner⟩ := place
    obtain ⟨size, present, inside, _⟩ := (locate_eq_some_iff _ _ _ _).mp located
    rw [buffer.sizes_getElem?] at present
    split at present
    · rename_i isRound
      simp only [located, Option.some.injEq] at found ⊢
      subst slot
      obtain rfl := Option.some.inj present
      refine ⟨List.mem_map.mpr ⟨segment, List.mem_range.mpr isRound, rfl⟩, ?_⟩
      have bound := (buffer.fromOldest segment).size.toNat_lt
      rw [UInt64.lt_iff_toNat_lt, UInt64.toNat_ofNat_of_lt' (Nat.lt_trans inside bound)]
      exact inside
    · cases present

theorem slotOf_add_injective (start : Nat) {first second : Nat} (firstRound : first < 10)
    (secondRound : second < 10) (same : slotOf (start + first) = slotOf (start + second)) :
    first = second := by
  have values := congrArg Fin.val same
  simp only [slotOf_val] at values
  omega

/-- The loop with every subtraction it makes on the way, minuend first. -/
def findRoundsLogged (buffer : AesdCircularBuffer) (charOffset entryOffsetByteRtn : UInt64) :
    List Nat → (Option Slot × UInt64) × List (UInt64 × UInt64)
  | [] => ((none, entryOffsetByteRtn), [])
  | i :: rounds =>
    let entry := buffer.fromOldest i
    if charOffset < entry.size then
      ((some (slotOf (buffer.outOffs.toNat + i)), charOffset), [])
    else
      let later := findRoundsLogged buffer (charOffset - entry.size) entryOffsetByteRtn rounds
      (later.1, (charOffset, entry.size) :: later.2)

theorem findRoundsLogged_fst (rounds : List Nat) (charOffset rtn : UInt64) :
    (findRoundsLogged buffer charOffset rtn rounds).1 = findRounds buffer charOffset rtn rounds := by
  induction rounds generalizing charOffset with
  | nil => rfl
  | cons i rounds ih =>
    simp only [findRoundsLogged, findRounds]
    split
    · rfl
    · exact ih _

/-- The running offset of a round is the offset looked up less the sizes of the
rounds before it, so what a round subtracts is there to be subtracted. -/
theorem findRoundsLogged_exact (rounds : List Nat) (charOffset rtn : UInt64) (round : Nat)
    (minuend subtrahend : UInt64)
    (logged : (findRoundsLogged buffer charOffset rtn rounds).2[round]? =
      some (minuend, subtrahend)) :
    subtrahend ≤ minuend ∧
      minuend.toNat + ((rounds.take round).map fun i => (buffer.fromOldest i).size.toNat).sum =
        charOffset.toNat := by
  induction rounds generalizing charOffset round with
  | nil => simp [findRoundsLogged] at logged
  | cons i rounds ih =>
    by_cases inside : charOffset < (buffer.fromOldest i).size
    · simp [findRoundsLogged, inside] at logged
    · simp only [findRoundsLogged, inside, ↓reduceIte] at logged
      have fits := UInt64.not_lt.mp inside
      cases round with
      | zero =>
        simp only [List.getElem?_cons_zero, Option.some.injEq, Prod.mk.injEq] at logged
        obtain ⟨rfl, rfl⟩ := logged
        exact ⟨fits, rfl⟩
      | succ round =>
        rw [List.getElem?_cons_succ] at logged
        obtain ⟨covered, total⟩ := ih _ _ logged
        rw [UInt64.toNat_sub_of_le _ _ fits] at total
        have less := UInt64.le_iff_toNat_le.mp fits
        refine ⟨covered, ?_⟩
        rw [List.take_succ_cons, List.map_cons, List.sum_cons]
        omega

/-- The entry `index` places after the oldest has byte `inner`, and that is the
byte at `charOffset` of all live entries laid end to end. -/
def AesdCircularBuffer.ByteAt (buffer : AesdCircularBuffer) (charOffset index inner : Nat) :
    Prop :=
  ∃ size, buffer.sizes[index]? = some size ∧ inner < size ∧
    (buffer.sizes.take index).sum + inner = charOffset

theorem AesdCircularBuffer.ByteAt.unique {charOffset first firstInner second secondInner : Nat}
    (one : buffer.ByteAt charOffset first firstInner)
    (other : buffer.ByteAt charOffset second secondInner) :
    second = first ∧ secondInner = firstInner := by
  have located := (locate_eq_some_iff _ _ _ _).mpr one
  rw [(locate_eq_some_iff _ _ _ _).mpr other] at located
  exact Prod.mk.inj (Option.some.inj located)

/-- Whatever was added, the lookup succeeds exactly below the total number of
live bytes. Then it returns the only live entry that has the byte, and which
byte of it that is; otherwise it leaves the caller's cell alone. -/
theorem find_returns_only_entry (added : List AesdBufferEntry) (charOffset rtn : UInt64) :
    let buffer := ringAfter added
    let found := aesdCircularBufferFindEntryOffsetForFpos buffer charOffset rtn
    let logged := findRoundsLogged buffer charOffset rtn (List.range buffer.totalEntries)
    buffer.live = added.rtake 10 ∧
    (found.1 ≠ none ↔ charOffset.toNat < buffer.sizes.sum) ∧
    (∀ slot, found.1 = some slot → ∃ index,
      slot = slotOf (buffer.outOffs.toNat + index) ∧
      buffer.live[index]? = some (buffer.entry slot) ∧
      buffer.ByteAt charOffset.toNat index found.2.toNat ∧
      ∀ other inner, buffer.ByteAt charOffset.toNat other inner →
        other = index ∧ inner = found.2.toNat) ∧
    logged.1 = found ∧
    (∀ (round : Nat) (minuend subtrahend : UInt64),
      logged.2[round]? = some (minuend, subtrahend) →
        subtrahend ≤ minuend ∧
          minuend.toNat + (buffer.sizes.take round).sum = charOffset.toNat) ∧
    (found.1 = none → found.2 = rtn) := by
  intro buffer found logged
  have spec := find_spec buffer charOffset rtn
  refine ⟨(ringInvariant_ringAfter added).live, ?_, ?_, findRoundsLogged_fst _ _ _, ?_, ?_⟩
  · rw [← not_le, ← locate_eq_none_iff, not_iff_not]
    simp only [found, spec]
    cases locate buffer.sizes charOffset.toNat with
    | none => simp
    | some place => simp
  · intro slot here
    simp only [found, spec] at here ⊢
    cases located : locate buffer.sizes charOffset.toNat with
    | none => simp [located] at here
    | some place =>
      obtain ⟨index, inner⟩ := place
      have byte : buffer.ByteAt charOffset.toNat index inner :=
        (locate_eq_some_iff _ _ _ _).mp located
      obtain ⟨size, present, inside, total⟩ := byte
      have bound := charOffset.toNat_lt
      have exact : (UInt64.ofNat inner).toNat = inner :=
        UInt64.toNat_ofNat_of_lt' (by simp only [UInt64.size]; omega)
      have isLive : index < buffer.totalEntries := by
        simpa using (List.getElem?_eq_some_iff.mp present).1
      simp only [located, Option.some.injEq] at here ⊢
      subst slot
      refine ⟨index, rfl, ?_, ?_, ?_⟩
      · simp [AesdCircularBuffer.live, isLive, AesdCircularBuffer.fromOldest]
      · rw [exact]
        exact ⟨size, present, inside, total⟩
      · intro other otherInner otherByte
        rw [exact]
        exact AesdCircularBuffer.ByteAt.unique ⟨size, present, inside, total⟩ otherByte
  · intro round minuend subtrahend subtracted
    obtain ⟨covered, total⟩ := findRoundsLogged_exact _ _ _ _ _ _ subtracted
    refine ⟨covered, ?_⟩
    rw [← total]
    simp only [AesdCircularBuffer.sizes, AesdCircularBuffer.live, List.map_map, List.map_take]
    rfl
  · intro missing
    simp only [found, spec] at missing ⊢
    cases located : locate buffer.sizes charOffset.toNat with
    | none => rfl
    | some place => simp [located] at missing

end Aesd.Driver
