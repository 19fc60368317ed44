import Mathlib.Algebra.Order.BigOperators.Group.List
import Mathlib.Algebra.Order.Ring.Nat

namespace Aesd.Library

variable {α ι M : Type*} [DecidableEq ι]

/-- What the items of one owner weigh together. -/
def shareOf [AddMonoid M] (owner : α → ι) (weight : α → M) (who : ι) (items : List α) : M :=
  ((items.filter fun item => owner item = who).map weight).sum

/-- All items that weigh anything belong to one owner. -/
def OneOwner [Zero M] (owner : α → ι) (weight : α → M) (items : List α) : Prop :=
  ∀ first ∈ items, ∀ second ∈ items, weight first ≠ 0 → weight second ≠ 0 →
    owner first = owner second

section

variable [AddMonoid M] {owner : α → ι} {weight : α → M} {who : ι}

theorem shareOf_append (first second : List α) :
    shareOf owner weight who (first ++ second) =
      shareOf owner weight who first + shareOf owner weight who second := by
  rw [shareOf, List.filter_append, List.map_append, List.sum_append]
  rfl

theorem shareOf_singleton (item : α) :
    shareOf owner weight who [item] = if owner item = who then weight item else 0 := by
  by_cases same : owner item = who
  · simp [shareOf, same]
  · simp [shareOf, same]

theorem shareOf_eq_zero {items : List α}
    (weightless : ∀ item ∈ items, owner item = who → weight item = 0) :
    shareOf owner weight who items = 0 := by
  refine List.sum_eq_zero fun value member => ?_
  obtain ⟨item, inside, rfl⟩ := List.mem_map.mp member
  obtain ⟨listed, same⟩ := List.mem_filter.mp inside
  exact weightless item listed (of_decide_eq_true same)

/-- An owner of all items that weigh anything has the whole weight. -/
theorem shareOf_eq_sum {items : List α}
    (all : ∀ item ∈ items, weight item ≠ 0 → owner item = who) :
    shareOf owner weight who items = (items.map weight).sum := by
  induction items with
  | nil => rfl
  | cons item rest ih =>
    have others := ih fun other member => all other (List.mem_cons_of_mem _ member)
    rw [← List.singleton_append, shareOf_append, shareOf_singleton, others, List.map_append,
      List.sum_append, List.map_singleton, List.sum_singleton]
    by_cases same : owner item = who
    · rw [if_pos same]
    · have weightless := not_not.mp (mt (all item List.mem_cons_self) same)
      rw [if_neg same, weightless]

end

variable {owner : α → ι} {weight : α → ℕ} {who : ι}

theorem shareOf_eq_zero_iff {items : List α} :
    shareOf owner weight who items = 0 ↔
      ∀ item ∈ items, owner item = who → weight item = 0 := by
  constructor
  · intro nothing item member same
    refine List.sum_eq_zero_iff_forall_eq_nat.mp nothing _ (List.mem_map_of_mem ?_)
    exact List.mem_filter.mpr ⟨member, decide_eq_true same⟩
  · exact shareOf_eq_zero

theorem shareOf_le_sum (items : List α) :
    shareOf owner weight who items ≤ (items.map weight).sum :=
  (List.filter_sublist.map weight).sum_le_sum fun _ _ => Nat.zero_le _

/-- Crediting the whole weight to the owner of one item of weight is right for every
owner exactly when there is only one. -/
theorem credit_iff_oneOwner {items : List α} {last : α} (member : last ∈ items)
    (heavy : weight last ≠ 0) :
    (∀ who, shareOf owner weight who items =
        if who = owner last then (items.map weight).sum else 0) ↔
      OneOwner owner weight items := by
  constructor
  · intro credited
    have mine : ∀ item ∈ items, weight item ≠ 0 → owner item = owner last := by
      intro item inside weighs
      by_contra other
      have nothing := credited (owner item)
      rw [if_neg other, shareOf_eq_zero_iff] at nothing
      exact weighs (nothing item inside rfl)
    intro first firstInside second secondInside firstWeighs secondWeighs
    exact (mine first firstInside firstWeighs).trans (mine second secondInside secondWeighs).symm
  · intro one who
    by_cases same : who = owner last
    · rw [if_pos same]
      exact shareOf_eq_sum fun item inside weighs =>
        (one item inside last member weighs heavy).trans same.symm
    · rw [if_neg same, shareOf_eq_zero_iff]
      intro item inside mine
      by_contra weighs
      exact same (mine.symm.trans (one item inside last member weighs heavy))

end Aesd.Library
