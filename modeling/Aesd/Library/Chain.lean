import Mathlib.Data.List.Nodup

/-! Singly linked lists: the nodes that a chain of links visits. `next` says where the
link of a node leads; it is `none` for a node whose memory is gone. -/
namespace Aesd.Library

/-- The links from `pointer` visit `nodes`, in this order, and end in the null pointer. -/
def Chain {ν : Type*} (next : ν → Option (Option ν)) : Option ν → List ν → Prop
  | pointer, [] => pointer = none
  | pointer, node :: rest =>
    pointer = some node ∧ ∃ following, next node = some following ∧ Chain next following rest

namespace Chain

variable {ν : Type*} {next changed : ν → Option (Option ν)} {pointer : Option ν}
variable {nodes before after : List ν} {node previous : ν}

theorem pointer_eq (chain : Chain next pointer nodes) : pointer = nodes.head? := by
  cases nodes with
  | nil => exact chain
  | cons node rest => exact chain.1

theorem unique {others : List ν} (first : Chain next pointer nodes)
    (second : Chain next pointer others) : nodes = others := by
  induction nodes generalizing pointer others with
  | nil =>
    cases others with
    | nil => rfl
    | cons other rest => cases first.symm.trans second.1
  | cons node rest ih =>
    cases others with
    | nil => cases second.symm.trans first.1
    | cons other more =>
      obtain ⟨rfl, following, link, later⟩ := first
      obtain ⟨same, again, linkAgain, laterAgain⟩ := second
      obtain rfl := Option.some.inj same
      obtain rfl := Option.some.inj (link.symm.trans linkAgain)
      rw [ih later laterAgain]

theorem drop (chain : Chain next pointer (before ++ after)) : Chain next after.head? after := by
  induction before generalizing pointer with
  | nil => exact chain.pointer_eq ▸ chain
  | cons node rest ih =>
    obtain ⟨_, following, _, later⟩ := chain
    exact ih later

theorem link (chain : Chain next pointer (before ++ node :: after)) :
    next node = some after.head? := by
  obtain ⟨_, following, link, later⟩ := chain.drop
  rw [link, later.pointer_eq]

theorem nodup (chain : Chain next pointer nodes) : nodes.Nodup := by
  induction nodes generalizing pointer with
  | nil => exact List.nodup_nil
  | cons node rest ih =>
    obtain ⟨rfl, following, _, later⟩ := id chain
    refine List.nodup_cons.mpr ⟨fun again => ?_, ih later⟩
    obtain ⟨before, after, rfl⟩ := List.append_of_mem again
    have same := congrArg List.length (chain.unique later.drop)
    simp at same
    omega

theorem ne {between : List ν} {other : ν}
    (chain : Chain next pointer (before ++ node :: (between ++ other :: after))) :
    node ≠ other := by
  have distinct := chain.drop.nodup
  rintro rfl
  exact (List.nodup_cons.mp distinct).1 (List.mem_append_right _ List.mem_cons_self)

theorem congr (chain : Chain next pointer nodes)
    (same : ∀ node ∈ nodes, changed node = next node) : Chain changed pointer nodes := by
  induction nodes generalizing pointer with
  | nil => exact chain
  | cons node rest ih =>
    obtain ⟨rfl, following, link, later⟩ := chain
    refine ⟨rfl, following, (same node List.mem_cons_self).trans link, ih later ?_⟩
    exact fun other member => same other (List.mem_cons_of_mem node member)

/-- A node whose link leads to the first one becomes the first one. -/
theorem insertHead (chain : Chain next pointer nodes) (link : changed node = some pointer)
    (same : ∀ other ∈ nodes, changed other = next other) :
    Chain changed (some node) (node :: nodes) :=
  ⟨rfl, pointer, link, chain.congr same⟩

/-- Leading the link of a node past its successor takes the successor out. -/
theorem removeAfter (chain : Chain next pointer (before ++ previous :: node :: after))
    (link : changed previous = some after.head?)
    (same : ∀ other, other ≠ previous → changed other = next other) :
    Chain changed pointer (before ++ previous :: after) := by
  induction before generalizing pointer with
  | nil =>
    have distinct := (List.nodup_cons.mp chain.nodup).1
    obtain ⟨rfl, following, _, rfl, last, _, rest⟩ := chain
    refine ⟨rfl, after.head?, link, ?_⟩
    rw [← rest.pointer_eq]
    refine rest.congr fun other member => same other ?_
    rintro rfl
    exact distinct (List.mem_cons_of_mem node member)
  | cons first others ih =>
    have whole : Chain next pointer ([] ++ first :: (others ++ previous :: node :: after)) := chain
    have different := whole.ne
    obtain ⟨rfl, following, firstLink, later⟩ := chain
    exact ⟨rfl, following, (same first different).trans firstLink, ih later⟩

end Chain

end Aesd.Library
