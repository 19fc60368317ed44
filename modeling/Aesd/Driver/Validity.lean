import Aesd.Driver.SeekPosition

namespace Aesd.Driver

open Aesd.Library

namespace Memory

/-- The blocks the live slots and the pending entry point to, with repetition. -/
def references (memory : Memory) : List Nat :=
  memory.buffer.live.filterMap AesdBufferEntry.buffptr ++ memory.entry.buffptr.toList

/-- An entry whose bytes all lie in a live block. -/
def Backed (memory : Memory) (entry : AesdBufferEntry) (block : Nat) : Prop :=
  entry.buffptr = some block ∧ memory.heap.live block ∧
    entry.size.toNat ≤ (memory.heap.bytes block).length

/-- What every run keeps, whatever the services do: nothing dangles, nothing is
shared, and every committed entry has its bytes. -/
structure Valid (memory : Memory) : Prop where
  ring : ∃ added, RingInvariant added memory.buffer
  entrySize : memory.entry.size.toNat < 2 ^ 63
  entryBlock : ∀ block, memory.entry.buffptr = some block →
    memory.Backed memory.entry block
  slotBlock : ∀ entry ∈ memory.buffer.live, ∃ block, memory.Backed entry block
  slotNewline : ∀ entry ∈ memory.buffer.live, newline ∈ memory.contents entry
  slotSize : ∀ entry ∈ memory.buffer.live, entry.size.toNat < 2 ^ 63
  distinct : memory.references.Nodup

/-- The pending bytes were not lost by a failed growth. -/
def Intact (memory : Memory) : Prop :=
  memory.entry.size = 0 ∨ memory.entry.buffptr ≠ none

theorem valid_init : aesdInitModule.memory.Valid where
  ring := ⟨[], ringInvariant_init⟩
  entrySize := by decide
  entryBlock := by
    intro block pointed
    cases pointed
  slotBlock := by
    intro entry member
    cases member
  slotNewline := by
    intro entry member
    cases member
  slotSize := by
    intro entry member
    cases member
  distinct := List.nodup_nil

theorem contents_of_backed {memory : Memory} {entry : AesdBufferEntry} {block : Nat}
    (backed : memory.Backed entry block) :
    memory.contents entry = (memory.heap.bytes block).take entry.size.toNat := by
  rw [contents, backed.1, Heap.deref_some]

theorem length_contents {memory : Memory} {entry : AesdBufferEntry} {block : Nat}
    (backed : memory.Backed entry block) : (memory.contents entry).length = entry.size.toNat := by
  rw [contents_of_backed backed, List.length_take]
  exact Nat.min_eq_left backed.2.2

theorem Backed.transfer {memory after : Memory} {entry : AesdBufferEntry} {block : Nat}
    (backed : memory.Backed entry block)
    (same : after.heap.cells block = memory.heap.cells block) :
    after.Backed entry block ∧ after.contents entry = memory.contents entry := by
  have bytes : after.heap.bytes block = memory.heap.bytes block := by
    rw [Heap.bytes, same, Heap.bytes]
  have kept : after.Backed entry block := by
    refine ⟨backed.1, ?_, ?_⟩
    · rw [Heap.live, same]
      exact backed.2.1
    · rw [bytes]
      exact backed.2.2
  exact ⟨kept, by rw [contents_of_backed kept, contents_of_backed backed, bytes]⟩

end Memory

/-- The memory between copying the accepted bytes and looking for a newline. -/
structure Filled (services : Services) (data : List Byte) (memory filled : Memory) : Prop where
  buffer : filled.buffer = memory.buffer
  fPos : filled.fPos = memory.fPos
  size : filled.entry.size.toNat = memory.entry.size.toNat + (accepted services data).length
  small : filled.entry.size.toNat < 2 ^ 63
  backed : filled.Backed filled.entry memory.heap.next
  pending : memory.Intact → filled.pending = memory.pending ++ accepted services data
  live : ∀ block, filled.heap.live block ↔
    block = memory.heap.next ∨ (memory.heap.live block ∧ memory.carried ≠ some block)
  others : ∀ block, memory.heap.live block → memory.carried ≠ some block →
    filled.heap.cells block = memory.heap.cells block
  releases : filled.heap.releases = memory.heap.releases

theorem Services.length_contents (services : Services) (kept : List Byte) (size : UInt64) :
    (services.contents kept size).length = size.toNat := by
  simp only [contents, List.length_append, List.length_map, List.length_range, List.length_take]
  omega

theorem Services.take_contents (services : Services) {kept : List Byte} {size : UInt64}
    {count : Nat} (carried : count ≤ kept.length) (inside : count ≤ size.toNat) :
    (services.contents kept size).take count = kept.take count := by
  rw [contents, List.take_append_of_le_length (by simp; omega), List.take_take,
    Nat.min_eq_left inside]

/-- The memory between growing the entry and copying into it. -/
structure Grown (services : Services) (count : Nat) (memory grown : Memory) : Prop where
  buffer : grown.buffer = memory.buffer
  fPos : grown.fPos = memory.fPos
  entry : grown.entry = ⟨some memory.heap.next, memory.entry.size⟩
  small : memory.entry.size.toNat + count < 2 ^ 63
  block : ∃ size : UInt64, size.toNat = memory.entry.size.toNat + count ∧
    grown.heap.cells memory.heap.next =
      some (services.contents (memory.heap.deref memory.carried) size)
  live : ∀ block, grown.heap.live block ↔
    block = memory.heap.next ∨ (memory.heap.live block ∧ memory.carried ≠ some block)
  others : ∀ block, memory.heap.live block → memory.carried ≠ some block →
    grown.heap.cells block = memory.heap.cells block
  releases : grown.heap.releases = memory.heap.releases

theorem Memory.Valid.carried_live {memory : Memory} (valid : memory.Valid) {block : Nat}
    (carried : memory.carried = some block) :
    memory.Backed memory.entry block ∧ memory.entry.size ≠ 0 := by
  unfold Memory.carried at carried
  split at carried
  · cases carried
  · rename_i nonzero
    exact ⟨valid.entryBlock block carried, nonzero⟩

theorem Memory.Valid.grow {memory grown : Memory} (valid : memory.Valid) {services : Services}
    {count : Nat} (fits : count < 2 ^ 63)
    (succeeds : memory.grow services (UInt64.ofNat count) = some grown) :
    Grown services count memory grown := by
  have start := valid.entrySize
  have total : (memory.entry.size + UInt64.ofNat count).toNat =
      memory.entry.size.toNat + count := by
    rw [UInt64.toNat_add, UInt64.toNat_ofNat_of_lt' (by simp [UInt64.size]; omega)]
    exact Nat.mod_eq_of_lt (by omega)
  unfold Memory.grow at succeeds
  split at succeeds
  · rename_i room
    have small : (memory.entry.size + UInt64.ofNat count).toNat < 2 ^ 63 := by
      simp only [allocatable, Bool.and_eq_true, decide_eq_true_eq] at room
      exact room.2
    cases carried : memory.carried with
    | none =>
      simp only [carried, Option.some.injEq] at succeeds
      subst grown
      refine ⟨rfl, rfl, rfl, by omega, ⟨_, total, ?_⟩, ?_, ?_, rfl⟩
      · simp [carried]
      · intro block
        simp [Heap.alloc_live, carried]
      · intro block present _
        exact Heap.alloc_cells_of_live _ present
    | some old =>
      simp only [carried, Option.some.injEq] at succeeds
      subst grown
      obtain ⟨⟨_, present, _⟩, _⟩ := valid.carried_live carried
      have before := Nat.ne_of_gt (Heap.live_lt_next present)
      refine ⟨rfl, rfl, rfl, by omega, ⟨_, total, ?_⟩, ?_, ?_, rfl⟩
      · rw [Heap.discard_cells_of_ne _ before, Heap.alloc_cells_self, carried]
      · intro block
        rw [Heap.discard_live, Heap.alloc_live]
        by_cases same : block = memory.heap.next
        · subst block
          simp [before]
        · simp [same, carried, eq_comm, and_comm]
      · intro block alive different
        have other : block ≠ old := fun same => different (by rw [carried, same])
        rw [Heap.discard_cells_of_ne _ other, Heap.alloc_cells_of_live _ alive]
  · cases succeeds

/-- Growing carries the pending bytes over unless an earlier failure lost them. -/
theorem Memory.Valid.take_carried {memory : Memory} (valid : memory.Valid)
    (intact : memory.Intact) (services : Services) {size : UInt64}
    (enough : memory.entry.size.toNat ≤ size.toNat) :
    (services.contents (memory.heap.deref memory.carried) size).take memory.entry.size.toNat =
      memory.pending := by
  by_cases empty : memory.entry.size = 0
  · simp [Memory.pending, Memory.contents, empty]
  · have pointed := intact.resolve_left empty
    obtain ⟨block, found⟩ := Option.ne_none_iff_exists'.mp pointed
    have backed := valid.entryBlock block found
    have carried : memory.carried = some block := by
      rw [Memory.carried, if_neg empty, found]
    rw [Memory.pending, Memory.contents_of_backed backed, carried, Heap.deref_some]
    exact services.take_contents backed.2.2 enough

theorem Grown.fill {services : Services} {data : List Byte} {memory grown : Memory}
    (valid : memory.Valid) (facts : Grown services data.length memory grown) :
    Filled services data memory (grown.fill services data) := by
  obtain ⟨size, total, cell⟩ := facts.block
  have filledShape : grown.fill services data =
      { grown with
        entry := ⟨some memory.heap.next,
          memory.entry.size + UInt64.ofNat (accepted services data).length⟩
        heap := grown.heap.store memory.heap.next
          (patch (grown.heap.bytes memory.heap.next) memory.entry.size.toNat
            (accepted services data ++ List.replicate (min services.uncopied data.length) 0)) } := by
    simp only [Memory.fill, facts.entry]
  have shorter : (accepted services data).length ≤ data.length := by
    rw [length_accepted]
    omega
  have bytes : grown.heap.bytes memory.heap.next =
      services.contents (memory.heap.deref memory.carried) size := by
    rw [Heap.bytes, cell, Option.getD_some]
  have length := services.length_contents (memory.heap.deref memory.carried) size
  have isLive : grown.heap.live memory.heap.next := (facts.live _).mpr (.inl rfl)
  have small := facts.small
  have sum : (memory.entry.size + UInt64.ofNat (accepted services data).length).toNat =
      memory.entry.size.toNat + (accepted services data).length := by
    rw [UInt64.toNat_add, UInt64.toNat_ofNat_of_lt' (by simp [UInt64.size]; omega)]
    exact Nat.mod_eq_of_lt (by omega)
  have patched : (patch (grown.heap.bytes memory.heap.next) memory.entry.size.toNat
      (accepted services data ++ List.replicate (min services.uncopied data.length) 0)).length =
        size.toNat := by
    rw [length_patch, bytes, length]
    rw [bytes, length, total, List.length_append, List.length_replicate, length_accepted]
    omega
  have stored := Heap.bytes_store_self
    (patch (grown.heap.bytes memory.heap.next) memory.entry.size.toNat
      (accepted services data ++ List.replicate (min services.uncopied data.length) 0)) isLive
  have backed : (grown.fill services data).Backed (grown.fill services data).entry
      memory.heap.next := by
    rw [filledShape]
    refine ⟨rfl, Heap.store_live.mpr isLive, ?_⟩
    simp only [stored, patched, sum, total]
    omega
  refine ⟨?_, ?_, ?_, ?_, backed, ?_, ?_, ?_, ?_⟩
  · rw [filledShape, facts.buffer]
  · rw [filledShape, facts.fPos]
  · rw [filledShape, sum]
  · rw [filledShape, sum]
    omega
  · intro intact
    have kept : (services.contents (memory.heap.deref memory.carried) size).take
        memory.entry.size.toNat = memory.pending :=
      valid.take_carried intact services (by omega)
    rw [Memory.pending, Memory.contents_of_backed backed, filledShape]
    simp only [sum, stored]
    rw [take_patch_append (by rw [bytes, length, total]; omega), bytes, kept]
  · intro block
    rw [filledShape]
    exact Heap.store_live.trans (facts.live block)
  · intro block alive other
    rw [filledShape]
    have different : block ≠ memory.heap.next := Nat.ne_of_lt (Heap.live_lt_next alive)
    exact (Heap.store_cells_of_ne _ _ different).trans (facts.others block alive other)
  · rw [filledShape]
    exact facts.releases

namespace Memory.Valid

variable {memory : Memory}

/-- No committed entry shares its block with the bytes growing carries over. -/
theorem slot_ne_carried (valid : memory.Valid) {entry : AesdBufferEntry} {block : Nat}
    (member : entry ∈ memory.buffer.live) (pointed : entry.buffptr = some block) :
    memory.carried ≠ some block := by
  intro carried
  have pending := (valid.carried_live carried).1.1
  have inSlots : block ∈ memory.buffer.live.filterMap AesdBufferEntry.buffptr :=
    List.mem_filterMap.mpr ⟨entry, member, pointed⟩
  have inPending : block ∈ memory.entry.buffptr.toList := by
    rw [pending]
    exact List.mem_singleton_self block
  exact List.disjoint_of_nodup_append valid.distinct inSlots inPending

theorem slot_filled (valid : memory.Valid) {services : Services} {data : List Byte}
    {filled : Memory} (facts : Filled services data memory filled) {entry : AesdBufferEntry}
    (member : entry ∈ memory.buffer.live) :
    (∃ block, filled.Backed entry block) ∧ filled.contents entry = memory.contents entry := by
  obtain ⟨block, backed⟩ := valid.slotBlock entry member
  obtain ⟨kept, same⟩ := backed.transfer
    (facts.others block backed.2.1 (valid.slot_ne_carried member backed.1))
  exact ⟨⟨block, kept⟩, same⟩

theorem filled (valid : memory.Valid) {services : Services} {data : List Byte}
    {filled : Memory} (facts : Filled services data memory filled) : filled.Valid where
  ring := facts.buffer ▸ valid.ring
  entrySize := facts.small
  entryBlock := by
    intro block pointed
    have same := facts.backed.1.symm.trans pointed
    obtain rfl := Option.some.inj same
    exact facts.backed
  slotBlock := by
    intro entry member
    rw [facts.buffer] at member
    exact (valid.slot_filled facts member).1
  slotNewline := by
    intro entry member
    rw [facts.buffer] at member
    rw [(valid.slot_filled facts member).2]
    exact valid.slotNewline entry member
  slotSize := facts.buffer ▸ valid.slotSize
  distinct := by
    have slots : (memory.buffer.live.filterMap AesdBufferEntry.buffptr).Nodup :=
      (List.nodup_append.mp valid.distinct).1
    rw [references, facts.buffer, facts.backed.1, Option.toList_some]
    refine List.nodup_append.mpr ⟨slots, List.nodup_singleton _, ?_⟩
    intro block inSlots other isNext
    obtain ⟨entry, member, pointed⟩ := List.mem_filterMap.mp inSlots
    obtain ⟨owner, backed⟩ := valid.slotBlock entry member
    obtain rfl := Option.some.inj (backed.1.symm.trans pointed)
    rw [List.mem_singleton.mp isNext]
    exact Nat.ne_of_lt (Heap.live_lt_next backed.2.1)

theorem live_commit (valid : memory.Valid) :
    (aesdCircularBufferAddEntry memory.buffer memory.entry).2.live =
      (memory.buffer.live ++ [memory.entry]).rtake 10 := by
  obtain ⟨added, ring⟩ := valid.ring
  exact ring.live_add memory.entry

theorem commands_filled (valid : memory.Valid) {services : Services} {data : List Byte}
    {filled : Memory} (facts : Filled services data memory filled) :
    filled.commands = memory.commands := by
  rw [commands, commands, facts.buffer]
  exact List.map_congr_left fun entry member => (valid.slot_filled facts member).2

theorem commands_commit (valid : memory.Valid) (filp : Nat) (finished : newline ∈ memory.pending) :
    (memory.commit filp).commands = (memory.commands ++ [memory.pending]).rtake 10 := by
  rw [Memory.commit, if_pos finished]
  simp only [commands, valid.live_commit, List.rtake, List.map_drop, List.map_append,
    List.length_append, List.length_map]
  rfl

theorem entry_backed (valid : memory.Valid) (nonempty : memory.pending ≠ []) :
    ∃ block, memory.Backed memory.entry block := by
  cases pointed : memory.entry.buffptr with
  | none => exact absurd (by simp [pending, contents, pointed]) nonempty
  | some block => exact ⟨block, valid.entryBlock block pointed⟩

theorem commit (valid : memory.Valid) (filp : Nat) : (memory.commit filp).Valid := by
  unfold Memory.commit
  split
  · rename_i finished
    have live := valid.live_commit
    have among : ∀ entry ∈ (aesdCircularBufferAddEntry memory.buffer memory.entry).2.live,
        entry ∈ memory.buffer.live ∨ entry = memory.entry := by
      intro entry member
      rw [live] at member
      simpa using List.mem_of_mem_drop member
    obtain ⟨block, backed⟩ := valid.entry_backed (List.ne_nil_of_mem finished)
    obtain ⟨added, ring⟩ := valid.ring
    have nothing : (0 : UInt64).toNat < 2 ^ 63 := by decide
    refine ⟨⟨added ++ [memory.entry], ring.add memory.entry⟩, nothing, ?_, ?_, ?_, ?_, ?_⟩
    · intro block pointed
      cases pointed
    · intro entry member
      rcases among entry member with older | same
      · exact valid.slotBlock entry older
      · exact ⟨block, same ▸ backed⟩
    · intro entry member
      rcases among entry member with older | same
      · exact valid.slotNewline entry older
      · rw [same]
        exact finished
    · intro entry member
      rcases among entry member with older | same
      · exact valid.slotSize entry older
      · exact same ▸ valid.entrySize
    · have whole : (memory.buffer.live ++ [memory.entry]).filterMap AesdBufferEntry.buffptr =
          memory.references := by
        cases pointed : memory.entry.buffptr <;>
          simp [references, List.filterMap_append, pointed]
      simp only [references, live, Option.toList_none, List.append_nil]
      refine List.Nodup.sublist ?_ valid.distinct
      rw [← whole]
      exact (List.drop_sublist _ _).filterMap _
  · exact valid

theorem dropped (valid : memory.Valid) :
    ({ memory with entry := ⟨none, memory.entry.size⟩ } : Memory).Valid where
  ring := valid.ring
  entrySize := valid.entrySize
  entryBlock := by
    intro block pointed
    cases pointed
  slotBlock := valid.slotBlock
  slotNewline := valid.slotNewline
  slotSize := valid.slotSize
  distinct := by
    simp only [references, Option.toList_none, List.append_nil]
    exact (List.nodup_append.mp valid.distinct).1

theorem effect (valid : memory.Valid) (call : Call) : (memory.effect call).2.Valid := by
  by_cases isWrite : ∃ buf, call.operation = .write buf
  · obtain ⟨buf, operation⟩ := isWrite
    rw [effect_of_write memory operation]
    rcases write_cases call.services call.filp buf memory with
      ⟨_, _, _, same⟩ | ⟨_, _, _, _, _, _, same⟩ | ⟨data, fits, grown, _, _, _, succeeds, same⟩
    · rw [same]
      exact valid
    · rw [same]
      exact valid.dropped
    · rw [same]
      exact (valid.filled ((valid.grow fits succeeds).fill valid)).commit call.filp
  · obtain ⟨fPos, same⟩ := effect_of_not_write memory (not_exists.mp isWrite)
    rw [same]
    exact ⟨valid.ring, valid.entrySize, valid.entryBlock, valid.slotBlock, valid.slotNewline,
      valid.slotSize, valid.distinct⟩

end Memory.Valid

theorem reachable_valid {state : DriverState} (reached : driver.Reachable aesdInitModule state) :
    state.memory.Valid := by
  obtain ⟨trace, run⟩ := reached
  exact driver_history (fun _ memory => memory.Valid) run Memory.valid_init
    fun _ _ call valid => valid.effect call

end Aesd.Driver
