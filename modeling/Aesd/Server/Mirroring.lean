import Aesd.Server.Deployment

/-! File operations of the driver against calls on the ideal device. -/
namespace Aesd.Server

open Aesd.Library Aesd.Driver

/-- The commands and positions of the driver are those of the ideal device. A
descriptor in `late` may be behind: `write` leaves the position at the end of the
line, where an appending device has it at the end of the content. -/
structure Mirrors (device : CommandDevice) (files : Nat → Option Nat) (ideal : IdealDevice)
    (late : Nat → Prop) : Prop where
  commands : ideal.commands = device.store.commands
  pending : device.store.pending = []
  small : device.store.commands.flatten.length < 2 ^ 63
  distinct : ∀ first second filp, files first = some filp → files second = some filp →
    first = second
  closed : ∀ descriptor, files descriptor = none → ideal.position descriptor = none
  known : ∀ descriptor filp, files descriptor = some filp →
    ∃ position, ideal.position descriptor = some position ∧
      (¬ late descriptor → (device.position filp).toInt = position)

namespace Mirrors

variable {device : CommandDevice} {files : Nat → Option Nat} {ideal : IdealDevice}
variable {late later : Nat → Prop} {descriptor filp : Nat} {services : Services}

theorem weaken (mirrors : Mirrors device files ideal late)
    (wider : ∀ descriptor, files descriptor ≠ none → late descriptor → later descriptor) :
    Mirrors device files ideal later where
  commands := mirrors.commands
  pending := mirrors.pending
  small := mirrors.small
  distinct := mirrors.distinct
  closed := mirrors.closed
  known := by
    intro descriptor filp isOpen
    obtain ⟨position, known, exact⟩ := mirrors.known descriptor filp isOpen
    have some : files descriptor ≠ none := by rw [isOpen]; exact Option.some_ne_none _
    exact ⟨position, known, fun now => exact (mt (wider descriptor some) now)⟩

theorem moved (mirrors : Mirrors device files ideal late) (isOpen : files descriptor = some filp)
    {position : Int64} {target : Nat} (same : position.toInt = target) :
    Mirrors (device.moved filp position) files (ideal.moveTo descriptor target)
      (fun other => late other ∧ other ≠ descriptor) where
  commands := mirrors.commands
  pending := mirrors.pending
  small := mirrors.small
  distinct := mirrors.distinct
  closed := by
    intro other isClosed
    have apart : other ≠ descriptor := by
      rintro rfl
      cases isClosed.symm.trans isOpen
    exact (Function.update_of_ne apart _ _).trans (mirrors.closed other isClosed)
  known := by
    intro other file opens
    by_cases mine : other = descriptor
    · subst mine
      cases opens.symm.trans isOpen
      refine ⟨target, Function.update_self .., fun _ => ?_⟩
      rw [← same]
      exact congrArg Int64.toInt (Function.update_self ..)
    · obtain ⟨place, known, exact⟩ := mirrors.known other file opens
      have apart : file ≠ filp := by
        rintro rfl
        exact mine (mirrors.distinct _ _ _ opens isOpen)
      refine ⟨place, (Function.update_of_ne mine _ _).trans known, fun punctual => ?_⟩
      rw [← exact fun behind => punctual ⟨behind, mine⟩]
      exact congrArg Int64.toInt (Function.update_of_ne apart _ _)

theorem openFile (mirrors : Mirrors device files ideal late) (fresh : ∀ other, files other ≠ some filp)
    (start : device.position filp = 0) (descriptor : Nat) :
    Mirrors device (Function.update files descriptor (some filp)) (ideal.moveTo descriptor 0)
      late where
  commands := mirrors.commands
  pending := mirrors.pending
  small := mirrors.small
  distinct := by
    intro first second file one two
    rw [Function.update_apply] at one two
    split at one
    · rename_i isFirst
      split at two
      · rename_i isSecond
        exact isFirst.trans isSecond.symm
      · exact absurd (two.trans one.symm) (fresh second)
    · split at two
      · exact absurd (one.trans two.symm) (fresh first)
      · exact mirrors.distinct first second file one two
  closed := by
    intro other isClosed
    rw [Function.update_apply] at isClosed
    split at isClosed
    · cases isClosed
    · rename_i apart
      exact (Function.update_of_ne apart _ _).trans (mirrors.closed other isClosed)
  known := by
    intro other file opens
    rw [Function.update_apply] at opens
    split at opens
    · rename_i mine
      obtain rfl := Option.some.inj opens
      subst mine
      exact ⟨0, Function.update_self .., fun _ => congrArg Int64.toInt start⟩
    · rename_i apart
      obtain ⟨position, known, exact⟩ := mirrors.known other file opens
      exact ⟨position, (Function.update_of_ne apart _ _).trans known, exact⟩

theorem closeFile (mirrors : Mirrors device files ideal late) (descriptor : Nat) :
    Mirrors device (Function.update files descriptor none)
      { ideal with position := Function.update ideal.position descriptor none }
      (fun other => late other ∧ other ≠ descriptor) where
  commands := mirrors.commands
  pending := mirrors.pending
  small := mirrors.small
  distinct := by
    intro first second file one two
    rw [Function.update_apply, ite_eq_iff] at one two
    rcases one with ⟨_, nothing⟩ | ⟨_, one⟩
    · cases nothing
    · rcases two with ⟨_, nothing⟩ | ⟨_, two⟩
      · cases nothing
      · exact mirrors.distinct first second file one two
  closed := by
    intro other isClosed
    by_cases mine : other = descriptor
    · subst mine
      exact Function.update_self ..
    · rw [Function.update_of_ne mine] at isClosed
      exact (Function.update_of_ne mine _ _).trans (mirrors.closed other isClosed)
  known := by
    intro other file opens
    rw [Function.update_apply, ite_eq_iff] at opens
    rcases opens with ⟨_, nothing⟩ | ⟨apart, opens⟩
    · cases nothing
    · obtain ⟨position, known, exact⟩ := mirrors.known other file opens
      exact ⟨position, (Function.update_of_ne apart _ _).trans known,
        fun now => exact fun behind => now ⟨behind, apart⟩⟩

theorem place (mirrors : Mirrors device files ideal late) (isOpen : files descriptor = some filp)
    (punctual : ¬ late descriptor) :
    ∃ position : Nat, ideal.position descriptor = some position ∧
      (device.position filp).toInt = position ∧
        (device.position filp).toUInt64.toNat = position := by
  obtain ⟨position, known, exact⟩ := mirrors.known descriptor filp isOpen
  have same := exact punctual
  have nonneg : 0 ≤ device.position filp := by
    rw [Int64.le_iff_toInt_le, same]
    exact Int.natCast_nonneg position
  refine ⟨position, known, same, ?_⟩
  rw [Int64.toNat_toUInt64_of_le nonneg, Int64.toNatClampNeg, same, Int.toNat_natCast]

theorem not_negative {amount : Nat} (small : amount < 2 ^ 63) : ¬ Int64.ofNat amount < 0 := by
  rw [Int64.lt_iff_toInt_lt, Int64.toInt_ofNat_of_lt small]
  exact not_lt.mpr (Int.natCast_nonneg amount)

theorem not_minus_one {value : Int64} (nonneg : ¬ value < 0) : (value == -1) = false := by
  rw [beq_eq_false_iff_ne]
  rintro rfl
  exact nonneg (by decide)

theorem read (mirrors : Mirrors device files ideal late) (isOpen : files descriptor = some filp)
    (punctual : ¬ late descriptor) (copies : services.uncopied = 0) {count : Nat}
    (fits : count < 2 ^ 64) {result : Option (List Byte)}
    (reported : (Event.read result).reports
      (device.read services filp false (UInt64.ofNat count)).1 = true) :
    ∃ next, ideal.answer .recent (some descriptor) (.read count) (.read result) = some next ∧
      Mirrors (device.read services filp false (UInt64.ofNat count)).2 files next late := by
  obtain ⟨position, known, same, index⟩ := mirrors.place isOpen punctual
  by_cases interrupted : services.interrupted = true
  · simp only [CommandDevice.read, interrupted, ↓reduceIte, Bool.false_eq_true] at reported ⊢
    have failed : result = none := eq_of_beq reported
    subst failed
    exact ⟨ideal, rfl, mirrors⟩
  have exact : (UInt64.ofNat count).toNat = count := UInt64.toNat_ofNat_of_lt' fits
  simp only [CommandDevice.read, interrupted, ↓reduceIte, Bool.false_eq_true, copies, index, exact,
    Nat.sub_zero, List.take_length] at reported ⊢
  generalize data : (segmentFrom device.store.commands position).take count = received at *
  have start : segmentFrom device.store.commands position <+: ideal.content.drop position := by
    rw [IdealDevice.content, mirrors.commands]
    exact segmentFrom_prefix _ _
  have piece : received <+: ideal.content.drop position := data ▸ (List.take_prefix _ _).trans start
  have inside : position + received.length ≤ ideal.content.length ∨ received.length = 0 := by
    have short := piece.length_le
    rw [List.length_drop] at short
    omega
  have size : ideal.content.length < 2 ^ 63 := by
    rw [IdealDevice.content, mirrors.commands]
    exact mirrors.small
  have high := (device.position filp).toInt_lt
  have few : received.length < 2 ^ 63 := by omega
  have given : result = some received := by
    have told : (result == if Int64.ofNat received.length < 0 then none else some received) = true :=
      reported
    rw [if_neg (not_negative few)] at told
    exact eq_of_beq told
  subst given
  have ends : received = [] → ideal.content.drop position = [] ∨ count = 0 := by
    intro nothing
    rw [← data, List.take_eq_nil_iff] at nothing
    rcases nothing with zero | nothing
    · exact .inr zero
    · left
      rw [segmentFrom_eq_nil_iff, ← mirrors.commands] at nothing
      exact List.drop_eq_nil_of_le nothing
  have most : received.length ≤ count := by
    rw [← data]
    exact List.length_take_le _ _
  refine ⟨ideal.moveTo descriptor (position + received.length), ?_,
    (mirrors.moved isOpen ?_).weaken fun _ _ behind => behind.1⟩
  · have answer : ideal.succeed .recent descriptor position (.read count) (.read (some received)) =
        some (ideal.moveTo descriptor (position + received.length)) :=
      if_pos ⟨List.isPrefixOf_iff_prefix.mpr piece, most, ends⟩
    simpa [IdealDevice.answer, Event.onDevice, Event.failed, known] using answer
  · rw [toInt_add_ofNat_of_fits few (by omega), same]
    rfl

/-- A seek that forms `target`: refused when that is negative, else it goes there. -/
theorem llseek_of_target {fPos target : Int64} {origin : Whence}
    (locks : services.interrupted = false)
    (forms : device.target services filp fPos origin = some target) :
    device.llseek services filp fPos origin =
      if target < 0 then (-EINVAL, device) else (target, device.moved filp target) := by
  simp only [CommandDevice.llseek, locks, Bool.false_eq_true, ↓reduceIte, forms]

theorem lseekCur (mirrors : Mirrors device files ideal late) (isOpen : files descriptor = some filp)
    (punctual : ¬ late descriptor) {result : Int64}
    (reported : (Event.lseekCur result).reports
      ⟨(device.llseek services filp 0 .seekCur).1, []⟩ = true) :
    ∃ next, ideal.answer .recent (some descriptor) (.lseek 0 .seekCur) (.lseekCur result) =
        some next ∧
      Mirrors (device.llseek services filp 0 .seekCur).2 files next late := by
  obtain ⟨position, known, same, _⟩ := mirrors.place isOpen punctual
  by_cases interrupted : services.interrupted = true
  · simp only [CommandDevice.llseek, interrupted, ↓reduceIte] at reported ⊢
    have failed : result = -1 := eq_of_beq reported
    subst failed
    exact ⟨ideal, rfl, mirrors⟩
  have forms : device.target services filp 0 .seekCur = some (device.position filp) :=
    congrArg some (Int64.add_zero _)
  have nonneg : ¬ device.position filp < 0 := by
    rw [Int64.lt_iff_toInt_lt, same]
    exact not_lt.mpr (Int.natCast_nonneg position)
  rw [llseek_of_target (Bool.not_eq_true _ ▸ interrupted) forms, if_neg nonneg] at reported ⊢
  have told : (result == if device.position filp < 0 then -1 else device.position filp) = true :=
    reported
  rw [if_neg nonneg] at told
  have given : result = device.position filp := eq_of_beq told
  subst given
  have still : device.moved filp (device.position filp) = device := by
    rw [CommandDevice.moved, Function.update_eq_self]
  refine ⟨ideal, ?_, still.symm ▸ mirrors⟩
  have sound := not_minus_one nonneg
  have answer : ideal.succeed .recent descriptor position (.lseek 0 .seekCur)
      (.lseekCur (device.position filp)) = some ideal := if_pos same
  simpa [IdealDevice.answer, Event.onDevice, Event.failed, known, sound] using answer

theorem lseekEnd (mirrors : Mirrors device files ideal late) (isOpen : files descriptor = some filp)
    (stack : services.junk = 0) {result : Int64}
    (reported : (Event.lseekEnd result).reports
      ⟨(device.llseek services filp 0 .seekEnd).1, []⟩ = true) :
    ∃ next, ideal.answer .recent (some descriptor) (.lseek 0 .seekEnd) (.lseekEnd result) =
        some next ∧
      Mirrors (device.llseek services filp 0 .seekEnd).2 files next
        (fun other => late other ∧ (other = descriptor → result = -1)) := by
  obtain ⟨position, known, _⟩ := mirrors.known descriptor filp isOpen
  by_cases interrupted : services.interrupted = true
  · simp only [CommandDevice.llseek, interrupted, ↓reduceIte] at reported ⊢
    have failed : result = -1 := eq_of_beq reported
    subst failed
    exact ⟨ideal, rfl, mirrors.weaken fun _ _ behind => ⟨behind, fun _ => rfl⟩⟩
  have content : device.store.commands.flatten.length = ideal.content.length := by
    rw [IdealDevice.content, mirrors.commands]
  have small := mirrors.small
  rw [content] at small
  have forms : device.target services filp 0 .seekEnd = some (Int64.ofNat ideal.content.length) := by
    rw [CommandDevice.target, stack, content, Int64.zero_add, Int64.add_zero]
  have nonneg := not_negative small
  rw [llseek_of_target (Bool.not_eq_true _ ▸ interrupted) forms, if_neg nonneg] at reported ⊢
  have told : (result == if Int64.ofNat ideal.content.length < 0 then -1
      else Int64.ofNat ideal.content.length) = true := reported
  rw [if_neg nonneg] at told
  have given : result = Int64.ofNat ideal.content.length := eq_of_beq told
  subst given
  have exact := Int64.toInt_ofNat_of_lt small
  have sound := not_minus_one nonneg
  refine ⟨ideal.moveTo descriptor ideal.content.length, ?_,
    (mirrors.moved isOpen exact).weaken fun _ _ behind =>
      ⟨behind.1, fun mine => absurd mine behind.2⟩⟩
  have answer : ideal.succeed .recent descriptor position (.lseek 0 .seekEnd)
      (.lseekEnd (Int64.ofNat ideal.content.length)) =
        some (ideal.moveTo descriptor ideal.content.length) := if_pos exact
  simpa [IdealDevice.answer, Event.onDevice, Event.failed, known, sound] using answer

theorem lseekSet (mirrors : Mirrors device files ideal late) (isOpen : files descriptor = some filp)
    {offset result : Int64}
    (reported : (Event.lseekSet result).reports
      ⟨(device.llseek services filp offset .seekSet).1, []⟩ = true) :
    ∃ next, ideal.answer .recent (some descriptor) (.lseek offset .seekSet) (.lseekSet result) =
        some next ∧
      Mirrors (device.llseek services filp offset .seekSet).2 files next late := by
  obtain ⟨position, known, _⟩ := mirrors.known descriptor filp isOpen
  by_cases interrupted : services.interrupted = true
  · simp only [CommandDevice.llseek, interrupted, ↓reduceIte] at reported ⊢
    have failed : result = -1 := eq_of_beq reported
    subst failed
    exact ⟨ideal, rfl, mirrors⟩
  have forms : device.target services filp offset .seekSet = some offset := rfl
  rw [llseek_of_target (Bool.not_eq_true _ ▸ interrupted) forms] at reported ⊢
  by_cases negative : offset < 0
  · rw [if_pos negative] at reported ⊢
    have failed : result = -1 := eq_of_beq reported
    subst failed
    exact ⟨ideal, rfl, mirrors⟩
  rw [if_neg negative] at reported ⊢
  have told : (result == if offset < 0 then -1 else offset) = true := reported
  rw [if_neg negative] at told
  have given : result = offset := eq_of_beq told
  subst given
  have nonneg : 0 ≤ result.toInt := by
    rw [Int64.lt_iff_toInt_lt] at negative
    exact not_lt.mp negative
  have sound := not_minus_one negative
  refine ⟨ideal.moveTo descriptor result.toInt.toNat, ?_,
    (mirrors.moved isOpen (Int.toNat_of_nonneg nonneg).symm).weaken fun _ _ behind => behind.1⟩
  have answer : ideal.succeed .recent descriptor position (.lseek result .seekSet)
      (.lseekSet result) = some (ideal.moveTo descriptor result.toInt.toNat) :=
    if_pos ⟨nonneg, rfl⟩
  simpa [IdealDevice.answer, Event.onDevice, Event.failed, known, sound] using answer

/-- A whole line goes in as a command of its own. -/
theorem write (mirrors : Mirrors device files ideal late) (isOpen : files descriptor = some filp)
    (copies : services.uncopied = 0) {payload : List Byte} (fits : payload.length < 2 ^ 63)
    (line : newline ∈ payload) {result : Option Nat}
    (smallAfter : (device.write services filp (.bytes payload fits)).2.store.commands.flatten.length <
      2 ^ 63)
    (reported : (Event.write result).reports
      ⟨(device.write services filp (.bytes payload fits)).1, []⟩ = true) :
    ∃ next, ideal.answer .recent (some descriptor) (.write payload) (.write result) = some next ∧
      Mirrors (device.write services filp (.bytes payload fits)).2 files next
        (fun other => late other ∨ (other = descriptor ∧ result ≠ none)) := by
  obtain ⟨position, known, _⟩ := mirrors.known descriptor filp isOpen
  have refuse : ∀ code : Int64, code < 0 → (Event.write result).reports ⟨code, []⟩ = true →
      result = none := by
    intro code negative told
    simp only [Event.reports, negative, ↓reduceIte] at told
    exact eq_of_beq told
  have some : (UserBuffer.bytes payload fits).count ≠ 0 :=
    fun nothing => List.ne_nil_of_mem line (Memory.eq_nil_of_count nothing)
  by_cases interrupted : services.interrupted = true
  · simp only [CommandDevice.write, some, interrupted, ↓reduceIte] at reported ⊢
    obtain rfl := refuse _ (by decide) reported
    exact ⟨ideal, rfl, mirrors.weaken fun _ _ => .inl⟩
  by_cases room : device.Room services payload.length
  · have whole : Driver.accepted services payload = payload := by
      rw [Driver.accepted, copies, Nat.zero_min, Nat.sub_zero, List.take_length]
    simp only [CommandDevice.write, some, interrupted, room, ↓reduceIte, Bool.false_eq_true,
      whole] at reported smallAfter ⊢
    have told : (result == if Int64.ofNat payload.length < 0 then none
        else .some (Int64.ofNat payload.length).toInt.toNat) = true := reported
    rw [if_neg (not_negative fits), Int64.toInt_ofNat_of_lt fits, Int.toNat_natCast] at told
    have given : result = .some payload.length := eq_of_beq told
    subst given
    have stored : (device.accept filp payload).store.commands =
        (ideal.commands ++ [payload]).rtake 10 := by
      rw [CommandDevice.accept, if_pos line, CommandStore.accept, if_pos line, mirrors.pending,
        mirrors.commands]
      rfl
    have moves : ∀ file, file ≠ filp →
        (device.accept filp payload).position file = device.position file := by
      intro file apart
      rw [CommandDevice.accept, if_pos line]
      exact Function.update_of_ne apart _ _
    have answer : ideal.answer .recent (.some descriptor) (.write payload)
        (.write (.some payload.length)) =
          .some (({ ideal with commands := (ideal.commands ++ [payload]).rtake 10 } :
            IdealDevice).moveTo descriptor
              ((ideal.commands ++ [payload]).rtake 10).flatten.length) := by
      simp [IdealDevice.answer, Event.onDevice, Event.failed, known, IdealDevice.succeed,
        Retention.recent, IdealDevice.content]
    refine ⟨_, answer, stored.symm, ?_, smallAfter, mirrors.distinct, ?_, ?_⟩
    · rw [CommandDevice.accept, if_pos line, CommandStore.accept, if_pos line]
    · intro other isClosed
      have apart : other ≠ descriptor := by
        rintro rfl
        cases isClosed.symm.trans isOpen
      exact (Function.update_of_ne apart _ _).trans (mirrors.closed other isClosed)
    · intro other file opens
      by_cases mine : other = descriptor
      · subst mine
        exact ⟨_, Function.update_self .., fun punctual =>
          absurd (.inr ⟨rfl, Option.some_ne_none _⟩) punctual⟩
      · obtain ⟨place, known, exact⟩ := mirrors.known other file opens
        have apart : file ≠ filp := by
          rintro rfl
          exact mine (mirrors.distinct _ _ _ opens isOpen)
        refine ⟨place, (Function.update_of_ne mine _ _).trans known, fun punctual => ?_⟩
        rw [moves file apart]
        exact exact fun behind => punctual (.inl behind)
  · simp only [CommandDevice.write, some, interrupted, room, ↓reduceIte, Bool.false_eq_true]
      at reported ⊢
    obtain rfl := refuse _ (by decide) reported
    exact ⟨ideal, rfl, mirrors.weaken fun _ _ => .inl⟩

theorem numbered_eq (unrotated : device.oldest = 0) {number : Nat} (inside : number < 10) :
    device.numbered number = device.store.commands.getD number [] := by
  rw [CommandDevice.numbered, unrotated, Nat.sub_zero, Nat.add_mod_right, Nat.mod_eq_of_lt inside]

theorem lengths_before (unrotated : device.oldest = 0) {number : Nat} (inside : number < 10)
    (present : number < device.store.commands.length) :
    ((List.range number).map fun earlier => (device.numbered earlier).length).sum =
      (device.store.commands.take number).flatten.length := by
  have same : (List.range number).map (fun earlier => (device.numbered earlier).length) =
      (device.store.commands.take number).map List.length := by
    apply List.ext_getElem
    · simp [Nat.le_of_lt present]
    · intro index earlier _
      have before : index < number := by simpa using earlier
      simp [numbered_eq unrotated (Nat.lt_trans before inside), Nat.lt_trans before present]
  rw [same, List.length_flatten]

theorem ioctl (mirrors : Mirrors device files ideal late) (isOpen : files descriptor = some filp)
    (copies : services.uncopied = 0) {seekTo : AesdSeekto} {succeeds : Bool}
    (unrotated : succeeds = true → device.oldest = 0)
    (reported : (Event.ioctl succeeds).reports
      ⟨(device.ioctl services filp AESDCHAR_IOCSEEKTO seekTo).1, []⟩ = true) :
    ∃ next, ideal.answer .recent (some descriptor) (.ioctl seekTo) (.ioctl succeeds) = some next ∧
      Mirrors (device.ioctl services filp AESDCHAR_IOCSEEKTO seekTo).2 files next late := by
  obtain ⟨position, known, _⟩ := mirrors.known descriptor filp isOpen
  have number : ¬ (iocType AESDCHAR_IOCSEEKTO ≠ AESD_IOC_MAGIC ∨
      iocNr AESDCHAR_IOCSEEKTO > AESDCHAR_IOC_MAXNR) := by decide
  have refuse : ∀ code : Int64, code ≠ 0 → (Event.ioctl succeeds).reports ⟨code, []⟩ = true →
      succeeds = false := by
    intro code nonzero told
    simp only [Event.reports, nonzero, decide_false] at told
    exact eq_of_beq told
  by_cases interrupted : services.interrupted = true
  · simp only [CommandDevice.ioctl, number, copies, interrupted, ↓reduceIte, ne_eq,
      not_true_eq_false] at reported ⊢
    obtain rfl := refuse _ (by decide) reported
    exact ⟨ideal, rfl, mirrors⟩
  by_cases addressed : seekTo.writeCmd.toNat < 10 ∧
      seekTo.writeCmdOffset.toNat < (device.numbered seekTo.writeCmd.toNat).length
  · simp only [CommandDevice.ioctl, number, copies, interrupted, addressed, ↓reduceIte, ne_eq,
      not_true_eq_false, Bool.false_eq_true, and_self] at reported ⊢
    have given : succeeds = true := eq_of_beq reported
    subst given
    have order := unrotated rfl
    obtain ⟨inside, byte⟩ := addressed
    rw [numbered_eq order inside, List.getD_eq_getElem?_getD] at byte
    have present : seekTo.writeCmd.toNat < device.store.commands.length := by
      by_contra absent
      rw [List.getElem?_eq_none_iff.mpr (not_lt.mp absent)] at byte
      exact Nat.not_lt_zero _ byte
    rw [List.getElem?_eq_getElem present, Option.getD_some] at byte
    rw [lengths_before order inside present]
    have target : IdealDevice.target ideal.commands seekTo =
        some ((device.store.commands.take seekTo.writeCmd.toNat).flatten.length +
          seekTo.writeCmdOffset.toNat) := by
      rw [IdealDevice.target, mirrors.commands, List.getElem?_eq_getElem present]
      exact if_pos byte
    have within : (device.store.commands.take seekTo.writeCmd.toNat).flatten.length +
        seekTo.writeCmdOffset.toNat < device.store.commands.flatten.length := by
      have whole := congrArg (fun commands => (List.flatten commands).length)
        (List.take_append_drop seekTo.writeCmd.toNat device.store.commands)
      have head := List.drop_eq_getElem_cons present
      simp only [head, List.flatten_append, List.flatten_cons, List.length_append] at whole
      omega
    refine ⟨_, ?_, (mirrors.moved isOpen
      (Int64.toInt_ofNat_of_lt (Nat.lt_trans within mirrors.small))).weaken
        fun _ _ behind => behind.1⟩
    simp [IdealDevice.answer, Event.onDevice, Event.failed, known, IdealDevice.succeed, target]
  · have shape : device.ioctl services filp AESDCHAR_IOCSEEKTO seekTo = (-EINVAL, device) := by
      simp only [CommandDevice.ioctl, number, copies, interrupted, ↓reduceIte, ne_eq,
        not_true_eq_false, Bool.false_eq_true]
      exact if_neg addressed
    rw [shape] at reported ⊢
    obtain rfl := refuse (-EINVAL) (by decide) reported
    exact ⟨ideal, rfl, mirrors⟩

end Mirrors

end Aesd.Server
