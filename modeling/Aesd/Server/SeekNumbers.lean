import Aesd.Server.SeekLine

namespace Aesd.Server

open Aesd.Library Aesd.Driver

open AesdCircularBuffer

/-- How a number is written. -/
def decimal (number : Nat) : List Byte :=
  if number < 10 then [UInt8.ofNat (48 + number)]
  else decimal (number / 10) ++ [UInt8.ofNat (48 + number % 10)]

/-- The call makes the driver seek to the byte that the pair addresses, or fail if
there is none. -/
def SeeksTo (services : Services) (filp : Nat) (state : DriverState) (command offset : Nat)
    (call : Syscall) : Prop :=
  ∃ seekto, call = .ioctl seekto ∧
    (AddressesByte state.dev.buffer command offset →
      ((aesdIoctl services filp AESDCHAR_IOCSEEKTO seekto).run state).1 = 0 ∧
      ∀ rtn, aesdCircularBufferFindEntryOffsetForFpos state.dev.buffer
          (((aesdIoctl services filp AESDCHAR_IOCSEEKTO seekto).run state).2.fPos filp).toUInt64 rtn =
        (some (slotOf (state.dev.buffer.outOffs.toNat + command)), UInt64.ofNat offset)) ∧
    (¬ AddressesByte state.dev.buffer command offset →
      ((aesdIoctl services filp AESDCHAR_IOCSEEKTO seekto).run state).1 = -EINVAL ∧
      ((aesdIoctl services filp AESDCHAR_IOCSEEKTO seekto).run state).2.fPos filp = state.fPos filp)

/-- The words of the two numbers name a byte of a slot if and only if the numbers
address one, and then both count the same bytes before it. -/
structure NumbersKept (buffer : AesdCircularBuffer) (command offset : Nat) : Prop where
  addressed : AddressesByte buffer command offset →
    seekWord offset < buffer.slotSize command ∧
      (before buffer.slotSize command + seekWord offset) % 2 ^ 64 =
        before buffer.oldestSize command + offset
  absent : ¬ AddressesByte buffer command offset →
    ¬ (seekWord command < 10 ∧ seekWord offset < buffer.slotSize (seekWord command))

section Digits

theorem digitsValue_append_singleton (digits : List Byte) (digit : Byte) :
    digitsValue (digits ++ [digit]) = 10 * digitsValue digits + (digit.toNat - 48) := by
  rw [digitsValue, List.foldl_append]
  rfl

theorem digit_toNat {digit : Nat} (small : digit < 10) :
    (UInt8.ofNat (48 + digit)).toNat = 48 + digit :=
  UInt8.toNat_ofNat_of_lt' (by simp [UInt8.size]; omega)

theorem isDigit_digit {digit : Nat} (small : digit < 10) :
    isDigit (UInt8.ofNat (48 + digit)) = true := by
  rw [isDigit_iff, digit_toNat small]
  omega

theorem decimal_digits (number : Nat) : Digits (decimal number) := by
  induction number using decimal.induct with
  | case1 number small =>
    rw [decimal, if_pos small]
    refine ⟨List.cons_ne_nil _ _, fun digit member => ?_⟩
    rw [List.mem_singleton.mp member]
    exact isDigit_digit small
  | case2 number large ih =>
    rw [decimal, if_neg large]
    refine ⟨by simp, fun digit member => ?_⟩
    rcases List.mem_append.mp member with earlier | last
    · exact ih.all digit earlier
    · rw [List.mem_singleton.mp last]
      exact isDigit_digit (Nat.mod_lt _ (by decide))

theorem digitsValue_decimal (number : Nat) : digitsValue (decimal number) = number := by
  induction number using decimal.induct with
  | case1 number small =>
    rw [decimal, if_pos small, ← List.nil_append [_], digitsValue_append_singleton,
      digit_toNat small]
    simp [digitsValue]
  | case2 number large ih =>
    rw [decimal, if_neg large, digitsValue_append_singleton, ih,
      digit_toNat (Nat.mod_lt _ (by decide))]
    omega

end Digits

section Words

variable {buffer : AesdCircularBuffer} {command offset : Nat}

theorem seekWord_of_addressesByte (addressed : AddressesByte buffer command offset) :
    seekWord command = command :=
  seekWord_of_fits (Nat.lt_trans (lt_ten_of_addressesByte addressed) (by decide))

theorem numbersKept_of_fits {added : List AesdBufferEntry} (valid : RingInvariant added buffer)
    (filling : ¬ buffer.full = true) (bounded : buffer.sizes.sum < 2 ^ 64)
    (first : command < 2 ^ 32) (second : offset < 2 ^ 32) :
    NumbersKept buffer command offset := by
  have slots : buffer.slotSize = buffer.oldestSize :=
    funext (slotSize_eq_of_not_full valid filling)
  constructor
  · intro addressed
    have few := lt_ten_of_addressesByte addressed
    have inside := (addressesByte_iff valid few).mp addressed
    have below : before buffer.oldestSize (command + 1) ≤ buffer.sizes.sum := by
      rw [sizes_sum valid]
      exact before_mono _ few
    rw [before_succ] at below
    rw [slots, seekWord_of_fits second]
    exact ⟨inside, Nat.mod_eq_of_lt (by omega)⟩
  · intro absent physical
    rw [slots, seekWord_of_fits first, seekWord_of_fits second] at physical
    exact absent ((addressesByte_iff valid physical.1).mpr physical.2)

end Words

/-- The request for a seek to the words of two numbers does what the numbers ask for
if and only if the words keep their meaning. -/
theorem seeksTo_ioctl_iff {services : Services} (locks : services.interrupted = false)
    (copies : services.uncopied = 0) (filp : Nat) (state : DriverState) {command offset : Nat}
    {seekto : AesdSeekto} (first : seekto.writeCmd.toNat = seekWord command)
    (second : seekto.writeCmdOffset.toNat = seekWord offset) :
    SeeksTo services filp state command offset (.ioctl seekto) ↔
      NumbersKept state.dev.buffer command offset := by
  simp only [SeeksTo, Syscall.ioctl.injEq, exists_eq_left']
  by_cases physical : seekWord command < 10 ∧
      seekWord offset < state.dev.buffer.slotSize (seekWord command)
  · obtain ⟨succeeds, position⟩ := @ioctl_moves services filp seekto state locks copies
      (first ▸ physical.1) (by rw [first, second]; exact physical.2)
    rw [first, second] at position
    by_cases addressed : AddressesByte state.dev.buffer command offset
    · have same := seekWord_of_addressesByte addressed
      obtain ⟨size, present, inside⟩ := id addressed
      rw [same] at position physical
      rw [position, find_at_iff present inside, UInt64.toNat_ofNat']
      constructor
      · exact fun seeks => ⟨fun _ => ⟨physical.2, (seeks.1 addressed).2⟩,
          fun absent => absurd addressed absent⟩
      · exact fun kept => ⟨fun _ => ⟨succeeds, (kept.addressed addressed).2⟩,
          fun absent => absurd addressed absent⟩
    · constructor
      · intro seeks
        have failed := (seeks.2 addressed).1
        rw [succeeds] at failed
        exact absurd failed (by decide)
      · exact fun kept => absurd physical (kept.absent addressed)
  · obtain ⟨fails, memory⟩ := @ioctl_refuses services filp seekto state locks copies
      (by rw [first, second]; exact physical)
    by_cases addressed : AddressesByte state.dev.buffer command offset
    · constructor
      · intro seeks
        have succeeded := (seeks.1 addressed).1
        rw [fails] at succeeded
        exact absurd succeeded (by decide)
      · intro kept
        have same := seekWord_of_addressesByte addressed
        refine absurd ⟨?_, ?_⟩ physical
        · rw [same]
          exact lt_ten_of_addressesByte addressed
        · rw [same]
          exact (kept.addressed addressed).1
    · exact iff_of_true
        ⟨fun present => absurd present addressed,
          fun _ => ⟨fails, congrArg (fun after => after.fPos filp) memory⟩⟩
        ⟨fun present => absurd present addressed, fun _ => physical⟩

/-- The line `AESDCHAR_IOCSEEKTO:X,Y` seeks to what its numbers address, or fails, if
and only if the words they become keep their meaning. -/
theorem seekNumbers_iff {thread after : Thread} {result : Option Nat} {call : Syscall}
    {command offset : Nat} {more : List Byte}
    (text : thread.text =
      kIOCtrlStr ++ (decimal command ++ comma :: (decimal offset ++ newline :: more)))
    (taken : thread.step (.openDevice result) = some (call, after))
    {services : Services} (locks : services.interrupted = false) (copies : services.uncopied = 0)
    (filp : Nat) (state : DriverState) :
    SeeksTo services filp state command offset after.syscall ↔
      NumbersKept state.dev.buffer command offset := by
  have first := decimal_digits command
  have second := decimal_digits offset
  obtain ⟨seekto, parsed, commandWord, offsetWord⟩ :=
    parseSeekto_digits first.some first.all second.some second.all more
  rw [digitsValue_decimal] at commandWord offsetWord
  obtain ⟨_, _, resumed⟩ := Thread.step_eq_some_iff.mp taken
  obtain rfl : thread.dispatch = after := Option.some.inj resumed
  rw [dispatch_seek text, parsed]
  exact seeksTo_ioctl_iff locks copies filp state commandWord offsetWord

/-- The device after one command of two bytes. -/
def oneCommand : DriverState :=
  replay aesdInitModule [⟨0, .smooth, .write (.bytes [120, newline] (by simp))⟩]

theorem oneCommand_sizes : oneCommand.dev.buffer.sizes = [2] ∧
    oneCommand.dev.buffer.slotSize 0 = 2 ∧ oneCommand.dev.buffer.full = false := by
  decide

/-- The line `AESDCHAR_IOCSEEKTO:0,1` seeks to the second byte of the command. -/
theorem zeroOne_seeks : ∃ thread call after, process.Reachable Thread.start thread ∧
    thread.step (.openDevice (some 3)) = some (call, after) ∧
    SeeksTo .smooth 0 oneCommand 0 1 after.syscall := by
  have zero : decimal 0 = [48] := by simp [decimal]
  have one : decimal 1 = [49] := by simp [decimal]
  obtain ⟨thread, call, after, reached, text, taken, _⟩ :=
    @opens_of_opensWith (decimal 0 ++ comma :: decimal 1) (fun _ => true)
      (by rw [zero, one]; decide)
  rw [List.append_assoc, List.cons_append] at text
  obtain ⟨added, valid⟩ : ∃ added, RingInvariant added oneCommand.dev.buffer :=
    reachable_ring (replay_reachable aesdInitModule _)
  have kept : NumbersKept oneCommand.dev.buffer 0 1 :=
    numbersKept_of_fits valid (by rw [oneCommand_sizes.2.2]; decide)
      (by rw [oneCommand_sizes.1]; decide) (by decide) (by decide)
  exact ⟨thread, call, after, reached, taken, (seekNumbers_iff text taken rfl rfl 0 _).mpr kept⟩

/-- The line `AESDCHAR_IOCSEEKTO:4294967296,0` seeks to command 0. -/
theorem large_command_seeks : ¬ ∀ thread result call after command offset more,
    process.Reachable Thread.start thread →
      thread.text =
        kIOCtrlStr ++ (decimal command ++ comma :: (decimal offset ++ newline :: more)) →
      thread.step (.openDevice result) = some (call, after) →
      ∀ state, driver.Reachable aesdInitModule state → ∀ services : Services,
        services.interrupted = false → services.uncopied = 0 → ∀ filp,
          SeeksTo services filp state command offset after.syscall := by
  intro always
  have large : decimal 4294967296 = [52, 50, 57, 52, 57, 54, 55, 50, 57, 54] := by simp [decimal]
  have zero : decimal 0 = [48] := by simp [decimal]
  obtain ⟨thread, call, after, reached, text, taken, asks⟩ :=
    @opens_of_opensWith (decimal 4294967296 ++ comma :: decimal 0)
      (fun after => after.syscall == .ioctl ⟨0, 0⟩) (by rw [large, zero]; decide)
  rw [List.append_assoc, List.cons_append] at text
  obtain ⟨seekto, same, _, refused⟩ := always thread _ call after _ _ _ reached text taken
    oneCommand (replay_reachable _ _) .smooth rfl rfl 0
  obtain rfl : seekto = ⟨0, 0⟩ := Syscall.ioctl.inj (same.symm.trans (eq_of_beq asks))
  have absent : ¬ AddressesByte oneCommand.dev.buffer 4294967296 0 := by
    exact fun addressed => absurd (lt_ten_of_addressesByte addressed) (by decide)
  have moves := @ioctl_moves .smooth 0 ⟨0, 0⟩ oneCommand rfl rfl (by decide)
    (by rw [show (⟨0, 0⟩ : AesdSeekto).writeCmd.toNat = 0 from rfl, oneCommand_sizes.2.1]; decide)
  have failed := (refused absent).1
  rw [moves.1] at failed
  exact absurd failed (by decide)

end Aesd.Server
