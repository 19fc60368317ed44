import Aesd.Server.Serial

namespace Aesd.Server

open Aesd.Library Aesd.Driver

inductive Request where
  | line (text : List Byte)
  | seek (command offset : Nat)
deriving DecidableEq, Repr

/-- A decimal number that a `uint32_t` holds. -/
structure Decimal (digits : List Byte) : Prop where
  some : digits ≠ []
  all : ∀ digit ∈ digits, isDigit digit = true
  fits : digitsValue digits < 2 ^ 32

/-- The text of a request: a line, or `AESDCHAR_IOCSEEKTO:X,Y` with its newline. -/
inductive Spells : List Byte → Request → Prop where
  | line {text : List Byte} (ordinary : OrdinaryLine text) : Spells text (.line text)
  | seek {first second : List Byte} (command : Decimal first) (offset : Decimal second) :
      Spells (kIOCtrlStr ++ (first ++ comma :: (second ++ [newline])))
        (.seek (digitsValue first) (digitsValue second))

namespace Request

/-- The commands once the request is performed. -/
def store (commands : List (List Byte)) : Request → List (List Byte)
  | .line text => commands ++ [text]
  | .seek _ _ => commands

/-- What the client expects: everything after a line, and everything from the addressed
byte on after a seek; `none` if there is no such byte. -/
def reply (commands : List (List Byte)) : Request → Option (List Byte)
  | .line text => some (commands ++ [text]).flatten
  | .seek command offset =>
    match commands[command]? with
    | none => none
    | some bytes =>
      if offset < bytes.length then
        some (bytes.drop offset ++ (commands.drop (command + 1)).flatten)
      else none

end Request

section Numbers

variable {digits rest : List Byte}

theorem isDigit_iff {byte : Byte} : isDigit byte = true ↔ 48 ≤ byte.toNat ∧ byte.toNat ≤ 57 := by
  simp [isDigit, UInt8.le_iff_toNat_le]

theorem not_of_isDigit {byte other : Byte} (digit : isDigit byte = true)
    (outside : other.toNat < 48) : byte ≠ other := by
  rintro rfl
  have bounds := isDigit_iff.mp digit
  omega

theorem isSpace_of_isDigit {byte : Byte} (digit : isDigit byte = true) : isSpace byte = false := by
  have bounds := isDigit_iff.mp digit
  simp [isSpace, UInt8.le_iff_toNat_le, ← UInt8.toNat_inj]
  omega

theorem takeWhile_isDigit (all : ∀ digit ∈ digits, isDigit digit = true)
    (stops : ∀ byte ∈ rest.head?, isDigit byte = false) :
    (digits ++ rest).takeWhile isDigit = digits := by
  rw [List.takeWhile_append_of_pos all]
  cases rest with
  | nil => simp
  | cons byte rest => simp [stops byte rfl]

/-- `strtol` reads the digits, stops behind them and saturates. -/
theorem strtol_digits (some : digits ≠ []) (all : ∀ digit ∈ digits, isDigit digit = true)
    (stops : ∀ byte ∈ rest.head?, isDigit byte = false) :
    strtol (digits ++ rest) = (min (digitsValue digits) (2 ^ 63 - 1) : Nat) := by
  have number := takeWhile_isDigit all stops
  obtain ⟨first, others, rfl⟩ := List.exists_cons_of_ne_nil some
  have digit := all first List.mem_cons_self
  have noSpace : (first :: others ++ rest).dropWhile isSpace = first :: (others ++ rest) := by
    simp [isSpace_of_isDigit digit]
  have minus : first ≠ 45 := not_of_isDigit digit (by decide)
  have plus : first ≠ 43 := not_of_isDigit digit (by decide)
  unfold strtol
  rw [noSpace]
  simp only
  split
  · rename_i same
    cases same
    exact absurd rfl minus
  · rename_i same
    cases same
    exact absurd rfl plus
  · rw [← List.cons_append, number]
    omega

/-- The `uint32_t` that a number in the text becomes. -/
def seekWord (number : Nat) : Nat := min number (2 ^ 63 - 1) % 2 ^ 32

theorem seekWord_of_fits {number : Nat} (fits : number < 2 ^ 32) : seekWord number = number := by
  rw [seekWord, Nat.min_eq_left (by omega), Nat.mod_eq_of_lt fits]

theorem atoi_digits (some : digits ≠ []) (all : ∀ digit ∈ digits, isDigit digit = true)
    (stops : ∀ byte ∈ rest.head?, isDigit byte = false) :
    (atoi (digits ++ rest)).toUInt32.toNat = seekWord (digitsValue digits) := by
  rw [atoi, strtol_digits some all stops, Int32.ofInt_eq_ofNat, Int32.toUInt32_ofNat',
    UInt32.toNat_ofNat']
  rfl

end Numbers

section Arguments

variable {first second : List Byte}

theorem strchr_comma (digits : ∀ digit ∈ first, isDigit digit = true) (behind : List Byte) :
    strchr (first ++ comma :: behind) comma = some (comma :: behind) := by
  have noComma : ∀ byte ∈ first, decide (byte ≠ comma) = true := by
    intro byte member
    exact decide_eq_true (not_of_isDigit (digits byte member) (by decide))
  rw [strchr, List.dropWhile_append_of_pos noComma]
  simp

/-- The two numbers of a seek command arrive in the request of the `ioctl` as words. -/
theorem parseSeekto_digits (someFirst : first ≠ [])
    (allFirst : ∀ digit ∈ first, isDigit digit = true) (someSecond : second ≠ [])
    (allSecond : ∀ digit ∈ second, isDigit digit = true) (more : List Byte) :
    ∃ seekto, parseSeekto (first ++ comma :: (second ++ newline :: more)) = some seekto ∧
      seekto.writeCmd.toNat = seekWord (digitsValue first) ∧
      seekto.writeCmdOffset.toNat = seekWord (digitsValue second) := by
  have found := strchr_comma allFirst (second ++ newline :: more)
  refine ⟨_, by rw [parseSeekto, found]; rfl, ?_, ?_⟩
  · exact atoi_digits someFirst allFirst (by simp; decide)
  · exact atoi_digits someSecond allSecond (by simp; decide)

theorem parseSeekto_decimal (command : Decimal first) (offset : Decimal second) :
    ∃ seekto, parseSeekto (first ++ comma :: (second ++ [newline])) = some seekto ∧
      seekto.writeCmd.toNat = digitsValue first ∧
      seekto.writeCmdOffset.toNat = digitsValue second := by
  obtain ⟨seekto, parsed, commandSame, offsetSame⟩ :=
    parseSeekto_digits command.some command.all offset.some offset.all []
  rw [seekWord_of_fits command.fits] at commandSame
  rw [seekWord_of_fits offset.fits] at offsetSame
  exact ⟨seekto, parsed, commandSame, offsetSame⟩

end Arguments

section Meaning

variable {text reply : List Byte} {request : Request} {commands : List (List Byte)}

theorem isSeek_spelled (tail : List Byte) : isSeek (kIOCtrlStr ++ tail) = true :=
  List.isPrefixOf_iff_prefix.mpr (List.prefix_append _ _)

theorem operationOf_seek (tail : List Byte) :
    operationOf (kIOCtrlStr ++ tail) = (parseSeekto tail).map .seek := by
  have seeks : kIOCtrlStr.isPrefixOf (kIOCtrlStr ++ tail) = true := isSeek_spelled tail
  rw [operationOf, if_pos seeks, List.drop_left]

theorem drop_flatten {command offset : Nat} {bytes : List Byte}
    (found : commands[command]? = some bytes) (inside : offset < bytes.length) :
    commands.flatten.drop ((commands.take command).flatten.length + offset) =
      bytes.drop offset ++ (commands.drop (command + 1)).flatten := by
  obtain ⟨present, same⟩ := List.getElem?_eq_some_iff.mp found
  have cut : commands = commands.take command ++ bytes :: commands.drop (command + 1) := by
    rw [← same, List.getElem_cons_drop, List.take_append_drop]
  have flat : commands.flatten =
      (commands.take command).flatten ++ (bytes ++ (commands.drop (command + 1)).flatten) := by
    conv_lhs => rw [cut]
    rw [List.flatten_append, List.flatten_cons]
  rw [flat, ← List.drop_drop, List.drop_left, List.drop_append_of_le_length inside.le]

/-- What `process` does for a request that is well spelled and can be answered. -/
theorem Spells.meaning (spells : Spells text request)
    (expected : request.reply commands = some reply) :
    ∃ position, outcome .all commands text = some (request.store commands, position) ∧
      position ≤ (request.store commands).flatten.length ∧ reply ≠ [] ∧
      reply = (request.store commands).flatten.drop (if isSeek text then position else 0) ∧
      (isSeek text = false → position = (request.store commands).flatten.length) := by
  cases spells with
  | line ordinary =>
    obtain ⟨isLine, ends⟩ := ordinary
    obtain rfl := Option.some.inj expected
    have some : text ≠ [] := by
      rintro rfl
      cases ends
    refine ⟨_, outcome_line isLine, le_rfl, Retention.all.nonempty commands text some, ?_,
      fun _ => rfl⟩
    rw [isLine]
    rfl
  | @seek first second command offset =>
    obtain ⟨seekto, parsed, commandSame, offsetSame⟩ := parseSeekto_decimal command offset
    simp only [Request.reply] at expected
    split at expected
    · cases expected
    · rename_i bytes found
      simp only [Option.ite_none_right_eq_some, Option.some.injEq] at expected
      obtain ⟨inside, rfl⟩ := expected
      have seeks := isSeek_spelled (first ++ comma :: (second ++ [newline]))
      have target : IdealDevice.target commands seekto =
          some ((commands.take (digitsValue first)).flatten.length + digitsValue second) := by
        rw [IdealDevice.target, commandSame, offsetSame, found]
        exact if_pos inside
      have means : operationOf (kIOCtrlStr ++ (first ++ comma :: (second ++ [newline]))) =
          some (.seek seekto) := by
        rw [operationOf_seek, parsed]
        rfl
      have rest := drop_flatten found inside
      have some : bytes.drop (digitsValue second) ≠ [] := by
        rw [ne_eq, List.drop_eq_nil_iff]
        omega
      have nonempty : bytes.drop (digitsValue second) ++
          (commands.drop (digitsValue first + 1)).flatten ≠ [] := by
        simp [some]
      refine ⟨_, by rw [outcome_seek means, target]; rfl, ?_, nonempty, ?_, ?_⟩
      · by_contra beyond
        rw [Request.store] at beyond
        rw [List.drop_of_length_le (by omega)] at rest
        exact nonempty rest.symm
      · rw [if_pos seeks]
        exact rest.symm
      · intro isLine
        rw [seeks] at isLine
        cases isLine

end Meaning

end Aesd.Server
