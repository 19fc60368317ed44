import Aesd.Driver.Atomicity
import Aesd.Driver.Ownership

/-! The C library functions that `process` calls on the text it received. -/
namespace Aesd.Server

open Aesd.Library Aesd.Driver

/-- The text up to the first `NUL`. -/
def cString (bytes : List Byte) : List Byte := bytes.takeWhile (· ≠ 0)

/-- The text from the first `character` on, or `NULL`. -/
def strchr (text : List Byte) (character : Byte) : Option (List Byte) :=
  match text.dropWhile (· ≠ character) with
  | [] => none
  | found => some found

def isSpace (byte : Byte) : Bool := byte = 32 || (9 ≤ byte && byte ≤ 13)

def isDigit (byte : Byte) : Bool := 48 ≤ byte && byte ≤ 57

def digitsValue (digits : List Byte) : Nat :=
  digits.foldl (fun value digit => 10 * value + (digit.toNat - 48)) 0

/-- `strtol` in base ten with a 64-bit `long`, saturating. -/
def strtol (text : List Byte) : Int :=
  let number : Int := match text.dropWhile isSpace with
    | 45 :: rest => -(digitsValue (rest.takeWhile isDigit))
    | 43 :: rest => digitsValue (rest.takeWhile isDigit)
    | rest => digitsValue (rest.takeWhile isDigit)
  max (-2 ^ 63) (min number (2 ^ 63 - 1))

def atoi (text : List Byte) : Int32 := Int32.ofInt (strtol text)

/-- `"AESDCHAR_IOCSEEKTO:"`. -/
def kIOCtrlStr : List Byte :=
  [65, 69, 83, 68, 67, 72, 65, 82, 95, 73, 79, 67, 83, 69, 69, 75, 84, 79, 58]

def comma : Byte := 44

/-- The parser of lines 158 to 162, on the text behind the prefix. `none` where the
source goes on with the pointer after `NULL`. -/
def parseSeekto (text : List Byte) : Option AesdSeekto :=
  (strchr text comma).map fun second =>
    ⟨(atoi text).toUInt32, (atoi (second.drop 1)).toUInt32⟩

theorem cString_append {received tail : List Byte} (noNul : (0 : Byte) ∉ received) :
    cString (received ++ tail) = received ++ cString tail := by
  have all : ∀ byte ∈ received, decide (byte ≠ 0) = true := by
    intro byte member
    exact decide_eq_true fun zero => noNul (zero ▸ member)
  rw [cString, List.takeWhile_append_of_pos all]
  rfl

theorem cString_append_zero {text rest : List Byte} (noNul : (0 : Byte) ∉ text) :
    cString (text ++ 0 :: rest) = text := by
  rw [cString_append noNul]
  simp [cString]

theorem cString_drop {bytes : List Byte} {distance : Nat}
    (inside : distance ≤ (cString bytes).length) :
    cString (bytes.drop distance) = (cString bytes).drop distance := by
  induction distance generalizing bytes with
  | zero => rfl
  | succ distance ih =>
    cases bytes with
    | nil => simp [cString] at inside
    | cons byte rest =>
      by_cases zero : byte = 0
      · simp [cString, zero] at inside
      · have head : cString (byte :: rest) = byte :: cString rest := by simp [cString, zero]
        rw [head] at inside ⊢
        exact ih (Nat.le_of_succ_le_succ inside)

end Aesd.Server
