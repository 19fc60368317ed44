import Aesd.Server.Requests

namespace Aesd.Server

open Aesd.Library Aesd.Driver

/-- A field of the command: decimal digits, at least one. -/
structure Digits (field : List Byte) : Prop where
  some : field ≠ []
  all : ∀ digit ∈ field, isDigit digit = true

/-- The form `<decimal digits>,<decimal digits>`. -/
def SeekArguments (rest : List Byte) : Prop :=
  ∃ first second, rest = first ++ comma :: second ∧ Digits first ∧ Digits second

/-- How many bytes `strtol` reads: spaces, a sign, digits and the byte that stops them. -/
def strtolReads (text : List Byte) : Nat :=
  let number := match text.dropWhile isSpace with
    | 45 :: rest => (rest.takeWhile isDigit).length + 1
    | 43 :: rest => (rest.takeWhile isDigit).length + 1
    | rest => (rest.takeWhile isDigit).length
  (text.takeWhile isSpace).length + number + 1

/-- The parser's pointers on the line `rest` with its newline stay in it, whatever
stands behind: both numbers end in it and the comma is one of its bytes. -/
structure PointersInside (rest more : List Byte) : Prop where
  first : strtolReads (rest ++ newline :: more) ≤ rest.length + 1
  second : ∃ position < rest.length,
    strchr (rest ++ newline :: more) comma = some ((rest ++ newline :: more).drop position) ∧
    position + 1 + strtolReads ((rest ++ newline :: more).drop (position + 1)) ≤ rest.length + 1

/-- The calls that may move the position of the open file. -/
def Pc.movesPosition : Pc → Bool
  | .ioctl | .write | .lseekCur | .lseekEnd | .lseekSet | .read => true
  | _ => false

/-- What the parser should do with the line `rest` behind the prefix: ask for a seek
only if the line has its form, else leave the position, and stay in the line. -/
structure SeekHandled (rest more : List Byte) (after : Thread) : Prop where
  asks : after.pc = .ioctl → SeekArguments rest
  rejects : ¬ SeekArguments rest → after.pc.movesPosition = false
  found : after.pc ≠ .crashed
  inside : PointersInside rest more

section Parser

variable {field rest more : List Byte} {thread : Thread}

theorem strtolReads_digits (digits : Digits field)
    (stops : ∀ byte ∈ rest.head?, isDigit byte = false) :
    strtolReads (field ++ rest) = field.length + 1 := by
  have number := takeWhile_isDigit digits.all stops
  obtain ⟨first, others, rfl⟩ := List.exists_cons_of_ne_nil digits.some
  have digit := digits.all first List.mem_cons_self
  have space := isSpace_of_isDigit digit
  have minus : first ≠ 45 := not_of_isDigit digit (by decide)
  have plus : first ≠ 43 := not_of_isDigit digit (by decide)
  have dropped : (first :: others ++ rest).dropWhile isSpace = first :: (others ++ rest) := by
    simp [space]
  have taken : (first :: others ++ rest).takeWhile isSpace = [] := by
    simp [space]
  unfold strtolReads
  rw [dropped, taken]
  simp only
  split
  · rename_i same
    cases same
    exact absurd rfl minus
  · rename_i same
    cases same
    exact absurd rfl plus
  · rw [← List.cons_append, number, List.length_nil, Nat.zero_add]

theorem pointersInside_of_arguments (arguments : SeekArguments rest) :
    PointersInside rest more := by
  obtain ⟨first, second, rfl, command, offset⟩ := arguments
  have whole : first ++ comma :: second ++ newline :: more =
      first ++ comma :: (second ++ newline :: more) := by simp
  have behind : (first ++ comma :: (second ++ newline :: more)).drop (first.length + 1) =
      second ++ newline :: more := by
    rw [← List.drop_drop, List.drop_left]
    rfl
  constructor
  · rw [whole, strtolReads_digits command (by simp; decide), List.length_append]
    omega
  · refine ⟨first.length, by simp, ?_, ?_⟩
    · rw [whole, strchr_comma command.all, List.drop_left]
    · rw [whole, behind, strtolReads_digits offset (by simp; decide), List.length_append,
        List.length_cons]
      omega

/-- Behind the prefix the thread seeks wherever the text has a comma. -/
theorem dispatch_seek {tail : List Byte} (text : thread.text = kIOCtrlStr ++ tail) :
    thread.dispatch = match parseSeekto tail with
      | none => { thread.advance with pc := .crashed }
      | some seekto => { thread.advance with seekto, pc := .ioctl } := by
  rw [dispatch_eq, text, operationOf_seek]
  cases parseSeekto tail <;> rfl

end Parser

/-- A line that begins with the prefix is handled as it should be if and only if its
rest has the form of the command. -/
theorem seekLine_handled_iff {thread after : Thread} {result : Option Nat} {call : Syscall}
    {rest more : List Byte} (text : thread.text = kIOCtrlStr ++ (rest ++ newline :: more))
    (taken : thread.step (.openDevice result) = some (call, after)) :
    SeekHandled rest more after ↔ SeekArguments rest := by
  obtain ⟨_, _, resumed⟩ := Thread.step_eq_some_iff.mp taken
  obtain rfl : thread.dispatch = after := Option.some.inj resumed
  rw [dispatch_seek text]
  cases parsed : parseSeekto (rest ++ newline :: more) with
  | none =>
    constructor
    · exact fun handled => absurd rfl handled.found
    · rintro ⟨first, second, rfl, command, _⟩
      rw [parseSeekto, List.append_assoc, List.cons_append, strchr_comma command.all] at parsed
      cases parsed
  | some seekto =>
    constructor
    · exact fun handled => handled.asks rfl
    · intro arguments
      exact ⟨fun _ => arguments, fun malformed => absurd arguments malformed, by rintro ⟨⟩,
        pointersInside_of_arguments arguments⟩

/-- A client sends the prefix and a line behind it. -/
def sendSeekLine (rest : List Byte) : List Event :=
  [.callocRecv true, .checkExit false, .recv (some (kIOCtrlStr ++ (rest ++ [newline]))), .lock]

/-- After the line the thread holds it and opens the device. -/
def opensWith (rest : List Byte) (outcome : Thread → Bool) : Bool :=
  (process.exec Thread.start (sendSeekLine rest)).any fun result =>
    (result.2.text == kIOCtrlStr ++ (rest ++ [newline])) &&
      (result.2.step (.openDevice (some 3))).any fun taken => outcome taken.2

theorem opens_of_opensWith {rest : List Byte} {outcome : Thread → Bool}
    (computed : opensWith rest outcome = true) :
    ∃ thread call after, process.Reachable Thread.start thread ∧
      thread.text = kIOCtrlStr ++ (rest ++ newline :: []) ∧
      thread.step (.openDevice (some 3)) = some (call, after) ∧ outcome after = true := by
  obtain ⟨⟨trace, thread⟩, executed, facts⟩ := (Option.any_eq_true _ _).mp computed
  obtain ⟨text, steps⟩ := Bool.and_eq_true_iff.mp facts
  obtain ⟨⟨call, after⟩, taken, holds⟩ := (Option.any_eq_true _ _).mp steps
  exact ⟨thread, call, after, ⟨trace, .of_exec executed⟩, eq_of_beq text, taken, holds⟩

/-- The line `AESDCHAR_IOCSEEKTO:3,14`. -/
theorem threeFourteen_handled : ∃ thread call after, process.Reachable Thread.start thread ∧
    thread.step (.openDevice (some 3)) = some (call, after) ∧
    SeekHandled [51, comma, 49, 52] [] after := by
  obtain ⟨thread, call, after, reached, text, taken, _⟩ :=
    @opens_of_opensWith [51, comma, 49, 52] (fun _ => true) (by decide)
  exact ⟨thread, call, after, reached, taken, (seekLine_handled_iff text taken).mpr
    ⟨[51], [49, 52], rfl, ⟨List.cons_ne_nil _ _, by simp [isDigit]⟩,
      ⟨List.cons_ne_nil _ _, by simp [isDigit]⟩⟩⟩

/-- The bare prefix makes the thread use the pointer behind `NULL`. -/
theorem barePrefix_crashes : ¬ ∀ thread result call after rest more,
    process.Reachable Thread.start thread →
      thread.text = kIOCtrlStr ++ (rest ++ newline :: more) → newline ∉ rest →
      thread.step (.openDevice result) = some (call, after) → SeekHandled rest more after := by
  intro always
  obtain ⟨thread, call, after, reached, text, taken, crashed⟩ :=
    @opens_of_opensWith [] (fun after => after.pc == .crashed) (by decide)
  exact (always thread _ call after [] [] reached text (by decide) taken).found
    (eq_of_beq crashed)

end Aesd.Server
