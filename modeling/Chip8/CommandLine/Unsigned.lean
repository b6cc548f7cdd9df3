/-!
# Reading numbers

`readUnsigned` reads a number from an argument of a command line. A plus sign may stand in front.
The digits are read from the left, and the first thing that is wrong decides the fault: a character
that is no digit, or a value above the limit.
-/

namespace Chip8.CommandLine

/-- Why a text is no number. -/
inductive NumeralFault
  /-- The text is empty. -/
  | empty
  /-- A character is no digit. -/
  | invalidDigit
  /-- The number is above the limit. -/
  | tooLarge
  deriving DecidableEq, Repr

/-- The text for the user. -/
def NumeralFault.message : NumeralFault → String
  | empty => "cannot parse integer from empty string"
  | invalidDigit => "invalid digit found in string"
  | tooLarge => "number too large to fit in target type"

/-- The value of a digit in the given base, of either case. -/
def digitValue? (base : Nat) (c : Char) : Option Nat :=
  let value :=
    if '0' ≤ c ∧ c ≤ '9' then c.toNat - '0'.toNat
    else if 'a' ≤ c ∧ c ≤ 'z' then c.toNat - 'a'.toNat + 10
    else if 'A' ≤ c ∧ c ≤ 'Z' then c.toNat - 'A'.toNat + 10
    else base
  if value < base then some value else none

/-- The number whose digits are those of `value` and then the given ones. -/
def readDigits (base limit value : Nat) : List Char → Except NumeralFault Nat
  | [] => .ok value
  | c :: rest =>
    match digitValue? base c with
    | none => .error .invalidDigit
    | some d =>
      if base * value + d ≤ limit then readDigits base limit (base * value + d) rest
      else .error .tooLarge

/-- The number that a text stands for in the given base, at most `limit`. -/
def readUnsigned (base limit : Nat) (text : String) : Except NumeralFault Nat :=
  match text.toList with
  | [] => .error .empty
  | ['+'] => .error .invalidDigit
  | '+' :: rest => readDigits base limit 0 rest
  | digits => readDigits base limit 0 digits

end Chip8.CommandLine
