/-! Decimal numbers with an optional sign, as 64-bit integers. -/
namespace ChipEight

inductive NumeralError
  | empty
  | invalidDigit
  | tooLarge
  | tooSmall
  deriving DecidableEq, Repr

def NumeralError.text : NumeralError → String
  | .empty => "cannot parse integer from empty string"
  | .invalidDigit => "invalid digit found in string"
  | .tooLarge => "number too large to fit in target type"
  | .tooSmall => "number too small to fit in target type"

namespace Numeral

/-- The first number that is too large. -/
def limit : Int := 0x8000000000000000

/-- Reads digits after a number that has been read as `n`. The first digit that is none, or that takes
the number out of its range, decides the error. -/
def readDigits (negative : Bool) (n : Int) : List Char → Except NumeralError Int
  | [] => .ok n
  | c :: rest =>
    if !c.isDigit then .error .invalidDigit
    else
      let digit : Int := (c.toNat - '0'.toNat : Nat)
      let m := if negative then 10 * n - digit else 10 * n + digit
      if limit ≤ m then .error .tooLarge
      else if m < -limit then .error .tooSmall
      else readDigits negative m rest

/-- A sign alone is no number. -/
def read : List Char → Except NumeralError Int
  | [] => .error .empty
  | ['+'] | ['-'] => .error .invalidDigit
  | '+' :: digits => readDigits false 0 digits
  | '-' :: digits => readDigits true 0 digits
  | digits => readDigits false 0 digits

example : read ['+', '0', '7'] = .ok 7 := rfl
example : read ['-', '1'] = .ok (-1) := rfl

end Numeral

end ChipEight
