/-! Hexadecimal text as it stands in messages and log lines. -/
namespace ChipEight

/-- The upper-case hexadecimal digits of `n`, with leading zeros up to `width` digits. -/
def hex (width n : Nat) : String :=
  let digits := (Nat.toDigits 16 n).map Char.toUpper
  String.ofList (List.replicate (width - digits.length) '0' ++ digits)

/-- Several numbers of one width, in brackets. -/
def hexList (width : Nat) (ns : List Nat) : String :=
  "[" ++ ", ".intercalate (ns.map (hex width)) ++ "]"

example : hex 3 0x5 = "005" := by decide
example : hex 3 0xABCD = "ABCD" := by decide

end ChipEight
