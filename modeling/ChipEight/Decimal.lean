import ChipEight.Width

/-! The decimal digits of a byte. -/
namespace ChipEight

structure Decimal where
  hundreds : UInt8
  tens : UInt8
  ones : UInt8
  deriving DecidableEq, Repr

namespace Decimal

/-- Takes the hundreds, then the tens of what is left, then the rest. -/
def ofByte (value : UInt8) : Except Halt Decimal := do
  let hundreds := value / 100
  let inHundreds ← fitByte (hundreds.toNat * 100 : Nat)
  let belowHundred ← fitByte (value.toNat - inHundreds.toNat : Int)
  let tens := belowHundred / 10
  let inTens ← fitByte (tens.toNat * 10 : Nat)
  let ones ← fitByte (belowHundred.toNat - inTens.toNat : Int)
  return { hundreds, tens, ones }

def toList (d : Decimal) : List UInt8 := [d.hundreds, d.tens, d.ones]

@[simp] theorem length_toList (d : Decimal) : d.toList.length = 3 := rfl

/-- The digits of every byte are found, and no step on the way leaves the byte range. -/
theorem ofByte_eq (value : UInt8) :
    ofByte value = .ok ⟨value / 100, value % 100 / 10, value % 10⟩ := by
  have hv := value.toNat_lt
  have inHundreds : fitByte ((value / 100).toNat * 100 : Nat) = .ok (value / 100 * 100) :=
    fitByte_eq (by simp; omega)
  have belowHundred :
      fitByte (value.toNat - (value / 100 * 100).toNat : Int) = .ok (value % 100) :=
    fitByte_eq (by simp; omega)
  have inTens : fitByte ((value % 100 / 10).toNat * 10 : Nat) = .ok (value % 100 / 10 * 10) :=
    fitByte_eq (by simp; omega)
  have ones :
      fitByte ((value % 100).toNat - (value % 100 / 10 * 10).toNat : Int) = .ok (value % 10) :=
    fitByte_eq (by simp; omega)
  simp only [ofByte, inHundreds, belowHundred, inTens, ones, bind, Except.bind, pure, Except.pure]

example : ofByte 255 = .ok ⟨2, 5, 5⟩ := ofByte_eq 255

end Decimal

end ChipEight
