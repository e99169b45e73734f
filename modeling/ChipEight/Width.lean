import ChipEight.Fault

/-! Arithmetic whose exact result has to fit a word. A result outside the word is a defect and never
wraps around. -/
namespace ChipEight

/-- Accepts a whole number from 0 to below `size`. -/
def fits (size : Nat) : Int → Except Halt Nat
  | .ofNat n => if n < size then .ok n else .error (.defect .overflow)
  | .negSucc _ => .error (.defect .overflow)

theorem fits_of_lt {size n : Nat} (h : n < size) : fits size n = .ok n := if_pos h

theorem fits_of_le {size n : Nat} (h : size ≤ n) : fits size n = .error (.defect .overflow) :=
  if_neg (Nat.not_lt.2 h)

def fitByte (n : Int) : Except Halt UInt8 := (fits UInt8.size n).map Nat.toUInt8

def fitWord (n : Int) : Except Halt UInt16 := (fits UInt16.size n).map Nat.toUInt16

/-- A count that fits 32 bits. -/
def fit32 (n : Int) : Except Halt Nat := fits UInt32.size n

/-- An address or a length, which fit 64 bits. -/
def fit64 (n : Int) : Except Halt Nat := fits UInt64.size n

theorem fitByte_of_lt {n : Nat} (h : n < UInt8.size) : fitByte n = .ok n.toUInt8 := by
  rw [fitByte, fits_of_lt h]
  rfl

/-- A byte that has the exact result as its value is what comes out. -/
theorem fitByte_eq {n : Int} {b : UInt8} (h : n = b.toNat) : fitByte n = .ok b := by
  rw [h, fitByte_of_lt b.toNat_lt]
  simp

theorem fitWord_of_lt {n : Nat} (h : n < UInt16.size) : fitWord n = .ok n.toUInt16 := by
  rw [fitWord, fits_of_lt h]
  rfl

/-- A word that has the exact result as its value is what comes out. -/
theorem fitWord_eq {n : Int} {w : UInt16} (h : n = w.toNat) : fitWord n = .ok w := by
  rw [h, fitWord_of_lt w.toNat_lt]
  simp

theorem fit64_of_lt {n : Nat} (h : n < UInt64.size) : fit64 n = .ok n := fits_of_lt h

end ChipEight
