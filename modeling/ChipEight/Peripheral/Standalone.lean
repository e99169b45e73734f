import ChipEight.Peripheral.Basic

/-! The peripherals of a machine that runs by itself: bytes grown from a seed, and a clock that counts
cycles. -/
namespace ChipEight

/-- A sequence of bytes fixed by its seed. -/
structure SeededBytes where
  state : UInt64

namespace SeededBytes

/-- The state moves by a fixed odd step; the byte is mixed from all bits of the state. -/
def next (r : SeededBytes) : UInt8 × SeededBytes :=
  let state := r.state + 0x9E3779B97F4A7C15
  let a := (state ^^^ state >>> 30) * 0xBF58476D1CE4E5B9
  let b := (a ^^^ a >>> 27) * 0x94D049BB133111EB
  ((b ^^^ b >>> 31).toUInt8, { state })

def take (r : SeededBytes) : Nat → List UInt8
  | 0 => []
  | n + 1 =>
    let (byte, r) := r.next
    byte :: r.take n

@[simp] theorem length_take (r : SeededBytes) (n : Nat) : (r.take n).length = n := by
  induction n generalizing r with
  | zero => rfl
  | succ n ih => simp [take, ih]

end SeededBytes

instance : Randomizer SeededBytes where
  nextByte := SeededBytes.next

/-- Time that passes by the length of one cycle between two readings. -/
structure CycleClock where
  cycles : Nat := 0

def CycleClock.rate : Nat := 500

instance : Clock CycleClock Rat where
  elapsed c := (mkRat (c.cycles + 1 : Nat) CycleClock.rate, { cycles := c.cycles + 1 })
  reset _ := {}

end ChipEight
