/-! The thirty-five instructions and their operands: `x` and `y` are register numbers, `kk` is a byte,
`addr` an address and `n` a number of sprite rows. -/
namespace ChipEight

inductive Instruction
  /-- Call machine code at `addr`. -/
  | sys (addr : UInt16)
  /-- Clear the picture. -/
  | clear
  /-- Return from a subroutine. -/
  | ret
  | jump (addr : UInt16)
  | call (addr : UInt16)
  /-- Skip if `Vx = kk`. -/
  | skipEqual (x : Nat) (kk : UInt8)
  /-- Skip if `Vx ≠ kk`. -/
  | skipUnequal (x : Nat) (kk : UInt8)
  /-- Skip if `Vx = Vy`. -/
  | skipSame (x y : Nat)
  /-- `Vx := kk`. -/
  | load (x : Nat) (kk : UInt8)
  /-- `Vx := Vx + kk`, without a carry. -/
  | addByte (x : Nat) (kk : UInt8)
  /-- `Vx := Vy`. -/
  | copy (x y : Nat)
  | or (x y : Nat)
  | and (x y : Nat)
  | xor (x y : Nat)
  /-- `Vx := Vx + Vy`, the flag being the carry. -/
  | add (x y : Nat)
  /-- `Vx := Vx - Vy`, the flag being set unless it borrows. -/
  | sub (x y : Nat)
  /-- `Vx := Vx / 2`, the flag being the bit that falls out. -/
  | shiftRight (x : Nat)
  /-- `Vx := Vy - Vx`, the flag being set unless it borrows. -/
  | subFrom (x y : Nat)
  /-- `Vx := 2 * Vx`, the flag being the bit that falls out. -/
  | shiftLeft (x : Nat)
  /-- Skip if `Vx ≠ Vy`. -/
  | skipDifferent (x y : Nat)
  /-- `I := addr`. -/
  | setIndex (addr : UInt16)
  /-- Jump to `addr + V0`. -/
  | jumpOffset (addr : UInt16)
  /-- `Vx :=` a random byte under the mask `kk`. -/
  | random (x : Nat) (kk : UInt8)
  /-- Draw the `n` rows at `I` with their corner at `(Vx, Vy)`. -/
  | draw (x y : Nat) (n : UInt8)
  /-- Skip if key `Vx` is down. -/
  | skipKeyDown (x : Nat)
  /-- Skip if key `Vx` is up. -/
  | skipKeyUp (x : Nat)
  /-- `Vx :=` the delay timer. -/
  | readDelay (x : Nat)
  /-- Wait for a key press and store the key in `Vx`. -/
  | awaitKey (x : Nat)
  | setDelay (x : Nat)
  | setSound (x : Nat)
  /-- `I := I + Vx`. -/
  | addIndex (x : Nat)
  /-- `I :=` the address of the sprite of digit `Vx`. -/
  | fontSprite (x : Nat)
  /-- Store the decimal digits of `Vx` at `I`. -/
  | storeDecimal (x : Nat)
  /-- Store `V0` to `Vx` at `I`. -/
  | storeRegisters (x : Nat)
  /-- Load `V0` to `Vx` from `I`. -/
  | loadRegisters (x : Nat)
  deriving DecidableEq, Repr

/-- Whether the instruction leaves a picture to be shown. -/
def Instruction.draws : Instruction → Bool
  | .clear | .draw .. => true
  | _ => false

end ChipEight
