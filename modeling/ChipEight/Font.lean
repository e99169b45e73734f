import ChipEight.Width

/-! The sprites of the sixteen hexadecimal digits. Each is five rows of four pixels, in the upper half
of a byte. -/
namespace ChipEight.Font

def spriteSize : Nat := 5

/-- The sprites of `0` to `F`, one after the other. -/
def sprites : List UInt8 := [
  0xF0, 0x90, 0x90, 0x90, 0xF0,
  0x20, 0x60, 0x20, 0x20, 0x70,
  0xF0, 0x10, 0xF0, 0x80, 0xF0,
  0xF0, 0x10, 0xF0, 0x10, 0xF0,
  0x90, 0x90, 0xF0, 0x10, 0x10,
  0xF0, 0x80, 0xF0, 0x10, 0xF0,
  0xF0, 0x80, 0xF0, 0x90, 0xF0,
  0xF0, 0x10, 0x20, 0x40, 0x40,
  0xF0, 0x90, 0xF0, 0x90, 0xF0,
  0xF0, 0x90, 0xF0, 0x10, 0xF0,
  0xF0, 0x90, 0xF0, 0x90, 0x90,
  0xE0, 0x90, 0xE0, 0x90, 0xE0,
  0xF0, 0x80, 0x80, 0x80, 0xF0,
  0xE0, 0x90, 0x90, 0x90, 0xE0,
  0xF0, 0x80, 0xF0, 0x80, 0xF0,
  0xF0, 0x80, 0xF0, 0x80, 0x80]

@[simp] theorem length_sprites : sprites.length = 16 * spriteSize := rfl

/-- Where the sprite of `digit` starts when the sprites lie at address 0. Bytes above 15 are not
digits; their addresses lie past the sprites. -/
def address (digit : UInt8) : Except Halt UInt16 := fitWord (digit.toNat * spriteSize : Nat)

end ChipEight.Font
