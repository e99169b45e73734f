import ChipEight.Instruction.Basic

/-! Instruction words as a table of patterns. Decoding takes the first pattern that a word matches, so
the two fixed words that also look like calls of machine code stand in front of those. -/
namespace ChipEight

/-- A pattern fixes the bits of a word under `mask`; the other bits are operands. -/
structure Pattern where
  mask : UInt16
  bits : UInt16
  build : UInt16 → Instruction

namespace Pattern

def isMatch (p : Pattern) (word : UInt16) : Bool := word &&& p.mask == p.bits

/-- The second digit of a word, a register. -/
def x (word : UInt16) : Nat := (word >>> 8 &&& 0xF).toNat

/-- The third digit of a word, a register. -/
def y (word : UInt16) : Nat := (word >>> 4 &&& 0xF).toNat

/-- The last digit of a word. -/
def n (word : UInt16) : UInt8 := (word &&& 0xF).toUInt8

/-- The lower byte of a word. -/
def kk (word : UInt16) : UInt8 := (word &&& 0xFF).toUInt8

/-- The last three digits of a word. -/
def addr (word : UInt16) : UInt16 := word &&& 0x0FFF

/-- A word without operands. -/
def fixed (bits : UInt16) (i : Instruction) : Pattern := ⟨0xFFFF, bits, fun _ => i⟩

/-- Two registers between the first and the last digit. -/
def registers (bits : UInt16) (i : Nat → Nat → Instruction) : Pattern :=
  ⟨0xF00F, bits, fun w => i (x w) (y w)⟩

/-- One register as the second digit. -/
def register (bits : UInt16) (i : Nat → Instruction) : Pattern := ⟨0xF0FF, bits, fun w => i (x w)⟩

/-- One register as the second digit; the third digit is not looked at. -/
def shifted (bits : UInt16) (i : Nat → Instruction) : Pattern := ⟨0xF00F, bits, fun w => i (x w)⟩

/-- A register and a byte after the first digit. -/
def registerByte (bits : UInt16) (i : Nat → UInt8 → Instruction) : Pattern :=
  ⟨0xF000, bits, fun w => i (x w) (kk w)⟩

/-- An address after the first digit. -/
def address (bits : UInt16) (i : UInt16 → Instruction) : Pattern :=
  ⟨0xF000, bits, fun w => i (addr w)⟩

def table : List Pattern := [
  fixed 0x00E0 .clear,
  fixed 0x00EE .ret,
  registers 0x5000 .skipSame,
  registers 0x8000 .copy,
  registers 0x8001 .or,
  registers 0x8002 .and,
  registers 0x8003 .xor,
  registers 0x8004 .add,
  registers 0x8005 .sub,
  shifted 0x8006 .shiftRight,
  registers 0x8007 .subFrom,
  shifted 0x800E .shiftLeft,
  registers 0x9000 .skipDifferent,
  register 0xE09E .skipKeyDown,
  register 0xE0A1 .skipKeyUp,
  register 0xF007 .readDelay,
  register 0xF00A .awaitKey,
  register 0xF015 .setDelay,
  register 0xF018 .setSound,
  register 0xF01E .addIndex,
  register 0xF029 .fontSprite,
  register 0xF033 .storeDecimal,
  register 0xF055 .storeRegisters,
  register 0xF065 .loadRegisters,
  address 0x1000 .jump,
  address 0x2000 .call,
  registerByte 0x3000 .skipEqual,
  registerByte 0x4000 .skipUnequal,
  registerByte 0x6000 .load,
  registerByte 0x7000 .addByte,
  address 0xA000 .setIndex,
  address 0xB000 .jumpOffset,
  registerByte 0xC000 .random,
  ⟨0xF000, 0xD000, fun w => .draw (x w) (y w) (n w)⟩,
  address 0x0000 .sys]

/-- The first pattern of a list that a word matches gives its instruction. -/
def decodeWith (patterns : List Pattern) (word : UInt16) : Option Instruction :=
  (patterns.find? (·.isMatch word)).map (·.build word)

end Pattern

/-- The instruction that a word stands for, if there is one. -/
def Instruction.decode (word : UInt16) : Option Instruction := Pattern.decodeWith Pattern.table word

example : Instruction.decode 0xD125 = some (.draw 1 2 5) := by decide
example : Instruction.decode 0x812F = none := by decide

end ChipEight
