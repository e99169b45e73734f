import ChipEight.Instruction.Basic

/-! The word of each instruction, digit by digit. -/
namespace ChipEight.Instruction

/-- Operands that have a place in a word: registers and row counts of one digit, addresses of three. -/
def InRange : Instruction → Prop
  | .clear | .ret => True
  | .sys addr | .jump addr | .call addr | .setIndex addr | .jumpOffset addr => addr < 0x1000
  | .skipEqual x _ | .skipUnequal x _ | .load x _ | .addByte x _ | .random x _ => x < 16
  | .skipSame x y | .copy x y | .or x y | .and x y | .xor x y | .add x y | .sub x y | .subFrom x y
  | .skipDifferent x y => x < 16 ∧ y < 16
  | .draw x y n => x < 16 ∧ y < 16 ∧ n < 16
  | .shiftRight x | .shiftLeft x | .skipKeyDown x | .skipKeyUp x | .readDelay x | .awaitKey x
  | .setDelay x | .setSound x | .addIndex x | .fontSprite x | .storeDecimal x | .storeRegisters x
  | .loadRegisters x => x < 16

/-- Puts four digits together, the first being the highest. -/
def word (d₃ d₂ d₁ d₀ : Nat) : UInt16 := UInt16.ofNat (((d₃ * 16 + d₂) * 16 + d₁) * 16 + d₀)

/-- A first digit and an address. -/
def withAddress (d₃ : Nat) (addr : UInt16) : UInt16 := UInt16.ofNat (d₃ * 4096 + addr.toNat)

/-- A first digit, a register and a byte. -/
def withByte (d₃ x : Nat) (kk : UInt8) : UInt16 := UInt16.ofNat ((d₃ * 16 + x) * 256 + kk.toNat)

/-- The word of an instruction whose operands are in range. The digit that shifts do not look at is 0. -/
def encode : Instruction → UInt16
  | .sys addr => withAddress 0x0 addr
  | .clear => 0x00E0
  | .ret => 0x00EE
  | .jump addr => withAddress 0x1 addr
  | .call addr => withAddress 0x2 addr
  | .skipEqual x kk => withByte 0x3 x kk
  | .skipUnequal x kk => withByte 0x4 x kk
  | .skipSame x y => word 0x5 x y 0x0
  | .load x kk => withByte 0x6 x kk
  | .addByte x kk => withByte 0x7 x kk
  | .copy x y => word 0x8 x y 0x0
  | .or x y => word 0x8 x y 0x1
  | .and x y => word 0x8 x y 0x2
  | .xor x y => word 0x8 x y 0x3
  | .add x y => word 0x8 x y 0x4
  | .sub x y => word 0x8 x y 0x5
  | .shiftRight x => word 0x8 x 0x0 0x6
  | .subFrom x y => word 0x8 x y 0x7
  | .shiftLeft x => word 0x8 x 0x0 0xE
  | .skipDifferent x y => word 0x9 x y 0x0
  | .setIndex addr => withAddress 0xA addr
  | .jumpOffset addr => withAddress 0xB addr
  | .random x kk => withByte 0xC x kk
  | .draw x y n => word 0xD x y n.toNat
  | .skipKeyDown x => withByte 0xE x 0x9E
  | .skipKeyUp x => withByte 0xE x 0xA1
  | .readDelay x => withByte 0xF x 0x07
  | .awaitKey x => withByte 0xF x 0x0A
  | .setDelay x => withByte 0xF x 0x15
  | .setSound x => withByte 0xF x 0x18
  | .addIndex x => withByte 0xF x 0x1E
  | .fontSprite x => withByte 0xF x 0x29
  | .storeDecimal x => withByte 0xF x 0x33
  | .storeRegisters x => withByte 0xF x 0x55
  | .loadRegisters x => withByte 0xF x 0x65

end ChipEight.Instruction
