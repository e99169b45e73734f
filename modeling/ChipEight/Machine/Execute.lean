import ChipEight.Decimal
import ChipEight.Instruction.Basic
import ChipEight.Machine.Basic

/-! The effect of each instruction. Every instruction makes its checks before it changes anything. -/
namespace ChipEight.Processor

/-- The popped address is that of the call, so execution goes on behind it. -/
def ret : Step Unit := do
  let address ← pop
  jump (address + 2)

def call (address : UInt16) : Step Unit := do
  push (← get).pc
  jump address

def combine (f : UInt8 → UInt8 → UInt8) (x y : Nat) : Step Unit := do
  let a ← register x
  let b ← register y
  setRegister x (f a b)
  next

/-- `Vx := f Vx Vy`, the flag being `flag Vx Vy` for the old values. -/
def combineWithFlag (f : UInt8 → UInt8 → UInt8) (flag : UInt8 → UInt8 → Bool) (x y : Nat) :
    Step Unit := do
  let a ← register x
  let b ← register y
  setWithFlag x (f a b) (flag a b)
  next

/-- `Vx := f Vx`, the flag being `flag Vx` for the old value. -/
def changeWithFlag (f : UInt8 → UInt8) (flag : UInt8 → Bool) (x : Nat) : Step Unit := do
  let a ← register x
  setWithFlag x (f a) (flag a)
  next

def skipComparing (condition : UInt8 → UInt8 → Bool) (x y : Nat) : Step Unit := do
  let a ← register x
  let b ← register y
  skipIf (condition a b)

def jumpOffset (address : UInt16) : Step Unit := do
  let offset ← register 0
  let target ← checked (fitWord ((address &&& 0x0FFF).toNat + offset.toNat : Nat))
  jump target

def addIndex (x : Nat) : Step Unit := do
  let value ← register x
  setIndex ((← get).i + value.toUInt16)
  next

def fontSprite (x : Nat) : Step Unit := do
  let digit ← register x
  setIndex (← checked (Font.address digit))
  next

def storeDecimal (x : Nat) : Step Unit := do
  let value ← register x
  let digits ← checked (Decimal.ofByte value)
  write (← get).i.toNat digits.toList
  next

def storeRegisters (x : Nat) : Step Unit := do
  let values ← registersThrough x
  write (← get).i.toNat values
  next

def setRegisters (x : Nat) : List UInt8 → Step Unit
  | [] => return ()
  | value :: rest => do
    setRegister x value
    setRegisters (x + 1) rest

def loadRegisters (x : Nat) : Step Unit := do
  let _ ← registersThrough x
  let values ← read (← get).i.toNat (x + 1)
  setRegisters 0 values
  next

end ChipEight.Processor

namespace ChipEight.Machine

open Processor (register setRegister next skipIf)

variable {ρ κ γ : Type}

/-- Coordinates and rows are read before the flag is set, which may be one of the coordinates. -/
def draw (x y : Nat) (n : UInt8) : Step ρ κ γ Unit := do
  let column ← onProcessor (register x)
  let row ← onProcessor (register y)
  let sprite ← onProcessor do Processor.read (← get).i.toNat n.toNat
  let erased ← onScreenChecked (·.paint column row sprite)
  onProcessor do
    setRegister flagRegister erased
    next

def execute [Randomizer ρ] [Keyboard κ] : Instruction → Step ρ κ γ Unit
  | .sys addr => do throw (.fault (.machineCode addr (← get).processor.pc))
  | .clear => do
    onScreen fun screen => ((), screen.clear)
    onProcessor next
  | .ret => onProcessor Processor.ret
  | .jump addr => onProcessor (Processor.jump addr)
  | .call addr => onProcessor (Processor.call addr)
  | .skipEqual x kk => onProcessor do skipIf ((← register x) == kk)
  | .skipUnequal x kk => onProcessor do skipIf ((← register x) != kk)
  | .skipSame x y => onProcessor (Processor.skipComparing (· == ·) x y)
  | .load x kk => onProcessor do
    setRegister x kk
    next
  | .addByte x kk => onProcessor do
    setRegister x ((← register x) + kk)
    next
  | .copy x y => onProcessor (Processor.combine (fun _ b => b) x y)
  | .or x y => onProcessor (Processor.combine (· ||| ·) x y)
  | .and x y => onProcessor (Processor.combine (· &&& ·) x y)
  | .xor x y => onProcessor (Processor.combine (· ^^^ ·) x y)
  | .add x y => onProcessor (Processor.combineWithFlag (· + ·) (fun a b => a + b < a) x y)
  | .sub x y => onProcessor (Processor.combineWithFlag (· - ·) (fun a b => b ≤ a) x y)
  | .shiftRight x => onProcessor (Processor.changeWithFlag (· >>> 1) (· &&& 1 == 1) x)
  | .subFrom x y => onProcessor (Processor.combineWithFlag (fun a b => b - a) (fun a b => a ≤ b) x y)
  | .shiftLeft x => onProcessor (Processor.changeWithFlag (· <<< 1) (· >>> 7 &&& 1 == 1) x)
  | .skipDifferent x y => onProcessor (Processor.skipComparing (· != ·) x y)
  | .setIndex addr => onProcessor do
    Processor.setIndex (addr &&& 0x0FFF)
    next
  | .jumpOffset addr => onProcessor (Processor.jumpOffset addr)
  | .random x kk => do
    let _ ← onProcessor (register x)
    let byte ← nextByte
    onProcessor do
      setRegister x (byte &&& kk)
      next
  | .draw x y n => draw x y n
  | .skipKeyDown x => do
    let down ← isKeyDown (← onProcessor (register x))
    onProcessor (skipIf down)
  | .skipKeyUp x => do
    let down ← isKeyDown (← onProcessor (register x))
    onProcessor (skipIf !down)
  | .readDelay x => onProcessor do
    setRegister x (← get).delay
    next
  | .awaitKey x => do
    let key ← awaitPress
    onProcessor do
      setRegister x key
      next
  | .setDelay x => onProcessor do
    let value ← register x
    modify fun p => { p with delay := value }
    next
  | .setSound x => onProcessor do
    let value ← register x
    modify fun p => { p with sound := value }
    next
  | .addIndex x => onProcessor (Processor.addIndex x)
  | .fontSprite x => onProcessor (Processor.fontSprite x)
  | .storeDecimal x => onProcessor (Processor.storeDecimal x)
  | .storeRegisters x => onProcessor (Processor.storeRegisters x)
  | .loadRegisters x => onProcessor (Processor.loadRegisters x)

end ChipEight.Machine
