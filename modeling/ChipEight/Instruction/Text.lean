import ChipEight.Instruction.Basic

/-! Instructions as log lines show them: a name, and the operands in braces. -/
namespace ChipEight.Instruction

def name : Instruction → String
  | .sys _ => "Sys"
  | .clear => "Cls"
  | .ret => "Ret"
  | .jump _ => "Jp"
  | .call _ => "Call"
  | .skipEqual .. => "SeByte"
  | .skipUnequal .. => "SneByte"
  | .skipSame .. => "SeReg"
  | .load .. => "LdByte"
  | .addByte .. => "AddByte"
  | .copy .. => "LdReg"
  | .or .. => "Or"
  | .and .. => "And"
  | .xor .. => "Xor"
  | .add .. => "AddReg"
  | .sub .. => "Sub"
  | .shiftRight _ => "Shr"
  | .subFrom .. => "Subn"
  | .shiftLeft _ => "Shl"
  | .skipDifferent .. => "SneReg"
  | .setIndex _ => "LdI"
  | .jumpOffset _ => "JpV0"
  | .random .. => "Rnd"
  | .draw .. => "Drw"
  | .skipKeyDown _ => "Skp"
  | .skipKeyUp _ => "Sknp"
  | .readDelay _ => "LdFromDelay"
  | .awaitKey _ => "LdKey"
  | .setDelay _ => "LdDelay"
  | .setSound _ => "LdSound"
  | .addIndex _ => "AddI"
  | .fontSprite _ => "LdFont"
  | .storeDecimal _ => "LdBcd"
  | .storeRegisters _ => "StoreRegisters"
  | .loadRegisters _ => "LoadRegisters"

/-- The operands with their labels, in the order they are shown. -/
def operands : Instruction → List (String × Nat)
  | .clear | .ret => []
  | .sys addr | .jump addr | .call addr | .setIndex addr | .jumpOffset addr => [("addr", addr.toNat)]
  | .skipEqual x kk | .skipUnequal x kk | .load x kk | .addByte x kk | .random x kk =>
    [("x", x), ("kk", kk.toNat)]
  | .skipSame x y | .copy x y | .or x y | .and x y | .xor x y | .add x y | .sub x y | .subFrom x y
  | .skipDifferent x y => [("x", x), ("y", y)]
  | .draw x y n => [("x", x), ("y", y), ("n", n.toNat)]
  | .shiftRight x | .shiftLeft x | .skipKeyDown x | .skipKeyUp x | .readDelay x | .awaitKey x
  | .setDelay x | .setSound x | .addIndex x | .fontSprite x | .storeDecimal x | .storeRegisters x
  | .loadRegisters x => [("x", x)]

/-- For instance `AddReg { x: 1, y: 2 }`, or the name alone without operands. -/
def text (i : Instruction) : String :=
  match i.operands with
  | [] => i.name
  | operands =>
    let shown := operands.map fun (label, value) => label ++ ": " ++ toString value
    i.name ++ " \x7b " ++ ", ".intercalate shown ++ " \x7d"

end ChipEight.Instruction
