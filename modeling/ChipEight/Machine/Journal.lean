import ChipEight.Instruction.Text
import ChipEight.Log
import ChipEight.Machine.Cycle

/-! What a machine logs while it works, told from its state beforehand. -/
namespace ChipEight.Machine

variable {ρ κ γ τ : Type}

/-- An instruction that is about to be carried out, with the registers it meets. -/
def instructionLine (p : Processor) (word : UInt16) (i : Instruction) : LogLine where
  level := .trace
  text :=
    let registers := hexList 2 (p.v.toList.map UInt8.toNat)
    s!"{hex 3 p.pc.toNat}: {hex 4 word.toNat} {i.text} v{registers} i{hex 3 p.i.toNat}"

def tickLine (p : Processor) : LogLine where
  level := .trace
  text := s!"timers ticked dt{hex 2 p.delay.toNat} st{hex 2 p.sound.toNat}"

def pressLine (key : UInt8) : LogLine where
  level := .debug
  text := s!"key {hex 1 key.toNat} pressed while waiting"

def loadLine (size : Nat) : LogLine where
  level := .debug
  text := s!"loaded {size} byte ROM at 0x{hex 3 Memory.programStart.toNat}"

def loadLog [Clock γ τ] (rom : List UInt8) (m : Machine ρ κ γ) : List LogLine :=
  match load rom m with
  | .ok .. => [loadLine rom.length]
  | .error .. => []

def loadFromLog [Clock γ τ] (source : List Rom.Delivery) (m : Machine ρ κ γ) : List LogLine :=
  match Rom.readAll source with
  | .ok rom => loadLog rom m
  | .error _ => []

/-- The lines of `execute i`: only waiting for a key is logged. -/
def executeLog [Keyboard κ] (i : Instruction) (m : Machine ρ κ γ) : List LogLine :=
  match i with
  | .awaitKey _ =>
    match awaitPress m with
    | .ok key _ => if Keyboard.announces m.keyboard then [pressLine key] else []
    | .error .. => []
  | _ => []

def cycleLog [Randomizer ρ] [Keyboard κ] [LE τ] [Timescale τ] [Clock γ τ] (m : Machine ρ κ γ) :
    List LogLine :=
  match fetch m with
  | .error .. => []
  | .ok (word, i) m =>
    let ticked :=
      match execute i m with
      | .error .. => []
      | .ok _ m =>
        match tickTimers m with
        | .ok true m => [tickLine m.processor]
        | _ => []
    instructionLine m.processor word i :: executeLog i m ++ ticked

end ChipEight.Machine
