import ChipEight.Instruction.Pattern
import ChipEight.Machine.Execute
import ChipEight.Rom

/-! Loading a program, and running it cycle by cycle: fetch, execute, tick the timers. -/
namespace ChipEight.Machine

variable {ρ κ γ τ : Type}

/-- Resets everything but the peripherals and puts `rom` into memory. The clock starts again. -/
def load [Clock γ τ] (rom : List UInt8) : Step ρ κ γ Unit := do
  if Memory.maxProgramSize < rom.length then
    throw (.fault (.romTooLarge rom.length Memory.maxProgramSize))
  onProcessor do
    set Processor.initial
    Processor.write Memory.programStart.toNat rom
  onScreen fun screen => ((), screen.clear)
  modify fun m => { m with clock := Clock.reset m.clock }

/-- Loads what a source delivers; nothing is loaded if it fails. -/
def loadFrom [Clock γ τ] (source : List Rom.Delivery) : Step ρ κ γ Unit := do
  load (← checked (Rom.readAll source))

/-- The word at the program counter, and its instruction. -/
def fetch : Step ρ κ γ (UInt16 × Instruction) := do
  let p := (← get).processor
  let word ← checked (p.memory.word p.pc)
  match Instruction.decode word with
  | some i => return (word, i)
  | none => throw (.fault (.unrecognised word p.pc))

/-- Counts the timers down if more than a period has passed, and starts the clock again. Returns
whether it did. -/
def tickTimers [LE τ] [Timescale τ] [Clock γ τ] : Step ρ κ γ Bool := do
  let elapsed : τ ← modifyGet fun m =>
    let (elapsed, clock) := Clock.elapsed m.clock
    (elapsed, { m with clock })
  if elapsed ≤ Timescale.period then return false
  else
    modify fun m => { m with clock := Clock.reset m.clock }
    onProcessor Processor.tick
    return true

/-- One cycle. The timers only tick after an instruction that succeeds. -/
def cycle [Randomizer ρ] [Keyboard κ] [LE τ] [Timescale τ] [Clock γ τ] : Step ρ κ γ Unit := do
  let (_, i) ← fetch
  execute i
  let _ ← tickTimers

end ChipEight.Machine
