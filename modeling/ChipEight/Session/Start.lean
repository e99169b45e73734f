import ChipEight.Peripheral.Standalone
import ChipEight.Session.Basic

/-! Starting a session: the program is read and loaded, then the host is set up call by call. The first
failure ends the start, and nothing is done after it. -/
namespace ChipEight.Session

/-- What a start works on. -/
structure Desk where
  host : Host := {}
  log : List LogLine := []

abbrev Starting := EStateM Failure Desk

def onHost {α : Type} (calls : Host.Step α) : Starting α := fun desk =>
  match calls desk.host with
  | .ok a host => .ok a { desk with host }
  | .error e host => .error e { desk with host }

def note (line : LogLine) : Starting Unit := modify fun desk => { desk with log := desk.log ++ [line] }

variable {ρ γ ε τ : Type}

/-- Puts the program into a machine; `content` is what reading the file at `path` came to. -/
def loadProgram [Clock γ τ] (path : String) (content : Except String (List UInt8))
    (machine : Machine ρ KeypadView γ) : Starting (Machine ρ KeypadView γ) :=
  match content with
  | .error cause => throw (.unreadableRom path cause)
  | .ok rom =>
    match Machine.load rom machine with
    | .ok _ machine => do
      note ⟨.info, s!"loaded {path} ({rom.length} bytes)"⟩
      return machine
    | .error (.fault cause) _ => throw (.unloadableRom path cause)
    | .error (.defect cause) _ => throw (.defect cause)

/-- Sets up the host, with `scale` by `scale` screen pixels for each pixel. -/
def openHost (scale : UInt32) : Host.Step Unit := do
  Host.call .init
  Host.openDisplay scale
  Host.call .events

def start [Clock γ τ] (path : String) (content : Except String (List UInt8)) (scale : UInt32)
    (machine : Machine ρ KeypadView γ) (events : ε) : Starting (Session ρ γ ε) := do
  let machine ← loadProgram path content machine
  onHost (openHost scale)
  let desk ← get
  return { worker := { machine }, shared := { log := desk.log }, host := desk.host, events }

structure Report where
  outcome : Except Failure Unit
  host : Host
  log : List LogLine

/-- Starts a session and runs it to its end. A session that has not ended after `limit` rounds is
reported as it is by then. -/
def report [Randomizer ρ] [LE τ] [Timescale τ] [Clock γ τ] [EventSource ε] (path : String)
    (content : Except String (List UInt8)) (scale : UInt32) (host : Host)
    (machine : Machine ρ KeypadView γ) (events : ε) (limit : Nat) : Report :=
  match start path content scale machine events { host } with
  | .error failure desk => { outcome := .error failure, host := desk.host, log := desk.log }
  | .ok session _ =>
    let session := session.runFair limit
    { outcome := session.outcome?.getD (.ok ()), host := session.host, log := session.shared.log }

/-- A machine with peripherals of its own. -/
def newMachine (seed : UInt64) : Machine SeededBytes KeypadView CycleClock where
  randomizer := { state := seed }
  keyboard := {}
  clock := {}

end ChipEight.Session
