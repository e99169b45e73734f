import ChipEight.Host.Display
import ChipEight.Host.Event
import ChipEight.Host.Key
import ChipEight.Session.Worker

/-! A session: a worker, and a loop that hands events to the keypad and shows the newest frame. Worker
and loop take turns in any order. -/
namespace ChipEight

inductive LoopPhase
  /-- About to ask the host for events. -/
  | polling
  | handling (batch : List HostEvent)
  /-- About to show the newest frame. -/
  | presenting
  /-- About to ask whether the worker has ended. -/
  | asking
  | stopping
  | closing
  /-- The keypad is closed, and those who sleep are about to be woken. -/
  | waking
  | joining
  | ended (outcome : Except Failure Unit)

structure Session (ρ γ ε : Type) where
  worker : Worker ρ γ
  shared : Shared := {}
  host : Host
  events : ε
  phase : LoopPhase := .polling

/-- What an event asks the loop to do. -/
inductive Reaction
  | quit
  | keypad (event : KeypadEvent)
  /-- Note that a key has no place on the keypad. -/
  | unmapped (code : Nat)
  | nothing
  deriving DecidableEq, Repr

/-- Only keys that go down are noted as unmapped, and events without a key code are ignored. -/
def HostEvent.reaction : HostEvent → Reaction
  | .quit => .quit
  | .keyDown (some code) =>
    if code = HostKey.escape then .quit
    else
      match HostKey.keypadKey? code with
      | some key => .keypad (.press key)
      | none => .unmapped code
  | .keyUp (some code) =>
    match HostKey.keypadKey? code with
    | some key => .keypad (.release key)
    | none => .nothing
  | .keyDown none | .keyUp none | .other => .nothing

/-- What the end of the worker means for the session. -/
def WorkerEnd.outcome : WorkerEnd → Except Failure Unit
  | .finished => .ok ()
  | .failed cause => .error (.emulation cause)
  | .crashed cause => .error (.crashed cause)

namespace Session

variable {ρ γ ε τ : Type}

def outcome? (s : Session ρ γ ε) : Option (Except Failure Unit) :=
  match s.phase with
  | .ended outcome => some outcome
  | _ => none

/-- Deals with one event; `rest` are the events after it. -/
def handle (s : Session ρ γ ε) (event : HostEvent) (rest : List HostEvent) : Session ρ γ ε :=
  match event.reaction with
  | .quit => { s with phase := .stopping }
  | .keypad event => { s with shared := s.shared.play event, phase := .handling rest }
  | .unmapped code =>
    let line := ⟨.warn, "no keypad mapping for " ++ HostKey.name code⟩
    { s with shared := s.shared.note line, phase := .handling rest }
  | .nothing => { s with phase := .handling rest }

/-- Shows the newest frame, if there is a new one. A refusal of the host ends the session at once. -/
def present (s : Session ρ γ ε) : Session ρ γ ε :=
  let (newest, frames) := s.shared.frames.takeLatest
  let s := { s with shared := { s.shared with frames } }
  match newest with
  | none => { s with phase := .asking }
  | some frame =>
    match Host.render frame s.host with
    | .ok _ host => { s with host, phase := .asking }
    | .error failure host =>
      { s with
        host
        shared := { s.shared with frames := s.shared.frames.hangUp }
        phase := .ended (.error failure) }

def loopStep [EventSource ε] (s : Session ρ γ ε) : Session ρ γ ε :=
  match s.phase with
  | .polling =>
    let (batch, events) := EventSource.poll s.events s.host.picture
    { s with events, phase := .handling batch }
  | .handling [] => { s with phase := .presenting }
  | .handling (event :: rest) => s.handle event rest
  | .presenting => s.present
  | .asking => { s with phase := if s.worker.hasEnded then .stopping else .polling }
  | .stopping => { s with shared := { s.shared with running := false }, phase := .closing }
  | .closing => { s with shared := s.shared.play .close, phase := .waking }
  | .waking => { s with shared := s.shared.wakeAll, phase := .joining }
  | .joining =>
    match s.worker.phase with
    | .ended how => { s with phase := .ended how.outcome }
    | _ => s
  | .ended _ => s

variable [Randomizer ρ] [LE τ] [Timescale τ] [Clock γ τ]

def workerStep (s : Session ρ γ ε) : Session ρ γ ε :=
  let stride := s.worker.step s.shared
  { s with worker := stride.worker, shared := stride.shared }

inductive Turn
  | worker
  | loop
  /-- Those who sleep are woken, as may happen for no reason. -/
  | wake
  deriving DecidableEq, Repr

def step [EventSource ε] (s : Session ρ γ ε) : Turn → Session ρ γ ε
  | .worker => s.workerStep
  | .loop => s.loopStep
  | .wake => { s with shared := s.shared.wakeAll }

def run [EventSource ε] (s : Session ρ γ ε) (turns : List Turn) : Session ρ γ ε := turns.foldl step s

/-- One turn of the loop and a few of the worker. Their number changes from round to round, so that the
loop does not always meet the worker at the same place of its program. -/
def round (number : Nat) : List Turn := .loop :: List.replicate (6 + number % 7) .worker

/-- Runs the session round by round until it ends, but at most `limit` rounds. -/
def runFair [EventSource ε] (s : Session ρ γ ε) : (limit : Nat) → Session ρ γ ε
  | 0 => s
  | limit + 1 => if s.outcome?.isSome then s else (s.run (round limit)).runFair limit

end Session

end ChipEight
