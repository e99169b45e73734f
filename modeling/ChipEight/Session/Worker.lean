import ChipEight.Keypad
import ChipEight.Log
import ChipEight.Machine.Cycle
import ChipEight.Session.Channel

/-! The worker of a session, which runs the machine and sends the frames that are to be shown. A step of
the worker is as much as it does without being interrupted: in particular, a cycle that waits for a key
counts the presses, looks at the keypad and falls asleep in one. -/
namespace ChipEight

/-- How often an event wakes those who sleep, before the keypad is unlocked again. Closing does not: they are
woken afterwards. -/
def KeypadEvent.wakes : KeypadEvent → Nat
  | .press key => if key.toNat < keyCount then 1 else 0
  | .release _ | .close => 0

/-- What the worker and the rest of the session both have in hand. -/
structure Shared where
  keypad : Keypad := {}
  /-- How often those who sleep until a key is pressed have been woken. -/
  wakes : Nat := 0
  /-- Cleared to stop the worker. -/
  running : Bool := true
  frames : Channel Frame := {}
  log : List LogLine := []
  /-- What has been called on the keypad from outside the worker, in order. -/
  calls : List KeypadEvent := []

namespace Shared

def wakeAll (shared : Shared) : Shared := { shared with wakes := shared.wakes + 1 }

/-- What is done about an event while the keypad is locked. -/
def play (shared : Shared) (event : KeypadEvent) : Shared :=
  { shared with
    keypad := shared.keypad.play event
    wakes := shared.wakes + event.wakes
    calls := shared.calls ++ [event] }

/-- All that is done about an event. -/
def perform (shared : Shared) : KeypadEvent → Shared
  | .close => (shared.play .close).wakeAll
  | event => shared.play event

def note (shared : Shared) (line : LogLine) : Shared := { shared with log := shared.log ++ [line] }

end Shared

/-- The keypad as the machine sees it for the length of one cycle; `pressed` answers its wait. -/
structure KeypadView where
  keypad : Keypad := {}
  pressed : Option UInt8 := none

instance : Keyboard KeypadView where
  isDown view key := (view.keypad.isDown key, view)
  awaitPress view := (view.pressed, view)
  announces _ := true

inductive WorkerEnd
  | finished
  | failed (cause : Fault)
  | crashed (cause : Defect)
  deriving DecidableEq, Repr

inductive WorkerPhase
  /-- About to look whether it is to go on. -/
  | testing
  | cycling
  /-- In a cycle that waits for a key press, since there were `seen` presses. It has slept since those who
  sleep had been woken `since` times. -/
  | waiting (seen since : Nat)
  /-- About to send the frame of a cycle. -/
  | sending
  | ended (how : WorkerEnd)
  deriving DecidableEq, Repr

structure Worker (ρ γ : Type) where
  machine : Machine ρ KeypadView γ
  phase : WorkerPhase := .testing

/-- What a step of a worker is remembered for. -/
inductive Deed (ρ γ : Type)
  /-- A look at the flag. -/
  | tested (running : Bool)
  /-- A cycle that met this machine. -/
  | cycled (m : Machine ρ KeypadView γ)
  /-- A frame that nobody was there to receive. -/
  | unsent (frame : Frame)

/-- What a step comes to. -/
structure Stride (ρ γ : Type) where
  worker : Worker ρ γ
  shared : Shared
  deed? : Option (Deed ρ γ) := none

namespace Worker

variable {ρ γ τ : Type}

def hasEnded (w : Worker ρ γ) : Bool :=
  match w.phase with
  | .ended _ => true
  | _ => false

/-- Whether the next cycle waits for a key press. -/
def awaitsKey (w : Worker ρ γ) : Bool :=
  match (Machine.fetch : Machine.Step ρ KeypadView γ _) w.machine with
  | .ok (_, .awaitKey _) _ => true
  | _ => false

/-- Whether it sleeps, and has not been woken yet. -/
def isBlocked (w : Worker ρ γ) (shared : Shared) : Bool :=
  match w.phase with
  | .waiting _ since => shared.wakes == since
  | _ => false

/-- Sends the frame of the last cycle, if it changed the picture. -/
def sendFrame (w : Worker ρ γ) (shared : Shared) : Stride ρ γ :=
  match w.machine.takeFrame with
  | (none, machine) => { worker := { machine, phase := .testing }, shared }
  | (some frame, machine) =>
    match shared.frames.send? frame with
    | some frames => { worker := { machine, phase := .testing }, shared := { shared with frames } }
    | none => { worker := { machine, phase := .ended .finished }, shared, deed? := some (.unsent frame) }

variable [Randomizer ρ] [LE τ] [Timescale τ] [Clock γ τ]

/-- Runs a cycle to its end. Closed input is a proper end of the work; any other fault is logged. -/
def runCycle (w : Worker ρ γ) (view : KeypadView) (shared : Shared) : Stride ρ γ :=
  let met := { w.machine with keyboard := view }
  let deed? := some (.cycled met)
  match Machine.cycle met with
  | .ok _ machine => { worker := { machine, phase := .sending }, shared, deed? }
  | .error (.fault .inputClosed) machine =>
    { worker := { machine, phase := .ended .finished }, shared, deed? }
  | .error (.fault cause) machine =>
    { worker := { machine, phase := .ended (.failed cause) }
      shared := shared.note ⟨.error, cause.message⟩
      deed? }
  | .error (.defect cause) machine =>
    { worker := { machine, phase := .ended (.crashed cause) }, shared, deed? }

/-- The look of a cycle that waits for a key press, since there were `seen` presses. If there is nothing
to be found it falls asleep, and it runs to its end otherwise. -/
def look (w : Worker ρ γ) (seen : Nat) (shared : Shared) : Stride ρ γ :=
  match shared.keypad.look seen with
  | .waiting => { worker := { w with phase := .waiting seen shared.wakes }, shared }
  | .closed => w.runCycle { keypad := shared.keypad } shared
  | .key pressed => w.runCycle { keypad := shared.keypad, pressed := some pressed } shared

/-- One step. A worker that sleeps, or has ended, stays as it is. -/
def step (w : Worker ρ γ) (shared : Shared) : Stride ρ γ :=
  match w.phase with
  | .testing =>
    { worker := { w with phase := if shared.running then .cycling else .ended .finished }
      shared
      deed? := some (.tested shared.running) }
  | .cycling =>
    if w.awaitsKey then w.look shared.keypad.presses shared
    else w.runCycle { keypad := shared.keypad } shared
  | .waiting seen _ => if w.isBlocked shared then { worker := w, shared } else w.look seen shared
  | .sending => w.sendFrame shared
  | .ended _ => { worker := w, shared }

def steps (w : Worker ρ γ) (shared : Shared) : Nat → Worker ρ γ × Shared
  | 0 => (w, shared)
  | n + 1 =>
    let stride := w.step shared
    stride.worker.steps stride.shared n

/-- Runs the worker until it ends, but at most `limit` turns, while the events in `due` and then those in
`events`, over and over, happen on the keypad: one whenever the worker is blocked, and one every 64
turns. -/
def runDuring (w : Worker ρ γ) (shared : Shared) (events due : List KeypadEvent) :
    (limit : Nat) → Worker ρ γ × Shared
  | 0 => (w, shared)
  | limit + 1 =>
    if w.hasEnded then (w, shared)
    else
      match due with
      | event :: due =>
        if w.isBlocked shared || limit % 64 == 0 then
          w.runDuring (shared.perform event) events due limit
        else
          let stride := w.step shared
          stride.worker.runDuring stride.shared events (event :: due) limit
      | [] =>
        let stride := w.step shared
        stride.worker.runDuring stride.shared events events limit

end Worker

end ChipEight
