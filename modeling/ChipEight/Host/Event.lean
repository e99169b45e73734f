import ChipEight.Frame

/-! What the host reports, and scripts of such reports that may depend on the picture shown. -/
namespace ChipEight

/-- A key event carries the key's code, if the key has one. -/
inductive HostEvent
  | keyDown (code : Option Nat)
  | keyUp (code : Option Nat)
  | quit
  | other
  deriving DecidableEq, Repr

/-- Where events come from: each poll returns those that are due while a picture is shown. -/
class EventSource (ε : Type) where
  poll : ε → Frame → List HostEvent × ε

instance : EventSource (List (List HostEvent)) where
  poll batches _ :=
    match batches with
    | [] => ([], [])
    | batch :: rest => (batch, rest)

inductive ScriptItem
  | event (e : HostEvent)
  /-- Holds back what follows until the pixel in column `x` and row `y` has the value `lit`. -/
  | until (x y : Nat) (lit : Bool)
  /-- One press of a key in every poll, until the pixel in column `x` and row `y` is lit. -/
  | repeat (code x y : Nat)
  deriving DecidableEq, Repr

def Frame.isLit (frame : Frame) (x y : Nat) : Bool :=
  match frame.pixel x y with
  | .ok value => value != 0
  | .error _ => false

structure EventScript where
  items : List ScriptItem

namespace EventScript

/-- The events that are due, and what remains. -/
def due (shown : Frame) : List ScriptItem → List HostEvent × List ScriptItem
  | [] => ([], [])
  | .event e :: rest =>
    let (events, remaining) := due shown rest
    (e :: events, remaining)
  | .until x y lit :: rest =>
    if shown.isLit x y = lit then due shown rest else ([], .until x y lit :: rest)
  | .repeat code x y :: rest =>
    if shown.isLit x y then due shown rest
    else ([.keyDown (some code)], .repeat code x y :: rest)

end EventScript

instance : EventSource EventScript where
  poll script shown :=
    let (events, items) := EventScript.due shown script.items
    (events, { items })

end ChipEight
