import ChipEight.Keypad
import ChipEight.Peripheral.Basic

/-! Peripherals whose answers are laid down beforehand. -/
namespace ChipEight

/-- The same bytes over and over, or zeros if there are none. -/
structure ByteCycle where
  bytes : Array UInt8 := #[]
  drawn : Nat := 0

instance : Randomizer ByteCycle where
  nextByte r := (r.bytes.getD (r.drawn % r.bytes.size) 0, { r with drawn := r.drawn + 1 })

/-- Keys that are held, and the presses still to come. -/
structure KeyQueue where
  held : List UInt8 := []
  presses : List UInt8 := []

instance : Keyboard KeyQueue where
  isDown k key := (k.held.contains key, k)
  awaitPress k :=
    match k.presses with
    | [] => (none, k)
    | key :: presses => (some key, { k with presses })
  announces _ := false

/-- A keypad on which the events of a script happen during each wait. -/
structure PlayedKeypad where
  pad : Keypad := {}
  script : List KeypadEvent := []

instance : Keyboard PlayedKeypad where
  isDown k key := (k.pad.isDown key, k)
  awaitPress k :=
    match k.pad.waitDuring k.pad.presses k.script with
    | (.key pressed, pad) => (some pressed, { k with pad })
    | (_, pad) => (none, { k with pad })
  announces _ := true

/-- A clock moved by hand, which counts its resets. -/
structure Stopwatch where
  elapsed : Float := 0
  resets : Nat := 0

instance : Clock Stopwatch Float where
  elapsed c := (c.elapsed, c)
  reset c := { elapsed := 0, resets := c.resets + 1 }

def Stopwatch.advance (c : Stopwatch) (numerator denominator : Int) : Stopwatch :=
  { c with elapsed := c.elapsed + Float.ofInt numerator / Float.ofInt denominator }

end ChipEight
