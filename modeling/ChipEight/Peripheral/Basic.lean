/-! What a machine is connected to: a source of random bytes, a keyboard and a clock. Every answer may
change the peripheral that gives it. -/
namespace ChipEight

class Randomizer (ρ : Type) where
  nextByte : ρ → UInt8 × ρ

class Keyboard (κ : Type) where
  isDown : κ → UInt8 → Bool × κ
  /-- The next key press, or nothing once no more will come. -/
  awaitPress : κ → Option UInt8 × κ
  /-- Whether a press that ends a wait gets a log line. -/
  announces : κ → Bool

/-- Times with a period, the time between two ticks of the timers. -/
class Timescale (τ : Type) [LE τ] where
  period : τ
  decidableLE : DecidableLE τ

attribute [reducible, instance] Timescale.decidableLE

class Clock (γ : Type) (τ : outParam Type) where
  /-- The time since the last reset. -/
  elapsed : γ → τ × γ
  reset : γ → γ

/-- Seconds as exact numbers, with sixty ticks each. -/
instance : Timescale Rat where
  period := mkRat 1 60
  decidableLE := Rat.instDecidableLe

/-- Seconds in floating point, with the number next to a sixtieth as the period. -/
instance : Timescale Float where
  period := 1.0 / 60.0
  decidableLE := Float.decLe

end ChipEight
