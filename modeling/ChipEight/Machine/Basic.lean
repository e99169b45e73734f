import ChipEight.Peripheral.Basic
import ChipEight.Processor
import ChipEight.Screen

/-! A machine: processor and screen, connected to peripherals. -/
namespace ChipEight

structure Machine (ρ κ γ : Type) where
  processor : Processor := Processor.initial
  screen : Screen := {}
  randomizer : ρ
  keyboard : κ
  clock : γ

namespace Machine

/-- A step of the machine that may fail; the state it has reached by then stays. -/
abbrev Step (ρ κ γ : Type) := EStateM Halt (Machine ρ κ γ)

variable {ρ κ γ : Type}

/-- A step of the processor alone. -/
def onProcessor {α : Type} (step : Processor.Step α) : Step ρ κ γ α := fun m =>
  match step m.processor with
  | .ok a processor => .ok a { m with processor }
  | .error e processor => .error e { m with processor }

@[simp] theorem onProcessor_pure {α : Type} (a : α) :
    (onProcessor (pure a) : Step ρ κ γ α) = pure a := rfl

theorem onProcessor_bind {α β : Type} (step : Processor.Step α) (rest : α → Processor.Step β) :
    (onProcessor (step >>= rest) : Step ρ κ γ β) =
      onProcessor step >>= fun a => onProcessor (rest a) := by
  funext m
  simp only [onProcessor, bind, EStateM.bind]
  cases step m.processor <;> rfl

/-- A change of the screen alone. -/
def onScreen {α : Type} (change : Screen → α × Screen) : Step ρ κ γ α :=
  modifyGet fun m =>
    let (a, screen) := change m.screen
    (a, { m with screen })

/-- A change of the screen alone that makes checks on the way. -/
def onScreenChecked {α : Type} (change : Screen → Except Halt (α × Screen)) : Step ρ κ γ α :=
  fun m =>
    match change m.screen with
    | .ok (a, screen) => .ok a { m with screen }
    | .error e => .error e m

def nextByte [Randomizer ρ] : Step ρ κ γ UInt8 :=
  modifyGet fun m =>
    let (byte, randomizer) := Randomizer.nextByte m.randomizer
    (byte, { m with randomizer })

def isKeyDown [Keyboard κ] (key : UInt8) : Step ρ κ γ Bool :=
  modifyGet fun m =>
    let (down, keyboard) := Keyboard.isDown m.keyboard key
    (down, { m with keyboard })

def awaitPress [Keyboard κ] : Step ρ κ γ UInt8 := do
  let pressed : Option UInt8 ← modifyGet fun m =>
    let (pressed, keyboard) := Keyboard.awaitPress m.keyboard
    (pressed, { m with keyboard })
  match pressed with
  | some key => return key
  | none => throw (.fault .inputClosed)

/-- The picture, if it changed since the last one was taken. -/
def takeFrame (m : Machine ρ κ γ) : Option Frame × Machine ρ κ γ :=
  let (frame, screen) := m.screen.takeFrame
  (frame, { m with screen })

/-- A picture that has not changed is not taken. -/
theorem takeFrame_of_clean {m : Machine ρ κ γ} (h : m.screen.dirty = false) : m.takeFrame = (none, m) := by
  rw [takeFrame, Screen.takeFrame, h]
  rfl

@[simp] theorem takeFrame_takeFrame (m : Machine ρ κ γ) : m.takeFrame.2.takeFrame.2 = m.takeFrame.2 := by
  have hclean : m.takeFrame.2.screen.dirty = false := m.screen.takeFrame_dirty
  rw [takeFrame_of_clean hclean]

end Machine

end ChipEight
