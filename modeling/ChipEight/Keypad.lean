/-! The keypad of sixteen keys. A wait for a key press remembers how many presses there were when it
began; it ends once there are more, or when the keypad is closed. -/
namespace ChipEight

def keyCount : Nat := 16

structure Keypad where
  down : Vector Bool keyCount := Vector.replicate keyCount false
  presses : Nat := 0
  lastPressed : UInt8 := 0
  closed : Bool := false
  deriving DecidableEq

inductive KeypadEvent
  | press (key : UInt8)
  | release (key : UInt8)
  | close
  deriving DecidableEq, Repr

namespace Keypad

/-- Keys from 16 on do not exist and are ignored. -/
def press (pad : Keypad) (key : UInt8) : Keypad :=
  if h : key.toNat < keyCount then
    { pad with down := pad.down.set key.toNat true h, presses := pad.presses + 1, lastPressed := key }
  else pad

def release (pad : Keypad) (key : UInt8) : Keypad :=
  if h : key.toNat < keyCount then { pad with down := pad.down.set key.toNat false h } else pad

/-- No wait will be answered with a key from now on. -/
def close (pad : Keypad) : Keypad := { pad with closed := true }

def isDown (pad : Keypad) (key : UInt8) : Bool := pad.down[key.toNat]?.getD false

/-- A key that the keypad does not have is up. -/
theorem isDown_of_le (pad : Keypad) {key : UInt8} (h : keyCount ≤ key.toNat) : pad.isDown key = false := by
  rw [isDown, Vector.getElem?_eq_none h]
  rfl

theorem isDown_press (pad : Keypad) (key k : UInt8) :
    (pad.press key).isDown k = (pad.isDown k || (k == key && key.toNat < keyCount)) := by
  unfold press
  split
  · rename_i h
    by_cases hk : k = key
    · subst hk
      simp [isDown, h]
    · have : key.toNat ≠ k.toNat := fun e => hk (UInt8.toNat_inj.1 e.symm)
      simp [isDown, hk, this]
  · rename_i h
    simp [h]

theorem isDown_release (pad : Keypad) (key k : UInt8) :
    (pad.release key).isDown k = (pad.isDown k && k != key) := by
  unfold release
  by_cases hk : k = key
  · subst hk
    split
    · rename_i h
      simp [isDown, h]
    · rename_i h
      simp [isDown, h]
  · have : key.toNat ≠ k.toNat := fun e => hk (UInt8.toNat_inj.1 e.symm)
    split <;> simp [isDown, hk, this]

@[simp] theorem isDown_close (pad : Keypad) (k : UInt8) : pad.close.isDown k = pad.isDown k := rfl

/-- The keys that are down, in ascending order. -/
def keysDown (pad : Keypad) : List Nat := (List.range keyCount).filter fun key => pad.isDown key.toUInt8

def play (pad : Keypad) : KeypadEvent → Keypad
  | .press key => pad.press key
  | .release key => pad.release key
  | .close => pad.close

theorem closed_play {pad : Keypad} (event : KeypadEvent) (h : pad.closed = true) :
    (pad.play event).closed = true := by
  cases event with
  | press key =>
    show (pad.press key).closed = true
    unfold press
    split
    · exact h
    · exact h
  | release key =>
    show (pad.release key).closed = true
    unfold release
    split
    · exact h
    · exact h
  | close => rfl

def playAll (pad : Keypad) (events : List KeypadEvent) : Keypad := events.foldl play pad

inductive Look
  | waiting
  | closed
  | key (pressed : UInt8)
  deriving DecidableEq, Repr

/-- A look by a wait that began after `seen` presses. -/
def look (pad : Keypad) (seen : Nat) : Look :=
  if pad.closed then .closed
  else if pad.presses = seen then .waiting
  else .key pad.lastPressed

theorem closed_of_look {pad : Keypad} {seen : Nat} (h : pad.look seen = .closed) :
    pad.closed = true := by
  unfold look at h
  split at h
  · assumption
  · split at h <;> cases h

theorem look_of_closed {pad : Keypad} (h : pad.closed = true) (seen : Nat) : pad.look seen = .closed :=
  if_pos h

/-- A wait that began after `seen` presses and looks after every event. The events that come after its
end are played all the same. -/
def waitDuring (pad : Keypad) (seen : Nat) : List KeypadEvent → Look × Keypad
  | [] => (pad.look seen, pad)
  | event :: rest =>
    match pad.look seen with
    | .waiting => (pad.play event).waitDuring seen rest
    | ended => (ended, (pad.play event).playAll rest)

end Keypad

end ChipEight
