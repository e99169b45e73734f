/-! The keys of the host's keyboard, by key code. Printable keys have the code of their character in
lower case; the others are counted by their place on the keyboard. -/
namespace ChipEight.HostKey

def escape : Nat := 27

/-- The host's key for each keypad key, from 0 to F: the four leftmost columns of the keyboard. -/
def layout : List Nat :=
  ['x', '1', '2', '3', 'q', 'w', 'e', 'a', 's', 'd', 'z', 'c', '4', 'r', 'f', 'v'].map Char.toNat

@[simp] theorem length_layout : layout.length = 16 := rfl

/-- The keypad key that a key code stands for. -/
def keypadKey? (code : Nat) : Option UInt8 := (layout.findIdx? (· == code)).map Nat.toUInt8

/-- Names of the keys that are neither letters nor digits. -/
def names : List (Nat × String) := [
  (8, "Backspace"), (9, "Tab"), (13, "Return"), (27, "Escape"), (32, "Space"), (33, "Exclaim"),
  (34, "Quotedbl"), (35, "Hash"), (36, "Dollar"), (37, "Percent"), (38, "Ampersand"), (39, "Quote"),
  (40, "LeftParen"), (41, "RightParen"), (42, "Asterisk"), (43, "Plus"), (44, "Comma"), (45, "Minus"),
  (46, "Period"), (47, "Slash"), (58, "Colon"), (59, "Semicolon"), (60, "Less"), (61, "Equals"),
  (62, "Greater"), (63, "Question"), (64, "At"), (91, "LeftBracket"), (92, "Backslash"),
  (93, "RightBracket"), (94, "Caret"), (95, "Underscore"), (96, "Backquote"), (127, "Delete")]

/-- Names of the keys counted by their place. -/
def placeNames : List (Nat × String) := [
  (57, "CapsLock"), (70, "PrintScreen"), (71, "ScrollLock"), (72, "Pause"), (73, "Insert"), (74, "Home"),
  (75, "PageUp"), (77, "End"), (78, "PageDown"), (79, "Right"), (80, "Left"), (81, "Down"), (82, "Up"),
  (83, "NumLockClear"), (84, "KpDivide"), (85, "KpMultiply"), (86, "KpMinus"), (87, "KpPlus"),
  (88, "KpEnter"), (98, "Kp0"), (99, "KpPeriod"), (101, "Application"), (102, "Power"),
  (103, "KpEquals"), (117, "Help"), (118, "Menu"), (119, "Select"), (120, "Stop"), (121, "Again"),
  (122, "Undo"), (123, "Cut"), (124, "Copy"), (125, "Paste"), (126, "Find"), (127, "Mute"),
  (128, "VolumeUp"), (129, "VolumeDown"), (224, "LCtrl"), (225, "LShift"), (226, "LAlt"), (227, "LGui"),
  (228, "RCtrl"), (229, "RShift"), (230, "RAlt"), (231, "RGui")]

/-- Added to the place of a key that has no character. -/
def placeBase : Nat := 0x40000000

/-- The name of a key counted by its place. Function keys come in two rows of twelve. -/
def placeName (place : Nat) : String :=
  if 58 ≤ place ∧ place ≤ 69 then "F" ++ toString (place - 57)
  else if 104 ≤ place ∧ place ≤ 115 then "F" ++ toString (place - 91)
  else if 89 ≤ place ∧ place ≤ 97 then "Kp" ++ toString (place - 88)
  else (placeNames.lookup place).getD ("Key" ++ toString place)

/-- The name of a key, as log lines show it. -/
def name (code : Nat) : String :=
  if placeBase ≤ code then placeName (code - placeBase)
  else if 48 ≤ code ∧ code ≤ 57 then "Num" ++ toString (code - 48)
  else if 97 ≤ code ∧ code ≤ 122 then String.singleton (Char.ofNat (code - 32))
  else (names.lookup code).getD ("Key" ++ toString code)

example : keypadKey? 'v'.toNat = some 15 := by decide
example : keypadKey? escape = none := by decide

end ChipEight.HostKey
