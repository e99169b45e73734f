import ChipEight.Bytes
import ChipEight.Frame

/-! Frames as textures of three bytes per pixel, and copying them into a buffer whose rows may be
longer than the picture is wide. -/
namespace ChipEight.Texture

/-- Bytes of one pixel: red, green and blue. -/
def pixelBytes : Nat := 3

def rowBytes : Nat := displayWidth * pixelBytes

def brightness (pixel : UInt8) : Except Halt UInt8 := fitByte (pixel.toNat * 255 : Nat)

/-- The brightness of every pixel, once for each colour. -/
def ofFrame (frame : Frame) : Except Halt (List UInt8) := do
  let shades ← frame.toList.mapM brightness
  return shades.flatMap (List.replicate pixelBytes)

def copyRow (buffer : Array UInt8) (start : Nat) (row : List UInt8) : Except Halt (Array UInt8) :=
  if start + row.length ≤ buffer.size then .ok (overwrite buffer start row)
  else .error (.defect (.noSuchByte (start + row.length)))

def rowsOf : (count : Nat) → List UInt8 → List (List UInt8)
  | 0, _ => []
  | count + 1, bytes => bytes.take rowBytes :: rowsOf count (bytes.drop rowBytes)

/-- Puts rows at the start of the buffer's rows, from row number `y` on. -/
def copyRowsFrom (buffer : Array UInt8) (pitch y : Nat) : List (List UInt8) → Except Halt (Array UInt8)
  | [] => .ok buffer
  | row :: rest => do
    let buffer ← copyRow buffer (y * pitch) row
    copyRowsFrom buffer pitch (y + 1) rest

/-- Copies a texture row by row; `pitch` is the distance between two rows of the buffer. -/
def copyRows (buffer : Array UInt8) (pitch : Nat) (bytes : List UInt8) : Except Halt (Array UInt8) :=
  copyRowsFrom buffer pitch 0 (rowsOf displayHeight bytes)

/-- Whether the buffer shows white at a pixel. -/
def isWhite (buffer : Array UInt8) (pitch : Nat) (cell : Cell) : Bool :=
  let start := cell.val / displayWidth * pitch + cell.val % displayWidth * pixelBytes
  (List.range pixelBytes).all fun colour => buffer[start + colour]? == some 255

/-- The frame that a buffer shows, white being lit. -/
def toFrame (buffer : Array UInt8) (pitch : Nat) : Frame :=
  Vector.ofFn fun cell => if isWhite buffer pitch cell then 1 else 0

end ChipEight.Texture
