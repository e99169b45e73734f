import ChipEight.Frame

/-! The picture that programs draw on, with a mark that it waits to be shown. -/
namespace ChipEight

structure Screen where
  pixels : Frame := Frame.blank
  /-- Set by clearing and drawing, until a frame is taken. -/
  dirty : Bool := false
  deriving DecidableEq

namespace Screen

def clear (_ : Screen) : Screen := { pixels := Frame.blank, dirty := true }

/-- Draws a sprite with its upper left corner at `(x, y)`. The first result is 1 if a lit pixel was
turned off on the way, and 0 otherwise. -/
def draw (screen : Screen) (x y : UInt8) (sprite : List UInt8) : UInt8 × Screen :=
  let (pixels, erased) := screen.pixels.plotAll 0 (spriteCells x y sprite)
  (erased, { pixels, dirty := true })

/-- Draws a sprite as `draw` does, with every number on the way checked. -/
def paint (screen : Screen) (x y : UInt8) (sprite : List UInt8) : Except Halt (UInt8 × Screen) := do
  let (pixels, erased) ← screen.pixels.paintAll 0 x y (spriteBits sprite)
  return (erased, { pixels, dirty := true })

/-- Drawing leaves no range that it checks, however the sprite lies. -/
theorem paint_eq (screen : Screen) (x y : UInt8) {sprite : List UInt8}
    (h : sprite.length + UInt8.size ≤ UInt64.size) :
    screen.paint x y sprite = .ok (screen.draw x y sprite) := by
  have hbits : ∀ b ∈ spriteBits sprite, b.row + UInt8.size < UInt64.size ∧ b.column < 8 := fun b hb =>
    (mem_spriteBits hb).imp_left fun hr => by omega
  rw [paint, Frame.paintAll_eq screen.pixels 0 x y (spriteBits sprite) hbits]
  rfl

/-- The picture, if it waits to be shown; it does not wait any longer. -/
def takeFrame (screen : Screen) : Option Frame × Screen :=
  if screen.dirty then (some screen.pixels, { screen with dirty := false }) else (none, screen)

@[simp] theorem takeFrame_pixels (screen : Screen) : screen.takeFrame.2.pixels = screen.pixels := by
  unfold takeFrame
  split <;> rfl

@[simp] theorem takeFrame_dirty (screen : Screen) : screen.takeFrame.2.dirty = false := by
  unfold takeFrame
  split
  · rfl
  · simp_all

end Screen

end ChipEight
