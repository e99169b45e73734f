import ChipEight.Width

/-! Pictures of 64 by 32 pixels, and the cells that a sprite covers. Both edges wrap around. -/
namespace ChipEight

def displayWidth : Nat := 64

def displayHeight : Nat := 32

/-- The number of a pixel, counted row by row from the upper left corner. -/
abbrev Cell := Fin (displayHeight * displayWidth)

/-- Every pixel as 0 (off) or 1 (lit). -/
abbrev Frame := Vector UInt8 (displayHeight * displayWidth)

namespace Cell

/-- The pixel in column `x` and row `y`, counted on around the edges. -/
def wrap (x y : Nat) : Cell :=
  ⟨y % displayHeight * displayWidth + x % displayWidth, by
    have hx : x % displayWidth < displayWidth := Nat.mod_lt x (by decide)
    have hy : y % displayHeight < displayHeight := Nat.mod_lt y (by decide)
    simp only [displayWidth, displayHeight] at *
    omega⟩

@[simp] theorem val_wrap (x y : Nat) : (wrap x y).val = y % 32 * 64 + x % 64 := rfl

end Cell

/-- Bit `column` of a sprite row, counted from the left. -/
def spriteBit (row : UInt8) (column : Nat) : UInt8 := row >>> (7 - column).toUInt8 &&& 1

theorem spriteBit_binary (row : UInt8) (column : Nat) :
    spriteBit row column = 0 ∨ spriteBit row column = 1 := by
  have hand : (spriteBit row column).toNat = (row >>> (7 - column).toUInt8).toNat % 2 := by
    rw [spriteBit, UInt8.toNat_and]
    exact Nat.and_one_is_mod _
  rcases Nat.mod_two_eq_zero_or_one (row >>> (7 - column).toUInt8).toNat with h | h
  · exact .inl (UInt8.toNat_inj.1 (hand.trans h))
  · exact .inr (UInt8.toNat_inj.1 (hand.trans h))

/-- A bit of a sprite: a row with its number, and a column. -/
structure SpriteBit where
  byte : UInt8
  row : Nat
  column : Nat

/-- The bits of a sprite, row by row. -/
def spriteBits (sprite : List UInt8) : List SpriteBit :=
  sprite.zipIdx.flatMap fun (byte, row) => (List.range 8).map fun column => { byte, row, column }

theorem mem_spriteBits {sprite : List UInt8} {b : SpriteBit} (h : b ∈ spriteBits sprite) :
    b.row < sprite.length ∧ b.column < 8 := by
  obtain ⟨⟨byte, row⟩, hrow, hb⟩ := List.mem_flatMap.1 h
  obtain ⟨column, hcolumn, rfl⟩ := List.mem_map.1 hb
  have hlt := List.snd_lt_of_mem_zipIdx hrow
  exact ⟨by simpa using hlt, List.mem_range.1 hcolumn⟩

namespace SpriteBit

/-- The number of the pixel under a bit of a sprite with its upper left corner at `(x, y)`. -/
def index (b : SpriteBit) (x y : UInt8) : Except Halt Nat := do
  let row ← fit64 (y.toNat + b.row : Nat)
  let column ← fit64 (x.toNat + b.column : Nat)
  fit64 (row % displayHeight * displayWidth + column % displayWidth : Nat)

def read (b : SpriteBit) : Except Halt UInt8 := do
  let shift ← fit64 (7 - b.column : Int)
  if shift < 8 then return b.byte >>> shift.toUInt8 &&& 1
  else throw (.defect .overflow)

/-- The pixel under a bit, and what the bit is. -/
def cell (b : SpriteBit) (x y : UInt8) : Cell × UInt8 :=
  (Cell.wrap (x.toNat + b.column) (y.toNat + b.row), spriteBit b.byte b.column)

variable {b : SpriteBit}

theorem index_eq (x y : UInt8) (hr : b.row + UInt8.size < UInt64.size) (hc : b.column < 8) :
    b.index x y = .ok (Cell.wrap (x.toNat + b.column) (y.toNat + b.row)).val := by
  have hx := x.toNat_lt
  have hy := y.toNat_lt
  have hrow : y.toNat + b.row < UInt64.size := by
    simp only [UInt8.size, UInt64.size] at *
    omega
  have hcolumn : x.toNat + b.column < UInt64.size := by
    simp only [UInt64.size]
    omega
  have hcell := (Cell.wrap (x.toNat + b.column) (y.toNat + b.row)).isLt
  have hindex : (Cell.wrap (x.toNat + b.column) (y.toNat + b.row)).val < UInt64.size :=
    Nat.lt_trans hcell (by decide)
  rw [index, fit64_of_lt hrow]
  show (fit64 (x.toNat + b.column : Nat) >>= fun _ => _) = _
  rw [fit64_of_lt hcolumn]
  exact fit64_of_lt hindex

theorem read_eq (hc : b.column < 8) : b.read = .ok (spriteBit b.byte b.column) := by
  have hshift : fit64 (7 - b.column : Int) = .ok (7 - b.column) := by
    have hcast : (7 - b.column : Int) = (7 - b.column : Nat) := by omega
    rw [hcast]
    exact fit64_of_lt (Nat.lt_of_le_of_lt (Nat.sub_le 7 b.column) (by decide))
  rw [read, hshift]
  exact if_pos (Nat.lt_of_le_of_lt (Nat.sub_le 7 b.column) (by decide))

end SpriteBit

/-- The cells under a sprite with its upper left corner at `(x, y)`, each with the sprite's bit there,
row by row. A sprite taller than the picture covers cells more than once. -/
def spriteCells (x y : UInt8) (sprite : List UInt8) : List (Cell × UInt8) :=
  (spriteBits sprite).map (·.cell x y)

theorem spriteCells_binary (x y : UInt8) (sprite : List UInt8) :
    ∀ c ∈ spriteCells x y sprite, c.2 = 0 ∨ c.2 = 1 := by
  intro c hc
  obtain ⟨b, hb, rfl⟩ := List.mem_map.1 hc
  exact spriteBit_binary b.byte b.column

namespace Frame

def blank : Frame := Vector.replicate _ 0

/-- The pixel in column `x` and row `y`. Only the number of the pixel is checked, so a column past the
edge lies in a lower row. -/
def pixel (frame : Frame) (x y : Nat) : Except Halt UInt8 := do
  let index ← fit64 (y * displayWidth + x : Nat)
  match frame[index]? with
  | some value => return value
  | none => throw (.defect (.noSuchPixel index))

def rows (frame : Frame) : List (List UInt8) :=
  (List.range displayHeight).map fun y =>
    (frame.toArray.extract (y * displayWidth) (y * displayWidth + displayWidth)).toList

/-- Toggles the pixel under a set bit, and notes in `erased` whether it was lit. -/
def plot (frame : Frame) (erased : UInt8) (cell : Cell) (bit : UInt8) : Frame × UInt8 :=
  let old := frame[cell]
  (frame.set cell (old ^^^ bit), erased ||| (bit &&& old))

def plotAll (frame : Frame) (erased : UInt8) : List (Cell × UInt8) → Frame × UInt8
  | [] => (frame, erased)
  | (cell, bit) :: rest =>
    let (frame, erased) := frame.plot erased cell bit
    plotAll frame erased rest

/-- Plots one bit of a sprite, with every number on the way checked. -/
def paint (frame : Frame) (erased : UInt8) (x y : UInt8) (b : SpriteBit) :
    Except Halt (Frame × UInt8) := do
  let index ← b.index x y
  let bit ← b.read
  if h : index < displayHeight * displayWidth then return frame.plot erased ⟨index, h⟩ bit
  else throw (.defect (.noSuchPixel index))

def paintAll (frame : Frame) (erased : UInt8) (x y : UInt8) :
    List SpriteBit → Except Halt (Frame × UInt8)
  | [] => .ok (frame, erased)
  | b :: rest => do
    let (frame, erased) ← frame.paint erased x y b
    frame.paintAll erased x y rest

theorem paint_eq (frame : Frame) (erased x y : UInt8) {b : SpriteBit}
    (hr : b.row + UInt8.size < UInt64.size) (hc : b.column < 8) :
    frame.paint erased x y b = .ok (frame.plot erased (b.cell x y).1 (b.cell x y).2) := by
  rw [paint, SpriteBit.index_eq x y hr hc]
  show (b.read >>= fun _ => _) = _
  rw [SpriteBit.read_eq hc]
  exact dif_pos (Cell.wrap (x.toNat + b.column) (y.toNat + b.row)).isLt

theorem paintAll_eq (frame : Frame) (erased x y : UInt8) (bits : List SpriteBit)
    (h : ∀ b ∈ bits, b.row + UInt8.size < UInt64.size ∧ b.column < 8) :
    frame.paintAll erased x y bits = .ok (frame.plotAll erased (bits.map (·.cell x y))) := by
  induction bits generalizing frame erased with
  | nil => rfl
  | cons b rest ih =>
    obtain ⟨hr, hc⟩ := h b List.mem_cons_self
    rw [paintAll, paint_eq frame erased x y hr hc]
    exact ih _ _ fun c hc => h c (List.mem_cons_of_mem b hc)

/-- Every pixel is off or lit. -/
def Binary (frame : Frame) : Prop := ∀ cell : Cell, frame[cell] = 0 ∨ frame[cell] = 1

theorem blank_binary : blank.Binary := by
  intro cell
  exact .inl (Vector.getElem_replicate cell.isLt)

variable {frame : Frame}

theorem plot_binary (erased : UInt8) (hf : frame.Binary) {cell : Cell} {bit : UInt8}
    (hb : bit = 0 ∨ bit = 1) : (frame.plot erased cell bit).1.Binary := by
  intro other
  by_cases h : cell.val = other.val
  · have hset : (frame.plot erased cell bit).1[other] = frame[cell] ^^^ bit := by
      simp [plot, h]
    rw [hset]
    rcases hf cell with ho | ho <;> rcases hb with rfl | rfl <;> rw [ho] <;> decide
  · have hset : (frame.plot erased cell bit).1[other] = frame[other] := by
      simp [plot, h]
    rw [hset]
    exact hf other

theorem plotAll_binary (erased : UInt8) (cells : List (Cell × UInt8))
    (hc : ∀ c ∈ cells, c.2 = 0 ∨ c.2 = 1) (hf : frame.Binary) : (frame.plotAll erased cells).1.Binary := by
  induction cells generalizing frame erased with
  | nil => exact hf
  | cons c rest ih =>
    exact ih _ (fun d hd => hc d (List.mem_cons_of_mem c hd))
      (plot_binary erased hf (hc c List.mem_cons_self))

end Frame

end ChipEight
