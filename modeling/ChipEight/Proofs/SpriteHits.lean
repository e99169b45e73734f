import ChipEight.Screen
import Mathlib.Algebra.GroupWithZero.Nat
import Mathlib.Data.Finset.Card
import Mathlib.Data.Finset.Prod
import Mathlib.Data.List.ProdSigma

/-! Drawing in closed form. Where the set bits of a sprite come down is a matter of counting: each pixel is
toggled once for every bit that hits it, and something is erased if a pixel is hit while it is lit. -/
namespace ChipEight

namespace Cell

def column (cell : Cell) : Nat := cell.val % displayWidth

def row (cell : Cell) : Nat := cell.val / displayWidth

theorem wrap_eq_iff {x y : Nat} {cell : Cell} :
    wrap x y = cell ↔ x % displayWidth = cell.column ∧ y % displayHeight = cell.row := by
  have hcell := cell.isLt
  simp only [Fin.ext_iff, val_wrap, column, row, displayWidth, displayHeight] at *
  omega

end Cell

/-- Bit `column` of row `row` of a sprite, both counted from its upper left corner at `(x, y)`, is set and lies
on a pixel. -/
def Hits (x y : UInt8) (sprite : List UInt8) (cell : Cell) (row column : Nat) : Prop :=
  (sprite.getD row 0).toNat.testBit (7 - column) = true ∧
    (x.toNat + column) % displayWidth = cell.column ∧ (y.toNat + row) % displayHeight = cell.row

instance (x y : UInt8) (sprite : List UInt8) (cell : Cell) (row column : Nat) :
    Decidable (Hits x y sprite cell row column) :=
  inferInstanceAs (Decidable (_ ∧ _))

/-- How many set bits of a sprite lie on a pixel. -/
def hitCount (x y : UInt8) (sprite : List UInt8) (cell : Cell) : Nat :=
  ((Finset.range sprite.length ×ˢ Finset.range 8).filter fun b => Hits x y sprite cell b.1 b.2).card

/-- What toggling a pixel `n` times comes to. -/
def parity (n : Nat) : UInt8 := (n % 2).toUInt8

section Parity

theorem parity_zero : parity 0 = 0 := rfl

theorem parity_one : parity 1 = 1 := rfl

theorem parity_add (m n : Nat) : parity (m + n) = parity m ^^^ parity n := by
  unfold parity
  rw [Nat.add_mod]
  rcases Nat.mod_two_eq_zero_or_one m with hm | hm <;> rcases Nat.mod_two_eq_zero_or_one n with hn | hn <;>
    rw [hm, hn] <;> rfl

theorem parity_add_self (n : Nat) : parity (n + n) = 0 := by
  rw [parity_add, UInt8.xor_self]

end Parity

section Count

theorem spriteBit_eq_one_iff (row : UInt8) {column : Nat} (h : column < 8) :
    spriteBit row column = 1 ↔ row.toNat.testBit (7 - column) = true := by
  have hshift : (7 - column).toUInt8.toNat % 8 = 7 - column := by
    rw [Nat.toUInt8, UInt8.toNat_ofNat']
    omega
  have hbit : (spriteBit row column).toNat = (row.toNat.testBit (7 - column)).toNat := by
    rw [spriteBit, UInt8.toNat_and, UInt8.toNat_shiftRight, hshift, Nat.toNat_testBit,
      Nat.shiftRight_eq_div_pow]
    exact Nat.and_one_is_mod _
  rw [← UInt8.toNat_inj, hbit]
  cases row.toNat.testBit (7 - column) <;> decide

theorem cell_eq_iff {x y : UInt8} {sprite : List UInt8} {cell : Cell} {row column : Nat} (h : column < 8) :
    SpriteBit.cell { byte := sprite.getD row 0, row, column } x y = (cell, 1) ↔
      Hits x y sprite cell row column := by
  rw [SpriteBit.cell, Prod.mk.injEq, spriteBit_eq_one_iff _ h, Cell.wrap_eq_iff, and_comm]
  rfl

theorem spriteBits_eq (sprite : List UInt8) : spriteBits sprite =
    (List.product (List.range sprite.length) (List.range 8)).map fun b =>
      { byte := sprite.getD b.1 0, row := b.1, column := b.2 } := by
  have hrows : sprite.zipIdx = (List.range sprite.length).map fun row => (sprite.getD row 0, row) := by
    apply List.ext_getElem?
    intro k
    by_cases hk : k < sprite.length
    · simp [hk]
    · simp [hk]
  rw [spriteBits, hrows, List.flatMap_map, List.product, List.map_flatMap]
  simp [Function.comp_def]

/-- The cells under a sprite hold each pixel as often as set bits lie on it. -/
theorem count_spriteCells (x y : UInt8) (sprite : List UInt8) (cell : Cell) :
    (spriteCells x y sprite).count (cell, 1) = hitCount x y sprite cell := by
  have hcard : hitCount x y sprite cell =
      (List.product (List.range sprite.length) (List.range 8)).countP
        fun b => Hits x y sprite cell b.1 b.2 := by
    rw [hitCount, Finset.card_def, Finset.filter_val, ← Multiset.countP_eq_card_filter, Finset.product_val]
    exact (congrArg _ (Multiset.coe_product _ _)).trans (Multiset.coe_countP _ _)
  rw [hcard, spriteCells, spriteBits_eq, List.map_map, List.count, List.countP_map]
  apply List.countP_congr
  intro b hb
  obtain ⟨-, hcolumn⟩ := List.pair_mem_product.1 hb
  simpa only [Function.comp_apply, beq_iff_eq, decide_eq_true_eq] using cell_eq_iff (List.mem_range.1 hcolumn)

/-- The rows of a sprite that is no taller than the picture do not overlap. -/
theorem hitCount_le_one (x y : UInt8) {sprite : List UInt8} (h : sprite.length ≤ displayHeight) (cell : Cell) :
    hitCount x y sprite cell ≤ 1 := by
  rw [hitCount, Finset.card_le_one]
  rintro ⟨row, column⟩ hb ⟨row', column'⟩ hb'
  simp only [Finset.mem_filter, Finset.mem_product, Finset.mem_range] at hb hb'
  obtain ⟨⟨hrow, hcolumn⟩, -, hx, hy⟩ := hb
  obtain ⟨⟨hrow', hcolumn'⟩, -, hx', hy'⟩ := hb'
  simp only [displayHeight, displayWidth] at *
  rw [Prod.mk.injEq]
  omega

/-- A pixel is hit if a set bit lies on it. -/
theorem hitCount_pos_iff {x y : UInt8} {sprite : List UInt8} {cell : Cell} :
    0 < hitCount x y sprite cell ↔ ∃ row < sprite.length, ∃ column < 8, Hits x y sprite cell row column := by
  rw [hitCount, Finset.card_pos]
  constructor
  · rintro ⟨⟨row, column⟩, hb⟩
    simp only [Finset.mem_filter, Finset.mem_product, Finset.mem_range] at hb
    exact ⟨row, hb.1.1, column, hb.1.2, hb.2⟩
  · rintro ⟨row, hrow, column, hcolumn, h⟩
    exact ⟨(row, column), by simp [hrow, hcolumn, h]⟩

end Count

namespace Frame

variable {frame : Frame}

theorem Binary.get (hf : frame.Binary) (cell : Cell) : frame.get cell = 0 ∨ frame.get cell = 1 := hf cell

theorem get_plot (frame : Frame) (erased : UInt8) (cell other : Cell) (bit : UInt8) :
    (frame.plot erased cell bit).1.get other = if cell = other then frame.get cell ^^^ bit else frame.get other := by
  show (frame.plot erased cell bit).1[other] = if cell = other then frame[cell] ^^^ bit else frame[other]
  by_cases h : cell = other
  · subst h
    simp [plot]
  · have hval : cell.val ≠ other.val := fun he => h (Fin.ext he)
    simp [plot, h, hval]

theorem plotAll_cons (frame : Frame) (erased : UInt8) (cell : Cell) (bit : UInt8) (rest : List (Cell × UInt8)) :
    frame.plotAll erased ((cell, bit) :: rest) =
      (frame.plot erased cell bit).1.plotAll (frame.plot erased cell bit).2 rest := rfl

/-- Each pixel is toggled as often as a set bit comes down on it. -/
theorem get_plotAll (frame : Frame) (erased : UInt8) {cells : List (Cell × UInt8)}
    (hcells : ∀ c ∈ cells, c.2 = 0 ∨ c.2 = 1) (cell : Cell) :
    (frame.plotAll erased cells).1.get cell = frame.get cell ^^^ parity (cells.count (cell, 1)) := by
  induction cells generalizing frame erased with
  | nil => simp [plotAll, parity_zero]
  | cons c rest ih =>
    obtain ⟨other, bit⟩ := c
    obtain ⟨hbit, hrest⟩ := List.forall_mem_cons.1 hcells
    have hplot := get_plot frame erased other cell bit
    rw [plotAll_cons, ih _ _ hrest, hplot, List.count_cons, parity_add, UInt8.xor_comm (parity _),
      ← UInt8.xor_assoc]
    congr 1
    rcases hbit with rfl | rfl
    · by_cases h : other = cell <;> simp [h, parity_zero]
    · by_cases h : other = cell <;> simp [h, parity_zero, parity_one]

theorem plot_unset (frame : Frame) (erased : UInt8) (cell : Cell) : frame.plot erased cell 0 = (frame, erased) := by
  simp [plot]

/-- A set bit that comes down on a lit pixel erases it. -/
theorem plot_set_erased (erased : UInt8) {cell : Cell} (h : frame.get cell = 0 ∨ frame.get cell = 1) :
    (frame.plot erased cell 1).2 = erased ||| frame.get cell := by
  have hplot : (frame.plot erased cell 1).2 = erased ||| (1 &&& frame.get cell) := rfl
  rcases h with h | h <;> rw [hplot, h] <;> rfl

/-- Something is erased if a set bit comes down on a pixel that is lit, be it from the start or by a bit that
came down before. -/
theorem plotAll_erased {erased : UInt8} (hf : frame.Binary) (he : erased = 0 ∨ erased = 1)
    {cells : List (Cell × UInt8)} (hcells : ∀ c ∈ cells, c.2 = 0 ∨ c.2 = 1) :
    (frame.plotAll erased cells).2 =
      if erased = 1 ∨ ∃ cell : Cell, 2 ≤ (frame.get cell).toNat + cells.count (cell, 1) then 1 else 0 := by
  induction cells generalizing frame erased with
  | nil =>
    have hnone : ¬ ∃ cell : Cell, 2 ≤ (frame.get cell).toNat + ([] : List (Cell × UInt8)).count (cell, 1) := by
      rintro ⟨cell, hcell⟩
      rcases hf.get cell with h | h <;> simp [h] at hcell
    rcases he with rfl | rfl
    · rw [if_neg fun h => h.elim (by decide) hnone]
      rfl
    · rw [if_pos (.inl rfl)]
      rfl
  | cons c rest ih =>
    obtain ⟨other, bit⟩ := c
    obtain ⟨hbit, hrest⟩ := List.forall_mem_cons.1 hcells
    rw [plotAll_cons]
    rcases hbit with rfl | rfl
    · rw [plot_unset, ih hf he hrest]
      simp
    · have hplotted : (frame.plot erased other 1).1.Binary := plot_binary erased hf (.inr rfl)
      have herased := plot_set_erased erased (hf.get other)
      -- A pixel that was off counts as lit from now on; one that was lit decides the matter.
      rcases hf.get other with hoff | hlit
      · rw [hoff, UInt8.or_zero] at herased
        have hcount (cell : Cell) : ((frame.plot erased other 1).1.get cell).toNat + rest.count (cell, 1) =
            (frame.get cell).toNat + ((other, 1) :: rest).count (cell, 1) := by
          rw [get_plot, List.count_cons]
          by_cases h : other = cell
          · subst h
            simp [hoff]
            omega
          · simp [h]
        rw [herased, ih hplotted he hrest]
        simp only [hcount]
      · have herased' : (frame.plot erased other 1).2 = 1 := by
          rw [herased, hlit]
          rcases he with rfl | rfl <;> rfl
        rw [herased', ih hplotted (.inr rfl) hrest, if_pos (.inl rfl), if_pos]
        exact .inr ⟨other, by simp [hlit]; omega⟩

end Frame

namespace Screen

/-- A sprite with its place. -/
structure Stroke where
  x : UInt8
  y : UInt8
  sprite : List UInt8

/-- Draws one sprite after the other. -/
def drawAll (screen : Screen) (strokes : List Stroke) : Screen :=
  strokes.foldl (fun screen s => (screen.draw s.x s.y s.sprite).2) screen

/-- What drawing a sprite comes to. -/
structure Drawn (before : Screen) (x y : UInt8) (sprite : List UInt8) (result : UInt8) (after : Screen) :
    Prop where
  pixels : ∀ cell : Cell, after.pixels.get cell = before.pixels.get cell ^^^ parity (hitCount x y sprite cell)
  dirty : after.dirty = true
  erased : result =
    if ∃ cell : Cell, 2 ≤ (before.pixels.get cell).toNat + hitCount x y sprite cell then 1 else 0
  again : (after.draw x y sprite).2.pixels = before.pixels
  /-- Rows that do not overlap erase what is lit before and off afterwards. -/
  erased_iff : sprite.length ≤ displayHeight →
    (result = 1 ↔ ∃ cell : Cell, before.pixels.get cell = 1 ∧ after.pixels.get cell = 0)

variable {screen : Screen} {x y : UInt8} {sprite : List UInt8}

theorem get_draw (screen : Screen) (x y : UInt8) (sprite : List UInt8) (cell : Cell) :
    (screen.draw x y sprite).2.pixels.get cell =
      screen.pixels.get cell ^^^ parity (hitCount x y sprite cell) := by
  rw [← count_spriteCells]
  exact screen.pixels.get_plotAll 0 (spriteCells_binary x y sprite) cell

theorem draw_erased (hb : screen.pixels.Binary) : (screen.draw x y sprite).1 =
    if ∃ cell : Cell, 2 ≤ (screen.pixels.get cell).toNat + hitCount x y sprite cell then 1 else 0 := by
  have hzero : ((0 : UInt8) = 1) = False := by decide
  have herased := Frame.plotAll_erased hb (.inl rfl) (spriteCells_binary x y sprite)
  simp only [count_spriteCells, hzero, false_or] at herased
  exact herased

/-- A sprite drawn twice leaves no trace. -/
theorem draw_again (screen : Screen) (x y : UInt8) (sprite : List UInt8) :
    ((screen.draw x y sprite).2.draw x y sprite).2.pixels = screen.pixels := by
  apply Vector.ext
  intro k hk
  have hcell := get_draw (screen.draw x y sprite).2 x y sprite ⟨k, hk⟩
  rw [get_draw screen, UInt8.xor_assoc, ← parity_add, parity_add_self, UInt8.xor_zero] at hcell
  exact hcell

/-- A pixel that is hit once at most is erased if it was lit and is off now. -/
theorem erased_cell_iff (hb : screen.pixels.Binary) (h : sprite.length ≤ displayHeight) (cell : Cell) :
    2 ≤ (screen.pixels.get cell).toNat + hitCount x y sprite cell ↔
      screen.pixels.get cell = 1 ∧ (screen.draw x y sprite).2.pixels.get cell = 0 := by
  rw [get_draw]
  have hle := hitCount_le_one x y h cell
  rcases hb.get cell with hoff | hlit
  · rw [hoff]
    simp
    omega
  · rw [hlit]
    rcases Nat.le_one_iff_eq_zero_or_eq_one.1 hle with hc | hc <;> rw [hc] <;> decide

theorem draw_drawn (hb : screen.pixels.Binary) (x y : UInt8) (sprite : List UInt8) :
    screen.Drawn x y sprite (screen.draw x y sprite).1 (screen.draw x y sprite).2 where
  pixels := get_draw screen x y sprite
  dirty := rfl
  erased := draw_erased hb
  again := draw_again screen x y sprite
  erased_iff h := by
    have hzero : ((0 : UInt8) = 1) = False := by decide
    rw [draw_erased hb, ← exists_congr (erased_cell_iff hb h)]
    simp only [ite_eq_left_iff, hzero, imp_false, not_not]

/-- After any sprites each pixel has been toggled once for every set bit that lies on it. -/
theorem get_drawAll (screen : Screen) (strokes : List Stroke) (cell : Cell) :
    (screen.drawAll strokes).pixels.get cell =
      screen.pixels.get cell ^^^ parity (strokes.map fun s => hitCount s.x s.y s.sprite cell).sum := by
  induction strokes generalizing screen with
  | nil => simp [drawAll, parity_zero]
  | cons s rest ih =>
    have hrest := ih (screen.draw s.x s.y s.sprite).2
    rw [get_draw, UInt8.xor_assoc, ← parity_add] at hrest
    exact hrest

/-- Drawing toggles each pixel once for every set bit that lies on it, and erases if it hits a pixel while that is
lit. The order in which sprites are drawn makes no difference to the picture, and no range that is checked on the
way is left. -/
theorem drawing_counts_hits (hb : screen.pixels.Binary) :
    (∀ x y sprite, screen.Drawn x y sprite (screen.draw x y sprite).1 (screen.draw x y sprite).2) ∧
      (∀ x y sprite, sprite.length + UInt8.size ≤ UInt64.size →
        screen.paint x y sprite = .ok (screen.draw x y sprite)) ∧
      ∀ strokes strokes' : List Stroke, strokes.Perm strokes' →
        (screen.drawAll strokes).pixels = (screen.drawAll strokes').pixels := by
  refine ⟨draw_drawn hb, fun x y sprite => paint_eq screen x y, ?_⟩
  intro strokes strokes' hperm
  apply Vector.ext
  intro k hk
  have hsum := (hperm.map fun s => hitCount s.x s.y s.sprite ⟨k, hk⟩).sum_eq
  have hcell := get_drawAll screen strokes ⟨k, hk⟩
  rw [hsum, ← get_drawAll] at hcell
  exact hcell

/-- The last row of a sprite of thirty-three comes down on the first and erases it, though no pixel was lit. -/
theorem overlapping_rows_erase :
    let screen : Screen := {}
    let sprite : List UInt8 := [0x80] ++ List.replicate 31 0 ++ [0x80]
    screen.pixels.Binary ∧
      screen.Drawn 62 30 sprite (screen.draw 62 30 sprite).1 (screen.draw 62 30 sprite).2 ∧
      (screen.draw 62 30 sprite).1 = 1 := by
  intro screen sprite
  have hb : screen.pixels.Binary := Frame.blank_binary
  have hdrawn := (drawing_counts_hits hb).1 62 30 sprite
  have hcount : hitCount 62 30 sprite (Cell.wrap 62 30) = 2 := by decide +kernel
  have herased : (screen.draw 62 30 sprite).1 = 1 := by
    rw [hdrawn.erased, if_pos]
    exact ⟨Cell.wrap 62 30, by rw [hcount]; exact Nat.le_add_left 2 _⟩
  exact ⟨hb, hdrawn, herased⟩

end Screen

end ChipEight
