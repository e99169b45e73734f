import ChipEight.Proofs.Footprint
import ChipEight.Proofs.SpriteHits

/-! The draw instruction from end to end. It flips the pixels under the set bits of the sprite at the index
register and tells in the flag register whether one of them was lit, also if a coordinate was taken from that
register; everything else stays as it is. -/
namespace ChipEight

namespace Processor

/-- Bit `column` of row `row` of the sprite at the index register is set. -/
def SpriteSet (p : Processor) (row column : Nat) : Prop :=
  (p.memory.byte (p.i.toNat + row)).toNat.testBit (7 - column) = true

/-- A pixel lies under a set bit of the `n` rows at the index register, their upper left corner being at
`(Vx, Vy)`. -/
def Covers (p : Processor) (x y n : Nat) (cell : Cell) : Prop :=
  ∃ row < n, ∃ column < 8, p.SpriteSet row column ∧
    ((p.value x).toNat + column) % displayWidth = cell.column ∧
    ((p.value y).toNat + row) % displayHeight = cell.row

variable {p : Processor} {x y n : Nat} {cell : Cell}

theorem covers_iff (hi : p.i.toNat + n ≤ memorySize) : p.Covers x y n cell ↔
    0 < hitCount (p.value x) (p.value y) (p.memory.bytesAt p.i.toNat n) cell := by
  have hbyte {row : Nat} (hrow : row < n) :
      (p.memory.bytesAt p.i.toNat n).getD row 0 = p.memory.byte (p.i.toNat + row) := by
    rw [List.getD_eq_getElem?_getD, Memory.getElem?_bytesAt p.memory hi hrow, Option.getD_some]
  rw [hitCount_pos_iff, Memory.length_bytesAt p.memory hi]
  apply exists_congr
  intro row
  apply and_congr_right
  intro hrow
  simp only [Hits, hbyte hrow, SpriteSet]

/-- Every set bit lies on a pixel. -/
theorem exists_covers (h : ∃ row < n, ∃ column < 8, p.SpriteSet row column) : ∃ cell, p.Covers x y n cell := by
  obtain ⟨row, hrow, column, hcolumn, hset⟩ := h
  have hcell := Cell.wrap_eq_iff.1 (rfl : Cell.wrap ((p.value x).toNat + column) ((p.value y).toNat + row) = _)
  exact ⟨_, row, hrow, column, hcolumn, hset, hcell⟩

end Processor

namespace Machine

variable {ρ κ γ : Type}

/-- A sprite has been drawn on the way from one machine to another. -/
structure Flips (m m' : Machine ρ κ γ) (x y : Nat) (n : UInt8) : Prop where
  covered : ∀ cell : Cell, m.processor.Covers x y n.toNat cell →
    m'.screen.pixels.get cell = m.screen.pixels.get cell ^^^ 1
  uncovered : ∀ cell : Cell, ¬ m.processor.Covers x y n.toNat cell →
    m'.screen.pixels.get cell = m.screen.pixels.get cell
  flag : m'.processor.value flagRegister =
    if ∃ cell : Cell, m.screen.pixels.get cell = 1 ∧ m'.screen.pixels.get cell = 0 then 1 else 0
  dirty : m'.screen.dirty = true
  pc : m'.processor.pc = m.processor.pc + 2
  registers : ∀ r ≠ flagRegister, m'.processor.v[r]? = m.processor.v[r]?
  /-- Nothing else changes. -/
  rest : ∃ v pc, m' = { m with processor := { m.processor with v, pc }, screen := m'.screen }

variable {m m' m'' : Machine ρ κ γ} {x y : Nat} {n : UInt8}

theorem Flips.i_eq (h : m.Flips m' x y n) : m'.processor.i = m.processor.i := by
  obtain ⟨v, pc, hrest⟩ := h.rest
  exact congrArg (·.processor.i) hrest

theorem Flips.memory_eq (h : m.Flips m' x y n) : m'.processor.memory = m.processor.memory := by
  obtain ⟨v, pc, hrest⟩ := h.rest
  exact congrArg (·.processor.memory) hrest

theorem Flips.value_eq (h : m.Flips m' x y n) {r : Nat} (hr : r ≠ flagRegister) :
    m'.processor.value r = m.processor.value r :=
  congrArg (·.getD 0) (h.registers r hr)

theorem Flips.binary (hb : m.screen.pixels.Binary) (h : m.Flips m' x y n) : m'.screen.pixels.Binary := by
  intro cell
  by_cases hcovers : m.processor.Covers x y n.toNat cell
  · have hflipped := h.covered cell hcovers
    rcases hb.get cell with hoff | hlit
    · rw [hoff] at hflipped
      exact .inr hflipped
    · rw [hlit] at hflipped
      exact .inl hflipped
  · have hsame := h.uncovered cell hcovers
    exact (hb.get cell).imp hsame.trans hsame.trans

theorem Flips.flag_iff (h : m.Flips m' x y n) : m'.processor.value flagRegister = 1 ↔
    ∃ cell : Cell, m.screen.pixels.get cell = 1 ∧ m'.screen.pixels.get cell = 0 := by
  rw [h.flag]
  simp

/-- A pixel that is erased lies under a set bit. -/
theorem Flips.set_of_flag (h : m.Flips m' x y n) (hflag : m'.processor.value flagRegister = 1) :
    ∃ row < n.toNat, ∃ column < 8, m.processor.SpriteSet row column := by
  obtain ⟨cell, hlit, hoff⟩ := h.flag_iff.1 hflag
  by_cases hcovers : m.processor.Covers x y n.toNat cell
  · obtain ⟨row, hrow, column, hcolumn, hset, -⟩ := hcovers
    exact ⟨row, hrow, column, hcolumn, hset⟩
  · have hsame := h.uncovered cell hcovers
    rw [hlit, hoff] at hsame
    cases hsame

section Again

theorem Flips.spriteSet_iff (h : m.Flips m' x y n) {row column : Nat} :
    m'.processor.SpriteSet row column ↔ m.processor.SpriteSet row column := by
  rw [Processor.SpriteSet, h.i_eq, h.memory_eq]
  rfl

/-- With its coordinates still in place the sprite covers the same pixels as before. -/
theorem Flips.covers_iff (h : m.Flips m' x y n) (hx : x ≠ flagRegister) (hy : y ≠ flagRegister) {cell : Cell} :
    m'.processor.Covers x y n.toNat cell ↔ m.processor.Covers x y n.toNat cell := by
  simp only [Processor.Covers, h.spriteSet_iff, h.value_eq hx, h.value_eq hy]

theorem Flips.restores (h : m.Flips m' x y n) (h' : m'.Flips m'' x y n) (hx : x ≠ flagRegister)
    (hy : y ≠ flagRegister) : m''.screen.pixels = m.screen.pixels := by
  apply Vector.ext
  intro k hk
  show m''.screen.pixels.get ⟨k, hk⟩ = m.screen.pixels.get ⟨k, hk⟩
  by_cases hcovers : m.processor.Covers x y n.toNat ⟨k, hk⟩
  · have hagain := (h.covers_iff hx hy).2 hcovers
    rw [h'.covered _ hagain, h.covered _ hcovers, UInt8.xor_assoc, UInt8.xor_self, UInt8.xor_zero]
  · have hagain := mt (h.covers_iff hx hy).1 hcovers
    rw [h'.uncovered _ hagain, h.uncovered _ hcovers]

/-- Of two drawings of which the second undoes the first, one erases a pixel if there is a set bit at all. -/
theorem Flips.flag_or_flag_iff (hb : m.screen.pixels.Binary) (h : m.Flips m' x y n) (h' : m'.Flips m'' x y n)
    (hback : m''.screen.pixels = m.screen.pixels) :
    m'.processor.value flagRegister = 1 ∨ m''.processor.value flagRegister = 1 ↔
      ∃ row < n.toNat, ∃ column < 8, m.processor.SpriteSet row column := by
  constructor
  · rintro (hflag | hflag)
    · exact h.set_of_flag hflag
    · simpa only [h.spriteSet_iff] using h'.set_of_flag hflag
  · intro hset
    obtain ⟨cell, hcovers⟩ := Processor.exists_covers hset (x := x) (y := y)
    have hflipped := h.covered cell hcovers
    rcases hb.get cell with hoff | hlit
    · right
      rw [hoff] at hflipped
      exact h'.flag_iff.2 ⟨cell, hflipped, by rw [hback, hoff]⟩
    · left
      rw [hlit] at hflipped
      exact h.flag_iff.2 ⟨cell, hlit, hflipped⟩

end Again

/-- What drawing the sprite at the index register makes of the screen, with what it reports. -/
def drawn (m : Machine ρ κ γ) (x y : Nat) (n : UInt8) : UInt8 × Screen :=
  m.screen.draw (m.processor.value x) (m.processor.value y)
    (m.processor.memory.bytesAt m.processor.i.toNat n.toNat)

section Effect
variable [Randomizer ρ] [Keyboard κ]

theorem effect_draw (m : Machine ρ κ γ) (x y : Nat) (n : UInt8) : m.effect (.draw x y n) =
    { m with screen := (m.drawn x y n).2 }.onto fun p =>
      (p.assign flagRegister (m.drawn x y n).1).advance := rfl

theorem effect_flips (hb : m.screen.pixels.Binary) (hn : n < 16)
    (hi : m.processor.i.toNat + n.toNat ≤ memorySize) : m.Flips (m.effect (.draw x y n)) x y n := by
  have hshort : (m.processor.memory.bytesAt m.processor.i.toNat n.toNat).length ≤ displayHeight := by
    have hlt : n.toNat < 16 := UInt8.lt_iff_toNat_lt.1 hn
    rw [m.processor.memory.length_bytesAt hi, displayHeight]
    omega
  have hle := hitCount_le_one (m.processor.value x) (m.processor.value y) hshort
  have hdrawn := Screen.get_draw m.screen (m.processor.value x) (m.processor.value y)
    (m.processor.memory.bytesAt m.processor.i.toNat n.toNat)
  rw [effect_draw]
  constructor
  case covered =>
    intro cell hcovers
    have hone := Nat.le_antisymm (hle cell) ((Processor.covers_iff hi).1 hcovers)
    exact (hdrawn cell).trans (by rw [hone, parity_one])
  case uncovered =>
    intro cell hcovers
    have hzero := Nat.eq_zero_of_not_pos (mt (Processor.covers_iff hi).2 hcovers)
    exact (hdrawn cell).trans (by rw [hzero, parity_zero, UInt8.xor_zero])
  case flag =>
    have hvalue := Processor.value_assign_self (by decide : flagRegister < registerCount) m.processor
      (m.drawn x y n).1
    refine hvalue.trans ?_
    rw [drawn, Screen.draw_erased hb]
    simp only [Screen.erased_cell_iff hb hshort]
    rfl
  case dirty => rfl
  case pc => rfl
  case registers => exact fun r hr => Processor.getElem?_assign hr m.processor _
  case rest => exact ⟨_, _, rfl⟩

/-- With rows that lie in memory, the instruction is carried out. -/
theorem execute_draw (hx : x < 16) (hy : y < 16) (hn : n < 16)
    (hi : m.processor.i.toNat + n.toNat ≤ memorySize) :
    execute (.draw x y n) m = .ok () (m.effect (.draw x y n)) :=
  have hrange : (Instruction.draw x y n).InRange := ⟨hx, hy, hn⟩
  execute_accepted hrange nofun (if_pos hi)

/-- Drawing the `n` rows at the index register flips the pixels under their set bits, reports whether one was
lit, and changes nothing else. Drawn again with its coordinates still in place the sprite disappears, and it has been
reported once at least if it is not empty. -/
theorem draw_flips_sprite (hb : m.screen.pixels.Binary) (hx : x < 16) (hy : y < 16) (hn : n < 16)
    (hi : m.processor.i.toNat + n.toNat ≤ memorySize) :
    ∃ m', execute (.draw x y n) m = .ok () m' ∧ m.Flips m' x y n ∧
      (x ≠ flagRegister → y ≠ flagRegister →
        ∃ m'', execute (.draw x y n) m' = .ok () m'' ∧ m'.Flips m'' x y n ∧
          m''.screen.pixels = m.screen.pixels ∧
          (m'.processor.value flagRegister = 1 ∨ m''.processor.value flagRegister = 1 ↔
            ∃ row < n.toNat, ∃ column < 8, m.processor.SpriteSet row column)) := by
  have hflips := effect_flips (x := x) (y := y) hb hn hi
  refine ⟨m.effect (.draw x y n), execute_draw hx hy hn hi, hflips, ?_⟩
  intro hxf hyf
  rw [← hflips.i_eq] at hi
  have hflips' := effect_flips (x := x) (y := y) (hflips.binary hb) hn hi
  have hback := hflips.restores hflips' hxf hyf
  exact ⟨_, execute_draw hx hy hn hi, hflips', hback, hflips.flag_or_flag_iff hb hflips' hback⟩

/-- Five rows at the very end of memory, drawn across all four edges of the picture. -/
theorem last_bytes_flip :
    let m : Machine ByteCycle KeyQueue CycleClock :=
      { processor := { Processor.initial with
          v := #v[62, 30, 0, 0, 0, 0, 0, 0, 0, 0, 0, 0, 0, 0, 0, 0]
          i := 4091, memory := Memory.initial.patch 4091 [0xF0, 0x90, 0x90, 0x90, 0xF0] },
        randomizer := {}, keyboard := {}, clock := {} }
    m.screen.pixels.Binary ∧ m.processor.i.toNat + (5 : UInt8).toNat = memorySize ∧
      ∃ m', execute (.draw 0 1 5) m = .ok () m' ∧ m.Flips m' 0 1 5 ∧
        ∃ m'', execute (.draw 0 1 5) m' = .ok () m'' ∧ m'.Flips m'' 0 1 5 ∧
          m''.screen.pixels = m.screen.pixels := by
  intro m
  have hb : m.screen.pixels.Binary := Frame.blank_binary
  obtain ⟨m', hdraw, hflips, hagain⟩ :=
    draw_flips_sprite hb (by decide : 0 < 16) (by decide : 1 < 16) (by decide : (5 : UInt8) < 16) (Nat.le_refl 4096)
  obtain ⟨m'', hdraw', hflips', hback, -⟩ := hagain (by decide) (by decide)
  exact ⟨hb, rfl, m', hdraw, hflips, m'', hdraw', hflips', hback⟩

end Effect

end Machine

end ChipEight
