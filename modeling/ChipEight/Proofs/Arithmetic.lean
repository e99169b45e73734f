import ChipEight.Proofs.Footprint

/-! Arithmetic on registers, as integers. What is written to the destination and to the flag register is told from
the values that both operands had before, so the exact sum, difference or double can be read off the two. -/
namespace ChipEight

/-- The operations that report in the flag register. -/
inductive Reckoning
  | add
  | sub
  | subFrom
  | shiftRight
  | shiftLeft
  deriving DecidableEq, Repr

namespace Reckoning

def instruction (op : Reckoning) (x y : Nat) : Instruction :=
  match op with
  | .add => .add x y
  | .sub => .sub x y
  | .subFrom => .subFrom x y
  | .shiftRight => .shiftRight x
  | .shiftLeft => .shiftLeft x

/-- What is left of the exact value in a byte, for `a` in `Vx` and `b` in `Vy`. -/
def result (a b : Int) : Reckoning → Int
  | .add => (a + b) % 256
  | .sub => (a - b) % 256
  | .subFrom => (b - a) % 256
  | .shiftRight => a / 2
  | .shiftLeft => 2 * a % 256

def flag (a b : Int) : Reckoning → Int
  | .add => if a + b ≥ 256 then 1 else 0
  | .sub => if a ≥ b then 1 else 0
  | .subFrom => if b ≥ a then 1 else 0
  | .shiftRight => a % 2
  | .shiftLeft => if a ≥ 128 then 1 else 0

/-- The sum, difference or double itself, and for a shift to the right the operand. -/
def exact (a b : Int) : Reckoning → Int
  | .add => a + b
  | .sub => a - b
  | .subFrom => b - a
  | .shiftRight => a
  | .shiftLeft => 2 * a

/-- What a result and a flag come from. -/
def recovered (result flag : Int) : Reckoning → Int
  | .add | .shiftLeft => result + 256 * flag
  | .sub | .subFrom => result - 256 * (1 - flag)
  | .shiftRight => 2 * result + flag

/-- Result and flag as the processor works them out. -/
def onBytes (a b : UInt8) : Reckoning → UInt8 × Bool
  | .add => (a + b, a + b < a)
  | .sub => (a - b, b ≤ a)
  | .subFrom => (b - a, a ≤ b)
  | .shiftRight => (a >>> 1, a &&& 1 == 1)
  | .shiftLeft => (a <<< 1, a >>> 7 &&& 1 == 1)

theorem recovered_result_flag (op : Reckoning) {a b : Nat} (ha : a < 256) (hb : b < 256) :
    op.recovered (op.result a b) (op.flag a b) = op.exact a b := by
  cases op with
  | add | sub | subFrom | shiftLeft =>
    simp only [recovered, result, flag, exact]
    split <;> omega
  | shiftRight =>
    simp only [recovered, result, flag, exact]
    omega

theorem toNat_onBytes (op : Reckoning) (a b : UInt8) :
    ((op.onBytes a b).1.toNat : Int) = op.result a.toNat b.toNat := by
  have ha := a.toNat_lt
  have hb := b.toNat_lt
  cases op with
  | add => simp only [onBytes, result, UInt8.toNat_add]; omega
  | sub => simp only [onBytes, result, UInt8.toNat_sub]; omega
  | subFrom => simp only [onBytes, result, UInt8.toNat_sub]; omega
  | shiftRight =>
    simp [onBytes, result, UInt8.toNat_shiftRight, Nat.shiftRight_eq_div_pow]
  | shiftLeft =>
    simp [onBytes, result, UInt8.toNat_shiftLeft, Nat.shiftLeft_eq]
    omega

theorem flag_eq_zero_or_one (op : Reckoning) (a b : Int) : op.flag a b = 0 ∨ op.flag a b = 1 := by
  cases op with
  | add | sub | subFrom | shiftLeft =>
    simp only [flag]
    split <;> simp
  | shiftRight => exact Int.emod_two_eq_zero_or_one a

theorem flag_onBytes_iff (op : Reckoning) (a b : UInt8) :
    (op.onBytes a b).2 = true ↔ op.flag a.toNat b.toNat = 1 := by
  have ha := a.toNat_lt
  have hb := b.toNat_lt
  cases op with
  | add =>
    simp only [onBytes, flag, decide_eq_true_eq, UInt8.lt_iff_toNat_lt, UInt8.toNat_add]
    split <;> simp <;> omega
  | sub | subFrom =>
    simp only [onBytes, flag, decide_eq_true_eq, UInt8.le_iff_toNat_le]
    split <;> simp <;> omega
  | shiftRight =>
    simp only [onBytes, flag, beq_iff_eq, ← UInt8.toNat_inj, UInt8.toNat_and, UInt8.toNat_one, Nat.and_one_is_mod]
    omega
  | shiftLeft =>
    simp [onBytes, flag, ← UInt8.toNat_inj, Nat.shiftRight_eq_div_pow, Nat.and_one_is_mod]
    omega

theorem toNat_flag (op : Reckoning) (a b : UInt8) :
    ((if (op.onBytes a b).2 then 1 else 0 : UInt8).toNat : Int) = op.flag a.toNat b.toNat := by
  have hiff := op.flag_onBytes_iff a b
  rcases op.flag_eq_zero_or_one a.toNat b.toNat with h | h
  · have hoff : ¬ (op.onBytes a b).2 = true := by
      rw [hiff, h]
      decide
    rw [h, if_neg hoff]
    rfl
  · rw [h, if_pos (hiff.2 h)]
    rfl

variable {x y : Nat}

theorem instruction_inRange (op : Reckoning) (hx : x < 16) (hy : y < 16) : (op.instruction x y).InRange := by
  cases op with
  | add | sub | subFrom => exact ⟨hx, hy⟩
  | shiftRight | shiftLeft => exact hx

end Reckoning

/-- The operations that report nothing. -/
inductive Combination
  | addByte (kk : UInt8)
  | copy
  | or
  | and
  | xor
  deriving DecidableEq, Repr

namespace Combination

def instruction (op : Combination) (x y : Nat) : Instruction :=
  match op with
  | .addByte kk => .addByte x kk
  | .copy => .copy x y
  | .or => .or x y
  | .and => .and x y
  | .xor => .xor x y

/-- What is written to `Vx`, for `a` in `Vx` and `b` in `Vy`. -/
def result (a b : Nat) : Combination → Nat
  | .addByte kk => (a + kk.toNat) % 256
  | .copy => b
  | .or => a ||| b
  | .and => a &&& b
  | .xor => a ^^^ b

def onBytes (a b : UInt8) : Combination → UInt8
  | .addByte kk => a + kk
  | .copy => b
  | .or => a ||| b
  | .and => a &&& b
  | .xor => a ^^^ b

theorem toNat_onBytes (op : Combination) (a b : UInt8) :
    (op.onBytes a b).toNat = op.result a.toNat b.toNat := by
  cases op with
  | addByte kk => exact UInt8.toNat_add a kk
  | copy => rfl
  | or => exact UInt8.toNat_or a b
  | and => exact UInt8.toNat_and a b
  | xor => exact UInt8.toNat_xor a b

variable {x y : Nat}

theorem instruction_inRange (op : Combination) (hx : x < 16) (hy : y < 16) : (op.instruction x y).InRange := by
  cases op with
  | addByte kk => exact hx
  | copy | or | and | xor => exact ⟨hx, hy⟩

end Combination

namespace Processor

variable {x y : Nat}

theorem effect_reckoning (p : Processor) (op : Reckoning) (x y : Nat) : p.effect (op.instruction x y) =
    (p.assignWithFlag x (op.onBytes (p.value x) (p.value y)).1
      (op.onBytes (p.value x) (p.value y)).2).advance := by
  cases op <;> rfl

theorem effect_combination (p : Processor) (op : Combination) (x y : Nat) :
    p.effect (op.instruction x y) = (p.assign x (op.onBytes (p.value x) (p.value y))).advance := by
  cases op <;> rfl

/-- What an operation with a flag leaves in the registers. -/
structure Reckoned (op : Reckoning) (x y : Nat) (p p' : Processor) : Prop where
  flag : ((p'.value flagRegister).toNat : Int) = op.flag (p.value x).toNat (p.value y).toNat
  result : x ≠ flagRegister → ((p'.value x).toNat : Int) = op.result (p.value x).toNat (p.value y).toNat
  others : ∀ r, r ≠ x → r ≠ flagRegister → p'.v[r]? = p.v[r]?
  /-- The exact value is in the destination and the flag together. -/
  recovered : x ≠ flagRegister → op.recovered (p'.value x).toNat (p'.value flagRegister).toNat =
    op.exact (p.value x).toNat (p.value y).toNat

/-- What an operation without a flag leaves in the registers. -/
structure Combined (op : Combination) (x y : Nat) (p p' : Processor) : Prop where
  result : (p'.value x).toNat = op.result (p.value x).toNat (p.value y).toNat
  /-- The flag register is no exception. -/
  others : ∀ r ≠ x, p'.v[r]? = p.v[r]?

theorem toNat_value_flag (p : Processor) (op : Reckoning) (x y : Nat) :
    (((p.effect (op.instruction x y)).value flagRegister).toNat : Int) =
      op.flag (p.value x).toNat (p.value y).toNat := by
  have hvalue : (p.effect (op.instruction x y)).value flagRegister =
      if (op.onBytes (p.value x) (p.value y)).2 then 1 else 0 := by
    rw [effect_reckoning]
    exact value_assignWithFlag p x _ _
  rw [hvalue]
  exact op.toNat_flag _ _

theorem toNat_value_destination (hx : x < registerCount) (hf : x ≠ flagRegister) (p : Processor)
    (op : Reckoning) (y : Nat) : (((p.effect (op.instruction x y)).value x).toNat : Int) =
      op.result (p.value x).toNat (p.value y).toNat := by
  have hvalue : (p.effect (op.instruction x y)).value x = (op.onBytes (p.value x) (p.value y)).1 := by
    rw [effect_reckoning]
    exact value_assignWithFlag_of_ne hx hf p _ _
  rw [hvalue]
  exact op.toNat_onBytes _ _

theorem reckoned_effect (hx : x < registerCount) (op : Reckoning) (p : Processor) :
    Reckoned op x y p (p.effect (op.instruction x y)) where
  flag := toNat_value_flag p op x y
  result hf := toNat_value_destination hx hf p op y
  others r hr hf := by
    rw [effect_reckoning]
    exact getElem?_assignWithFlag hr hf p _ _
  recovered hf := by
    rw [toNat_value_destination hx hf, toNat_value_flag,
      op.recovered_result_flag (p.value x).toNat_lt (p.value y).toNat_lt]

theorem combined_effect (hx : x < registerCount) (op : Combination) (p : Processor) :
    Combined op x y p (p.effect (op.instruction x y)) := by
  rw [effect_combination]
  constructor
  case result =>
    have hvalue : (p.assign x (op.onBytes (p.value x) (p.value y))).advance.value x = _ :=
      value_assign_self hx p _
    rw [hvalue]
    exact op.toNat_onBytes _ _
  case others => exact fun r hr => getElem?_assign hr p _

end Processor

namespace Machine

variable {ρ κ γ : Type} [Randomizer ρ] [Keyboard κ]

theorem execute_reckoning (op : Reckoning) {x y : Nat} (hx : x < 16) (hy : y < 16) (m : Machine ρ κ γ) :
    execute (op.instruction x y) m = .ok () (m.onto (·.effect (op.instruction x y))) := by
  have hrange := op.instruction_inRange hx hy
  cases op with
  | add | sub | subFrom | shiftRight | shiftLeft => exact execute_accepted hrange nofun rfl

theorem execute_combination (op : Combination) {x y : Nat} (hx : x < 16) (hy : y < 16) (m : Machine ρ κ γ) :
    execute (op.instruction x y) m = .ok () (m.onto (·.effect (op.instruction x y))) := by
  have hrange := op.instruction_inRange hx hy
  cases op with
  | addByte | copy | or | and | xor => exact execute_accepted hrange nofun rfl

/-- Whatever the registers hold, and also if an operation names one register twice or the flag register, the
destination, the flag and all other registers are as the values of the operands before it tell, taken as integers. -/
theorem arithmetic_exact (m : Machine ρ κ γ) {x y : Nat} (hx : x < 16) (hy : y < 16) :
    (∀ op : Reckoning, ∃ m', execute (op.instruction x y) m = .ok () m' ∧
      Processor.Reckoned op x y m.processor m'.processor) ∧
      ∀ op : Combination, ∃ m', execute (op.instruction x y) m = .ok () m' ∧
        Processor.Combined op x y m.processor m'.processor :=
  ⟨fun op => ⟨_, execute_reckoning op hx hy m, Processor.reckoned_effect hx op m.processor⟩,
    fun op => ⟨_, execute_combination op hx hy m, Processor.combined_effect hx op m.processor⟩⟩

/-- The flag of a difference wins over the difference, and a copy over the flag. -/
theorem flag_register_as_destination :
    let m : Machine ByteCycle KeyQueue CycleClock :=
      { processor := { Processor.initial with v := #v[0, 0, 0, 9, 0, 0, 0, 0, 0, 0, 0, 0, 0, 0, 0, 7] },
        randomizer := {}, keyboard := {}, clock := {} }
    (∃ m', execute (.sub 15 3) m = .ok () m' ∧ Processor.Reckoned .sub 15 3 m.processor m'.processor ∧
      ((m'.processor.value 15).toNat : Int) = 0) ∧
    ∃ m', execute (.copy 15 3) m = .ok () m' ∧ Processor.Combined .copy 15 3 m.processor m'.processor ∧
      (m'.processor.value 15).toNat = 9 := by
  intro m
  have hexact := arithmetic_exact m (by decide : 15 < 16) (by decide : 3 < 16)
  obtain ⟨m₁, hsub, hreckoned⟩ := hexact.1 .sub
  obtain ⟨m₂, hcopy, hcombined⟩ := hexact.2 .copy
  exact ⟨⟨m₁, hsub, hreckoned, hreckoned.flag⟩, m₂, hcopy, hcombined, hcombined.result⟩

end Machine

end ChipEight
