import ChipEight.Proofs.TwoRuns

/-! What an instruction may change, and what it asks of the peripherals. It leaves everything else alone,
also if its operands name one register twice, or if it stores over the font or its own word. -/
namespace ChipEight

namespace Instruction

/-- The register that an instruction names as its destination, if it has one. -/
def destination : Instruction → Option Nat
  | .load x _ | .addByte x _ | .copy x _ | .or x _ | .and x _ | .xor x _ | .add x _ | .sub x _
  | .shiftRight x | .subFrom x _ | .shiftLeft x | .random x _ | .readDelay x | .awaitKey x => some x
  | _ => none

/-- Whether an instruction reports in the flag register. -/
def reports : Instruction → Bool
  | .add .. | .sub .. | .shiftRight _ | .subFrom .. | .shiftLeft _ | .draw .. => true
  | _ => false

/-- The registers that an instruction may write to. -/
def Writes (i : Instruction) (r : Nat) : Prop :=
  i.destination = some r ∨ (r = flagRegister ∧ i.reports = true) ∨ ∃ x, i = .loadRegisters x ∧ r ≤ x

/-- How many bytes an instruction stores, the first of them at the index register. -/
def stored : Instruction → Nat
  | .storeDecimal _ => 3
  | .storeRegisters x => x + 1
  | _ => 0

/-- Whether an instruction sets the index register. -/
def pointsIndex : Instruction → Bool
  | .setIndex _ | .addIndex _ | .fontSprite _ => true
  | _ => false

variable {i : Instruction} {r x : Nat}

theorem ne_of_destination (h : ¬ i.Writes r) (hd : i.destination = some x) : r ≠ x := by
  rintro rfl
  exact h (.inl hd)

theorem ne_of_reports (h : ¬ i.Writes r) (hr : i.reports = true) : r ≠ flagRegister :=
  fun hf => h (.inr (.inl ⟨hf, hr⟩))

end Instruction

/-- What is written to memory lies where it was written to. -/
theorem Memory.getElem?_patch {memory : Memory} {start a : Nat} {data : List UInt8}
    (h : ¬ (start ≤ a ∧ a < start + data.length)) : (memory.patch start data)[a]? = memory[a]? := by
  have hbytes := getElem?_overwrite memory.toArray start a data
  rw [if_neg fun hin => h ⟨hin.1, hin.2.1⟩] at hbytes
  rw [patch, ← Vector.getElem?_toArray, hbytes, Vector.getElem?_toArray]

namespace Processor

variable {p : Processor} {i : Instruction} {r x : Nat}

theorem getElem?_assign (h : r ≠ x) (p : Processor) (b : UInt8) : (p.assign x b).v[r]? = p.v[r]? := by
  simp [assign, h.symm]

theorem value_assign_of_ne (h : r ≠ x) (p : Processor) (b : UInt8) : (p.assign x b).value r = p.value r :=
  congrArg (·.getD 0) (getElem?_assign h p b)

theorem value_assign_self (h : x < registerCount) (p : Processor) (b : UInt8) : (p.assign x b).value x = b := by
  simp [value, assign, h]

theorem getElem?_assignWithFlag (hx : r ≠ x) (hf : r ≠ flagRegister) (p : Processor) (result : UInt8)
    (flag : Bool) : (p.assignWithFlag x result flag).v[r]? = p.v[r]? := by
  rw [assignWithFlag, getElem?_assign hf, getElem?_assign hx]

theorem value_assignWithFlag (p : Processor) (x : Nat) (result : UInt8) (flag : Bool) :
    (p.assignWithFlag x result flag).value flagRegister = if flag then 1 else 0 :=
  value_assign_self (by decide) _ _

theorem value_assignWithFlag_of_ne (hx : x < registerCount) (hf : x ≠ flagRegister) (p : Processor)
    (result : UInt8) (flag : Bool) : (p.assignWithFlag x result flag).value x = result := by
  rw [assignWithFlag, value_assign_of_ne hf, value_assign_self hx]

theorem getElem?_assignFrom {bytes : List UInt8} (h : x + bytes.length ≤ r) :
    (p.assignFrom x bytes).v[r]? = p.v[r]? := by
  induction bytes generalizing x p with
  | nil => rfl
  | cons b rest ih =>
    simp only [List.length_cons] at h
    rw [assignFrom, ih (by omega), getElem?_assign (by omega)]

theorem effect_registers (h : ¬ i.Writes r) : (p.effect i).v[r]? = p.v[r]? := by
  cases i with
  | load x | addByte x | copy x | or x | and x | xor x | readDelay x =>
    exact getElem?_assign (Instruction.ne_of_destination h rfl) _ _
  | add x | sub x | shiftRight x | subFrom x | shiftLeft x =>
    exact getElem?_assignWithFlag (Instruction.ne_of_destination h rfl)
      (Instruction.ne_of_reports h rfl) _ _ _
  | loadRegisters x =>
    have hr : x < r := Nat.lt_of_not_le fun hle => h (.inr (.inr ⟨x, rfl, hle⟩))
    refine getElem?_assignFrom ?_
    simp [Memory.bytesAt]
    omega
  | _ => rfl

theorem effect_memory {a : Nat} (h : ¬ (p.i.toNat ≤ a ∧ a < p.i.toNat + i.stored)) :
    (p.effect i).memory[a]? = p.memory[a]? := by
  cases i with
  | storeDecimal x => exact Memory.getElem?_patch h
  | storeRegisters x =>
    have hlen : (p.v.toList.take (x + 1)).length ≤ x + 1 := by
      rw [List.length_take]
      exact Nat.min_le_left _ _
    exact Memory.getElem?_patch fun hin => h ⟨hin.1, Nat.lt_of_lt_of_le hin.2 (Nat.add_le_add_left hlen _)⟩
  | loadRegisters x =>
    show (p.assignFrom 0 _).memory[a]? = _
    rw [assignFrom_eq]
  | _ => rfl

theorem effect_index (h : i.pointsIndex = false) : (p.effect i).i = p.i := by
  cases i with
  | setIndex | addIndex | fontSprite => cases h
  | loadRegisters x =>
    show (p.assignFrom 0 _).i = _
    rw [assignFrom_eq]
  | _ => rfl

theorem effect_slots {k : Nat} (h : ¬ (k = p.stack.depth.toNat ∧ ∃ addr, i = .call addr)) :
    (p.effect i).stack.slots[k]? = p.stack.slots[k]? := by
  cases i with
  | call addr =>
    have hk : p.stack.depth.toNat ≠ k := fun hk => h ⟨hk.symm, addr, rfl⟩
    simp [effect, goto, CallStack.raised, hk]
  | loadRegisters x =>
    show (p.assignFrom 0 _).stack.slots[k]? = _
    rw [assignFrom_stack]
  | _ => rfl

end Processor

namespace Machine

variable {ρ κ γ τ : Type} [Randomizer ρ] [Keyboard κ]

/-- What an instruction leaves as it was, and what is asked of the peripherals, on the way from one machine
to another. -/
structure Footprint (i : Instruction) (m m' : Machine ρ κ γ) : Prop where
  memory : ∀ a, ¬ (m.processor.i.toNat ≤ a ∧ a < m.processor.i.toNat + i.stored) →
    m'.processor.memory[a]? = m.processor.memory[a]?
  depth : (∀ addr, i ≠ .call addr) → i ≠ .ret → m'.processor.stack.depth = m.processor.stack.depth
  slots : ∀ k, ¬ (k = m.processor.stack.depth.toNat ∧ ∃ addr, i = .call addr) →
    m'.processor.stack.slots[k]? = m.processor.stack.slots[k]?
  index : i.pointsIndex = false → m'.processor.i = m.processor.i
  delay : (∀ x, i ≠ .setDelay x) → m'.processor.delay = m.processor.delay
  sound : (∀ x, i ≠ .setSound x) → m'.processor.sound = m.processor.sound
  registers : ∀ r, ¬ i.Writes r → m'.processor.v[r]? = m.processor.v[r]?
  screen : i.draws = false → m'.screen = m.screen
  /-- One byte is drawn for a random number, and none otherwise. -/
  randomizer : m'.randomizer = match i with
    | .random .. => (Randomizer.nextByte m.randomizer).2
    | _ => m.randomizer
  /-- One wait is entered to await a key, and none otherwise. -/
  keyboard : m'.keyboard = match i with
    | .awaitKey _ => (Keyboard.awaitPress m.keyboard).2
    | .skipKeyDown x | .skipKeyUp x => (Keyboard.isDown m.keyboard (m.processor.value x)).2
    | _ => m.keyboard
  clock : m'.clock = m.clock

variable {m m' : Machine ρ κ γ} {i : Instruction}

theorem effect_registers {r : Nat} (h : ¬ i.Writes r) :
    (m.effect i).processor.v[r]? = m.processor.v[r]? := by
  cases i with
  | random x | awaitKey x => exact Processor.getElem?_assign (Instruction.ne_of_destination h rfl) _ _
  | draw => exact Processor.getElem?_assign (Instruction.ne_of_reports h rfl) _ _
  | clear | skipKeyDown | skipKeyUp => rfl
  | _ => exact Processor.effect_registers h

/-- The screen and the peripherals have a say in nothing of the processor but a register and the program
counter. -/
theorem effect_processor (m : Machine ρ κ γ) (i : Instruction) :
    ∃ v pc, (m.effect i).processor = { m.processor.effect i with v, pc } := by
  cases i <;> exact ⟨_, _, rfl⟩

theorem effect_footprint (m : Machine ρ κ γ) (i : Instruction) : Footprint i m (m.effect i) where
  memory a h := by
    obtain ⟨v, pc, hp⟩ := effect_processor m i
    rw [hp]
    exact Processor.effect_memory h
  depth hc hr := congrArg CallStack.depth (effect_stack hc hr)
  slots k h := by
    obtain ⟨v, pc, hp⟩ := effect_processor m i
    rw [hp]
    exact Processor.effect_slots h
  index h := by
    obtain ⟨v, pc, hp⟩ := effect_processor m i
    rw [hp]
    exact Processor.effect_index h
  delay h := by
    have hcount := effect_count m i .delay
    cases i with
    | setDelay x => exact absurd rfl (h x)
    | _ => exact hcount
  sound h := by
    have hcount := effect_count m i .sound
    cases i with
    | setSound x => exact absurd rfl (h x)
    | _ => exact hcount
  registers r := effect_registers
  screen h := effect_screen h m
  randomizer := by cases i <;> rfl
  keyboard := by cases i <;> rfl
  clock := effect_clock m i

/-- An instruction that succeeds has had its effect, whatever the machine was like. -/
theorem eq_effect_of_execute (hi : i.InRange) (h : execute i m = .ok () m') : m' = m.effect i := by
  rw [execute_eq_halt hi] at h
  cases hh : m.halt i with
  | some e =>
    rw [hh] at h
    cases h
  | none =>
    rw [hh] at h
    cases h
    rfl

variable [LE τ] [Timescale τ] [Clock γ τ]

/-- A cycle that succeeds carries out the instruction at the program counter and serves the timers. -/
theorem execute_of_cycle (h : cycle m = .ok () m') :
    ∃ i m₁, m.pending = .ok i ∧ i.InRange ∧ execute i m = .ok () m₁ ∧ m' = m₁.timed := by
  cases hp : m.pending with
  | error f =>
    rw [cycle_eq_error hp] at h
    cases h
  | ok i =>
    have hi := (Instruction.readFrom_of_decode (decode_of_pending hp)).inRange
    have he := execute_eq_halt (m := m) hi
    rw [cycle_eq_halt hp] at h
    cases hh : m.halt i with
    | some e =>
      rw [hh] at h
      cases h
    | none =>
      rw [hh] at h he
      cases h
      exact ⟨i, m.effect i, rfl, hi, he, rfl⟩

/-- An instruction that succeeds stays within its footprint, and a cycle adds to it no more than a tick of
the timers. -/
theorem changes_stay_in_footprint (m m' : Machine ρ κ γ) :
    (∀ i, i.Decoded → execute i m = .ok () m' → Footprint i m m') ∧
      (cycle m = .ok () m' → ∃ i m₁ clock, m.pending = .ok i ∧ execute i m = .ok () m₁ ∧
        Footprint i m m₁ ∧ (m' = { m₁ with clock } ∨ m' = { m₁ with clock }.onto Processor.ticked)) := by
  constructor
  · intro i hi h
    rw [eq_effect_of_execute hi.inRange h]
    exact effect_footprint m i
  · intro h
    obtain ⟨i, m₁, hp, hi, he, rfl⟩ := execute_of_cycle h
    have hf : Footprint i m m₁ := by
      rw [eq_effect_of_execute hi he]
      exact effect_footprint m i
    obtain ⟨clock, ht⟩ | ⟨clock, ht⟩ := timed_cases m₁
    · exact ⟨i, m₁, clock, hp, he, hf, .inl ht⟩
    · exact ⟨i, m₁, clock, hp, he, hf, .inr ht⟩

/-- Storing all registers over the program that is running, and awaiting the key that is pressed next. -/
theorem store_over_program_in_footprint :
    let m : Machine ByteCycle KeyQueue CycleClock :=
      { processor := { Processor.initial with
          i := 0x200, memory := Memory.initial.patch 0x200 [0xF5, 0x0A] },
        randomizer := {}, keyboard := { presses := [7] }, clock := {} }
    (∃ m', Instruction.Decoded (.storeRegisters 15) ∧ execute (.storeRegisters 15) m = .ok () m' ∧
      Footprint (.storeRegisters 15) m m') ∧
    ∃ m', cycle m = .ok () m' ∧ ∃ i m₁ clock, m.pending = .ok i ∧ execute i m = .ok () m₁ ∧
      Footprint i m m₁ ∧ (m' = { m₁ with clock } ∨ m' = { m₁ with clock }.onto Processor.ticked) := by
  intro m
  have hd : Instruction.Decoded (.storeRegisters 15) := ⟨0xFF55, by decide⟩
  have he : execute (.storeRegisters 15) m = .ok () (m.effect (.storeRegisters 15)) :=
    execute_eq_halt hd.inRange
  have hp : m.pending = .ok (.awaitKey 5) := by decide +kernel
  have hc : cycle m = .ok () (m.effect (.awaitKey 5)).timed := cycle_eq_halt hp
  exact ⟨⟨_, hd, he, (changes_stay_in_footprint m _).1 _ hd he⟩,
    _, hc, (changes_stay_in_footprint m _).2 hc⟩

end Machine

end ChipEight
