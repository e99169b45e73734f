import ChipEight.Proofs.Effect

/-! Loading and a whole cycle, each as one function of the machine it meets. -/
namespace ChipEight

/-- Why a program is refused for its size. -/
def Rom.sizeFault (rom : List UInt8) : Option Fault :=
  if Memory.maxProgramSize < rom.length then some (.romTooLarge rom.length Memory.maxProgramSize)
  else none

namespace Machine

variable {ρ κ γ τ : Type}

/-- The machine after loading a program that fits. -/
def loaded [Clock γ τ] (m : Machine ρ κ γ) (rom : List UInt8) : Machine ρ κ γ :=
  { m with
    processor :=
      { Processor.initial with memory := Memory.initial.patch Memory.programStart.toNat rom }
    screen := m.screen.clear
    clock := Clock.reset m.clock }

theorem load_apply [Clock γ τ] (rom : List UInt8) (m : Machine ρ κ γ) :
    load rom m = answer (Rom.sizeFault rom) m () (m.loaded rom) := by
  unfold load Rom.sizeFault
  by_cases h : Memory.maxProgramSize < rom.length
  · rw [if_pos h, if_pos h]
    rfl
  · rw [if_neg h, if_neg h]
    have hle : Memory.programStart.toNat + rom.length ≤ memorySize :=
      Nat.add_le_of_le_sub' (by decide) (Nat.le_of_not_lt h)
    have hlt : Memory.programStart.toNat + rom.length < UInt64.size :=
      Nat.lt_of_le_of_lt hle (by decide)
    have hw : (do set Processor.initial; Processor.write Memory.programStart.toNat rom :
        Processor.Step Unit) m.processor = answer none m.processor ()
          { Processor.initial with memory := Memory.initial.patch Memory.programStart.toNat rom } := by
      rw [bind_ok (set_apply _ _), Processor.write_apply hlt, Memory.outside, if_pos hle]
      rfl
    exact bind_ok (onProcessor_ok hw)

theorem load_of_fits [Clock γ τ] {rom : List UInt8} (h : rom.length ≤ Memory.maxProgramSize)
    (m : Machine ρ κ γ) : load rom m = .ok () (m.loaded rom) := by
  rw [load_apply, Rom.sizeFault, if_neg (Nat.not_lt.2 h)]
  rfl

theorem eq_loaded_of_load [Clock γ τ] {rom : List UInt8} {m m' : Machine ρ κ γ}
    (h : load rom m = .ok () m') : m' = m.loaded rom := by
  rw [load_apply] at h
  exact (answer_eq_ok h).2

/-- The word at the program counter. -/
def opcode (m : Machine ρ κ γ) : UInt16 := m.processor.memory.wordAt m.processor.pc.toNat

/-- The instruction at the program counter, or why there is none. -/
def pending (m : Machine ρ κ γ) : Except Fault Instruction :=
  if memorySize < m.processor.pc.toNat + 2 then
    .error (.outOfBounds (max m.processor.pc.toNat memorySize))
  else match Instruction.decode m.opcode with
    | none => .error (.unrecognised m.opcode m.processor.pc)
    | some i => .ok i

def draws (m : Machine ρ κ γ) : Bool :=
  match m.pending with
  | .ok i => i.draws
  | .error _ => false

theorem decode_of_pending {m : Machine ρ κ γ} {i : Instruction} (h : m.pending = .ok i) :
    Instruction.decode m.opcode = some i := by
  unfold pending at h
  split at h
  · cases h
  · split at h
    · cases h
    · rename_i hj
      cases h
      exact hj

theorem pc_add_le_of_pending {m : Machine ρ κ γ} {i : Instruction} (h : m.pending = .ok i) :
    m.processor.pc.toNat + 2 ≤ memorySize := by
  unfold pending at h
  split at h
  · cases h
  · rename_i hm
    exact Nat.not_lt.1 hm

theorem fetch_apply (m : Machine ρ κ γ) : fetch m = match m.pending with
    | .ok i => .ok (m.opcode, i) m
    | .error f => .error (.fault f) m := by
  rw [fetch, bind_ok (get_apply m), Memory.word_eq]
  unfold pending opcode
  by_cases hm : m.processor.pc.toNat + 2 ≤ memorySize
  · rw [if_pos hm, if_neg (Nat.not_lt.2 hm), checked_ok, bind_ok (pure_apply _ m)]
    cases Instruction.decode (m.processor.memory.wordAt m.processor.pc.toNat) <;> rfl
  · rw [if_neg hm, if_pos (Nat.lt_of_not_le hm)]
    rfl

section Timers
variable [LE τ] [Timescale τ] [Clock γ τ]

/-- The machine after a look at the clock, and a tick of the timers if it is due. -/
def timed (m : Machine ρ κ γ) : Machine ρ κ γ :=
  let (elapsed, clock) := Clock.elapsed m.clock
  if elapsed ≤ Timescale.period then { m with clock }
  else { m with clock := Clock.reset clock }.onto Processor.ticked

theorem timed_cases (m : Machine ρ κ γ) :
    (∃ clock, m.timed = { m with clock }) ∨
      ∃ clock, m.timed = { m with clock }.onto Processor.ticked := by
  unfold timed
  by_cases h : (Clock.elapsed m.clock).1 ≤ Timescale.period
  · exact .inl ⟨_, if_pos h⟩
  · exact .inr ⟨_, if_neg h⟩

theorem timed_processor (m : Machine ρ κ γ) :
    m.timed.processor = if (Clock.elapsed m.clock).1 ≤ Timescale.period then m.processor
      else m.processor.ticked := by
  unfold timed
  by_cases h : (Clock.elapsed m.clock).1 ≤ Timescale.period
  · simp [h]
  · simp [h, onto]

theorem timed_screen (m : Machine ρ κ γ) : m.timed.screen = m.screen := by
  obtain ⟨clock, h⟩ | ⟨clock, h⟩ := timed_cases m
  · rw [h]
  · rw [h]
    rfl

theorem tickTimers_apply (m : Machine ρ κ γ) :
    tickTimers m = .ok (decide ¬ (Clock.elapsed m.clock).1 ≤ Timescale.period) m.timed := by
  rw [tickTimers, bind_ok (modifyGet_apply _ m), timed]
  by_cases h : (Clock.elapsed m.clock).1 ≤ Timescale.period
  · simp [h]
  · rw [if_neg h, bind_ok (modify_apply _ _), bind_ok (onProcessor_ok (Processor.tick_apply _))]
    simp [h, onto]

variable [Randomizer ρ] [Keyboard κ]

/-- A cycle fails and leaves the machine alone, or has the effect of its instruction and serves the
timers. -/
theorem cycle_eq {m : Machine ρ κ γ} (hd : m.processor.stack.depth.toNat ≤ stackDepth) :
    cycle m = match m.pending with
      | .error f => .error (.fault f) m
      | .ok i => answer (m.refusal i) (m.refused i) () (m.effect i).timed := by
  rw [cycle, bind_apply, fetch_apply]
  cases hp : m.pending with
  | error f => rfl
  | ok i =>
    have he := execute_eq (Instruction.readFrom_of_decode (decode_of_pending hp)).inRange hd
    show (execute i >>= fun _ => _) m = _
    rw [bind_answer he, bind_ok (tickTimers_apply _)]
    rfl

def succeeds (m : Machine ρ κ γ) : Prop := ∃ m', cycle m = .ok () m'

variable {m m' : Machine ρ κ γ}

theorem succeeds_iff (hd : m.processor.stack.depth.toNat ≤ stackDepth) {i : Instruction}
    (hp : m.pending = .ok i) : m.succeeds ↔ m.refusal i = none := by
  rw [succeeds, cycle_eq hd, hp]
  exact answer_ok_iff.trans (and_iff_left rfl)

theorem cycle_of_ok (hd : m.processor.stack.depth.toNat ≤ stackDepth) (h : cycle m = .ok () m') :
    ∃ i, m.pending = .ok i ∧ m.refusal i = none ∧ m' = (m.effect i).timed := by
  rw [cycle_eq hd] at h
  cases hp : m.pending with
  | error f =>
    rw [hp] at h
    cases h
  | ok i =>
    rw [hp] at h
    exact ⟨i, rfl, answer_eq_ok h⟩

theorem cycle_of_error (hd : m.processor.stack.depth.toNat ≤ stackDepth) {e : Halt}
    (h : cycle m = .error e m') :
    ∃ f, e = .fault f ∧ (m.pending = .error f ∧ m' = m ∨
      ∃ i, m.pending = .ok i ∧ m.refusal i = some f ∧ m' = m.refused i) := by
  rw [cycle_eq hd] at h
  cases hp : m.pending with
  | error f =>
    rw [hp] at h
    cases h
    exact ⟨f, rfl, .inl ⟨rfl, rfl⟩⟩
  | ok i =>
    rw [hp] at h
    obtain ⟨f, hf, he, hm⟩ := answer_eq_error h
    exact ⟨f, he, .inr ⟨i, rfl, hf, hm⟩⟩

/-- Clearing and drawing mark the screen, and nothing else changes it. -/
theorem cycle_screen (hd : m.processor.stack.depth.toNat ≤ stackDepth) (h : cycle m = .ok () m') :
    m'.screen.dirty = (m.screen.dirty || m.draws) ∧ (m.draws = false → m'.screen = m.screen) := by
  obtain ⟨i, hp, -, rfl⟩ := cycle_of_ok hd h
  rw [timed_screen, draws, hp]
  cases hi : i.draws with
  | true => simp [hi, effect_dirty]
  | false => simp [hi, effect_screen]

/-- A cycle that finds the input closed has waited for a key. -/
theorem cycle_inputClosed (hd : m.processor.stack.depth.toNat ≤ stackDepth)
    (h : cycle m = .error (.fault .inputClosed) m') :
    (∃ x, m.pending = .ok (.awaitKey x)) ∧ (Keyboard.awaitPress m.keyboard).1 = none := by
  obtain ⟨f, he, ⟨hp, -⟩ | ⟨i, hp, hf, -⟩⟩ := cycle_of_error hd h
  · cases he
    unfold pending at hp
    split at hp
    · cases hp
    · split at hp <;> cases hp
  · cases he
    obtain ⟨⟨x, rfl⟩, hn⟩ := refusal_inputClosed hf
    exact ⟨⟨x, hp⟩, hn⟩

/-- A wait that gets no answer. -/
theorem cycle_of_unanswered {x : Nat} (hp : m.pending = .ok (.awaitKey x))
    (hn : (Keyboard.awaitPress m.keyboard).1 = none) :
    cycle m = .error (.fault .inputClosed) { m with keyboard := (Keyboard.awaitPress m.keyboard).2 } := by
  have he : (execute (.awaitKey x) : Step ρ κ γ Unit) m =
      .error (.fault .inputClosed) { m with keyboard := (Keyboard.awaitPress m.keyboard).2 } := by
    rw [execute, bind_apply, awaitPress, bind_ok (modifyGet_apply _ m), hn]
    rfl
  rw [cycle, bind_apply, fetch_apply, hp]
  show (execute (.awaitKey x) >>= fun _ => _) m = _
  rw [bind_apply, he]

end Timers

end Machine

end ChipEight
