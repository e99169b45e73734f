import ChipEight.Peripheral.Scripted
import ChipEight.Peripheral.Standalone
import ChipEight.Proofs.Cycle

/-! Calls that fail leave the machine alone. The one trace that a failure can leave is in the keyboard,
which has been asked by a wait that came to nothing. -/
namespace ChipEight

/-- What can be asked of a machine. -/
inductive Call
  | cycle
  | execute (i : { i : Instruction // i.Decoded })
  | load (rom : List UInt8)
  | loadFrom (source : List Rom.Delivery)

variable {ρ κ γ τ : Type}

def Call.perform [Randomizer ρ] [Keyboard κ] [LE τ] [Timescale τ] [Clock γ τ] :
    Call → Machine.Step ρ κ γ Unit
  | .cycle => Machine.cycle
  | .execute i => Machine.execute i.val
  | .load rom => Machine.load rom
  | .loadFrom source => Machine.loadFrom source

/-- The failures of a machine `m`, each with the machine that it leaves. -/
inductive Machine.Spared (m : Machine ρ κ γ) : Halt → Machine ρ κ γ → Prop
  | same (f : Fault) : m.Spared (.fault f) m
  | asked (keyboard : κ) : m.Spared (.fault .inputClosed) { m with keyboard }

namespace Machine

variable {m m' : Machine ρ κ γ} {e : Halt}

theorem Spared.screen_eq (h : m.Spared e m') :
    m'.screen = m.screen := by
  cases h <;> rfl

theorem Spared.processor_eq (h : m.Spared e m') : m'.processor = m.processor := by
  cases h <;> rfl

theorem refused_spared [Keyboard κ] {i : Instruction} {f : Fault} (h : m.refusal i = some f) :
    m.Spared (.fault f) (m.refused i) := by
  cases i with
  | awaitKey x =>
    by_cases hn : (Keyboard.awaitPress m.keyboard).1 = none
    · cases (if_pos hn).symm.trans h
      exact .asked _
    · cases (if_neg hn).symm.trans h
  | _ => exact .same f

theorem load_spared [Clock γ τ] {rom : List UInt8} (h : load rom m = .error e m') : m.Spared e m' := by
  rw [load_apply] at h
  obtain ⟨f, hf, rfl, rfl⟩ := answer_eq_error h
  exact .same f

theorem loadFrom_spared [Clock γ τ] {source : List Rom.Delivery} (h : loadFrom source m = .error e m') :
    m.Spared e m' := by
  unfold loadFrom at h
  obtain ⟨rom, hr⟩ | ⟨cause, hr⟩ := Rom.readAll_cases source
  · rw [hr, checked_ok, bind_ok (pure_apply rom m)] at h
    exact load_spared h
  · rw [hr] at h
    cases h
    exact .same _

variable [Randomizer ρ] [Keyboard κ]

theorem execute_spared {i : Instruction} (hi : i.InRange)
    (hd : m.processor.stack.depth.toNat ≤ stackDepth) (h : execute i m = .error e m') : m.Spared e m' := by
  rw [execute_eq hi hd] at h
  obtain ⟨f, hf, rfl, rfl⟩ := answer_eq_error h
  exact refused_spared hf

variable [LE τ] [Timescale τ] [Clock γ τ]

theorem cycle_spared (hd : m.processor.stack.depth.toNat ≤ stackDepth) (h : cycle m = .error e m') :
    m.Spared e m' := by
  obtain ⟨f, rfl, ⟨-, rfl⟩ | ⟨i, -, hf, rfl⟩⟩ := cycle_of_error hd h
  · exact .same f
  · exact refused_spared hf

theorem perform_spared (hd : m.processor.stack.depth.toNat ≤ stackDepth) {c : Call}
    (h : c.perform m = .error e m') : m.Spared e m' := by
  cases c with
  | cycle => exact cycle_spared hd h
  | execute i => exact execute_spared i.property.inRange hd h
  | load rom => exact load_spared h
  | loadFrom source => exact loadFrom_spared h

/-- A call that fails does so with a fault. It leaves the processor, the screen, the randomizer and the
clock as they were, and unless it waited for a key also the keyboard. -/
theorem failed_call_keeps_machine (hd : m.processor.stack.depth.toNat ≤ stackDepth) {c : Call}
    (h : c.perform m = .error e m') :
    (∃ f, e = .fault f) ∧ m'.processor = m.processor ∧ m'.screen = m.screen ∧
      m'.randomizer = m.randomizer ∧ m'.clock = m.clock ∧ (e ≠ .fault .inputClosed → m' = m) := by
  cases perform_spared hd h with
  | same f => exact ⟨⟨f, rfl⟩, rfl, rfl, rfl, rfl, fun _ => rfl⟩
  | asked keyboard => exact ⟨⟨.inputClosed, rfl⟩, rfl, rfl, rfl, rfl, fun hne => absurd rfl hne⟩

/-- Storing all registers six bytes before the end of memory stores none of them. -/
theorem failed_store_keeps_machine :
    let m : Machine ByteCycle KeyQueue CycleClock :=
      { processor := { Processor.initial with i := 4090, v := Vector.replicate _ 7 },
        randomizer := {}, keyboard := {}, clock := {} }
    let c : Call := .execute ⟨.storeRegisters 15, 0xFF55, by decide⟩
    m.processor.stack.depth.toNat ≤ stackDepth ∧
      ∃ m', c.perform m = .error (.fault (.outOfBounds 4096)) m' ∧ m' = m := by
  intro m c
  have hd : m.processor.stack.depth.toNat ≤ stackDepth := by decide
  have hr : (Instruction.storeRegisters 15).InRange := show 15 < 16 by decide
  have h : c.perform m = .error (.fault (.outOfBounds 4096)) m := execute_eq hr hd
  obtain ⟨-, -, -, -, -, hsame⟩ := failed_call_keeps_machine hd h
  exact ⟨hd, m, h, hsame (by decide)⟩

end Machine

end ChipEight
