import ChipEight.Peripheral.Scripted
import ChipEight.Peripheral.Standalone
import ChipEight.Proofs.Cycle

/-! When a cycle fails, and with which fault. Every failure can be told beforehand, from the word at the
program counter, the two registers that hold addresses, the depth of the stack and the keyboard. -/
namespace ChipEight

namespace Instruction

/-- How many bytes at the index register an instruction accesses, if it does. -/
def accesses : Instruction → Option Nat
  | .draw _ _ n => some n.toNat
  | .storeDecimal _ => some 3
  | .storeRegisters x | .loadRegisters x => some (x + 1)
  | _ => none

/-- How many bytes at the index register the instruction of a word accesses, if it does. -/
def reach (w : UInt16) : Option Nat :=
  let n := w.toNat
  if n / 0x1000 = 0xD then some (n % 0x10)
  else if n / 0x1000 = 0xF ∧ n % 0x100 = 0x33 then some 3
  else if n / 0x1000 = 0xF ∧ (n % 0x100 = 0x55 ∨ n % 0x100 = 0x65) then some (n / 0x100 % 0x10 + 1)
  else none

theorem reach_of_family {w : UInt16} (hd : w.toNat / 0x1000 ≠ 0xD) (hf : w.toNat / 0x1000 ≠ 0xF) :
    reach w = none := by
  simp only [reach, hd, hf, if_false, false_and]

theorem reach_of_selector {w : UInt16} (h : w.toNat / 0x1000 = 0xF) :
    reach w = if w.toNat % 0x100 = 0x33 then some 3
      else if w.toNat % 0x100 = 0x55 ∨ w.toNat % 0x100 = 0x65 then some (w.toNat / 0x100 % 0x10 + 1)
      else none := by
  simp [reach, h]

variable {i : Instruction} {w : UInt16}

theorem ReadFrom.toNat_rows {x y : Nat} {n : UInt8} (h : (draw x y n).ReadFrom w) :
    n.toNat = w.toNat % 0x10 := by
  obtain ⟨⟨hx, hy, hn⟩, he⟩ := h
  have hn : n.toNat < 16 := UInt8.lt_iff_toNat_lt.1 hn
  simp only [encode, looksAt, word, UInt16.toNat_ofNat'] at he
  omega

theorem ReadFrom.addr_eq {addr : UInt16} (h : (sys addr).ReadFrom w) : addr = w := by
  have he := h.toNat_encode
  simp only [encode, looksAt, withAddress, UInt16.toNat_ofNat'] at he
  have ha := addr.toNat_lt
  exact UInt16.toNat_inj.1 (by omega)

/-- The bytes an instruction accesses can be told from its word. -/
theorem ReadFrom.reach_eq (h : i.ReadFrom w) : reach w = i.accesses := by
  have hf := h.family_eq
  cases i with
  | draw x y n =>
    have hd : w.toNat / 0x1000 = 0xD := hf
    rw [reach, if_pos hd, accesses, h.toNat_rows]
  | readDelay x | awaitKey x | setDelay x | setSound x | addIndex x | fontSprite x | storeDecimal x
  | storeRegisters x | loadRegisters x =>
    obtain ⟨hs, hx⟩ := h.selector_eq rfl
    rw [reach_of_selector hf, hs, hx]
    rfl
  | _ => exact reach_of_family (by rw [hf]; simp [family]) (by rw [hf]; simp [family])

end Instruction

namespace Machine

variable {ρ κ γ : Type} [Keyboard κ]

/-- Why a word at the program counter is refused, if it is an instruction. -/
def wordFault (m : Machine ρ κ γ) (w : UInt16) : Option Fault :=
  let p := m.processor
  if w.toNat < 0x1000 ∧ w ≠ 0x00E0 ∧ w ≠ 0x00EE then some (.machineCode w p.pc)
  else if w = 0x00EE ∧ p.stack.depth = 0 then some (.stackUnderflow p.pc)
  else if w.toNat / 0x1000 = 0x2 ∧ p.stack.depth = 16 then some (.stackOverflow p.pc)
  else if ∃ n ∈ Instruction.reach w, memorySize < p.i.toNat + n then
    some (.outOfBounds (max p.i.toNat memorySize))
  else if (w.toNat / 0x1000 = 0xF ∧ w.toNat % 0x100 = 0x0A) ∧
      (Keyboard.awaitPress m.keyboard).1 = none then some .inputClosed
  else none

theorem wordFault_of_family {m : Machine ρ κ γ} {w : UInt16} (h0 : w.toNat / 0x1000 ≠ 0)
    (h2 : w.toNat / 0x1000 ≠ 2) : m.wordFault w =
      if ∃ n ∈ Instruction.reach w, memorySize < m.processor.i.toNat + n then
        some (.outOfBounds (max m.processor.i.toNat memorySize))
      else if (w.toNat / 0x1000 = 0xF ∧ w.toNat % 0x100 = 0x0A) ∧
        (Keyboard.awaitPress m.keyboard).1 = none then some .inputClosed
      else none := by
  have hlt : ¬ w.toNat < 0x1000 := by omega
  have hne : w ≠ 0x00EE := by
    rintro rfl
    exact h0 rfl
  simp [wordFault, hlt, hne, h2]

/-- The refusal of an instruction can be told from its word. -/
theorem wordFault_eq {m : Machine ρ κ γ} {w : UInt16} {i : Instruction}
    (hd : m.processor.stack.depth.toNat ≤ stackDepth) (h : Instruction.decode w = some i) :
    m.wordFault w = m.refusal i := by
  have hrf := Instruction.readFrom_of_decode h
  have hf := hrf.family_eq
  cases i with
  | sys addr =>
    obtain ⟨hclear, hret⟩ := Instruction.ne_of_decode_sys h
    have hlt : w.toNat < 0x1000 := by
      simp only [Instruction.family] at hf
      omega
    rw [wordFault, if_pos ⟨hlt, hclear, hret⟩, ← hrf.addr_eq]
    rfl
  | clear =>
    have hw : w = 0x00E0 := UInt16.toNat_inj.1 hrf.toNat_encode.symm
    subst hw
    have hr : Instruction.reach 0x00E0 = none := hrf.reach_eq
    show m.wordFault 0x00E0 = none
    simp [wordFault, hr]
  | ret =>
    have hw : w = 0x00EE := UInt16.toNat_inj.1 hrf.toNat_encode.symm
    subst hw
    have hr : Instruction.reach 0x00EE = none := hrf.reach_eq
    show m.wordFault 0x00EE = m.processor.stack.popFault m.processor.pc
    simp [wordFault, hr, CallStack.popFault]
  | call addr =>
    have hlt : ¬ w.toNat < 0x1000 := by
      simp only [Instruction.family] at hf
      omega
    have hne : w ≠ 0x00EE := by
      rintro rfl
      simp [Instruction.family] at hf
    have hroom : m.processor.stack.depth.toNat < stackDepth ↔ ¬ m.processor.stack.depth = 16 := by
      rw [← UInt8.toNat_inj]
      exact ⟨Nat.ne_of_lt, fun hne => Nat.lt_of_le_of_ne hd hne⟩
    have h2 : w.toNat / 0x1000 = 0x2 := hf
    have hr : Instruction.reach w = none := hrf.reach_eq
    show m.wordFault w = m.processor.stack.pushFault m.processor.pc
    simp [wordFault, hlt, hne, h2, hr, hroom, CallStack.pushFault]
  | draw x y n =>
    have hd : w.toNat / 0x1000 = 0xD := hf
    have hr : Instruction.reach w = some n.toNat := hrf.reach_eq
    show m.wordFault w = Memory.outside m.processor.i.toNat n.toNat
    simp [wordFault_of_family, hd, hr, Memory.outside_eq]
  | storeDecimal x =>
    obtain ⟨hs, -⟩ := hrf.selector_eq rfl
    have hF : w.toNat / 0x1000 = 0xF := hf
    have hr : Instruction.reach w = some 3 := hrf.reach_eq
    show m.wordFault w = Memory.outside m.processor.i.toNat 3
    simp [wordFault_of_family, hF, hs, hr, Memory.outside_eq]
  | storeRegisters x | loadRegisters x =>
    obtain ⟨hs, -⟩ := hrf.selector_eq rfl
    have hF : w.toNat / 0x1000 = 0xF := hf
    have hr : Instruction.reach w = some (x + 1) := hrf.reach_eq
    show m.wordFault w = Memory.outside m.processor.i.toNat (x + 1)
    simp [wordFault_of_family, hF, hs, hr, Memory.outside_eq]
  | awaitKey x =>
    obtain ⟨hs, -⟩ := hrf.selector_eq rfl
    have hF : w.toNat / 0x1000 = 0xF := hf
    have hr : Instruction.reach w = none := hrf.reach_eq
    show m.wordFault w = if (Keyboard.awaitPress m.keyboard).1 = none then some .inputClosed else none
    simp [wordFault_of_family, hF, hs, hr]
  | readDelay x | setDelay x | setSound x | addIndex x | fontSprite x =>
    obtain ⟨hs, -⟩ := hrf.selector_eq rfl
    have hF : w.toNat / 0x1000 = 0xF := hf
    have hr : Instruction.reach w = none := hrf.reach_eq
    show m.wordFault w = none
    simp [wordFault_of_family, hF, hs, hr]
  | _ =>
    have hr : Instruction.reach w = none := hrf.reach_eq
    show m.wordFault w = none
    simp [wordFault_of_family, hf, hr, Instruction.family]

/-- Why a cycle fails: there is nothing to fetch, no instruction there, or one that is refused. -/
def cycleFault (m : Machine ρ κ γ) : Option Fault :=
  let pc := m.processor.pc
  if memorySize < pc.toNat + 2 then some (.outOfBounds (max pc.toNat memorySize))
  else if Instruction.decode m.opcode = none then some (.unrecognised m.opcode pc)
  else m.wordFault m.opcode

theorem cycleFault_of_error {m : Machine ρ κ γ} {f : Fault} (h : m.pending = .error f) :
    m.cycleFault = some f := by
  unfold pending at h
  split at h
  · rename_i hm
    cases h
    exact if_pos hm
  · rename_i hm
    split at h
    · rename_i hn
      cases h
      exact (if_neg hm).trans (if_pos hn)
    · cases h

theorem cycleFault_of_ok {m : Machine ρ κ γ} {i : Instruction}
    (hd : m.processor.stack.depth.toNat ≤ stackDepth) (h : m.pending = .ok i) :
    m.cycleFault = m.refusal i := by
  have hi := decode_of_pending h
  unfold pending at h
  split at h
  · cases h
  · rename_i hm
    have hn : Instruction.decode m.opcode ≠ none := by simp [hi]
    exact ((if_neg hm).trans (if_neg hn)).trans (wordFault_eq hd hi)

variable {τ : Type} [LE τ] [Timescale τ] [Clock γ τ] [Randomizer ρ]

/-- A cycle fails exactly with the fault that the machine shows beforehand, and succeeds if it shows
none. -/
theorem cycle_error_iff (m : Machine ρ κ γ) (hd : m.processor.stack.depth.toNat ≤ stackDepth) :
    (∀ e, (∃ m', cycle m = .error e m') ↔ ∃ f, m.cycleFault = some f ∧ e = .fault f) ∧
      ((∃ m', cycle m = .ok () m') ↔ m.cycleFault = none) := by
  rw [cycle_eq hd]
  cases hp : m.pending with
  | error f => simp [cycleFault_of_error hp, eq_comm]
  | ok i =>
    rw [cycleFault_of_ok hd hp]
    exact ⟨fun e => answer_error_iff, answer_ok_iff.trans (and_iff_left rfl)⟩

/-- A seventeenth call is refused where it stands. -/
theorem cycle_error_of_full_stack :
    let stack : CallStack := { depth := 16 }
    let memory : Memory := Vector.replicate memorySize 0x22
    let m : Machine ByteCycle KeyQueue CycleClock :=
      { processor := { Processor.initial with stack, memory }
        randomizer := {}
        keyboard := {}
        clock := {} }
    stack.depth.toNat ≤ stackDepth ∧ ∃ m', cycle m = .error (.fault (.stackOverflow 0x200)) m' := by
  intro stack memory m
  have hd : stack.depth.toNat ≤ stackDepth := by decide
  have hb (address : Nat) (h : address < memorySize) : memory.byte address = 0x22 := by
    simp [Memory.byte, memory, h]
  have hw : m.opcode = 0x2222 := by
    show memory.wordAt 0x200 = 0x2222
    rw [Memory.wordAt, hb 0x200 (by decide), hb 0x201 (by decide)]
    rfl
  have hf : m.cycleFault = some (.stackOverflow 0x200) := by
    rw [cycleFault, hw]
    rfl
  exact ⟨hd, ((cycle_error_iff m hd).1 _).2 ⟨_, hf, rfl⟩⟩

end Machine

end ChipEight
