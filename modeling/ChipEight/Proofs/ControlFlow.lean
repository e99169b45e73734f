import ChipEight.Proofs.Footprint
import ChipEight.Proofs.ProgramCounter
import ChipEight.Session.Worker

/-! Where a cycle goes on, told from the word at the program counter: by its first digit this is a jump, a skip or
neither, and a return is a word of its own. Skips come in pairs with opposite conditions. -/
namespace ChipEight

namespace Instruction.ReadFrom

variable {i : Instruction} {w : UInt16} {x y : Nat}

/-! The operands of an instruction as digits of the word that it was read from. -/

theorem toNat_addr {addr : UInt16} (h : i.ReadFrom w) (he : i.encode = withAddress i.family addr)
    (hl : i.looksAt w = w.toNat) (haddr : addr < 0x1000) : addr.toNat = w.toNat % 0x1000 := by
  have hfamily := h.family_eq
  have hlt : addr.toNat < 0x1000 := UInt16.lt_iff_toNat_lt.1 haddr
  have hw := h.toNat_encode
  rw [he, hl, withAddress, UInt16.toNat_ofNat'] at hw
  omega

theorem register_and_byte {kk : UInt8} (h : i.ReadFrom w) (he : i.encode = withByte i.family x kk)
    (hl : i.looksAt w = w.toNat) (hx : x < 16) : x = w.toNat / 0x100 % 0x10 ∧ kk.toNat = w.toNat % 0x100 := by
  have hfamily := h.family_eq
  have hkk := kk.toNat_lt
  have hlt := w.toNat_lt
  have hw := h.toNat_encode
  rw [he, hl, withByte, UInt16.toNat_ofNat'] at hw
  omega

theorem registers {last : Nat} (h : i.ReadFrom w) (he : i.encode = word i.family x y last)
    (hl : i.looksAt w = w.toNat) (hx : x < 16) (hy : y < 16) (hlast : last < 16) :
    x = w.toNat / 0x100 % 0x10 ∧ y = w.toNat / 0x10 % 0x10 := by
  have hfamily := h.family_eq
  have hlt := w.toNat_lt
  have hw := h.toNat_encode
  rw [he, hl, word, UInt16.toNat_ofNat'] at hw
  omega

theorem eq_ret_word (h : ReadFrom .ret w) : w = 0x00EE := UInt16.toNat_inj.1 h.toNat_encode.symm

end Instruction.ReadFrom

theorem Instruction.ret_of_decode {i : Instruction} (h : Instruction.decode 0x00EE = some i) : i = .ret := by
  have hret : Instruction.decode 0x00EE = some .ret := by decide
  exact Option.some.inj (h.symm.trans hret)

/-- What a skip can depend on. -/
inductive Condition
  | equals (x : Nat) (kk : UInt8)
  | same (x y : Nat)
  | keyDown (x : Nat)
  deriving DecidableEq, Repr

namespace Condition

def skipIf : Condition → Instruction
  | .equals x kk => .skipEqual x kk
  | .same x y => .skipSame x y
  | .keyDown x => .skipKeyDown x

def skipUnless : Condition → Instruction
  | .equals x kk => .skipUnequal x kk
  | .same x y => .skipDifferent x y
  | .keyDown x => .skipKeyUp x

def holds {ρ κ γ : Type} [Keyboard κ] (m : Machine ρ κ γ) : Condition → Bool
  | .equals x kk => m.processor.value x == kk
  | .same x y => m.processor.value x == m.processor.value y
  | .keyDown x => (Keyboard.isDown m.keyboard (m.processor.value x)).1

end Condition

namespace Machine

variable {ρ κ γ τ : Type} {m m' : Machine ρ κ γ} {i : Instruction} {w : UInt16}

/-- Fetching has found a word within memory, and there is no address behind it that wraps. -/
theorem word_of_pending (hp : m.pending = .ok i) : m.processor.memory.word m.processor.pc = .ok m.opcode := by
  rw [Memory.word_eq, if_pos (pc_add_le_of_pending hp)]
  rfl

theorem tickTimers_pc [LE τ] [Timescale τ] [Clock γ τ] (m : Machine ρ κ γ) :
    ∃ ticked m', tickTimers m = .ok ticked m' ∧ m'.processor.pc = m.processor.pc :=
  ⟨_, _, tickTimers_apply m, (timed_stack m).2⟩

variable [Keyboard κ]

/-- Whether a word passes over the one behind it. What it compares are the registers named by its second and third
digit and its lower byte, which for keys tells the two instructions apart. -/
def passesOver (m : Machine ρ κ γ) (w : UInt16) : Bool :=
  let a := m.processor.value (w.toNat / 0x100 % 0x10)
  let b := m.processor.value (w.toNat / 0x10 % 0x10)
  let kk := w.toNat % 0x100
  match w.toNat / 0x1000 with
  | 0x3 => a.toNat == kk
  | 0x4 => a.toNat != kk
  | 0x5 => a == b
  | 0x9 => a != b
  | 0xE => if kk = 0x9E then (Keyboard.isDown m.keyboard a).1 else !(Keyboard.isDown m.keyboard a).1
  | _ => false

/-- Where a word leads, returns left out. -/
def landing (m : Machine ρ κ γ) (w : UInt16) : Nat :=
  match w.toNat / 0x1000 with
  | 0x1 | 0x2 => w.toNat % 0x1000
  | 0xB => w.toNat % 0x1000 + (m.processor.value 0).toNat
  | _ => m.processor.pc.toNat + if m.passesOver w then 4 else 2

theorem passesOver_eq_skips (h : i.ReadFrom w) : m.passesOver w = m.skips i := by
  have hr := h.inRange
  have hf := h.family_eq
  cases i with
  | skipEqual x kk | skipUnequal x kk =>
    obtain ⟨rfl, hkk⟩ := h.register_and_byte rfl rfl hr
    have hsame (a : UInt8) : (a.toNat == kk.toNat) = (a == kk) := by
      rw [Bool.eq_iff_iff, beq_iff_eq, beq_iff_eq, UInt8.toNat_inj]
    simp [passesOver, skips, hf, Instruction.family, ← hkk, bne, hsame]
  | skipSame x y | skipDifferent x y =>
    obtain ⟨rfl, rfl⟩ := h.registers rfl rfl hr.1 hr.2 (by decide)
    simp [passesOver, skips, hf, Instruction.family]
  | skipKeyDown x | skipKeyUp x =>
    obtain ⟨hs, rfl⟩ := h.selector_eq rfl
    simp [passesOver, skips, hf, hs, Instruction.family]
  | _ => simp [passesOver, skips, hf, Instruction.family]

/-- A word leads where its instruction does. -/
theorem landing_eq_target (h : i.ReadFrom w) (hret : i ≠ .ret) : m.landing w = m.target i := by
  have hr := h.inRange
  have hf := h.family_eq
  cases i with
  | ret => exact absurd rfl hret
  | jump addr | call addr =>
    rw [target, h.toNat_addr rfl rfl hr, landing, hf]
    rfl
  | jumpOffset addr =>
    rw [target, h.toNat_addr rfl rfl hr, Nat.mod_mod, landing, hf]
    rfl
  | _ =>
    unfold landing target
    rw [hf, passesOver_eq_skips h]
    rfl

/-- Where a cycle has gone on from `m` if it has led to `m'`, told from the word `w`. -/
structure LeadsTo (m : Machine ρ κ γ) (w : UInt16) (m' : Machine ρ κ γ) : Prop where
  landing_eq : w ≠ 0x00EE → m'.processor.pc.toNat = m.landing w
  /-- A return goes on behind the address that it pops. -/
  popped : w = 0x00EE → ∃ a, m.processor.stack.pop m.processor.pc = .ok (a, m'.processor.stack) ∧
    m'.processor.pc = a + 2

theorem target_lt (hi : i.InRange) (hret : i ≠ .ret) (hp : m.pending = .ok i) : m.target i < UInt16.size := by
  have hpc := pc_le_of_pending hp
  cases i with
  | ret => exact absurd rfl hret
  | jump addr | call addr => exact addr.toNat_lt
  | jumpOffset addr =>
    have hoffset := (m.processor.value 0).toNat_lt
    show addr.toNat % 0x1000 + (m.processor.value 0).toNat < 0x10000
    omega
  | _ =>
    show m.processor.pc.toNat + (if _ then 4 else 2) < 0x10000
    split <;> omega

section Execute
variable [Randomizer ρ]

/-- An instruction that succeeds has not been refused, and a return has found its stack in order. -/
theorem accepted_of_execute (hi : i.InRange) (h : execute i m = .ok () m') :
    m.refusal i = none ∧ (i = .ret → m.processor.stack.depth.toNat ≤ stackDepth) := by
  rw [execute_eq_halt hi] at h
  by_cases hover : i = .ret ∧ stackDepth < m.processor.stack.depth.toNat
  · rw [halt, if_pos hover] at h
    cases h
  · rw [halt, if_neg hover] at h
    refine ⟨?_, fun hret => Nat.not_lt.1 fun hlt => hover ⟨hret, hlt⟩⟩
    cases hr : m.refusal i with
    | none => rfl
    | some f =>
      rw [hr] at h
      cases h

/-- An instruction succeeds, and goes on behind the word that follows it or, if it does not `skip`, at that word. -/
def Skips (m : Machine ρ κ γ) (i : Instruction) (skip : Bool) : Prop :=
  ∃ m', execute i m = .ok () m' ∧ m'.processor.pc = m.processor.pc + if skip then 4 else 2

/-- Of the two skips that a condition has, the one passes over a word when the other does not. -/
theorem skips_opposed (m : Machine ρ κ γ) {c : Condition} (hc : c.skipIf.InRange) :
    m.Skips c.skipIf (c.holds m) ∧ m.Skips c.skipUnless (!c.holds m) := by
  have hc' : c.skipUnless.InRange := by
    cases c with
    | equals | same | keyDown => exact hc
  cases c with
  | equals | same | keyDown =>
    exact ⟨⟨_, execute_accepted hc nofun rfl, rfl⟩, ⟨_, execute_accepted hc' nofun rfl, rfl⟩⟩

section Cycle
variable [LE τ] [Timescale τ] [Clock γ τ]

theorem cycle_leadsTo (h : cycle m = .ok () m') :
    ∃ w, m.processor.memory.word m.processor.pc = .ok w ∧ m.LeadsTo w m' := by
  obtain ⟨i, m₁, hp, hi, he, rfl⟩ := execute_of_cycle h
  obtain ⟨hr, hdepth⟩ := accepted_of_execute hi he
  rw [eq_effect_of_execute hi he]
  have hdecode := decode_of_pending hp
  have hread := Instruction.readFrom_of_decode hdecode
  obtain ⟨hstack, hpc⟩ := timed_stack (m.effect i)
  refine ⟨m.opcode, word_of_pending hp, ?_, ?_⟩
  · intro hw
    have hret : i ≠ .ret := by
      rintro rfl
      exact hw hread.eq_ret_word
    rw [hpc, effect_pc hr, UInt16.toNat_ofNat_of_lt' (target_lt hi hret hp), landing_eq_target hread hret]
  · intro hw
    rw [hw] at hdecode
    obtain rfl := Instruction.ret_of_decode hdecode
    have hpop := CallStack.pop_eq m.processor.pc (hdepth rfl)
    rw [if_neg (CallStack.popFault_eq_none.1 hr)] at hpop
    exact ⟨_, by rw [hpop, hstack]; rfl, by rw [hpc]; rfl⟩

/-- A cycle that succeeds goes on where its word leads, and no tick of the timers changes that. Of two skips with
opposite conditions one passes over a word, whatever the state is; a key that the keypad does not have is up. -/
theorem control_flow_exact (m : Machine ρ κ γ) :
    (∀ m', cycle m = .ok () m' →
      ∃ w, m.processor.memory.word m.processor.pc = .ok w ∧ m.LeadsTo w m') ∧
    (∃ ticked m', tickTimers m = .ok ticked m' ∧ m'.processor.pc = m.processor.pc) ∧
    (∀ c : Condition, c.skipIf.InRange →
      m.Skips c.skipIf (c.holds m) ∧ m.Skips c.skipUnless (!c.holds m)) ∧
    ∀ (n : Machine ρ KeypadView γ) (x : Nat), keyCount ≤ (n.processor.value x).toNat →
      (Condition.keyDown x).holds n = false :=
  ⟨fun _ => cycle_leadsTo, m.tickTimers_pc, fun _ => skips_opposed m, fun n _ => n.keyboard.keypad.isDown_of_le⟩

end Cycle

end Execute

/-- No key has the number thirty-two: the skip for a key that is up passes over a word, the one for a key that is
down does not. -/
theorem missing_key_is_up :
    let m : Machine ByteCycle KeypadView CycleClock :=
      { processor := { Processor.initial with
          v := Vector.replicate _ 32, memory := Memory.initial.patch 0x200 [0xE5, 0xA1] },
        randomizer := {}, keyboard := {}, clock := {} }
    (∃ m', cycle m = .ok () m' ∧ m'.processor.pc.toNat = 0x204) ∧
      m.Skips (.skipKeyUp 5) true ∧ m.Skips (.skipKeyDown 5) false := by
  intro m
  have hp : m.pending = .ok (.skipKeyUp 5) := by decide +kernel
  have hc : cycle m = .ok () (m.effect (.skipKeyUp 5)).timed := cycle_eq_halt hp
  obtain ⟨hcycle, -, hskips, hup⟩ := control_flow_exact m
  have hmissing : (Condition.keyDown 5).holds m = false := hup m 5 (by decide)
  obtain ⟨w, hw, hleads⟩ := hcycle _ hc
  have hword : m.processor.memory.word m.processor.pc = .ok 0xE5A1 := by decide +kernel
  obtain rfl : (0xE5A1 : UInt16) = w := Except.ok.inj (hword.symm.trans hw)
  have hlands := hleads.landing_eq (by decide)
  obtain ⟨hdown, hnot⟩ := hskips (.keyDown 5) (by decide : 5 < 16)
  rw [hmissing] at hdown hnot
  exact ⟨⟨_, hc, hlands⟩, hnot, hdown⟩

end Machine

end ChipEight
