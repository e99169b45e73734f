import ChipEight.Proofs.Subroutine
import ChipEight.Proofs.Usage

/-! Where the program counter can get. No address that it is set to comes out of an addition that wraps, so
a program that runs out of memory is stopped there. -/
namespace ChipEight

namespace Machine

variable {ρ κ γ τ : Type} {m m' : Machine ρ κ γ} {i : Instruction}

/-- The program counter is at most the largest sum of an address and a byte, and every return address is
that of an instruction. -/
structure Contained (m : Machine ρ κ γ) : Prop where
  pc_le : m.processor.pc.toNat ≤ 0x10FE
  live_le : ∀ a ∈ m.processor.stack.live, a.toNat ≤ 0xFFE

theorem pc_le_of_pending (hp : m.pending = .ok i) : m.processor.pc.toNat ≤ 0xFFE := by
  have h := pc_add_le_of_pending hp
  rw [memorySize] at h
  omega

theorem new_contained (randomizer : ρ) (keyboard : κ) (clock : γ) :
    (new randomizer keyboard clock).Contained where
  pc_le := (by decide : 0x200 ≤ 0x10FE)
  live_le := by simp [new, Processor.initial]

theorem loaded_contained [Clock γ τ] (m : Machine ρ κ γ) (rom : List UInt8) : (m.loaded rom).Contained where
  pc_le := (by decide : 0x200 ≤ 0x10FE)
  live_le := by simp [loaded, Processor.initial]

variable [Keyboard κ]

/-- Whether the condition of a skip holds. -/
def skips (m : Machine ρ κ γ) : Instruction → Bool
  | .skipEqual x kk => m.processor.value x == kk
  | .skipUnequal x kk => m.processor.value x != kk
  | .skipSame x y => m.processor.value x == m.processor.value y
  | .skipDifferent x y => m.processor.value x != m.processor.value y
  | .skipKeyDown x => (Keyboard.isDown m.keyboard (m.processor.value x)).1
  | .skipKeyUp x => !(Keyboard.isDown m.keyboard (m.processor.value x)).1
  | _ => false

/-- Where an instruction leads, as a number of any size. -/
def target (m : Machine ρ κ γ) : Instruction → Nat
  | .ret => m.processor.stack.top.toNat + 2
  | .jump addr | .call addr => addr.toNat
  | .jumpOffset addr => addr.toNat % 0x1000 + (m.processor.value 0).toNat
  | i => m.processor.pc.toNat + if m.skips i then 4 else 2

section Effect
variable [Randomizer ρ]

/-- An instruction that is not refused leads to its target, up to the size of a word. -/
theorem effect_pc (hr : m.refusal i = none) : (m.effect i).processor.pc = UInt16.ofNat (m.target i) := by
  have hskip (b : Bool) : m.processor.pc + (if b then 4 else 2) =
      UInt16.ofNat (m.processor.pc.toNat + if b then 4 else 2) := by
    cases b <;> simp [UInt16.ofNat_add]
  cases i with
  | sys addr => cases hr
  | ret =>
    show m.processor.stack.top + 2 = _
    simp [target, UInt16.ofNat_add]
  | jump addr | call addr => exact UInt16.ofNat_toNat.symm
  | jumpOffset addr =>
    have hand : (addr &&& 0x0FFF).toNat = addr.toNat % 0x1000 := Pattern.toNat_addr addr
    show (addr &&& 0x0FFF) + (m.processor.value 0).toUInt16 = _
    rw [target, UInt16.ofNat_add, ← hand]
    simp
  | skipEqual | skipUnequal | skipSame | skipDifferent | skipKeyDown | skipKeyUp => exact hskip _
  | loadRegisters x =>
    show (m.processor.assignFrom 0 _).pc + 2 = _
    rw [Processor.assignFrom_eq]
    exact hskip false
  | _ => exact hskip false

end Effect

theorem target_le (hm : m.Sound) (hc : m.Contained) (hp : m.pending = .ok i)
    (hr : m.refusal i = none) : m.target i ≤ 0x10FE := by
  have hi := (Instruction.readFrom_of_decode (decode_of_pending hp)).inRange
  cases i with
  | ret =>
    have hlive := CallStack.live_lowered (CallStack.popFault_eq_none.1 hr) hm.depth
    have htop : m.processor.stack.top.toNat ≤ 0xFFE := by
      apply hc.live_le
      simp [hlive]
    exact Nat.add_le_add_right (Nat.le_trans htop (by decide : 0xFFE ≤ 0x10FC)) 2
  | jump addr | call addr =>
    have haddr : addr.toNat < 0x1000 := UInt16.lt_iff_toNat_lt.1 hi
    show addr.toNat ≤ 0x10FE
    omega
  | jumpOffset addr =>
    have hoffset := (m.processor.value 0).toNat_lt
    show addr.toNat % 0x1000 + (m.processor.value 0).toNat ≤ 0x10FE
    omega
  | _ =>
    have hpc := pc_le_of_pending hp
    show m.processor.pc.toNat + (if _ then 4 else 2) ≤ 0x10FE
    split <;> omega

section Cycle
variable [Randomizer ρ] [LE τ] [Timescale τ] [Clock γ τ]

/-- A cycle that succeeds leads exactly to its target. -/
theorem cycle_pc (hm : m.Sound) (hc : m.Contained) (h : cycle m = .ok () m') :
    ∃ i, m.pending = .ok i ∧ m'.processor.pc.toNat = m.target i ∧ m.target i ≤ 0x10FE := by
  obtain ⟨i, hp, hr, rfl⟩ := cycle_of_ok hm.depth h
  have ht := target_le hm hc hp hr
  refine ⟨i, hp, ?_, ht⟩
  rw [(timed_stack _).2, effect_pc hr, UInt16.toNat_ofNat']
  omega

/-- Only calls put addresses on the stack, each its own. -/
theorem cycle_live (hm : m.Sound) (hc : m.Contained) :
    ∀ a ∈ (endState (cycle m)).processor.stack.live, a.toNat ≤ 0xFFE := by
  have h := passes hm
  generalize hpass : m.passage = passage at h
  cases h with
  | called hd hs =>
    obtain ⟨addr, hp, -⟩ := pending_of_called hpass
    have hpc := pc_le_of_pending hp
    rw [hs, CallStack.live_raised hd]
    simpa [or_imp, forall_and, hpc] using hc.live_le
  | returned hd hs =>
    have hlive := CallStack.live_lowered hd hm.depth
    intro a ha
    rw [hs] at ha
    apply hc.live_le
    simp [hlive, ha]
  | stayed hs =>
    rw [hs]
    exact hc.live_le

theorem cycle_contained (hm : m.Sound) (hc : m.Contained) : (endState (cycle m)).Contained := by
  refine ⟨?_, cycle_live hm hc⟩
  cases h : cycle m with
  | ok u m' =>
    obtain ⟨i, -, hpc, hle⟩ := cycle_pc hm hc h
    exact Nat.le_trans (Nat.le_of_eq hpc) hle
  | error e m' =>
    show m'.processor.pc.toNat ≤ 0x10FE
    rw [(cycle_spared hm.depth h).processor_eq]
    exact hc.pc_le

/-- Whatever is done to a machine short of executing an instruction out of its place. -/
theorem act_contained (hm : m.Sound) (hc : m.Contained) {a : Act}
    (ha : ∀ i, a ≠ .call (.execute i)) : (m.act a).Contained := by
  cases a with
  | takeFrame => exact ⟨hc.pc_le, hc.live_le⟩
  | call c =>
    cases c with
    | cycle => exact cycle_contained hm hc
    | execute i => exact absurd rfl (ha i)
    | load rom | loadFrom source =>
      obtain ⟨-, hdone⟩ | ⟨e, -, hspared⟩ := call_cases hm _
      · generalize m.act _ = m' at hdone ⊢
        cases hdone
        exact loaded_contained m _
      · have hp := hspared.processor_eq
        exact ⟨hp ▸ hc.pc_le, hp ▸ hc.live_le⟩

/-- Whatever is loaded and run, in any order, the program counter stays at `0x10FE` or below, and every
return address at `0xFFE` or below. So each cycle that succeeds goes on at its target with no wrap, and once
the program counter is past the last whole word of memory, no cycle goes on at all. -/
theorem pc_never_wraps (randomizer : ρ) (keyboard : κ) (clock : γ) {acts : List Act}
    (h : ∀ i, .call (.execute i) ∉ acts) :
    let m := (new randomizer keyboard clock).afterActs acts
    m.Contained ∧
      (∀ m', cycle m = .ok () m' →
        ∃ i, m.pending = .ok i ∧ m'.processor.pc.toNat = m.target i ∧ m.target i ≤ 0x10FE) ∧
      (memorySize < m.processor.pc.toNat + 2 →
        cycle m = .error (.fault (.outOfBounds (max m.processor.pc.toNat memorySize))) m) := by
  intro m
  have hnew := new_sound randomizer keyboard clock
  have hm : m.Sound := afterActs_sound hnew acts
  have hc : m.Contained := by
    apply afterActs_keeps hnew (new_contained randomizer keyboard clock)
    intro a ha m hm hc
    exact act_contained hm hc fun i hi => h i (hi ▸ ha)
  refine ⟨hc, fun m' hok => cycle_pc hm hc hok, ?_⟩
  intro hout
  have hp : m.pending = .error (.outOfBounds (max m.processor.pc.toNat memorySize)) := if_pos hout
  rw [cycle_eq hm.depth, hp]

end Cycle

/-- The farthest jump: from the last address by the largest byte, then stopped where it leads. -/
theorem farthest_jump_stopped :
    let start : Machine ByteCycle KeyQueue CycleClock := new {} {} {}
    let acts := [Act.call (.load [0x60, 0xFF, 0xBF, 0xFF]), .call .cycle, .call .cycle]
    (∀ i, .call (.execute i) ∉ acts) ∧ ∃ m, start.afterActs acts = m ∧ m.Contained ∧
      m.processor.pc = 0x10FE ∧ cycle m = .error (.fault (.outOfBounds 0x10FE)) m := by
  intro start acts
  have hacts : ∀ i, .call (.execute i) ∉ acts := by simp [acts]
  have hpc : (start.afterActs acts).processor.pc = 0x10FE := by decide +kernel
  have hall := pc_never_wraps ({} : ByteCycle) ({} : KeyQueue) ({} : CycleClock) hacts
  refine ⟨hacts, _, rfl, ?_⟩
  change _ ∧ _ ∧ (_ → cycle (start.afterActs acts) = _) at hall
  generalize start.afterActs acts = m at hpc hall ⊢
  obtain ⟨hc, -, hout⟩ := hall
  simp only [hpc] at hout
  exact ⟨hc, hpc, hout (by decide)⟩

end Machine

end ChipEight
