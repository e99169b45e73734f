import ChipEight.Proofs.Atomicity

/-! No call ever meets a defect: whatever is called, in whatever order, every register, slot, byte and
pixel that is asked for exists, and every result fits its word. -/
namespace ChipEight

namespace Processor

variable {p : Processor}

theorem effect_depth {i : Instruction} (hd : p.stack.depth.toNat ≤ stackDepth)
    (hr : p.refusal i = none) : (p.effect i).stack.depth.toNat ≤ stackDepth := by
  cases i with
  | ret =>
    have hl := CallStack.toNat_depth_lowered (CallStack.popFault_eq_none.1 hr)
    show p.stack.lowered.depth.toNat ≤ stackDepth
    omega
  | call addr =>
    have hlt := CallStack.pushFault_eq_none.1 hr
    show (p.stack.raised p.pc).depth.toNat ≤ stackDepth
    rw [CallStack.toNat_depth_raised hlt]
    exact hlt
  | loadRegisters x =>
    show (p.assignFrom 0 _).stack.depth.toNat ≤ stackDepth
    rw [assignFrom_stack]
    exact hd
  | _ => exact hd

end Processor

namespace Machine

variable {ρ κ γ τ : Type} {m m' : Machine ρ κ γ}

/-- What every call keeps: no more addresses than slots, and pixels that are off or lit. -/
structure Sound (m : Machine ρ κ γ) : Prop where
  depth : m.processor.stack.depth.toNat ≤ stackDepth
  pixels : m.screen.pixels.Binary

theorem Sound.withKeyboard (hm : m.Sound) (keyboard : κ) : { m with keyboard }.Sound :=
  ⟨hm.depth, hm.pixels⟩

theorem Sound.takeFrame (hm : m.Sound) : m.takeFrame.2.Sound where
  depth := hm.depth
  pixels := by
    rw [Machine.takeFrame, Screen.takeFrame_pixels]
    exact hm.pixels

theorem Spared.sound {e : Halt} (h : m.Spared e m') (hm : m.Sound) : m'.Sound := by
  cases h with
  | same f => exact hm
  | asked keyboard => exact hm.withKeyboard keyboard

theorem loaded_sound [Clock γ τ] (m : Machine ρ κ γ) (rom : List UInt8) : (m.loaded rom).Sound := by
  constructor
  · exact Nat.zero_le stackDepth
  · exact Frame.blank_binary

theorem load_sound [Clock γ τ] {rom : List UInt8} (h : load rom m = .ok () m') : m'.Sound := by
  rw [load_apply] at h
  obtain ⟨-, rfl⟩ := answer_eq_ok h
  exact loaded_sound m rom

theorem loadFrom_sound [Clock γ τ] {source : List Rom.Delivery} (h : loadFrom source m = .ok () m') :
    m'.Sound := by
  unfold loadFrom at h
  obtain ⟨rom, hr⟩ | ⟨cause, hr⟩ := Rom.readAll_cases source
  · rw [hr, checked_ok, bind_ok (pure_apply rom m)] at h
    exact load_sound h
  · rw [hr] at h
    cases h

/-- A result that is no defect, and leaves a sound machine behind. -/
def Safe : EStateM.Result Halt (Machine ρ κ γ) Unit → Prop
  | .ok () m => m.Sound
  | .error (.fault _) m => m.Sound
  | .error (.defect _) _ => False

/-- The machine that a call leaves behind, if it succeeds or not. -/
def endState : EStateM.Result Halt (Machine ρ κ γ) Unit → Machine ρ κ γ
  | .ok _ m => m
  | .error _ m => m

theorem Safe.endState {r : EStateM.Result Halt (Machine ρ κ γ) Unit} (h : Safe r) :
    (endState r).Sound := by
  match r, h with
  | .ok () _, h => exact h
  | .error (.fault _) _, h => exact h

section Effect
variable [Randomizer ρ] [Keyboard κ]

theorem effect_depth {i : Instruction} (hm : m.Sound) (hr : m.refusal i = none) :
    (m.effect i).processor.stack.depth.toNat ≤ stackDepth := by
  cases i with
  | clear | random | draw | skipKeyDown | skipKeyUp | awaitKey => exact hm.depth
  | _ => exact Processor.effect_depth hm.depth hr

theorem effect_pixels (hm : m.Sound) (i : Instruction) : (m.effect i).screen.pixels.Binary := by
  cases i with
  | clear => exact Frame.blank_binary
  | draw x y n => exact Frame.plotAll_binary 0 _ (spriteCells_binary _ _ _) hm.pixels
  | _ => exact hm.pixels

theorem effect_sound {i : Instruction} (hm : m.Sound) (hr : m.refusal i = none) : (m.effect i).Sound :=
  ⟨effect_depth hm hr, effect_pixels hm i⟩

end Effect

section Calls
variable [LE τ] [Timescale τ] [Clock γ τ]

theorem timed_sound (hm : m.Sound) : m.timed.Sound := by
  obtain ⟨clock, h⟩ | ⟨clock, h⟩ := timed_cases m
  · rw [h]
    exact ⟨hm.depth, hm.pixels⟩
  · rw [h]
    exact ⟨hm.depth, hm.pixels⟩

variable [Randomizer ρ] [Keyboard κ]

theorem cycle_sound (hm : m.Sound) (h : cycle m = .ok () m') : m'.Sound := by
  obtain ⟨i, -, hr, rfl⟩ := cycle_of_ok hm.depth h
  exact timed_sound (effect_sound hm hr)

theorem execute_sound {i : Instruction} (hi : i.InRange) (hm : m.Sound) (h : execute i m = .ok () m') :
    m'.Sound := by
  rw [execute_eq hi hm.depth] at h
  obtain ⟨hr, rfl⟩ := answer_eq_ok h
  exact effect_sound hm hr

theorem perform_safe (hm : m.Sound) (c : Call) : Safe (c.perform m) := by
  cases h : c.perform m with
  | ok u m' =>
    cases c with
    | cycle => exact cycle_sound hm h
    | execute i => exact execute_sound i.property.inRange hm h
    | load rom => exact load_sound h
    | loadFrom source => exact loadFrom_sound h
  | error e m' =>
    have hs := perform_spared hm.depth h
    have hm' := hs.sound hm
    cases hs with
    | same f => exact hm'
    | asked keyboard => exact hm'

/-- The results of calls made one after the other, each on the machine that the one before it left. -/
def history (m : Machine ρ κ γ) : List Call → List (EStateM.Result Halt (Machine ρ κ γ) Unit)
  | [] => []
  | c :: rest => c.perform m :: history (endState (c.perform m)) rest

theorem history_safe (hm : m.Sound) (calls : List Call) : ∀ r ∈ history m calls, Safe r := by
  induction calls generalizing m with
  | nil => simp [history]
  | cons c rest ih =>
    have hc := perform_safe hm c
    intro r hr
    rcases List.mem_cons.1 hr with rfl | hr
    · exact hc
    · exact ih hc.endState r hr

/-- A program that fits is loaded, and from then on no call of any kind, successful or not, ends in a
defect; each leaves at most sixteen addresses and pixels that are 0 or 1. -/
theorem load_then_calls_safe (m : Machine ρ κ γ) {rom : List UInt8}
    (h : rom.length ≤ Memory.maxProgramSize) (calls : List Call) :
    (∃ start, load rom m = .ok () start) ∧ ∀ r ∈ history m (.load rom :: calls), Safe r := by
  have hl := load_of_fits h m
  refine ⟨⟨m.loaded rom, hl⟩, ?_⟩
  intro r hr
  have hs : history m (.load rom :: calls) = .ok () (m.loaded rom) :: history (m.loaded rom) calls := by
    show load rom m :: history (endState (load rom m)) calls = _
    rw [hl]
    rfl
  rw [hs] at hr
  rcases List.mem_cons.1 hr with rfl | hr
  · exact loaded_sound m rom
  · exact history_safe (loaded_sound m rom) calls r hr

/-- A program that calls itself until the stack is full, and later one that is too large to be loaded. -/
theorem recursion_safe :
    let m : Machine ByteCycle KeyQueue CycleClock := { randomizer := {}, keyboard := {}, clock := {} }
    let calls := List.replicate 17 Call.cycle ++ [.load (List.replicate 5000 0), .cycle]
    [0x22, 0x00].length ≤ Memory.maxProgramSize ∧
      ∀ r ∈ history m (.load [0x22, 0x00] :: calls), Safe r :=
  ⟨by decide, (load_then_calls_safe _ (by decide) _).2⟩

end Calls

end Machine

end ChipEight
