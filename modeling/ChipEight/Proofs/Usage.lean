import ChipEight.Proofs.Soundness
import Mathlib.Data.List.Induction

/-! A machine in use: calls of every kind, and frames taken between them, in any order. Each act finds the
machine that the one before it left, whether that one succeeded or not. -/
namespace ChipEight

/-- What is done to a machine from outside. -/
inductive Act
  | call (c : Call)
  | takeFrame

namespace Machine

variable {ρ κ γ τ : Type} {m m' : Machine ρ κ γ}

/-- A machine to which nothing has been done. -/
def new (randomizer : ρ) (keyboard : κ) (clock : γ) : Machine ρ κ γ := { randomizer, keyboard, clock }

theorem new_sound (randomizer : ρ) (keyboard : κ) (clock : γ) : (new randomizer keyboard clock).Sound :=
  ⟨Nat.zero_le stackDepth, Frame.blank_binary⟩

section Done
variable [LE τ] [Timescale τ] [Clock γ τ] [Randomizer ρ] [Keyboard κ]

/-- The calls to a machine `m` that succeed, each with the machine that it leaves. -/
inductive Done (m : Machine ρ κ γ) : Call → Machine ρ κ γ → Prop
  | cycled {i : Instruction} (pending : m.pending = .ok i) (accepted : m.refusal i = none) :
      m.Done .cycle (m.effect i).timed
  | executed (i : { i : Instruction // i.Decoded }) (accepted : m.refusal i.val = none) :
      m.Done (.execute i) (m.effect i.val)
  | loaded (rom : List UInt8) : m.Done (.load rom) (m.loaded rom)
  | loadedFrom (source : List Rom.Delivery) (rom : List UInt8) : m.Done (.loadFrom source) (m.loaded rom)

theorem perform_done (hm : m.Sound) {c : Call} (h : c.perform m = .ok () m') : m.Done c m' := by
  cases c with
  | cycle =>
    obtain ⟨i, hp, hr, rfl⟩ := cycle_of_ok hm.depth h
    exact .cycled hp hr
  | execute i =>
    have he : execute i.val m = .ok () m' := h
    rw [execute_eq i.property.inRange hm.depth] at he
    obtain ⟨hr, rfl⟩ := answer_eq_ok he
    exact .executed i hr
  | load rom =>
    rw [eq_loaded_of_load h]
    exact .loaded rom
  | loadFrom source =>
    have hl : loadFrom source m = .ok () m' := h
    unfold loadFrom at hl
    obtain ⟨rom, hr⟩ | ⟨cause, hr⟩ := Rom.readAll_cases source
    · rw [hr, checked_ok, bind_ok (pure_apply rom m)] at hl
      rw [eq_loaded_of_load hl]
      exact .loadedFrom source rom
    · rw [hr] at hl
      cases hl

/-- The machine after an act, whether it succeeds or not. -/
def act (m : Machine ρ κ γ) : Act → Machine ρ κ γ
  | .call c => endState (c.perform m)
  | .takeFrame => m.takeFrame.2

def afterActs (m : Machine ρ κ γ) (acts : List Act) : Machine ρ κ γ := acts.foldl act m

@[simp] theorem afterActs_nil (m : Machine ρ κ γ) : m.afterActs [] = m := rfl

@[simp] theorem afterActs_concat (m : Machine ρ κ γ) (acts : List Act) (a : Act) :
    m.afterActs (acts ++ [a]) = (m.afterActs acts).act a := by
  simp [afterActs]

/-- A call succeeds or leaves no trace but in the keyboard. -/
theorem call_cases (hm : m.Sound) (c : Call) :
    (c.perform m = .ok () (m.act (.call c)) ∧ m.Done c (m.act (.call c))) ∨
      ∃ e, c.perform m = .error e (m.act (.call c)) ∧ m.Spared e (m.act (.call c)) := by
  show (c.perform m = .ok () (endState (c.perform m)) ∧ m.Done c (endState (c.perform m))) ∨
    ∃ e, c.perform m = .error e (endState (c.perform m)) ∧ m.Spared e (endState (c.perform m))
  cases h : c.perform m with
  | ok u m' => exact .inl ⟨rfl, perform_done hm h⟩
  | error e m' => exact .inr ⟨e, rfl, perform_spared hm.depth h⟩

theorem act_sound (hm : m.Sound) (a : Act) : (m.act a).Sound := by
  cases a with
  | call c => exact (perform_safe hm c).endState
  | takeFrame => exact hm.takeFrame

theorem afterActs_sound (hm : m.Sound) (acts : List Act) : (m.afterActs acts).Sound := by
  induction acts using List.reverseRecOn with
  | nil => exact hm
  | append_singleton acts a ih =>
    rw [afterActs_concat]
    exact act_sound ih a

/-- What holds at the start, and is kept by every act on a sound machine, holds of whatever they leave. -/
theorem afterActs_keeps {P : Machine ρ κ γ → Prop} {acts : List Act} (hm : m.Sound) (h0 : P m)
    (hstep : ∀ a ∈ acts, ∀ m : Machine ρ κ γ, m.Sound → P m → P (m.act a)) : P (m.afterActs acts) := by
  induction acts using List.reverseRecOn with
  | nil => exact h0
  | append_singleton acts a ih =>
    rw [afterActs_concat]
    apply hstep a (by simp) _ (afterActs_sound hm acts)
    exact ih fun b hb => hstep b (by simp [hb])

end Done

end Machine

end ChipEight
