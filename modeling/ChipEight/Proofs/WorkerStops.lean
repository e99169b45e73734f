import ChipEight.Proofs.WorkerWaits

/-! What is left to a worker that has been told to stop, when the keypad is closed too. -/
namespace ChipEight

/-- The worker is told to stop, and no wait for a key will be answered. -/
structure Shared.Stopped (shared : Shared) : Prop where
  running : shared.running = false
  closed : shared.keypad.closed = true

namespace WorkerPhase

/-- How many cycles a stopped worker can still run, or is amid. -/
def cyclesLeft : WorkerPhase → Nat
  | .cycling | .waiting .. => 1
  | .testing | .sending | .ended _ => 0

/-- How many frames a stopped worker can still send. -/
def framesLeft : WorkerPhase → Nat
  | .cycling | .waiting .. | .sending => 1
  | .testing | .ended _ => 0

/-- How many steps a stopped worker can still take before it has ended. -/
def stepsLeft : WorkerPhase → Nat
  | .cycling => 3
  | .sending => 2
  | .testing | .waiting .. => 1
  | .ended _ => 0

theorem cyclesLeft_le (phase : WorkerPhase) : phase.cyclesLeft ≤ 1 := by
  cases phase <;> simp [cyclesLeft]

theorem framesLeft_le (phase : WorkerPhase) : phase.framesLeft ≤ 1 := by
  cases phase <;> simp [framesLeft]

theorem stepsLeft_le (phase : WorkerPhase) : phase.stepsLeft ≤ 3 := by
  cases phase <;> simp [stepsLeft]

end WorkerPhase

namespace Worker

variable {ρ γ τ : Type} {w w' : Worker ρ γ} {shared shared' : Shared} {deeds : List (Deed ρ γ)}

theorem hasEnded_iff : w.hasEnded = true ↔ ∃ how, w.phase = .ended how := by
  unfold hasEnded
  cases w.phase <;> simp

theorem ended_of_stepsLeft (h : w.phase.stepsLeft = 0) : ∃ how, w.phase = .ended how := by
  cases hp : w.phase with
  | ended how => exact ⟨how, rfl⟩
  | _ =>
    rw [hp] at h
    cases h

theorem pending_of_awaitsKey (h : w.awaitsKey = true) :
    ∃ x, w.machine.pending = .ok (.awaitKey x) := by
  rw [awaitsKey, Machine.fetch_apply] at h
  cases hp : w.machine.pending with
  | error f =>
    rw [hp] at h
    cases h
  | ok i =>
    rw [hp] at h
    cases i with
    | awaitKey x => exact ⟨x, rfl⟩
    | _ => cases h

/-- A closed keypad answers no wait. -/
theorem Views.unpressed {view : KeypadView} (h : w.Views shared view)
    (hc : shared.keypad.closed = true) : view.pressed = none := by
  cases h with
  | unasked | refused => rfl
  | pressed _ hl => cases (Keypad.look_of_closed hc _).symm.trans hl

theorem Looks.cyclesLeft_eq {seen : Nat} (h : w.Looks shared seen) : w.phase.cyclesLeft = 1 := by
  cases h with
  | first hp | again hp =>
    rw [hp]
    rfl

theorem Views.cyclesLeft_eq {view : KeypadView} (h : w.Views shared view) : w.phase.cyclesLeft = 1 := by
  cases h with
  | unasked hp =>
    rw [hp]
    rfl
  | refused hw | pressed hw => exact hw.cyclesLeft_eq

section
variable [Randomizer ρ] [LE τ] [Timescale τ] [Clock γ τ]

theorem step_of_hasEnded (h : w.hasEnded = true) : w.step shared = { worker := w, shared } := by
  obtain ⟨how, hp⟩ := hasEnded_iff.1 h
  rw [step, hp]

theorem cycle_of_awaitsKey {view : KeypadView} (ha : w.awaitsKey = true) (hn : view.pressed = none) :
    Machine.cycle { w.machine with keyboard := view } =
      .error (.fault .inputClosed) { w.machine with keyboard := view } := by
  obtain ⟨x, hx⟩ := pending_of_awaitsKey ha
  exact Machine.cycle_of_unanswered (m := { w.machine with keyboard := view }) hx hn

/-- Once the keypad is closed, a cycle that succeeds has not waited. -/
theorem Views.cycling_of_ok {view : KeypadView} {m : Machine ρ KeypadView γ} (h : w.Views shared view)
    (hv : w.Vigilant shared) (hc : shared.keypad.closed = true)
    (hok : Machine.cycle { w.machine with keyboard := view } = .ok () m) : w.phase = .cycling := by
  -- A cycle that waits would have been refused its key.
  have hn (ha : w.awaitsKey = true) : False := by
    cases (cycle_of_awaitsKey ha (h.unpressed hc)).symm.trans hok
  cases h with
  | unasked hp => exact hp
  | refused hw | pressed hw => exact absurd (hw.awaitsKey hv) hn

/-- What a step takes off what is left to a worker. -/
structure Spends (w : Worker ρ γ) (shared : Shared) (w' : Worker ρ γ) (shared' : Shared)
    (deeds : List (Deed ρ γ)) : Prop where
  cycles : (deeds.filterMap Deed.cycle?).length + w'.phase.cyclesLeft ≤ w.phase.cyclesLeft
  frames : shared'.frames.sent.size + w'.phase.framesLeft ≤ shared.frames.sent.size + w.phase.framesLeft
  steps : w'.phase.stepsLeft ≤ w.phase.stepsLeft - 1

namespace Stepped

theorem stopped (h : w.Stepped shared w' shared' deeds) (hs : shared.Stopped) : shared'.Stopped :=
  ⟨h.running_eq.trans hs.running, h.keypad_eq ▸ hs.closed⟩

/-- A worker that finds the keypad closed does not fall asleep. -/
theorem unblocked (h : w.Stepped shared w' shared' deeds) (hc : shared.keypad.closed = true)
    (hb : w.isBlocked shared = false) : w'.isBlocked shared' = false := by
  cases h with
  | wait _ hl => cases (Keypad.look_of_closed hc _).symm.trans hl
  | stay => exact hb
  | _ => rfl

/-- Every step of a stopped worker brings it nearer to its end, unless it sleeps. -/
theorem spends (h : w.Stepped shared w' shared' deeds) (hs : shared.Stopped) (hv : w.Vigilant shared)
    (hb : w.isBlocked shared = false) : w.Spends shared w' shared' deeds := by
  cases h with
  | go _ hr => cases hs.running.symm.trans hr
  | wait hw hl => cases (Keypad.look_of_closed hs.closed _).symm.trans hl
  | stop hp => exact ⟨Nat.zero_le _, by simp [WorkerPhase.framesLeft], Nat.zero_le _⟩
  | stay h =>
    obtain ⟨how, hp⟩ := hasEnded_iff.1 (h.resolve_left (by simp [hb]))
    exact ⟨Nat.le_of_eq (Nat.zero_add _), Nat.le_refl _, by rw [hp]; exact Nat.le_refl _⟩
  | fail view hg _ _ =>
    refine ⟨Nat.le_of_eq hg.cyclesLeft_eq.symm, ?_, Nat.zero_le _⟩
    rw [WorkerEnd.report_frames]
    exact Nat.le_add_right _ _
  | succeed view hg hok =>
    have hp := hg.cycling_of_ok hv hs.closed hok
    exact ⟨Nat.le_of_eq hg.cyclesLeft_eq.symm, by rw [hp]; exact Nat.le_refl _, by rw [hp]; exact Nat.le_refl _⟩
  | idle hp => exact ⟨Nat.zero_le _, by simp [WorkerPhase.framesLeft], by rw [hp]; exact Nat.le_refl _⟩
  | send hp _ _ hf =>
    refine ⟨Nat.zero_le _, ?_, by rw [hp]; exact Nat.le_refl _⟩
    rw [hp, hf]
    simp [WorkerPhase.framesLeft]
  | drop hp => exact ⟨Nat.zero_le _, by simp [WorkerPhase.framesLeft], Nat.zero_le _⟩

/-- No wait is answered with a key. -/
theorem refused_of_stopped (h : w.Stepped shared w' shared' deeds) (hs : shared.Stopped)
    {m : Machine ρ KeypadView γ} (hm : .cycled m ∈ deeds) {x : Nat}
    (hx : m.pending = .ok (.awaitKey x)) : Machine.cycle m = .error (.fault .inputClosed) m := by
  cases h with
  | succeed view hg | fail view hg =>
    obtain rfl : m = _ := by simpa using hm
    exact Machine.cycle_of_unanswered hx (hg.unpressed hs.closed)
  | _ => simp at hm

end Stepped

end
end Worker

end ChipEight
