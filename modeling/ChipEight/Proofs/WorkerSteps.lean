import ChipEight.Proofs.Soundness
import ChipEight.Session.Worker

/-! What a worker does, step by step, in every order of its steps and of what happens around it. -/
namespace ChipEight

namespace Deed

variable {ρ γ τ : Type}

def cycle? : Deed ρ γ → Option (Machine ρ KeypadView γ)
  | .cycled m => some m
  | _ => none

def unsent? : Deed ρ γ → Option Frame
  | .unsent frame => some frame
  | _ => none

/-- The end that a deed puts to the work. -/
def verdict [Randomizer ρ] [LE τ] [Timescale τ] [Clock γ τ] : Deed ρ γ → Option WorkerEnd
  | .tested running => if running then none else some .finished
  | .cycled m =>
    match Machine.cycle m with
    | .ok .. => none
    | .error (.fault .inputClosed) _ => some .finished
    | .error (.fault cause) _ => some (.failed cause)
    | .error (.defect cause) _ => some (.crashed cause)
  | .unsent _ => some .finished

section
variable [Randomizer ρ] [LE τ] [Timescale τ] [Clock γ τ] {m m' : Machine ρ KeypadView γ}

theorem verdict_of_ok (h : Machine.cycle m = .ok () m') : (cycled m).verdict = none := by
  rw [verdict, h]

theorem verdict_of_defect {d : Defect} (h : Machine.cycle m = .error (.defect d) m') :
    (cycled m).verdict = some (.crashed d) := by
  rw [verdict, h]

theorem verdict_of_fault {f : Fault} (h : Machine.cycle m = .error (.fault f) m') :
    (cycled m).verdict = some (if f = .inputClosed then .finished else .failed f) := by
  rw [verdict, h]
  cases f <;> rfl

theorem verdict_eq_failed {d : Deed ρ γ} {e : Fault} :
    d.verdict = some (.failed e) ↔
      ∃ m m', d = .cycled m ∧ Machine.cycle m = .error (.fault e) m' ∧ e ≠ .inputClosed := by
  constructor
  · intro hv
    cases d with
    | tested running => cases running <;> cases hv
    | unsent frame => cases hv
    | cycled m =>
      match hc : Machine.cycle m with
      | .ok () m' => cases (verdict_of_ok hc).symm.trans hv
      | .error (.defect d) m' => cases (verdict_of_defect hc).symm.trans hv
      | .error (.fault f) m' =>
        rw [verdict_of_fault hc] at hv
        by_cases hf : f = .inputClosed
        · rw [if_pos hf] at hv
          cases hv
        · rw [if_neg hf] at hv
          cases hv
          exact ⟨m, m', rfl, hc, hf⟩
  · rintro ⟨m, m', rfl, hc, hne⟩
    rw [verdict_of_fault hc, if_neg hne]

theorem verdict_eq_finished {d : Deed ρ γ} :
    d.verdict = some .finished ↔ d = .tested false ∨
      (∃ m m', d = .cycled m ∧ Machine.cycle m = .error (.fault .inputClosed) m') ∨
      ∃ frame, d = .unsent frame := by
  constructor
  · intro hv
    cases d with
    | tested running =>
      cases running with
      | false => exact .inl rfl
      | true => cases hv
    | unsent frame => exact .inr (.inr ⟨frame, rfl⟩)
    | cycled m =>
      match hc : Machine.cycle m with
      | .ok () m' => cases (verdict_of_ok hc).symm.trans hv
      | .error (.defect d) m' => cases (verdict_of_defect hc).symm.trans hv
      | .error (.fault f) m' =>
        rw [verdict_of_fault hc] at hv
        by_cases hf : f = .inputClosed
        · exact .inr (.inl ⟨m, m', rfl, hf ▸ hc⟩)
        · rw [if_neg hf] at hv
          cases hv
  · rintro (rfl | ⟨m, m', rfl, hc⟩ | ⟨frame, rfl⟩)
    · rfl
    · exact verdict_of_fault hc
    · rfl

end

end Deed

/-- Before a cycle, or in one that waits. -/
def WorkerPhase.between : WorkerPhase → Bool
  | .testing | .cycling | .waiting .. => true
  | .sending | .ended _ => false

/-- What is written to the log at the end of the work. -/
def WorkerEnd.lines : WorkerEnd → List LogLine
  | .failed cause => [⟨.error, cause.message⟩]
  | _ => []

def WorkerPhase.lines : WorkerPhase → List LogLine
  | .ended how => how.lines
  | _ => []

def WorkerEnd.report (shared : Shared) : WorkerEnd → Shared
  | .failed cause => shared.note ⟨.error, cause.message⟩
  | _ => shared

theorem WorkerPhase.lines_of_between {phase : WorkerPhase} (h : phase.between = true) :
    phase.lines = [] := by
  cases phase with
  | ended how => cases h
  | _ => rfl

theorem WorkerEnd.report_eq (how : WorkerEnd) (shared : Shared) :
    how.report shared = { shared with log := shared.log ++ how.lines } := by
  cases how with
  | failed cause => rfl
  | finished | crashed => simp [report, lines]

theorem WorkerEnd.report_errorLines (how : WorkerEnd) (shared : Shared) :
    errorLines (how.report shared).log = errorLines shared.log ++ how.lines := by
  cases how with
  | failed cause => simp [report, Shared.note, errorLines, lines]
  | _ => exact (List.append_nil _).symm

theorem WorkerEnd.report_frames (how : WorkerEnd) (shared : Shared) :
    (how.report shared).frames = shared.frames := by
  rw [report_eq]

namespace Worker

variable {ρ γ τ : Type}

/-- The next step looks at the keypad, for a wait that began after `seen` presses. -/
inductive Looks (w : Worker ρ γ) (shared : Shared) : (seen : Nat) → Prop
  /-- A wait begins with a look. -/
  | first (hp : w.phase = .cycling) (ha : w.awaitsKey = true) : Looks w shared shared.keypad.presses
  | again {seen since : Nat} (hp : w.phase = .waiting seen since) (hb : w.isBlocked shared = false) :
    Looks w shared seen

/-- How the keypad looks to the cycle that a worker runs next. -/
inductive Views (w : Worker ρ γ) (shared : Shared) : KeypadView → Prop
  /-- The cycle does not wait for a key. -/
  | unasked (hp : w.phase = .cycling) (ha : w.awaitsKey = false) :
    Views w shared { keypad := shared.keypad }
  | refused {seen : Nat} (hw : w.Looks shared seen) (hl : shared.keypad.look seen = .closed) :
    Views w shared { keypad := shared.keypad }
  | pressed {seen : Nat} {key : UInt8} (hw : w.Looks shared seen)
    (hl : shared.keypad.look seen = .key key) :
    Views w shared { keypad := shared.keypad, pressed := some key }

/-- The ways to take a step, with the deeds of each. -/
inductive Stepped [Randomizer ρ] [LE τ] [Timescale τ] [Clock γ τ] (w : Worker ρ γ) (shared : Shared) :
    Worker ρ γ → Shared → List (Deed ρ γ) → Prop
  | go (hp : w.phase = .testing) (hr : shared.running = true) :
    Stepped w shared { w with phase := .cycling } shared [.tested true]
  | stop (hp : w.phase = .testing) (hr : shared.running = false) :
    Stepped w shared { w with phase := .ended .finished } shared [.tested false]
  | wait {seen : Nat} (hw : w.Looks shared seen) (hl : shared.keypad.look seen = .waiting) :
    Stepped w shared { w with phase := .waiting seen shared.wakes } shared []
  | stay (h : w.isBlocked shared = true ∨ w.hasEnded = true) : Stepped w shared w shared []
  | succeed (view : KeypadView) (hg : w.Views shared view) {m : Machine ρ KeypadView γ}
    (h : Machine.cycle { w.machine with keyboard := view } = .ok () m) :
    Stepped w shared { machine := m, phase := .sending } shared
      [.cycled { w.machine with keyboard := view }]
  | fail (view : KeypadView) (hg : w.Views shared view) {m : Machine ρ KeypadView γ} {e : Halt}
    {how : WorkerEnd} (h : Machine.cycle { w.machine with keyboard := view } = .error e m)
    (hv : (Deed.cycled { w.machine with keyboard := view }).verdict = some how) :
    Stepped w shared { machine := m, phase := .ended how }
      (how.report shared) [.cycled { w.machine with keyboard := view }]
  | idle (hp : w.phase = .sending) (hd : w.machine.screen.dirty = false) :
    Stepped w shared { w with phase := .testing } shared []
  | send (hp : w.phase = .sending) (hd : w.machine.screen.dirty = true)
    (hl : shared.frames.listening = true) {frames : Channel Frame}
    (hf : frames = { shared.frames with sent := shared.frames.sent.push w.machine.screen.pixels }) :
    Stepped w shared { machine := w.machine.takeFrame.2, phase := .testing } { shared with frames } []
  | drop (hp : w.phase = .sending) (hd : w.machine.screen.dirty = true)
    (hl : shared.frames.listening = false) :
    Stepped w shared { machine := w.machine.takeFrame.2, phase := .ended .finished } shared
      [.unsent w.machine.screen.pixels]

theorem hasEnded_of_between {w : Worker ρ γ} (h : w.phase.between = true) : w.hasEnded = false := by
  rw [Worker.hasEnded]
  cases hp : w.phase with
  | ended how =>
    rw [hp] at h
    cases h
  | _ => rfl

theorem Looks.between {w : Worker ρ γ} {shared : Shared} {seen : Nat} (h : w.Looks shared seen) :
    w.phase.between = true := by
  cases h with
  | first hp | again hp =>
    rw [hp]
    rfl

theorem Views.between {w : Worker ρ γ} {shared : Shared} {view : KeypadView} (h : w.Views shared view) :
    w.phase.between = true := by
  cases h with
  | unasked hp =>
    rw [hp]
    rfl
  | refused hw | pressed hw => exact hw.between

/-- A wait that comes to nothing has found the keypad closed. -/
theorem Views.closed {w : Worker ρ γ} {shared : Shared} {view : KeypadView} (h : w.Views shared view)
    (ha : w.awaitsKey = true) (hn : view.pressed = none) : shared.keypad.closed = true := by
  cases h with
  | unasked _ hnot => cases ha.symm.trans hnot
  | refused _ hl => exact shared.keypad.closed_of_look hl
  | pressed => cases hn

theorem awaitsKey_of_pending {w : Worker ρ γ} {x : Nat} (h : w.machine.pending = .ok (.awaitKey x)) :
    w.awaitsKey = true := by
  rw [awaitsKey, Machine.fetch_apply, h]

section
variable [Randomizer ρ] [LE τ] [Timescale τ] [Clock γ τ]

theorem stepped_of_cycle {w : Worker ρ γ} {view : KeypadView} {shared : Shared}
    (hg : w.Views shared view) :
    w.Stepped shared (w.runCycle view shared).worker (w.runCycle view shared).shared
      (w.runCycle view shared).deed?.toList := by
  simp only [runCycle]
  cases h : Machine.cycle { w.machine with keyboard := view } with
  | ok u m => exact .succeed view hg h
  | error e m =>
    have hs {how : WorkerEnd}
        (hv : (Deed.cycled { w.machine with keyboard := view }).verdict = some how) :=
      Stepped.fail view hg h hv
    cases e with
    | defect d => exact hs (Deed.verdict_of_defect h)
    | fault f =>
      have hf := hs (Deed.verdict_of_fault h)
      cases f <;> exact hf

theorem stepped_of_look {w : Worker ρ γ} {seen : Nat} {shared : Shared} (hw : w.Looks shared seen) :
    w.Stepped shared (w.look seen shared).worker (w.look seen shared).shared
      (w.look seen shared).deed?.toList := by
  unfold look
  cases hl : shared.keypad.look seen with
  | waiting => exact .wait hw hl
  | closed => exact stepped_of_cycle (.refused hw hl)
  | key pressed => exact stepped_of_cycle (.pressed hw hl)

theorem stepped (w : Worker ρ γ) (shared : Shared) :
    w.Stepped shared (w.step shared).worker (w.step shared).shared (w.step shared).deed?.toList := by
  unfold step
  cases hp : w.phase with
  | testing =>
    cases hr : shared.running with
    | true => exact .go hp hr
    | false => exact .stop hp hr
  | cycling =>
    cases ha : w.awaitsKey with
    | true => exact stepped_of_look (.first hp ha)
    | false => exact stepped_of_cycle (.unasked hp ha)
  | waiting seen since =>
    cases hb : w.isBlocked shared with
    | true => exact .stay (.inl hb)
    | false => exact stepped_of_look (.again hp hb)
  | sending =>
    cases hd : w.machine.screen.dirty with
    | false =>
      rw [sendFrame, Machine.takeFrame_of_clean hd]
      exact .idle hp hd
    | true =>
      have ht : w.machine.takeFrame = (some w.machine.screen.pixels, w.machine.takeFrame.2) := by
        rw [Machine.takeFrame, Screen.takeFrame, hd]
        rfl
      cases hl : shared.frames.listening with
      | true =>
        have hs : shared.frames.send? w.machine.screen.pixels =
            some { shared.frames with sent := shared.frames.sent.push w.machine.screen.pixels } :=
          if_pos hl
        rw [sendFrame, ht]
        simp only [hs]
        exact .send hp hd hl rfl
      | false =>
        have hs : shared.frames.send? w.machine.screen.pixels = none := by
          rw [Channel.send?, hl]
          rfl
        rw [sendFrame, ht]
        simp only [hs]
        exact .drop hp hd hl
  | ended how => exact .stay (.inr (by rw [hasEnded, hp]))

namespace Stepped

variable {w w' : Worker ρ γ} {shared shared' : Shared} {deeds : List (Deed ρ γ)}

/-- A worker changes nothing of what is shared but the queue and the log. -/
theorem shared_eq (h : w.Stepped shared w' shared' deeds) :
    shared' = { shared with frames := shared'.frames, log := shared'.log } := by
  cases h with
  | fail _ _ _ _ => rw [WorkerEnd.report_eq]
  | _ => rfl

theorem keypad_eq (h : w.Stepped shared w' shared' deeds) : shared'.keypad = shared.keypad := by
  rw [h.shared_eq]

theorem running_eq (h : w.Stepped shared w' shared' deeds) : shared'.running = shared.running := by
  rw [h.shared_eq]

/-- A worker calls nothing on the keypad but its waits. -/
theorem calls_eq (h : w.Stepped shared w' shared' deeds) : shared'.calls = shared.calls := by
  rw [h.shared_eq]

theorem listening_eq (h : w.Stepped shared w' shared' deeds) :
    shared'.frames.listening = shared.frames.listening := by
  cases h with
  | fail _ _ _ _ => rw [WorkerEnd.report_frames _ shared]
  | send _ _ _ hf => rw [hf]
  | _ => rfl

theorem listening_of_unsent (h : w.Stepped shared w' shared' deeds) {frame : Frame}
    (hf : .unsent frame ∈ deeds) : shared.frames.listening = false := by
  cases h with
  | drop _ _ hl => exact hl
  | _ => simp at hf

theorem running_of_tested (h : w.Stepped shared w' shared' deeds) (hf : .tested false ∈ deeds) :
    shared.running = false := by
  cases h with
  | stop _ hr => exact hr
  | _ => simp at hf

theorem closed_of_cycled (hm : w.phase.between = true → w.machine.Sound)
    (h : w.Stepped shared w' shared' deeds) {m m' : Machine ρ KeypadView γ} (hf : .cycled m ∈ deeds)
    (hc : Machine.cycle m = .error (.fault .inputClosed) m') : shared.keypad.closed = true := by
  cases h with
  | succeed view hg hok =>
    obtain rfl : m = _ := by simpa using hf
    cases hok.symm.trans hc
  | fail view hg _ _ =>
    obtain rfl : m = _ := by simpa using hf
    obtain ⟨⟨x, hx⟩, hn⟩ := Machine.cycle_inputClosed ((hm hg.between).withKeyboard view).depth hc
    exact hg.closed (awaitsKey_of_pending hx) hn
  | _ => simp at hf

theorem errorLines_eq {errors : List LogLine} (hl : errorLines shared.log = errors ++ w.phase.lines)
    (h : w.Stepped shared w' shared' deeds) : errorLines shared'.log = errors ++ w'.phase.lines := by
  cases h with
  | stay => exact hl
  | succeed _ hg _ =>
    rw [WorkerPhase.lines_of_between hg.between] at hl
    exact hl
  | fail _ hg _ _ =>
    rw [WorkerPhase.lines_of_between hg.between, List.append_nil] at hl
    rw [WorkerEnd.report_errorLines, hl]
    rfl
  | wait hw =>
    rw [WorkerPhase.lines_of_between hw.between] at hl
    exact hl
  | go hp _ | stop hp _ | idle hp _ | drop hp _ _ | send hp _ _ _ =>
    rw [hp] at hl
    exact hl

end Stepped

end
end Worker

end ChipEight
