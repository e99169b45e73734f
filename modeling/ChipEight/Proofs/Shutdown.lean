import ChipEight.Peripheral.Scripted
import ChipEight.Proofs.SessionMoves
import ChipEight.Proofs.WorkerStops
import ChipEight.Session.Start

/-! The end of a session. Once the loop has cleared the flag, closed the keypad and then woken those who
sleep, nothing can hold the worker up any more, wherever it was, and the loop takes over how it ended. -/
namespace ChipEight

namespace Stage

variable {ρ γ τ : Type} [Randomizer ρ] [LE τ] [Timescale τ] [Clock γ τ] {s : Stage ρ γ}
  {start : Machine ρ KeypadView γ} {errors : List LogLine} {how : WorkerEnd}

/-- The outcome of a session whose worker has run these cycles. -/
structure EndsAs (cycles : List (Machine ρ KeypadView γ)) (outcome : Except Failure Unit) : Prop where
  ok_iff : outcome = .ok () ↔
    ∀ m ∈ cycles, ∀ e m', Machine.cycle m = .error e m' → e = .fault .inputClosed
  error_iff : ∀ cause, outcome = .error (.emulation cause) ↔
    cause ≠ .inputClosed ∧ ∃ m ∈ cycles, ∃ m', Machine.cycle m = .error (.fault cause) m'
  /-- There is no other failure. -/
  messages : ∀ failure, outcome = .error failure →
    ∃ cause, failure = .emulation cause ∧ failure.messages = ["emulation stopped", cause.message]

/-- A cycle that fails tells how the worker ended. -/
theorem Judged.how_eq (h : s.Judged) (hw : s.worker.phase = .ended how) {m m' : Machine ρ KeypadView γ}
    {f : Fault} (hm : m ∈ s.cycles) (hc : Machine.cycle m = .error (.fault f) m') :
    how = if f = .inputClosed then .finished else .failed f :=
  (h.verdict_eq hw (mem_cycles.1 hm) (Deed.verdict_of_fault hc)).symm

theorem Inv.endsAs (h : s.Inv start errors) (hw : s.worker.phase = .ended how) :
    EndsAs s.cycles how.outcome := by
  have hj := h.accounted.judged
  cases how with
  | crashed d => exact absurd hw (not_crashed h d)
  | finished =>
    have hclosed {m m' : Machine ρ KeypadView γ} {f : Fault} (hm : m ∈ s.cycles)
        (hc : Machine.cycle m = .error (.fault f) m') : f = .inputClosed := by
      refine Decidable.byContradiction fun hne => ?_
      have hhow := hj.how_eq hw hm hc
      rw [if_neg hne] at hhow
      cases hhow
    constructor
    · refine ⟨fun _ m hm e m' hc => ?_, fun _ => rfl⟩
      have hd := ((h.linked.met.sound h.sound).1 m hm).depth
      obtain ⟨f, rfl, -⟩ := Machine.cycle_of_error hd hc
      rw [hclosed hm hc]
    · intro cause
      constructor
      · nofun
      · rintro ⟨hne, m, hm, m', hc⟩
        exact absurd (hclosed hm hc) hne
    · nofun
  | failed e =>
    obtain ⟨hne, m, m', hlast, hc⟩ := (failed_iff hj e).1 hw
    have hm := List.mem_of_getLast? hlast
    constructor
    · constructor
      · nofun
      · intro hall
        cases hall m hm _ m' hc
        exact absurd rfl hne
    · intro cause
      constructor
      · intro ho
        cases ho
        exact ⟨hne, m, hm, m', hc⟩
      · rintro ⟨hcause, m₁, hm₁, m₁', hc₁⟩
        have hhow := hj.how_eq hw hm₁ hc₁
        rw [if_neg hcause] at hhow
        rw [hhow]
        rfl
    · intro failure ho
      cases ho
      exact ⟨e, rfl, rfl⟩

end Stage

/-- The loop has cleared the flag, and has not ended the session yet. -/
def LoopPhase.ending : LoopPhase → Bool
  | .closing | .waking | .joining => true
  | _ => false

namespace Session

variable {ρ γ ε τ : Type} {s : Session ρ γ ε}

/-- The loop waits for the worker to end, or has taken over how it did. -/
structure Joining (s : Session ρ γ ε) : Prop where
  stopped : s.shared.Stopped
  vigilant : s.worker.Vigilant s.shared
  unblocked : s.worker.isBlocked s.shared = false
  phase : s.phase = .joining ∨ ∃ how, s.worker.phase = .ended how ∧ s.phase = .ended how.outcome

/-- What the loop has done about the end of the worker, told from where it is. -/
structure Orderly (s : Session ρ γ ε) : Prop where
  vigilant : s.worker.Vigilant s.shared
  cleared : s.phase = .closing → s.shared.running = false
  stopped : s.phase = .waking → s.shared.Stopped
  joining : s.phase = .joining → s.Joining

theorem Orderly.of_phase (hv : s.worker.Vigilant s.shared) (he : s.phase.ending = false) : s.Orderly := by
  have hne {phase : LoopPhase} (hending : phase.ending = true) (hp : s.phase = phase) : False := by
    rw [hp, hending] at he
    cases he
  exact ⟨hv, fun hp => (hne rfl hp).elim, fun hp => (hne rfl hp).elim, fun hp => (hne rfl hp).elim⟩

theorem Joining.orderly (h : s.Joining) : s.Orderly := by
  have hne {phase : LoopPhase} (hp : s.phase = phase) : phase ≠ .closing ∧ phase ≠ .waking := by
    rcases h.phase with hj | ⟨how, -, hj⟩
    · cases hj.symm.trans hp
      exact ⟨nofun, nofun⟩
    · cases hj.symm.trans hp
      exact ⟨nofun, nofun⟩
  exact ⟨h.vigilant, fun hp => absurd rfl (hne hp).1, fun hp => absurd rfl (hne hp).2, fun _ => h⟩

theorem handle_ending (s : Session ρ γ ε) (event : HostEvent) (rest : List HostEvent) :
    (s.handle event rest).phase.ending = false := by
  unfold handle
  cases event.reaction with
  | quit | keypad | unmapped | nothing => rfl

theorem present_ending (s : Session ρ γ ε) : s.present.phase.ending = false := by
  unfold present
  cases s.shared.frames.takeLatest with | mk newest frames
  cases newest with
  | none => rfl
  | some frame =>
    cases h : Host.render frame s.host with
    | ok u host => simp [h, LoopPhase.ending]
    | error failure host => simp [h, LoopPhase.ending]

section
variable [EventSource ε]

theorem Joining.loopStep (h : s.Joining) :
    s.loopStep.worker = s.worker ∧ s.loopStep.shared = s.shared ∧ s.loopStep.Joining := by
  unfold Session.loopStep
  rcases h.phase with hp | ⟨how, hw, hp⟩
  · rw [hp]
    cases hw : s.worker.phase with
    | ended how => exact ⟨rfl, rfl, h.stopped, h.vigilant, h.unblocked, .inr ⟨how, hw, rfl⟩⟩
    | _ => exact ⟨rfl, rfl, h⟩
  · rw [hp]
    exact ⟨rfl, rfl, h⟩

/-- The loop takes over how the worker ended. -/
theorem Joining.outcome_eq (h : s.Joining) {how : WorkerEnd} (hw : s.worker.phase = .ended how) :
    s.loopStep.outcome? = some how.outcome := by
  unfold Session.loopStep
  rcases h.phase with hp | ⟨how', hw', hp⟩
  · rw [hp, hw]
    rfl
  · cases hw.symm.trans hw'
    rw [hp, outcome?, hp]

variable [Randomizer ρ] [LE τ] [Timescale τ] [Clock γ τ]

/-- A turn of the worker is one of its steps. -/
theorem stepped (s : Session ρ γ ε) :
    s.worker.Stepped s.shared (s.step .worker).worker (s.step .worker).shared
      (s.worker.step s.shared).deed?.toList :=
  s.worker.stepped s.shared

/-- The loop, too, takes no wake-up away from the worker. -/
theorem vigilant_run (h : s.worker.Vigilant s.shared) (turns : List Turn) :
    (s.run turns).worker.Vigilant (s.run turns).shared := by
  obtain ⟨moves, hm⟩ := run_moves s turns []
  have hv : ((s.stage []).run moves).worker.Vigilant ((s.stage []).run moves).shared := Stage.vigilant_run h moves
  rw [hm] at hv
  exact hv

theorem Orderly.loopStep (h : s.Orderly) : (s.step .loop).Orderly := by
  have hv : s.loopStep.worker.Vigilant s.loopStep.shared := vigilant_run h.vigilant [.loop]
  have hj (hp : s.phase = .joining) := (h.joining hp).loopStep.2.2.orderly
  show s.loopStep.Orderly
  unfold Session.loopStep at hv hj ⊢
  generalize hp : s.phase = phase at hv hj ⊢
  cases phase with
  | polling => exact .of_phase hv rfl
  | handling batch =>
    cases batch with
    | nil => exact .of_phase hv rfl
    | cons event rest => exact .of_phase hv (s.handle_ending event rest)
  | presenting => exact .of_phase hv s.present_ending
  | asking =>
    cases he : s.worker.hasEnded with
    | true => exact .of_phase hv rfl
    | false => exact .of_phase hv rfl
  | stopping => exact ⟨hv, fun _ => rfl, nofun, nofun⟩
  | closing => exact ⟨hv, nofun, fun _ => ⟨h.cleared hp, rfl⟩, nofun⟩
  | waking =>
    have hs := h.stopped hp
    -- The keypad has been closed before, so that nobody falls asleep again.
    exact ⟨hv, nofun, nofun, fun _ => ⟨⟨hs.running, hs.closed⟩, hv, h.vigilant.isBlocked_wakeAll, .inl rfl⟩⟩
  | joining => exact hj rfl
  | ended outcome => exact h

theorem Joining.workerStep (h : s.Joining) : (s.step .worker).Joining := by
  have hs := s.stepped
  refine ⟨hs.stopped h.stopped, hs.vigilant h.vigilant, hs.unblocked h.stopped.closed h.unblocked, ?_⟩
  rcases h.phase with hp | ⟨how, hw, hp⟩
  · exact .inl hp
  · refine .inr ⟨how, ?_, hp⟩
    show (s.worker.step s.shared).worker.phase = _
    rw [Worker.step_of_hasEnded (Worker.hasEnded_iff.2 ⟨how, hw⟩)]
    exact hw

theorem Joining.wake (h : s.Joining) : (s.step .wake).Joining where
  stopped := ⟨h.stopped.running, h.stopped.closed⟩
  vigilant := h.vigilant.wakeAll
  unblocked := h.vigilant.isBlocked_wakeAll
  phase := h.phase

theorem Orderly.step (h : s.Orderly) (turn : Turn) : (s.step turn).Orderly := by
  cases turn with
  | loop => exact h.loopStep
  | worker =>
    have hs := s.stepped
    constructor
    · exact hs.vigilant h.vigilant
    · exact fun hp => hs.running_eq.trans (h.cleared hp)
    · exact fun hp => hs.stopped (h.stopped hp)
    · exact fun hp => (h.joining hp).workerStep
  | wake =>
    constructor
    · exact h.vigilant.wakeAll
    · exact h.cleared
    · exact fun hp => ⟨(h.stopped hp).running, (h.stopped hp).closed⟩
    · exact fun hp => (h.joining hp).wake

theorem Orderly.run (h : s.Orderly) (turns : List Turn) : (s.run turns).Orderly := by
  induction turns generalizing s with
  | nil => exact h
  | cons turn rest ih => exact ih (h.step turn)

/-- Some turns of a joining session, measured by what was left to its worker before them. -/
structure Spent (s : Session ρ γ ε) (turns : List Turn) : Prop where
  joining : (s.run turns).Joining
  refused : ∀ m x, .cycled m ∈ s.deeds turns → m.pending = .ok (.awaitKey x) →
    Machine.cycle m = .error (.fault .inputClosed) m
  cycles : ((s.deeds turns).filterMap Deed.cycle?).length + (s.run turns).worker.phase.cyclesLeft ≤
    s.worker.phase.cyclesLeft
  frames : (s.run turns).shared.frames.sent.size + (s.run turns).worker.phase.framesLeft ≤
    s.shared.frames.sent.size + s.worker.phase.framesLeft
  steps : (s.run turns).worker.phase.stepsLeft ≤ s.worker.phase.stepsLeft - turns.count .worker

theorem Joining.spent (h : s.Joining) (turns : List Turn) : s.Spent turns := by
  -- A turn of the loop costs the worker nothing, and a turn of its own is paid from what is left.
  induction turns generalizing s with
  | nil =>
    exact
      { joining := h
        refused := fun m x hm => absurd hm List.not_mem_nil
        cycles := Nat.le_of_eq (Nat.zero_add _)
        frames := Nat.le_refl _
        steps := Nat.le_refl _ }
  | cons turn rest ih =>
    cases turn with
    | loop =>
      obtain ⟨hw, hsh, hj⟩ := h.loopStep
      obtain ⟨hjoining, hrefused, hcycles, hframes, hsteps⟩ := ih hj
      rw [hw] at hcycles hframes hsteps
      rw [hsh] at hframes
      exact ⟨hjoining, hrefused, hcycles, hframes, by rwa [List.count_cons_of_ne (by decide)]⟩
    | worker =>
      have hs := s.stepped
      have hspends := hs.spends h.stopped h.vigilant h.unblocked
      have hr := ih h.workerStep
      constructor
      · exact hr.joining
      · intro m x hm hx
        rcases List.mem_append.1 hm with hm | hm
        · exact hs.refused_of_stopped h.stopped hm hx
        · exact hr.refused m x hm hx
      · have hnow := hspends.cycles
        have hlater := hr.cycles
        rw [deeds, List.filterMap_append, List.length_append]
        show _ + ((s.step .worker).run rest).worker.phase.cyclesLeft ≤ _
        omega
      · exact Nat.le_trans hr.frames hspends.frames
      · have hnow := hspends.steps
        have hlater := hr.steps
        rw [List.count_cons_self]
        show ((s.step .worker).run rest).worker.phase.stepsLeft ≤ _
        omega
    | wake =>
      obtain ⟨hjoining, hrefused, hcycles, hframes, hsteps⟩ := ih h.wake
      exact ⟨hjoining, hrefused, hcycles, hframes, by rwa [List.count_cons_of_ne (by decide)]⟩

/-- What is still to come of a worker once the loop joins it. -/
structure WindsDown (s : Session ρ γ ε) (turns : List Turn) : Prop where
  /-- It is not asleep, or it has been woken. -/
  unblocked : (s.run turns).worker.isBlocked (s.run turns).shared = false
  /-- A wait that it is in, or comes to, ends without a key. -/
  refused : ∀ m x, .cycled m ∈ s.deeds turns → m.pending = .ok (.awaitKey x) →
    Machine.cycle m = .error (.fault .inputClosed) m
  /-- It runs one more cycle at most, and one that is still to come or to end is counted in. -/
  cycles_le : ((s.deeds turns).filterMap Deed.cycle?).length + (s.run turns).worker.phase.cyclesLeft ≤ 1
  /-- Its machine comes through no other cycles. -/
  linked : ((s.run turns).stage (s.deeds turns)).Linked s.worker.resumed
  sent_le : (s.run turns).shared.frames.sent.size ≤ s.shared.frames.sent.size + 1
  ends : 3 ≤ turns.count .worker → ∃ how, (s.run turns).worker.phase = .ended how

theorem Joining.windsDown (h : s.Joining) (turns : List Turn) : s.WindsDown turns := by
  have hs := h.spent turns
  constructor
  · exact hs.joining.unblocked
  · exact hs.refused
  · exact Nat.le_trans hs.cycles s.worker.phase.cyclesLeft_le
  · exact s.run_linked turns
  · have hf := hs.frames
    have hle := s.worker.phase.framesLeft_le
    omega
  · intro hn
    have hsteps := hs.steps
    have hle := s.worker.phase.stepsLeft_le
    exact Worker.ended_of_stepsLeft (by omega)

end

/-- A session with its program loaded and its host set up. -/
def opened (start : Machine ρ KeypadView γ) (host : Host) (events : ε) (log : List LogLine) :
    Session ρ γ ε :=
  { worker := { machine := start }, shared := { log }, host, events }

theorem opened_orderly (start : Machine ρ KeypadView γ) (host : Host) (events : ε) (log : List LogLine) :
    (opened start host events log).Orderly :=
  .of_phase (.of_awake nofun) rfl

theorem loadProgram_ok [Clock γ τ] {path : String} {content : Except String (List UInt8)}
    {m start : Machine ρ KeypadView γ} {desk desk' : Desk}
    (h : loadProgram path content m desk = .ok start desk') :
    desk'.host = desk.host ∧ ∃ rom, content = .ok rom ∧ Machine.load rom m = .ok () start := by
  unfold loadProgram at h
  cases content with
  | error cause => cases h
  | ok rom =>
    cases hl : Machine.load rom m with
    | ok u loaded =>
      simp only [hl] at h
      cases h
      exact ⟨rfl, rom, rfl, hl⟩
    | error e kept =>
      simp only [hl] at h
      cases e <;> cases h

/-- What starts is an opened session, on a host that was set up for it. -/
theorem opened_of_start [Clock γ τ] {path : String} {content : Except String (List UInt8)}
    {scale : UInt32} {m : Machine ρ KeypadView γ} {events : ε} {desk desk' : Desk}
    (h : Session.start path content scale m events desk = .ok s desk') :
    ∃ rom start, content = .ok rom ∧ Machine.load rom m = .ok () start ∧
      openHost scale desk.host = .ok () desk'.host ∧ s = opened start desk'.host events desk'.log := by
  rw [Session.start, bind_apply] at h
  cases hl : loadProgram path content m desk with
  | error e desk₁ =>
    rw [hl] at h
    cases h
  | ok start desk₁ =>
    obtain ⟨hhost, rom, hrom, hload⟩ := loadProgram_ok hl
    refine ⟨rom, start, hrom, hload, ?_⟩
    rw [← hhost]
    simp only [hl, bind_apply, onHost] at h
    cases ho : openHost scale desk₁.host with
    | error e host =>
      simp only [ho] at h
      cases h
    | ok u host =>
      simp only [ho] at h
      cases h
      exact ⟨rfl, rfl⟩

variable [EventSource ε] [Randomizer ρ] [LE τ] [Timescale τ] [Clock γ τ]

/-- Shutting down cannot hang. Once the loop waits for the worker, the worker winds down whatever the
order of the turns, and the session then ends as the cycles from its beginning on tell. -/
theorem shutdown_cannot_hang (m : Machine ρ KeypadView γ) {rom : List UInt8}
    (h : rom.length ≤ Memory.maxProgramSize) (host : Host) (events : ε) (log : List LogLine)
    (turns more : List Turn) :
    ∃ start, Machine.load rom m = .ok () start ∧
      (((opened start host events log).run turns).phase = .joining →
        ((opened start host events log).run turns).WindsDown more ∧
        (3 ≤ more.count .worker → ∃ outcome,
          (((opened start host events log).run (turns ++ more)).step .loop).outcome? = some outcome ∧
          Stage.EndsAs (((opened start host events log).deeds (turns ++ more)).filterMap Deed.cycle?)
            outcome)) := by
  refine ⟨m.loaded rom, Machine.load_of_fits h m, fun hp => ?_⟩
  have hj := ((opened_orderly (m.loaded rom) host events log).run turns).joining hp
  have hw := hj.windsDown more
  refine ⟨hw, fun hn => ?_⟩
  obtain ⟨how, hended⟩ := hw.ends hn
  have hjoined := (hj.spent more).joining
  rw [← run_append] at hended hjoined
  have hstart : ((opened (m.loaded rom) host events log).stage []).Inv (m.loaded rom) (errorLines log) :=
    Stage.inv_start (Machine.loaded_sound m rom) rfl {} log
  have hinv := run_inv hstart (turns ++ more)
  exact ⟨how.outcome, hjoined.outcome_eq hended, hinv.endsAs hended⟩

/-- A program that sleeps until a key is pressed when the user quits. The keypad is closed and it sleeps on,
until it is woken too. -/
theorem asking_program_winds_down :
    let m : Machine ByteCycle KeypadView CycleClock := { randomizer := {}, keyboard := {}, clock := {} }
    let rom := [0xF0, 0x0A]
    let events := [[HostEvent.quit]]
    let before := [.worker, .worker, .loop, .loop, .loop, .loop, .worker]
    let turns := before ++ [.loop]
    let more := [.worker, .worker, .worker]
    rom.length ≤ Memory.maxProgramSize ∧ ∃ start, Machine.load rom m = .ok () start ∧
      ((opened start {} events []).run before).shared.keypad.closed = true ∧
      ((opened start {} events []).run before).worker.isBlocked
        ((opened start {} events []).run before).shared = true ∧
      ((opened start {} events []).run turns).phase = .joining ∧
      ((opened start {} events []).run turns).WindsDown more ∧
      ∃ outcome,
        (((opened start {} events []).run (turns ++ more)).step .loop).outcome? = some outcome ∧
        Stage.EndsAs (((opened start {} events []).deeds (turns ++ more)).filterMap Deed.cycle?)
          outcome := by
  intro m rom events before turns more
  have h : rom.length ≤ Memory.maxProgramSize := by decide
  obtain ⟨start, hl, hall⟩ := shutdown_cannot_hang m h {} events [] turns more
  cases hl.symm.trans (Machine.load_of_fits h m)
  have hclosed : ((opened (m.loaded rom) {} events []).run before).shared.keypad.closed = true := by
    decide +kernel
  have hblocked : ((opened (m.loaded rom) {} events []).run before).worker.isBlocked
      ((opened (m.loaded rom) {} events []).run before).shared = true := by decide +kernel
  have hj : ((opened (m.loaded rom) {} events []).run turns).phase = .joining := rfl
  obtain ⟨hw, hends⟩ := hall hj
  exact ⟨h, _, hl, hclosed, hblocked, hj, hw, hends (by decide)⟩

end Session

end ChipEight
