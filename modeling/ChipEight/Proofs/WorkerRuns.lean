import ChipEight.Proofs.WorkerFrames

/-! What a worker has done at any moment: the cycles of one machine, every frame that they call for, and
the end that the last of them leads to. -/
namespace ChipEight

namespace Machine

variable {ρ γ τ : Type} [Randomizer ρ] [LE τ] [Timescale τ] [Clock γ τ]

/-- The machine after a turn that succeeds: the frame has been taken. -/
def served (m : Machine ρ KeypadView γ) : Machine ρ KeypadView γ := (endState (cycle m)).takeFrame.2

/-- The machine after turns on these machines. -/
def servedAll (start : Machine ρ KeypadView γ) (ms : List (Machine ρ KeypadView γ)) :
    Machine ρ KeypadView γ :=
  ms.foldl (fun _ m => m.served) start

/-- Machines that the cycles of a worker can meet one after the other: each is what the turn before it
left, but for the keyboard. -/
def Meets (start : Machine ρ KeypadView γ) : List (Machine ρ KeypadView γ) → Prop
  | [] => True
  | m :: rest => m = { start with keyboard := m.keyboard } ∧ m.served.Meets rest

theorem meets_concat {start : Machine ρ KeypadView γ} {ms : List (Machine ρ KeypadView γ)}
    {m : Machine ρ KeypadView γ} (h : start.Meets ms)
    (hm : m = { start.servedAll ms with keyboard := m.keyboard }) : start.Meets (ms ++ [m]) := by
  induction ms generalizing start with
  | nil => exact ⟨hm, trivial⟩
  | cons first rest ih => exact ⟨h.1, ih h.2 hm⟩

theorem served_sound {m : Machine ρ KeypadView γ} (hm : m.Sound) : m.served.Sound :=
  (perform_safe hm .cycle).endState.takeFrame

theorem Meets.sound {start : Machine ρ KeypadView γ} {ms : List (Machine ρ KeypadView γ)}
    (h : start.Meets ms) (hs : start.Sound) :
    (∀ m ∈ ms, m.Sound) ∧ (start.servedAll ms).Sound := by
  induction ms generalizing start with
  | nil => exact ⟨List.forall_mem_nil _, hs⟩
  | cons first rest ih =>
    obtain ⟨hfirst, hrest⟩ := h
    have hf : first.Sound := by
      rw [hfirst]
      exact hs.withKeyboard first.keyboard
    obtain ⟨hall, hlast⟩ := ih hrest (served_sound hf)
    exact ⟨List.forall_mem_cons.2 ⟨hf, hall⟩, hlast⟩

theorem servedAll_concat (start : Machine ρ KeypadView γ) (ms : List (Machine ρ KeypadView γ))
    (m : Machine ρ KeypadView γ) : start.servedAll (ms ++ [m]) = m.served := by
  rw [servedAll, List.foldl_append]
  rfl

end Machine

/-- The machine that a worker's next cycle meets, but for the keyboard. -/
def Worker.resumed {ρ γ : Type} (w : Worker ρ γ) : Machine ρ KeypadView γ :=
  match w.phase with
  | .sending => w.machine.takeFrame.2
  | .testing | .cycling | .waiting .. | .ended _ => w.machine

namespace Stage

variable {ρ γ τ : Type} [Randomizer ρ] [LE τ] [Timescale τ] [Clock γ τ] {s : Stage ρ γ}
  {w : Worker ρ γ} {shared : Shared} {deeds : List (Deed ρ γ)} {start : Machine ρ KeypadView γ}
  {errors : List LogLine}

/-- The cycles follow on one another, and the worker's machine follows on them. -/
structure Linked (start : Machine ρ KeypadView γ) (s : Stage ρ γ) : Prop where
  met : start.Meets s.cycles
  between : s.worker.phase.between = true → s.worker.machine = start.servedAll s.cycles
  sending : s.worker.phase = .sending → s.worker.machine.takeFrame.2 = start.servedAll s.cycles
  /-- Nothing has been done to the machine but these cycles, up to a frame that was taken or was not. -/
  left : s.worker.machine.takeFrame.2 = (start.servedAll s.cycles).takeFrame.2

theorem Linked.idle (h : s.Linked start)
    (hc : deeds.filterMap Deed.cycle? = [])
    (hb : w.phase.between = true → w.machine = start.servedAll s.cycles) (hp : w.phase ≠ .sending)
    (hleft : w.machine.takeFrame.2 = s.worker.machine.takeFrame.2) :
    Linked start ⟨w, shared, s.deeds ++ deeds⟩ := by
  have hcycles : cycles ⟨w, shared, s.deeds ++ deeds⟩ = s.cycles := by
    rw [cycles_append, hc, List.append_nil]
  constructor
  · rw [hcycles]
    exact h.met
  · rw [hcycles]
    exact hb
  · exact fun hs => absurd hs hp
  · rw [hcycles]
    exact hleft.trans h.left

theorem Linked.cycle (h : s.Linked start) {view : KeypadView} {m : Machine ρ KeypadView γ}
    {phase : WorkerPhase} (hb : s.worker.phase.between = true)
    (hm : Machine.endState (Machine.cycle { s.worker.machine with keyboard := view }) = m)
    (hp : phase.between = false) :
    Linked start ⟨{ machine := m, phase }, shared,
      s.deeds ++ [.cycled { s.worker.machine with keyboard := view }]⟩ := by
  have hcycles : cycles ⟨{ machine := m, phase }, shared,
      s.deeds ++ [.cycled { s.worker.machine with keyboard := view }]⟩ =
      s.cycles ++ [{ s.worker.machine with keyboard := view }] := cycles_append _ _ s _
  have hserved : m.takeFrame.2 =
      start.servedAll (s.cycles ++ [{ s.worker.machine with keyboard := view }]) := by
    rw [Machine.servedAll_concat, Machine.served, hm]
  constructor
  · rw [hcycles]
    exact Machine.meets_concat h.met (by rw [h.between hb])
  · intro hbetween
    cases hp.symm.trans hbetween
  · rw [hcycles]
    exact fun _ => hserved
  · rw [hcycles, ← hserved, Machine.takeFrame_takeFrame]

theorem linked_stepped (h : s.Linked start)
    (hs : s.worker.Stepped s.shared w shared deeds) : Linked start ⟨w, shared, s.deeds ++ deeds⟩ := by
  cases hs with
  | go hp hr => exact h.idle rfl (fun _ => h.between (by rw [hp]; rfl)) nofun rfl
  | stop hp hr => exact h.idle rfl nofun nofun rfl
  | wait hw hl => exact h.idle rfl (fun _ => h.between hw.between) nofun rfl
  | stay =>
    rw [List.append_nil]
    exact h
  | succeed view hg hc => exact h.cycle hg.between (by rw [hc]; rfl) rfl
  | fail view hg hc hv => exact h.cycle hg.between (by rw [hc]; rfl) rfl
  | idle hp hd =>
    refine h.idle rfl (fun _ => ?_) nofun rfl
    rw [← h.sending hp, Machine.takeFrame_of_clean hd]
  | send hp hd hl hf =>
    exact h.idle rfl (fun _ => h.sending hp) nofun (Machine.takeFrame_takeFrame s.worker.machine)
  | drop hp hd hl => exact h.idle rfl nofun nofun (Machine.takeFrame_takeFrame s.worker.machine)

/-- Any worker can be taken up where it is. -/
theorem linked_resumed (w : Worker ρ γ) (shared : Shared) : Linked w.resumed ⟨w, shared, []⟩ := by
  obtain ⟨machine, phase⟩ := w
  cases phase with
  | sending => exact ⟨trivial, nofun, fun _ => rfl, (Machine.takeFrame_takeFrame machine).symm⟩
  | testing | cycling | waiting | ended => exact ⟨trivial, fun _ => rfl, nofun, rfl⟩

theorem Linked.withShared (h : s.Linked start) (shared : Shared) : Linked start { s with shared } :=
  ⟨h.met, h.between, h.sending, h.left⟩

theorem linked_run (h : s.Linked start) (moves : List Move) : (s.run moves).Linked start := by
  induction moves generalizing s with
  | nil => exact h
  | cons move rest ih =>
    apply ih
    cases move with
    | worker => exact linked_stepped h (s.worker.stepped s.shared)
    | keypad | wake | stop | receive | hangUp | warn => exact h.withShared _

/-- What holds of a worker at every moment. -/
structure Inv (start : Machine ρ KeypadView γ) (errors : List LogLine) (s : Stage ρ γ) : Prop where
  sound : start.Sound
  linked : s.Linked start
  accounted : s.Accounted errors
  faithful : s.Faithful

theorem Inv.machine_sound (h : s.Inv start errors) (hp : s.worker.phase.between = true) :
    s.worker.machine.Sound := by
  rw [h.linked.between hp]
  exact (h.linked.met.sound h.sound).2

theorem inv_worker (h : s.Inv start errors) : (s.step .worker).Inv start errors := by
  have hs := s.worker.stepped s.shared
  have hm := h.machine_sound
  exact
    { sound := h.sound
      linked := linked_stepped h.linked hs
      accounted := accounted_stepped hm h.accounted hs
      faithful := faithful_stepped hm h.accounted.judged h.faithful hs }

/-- A change of what is shared that takes back nothing. -/
theorem inv_shared (h : s.Inv start errors)
    (hsent : shared.frames.sent = s.shared.frames.sent)
    (hlistening : s.shared.frames.listening = false → shared.frames.listening = false)
    (hrunning : s.shared.running = false → shared.running = false)
    (hclosed : s.shared.keypad.closed = true → shared.keypad.closed = true)
    (hlog : errorLines shared.log = errorLines s.shared.log) : Inv start errors { s with shared } where
  sound := h.sound
  linked := h.linked.withShared shared
  accounted :=
    { judged := h.accounted.judged
      log := hlog.trans h.accounted.log
      unheard := fun frame hf => hlistening (h.accounted.unheard frame hf)
      stopped := fun hf => hrunning (h.accounted.stopped hf)
      closed := fun m m' hf hc => hclosed (h.accounted.closed m m' hf hc) }
  faithful := by
    have hs : sent { s with shared } = s.sent := congrArg Array.toList hsent
    have hf := h.faithful
    exact ⟨by rw [hs]; exact hf.frames, by rw [hs]; exact hf.current, hf.fresh, hf.begun⟩

theorem inv_step (h : s.Inv start errors) (move : Move) : (s.step move).Inv start errors := by
  cases move with
  | worker => exact inv_worker h
  | keypad event => exact inv_shared h rfl id id (Keypad.closed_play event) rfl
  | wake => exact inv_shared h rfl id id id rfl
  | stop => exact inv_shared h rfl id (fun _ => rfl) id rfl
  | receive => exact inv_shared h rfl id id id rfl
  | hangUp => exact inv_shared h rfl (fun _ => rfl) id id rfl
  | warn text => exact inv_shared h rfl id id id (by simp [errorLines, Shared.note])

theorem inv_run (h : s.Inv start errors) (moves : List Move) :
    (s.run moves).Inv start errors := by
  induction moves generalizing s with
  | nil => exact h
  | cons move rest ih => exact ih (inv_step h move)

theorem inv_start {m : Machine ρ KeypadView γ} (hm : m.Sound) (hd : m.screen.dirty = true)
    (keypad : Keypad) (log : List LogLine) :
    Inv m (errorLines log) ⟨{ machine := m }, { keypad, log }, []⟩ where
  sound := hm
  linked := ⟨trivial, fun _ => rfl, nofun, rfl⟩
  accounted :=
    { judged := by
        intro d hd
        cases hd
      log := (List.append_nil _).symm
      unheard := fun frame hf => absurd hf List.not_mem_nil
      stopped := fun hf => absurd hf List.not_mem_nil
      closed := fun m m' hf => absurd hf List.not_mem_nil }
  faithful :=
    { frames := rfl
      current := by
        rintro ⟨m, hm, -⟩
        cases hm
      fresh := fun _ => hd
      begun := by intro e; cases e }

theorem not_crashed (h : s.Inv start errors) (d : Defect) :
    s.worker.phase ≠ .ended (.crashed d) := by
  intro hp
  obtain ⟨deed, hlast, hv⟩ := (ended_iff h.accounted.judged _).1 hp
  cases deed with
  | tested running => cases running <;> cases hv
  | unsent frame => cases hv
  | cycled m =>
    have hmem : m ∈ s.cycles := mem_cycles.2 (List.mem_of_getLast? hlast)
    match hc : Machine.cycle m with
    | .ok () m' => cases (Deed.verdict_of_ok hc).symm.trans hv
    | .error (.defect d) m' =>
      have hm := (h.linked.met.sound h.sound).1 m hmem
      cases Machine.cycle_spared hm.depth hc
    | .error (.fault f) m' =>
      rw [Deed.verdict_of_fault hc] at hv
      split at hv <;> cases hv

theorem finished_iff (h : s.Inv start errors) :
    s.worker.phase = .ended .finished ↔
      (s.deeds.getLast? = some (.tested false) ∧ s.shared.running = false) ∨
      (∃ m m', s.deeds.getLast? = some (.cycled m) ∧
        Machine.cycle m = .error (.fault .inputClosed) m' ∧ s.shared.keypad.closed = true) ∨
      ∃ frame, s.deeds.getLast? = some (.unsent frame) ∧ s.shared.frames.listening = false ∧
        s.sent ++ [frame] = Machine.dueFrames s.cycles := by
  have ha := h.accounted
  constructor
  · intro hp
    obtain ⟨d, hlast, hv⟩ := (ended_iff ha.judged _).1 hp
    have hmem := List.mem_of_getLast? hlast
    rcases Deed.verdict_eq_finished.1 hv with rfl | ⟨m, m', rfl, hc⟩ | ⟨frame, rfl⟩
    · exact .inl ⟨hlast, ha.stopped hmem⟩
    · exact .inr (.inl ⟨m, m', hlast, hc, ha.closed m m' hmem hc⟩)
    · have hframes := h.faithful.frames
      rw [owed, hp, hlast] at hframes
      exact .inr (.inr ⟨frame, hlast, ha.unheard frame hmem, hframes⟩)
  · intro hd
    apply (ended_iff ha.judged _).2
    rcases hd with ⟨hlast, -⟩ | ⟨m, m', hlast, hc, -⟩ | ⟨frame, hlast, -⟩
    · exact ⟨_, hlast, rfl⟩
    · exact ⟨_, hlast, Deed.verdict_eq_finished.2 (.inr (.inl ⟨m, m', rfl, hc⟩))⟩
    · exact ⟨_, hlast, rfl⟩

theorem owed_of_listening (h : s.Inv start errors)
    (hl : s.shared.frames.listening = true) (hp : s.worker.phase ≠ .sending) : s.owed = [] := by
  unfold owed
  split
  · rename_i hs
    exact absurd hs hp
  · cases hd : s.deeds.getLast?.bind Deed.unsent? with
    | none => rfl
    | some frame =>
      obtain ⟨d, hlast, hu⟩ := Option.bind_eq_some_iff.1 hd
      cases d <;> cases hu
      have hn := h.accounted.unheard frame (List.mem_of_getLast? hlast)
      rw [hl] at hn
      cases hn
  · rfl

/-- What a worker has sent, and how it ended, as its cycles tell it. -/
structure Told (start : Machine ρ KeypadView γ) (log : List LogLine) (s : Stage ρ γ) : Prop where
  /-- The cycles are those of one machine, run from its start on. -/
  meets : start.Meets s.cycles
  /-- At the end of a turn everything has been sent, if there still is a receiver. -/
  sent_eq : s.shared.frames.listening = true → s.worker.phase ≠ .sending →
    s.sent = Machine.dueFrames s.cycles
  /-- Nothing else is ever sent. -/
  sent_initial : s.sent <+: Machine.dueFrames s.cycles
  last_sent : s.shared.frames.listening = true → s.worker.phase ≠ .sending →
    (∃ m ∈ s.cycles, m.succeeds) → s.sent.getLast? = some s.worker.machine.screen.pixels
  failed_iff : ∀ e, s.worker.phase = .ended (.failed e) ↔
    e ≠ .inputClosed ∧ ∃ m m', s.cycles.getLast? = some m ∧ Machine.cycle m = .error (.fault e) m'
  finished_iff : s.worker.phase = .ended .finished ↔
    (s.deeds.getLast? = some (.tested false) ∧ s.shared.running = false) ∨
    (∃ m m', s.deeds.getLast? = some (.cycled m) ∧
      Machine.cycle m = .error (.fault .inputClosed) m' ∧ s.shared.keypad.closed = true) ∨
    ∃ frame, s.deeds.getLast? = some (.unsent frame) ∧ s.shared.frames.listening = false ∧
      s.sent ++ [frame] = Machine.dueFrames s.cycles
  not_crashed : ∀ d, s.worker.phase ≠ .ended (.crashed d)
  /-- The error that ended the work has one line in the log, and there is no other. -/
  log_eq : errorLines s.shared.log = errorLines log ++ s.worker.phase.lines

theorem Inv.told {log : List LogLine} (h : s.Inv start (errorLines log)) :
    s.Told start log where
  meets := h.linked.met
  sent_eq hl hp := by
    have hf := h.faithful.frames
    rw [owed_of_listening h hl hp, List.append_nil] at hf
    exact hf
  sent_initial := ⟨s.owed, h.faithful.frames⟩
  last_sent hl hp hm := by
    have hc := h.faithful.current hm
    rw [owed_of_listening h hl hp, List.append_nil] at hc
    exact hc
  failed_iff := Stage.failed_iff h.accounted.judged
  finished_iff := Stage.finished_iff h
  not_crashed := Stage.not_crashed h
  log_eq := h.accounted.log

end Stage

end ChipEight
