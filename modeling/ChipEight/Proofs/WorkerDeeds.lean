import ChipEight.Proofs.WorkerSteps

/-! A worker among its surroundings, which take their steps in any order, and what its end and the log
tell about its deeds. -/
namespace ChipEight

/-- What a worker and its surroundings do next. -/
inductive Move
  | worker
  /-- An event happens while the keypad is locked. -/
  | keypad (event : KeypadEvent)
  /-- Those who sleep are woken, for a reason or for none. -/
  | wake
  /-- The running flag is cleared. -/
  | stop
  /-- The frames sent so far are received. -/
  | receive
  | hangUp
  | warn (text : String)

/-- A worker and what it shares, with everything that it has done. -/
structure Stage (ρ γ : Type) where
  worker : Worker ρ γ
  shared : Shared
  deeds : List (Deed ρ γ) := []

namespace Stage

variable {ρ γ τ : Type}

/-- The machines that the cycles met, in order. -/
def cycles (s : Stage ρ γ) : List (Machine ρ KeypadView γ) := s.deeds.filterMap Deed.cycle?

variable {s : Stage ρ γ} {w : Worker ρ γ} {shared : Shared} {deeds : List (Deed ρ γ)}
  {errors : List LogLine}

theorem mem_cycles {m : Machine ρ KeypadView γ} : m ∈ s.cycles ↔ .cycled m ∈ s.deeds := by
  constructor
  · intro hm
    obtain ⟨d, hd, hc⟩ := List.mem_filterMap.1 hm
    cases d <;> cases hc
    exact hd
  · exact fun hd => List.mem_filterMap.2 ⟨_, hd, rfl⟩

theorem cycles_append (w : Worker ρ γ) (shared : Shared) (s : Stage ρ γ) (new : List (Deed ρ γ)) :
    cycles ⟨w, shared, s.deeds ++ new⟩ = s.cycles ++ new.filterMap Deed.cycle? :=
  List.filterMap_append

section
variable [Randomizer ρ] [LE τ] [Timescale τ] [Clock γ τ]

def step (s : Stage ρ γ) : Move → Stage ρ γ
  | .worker =>
    let stride := s.worker.step s.shared
    { worker := stride.worker, shared := stride.shared, deeds := s.deeds ++ stride.deed?.toList }
  | .keypad event => { s with shared := s.shared.play event }
  | .wake => { s with shared := s.shared.wakeAll }
  | .stop => { s with shared := { s.shared with running := false } }
  | .receive => { s with shared := { s.shared with frames := s.shared.frames.takeLatest.2 } }
  | .hangUp => { s with shared := { s.shared with frames := s.shared.frames.hangUp } }
  | .warn text => { s with shared := s.shared.note ⟨.warn, text⟩ }

def run (s : Stage ρ γ) (moves : List Move) : Stage ρ γ := moves.foldl step s

/-- A deed ends the work if and only if it is the last one. -/
def Judged (s : Stage ρ γ) : Prop :=
  match s.worker.phase with
  | .ended how =>
    ∃ before d, s.deeds = before ++ [d] ∧ d.verdict = some how ∧ ∀ b ∈ before, b.verdict = none
  | _ => ∀ d ∈ s.deeds, d.verdict = none

/-- What a worker's end and its log tell about its deeds. -/
structure Accounted (errors : List LogLine) (s : Stage ρ γ) : Prop where
  judged : s.Judged
  log : errorLines s.shared.log = errors ++ s.worker.phase.lines
  unheard : ∀ frame, .unsent frame ∈ s.deeds → s.shared.frames.listening = false
  stopped : .tested false ∈ s.deeds → s.shared.running = false
  closed : ∀ m m', .cycled m ∈ s.deeds → Machine.cycle m = .error (.fault .inputClosed) m' →
    s.shared.keypad.closed = true

theorem Judged.continue {s : Stage ρ γ} (hs : ∀ d ∈ s.deeds, d.verdict = none)
    {new : List (Deed ρ γ)} (hn : ∀ d ∈ new, d.verdict = none) {w : Worker ρ γ} {shared : Shared}
    (hw : w.hasEnded = false) : Judged ⟨w, shared, s.deeds ++ new⟩ := by
  have hd : ∀ d ∈ s.deeds ++ new, d.verdict = none := by
    intro d hd
    rcases List.mem_append.1 hd with hd | hd
    · exact hs d hd
    · exact hn d hd
  unfold Judged
  cases hp : w.phase with
  | ended how =>
    rw [Worker.hasEnded, hp] at hw
    cases hw
  | _ => simpa only [hp] using hd

theorem Judged.going {s : Stage ρ γ} (h : s.Judged) (hw : s.worker.hasEnded = false) :
    ∀ d ∈ s.deeds, d.verdict = none := by
  unfold Judged at h
  cases hp : s.worker.phase with
  | ended how =>
    rw [Worker.hasEnded, hp] at hw
    cases hw
  | _ => simpa only [hp] using h

theorem judged_stepped (h : s.Judged) (hs : s.worker.Stepped s.shared w shared deeds) :
    Judged ⟨w, shared, s.deeds ++ deeds⟩ := by
  cases hs with
  | go hp hr =>
    exact .continue (h.going (Worker.hasEnded_of_between (by rw [hp]; rfl))) (by simp [Deed.verdict]) rfl
  | stop hp hr =>
    exact ⟨s.deeds, _, rfl, rfl, h.going (Worker.hasEnded_of_between (by rw [hp]; rfl))⟩
  | wait hw hl => exact .continue (h.going (Worker.hasEnded_of_between hw.between)) (by simp) rfl
  | stay =>
    rw [List.append_nil]
    exact h
  | succeed view hg hc =>
    have hgoing := h.going (Worker.hasEnded_of_between hg.between)
    exact .continue hgoing (by simpa using Deed.verdict_of_ok hc) rfl
  | fail view hg hc hv => exact ⟨s.deeds, _, rfl, hv, h.going (Worker.hasEnded_of_between hg.between)⟩
  | idle hp hd => exact .continue (h.going (by rw [Worker.hasEnded, hp])) (by simp) rfl
  | send hp hd hl hf => exact .continue (h.going (by rw [Worker.hasEnded, hp])) (by simp) rfl
  | drop hp hd hl => exact ⟨s.deeds, _, rfl, rfl, h.going (by rw [Worker.hasEnded, hp])⟩

theorem accounted_stepped (hm : s.worker.phase.between = true → s.worker.machine.Sound)
    (h : s.Accounted errors) (hs : s.worker.Stepped s.shared w shared deeds) :
    Accounted errors ⟨w, shared, s.deeds ++ deeds⟩ where
  judged := judged_stepped h.judged hs
  log := hs.errorLines_eq h.log
  unheard frame hf := by
    refine hs.listening_eq.trans ?_
    rcases List.mem_append.1 hf with hf | hf
    · exact h.unheard frame hf
    · exact hs.listening_of_unsent hf
  stopped hf := by
    refine hs.running_eq.trans ?_
    rcases List.mem_append.1 hf with hf | hf
    · exact h.stopped hf
    · exact hs.running_of_tested hf
  closed m m' hf hc := by
    rw [hs.keypad_eq]
    rcases List.mem_append.1 hf with hf | hf
    · exact h.closed m m' hf hc
    · exact hs.closed_of_cycled hm hf hc

theorem ended_iff (h : s.Judged) (how : WorkerEnd) :
    s.worker.phase = .ended how ↔ ∃ d, s.deeds.getLast? = some d ∧ d.verdict = some how := by
  unfold Judged at h
  constructor
  · intro hp
    rw [hp] at h
    obtain ⟨before, d, hd, hv, -⟩ := h
    exact ⟨d, by rw [hd, List.getLast?_concat], hv⟩
  · rintro ⟨d, hd, hv⟩
    cases hp : s.worker.phase with
    | ended how' =>
      rw [hp] at h
      obtain ⟨before, d', hd', hv', -⟩ := h
      rw [hd', List.getLast?_concat] at hd
      cases hd
      rw [Option.some.inj (hv'.symm.trans hv)]
    | _ =>
      rw [hp] at h
      cases (h d (List.mem_of_getLast? hd)).symm.trans hv

/-- No deed calls for another end than that of the worker. -/
theorem Judged.verdict_eq (h : s.Judged) {how how' : WorkerEnd} (hw : s.worker.phase = .ended how)
    {d : Deed ρ γ} (hd : d ∈ s.deeds) (hv : d.verdict = some how') : how' = how := by
  rw [Judged, hw] at h
  obtain ⟨before, last, hsplit, hlast, hbefore⟩ := h
  rw [hsplit] at hd
  rcases List.mem_append.1 hd with hd | hd
  · cases (hbefore d hd).symm.trans hv
  · rw [List.mem_singleton.1 hd, hlast] at hv
    exact (Option.some.inj hv).symm

theorem failed_iff (h : s.Judged) (e : Fault) :
    s.worker.phase = .ended (.failed e) ↔
      e ≠ .inputClosed ∧ ∃ m m', s.cycles.getLast? = some m ∧ Machine.cycle m = .error (.fault e) m' := by
  constructor
  · intro hp
    obtain ⟨d, hlast, hv⟩ := (ended_iff h _).1 hp
    obtain ⟨m, m', rfl, hc, hne⟩ := Deed.verdict_eq_failed.1 hv
    obtain ⟨before, hd⟩ := List.getLast?_eq_some_iff.1 hlast
    refine ⟨hne, m, m', ?_, hc⟩
    rw [cycles, hd, List.filterMap_append]
    exact List.getLast?_concat
  · rintro ⟨hne, m, m', hlast, hc⟩
    have hv : (Deed.cycled m).verdict = some (.failed e) :=
      Deed.verdict_eq_failed.2 ⟨m, m', rfl, hc, hne⟩
    have hd : .cycled m ∈ s.deeds := mem_cycles.1 (List.mem_of_getLast? hlast)
    refine (ended_iff h _).2 ⟨_, ?_, hv⟩
    unfold Judged at h
    split at h
    · obtain ⟨before, d, hsplit, -, hb⟩ := h
      rw [hsplit] at hd ⊢
      rcases List.mem_append.1 hd with hd | hd
      · cases (hb _ hd).symm.trans hv
      · rw [List.getLast?_concat, List.mem_singleton.1 hd]
    · cases (h _ hd).symm.trans hv

/-- As long as the work goes on, every cycle has succeeded. -/
theorem succeeds_of_going (h : ∀ d ∈ s.deeds, d.verdict = none) : ∀ m ∈ s.cycles, m.succeeds := by
  intro m hm
  have hv := h _ (mem_cycles.1 hm)
  rw [Deed.verdict] at hv
  split at hv
  · rename_i m' hok
    exact ⟨m', hok⟩
  all_goals cases hv

end

end Stage

end ChipEight
