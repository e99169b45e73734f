import ChipEight.Proofs.WorkerRuns
import ChipEight.Session.Basic

/-! A session moves its worker and the things around it in the ways that are considered for a worker by
itself, so that what holds of every worker holds of the worker of a session. -/
namespace ChipEight.Session

variable {ρ γ ε τ : Type}

/-- The worker of a session and what it shares with the loop. -/
def stage (s : Session ρ γ ε) (deeds : List (Deed ρ γ)) : Stage ρ γ := ⟨s.worker, s.shared, deeds⟩

variable [Randomizer ρ] [LE τ] [Timescale τ] [Clock γ τ]

theorem handle_moves (s : Session ρ γ ε) (event : HostEvent) (rest : List HostEvent)
    (deeds : List (Deed ρ γ)) :
    ∃ moves, (s.stage deeds).run moves = (s.handle event rest).stage deeds := by
  unfold handle
  cases event.reaction with
  | quit => exact ⟨[], rfl⟩
  | keypad event => exact ⟨[.keypad event], rfl⟩
  | unmapped code => exact ⟨[.warn _], rfl⟩
  | nothing => exact ⟨[], rfl⟩

theorem present_moves (s : Session ρ γ ε) (deeds : List (Deed ρ γ)) :
    ∃ moves, (s.stage deeds).run moves = s.present.stage deeds := by
  unfold present
  cases ht : s.shared.frames.takeLatest with | mk newest frames
  have hr : (s.stage deeds).run [.receive] = ⟨s.worker, { s.shared with frames }, deeds⟩ := by
    show Stage.mk s.worker { s.shared with frames := s.shared.frames.takeLatest.2 } deeds = _
    rw [ht]
  cases newest with
  | none => exact ⟨[.receive], hr⟩
  | some frame =>
    cases h : Host.render frame s.host with
    | ok u host =>
      refine ⟨[.receive], ?_⟩
      simp only [h]
      exact hr
    | error failure host =>
      refine ⟨[.receive, .hangUp], ?_⟩
      simp only [h]
      exact congrArg (·.step .hangUp) hr

/-- A turn of the loop is a few moves around the worker. -/
theorem loopStep_moves [EventSource ε] (s : Session ρ γ ε) (deeds : List (Deed ρ γ)) :
    ∃ moves, (s.stage deeds).run moves = s.loopStep.stage deeds := by
  unfold loopStep
  cases s.phase with
  | polling => exact ⟨[], rfl⟩
  | handling batch =>
    cases batch with
    | nil => exact ⟨[], rfl⟩
    | cons event rest => exact handle_moves s event rest deeds
  | presenting => exact present_moves s deeds
  | asking => exact ⟨[], rfl⟩
  | stopping => exact ⟨[.stop], rfl⟩
  | closing => exact ⟨[.keypad .close], rfl⟩
  | waking => exact ⟨[.wake], rfl⟩
  | joining =>
    cases hp : s.worker.phase with
    | ended how => exact ⟨[], rfl⟩
    | _ => exact ⟨[], rfl⟩
  | ended outcome => exact ⟨[], rfl⟩

/-- What the worker's steps are remembered for in some turns. -/
def deeds [EventSource ε] (s : Session ρ γ ε) : List Turn → List (Deed ρ γ)
  | [] => []
  | .worker :: rest => (s.worker.step s.shared).deed?.toList ++ (s.step .worker).deeds rest
  | .loop :: rest => (s.step .loop).deeds rest
  | .wake :: rest => (s.step .wake).deeds rest

theorem run_append [EventSource ε] (s : Session ρ γ ε) (turns more : List Turn) :
    s.run (turns ++ more) = (s.run turns).run more := List.foldl_append

theorem run_moves [EventSource ε] (s : Session ρ γ ε) (turns : List Turn) (past : List (Deed ρ γ)) :
    ∃ moves, (s.stage past).run moves = (s.run turns).stage (past ++ s.deeds turns) := by
  induction turns generalizing s past with
  | nil => exact ⟨[], by rw [deeds, List.append_nil]; rfl⟩
  | cons turn rest ih =>
    cases turn with
    | worker =>
      obtain ⟨moves, h⟩ := ih (s.step .worker) (past ++ (s.worker.step s.shared).deed?.toList)
      rw [List.append_assoc] at h
      exact ⟨.worker :: moves, h⟩
    | loop =>
      obtain ⟨first, hfirst⟩ := loopStep_moves s past
      obtain ⟨later, hlater⟩ := ih (s.step .loop) past
      refine ⟨first ++ later, ?_⟩
      rw [Stage.run, List.foldl_append]
      exact (congrArg (·.run later) hfirst).trans hlater
    | wake =>
      obtain ⟨moves, h⟩ := ih (s.step .wake) past
      exact ⟨.wake :: moves, h⟩

/-- What the machine of the worker has come through in some turns are the cycles that the steps are
remembered for. -/
theorem run_linked [EventSource ε] (s : Session ρ γ ε) (turns : List Turn) :
    ((s.run turns).stage (s.deeds turns)).Linked s.worker.resumed := by
  obtain ⟨moves, hm⟩ := run_moves s turns []
  rw [List.nil_append] at hm
  rw [← hm]
  exact Stage.linked_run (Stage.linked_resumed s.worker s.shared) moves

variable {s : Session ρ γ ε} {start : Machine ρ KeypadView γ} {log : List LogLine} {past : List (Deed ρ γ)}

theorem run_inv [EventSource ε] (h : (s.stage past).Inv start (errorLines log)) (turns : List Turn) :
    ((s.run turns).stage (past ++ s.deeds turns)).Inv start (errorLines log) := by
  obtain ⟨moves, hm⟩ := run_moves s turns past
  rw [← hm]
  exact Stage.inv_run h moves

/-- The worker of a session never sends a picture that its cycles do not call for, or leaves one out. -/
theorem run_told [EventSource ε] (h : (s.stage past).Inv start (errorLines log)) (turns : List Turn) :
    ((s.run turns).stage (past ++ s.deeds turns)).Told start log :=
  (run_inv h turns).told

end ChipEight.Session
