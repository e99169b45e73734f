import ChipEight.Proofs.HostStages
import ChipEight.Proofs.Shutdown
import Mathlib.Data.List.Induction

/-! What has been shown of the frames that were sent, in every order of the turns. The loop shows the newest
of the frames that it finds in the queue, so at the end the last frame sent is on show unless it came after
the loop's last look at the queue. -/
namespace ChipEight

namespace Channel

variable {α : Type} {c : Channel α}

/-- What has been taken out so far. -/
def taken (c : Channel α) : List α := c.sent.toList.take c.received

theorem taken_append_pending (c : Channel α) : c.taken ++ c.pending = c.sent.toList :=
  List.take_append_drop c.received c.sent.toList

theorem taken_takeLatest (c : Channel α) : c.takeLatest.2.taken = c.taken ++ c.pending := by
  rw [taken_append_pending]
  exact List.take_of_length_le (Nat.le_of_eq c.sent.length_toList)

theorem newest_takeLatest (c : Channel α) : c.takeLatest.1 = c.pending.getLast? := by
  by_cases h : c.received < c.sent.size
  · simp [takeLatest, pending, List.getLast?_drop, h, Nat.not_le.2 h]
  · simp [takeLatest, pending, List.getLast?_drop, h, Nat.not_lt.1 h]

theorem taken_push {a : α} (h : c.received ≤ c.sent.size) :
    ({ c with sent := c.sent.push a } : Channel α).taken = c.taken := by
  simp [taken, List.take_append_of_le_length, h]

end Channel

/-- The loop handles no more events and shows no more frames. -/
def LoopPhase.hasLeft : LoopPhase → Bool
  | .stopping | .closing | .waking | .joining | .ended _ => true
  | .polling | .handling _ | .presenting | .asking => false

/-- A step of a worker sends one frame or none. -/
theorem Worker.Stepped.frames_cases {ρ γ τ : Type} [Randomizer ρ] [LE τ] [Timescale τ] [Clock γ τ]
    {w w' : Worker ρ γ} {shared shared' : Shared} {deeds : List (Deed ρ γ)}
    (h : w.Stepped shared w' shared' deeds) :
    shared'.frames = shared.frames ∨
      ∃ frame, shared'.frames = { shared.frames with sent := shared.frames.sent.push frame } := by
  cases h with
  | fail _ _ _ _ => exact .inl (WorkerEnd.report_frames _ shared)
  | send _ _ _ hf => exact .inr ⟨_, hf⟩
  | _ => exact .inl rfl

theorem Machine.binary_of_mem_dueFrames {ρ γ τ : Type} [Randomizer ρ] [LE τ] [Timescale τ] [Clock γ τ]
    {ms : List (Machine ρ KeypadView γ)} (hms : ∀ m ∈ ms, m.Sound) {frame : Frame}
    (h : frame ∈ dueFrames ms) : frame.Binary := by
  have hdue {first : Bool} {m : Machine ρ KeypadView γ} (hm : m ∈ ms)
      (hframe : m.dueFrame first = some frame) : frame.Binary := by
    rw [dueFrame] at hframe
    cases hc : cycle m with
    | error e m' => simp [hc] at hframe
    | ok u m' =>
      simp only [hc, Option.ite_none_right_eq_some, Option.some.injEq] at hframe
      rw [← hframe.2]
      exact (cycle_sound (hms m hm) hc).pixels
  cases ms with
  | nil => simp [dueFrames] at h
  | cons m rest =>
    rw [dueFrames, List.mem_append, Option.mem_toList, List.mem_filterMap] at h
    rcases h with hfirst | ⟨m', hm', hlater⟩
    · exact hdue List.mem_cons_self hfirst
    · exact hdue (List.mem_cons_of_mem m hm') hlater

namespace Session

variable {ρ γ ε τ : Type} {s s' : Session ρ γ ε} {earlier : List Frame}

/-- After the pictures of `earlier` and a blank one, frames have been shown that were taken out of the queue,
in their order, the newest of them last. -/
structure Shows (earlier : List Frame) (s : Session ρ γ ε) : Prop where
  received_le : s.shared.frames.received ≤ s.shared.frames.sent.size
  shown : ∃ presented, s.host.shown.toList = earlier ++ Frame.blank :: presented ∧
    presented.Sublist s.shared.frames.taken ∧ presented.getLast? = s.shared.frames.taken.getLast?

theorem Shows.picture_eq (h : s.Shows earlier) :
    s.host.picture = s.shared.frames.taken.getLast?.getD Frame.blank := by
  obtain ⟨presented, hshown, -, hlast⟩ := h.shown
  rw [Host.picture, ← Array.getLast?_toList, hshown, ← hlast]
  simp [List.getLast?_append, List.getLast?_cons]

/-- The last frame that the worker has sent, a blank one if there is none. -/
def lastSent (s : Session ρ γ ε) : Frame := s.shared.frames.sent.back?.getD Frame.blank

theorem lastSent_eq (s : Session ρ γ ε) : s.lastSent =
    (s.shared.frames.pending.getLast?.or s.shared.frames.taken.getLast?).getD Frame.blank := by
  rw [lastSent, ← Array.getLast?_toList, ← Channel.taken_append_pending, List.getLast?_append]

theorem Shows.congr (h : s.Shows earlier) (hhost : s'.host = s.host)
    (hframes : s'.shared.frames = s.shared.frames) : s'.Shows earlier := by
  constructor
  · rw [hframes]
    exact h.received_le
  · rw [hhost, hframes]
    exact h.shown

/-- A look at the queue leaves nothing in it and the newest frame on show, unless the host refuses. -/
theorem Shows.present (h : s.Shows earlier)
    (hbinary : ∀ frame ∈ s.shared.frames.sent.toList, frame.Binary) :
    s.present.Shows earlier ∨ ∃ failure, s.present.phase = .ended (.error failure) := by
  obtain ⟨presented, hshown, hsub, hlast⟩ := h.shown
  have hnewest := s.shared.frames.newest_takeLatest
  have htaken := s.shared.frames.taken_takeLatest
  have hreceived : s.shared.frames.takeLatest.2.received ≤ s.shared.frames.takeLatest.2.sent.size :=
    Nat.le_refl _
  unfold Session.present
  generalize s.shared.frames.takeLatest = drained at hnewest htaken hreceived ⊢
  obtain ⟨newest, frames⟩ := drained
  cases newest with
  | none =>
    have hempty : s.shared.frames.pending = [] := List.getLast?_eq_none_iff.1 hnewest.symm
    have hsame : frames.taken = s.shared.frames.taken := by
      rw [htaken, hempty, List.append_nil]
    refine .inl ⟨hreceived, presented, hshown, ?_⟩
    show presented.Sublist frames.taken ∧ presented.getLast? = frames.taken.getLast?
    rw [hsame]
    exact ⟨hsub, hlast⟩
  | some frame =>
    have hmem : frame ∈ s.shared.frames.pending := List.mem_of_getLast? hnewest.symm
    have hsent : frame ∈ s.shared.frames.sent.toList := List.mem_of_mem_drop hmem
    cases hr : Host.render frame s.host with
    | error failure host =>
      simp only [hr]
      exact .inr ⟨failure, rfl⟩
    | ok u host =>
      have hhost := Host.render_shown (hbinary frame hsent) hr
      simp only [hr]
      refine .inl ⟨hreceived, presented ++ [frame], ?_⟩
      show host.shown.toList = _ ∧ (presented ++ [frame]).Sublist frames.taken ∧
        (presented ++ [frame]).getLast? = frames.taken.getLast?
      rw [htaken]
      refine ⟨by simp [hhost, hshown], hsub.append (List.singleton_sublist.2 hmem), ?_⟩
      rw [List.getLast?_concat, List.getLast?_append, ← hnewest, Option.some_or]

theorem present_of_accepts (h : s.host.Accepts)
    (hbinary : ∀ frame ∈ s.shared.frames.sent.toList, frame.Binary) :
    s.present.phase = .asking ∧ s.present.worker = s.worker ∧
      s.present.shared.frames = s.shared.frames.takeLatest.2 := by
  have hnewest := s.shared.frames.newest_takeLatest
  unfold Session.present
  generalize s.shared.frames.takeLatest = drained at hnewest ⊢
  obtain ⟨newest, frames⟩ := drained
  cases newest with
  | none => exact ⟨rfl, rfl, rfl⟩
  | some frame =>
    have hsent : frame ∈ s.shared.frames.sent.toList :=
      List.mem_of_mem_drop (List.mem_of_getLast? hnewest.symm)
    obtain ⟨_, host, hr, -⟩ := Host.granted_render (hbinary frame hsent) s.host h
    simp [hr]

theorem handle_quiet (s : Session ρ γ ε) (event : HostEvent) (rest : List HostEvent) :
    (s.handle event rest).host = s.host ∧ (s.handle event rest).shared.frames = s.shared.frames := by
  unfold handle
  cases event.reaction with
  | quit | keypad | unmapped | nothing => exact ⟨rfl, rfl⟩

/-- Apart from its looks at the queue, the loop leaves the host and the frames alone. -/
theorem loopStep_quiet [EventSource ε] (hp : s.phase ≠ .presenting) :
    s.loopStep.host = s.host ∧ s.loopStep.shared.frames = s.shared.frames := by
  unfold loopStep
  cases hphase : s.phase with
  | presenting => exact absurd hphase hp
  | handling batch =>
    cases batch with
    | nil => exact ⟨rfl, rfl⟩
    | cons event rest => exact s.handle_quiet event rest
  | joining => cases hw : s.worker.phase <;> exact ⟨rfl, rfl⟩
  | polling | asking | stopping | closing | waking | ended => exact ⟨rfl, rfl⟩

/-- The loop has left and the worker has ended. -/
structure Left (s : Session ρ γ ε) : Prop where
  ended : s.worker.hasEnded = true
  phase : s.phase.hasLeft = true

theorem Left.loopStep [EventSource ε] (h : s.Left) : s.loopStep.Left := by
  have hphase := h.phase
  unfold Session.loopStep
  cases hp : s.phase with
  | stopping | closing | waking => exact ⟨h.ended, rfl⟩
  | joining =>
    cases hw : s.worker.phase with
    | ended how => exact ⟨h.ended, rfl⟩
    | _ => exact h
  | ended outcome => exact h
  | polling | handling | presenting | asking =>
    rw [hp] at hphase
    cases hphase

theorem ne_blank_of_lit {frame : Frame} (h : frame[0]? = some 1) : frame ≠ Frame.blank := by
  rintro rfl
  cases h

theorem lit_of_back {s : Session ρ γ ε} (h : s.shared.frames.sent.back?.bind (·[0]?) = some 1) :
    s.lastSent[0]? = some 1 := by
  obtain ⟨frame, hback, hlit⟩ := Option.bind_eq_some_iff.1 h
  rw [lastSent, hback]
  exact hlit

/-- The line that is logged of a program that has been loaded. -/
def loadedLine (path : String) (rom : List UInt8) : LogLine :=
  ⟨.info, s!"loaded {path} ({rom.length} bytes)"⟩

theorem loadProgram_of_fits [Clock γ τ] {rom : List UInt8} (hrom : rom.length ≤ Memory.maxProgramSize)
    (path : String) (machine : Machine ρ KeypadView γ) (desk : Desk) :
    loadProgram path (.ok rom) machine desk =
      .ok (machine.loaded rom) { desk with log := desk.log ++ [loadedLine path rom] } := by
  simp only [loadProgram, Machine.load_of_fits hrom]
  rfl

/-- A program that fits starts on a host that lets itself be set up. -/
theorem start_eq [Clock γ τ] {rom : List UInt8} (hrom : rom.length ≤ Memory.maxProgramSize)
    {scale : UInt32} (desk : Desk) {host : Host} (hopen : openHost scale desk.host = .ok () host)
    (path : String) (machine : Machine ρ KeypadView γ) (events : ε) :
    let log := desk.log ++ [loadedLine path rom]
    Session.start path (.ok rom) scale machine events desk =
      .ok (opened (machine.loaded rom) host events log) { host, log } := by
  intro log
  have hload : loadProgram path (.ok rom) machine desk = .ok (machine.loaded rom) { desk with log } :=
    loadProgram_of_fits hrom path machine desk
  have hhost : onHost (openHost scale) { desk with log } = .ok () { host, log } := by
    simp only [onHost, hopen]
  rw [Session.start, bind_ok hload, bind_ok hhost]
  rfl

section
variable [EventSource ε] [Randomizer ρ] [LE τ] [Timescale τ] [Clock γ τ]

theorem Shows.step (h : s.Shows earlier) (hbinary : ∀ frame ∈ s.shared.frames.sent.toList, frame.Binary)
    (turn : Turn) (hgoing : ∀ outcome, (s.step turn).phase ≠ .ended outcome) :
    (s.step turn).Shows earlier := by
  cases turn with
  | loop =>
    by_cases hp : s.phase = .presenting
    · have hstep : s.step .loop = s.present := by
        show s.loopStep = _
        rw [loopStep, hp]
      rw [hstep] at hgoing ⊢
      obtain hshows | ⟨failure, hended⟩ := h.present hbinary
      · exact hshows
      · exact absurd hended (hgoing _)
    · obtain ⟨hhost, hframes⟩ := loopStep_quiet hp
      exact h.congr hhost hframes
  | worker =>
    obtain hsame | ⟨frame, hpush⟩ := s.stepped.frames_cases
    · exact h.congr rfl hsame
    · constructor
      · rw [hpush]
        exact Nat.le_trans h.received_le (by simp)
      · rw [hpush, Channel.taken_push h.received_le]
        exact h.shown
  | wake => exact h.congr rfl rfl

/-- Turns of the worker alone are steps of the worker. -/
theorem run_workers (s : Session ρ γ ε) (n : Nat) :
    s.run (List.replicate n .worker) = { s with
      worker := (s.worker.steps s.shared n).1, shared := (s.worker.steps s.shared n).2 } := by
  induction n generalizing s with
  | zero => rfl
  | succ n ih => exact ih (s.step .worker)

theorem step_ended {outcome : Except Failure Unit} (h : s.phase = .ended outcome) (turn : Turn) :
    (s.step turn).phase = .ended outcome := by
  cases turn with
  | worker | wake => exact h
  | loop =>
    show s.loopStep.phase = _
    simp [loopStep, h]

theorem run_concat (s : Session ρ γ ε) (turns : List Turn) (turn : Turn) :
    s.run (turns ++ [turn]) = (s.run turns).step turn := by
  rw [run_append]
  rfl

/-- As long as the session goes on, it shows what it finds in the queue. -/
theorem Shows.run (h : s.Shows earlier)
    (hbinary : ∀ turns, ∀ frame ∈ (s.run turns).shared.frames.sent.toList, frame.Binary)
    {turns : List Turn} (hgoing : ∀ outcome, (s.run turns).phase ≠ .ended outcome) :
    (s.run turns).Shows earlier := by
  induction turns using List.reverseRecOn with
  | nil => exact h
  | append_singleton turns turn ih =>
    rw [run_concat] at hgoing ⊢
    have hbefore : ∀ outcome, (s.run turns).phase ≠ .ended outcome := fun outcome hended =>
      hgoing outcome (step_ended hended turn)
    exact (ih hbefore).step (hbinary turns) turn hgoing

theorem Left.step_worker (h : s.Left) : s.step .worker = s := by
  show s.workerStep = s
  rw [workerStep, Worker.step_of_hasEnded h.ended]

theorem Left.step (h : s.Left) (turn : Turn) :
    (s.step turn).Left ∧ (s.step turn).host = s.host ∧
      (s.step turn).shared.frames = s.shared.frames := by
  cases turn with
  | worker =>
    rw [h.step_worker]
    exact ⟨h, rfl, rfl⟩
  | loop =>
    refine ⟨h.loopStep, loopStep_quiet fun hp => ?_⟩
    have hphase := h.phase
    rw [hp] at hphase
    cases hphase
  | wake => exact ⟨⟨h.ended, h.phase⟩, rfl, rfl⟩

theorem Left.run (h : s.Left) (turns : List Turn) :
    (s.run turns).host = s.host ∧ (s.run turns).shared.frames = s.shared.frames := by
  induction turns generalizing s with
  | nil => exact ⟨rfl, rfl⟩
  | cons turn rest ih =>
    obtain ⟨hleft, hhost, hframes⟩ := h.step turn
    obtain ⟨hhost', hframes'⟩ := ih hleft
    exact ⟨hhost'.trans hhost, hframes'.trans hframes⟩

theorem sent_binary {start : Machine ρ KeypadView γ} (hm : start.Sound)
    (hd : start.screen.dirty = true) (host : Host) (events : ε) (log : List LogLine)
    (turns : List Turn) :
    ∀ frame ∈ ((opened start host events log).run turns).shared.frames.sent.toList, frame.Binary := by
  have hstart : ((opened start host events log).stage []).Inv start (errorLines log) :=
    Stage.inv_start hm hd {} log
  have htold := run_told hstart turns
  intro frame hframe
  exact Machine.binary_of_mem_dueFrames (htold.meets.sound hm).1 (htold.sent_initial.subset hframe)

/-- A loop that finds the worker ended leaves, and nothing is sent or shown any more. -/
theorem run_of_leaving {turns : List Turn} (hasking : (s.run turns).phase = .asking)
    (hended : (s.run turns).worker.hasEnded = true) (more : List Turn) :
    (s.run (turns ++ .loop :: more)).host = (s.run turns).host ∧
      (s.run (turns ++ .loop :: more)).shared.frames = (s.run turns).shared.frames := by
  have hstep : (s.run turns).step .loop = { s.run turns with phase := .stopping } := by
    show (s.run turns).loopStep = _
    simp [loopStep, hasking, hended]
  have hleft : ((s.run turns).step .loop).Left := by
    rw [hstep]
    exact ⟨hended, rfl⟩
  obtain ⟨hhost, hframes⟩ := hleft.run more
  rw [hstep] at hhost hframes
  rw [run_append]
  show (((s.run turns).step .loop).run more).host = _ ∧ (((s.run turns).step .loop).run more).shared.frames = _
  rw [hstep]
  exact ⟨hhost, hframes⟩

/-- From its start on, a session shows what it finds in the queue. -/
theorem shows_of_start {path : String} {content : Except String (List UInt8)} {scale : UInt32}
    {machine : Machine ρ KeypadView γ} {events : ε} {desk desk' : Desk}
    (h : Session.start path content scale machine events desk = .ok s desk') {turns : List Turn}
    (hgoing : ∀ outcome, (s.run turns).phase ≠ .ended outcome) :
    (s.run turns).Shows desk.host.shown.toList := by
  obtain ⟨rom, start, -, hload, hopen, rfl⟩ := opened_of_start h
  have hm := Machine.load_sound hload
  have hd : start.screen.dirty = true := by
    rw [Machine.eq_loaded_of_load hload]
    rfl
  have hshows : (opened start desk'.host events desk'.log).Shows desk.host.shown.toList := by
    refine ⟨Nat.le_refl 0, [], ?_, List.Sublist.slnil, rfl⟩
    show desk'.host.shown.toList = _
    simp [Host.openHost_shown hopen]
  exact hshows.run (sent_binary hm hd desk'.host events desk'.log) hgoing

/-- Turns of the worker after some of the loop that have come to nothing. -/
theorem run_opened {start : Machine ρ KeypadView γ} {host : Host} {events : ε}
    {log : List LogLine} {loops : List Turn} {phase : LoopPhase}
    (h : (opened start host events log).run loops = { opened start host events log with phase })
    (n : Nat) : (opened start host events log).run (loops ++ List.replicate n .worker) =
      { worker := (Worker.steps { machine := start } { log } n).1
        shared := (Worker.steps { machine := start } { log } n).2
        host, events, phase } := by
  rw [run_append, h, run_workers]
  rfl

theorem run_to_presenting (start : Machine ρ KeypadView γ) (host : Host) (log : List LogLine) :
    (opened start host ([] : List (List HostEvent)) log).run [.loop, .loop] =
      { opened start host [] log with phase := .presenting } := rfl

theorem run_to_asking (start : Machine ρ KeypadView γ) (host : Host) (log : List LogLine) :
    (opened start host ([] : List (List HostEvent)) log).run [.loop, .loop, .loop] =
      { opened start host [] log with phase := .asking } := rfl

/-- A worker that sends a lit frame and ends between the loop's look at the queue and its question. -/
theorem lost_of_steps {start : Machine ρ KeypadView γ} {host : Host} {log : List LogLine} {n : Nat}
    (hend : (Worker.steps { machine := start } { log } n).1.hasEnded = true)
    (hlit : (Worker.steps { machine := start } { log } n).2.frames.sent.back?.bind (·[0]?) = some 1)
    (hblank : host.picture = Frame.blank) :
    let s := opened start host ([] : List (List HostEvent)) log
    let turns := [.loop, .loop, .loop] ++ List.replicate n .worker
    (s.run turns).phase = .asking ∧ (s.run turns).worker.hasEnded = true ∧
      ∀ more, (s.run (turns ++ .loop :: more)).host.picture ≠
        (s.run (turns ++ .loop :: more)).lastSent := by
  intro s turns
  have hrun := run_opened (run_to_asking start host log) n
  have hasking : (s.run turns).phase = .asking := by rw [hrun]
  have hended : (s.run turns).worker.hasEnded = true := by rw [hrun]; exact hend
  refine ⟨hasking, hended, fun more => ?_⟩
  obtain ⟨hhost, hframes⟩ := run_of_leaving hasking hended more
  have hlast : (s.run (turns ++ .loop :: more)).lastSent[0]? = some 1 := by
    apply lit_of_back
    rw [hframes, hrun]
    exact hlit
  rw [hhost, hrun]
  show host.picture ≠ _
  rw [hblank]
  exact (ne_blank_of_lit hlast).symm

/-- A worker that has sent a lit frame and ended before the loop looks at the queue. -/
theorem presented_of_steps {start : Machine ρ KeypadView γ} (hm : start.Sound)
    (hd : start.screen.dirty = true) {host : Host} (hhost : host.Accepts) {log : List LogLine} {n : Nat}
    (hend : (Worker.steps { machine := start } { log } n).1.hasEnded = true)
    (hlit : (Worker.steps { machine := start } { log } n).2.frames.sent.back?.bind (·[0]?) = some 1) :
    let s := opened start host ([] : List (List HostEvent)) log
    let turns := [.loop, .loop] ++ List.replicate n .worker ++ [.loop]
    (s.run turns).phase = .asking ∧ (s.run turns).worker.hasEnded = true ∧
      (s.run turns).shared.frames.pending = [] ∧ (s.run turns).lastSent ≠ Frame.blank := by
  intro s turns
  have hrun := run_opened (run_to_presenting start host log) n
  have hbinary := sent_binary hm hd host ([] : List (List HostEvent)) log
    ([.loop, .loop] ++ List.replicate n .worker)
  have hpresent : s.run turns = (s.run ([.loop, .loop] ++ List.replicate n .worker)).present := by
    show s.run (_ ++ [.loop]) = _
    rw [run_concat, hrun]
    rfl
  rw [hrun] at hpresent hbinary
  obtain ⟨hasking, hworker, hframes⟩ := present_of_accepts hhost hbinary
  rw [← hpresent] at hasking hworker hframes
  refine ⟨hasking, by rw [hworker]; exact hend, ?_, ?_⟩
  · rw [hframes]
    exact Channel.pending_takeLatest _
  · apply ne_blank_of_lit
    apply lit_of_back
    rw [hframes]
    exact hlit

/-- When the loop leaves because the worker has ended, the last frame sent is on show if and only if no other
frame was left in the queue: one that was sent after the loop had looked there for the last time. -/
theorem final_picture_iff {path : String} {content : Except String (List UInt8)} {scale : UInt32}
    {machine : Machine ρ KeypadView γ} {events : ε} {desk desk' : Desk}
    (h : Session.start path content scale machine events desk = .ok s desk') {turns : List Turn}
    (hasking : (s.run turns).phase = .asking) (hended : (s.run turns).worker.hasEnded = true)
    (more : List Turn) :
    (s.run (turns ++ .loop :: more)).host.picture = (s.run (turns ++ .loop :: more)).lastSent ↔
      ∀ frame ∈ (s.run turns).shared.frames.pending.getLast?, frame = (s.run turns).host.picture := by
  have hshows : (s.run turns).Shows desk.host.shown.toList := by
    apply shows_of_start h
    intro outcome hp
    rw [hasking] at hp
    cases hp
  obtain ⟨hhost, hframes⟩ := run_of_leaving hasking hended more
  have hsame : (s.run (turns ++ .loop :: more)).lastSent = (s.run turns).lastSent := by
    rw [lastSent, hframes]
    rfl
  rw [hhost, hsame, lastSent_eq, hshows.picture_eq]
  cases (s.run turns).shared.frames.pending.getLast? with
  | none => simp
  | some frame => simp [eq_comm]

end

/-- A program that draws a figure and then meets a word that calls machine code. -/
def figureThenFault : List UInt8 := [0xD0, 0x01, 0x00, 0x00]

/-- The machine that the runs below start with. -/
def freshMachine : Machine ByteCycle KeypadView CycleClock :=
  { randomizer := {}, keyboard := {}, clock := {} }

theorem figureThenFault_fits : figureThenFault.length ≤ Memory.maxProgramSize := by decide

theorem figureThenFault_ends :
    let shared : Shared := { log := [loadedLine "rom.ch8" figureThenFault] }
    let after := Worker.steps { machine := freshMachine.loaded figureThenFault } shared 5
    after.1.hasEnded = true ∧ after.2.frames.sent.back?.bind (·[0]?) = some 1 := by
  decide +kernel

/-- A host that accepts everything, on which the run of the program starts. -/
theorem figureThenFault_starts :
    let log := [loadedLine "rom.ch8" figureThenFault]
    ∃ host : Host, host.Accepts ∧ host.picture = Frame.blank ∧
      Session.start "rom.ch8" (.ok figureThenFault) 10 freshMachine ([] : List (List HostEvent)) {} =
        .ok (opened (freshMachine.loaded figureThenFault) host [] log) { host, log } := by
  intro log
  have hopens : Host.Granted (openHost 10) := Host.granted_openHost (by decide)
  obtain ⟨_, host, hopen, haccepts⟩ := hopens {} Host.accepts_default
  have hblank : host.picture = Frame.blank := by
    rw [Host.picture, Host.openHost_shown hopen]
    rfl
  have hstart := start_eq figureThenFault_fits {} hopen "rom.ch8" freshMachine
    ([] : List (List HostEvent))
  rw [show ([] : List LogLine) ++ [loadedLine "rom.ch8" figureThenFault] = log from rfl] at hstart
  exact ⟨host, haccepts, hblank, hstart⟩

/-- The frame with the figure is sent, and the worker ends, while the loop is between its look at the queue
and its question: the figure is never shown. -/
theorem final_picture_lost :
    let turns : List Turn := [.loop, .loop, .loop] ++ List.replicate 5 .worker
    ∃ (s : Session ByteCycle CycleClock (List (List HostEvent))) (desk' : Desk),
      Session.start "rom.ch8" (.ok figureThenFault) 10 freshMachine [] {} = .ok s desk' ∧
        (s.run turns).phase = .asking ∧ (s.run turns).worker.hasEnded = true ∧
        ∀ more, (s.run (turns ++ .loop :: more)).host.picture ≠
          (s.run (turns ++ .loop :: more)).lastSent := by
  intro turns
  obtain ⟨host, -, hblank, hstart⟩ := figureThenFault_starts
  obtain ⟨hend, hlit⟩ := figureThenFault_ends
  exact ⟨_, _, hstart, lost_of_steps hend hlit hblank⟩

/-- The figure is shown when it is sent before the loop's look at the queue. -/
theorem figure_shown_last :
    let turns : List Turn := [.loop, .loop] ++ List.replicate 5 .worker ++ [.loop]
    ∃ (s : Session ByteCycle CycleClock (List (List HostEvent))) (desk' : Desk),
      Session.start "rom.ch8" (.ok figureThenFault) 10 freshMachine [] {} = .ok s desk' ∧
        (s.run turns).phase = .asking ∧ (s.run turns).worker.hasEnded = true ∧
        (s.run turns).lastSent ≠ Frame.blank ∧
        ∀ more, (s.run (turns ++ .loop :: more)).host.picture =
          (s.run (turns ++ .loop :: more)).lastSent := by
  intro turns
  obtain ⟨host, haccepts, -, hstart⟩ := figureThenFault_starts
  obtain ⟨hend, hlit⟩ := figureThenFault_ends
  have hload := Machine.load_of_fits figureThenFault_fits freshMachine
  obtain ⟨hasking, hended, hpending, hlast⟩ :=
    presented_of_steps (Machine.load_sound hload) rfl haccepts hend hlit
  refine ⟨_, _, hstart, hasking, hended, hlast, fun more => ?_⟩
  apply (final_picture_iff hstart hasking hended more).2
  rw [hpending]
  simp

end Session

end ChipEight
