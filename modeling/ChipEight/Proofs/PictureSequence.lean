import ChipEight.Proofs.FinalPicture
import Mathlib.Logic.Relation

/-! The pictures on show beside the frames that were sent. Nothing is asked of whoever sends but that it leaves
the loop's things alone: however its frames and the turns of the loop follow on one another, the loop shows some
of the frames in their order, each look at the queue the newest there is, and no frame twice. -/
namespace ChipEight.Session

variable {ρ γ ε τ : Type}

/-- A move of anyone but the loop, which may send frames. The host, the place that the loop has come to, and
what the loop has taken out of the queue stay as they are. -/
structure Sends (s t : Session ρ γ ε) : Prop where
  host : t.host = s.host
  phase : t.phase = s.phase
  frames : ∃ new : List Frame, (∀ frame ∈ new, frame.Binary) ∧
    t.shared.frames = { s.shared.frames with sent := s.shared.frames.sent ++ new }

section Courses
variable [EventSource ε]

inductive Moves : Session ρ γ ε → Session ρ γ ε → Prop
  | loop (s : Session ρ γ ε) : Moves s s.loopStep
  | others {s t : Session ρ γ ε} (sends : Sends s t) : Moves s t

/-- From `s` to `t` in turns of the loop and moves of others, in any order. -/
def Course (s t : Session ρ γ ε) : Prop := Relation.ReflTransGen Moves s t

/-- One look at the queue, which leads from `s` to `t`. -/
structure Polled (s t : Session ρ γ ε) : Prop where
  phase : t.phase = .asking
  sent : t.shared.frames.sent = s.shared.frames.sent
  /-- Of the frames that are waiting, the newest is shown and no other. -/
  shown : t.host.shown.toList = s.host.shown.toList ++ s.shared.frames.pending.getLast?.toList
  picture : t.host.picture = t.lastSent
  pending : t.shared.frames.pending = []
  /-- Whatever is shown later has been sent later. -/
  later : ∀ u, t.Course u → ∃ presented, u.host.shown.toList = t.host.shown.toList ++ presented ∧
    presented.Sublist (u.shared.frames.sent.toList.drop t.shared.frames.sent.size)
  /-- As long as nothing new is sent, nothing more is shown. -/
  idle : ∀ u, t.Course u → u.shared.frames.sent = t.shared.frames.sent → u.host.shown = t.host.shown

/-- After the pictures of `earlier` and a blank one, some of the frames sent have been shown, in their order,
and the next look at the queue goes on in the same way. -/
structure Follows (earlier : List Frame) (s : Session ρ γ ε) : Prop where
  shown : ∃ presented, s.host.shown.toList = earlier ++ Frame.blank :: presented ∧
    presented.Sublist s.shared.frames.sent.toList
  poll : s.phase = .presenting → s.Polled s.loopStep

end Courses

/-- A session that has shown what it found in the queue so far, and whose host accepts whatever is to come. -/
structure Attentive (earlier : List Frame) (s : Session ρ γ ε) : Prop where
  shows : s.Shows earlier
  binary : ∀ frame ∈ s.shared.frames.sent.toList, frame.Binary
  accepts : s.host.Accepts

/-- What has been shown between `s` and `t` was taken out of the queue between them. -/
structure Since (s t : Session ρ γ ε) : Prop where
  taken : s.shared.frames.taken <+: t.shared.frames.taken
  shown : ∃ presented, t.host.shown.toList = s.host.shown.toList ++ presented ∧
    presented.Sublist (t.shared.frames.taken.drop s.shared.frames.taken.length)

variable {s t u : Session ρ γ ε} {earlier : List Frame}

theorem present_shown (h : s.host.Accepts)
    (hbinary : ∀ frame ∈ s.shared.frames.sent.toList, frame.Binary) :
    s.present.host.Accepts ∧ s.present.host.shown.toList =
      s.host.shown.toList ++ s.shared.frames.pending.getLast?.toList := by
  have hnewest := s.shared.frames.newest_takeLatest
  unfold Session.present
  generalize s.shared.frames.takeLatest = drained at hnewest ⊢
  obtain ⟨newest, frames⟩ := drained
  rw [← hnewest]
  cases newest with
  | none => exact ⟨h, (List.append_nil _).symm⟩
  | some frame =>
    have hframe : frame.Binary :=
      hbinary frame (List.mem_of_mem_drop (List.mem_of_getLast? hnewest.symm))
    obtain ⟨_, host, hr, haccepts⟩ := Host.granted_render hframe s.host h
    simp only [hr]
    exact ⟨haccepts, by simp [Host.render_shown hframe hr]⟩

theorem Sends.taken (h : s.Sends t) (hs : s.shared.frames.received ≤ s.shared.frames.sent.size) :
    t.shared.frames.taken = s.shared.frames.taken := by
  obtain ⟨new, -, hframes⟩ := h.frames
  simp [hframes, Channel.taken, List.take_append_of_le_length, hs]

theorem Since.refl (s : Session ρ γ ε) : s.Since s :=
  ⟨List.prefix_rfl, [], by simp⟩

theorem Attentive.sends (h : s.Attentive earlier) (hs : s.Sends t) : t.Attentive earlier := by
  have htaken := hs.taken h.shows.received_le
  obtain ⟨new, hnew, hframes⟩ := hs.frames
  constructor
  case shows =>
    constructor
    · rw [hframes]
      exact Nat.le_trans h.shows.received_le (by simp [← Array.length_toList])
    · rw [hs.host, htaken]
      exact h.shows.shown
  case binary =>
    intro frame hframe
    rw [hframes, Array.toList_appendList, List.mem_append] at hframe
    exact hframe.elim (h.binary frame) (hnew frame)
  case accepts =>
    rw [hs.host]
    exact h.accepts

theorem Attentive.present (h : s.Attentive earlier) : s.present.Attentive earlier := by
  obtain ⟨hphase, -, hframes⟩ := present_of_accepts h.accepts h.binary
  constructor
  case shows =>
    obtain hshows | ⟨failure, hended⟩ := h.shows.present h.binary
    · exact hshows
    · rw [hphase] at hended
      cases hended
  case binary =>
    rw [hframes]
    exact h.binary
  case accepts => exact (present_shown h.accepts h.binary).1

/-- A look at the queue shows the newest frame that is waiting, and takes the others out with it. -/
theorem Since.present (hs : s.Since t) (h : t.Attentive earlier) : s.Since t.present := by
  obtain ⟨presented, hshown, hsub⟩ := hs.shown
  have hpresent := (present_shown h.accepts h.binary).2
  have htaken : t.present.shared.frames.taken = t.shared.frames.taken ++ t.shared.frames.pending := by
    rw [(present_of_accepts h.accepts h.binary).2.2]
    exact Channel.taken_takeLatest _
  have hnewest : t.shared.frames.pending.getLast?.toList.Sublist t.shared.frames.pending := by
    cases hlast : t.shared.frames.pending.getLast? with
    | none => exact List.nil_sublist _
    | some frame => exact List.singleton_sublist.2 (List.mem_of_getLast? hlast)
  constructor
  · rw [htaken]
    exact hs.taken.trans (List.prefix_append _ _)
  · refine ⟨presented ++ t.shared.frames.pending.getLast?.toList, ?_, ?_⟩
    · rw [hpresent, hshown, List.append_assoc]
    · rw [htaken, List.drop_append_of_le_length hs.taken.length_le]
      exact hsub.append hnewest

theorem Since.congr (hs : s.Since t) (hhost : u.host = t.host)
    (htaken : u.shared.frames.taken = t.shared.frames.taken) : s.Since u := by
  obtain ⟨hbefore, hshown⟩ := hs
  rw [← htaken] at hbefore hshown
  rw [← hhost] at hshown
  exact ⟨hbefore, hshown⟩

section
variable [EventSource ε]

theorem loopStep_presenting (hp : s.phase = .presenting) : s.loopStep = s.present := by
  rw [loopStep, hp]

/-- A turn of the loop is a look at the queue, or a move that sends nothing. -/
theorem Moves.cases (h : Moves s t) :
    t = s.present ∨ (t.host = s.host ∧ t.shared.frames = s.shared.frames) ∨ s.Sends t := by
  cases h with
  | loop =>
    by_cases hp : s.phase = .presenting
    · exact .inl (loopStep_presenting hp)
    · exact .inr (.inl (loopStep_quiet hp))
  | others hs => exact .inr (.inr hs)

theorem Moves.attentive (hm : Moves s t) (h : s.Attentive earlier) : t.Attentive earlier := by
  obtain rfl | ⟨hhost, hframes⟩ | hs := hm.cases
  · exact h.present
  · constructor
    · exact h.shows.congr hhost hframes
    · rw [hframes]
      exact h.binary
    · rw [hhost]
      exact h.accepts
  · exact h.sends hs

theorem Since.moves (hs : s.Since t) (h : t.Attentive earlier) (hm : Moves t u) : s.Since u := by
  obtain rfl | ⟨hhost, hframes⟩ | hsends := hm.cases
  · exact hs.present h
  · exact hs.congr hhost (congrArg Channel.taken hframes)
  · exact hs.congr hsends.host (hsends.taken h.shows.received_le)

theorem Course.attentive (hc : s.Course t) (h : s.Attentive earlier) : t.Attentive earlier := by
  induction hc with
  | refl => exact h
  | tail _ hm ih => exact hm.attentive ih

theorem Course.since (hc : s.Course t) (h : s.Attentive earlier) : s.Since t := by
  induction hc with
  | refl => exact .refl s
  | tail hsu hm ih => exact ih.moves (Course.attentive hsu h) hm

/-- Once the queue is empty, whatever is shown later has been sent later. -/
theorem Course.later (hc : s.Course t) (h : s.Attentive earlier) (hempty : s.shared.frames.pending = []) :
    ∃ presented, t.host.shown.toList = s.host.shown.toList ++ presented ∧
      presented.Sublist (t.shared.frames.sent.toList.drop s.shared.frames.sent.size) := by
  obtain ⟨presented, hshown, hsub⟩ := (hc.since h).shown
  have hall : s.shared.frames.taken.length = s.shared.frames.sent.size := by
    have hsplit := congrArg List.length s.shared.frames.taken_append_pending
    simpa [hempty] using hsplit
  rw [hall] at hsub
  exact ⟨presented, hshown, hsub.trans ((List.take_sublist _ _).drop _)⟩

theorem Attentive.polled (h : s.Attentive earlier) (hp : s.phase = .presenting) :
    s.Polled s.loopStep := by
  obtain ⟨hphase, -, hframes⟩ := present_of_accepts h.accepts h.binary
  have hempty : s.present.shared.frames.pending = [] := by
    rw [hframes]
    exact Channel.pending_takeLatest _
  rw [loopStep_presenting hp]
  constructor
  case phase => exact hphase
  case sent => rw [hframes]; rfl
  case shown => exact (present_shown h.accepts h.binary).2
  case picture =>
    rw [h.present.shows.picture_eq, lastSent_eq, hempty]
    rfl
  case pending => exact hempty
  case later => exact fun u hc => hc.later h.present hempty
  case idle =>
    intro u hc hsame
    obtain ⟨presented, hshown, hsub⟩ := hc.later h.present hempty
    rw [hsame, List.drop_of_length_le (Nat.le_of_eq Array.length_toList), List.sublist_nil] at hsub
    rw [hsub, List.append_nil] at hshown
    exact Array.toList_inj.1 hshown

theorem Attentive.follows (h : s.Attentive earlier) : s.Follows earlier := by
  constructor
  case shown =>
    obtain ⟨presented, hshown, hsub, -⟩ := h.shows.shown
    exact ⟨presented, hshown, hsub.trans (List.take_sublist _ _)⟩
  case poll => exact h.polled

variable [Randomizer ρ] [LE τ] [Timescale τ] [Clock γ τ]

theorem sends_of_workerStep (hbinary : ∀ frame ∈ s.workerStep.shared.frames.sent.toList, frame.Binary) :
    s.Sends s.workerStep := by
  refine ⟨rfl, rfl, ?_⟩
  obtain hsame | ⟨frame, hpush⟩ := s.stepped.frames_cases
  · refine ⟨[], List.forall_mem_nil _, hsame.trans ?_⟩
    simp
  · refine ⟨[frame], List.forall_mem_singleton.2 (hbinary frame ?_), hpush.trans ?_⟩
    · rw [show s.workerStep.shared.frames = _ from hpush]
      simp
    · simp

/-- The worker of a session sends its frames in no other way. -/
theorem course_run (hbinary : ∀ turns, ∀ frame ∈ (s.run turns).shared.frames.sent.toList, frame.Binary)
    (turns : List Turn) : s.Course (s.run turns) := by
  induction turns using List.reverseRecOn with
  | nil => exact Relation.ReflTransGen.refl
  | append_singleton turns turn ih =>
    have hnext := hbinary (turns ++ [turn])
    rw [run_concat] at hnext ⊢
    apply Relation.ReflTransGen.tail ih
    cases turn with
    | loop => exact .loop _
    | worker => exact .others (sends_of_workerStep hnext)
    | wake => exact .others ⟨rfl, rfl, [], List.forall_mem_nil _, by simp [step, Shared.wakeAll]⟩

/-- A worker that has sent a lit frame when the loop is about to look at the queue. -/
theorem waiting_of_steps {start : Machine ρ KeypadView γ} {log : List LogLine} {n : Nat}
    (hlit : (Worker.steps { machine := start } { log } n).2.frames.sent.back?.bind (·[0]?) = some 1)
    (host : Host) :
    let s := opened start host ([] : List (List HostEvent)) log
    let turns := [.loop, .loop] ++ List.replicate n .worker
    (s.run turns).phase = .presenting ∧ (s.run turns).lastSent ≠ Frame.blank := by
  intro s turns
  have hrun := run_opened (run_to_presenting start host log) n
  have hlast : (s.run turns).lastSent[0]? = some 1 := by
    apply lit_of_back
    rw [hrun]
    exact hlit
  exact ⟨by rw [hrun], ne_blank_of_lit hlast⟩

/-- A session that has been started is attentive, and so are all that its turns lead to. -/
theorem attentive_of_start {path : String} {content : Except String (List UInt8)} {scale : UInt32}
    {machine : Machine ρ KeypadView γ} {events : ε} {desk desk' : Desk}
    (h : Session.start path content scale machine events desk = .ok s desk') (haccepts : s.host.Accepts) :
    s.Attentive desk.host.shown.toList ∧ ∀ turns, s.Course (s.run turns) := by
  have hgoing : ∀ outcome, (s.run []).phase ≠ .ended outcome := by
    intro outcome hended
    obtain ⟨rom, start, -, -, -, rfl⟩ := opened_of_start h
    cases hended
  have hshows := shows_of_start h hgoing
  obtain ⟨rom, start, -, hload, -, rfl⟩ := opened_of_start h
  have hdirty : start.screen.dirty = true := by
    rw [Machine.eq_loaded_of_load hload]
    rfl
  have hbinary := sent_binary (Machine.load_sound hload) hdirty desk'.host events desk'.log
  exact ⟨⟨hshows, hbinary [], haccepts⟩, course_run hbinary⟩

/-- However the turns of the loop and the moves of whoever sends frames follow on one another, as long as the host
accepts what it is given, the pictures shown are a blank one and then frames in the order in which they were
sent. A look at the queue shows the newest frame that waits there and takes out the others for good. -/
theorem pictures_follow_frames {path : String} {content : Except String (List UInt8)} {scale : UInt32}
    {machine : Machine ρ KeypadView γ} {events : ε} {desk desk' : Desk}
    (h : Session.start path content scale machine events desk = .ok s desk') (haccepts : s.host.Accepts) :
    (∀ turns, s.Course (s.run turns)) ∧ ∀ t, s.Course t → t.Follows desk.host.shown.toList := by
  obtain ⟨hattentive, hcourse⟩ := attentive_of_start h haccepts
  exact ⟨hcourse, fun t hc => (hc.attentive hattentive).follows⟩

end

/-- The worker sends the figure while the loop is about to look at the queue, and the figure is shown. -/
theorem figure_follows_blank :
    let turns : List Turn := [.loop, .loop] ++ List.replicate 5 .worker
    ∃ (s : Session ByteCycle CycleClock (List (List HostEvent))) (desk' : Desk),
      Session.start "rom.ch8" (.ok figureThenFault) 10 freshMachine [] {} = .ok s desk' ∧
        s.host.Accepts ∧ s.Course (s.run turns) ∧ (s.run turns).phase = .presenting ∧
        (s.run turns).Follows [] ∧ (s.run turns).lastSent ≠ Frame.blank := by
  intro turns
  obtain ⟨host, haccepts, -, hstart⟩ := figureThenFault_starts
  obtain ⟨-, hlit⟩ := figureThenFault_ends
  obtain ⟨hpresenting, hlast⟩ := waiting_of_steps hlit host
  obtain ⟨hcourse, hfollows⟩ := pictures_follow_frames hstart haccepts
  exact ⟨_, _, hstart, haccepts, hcourse turns, hpresenting, hfollows _ (hcourse turns), hlast⟩

end ChipEight.Session
