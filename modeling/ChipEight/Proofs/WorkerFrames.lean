import ChipEight.Proofs.WorkerDeeds

/-! The frames that a worker sends, told from its cycles. -/
namespace ChipEight

namespace Machine

variable {ρ γ τ : Type} [Randomizer ρ] [LE τ] [Timescale τ] [Clock γ τ]

/-- The frame that a cycle calls for, if any. The first one also shows the picture that it found. -/
def dueFrame (first : Bool) (m : Machine ρ KeypadView γ) : Option Frame :=
  match cycle m with
  | .ok _ m' => if first || m.draws then some m'.screen.pixels else none
  | .error .. => none

/-- The frames that cycles call for, if they meet these machines. -/
def dueFrames : List (Machine ρ KeypadView γ) → List Frame
  | [] => []
  | m :: rest => (m.dueFrame true).toList ++ rest.filterMap (dueFrame false)

theorem dueFrames_concat (ms : List (Machine ρ KeypadView γ)) (m : Machine ρ KeypadView γ) :
    dueFrames (ms ++ [m]) = dueFrames ms ++ (m.dueFrame ms.isEmpty).toList := by
  cases ms with
  | nil => simp [dueFrames]
  | cons first rest =>
    have hm : [m].filterMap (dueFrame false) = (m.dueFrame false).toList := by
      cases h : m.dueFrame false <;> simp [h]
    rw [List.cons_append, dueFrames, dueFrames, List.filterMap_append, hm, List.append_assoc,
      List.isEmpty_cons]

end Machine

namespace Stage

variable {ρ γ τ : Type}

def sent (s : Stage ρ γ) : List Frame := s.shared.frames.sent.toList

/-- The frame that is about to be sent, or could not be sent. -/
def owed (s : Stage ρ γ) : List Frame :=
  match s.worker.phase with
  | .sending => s.worker.machine.takeFrame.1.toList
  | .ended _ => (s.deeds.getLast?.bind Deed.unsent?).toList
  | _ => []

variable {s : Stage ρ γ} {w : Worker ρ γ} {shared : Shared} {deeds : List (Deed ρ γ)}

theorem owed_of_between (h : s.worker.phase.between = true) : s.owed = [] := by
  unfold owed
  cases hp : s.worker.phase with
  | sending | ended =>
    rw [hp] at h
    cases h
  | _ => rfl

theorem owed_of_sending (h : s.worker.phase = .sending) :
    s.owed = if s.worker.machine.screen.dirty then [s.worker.machine.screen.pixels] else [] := by
  rw [owed, h]
  simp only [Machine.takeFrame, Screen.takeFrame]
  split <;> rfl

theorem owed_of_ended {how : WorkerEnd} (h : w.phase = .ended how) (before : List (Deed ρ γ))
    (d : Deed ρ γ) : owed ⟨w, shared, before ++ [d]⟩ = d.unsent?.toList := by
  rw [owed, h]
  simp

section
variable [Randomizer ρ] [LE τ] [Timescale τ] [Clock γ τ]

/-- What is sent, and what the machine shows, follows from the cycles. -/
structure Faithful (s : Stage ρ γ) : Prop where
  frames : s.sent ++ s.owed = Machine.dueFrames s.cycles
  current : (∃ m ∈ s.cycles, m.succeeds) →
    (s.sent ++ s.owed).getLast? = some s.worker.machine.screen.pixels
  fresh : s.worker.phase.between = true → s.worker.machine.screen.dirty = s.cycles.isEmpty
  begun : s.worker.phase = .sending → s.cycles ≠ []

/-- A step without a cycle. -/
theorem Faithful.idle (h : s.Faithful) (hc : deeds.filterMap Deed.cycle? = [])
    (ho : sent ⟨w, shared, s.deeds ++ deeds⟩ ++ owed ⟨w, shared, s.deeds ++ deeds⟩ = s.sent ++ s.owed)
    (hp : w.machine.screen.pixels = s.worker.machine.screen.pixels)
    (hf : w.phase.between = true → w.machine.screen.dirty = s.cycles.isEmpty)
    (hb : w.phase ≠ .sending) : Faithful ⟨w, shared, s.deeds ++ deeds⟩ := by
  have hcycles : cycles ⟨w, shared, s.deeds ++ deeds⟩ = s.cycles := by
    rw [cycles_append, hc, List.append_nil]
  constructor
  · rw [ho, hcycles]
    exact h.frames
  · rw [ho, hcycles, hp]
    exact h.current
  · rw [hcycles]
    exact hf
  · exact fun hs => absurd hs hb

theorem isEmpty_cycles_of_sending (h : s.Faithful) (hp : s.worker.phase = .sending) :
    s.cycles.isEmpty = false := List.isEmpty_eq_false_iff.2 (h.begun hp)

theorem faithful_succeed {m m' : Machine ρ KeypadView γ} (hm : m.Sound)
    (hsame : m.screen = s.worker.machine.screen) (hg : ∀ d ∈ s.deeds, d.verdict = none) (h : s.Faithful)
    (hp : s.worker.phase.between = true) (hc : Machine.cycle m = .ok () m') :
    Faithful ⟨{ machine := m', phase := .sending }, s.shared, s.deeds ++ [.cycled m]⟩ := by
  obtain ⟨hdirty, hscreen⟩ := Machine.cycle_screen hm.depth hc
  rw [hsame, h.fresh hp] at hdirty
  have hframes := h.frames
  have hcurrent := h.current
  rw [owed_of_between hp, List.append_nil] at hframes hcurrent
  have hcycles : cycles ⟨{ machine := m', phase := .sending }, s.shared, s.deeds ++ [.cycled m]⟩ =
      s.cycles ++ [m] := cycles_append _ _ s _
  have howed : owed ⟨{ machine := m', phase := .sending }, s.shared, s.deeds ++ [.cycled m]⟩ =
      if m'.screen.dirty then [m'.screen.pixels] else [] := owed_of_sending rfl
  constructor
  · rw [hcycles, Machine.dueFrames_concat, ← hframes, howed, Machine.dueFrame, hc, hdirty]
    cases s.cycles.isEmpty || m.draws <;> rfl
  · intro _
    rw [howed]
    cases hd : m'.screen.dirty with
    | true => exact List.getLast?_concat
    | false =>
      rw [hd] at hdirty
      obtain ⟨hne, hdraws⟩ := Bool.or_eq_false_iff.1 hdirty.symm
      obtain ⟨m₀, hm₀⟩ := List.exists_mem_of_ne_nil s.cycles (List.isEmpty_eq_false_iff.1 hne)
      have hlast := hcurrent ⟨m₀, hm₀, succeeds_of_going hg m₀ hm₀⟩
      rw [← hsame, ← hscreen hdraws] at hlast
      exact (congrArg List.getLast? (List.append_nil _)).trans hlast
  · intro e
    cases e
  · intro _
    rw [hcycles]
    exact List.append_ne_nil_of_right_ne_nil _ (List.cons_ne_nil _ _)

theorem faithful_fail {m m' : Machine ρ KeypadView γ} {e : Halt} {how : WorkerEnd}
    (hsame : m'.screen = s.worker.machine.screen) (hf : shared.frames = s.shared.frames)
    (h : s.Faithful) (hp : s.worker.phase.between = true) (hc : Machine.cycle m = .error e m') :
    Faithful ⟨{ machine := m', phase := .ended how }, shared, s.deeds ++ [.cycled m]⟩ := by
  have hframes := h.frames
  have hcurrent := h.current
  rw [owed_of_between hp] at hframes hcurrent
  have hcycles : cycles ⟨{ machine := m', phase := .ended how }, shared, s.deeds ++ [.cycled m]⟩ =
      s.cycles ++ [m] := cycles_append _ _ s _
  have howed : owed ⟨{ machine := m', phase := .ended how }, shared, s.deeds ++ [.cycled m]⟩ = [] :=
    owed_of_ended rfl s.deeds _
  have hsent : sent ⟨{ machine := m', phase := .ended how }, shared, s.deeds ++ [.cycled m]⟩ =
      s.sent := by
    rw [sent, hf]
    rfl
  constructor
  · rw [hcycles, Machine.dueFrames_concat, ← hframes, howed, hsent, Machine.dueFrame, hc]
    exact (List.append_nil _).symm
  · rintro ⟨m₀, hm₀, m₁, hok⟩
    rw [hcycles] at hm₀
    rw [howed, hsent, hsame]
    rcases List.mem_append.1 hm₀ with hm₀ | hm₀
    · exact hcurrent ⟨m₀, hm₀, m₁, hok⟩
    · rw [List.mem_singleton.1 hm₀, hc] at hok
      cases hok
  · intro e
    cases e
  · intro e
    cases e

theorem faithful_stepped (hm : s.worker.phase.between = true → s.worker.machine.Sound) (hj : s.Judged)
    (h : s.Faithful) (hs : s.worker.Stepped s.shared w shared deeds) :
    Faithful ⟨w, shared, s.deeds ++ deeds⟩ := by
  cases hs with
  | go hp hr =>
    have hb : s.worker.phase.between = true := by rw [hp]; rfl
    refine h.idle rfl ?_ rfl (fun _ => h.fresh hb) (by intro e; cases e)
    rw [owed_of_between hb]
    rfl
  | stop hp hr =>
    have hb : s.worker.phase.between = true := by rw [hp]; rfl
    refine h.idle rfl ?_ rfl (by intro e; cases e) (by intro e; cases e)
    rw [owed_of_between hb, owed_of_ended rfl]
    rfl
  | wait hw hl =>
    have hb := hw.between
    refine h.idle rfl ?_ rfl (fun _ => h.fresh hb) (by intro e; cases e)
    rw [owed_of_between hb]
    rfl
  | stay =>
    rw [List.append_nil]
    exact h
  | succeed view hg hc =>
    have hp := hg.between
    have hsound := (hm hp).withKeyboard view
    exact faithful_succeed hsound rfl (hj.going (Worker.hasEnded_of_between hp)) h hp hc
  | fail view hg hc hv =>
    have hp := hg.between
    have hsound := (hm hp).withKeyboard view
    have hscreen := (Machine.cycle_spared hsound.depth hc).screen_eq
    exact faithful_fail hscreen (WorkerEnd.report_frames _ s.shared) h hp hc
  | idle hp hd =>
    have hf := hd.trans (isEmpty_cycles_of_sending h hp).symm
    refine h.idle rfl ?_ rfl (fun _ => hf) (by intro e; cases e)
    rw [owed_of_sending hp, hd]
    rfl
  | send hp hd hl hf =>
    refine h.idle rfl ?_ (Screen.takeFrame_pixels _) ?_ (by intro e; cases e)
    · rw [owed_of_sending hp, hd]
      simp [sent, owed, hf]
    · intro _
      exact (Screen.takeFrame_dirty _).trans (isEmpty_cycles_of_sending h hp).symm
  | drop hp hd hl =>
    refine h.idle rfl ?_ (Screen.takeFrame_pixels _) (by intro e; cases e) (by intro e; cases e)
    rw [owed_of_sending hp, hd, owed_of_ended rfl]
    rfl

end

end Stage

end ChipEight
