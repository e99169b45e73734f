import ChipEight.Proofs.Usage

/-! The frames taken from a machine in use. A frame is due exactly if the picture has been loaded afresh,
cleared or drawn on since the last one was taken, so whoever shows every frame that is taken is never behind
while none is due. -/
namespace ChipEight

/-- A mark is taken off even where there is none. -/
theorem Screen.takeFrame_eq (screen : Screen) : screen.takeFrame =
    (if screen.dirty then some screen.pixels else none, { screen with dirty := false }) := by
  obtain ⟨pixels, dirty⟩ := screen
  cases dirty <;> rfl

namespace Machine

variable {ρ κ γ τ : Type} {m m' : Machine ρ κ γ}

/-- Whether a call, if it succeeds, is one of those that mark the screen. -/
def marks (m : Machine ρ κ γ) : Call → Bool
  | .cycle => m.draws
  | .execute i => i.val.draws
  | .load _ | .loadFrom _ => true

section
variable [LE τ] [Timescale τ] [Clock γ τ] [Randomizer ρ] [Keyboard κ]

/-- A load, a clearing or a drawing, even of nothing, that succeeds. -/
def Changes (m : Machine ρ κ γ) : Act → Prop
  | .call c => m.marks c = true ∧ ∃ m', c.perform m = .ok () m'
  | .takeFrame => False

theorem Done.dirty {c : Call} (h : m.Done c m') (hc : m.marks c = true) : m'.screen.dirty = true := by
  cases h with
  | @cycled i hp hr =>
    rw [marks, draws, hp] at hc
    rw [timed_screen, effect_dirty hc]
  | executed i hr => exact effect_dirty hc m
  | loaded rom | loadedFrom source rom => rfl

theorem Done.screen_eq {c : Call} (h : m.Done c m') (hc : m.marks c = false) : m'.screen = m.screen := by
  cases h with
  | @cycled i hp hr =>
    rw [marks, draws, hp] at hc
    rw [timed_screen, effect_screen hc]
  | executed i hr => exact effect_screen hc m
  | loaded rom | loadedFrom source rom => cases hc

theorem dirty_of_changes (hm : m.Sound) {c : Call} (h : m.Changes (.call c)) :
    (m.act (.call c)).screen.dirty = true := by
  obtain ⟨hmarks, m', hok⟩ := h
  show (endState (c.perform m)).screen.dirty = true
  rw [hok]
  exact (perform_done hm hok).dirty hmarks

theorem screen_of_not_changes (hm : m.Sound) {c : Call} (h : ¬ m.Changes (.call c)) :
    (m.act (.call c)).screen = m.screen := by
  obtain ⟨hok, hdone⟩ | ⟨e, -, hspared⟩ := call_cases hm c
  · have hmarks : m.marks c = false := by
      apply Bool.eq_false_iff.2
      exact fun hc => h ⟨hc, _, hok⟩
    exact hdone.screen_eq hmarks
  · exact hspared.screen_eq

/-- The frames that are taken in the course of some acts. -/
def framesTaken (m : Machine ρ κ γ) : List Act → List Frame
  | [] => []
  | .call c :: rest => (m.act (.call c)).framesTaken rest
  | .takeFrame :: rest => m.takeFrame.1.toList ++ (m.act .takeFrame).framesTaken rest

theorem framesTaken_concat_call (m : Machine ρ κ γ) (acts : List Act) (c : Call) :
    m.framesTaken (acts ++ [.call c]) = m.framesTaken acts := by
  induction acts generalizing m with
  | nil => rfl
  | cons a rest ih => cases a <;> simp [framesTaken, ih]

theorem framesTaken_concat_takeFrame (m : Machine ρ κ γ) (acts : List Act) :
    m.framesTaken (acts ++ [.takeFrame]) =
      m.framesTaken acts ++ (m.afterActs acts).takeFrame.1.toList := by
  induction acts generalizing m with
  | nil => simp [framesTaken]
  | cons a rest ih => cases a <;> simp [framesTaken, afterActs, ih]

/-- Among some acts is a change after which no frame is taken. -/
def ChangedSinceTaken (m : Machine ρ κ γ) (acts : List Act) : Prop :=
  ∃ before a since, acts = before ++ a :: since ∧ (m.afterActs before).Changes a ∧ .takeFrame ∉ since

theorem changedSinceTaken_concat {acts : List Act} {a : Act} :
    m.ChangedSinceTaken (acts ++ [a]) ↔
      (m.afterActs acts).Changes a ∨ a ≠ .takeFrame ∧ m.ChangedSinceTaken acts := by
  constructor
  · rintro ⟨before, b, since, hsplit, hb, hsince⟩
    -- The change is the last act, or it lies before it.
    rcases List.eq_nil_or_concat since with rfl | ⟨since, last, rfl⟩
    · obtain ⟨rfl, hab⟩ := List.append_inj' hsplit rfl
      cases hab
      exact .inl hb
    · have hsplit' : acts ++ [a] = (before ++ b :: since) ++ [last] := by simpa using hsplit
      obtain ⟨rfl, hlast⟩ := List.append_inj' hsplit' rfl
      cases hlast
      simp only [List.concat_eq_append, List.mem_append, List.mem_singleton, not_or] at hsince
      exact .inr ⟨Ne.symm hsince.2, before, b, since, rfl, hb, hsince.1⟩
  · rintro (ha | ⟨hne, before, b, since, rfl, hb, hsince⟩)
    · exact ⟨acts, a, [], rfl, ha, by simp⟩
    · exact ⟨before, b, since ++ [a], by simp, hb, by simpa [hsince] using hne.symm⟩

/-- What the frames taken in the course of some acts, and the one to be taken next, tell of the picture. -/
structure NeverBehind (start : Machine ρ κ γ) (acts : List Act) : Prop where
  due_iff : (start.afterActs acts).takeFrame.1.isSome ↔ start.ChangedSinceTaken acts
  frame_eq : ∀ frame ∈ (start.afterActs acts).takeFrame.1, frame = (start.afterActs acts).screen.pixels
  /-- Taking a frame takes the mark off, and changes nothing else. -/
  left : (start.afterActs acts).takeFrame.2 = { start.afterActs acts with
    screen := { (start.afterActs acts).screen with dirty := false } }
  /-- Where none is due, the last frame taken is the picture. -/
  shown : (start.afterActs acts).screen.dirty = false →
    (start.afterActs acts).screen.pixels = (start.framesTaken acts).getLast?.getD Frame.blank

theorem dirty_iff_changedSinceTaken (hm : m.Sound) (h0 : m.screen.dirty = false) (acts : List Act) :
    (m.afterActs acts).screen.dirty = true ↔ m.ChangedSinceTaken acts := by
  induction acts using List.reverseRecOn with
  | nil => simp [h0, ChangedSinceTaken]
  | append_singleton acts a ih =>
    rw [afterActs_concat, changedSinceTaken_concat]
    cases a with
    | takeFrame => simp [act, takeFrame, Changes]
    | call c =>
      have hs := afterActs_sound hm acts
      by_cases hc : (m.afterActs acts).Changes (.call c)
      · simp [hc, dirty_of_changes hs hc]
      · simp [hc, screen_of_not_changes hs hc, ih]

/-- The mark is what tells a picture apart from the last one taken. -/
theorem pixels_eq_getLast (hm : m.Sound) (h0 : m.screen.pixels = Frame.blank) (acts : List Act)
    (hd : (m.afterActs acts).screen.dirty = false) :
    (m.afterActs acts).screen.pixels = (m.framesTaken acts).getLast?.getD Frame.blank := by
  induction acts using List.reverseRecOn with
  | nil => exact h0
  | append_singleton acts a ih =>
    rw [afterActs_concat] at hd ⊢
    cases a with
    | takeFrame =>
      rw [framesTaken_concat_takeFrame]
      -- Either the frame just taken is the picture, or none was due and the last one still is.
      cases hdue : (m.afterActs acts).screen.dirty with
      | true => simp [act, takeFrame, Screen.takeFrame_eq, hdue]
      | false => simp [act, takeFrame, Screen.takeFrame_eq, hdue, ih hdue]
    | call c =>
      have hs := afterActs_sound hm acts
      have hc : ¬ (m.afterActs acts).Changes (.call c) := fun hc => by
        rw [dirty_of_changes hs hc] at hd
        cases hd
      rw [screen_of_not_changes hs hc] at hd ⊢
      rw [framesTaken_concat_call]
      exact ih hd

/-- From a new machine on, whatever is done to it in whatever order, no change of the picture is lost. -/
theorem no_change_lost (randomizer : ρ) (keyboard : κ) (clock : γ) (acts : List Act) :
    NeverBehind (new randomizer keyboard clock) acts := by
  have hnew := new_sound randomizer keyboard clock
  have hdue := dirty_iff_changedSinceTaken hnew rfl acts
  have hshown := pixels_eq_getLast hnew rfl acts
  generalize hm : (new randomizer keyboard clock).afterActs acts = m at hdue hshown
  have htake : m.takeFrame = (if m.screen.dirty then some m.screen.pixels else none,
      { m with screen := { m.screen with dirty := false } }) := by
    simp [takeFrame, Screen.takeFrame_eq]
  constructor <;> rw [hm]
  case due_iff => simp [htake, ← hdue]
  case frame_eq =>
    intro frame hframe
    rw [htake, Option.mem_ite_none_right] at hframe
    exact (Option.some.inj hframe.2).symm
  case left => rw [htake]
  case shown => exact hshown

end

end Machine

end ChipEight
