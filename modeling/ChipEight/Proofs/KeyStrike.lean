import ChipEight.Proofs.KeyWait
import ChipEight.Session.Basic

/-! Keys that go down during a wait. A press counts for a wait also if it finds its key down already, as
the presses of a key do that is held and repeats; so the key that ends a wait has gone down since the wait
began exactly if it was up at the beginning or was released on the way. -/
namespace ChipEight

namespace Keypad

/-- The key goes from up to down on the way through `events`. -/
def Strikes (pad : Keypad) (key : UInt8) (events : List KeypadEvent) : Prop :=
  ∃ before after, events = before ++ .press key :: after ∧ (pad.playAll before).isDown key = false

variable {pad : Keypad} {key : UInt8} {events : List KeypadEvent}

theorem isDown_play_of_ne_press (h : pad.isDown key = false) {event : KeypadEvent}
    (hne : event ≠ .press key) : (pad.play event).isDown key = false := by
  cases event with
  | press pressed =>
    have hkey : key ≠ pressed := by
      rintro rfl
      exact hne rfl
    simp [play, isDown_press, h, hkey]
  | release released => simp [play, isDown_release, h]
  | close => exact h

theorem isDown_play_of_ne_release (h : pad.isDown key = true) {event : KeypadEvent}
    (hne : event ≠ .release key) : (pad.play event).isDown key = true := by
  cases event with
  | press pressed => simp [play, isDown_press, h]
  | release released =>
    have hkey : key ≠ released := by
      rintro rfl
      exact hne rfl
    simp [play, isDown_release, h, hkey]
  | close => exact h

/-- A key that is held stays down until it is released. -/
theorem isDown_playAll_of_held (h : pad.isDown key = true) (hr : .release key ∉ events) :
    (pad.playAll events).isDown key = true := by
  induction events generalizing pad with
  | nil => exact h
  | cons event rest ih =>
    rw [List.mem_cons, not_or] at hr
    exact ih (isDown_play_of_ne_release h (Ne.symm hr.1)) hr.2

/-- The first press of a key that is up strikes it. -/
theorem strikes_of_up (h : pad.isDown key = false) (hp : .press key ∈ events) : pad.Strikes key events := by
  induction events generalizing pad with
  | nil => cases hp
  | cons event rest ih =>
    by_cases he : event = .press key
    · exact ⟨[], rest, by rw [he]; rfl, h⟩
    · have hrest : .press key ∈ rest := by
        rcases List.mem_cons.1 hp with hp | hp
        · exact absurd hp.symm he
        · exact hp
      obtain ⟨before, after, hsplit, hup⟩ := ih (isDown_play_of_ne_press h he) hrest
      exact ⟨event :: before, after, by rw [hsplit]; rfl, hup⟩

/-- A key that is pressed is struck exactly if it was up, or is released before one of its presses. -/
theorem strikes_iff (hp : .press key ∈ events) :
    pad.Strikes key events ↔ pad.isDown key = false ∨
      ∃ before after, events = before ++ .press key :: after ∧ .release key ∈ before := by
  constructor
  · rintro ⟨before, after, hsplit, hup⟩
    by_cases hr : .release key ∈ before
    · exact .inr ⟨before, after, hsplit, hr⟩
    · refine .inl (Bool.eq_false_iff.2 fun hdown => ?_)
      rw [isDown_playAll_of_held hdown hr] at hup
      cases hup
  · rintro (hup | ⟨before, after, rfl, hr⟩)
    · exact strikes_of_up hup hp
    · obtain ⟨early, late, rfl⟩ := List.append_of_mem hr
      have hup : ((pad.playAll early).play (.release key)).isDown key = false := by
        simp [play, isDown_release]
      have hlater : .press key ∈ late ++ .press key :: after :=
        List.mem_append_right _ List.mem_cons_self
      obtain ⟨between, rest, hsplit, hstruck⟩ := strikes_of_up hup hlater
      refine ⟨early ++ .release key :: between, rest, ?_, ?_⟩
      · rw [List.append_assoc, List.cons_append, hsplit, List.append_assoc, List.cons_append]
      · rw [playAll_append]
        exact hstruck

end Keypad

namespace KeyWait

/-- A wait that has found a key did so at one of its looks, and was waiting until then. -/
theorem exists_check {w : KeyWait} (hw : w.found = .waiting) {steps : List WaitStep} {key : UInt8}
    (h : (w.run steps).found = .key key) :
    ∃ ended later, steps = ended ++ .check :: later ∧ (w.run ended).found = .waiting ∧
      ((w.run ended).step .check).found = .key key := by
  induction steps generalizing w with
  | nil => cases hw.symm.trans h
  | cons s rest ih =>
    by_cases hs : (w.step s).found = .waiting
    · obtain ⟨ended, later, rfl, hend⟩ := ih hs h
      exact ⟨s :: ended, later, rfl, hend⟩
    · cases s with
      | event e => exact absurd hw hs
      | check => exact ⟨[], rest, rfl, hw, (found_run hs rest).symm.trans h⟩

/-- The key that ends a wait has gone down since the wait began exactly if it was up when the wait began,
or was released and pressed again before the look that found it. -/
theorem found_key_struck_iff (before : List KeypadEvent) (steps : List WaitStep) {key : UInt8}
    (h : (amid before steps).found = .key key) :
    ∃ ended later, steps = ended ++ .check :: later ∧ (amid before ended).found = .waiting ∧
      ((amid before ended).step .check).found = .key key ∧
      ((Keypad.after before).Strikes key (WaitStep.events ended) ↔
        (Keypad.after before).isDown key = false ∨
          ∃ early late, WaitStep.events ended = early ++ .press key :: late ∧ .release key ∈ early) := by
  have hstart : (start (.after before)).found = .waiting := by
    by_cases hc : .close ∈ before
    · cases (found_of_closed hc steps).symm.trans h
    · exact (found_start before).trans (if_neg hc)
  obtain ⟨ended, later, rfl, hw, hk⟩ := exists_check hstart h
  have hs := stands_step (stands_run (stands_start before) ended) .check
  have hpressed := hs.mem_pressedKeys hk
  rw [show WaitStep.events [.check] = [] from rfl, List.append_nil] at hpressed
  exact ⟨ended, later, rfl, hw, hk, Keypad.strikes_iff (press_mem_of_mem_pressedKeys hpressed)⟩

/-- Two keys are held when the wait begins, and the second is released and pressed again. -/
theorem released_key_struck :
    let steps : List WaitStep := [.event (.release 2), .check, .event (.press 2), .check]
    (amid [.press 1, .press 2] steps).found = .key 2 ∧
      ∃ ended later, steps = ended ++ .check :: later ∧
        (amid [.press 1, .press 2] ended).found = .waiting ∧
        ((amid [.press 1, .press 2] ended).step .check).found = .key 2 ∧
        ((Keypad.after [.press 1, .press 2]).Strikes 2 (WaitStep.events ended) ↔
          (Keypad.after [.press 1, .press 2]).isDown 2 = false ∨
            ∃ early late, WaitStep.events ended = early ++ .press 2 :: late ∧ .release 2 ∈ early) :=
  ⟨by decide, found_key_struck_iff _ _ (by decide)⟩

/-- The key 1 is held, and the event of its going down is repeated: the repetition ends a wait, though the
key has not gone down since the wait began. -/
theorem repeated_press_ends_wait :
    let down : HostEvent := .keyDown (some '1'.toNat)
    let steps : List WaitStep := [.event (.press 1), .check]
    down.reaction = .keypad (.press 1) ∧ (amid [.press 1] steps).found = .key 1 ∧
      ¬ (Keypad.after [.press 1]).Strikes 1 (WaitStep.events steps) := by
  intro down steps
  refine ⟨by decide, by decide, ?_⟩
  intro hstruck
  have hp : .press 1 ∈ WaitStep.events steps := List.mem_cons_self
  rcases (Keypad.strikes_iff hp).1 hstruck with hup | ⟨early, late, hsplit, hr⟩
  · exact absurd hup (by decide)
  · have hmem : .release 1 ∈ WaitStep.events steps := by
      rw [hsplit]
      exact List.mem_append_left _ hr
    exact absurd hmem (by decide)

end KeyWait

end ChipEight
