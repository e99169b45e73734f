import ChipEight.Keypad

/-! Waiting for a key press while others use the keypad. The one who waits looks at the keypad whenever it
wakes up, for whatever reason. A look ends the wait exactly if the keypad is closed or a key was pressed
since the wait began; of several presses the last one counts. -/
namespace ChipEight

/-- The key that an event presses, if the keypad has it. -/
def KeypadEvent.pressed? : KeypadEvent → Option UInt8
  | .press key => if key.toNat < keyCount then some key else none
  | .release _ | .close => none

/-- The keys pressed by events, in order. -/
def pressedKeys (events : List KeypadEvent) : List UInt8 := events.filterMap KeypadEvent.pressed?

theorem pressedKeys_cons (event : KeypadEvent) (rest : List KeypadEvent) :
    pressedKeys (event :: rest) = event.pressed?.toList ++ pressedKeys rest := by
  cases h : event.pressed? with
  | none => simp [pressedKeys, h]
  | some key => simp [pressedKeys, h]

theorem lt_of_mem_pressedKeys {events : List KeypadEvent} {key : UInt8} (h : key ∈ pressedKeys events) :
    key.toNat < keyCount := by
  obtain ⟨event, -, he⟩ := List.mem_filterMap.1 h
  cases event with
  | press pressed =>
    simp only [KeypadEvent.pressed?, Option.ite_none_right_eq_some, Option.some.injEq] at he
    obtain ⟨hlt, rfl⟩ := he
    exact hlt
  | release | close => cases he

theorem press_mem_of_mem_pressedKeys {events : List KeypadEvent} {key : UInt8}
    (h : key ∈ pressedKeys events) : .press key ∈ events := by
  obtain ⟨event, hmem, he⟩ := List.mem_filterMap.1 h
  cases event with
  | press pressed =>
    simp only [KeypadEvent.pressed?, Option.ite_none_right_eq_some, Option.some.injEq] at he
    obtain ⟨-, rfl⟩ := he
    exact hmem
  | release | close => cases he

namespace Keypad

/-- What one event does to all that a look depends on. -/
theorem play_counts (pad : Keypad) (event : KeypadEvent) :
    (pad.play event).presses = pad.presses + event.pressed?.toList.length ∧
      (pad.play event).lastPressed = event.pressed?.getD pad.lastPressed ∧
      (pad.play event).closed = (pad.closed || event == .close) := by
  cases event with
  | press key =>
    by_cases h : key.toNat < keyCount
    · simp [play, press, KeypadEvent.pressed?, h]
    · simp [play, press, KeypadEvent.pressed?, h]
  | release key =>
    by_cases h : key.toNat < keyCount
    · simp [play, release, KeypadEvent.pressed?, h]
    · simp [play, release, KeypadEvent.pressed?, h]
  | close => simp [play, close, KeypadEvent.pressed?]

theorem playAll_append (pad : Keypad) (first later : List KeypadEvent) :
    pad.playAll (first ++ later) = (pad.playAll first).playAll later := List.foldl_append

theorem presses_playAll (pad : Keypad) (events : List KeypadEvent) :
    (pad.playAll events).presses = pad.presses + (pressedKeys events).length := by
  induction events generalizing pad with
  | nil => rfl
  | cons event rest ih =>
    have hrest := ih (pad.play event)
    rw [(pad.play_counts event).1] at hrest
    rw [pressedKeys_cons, List.length_append, ← Nat.add_assoc]
    exact hrest

theorem lastPressed_playAll (pad : Keypad) (events : List KeypadEvent) :
    (pad.playAll events).lastPressed = (pressedKeys events).getLast?.getD pad.lastPressed := by
  induction events generalizing pad with
  | nil => rfl
  | cons event rest ih =>
    have hrest := ih (pad.play event)
    rw [(pad.play_counts event).2.1] at hrest
    rw [pressedKeys_cons, List.getLast?_append]
    refine hrest.trans ?_
    cases (pressedKeys rest).getLast? <;> cases event.pressed? <;> rfl

theorem closed_playAll (pad : Keypad) (events : List KeypadEvent) :
    (pad.playAll events).closed = (pad.closed || events.contains .close) := by
  induction events generalizing pad with
  | nil => exact (Bool.or_false _).symm
  | cons event rest ih =>
    have hrest := ih (pad.play event)
    rw [(pad.play_counts event).2.2] at hrest
    rw [List.contains_cons, ← Bool.or_assoc, Bool.beq_comm]
    exact hrest

end Keypad

open Keypad (Look)

/-- What a look is to find, told from the events before the wait began and those since. -/
def Keypad.Look.expected (before since : List KeypadEvent) : Look :=
  if .close ∈ before ++ since then .closed
  else
    match (pressedKeys since).getLast? with
    | some pressed => .key pressed
    | none => .waiting

namespace Keypad

/-- A keypad on which `events` have happened. -/
def after (events : List KeypadEvent) : Keypad := ({} : Keypad).playAll events

theorem after_append (before since : List KeypadEvent) :
    after (before ++ since) = (after before).playAll since := playAll_append _ before since

theorem look_after (before since : List KeypadEvent) :
    (after (before ++ since)).look (after before).presses = .expected before since := by
  have hclosed : (after (before ++ since)).closed = (before ++ since).contains .close :=
    (closed_playAll {} _).trans (Bool.false_or _)
  unfold look Look.expected
  by_cases hc : .close ∈ before ++ since
  · rw [if_pos hc, hclosed, if_pos (List.contains_iff_mem.2 hc)]
  · rw [if_neg hc, hclosed, if_neg (fun h => hc (List.contains_iff_mem.1 h)), after_append,
      presses_playAll, lastPressed_playAll]
    cases hp : (pressedKeys since).getLast? with
    | none => simp [List.getLast?_eq_none_iff.1 hp]
    | some key =>
      have hne : pressedKeys since ≠ [] := List.ne_nil_of_mem (List.mem_of_getLast? hp)
      rw [if_neg fun h => hne (List.length_eq_zero_iff.1 (Nat.add_eq_left.1 h))]
      rfl

end Keypad

/-- What happens while somebody waits for a key press. -/
inductive WaitStep
  | event (e : KeypadEvent)
  /-- The one who waits looks at the keypad. -/
  | check

/-- The events among the steps. -/
def WaitStep.events (steps : List WaitStep) : List KeypadEvent :=
  steps.filterMap fun
    | event e => some e
    | check => none

/-- A keypad, and somebody who waits for a key press on it. -/
structure KeyWait where
  pad : Keypad
  /-- How many presses there were when the wait began. -/
  seen : Nat
  /-- What ended the wait, if it is over. -/
  found : Look

namespace KeyWait

/-- A wait begins with a look, made together with the count of presses. -/
def start (pad : Keypad) : KeyWait where
  pad
  seen := pad.presses
  found := pad.look pad.presses

def step (w : KeyWait) : WaitStep → KeyWait
  | .event e => { w with pad := w.pad.play e }
  | .check => if w.found = .waiting then { w with found := w.pad.look w.seen } else w

def run (w : KeyWait) (steps : List WaitStep) : KeyWait := steps.foldl step w

theorem found_step {w : KeyWait} (h : w.found ≠ .waiting) (s : WaitStep) : (w.step s).found = w.found := by
  cases s with
  | event e => rfl
  | check => rw [step, if_neg h]

theorem found_run {w : KeyWait} (h : w.found ≠ .waiting) (steps : List WaitStep) :
    (w.run steps).found = w.found := by
  induction steps generalizing w with
  | nil => rfl
  | cons s rest ih =>
    have hs := found_step h s
    exact (ih (by rwa [hs])).trans hs

/-- How a wait stands that began after `before`, when `since` has happened. -/
structure Stands (before since : List KeypadEvent) (w : KeyWait) : Prop where
  pad_eq : w.pad = .after (before ++ since)
  seen_eq : w.seen = (Keypad.after before).presses
  found_eq : w.found = .waiting ∨ ∃ early, early <+: since ∧ w.found = .expected before early

variable {before since : List KeypadEvent} {w : KeyWait}

theorem Stands.look_eq (h : w.Stands before since) : w.pad.look w.seen = .expected before since := by
  rw [h.pad_eq, h.seen_eq, Keypad.look_after]

theorem stands_start (before : List KeypadEvent) : (start (.after before)).Stands before [] where
  pad_eq := by
    rw [List.append_nil]
    rfl
  seen_eq := rfl
  found_eq := by
    have hlook := Keypad.look_after before []
    rw [List.append_nil] at hlook
    exact .inr ⟨[], List.prefix_rfl, hlook⟩

/-- The first look finds a closed keypad, or nothing. -/
theorem found_start (before : List KeypadEvent) :
    (start (.after before)).found = if .close ∈ before then .closed else .waiting := by
  have hlook := (stands_start before).look_eq
  rw [Look.expected, List.append_nil] at hlook
  exact hlook

theorem stands_step (h : w.Stands before since) (s : WaitStep) :
    (w.step s).Stands before (since ++ WaitStep.events [s]) := by
  cases s with
  | event e =>
    constructor
    · show w.pad.play e = .after (before ++ (since ++ [e]))
      rw [← List.append_assoc, Keypad.after_append, h.pad_eq]
      rfl
    · exact h.seen_eq
    · refine h.found_eq.imp_right ?_
      rintro ⟨early, hearly, hfound⟩
      exact ⟨early, hearly.trans (List.prefix_append since _), hfound⟩
  | check =>
    have hsince : since ++ WaitStep.events [.check] = since := List.append_nil since
    rw [hsince, step]
    split
    · exact ⟨h.pad_eq, h.seen_eq, .inr ⟨since, List.prefix_rfl, h.look_eq⟩⟩
    · exact h

theorem stands_run (h : w.Stands before since) (steps : List WaitStep) :
    (w.run steps).Stands before (since ++ WaitStep.events steps) := by
  induction steps generalizing w since with
  | nil =>
    rw [show since ++ WaitStep.events [] = since from List.append_nil since]
    exact h
  | cons s rest ih =>
    have hrest := ih (stands_step h s)
    rw [List.append_assoc, WaitStep.events, WaitStep.events, ← List.filterMap_append] at hrest
    exact hrest

/-- A wait ends with no key but one that was pressed since it began. -/
theorem Stands.mem_pressedKeys (h : w.Stands before since) {key : UInt8} (hk : w.found = .key key) :
    key ∈ pressedKeys since := by
  obtain hw | ⟨early, ⟨later, rfl⟩, hf⟩ := h.found_eq
  · rw [hw] at hk
    cases hk
  · rw [hf, Look.expected] at hk
    split at hk
    · cases hk
    · cases hp : (pressedKeys early).getLast? with
      | none =>
        rw [hp] at hk
        cases hk
      | some pressed =>
        rw [hp] at hk
        cases hk
        rw [pressedKeys, List.filterMap_append]
        exact List.mem_append_left _ (List.mem_of_getLast? hp)

/-- A wait that began on a keypad with the history `before`, after `steps`. -/
def amid (before : List KeypadEvent) (steps : List WaitStep) : KeyWait := (start (.after before)).run steps

theorem found_of_closed (hc : .close ∈ before) (steps : List WaitStep) :
    (amid before steps).found = .closed := by
  have hstart := (found_start before).trans (if_pos hc)
  exact (found_run (by simp [hstart]) steps).trans hstart

/-- One who looks again after every event. -/
def attentive (events : List KeypadEvent) : List WaitStep := events.flatMap fun e => [.event e, .check]

theorem events_attentive (events : List KeypadEvent) : WaitStep.events (attentive events) = events := by
  induction events with
  | nil => rfl
  | cons e rest ih => exact congrArg (e :: ·) ih

theorem Stands.waitDuring_eq (h : w.Stands before since) (hf : w.found = w.pad.look w.seen)
    (events : List KeypadEvent) :
    w.pad.waitDuring w.seen events = ((w.run (attentive events)).found, (w.run (attentive events)).pad) := by
  induction events generalizing w since with
  | nil => exact congrArg (·, w.pad) hf.symm
  | cons e rest ih =>
    by_cases hw : w.found = .waiting
    · have hstep : (w.step (.event e)).step .check =
          { w with pad := w.pad.play e, found := (w.pad.play e).look w.seen } := if_pos hw
      have hnext := ih (stands_step (stands_step h (.event e)) .check) (by rw [hstep])
      rw [hstep] at hnext
      rw [Keypad.waitDuring, ← hf, hw]
      refine hnext.trans ?_
      rw [← hstep]
      rfl
    · have hpad := (stands_run h (attentive (e :: rest))).pad_eq
      rw [events_attentive, ← List.append_assoc, Keypad.after_append, ← h.pad_eq] at hpad
      rw [found_run hw, hpad, Keypad.waitDuring, ← hf]
      cases hl : w.found with
      | waiting => exact absurd hl hw
      | closed => rfl
      | key pressed => rfl

/-- The wait of a machine with a keypad of its own is one that looks after every event. -/
theorem waitDuring_after (before events : List KeypadEvent) :
    (Keypad.after before).waitDuring (Keypad.after before).presses events =
      ((amid before (attentive events)).found, (amid before (attentive events)).pad) :=
  (stands_start before).waitDuring_eq rfl events

/-- The rules of a wait that began after `before`, at the moment when `steps` have happened. -/
structure Ruled (before : List KeypadEvent) (steps : List WaitStep) : Prop where
  /-- Waiting changes nothing on the keypad. -/
  pad_eq : (amid before steps).pad = .after (before ++ WaitStep.events steps)
  /-- The count of presses fits its word for as long as there are fewer presses than that. -/
  presses_eq : (amid before steps).pad.presses =
    (pressedKeys (before ++ WaitStep.events steps)).length
  /-- The first look finds a closed keypad, or nothing. -/
  begins : (start (.after before)).found = if .close ∈ before then .closed else .waiting
  /-- A look of a wait that goes on finds a closed keypad, or else the last key pressed since. -/
  check : (amid before steps).found = .waiting →
    ((amid before steps).step .check).found = .expected before (WaitStep.events steps)
  /-- Nothing but a look ends a wait. -/
  event : ∀ e, ((amid before steps).step (.event e)).found = (amid before steps).found
  /-- What ended a wait stays. -/
  final : (amid before steps).found ≠ .waiting →
    ∀ later, ((amid before steps).run later).found = (amid before steps).found
  key_lt : ∀ key, (amid before steps).found = .key key → key.toNat < keyCount
  closed : .close ∈ before → (amid before steps).found = .closed

/-- A wait keeps to its rules, whatever happens on the keypad and whenever it looks. -/
theorem wait_ruled (before : List KeypadEvent) (steps : List WaitStep) : Ruled before steps := by
  have hs : (amid before steps).Stands before (WaitStep.events steps) := stands_run (stands_start before) steps
  constructor
  case pad_eq => exact hs.pad_eq
  case presses_eq =>
    rw [hs.pad_eq]
    exact (Keypad.presses_playAll {} _).trans (Nat.zero_add _)
  case begins => exact found_start before
  case check =>
    intro hw
    rw [step, if_pos hw]
    exact hs.look_eq
  case event =>
    intro e
    rfl
  case final => exact fun hw later => found_run hw later
  case key_lt => exact fun key hk => lt_of_mem_pressedKeys (hs.mem_pressedKeys hk)
  case closed => exact fun hc => found_of_closed hc steps

end KeyWait

end ChipEight
