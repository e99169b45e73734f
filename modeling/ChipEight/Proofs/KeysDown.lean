import ChipEight.Proofs.KeyWait
import Mathlib.Data.List.Induction
import Mathlib.Logic.Relation

/-! Which keys are down, when several handles use one keypad. A key is down exactly if the last press or release of
it was a press, whichever handle made the call. Waits, closing and calls on other keys have no part in it, so calls on
different keys may change places. -/
namespace ChipEight

/-- The key that an event presses or releases, of those that exist and of those that do not. -/
def KeypadEvent.key? : KeypadEvent → Option UInt8
  | .press key | .release key => some key
  | .close => none

namespace Keypad

variable {key : UInt8}

theorem isDown_play_of_ne (pad : Keypad) {event : KeypadEvent} (h : event.key? ≠ some key) :
    (pad.play event).isDown key = pad.isDown key := by
  cases event with
  | press pressed =>
    have hne : key ≠ pressed := fun heq => h (congrArg some heq.symm)
    simp [play, isDown_press, hne]
  | release released =>
    have hne : key ≠ released := fun heq => h (congrArg some heq.symm)
    simp [play, isDown_release, hne]
  | close => rfl

/-- The presses and releases of one key. -/
def callsOn (key : UInt8) (events : List KeypadEvent) : List KeypadEvent := events.filter (·.key? = some key)

theorem isDown_after_iff (events : List KeypadEvent) : (after events).isDown key = true ↔
    key.toNat < keyCount ∧ (callsOn key events).getLast? = some (.press key) := by
  induction events using List.reverseRecOn with
  | nil =>
    have hup : (after []).isDown key = false := by
      rw [after, playAll, List.foldl_nil, isDown]
      by_cases hlt : key.toNat < keyCount
      · simp [hlt]
      · simp [hlt]
    simp [hup, callsOn]
  | append_singleton events event ih =>
    have hplay : after (events ++ [event]) = (after events).play event := after_append events [event]
    rw [hplay, callsOn, List.filter_append]
    by_cases hkey : event.key? = some key
    · cases event with
      | press pressed =>
        obtain rfl := Option.some.inj hkey
        -- A press of a key that does not exist leaves that key up, as it was.
        by_cases hlt : pressed.toNat < keyCount
        · simp [play, isDown_press, KeypadEvent.key?, hlt]
        · simp [play, hlt, isDown_of_le _ (Nat.le_of_not_lt hlt)]
      | release released =>
        obtain rfl := Option.some.inj hkey
        simp [play, isDown_release, KeypadEvent.key?]
      | close => cases hkey
    · rw [isDown_play_of_ne _ hkey, ih]
      simp [callsOn, hkey]

end Keypad

/-- What a handle is used for. A wait is a call that notes how many presses there were, and looks at the keypad at once
and whenever the handle wakes up. -/
inductive HandleCall
  | event (e : KeypadEvent)
  | wait
  | look

def HandleCall.event? : HandleCall → Option KeypadEvent
  | .event e => some e
  | .wait | .look => none

/-- A keypad and its handles. A handle that is copied from another one later has done nothing until then. -/
structure SharedKeypad (ι : Type) where
  pad : Keypad := {}
  /-- How many presses there were when the wait of a handle began, for as long as it goes on. -/
  seen : ι → Option Nat := fun _ => none

namespace SharedKeypad

variable {ι : Type}

section Calls

/-- The events among the calls, whichever handle they come from. -/
def events (calls : List (ι × HandleCall)) : List KeypadEvent := calls.filterMap (·.2.event?)

/-- The key that a call presses or releases. -/
def key? (call : ι × HandleCall) : Option UInt8 := call.2.event?.bind KeypadEvent.key?

/-- Two neighbours that are not calls on one key change places. -/
inductive Swapped : List (ι × HandleCall) → List (ι × HandleCall) → Prop
  | swap (before after : List (ι × HandleCall)) {c d : ι × HandleCall}
    (apart : ∀ key, key? c = some key → key? d ≠ some key) :
    Swapped (before ++ c :: d :: after) (before ++ d :: c :: after)

/-- From one order of calls to another by exchanges of neighbours. -/
def Reordered (calls calls' : List (ι × HandleCall)) : Prop := Relation.ReflTransGen Swapped calls calls'

variable {calls calls' : List (ι × HandleCall)}

theorem callsOn_append (key : UInt8) (calls later : List (ι × HandleCall)) :
    Keypad.callsOn key (events (calls ++ later)) =
      Keypad.callsOn key (events calls) ++ Keypad.callsOn key (events later) := by
  simp [events, Keypad.callsOn]

theorem callsOn_of_ne {call : ι × HandleCall} {key : UInt8} (h : key? call ≠ some key) :
    Keypad.callsOn key (events [call]) = [] := by
  cases he : call.2.event? with
  | none => simp [events, he, Keypad.callsOn]
  | some e =>
    have hkey : e.key? ≠ some key := by simpa [key?, he] using h
    simp [events, he, Keypad.callsOn, hkey]

theorem Swapped.callsOn_eq (h : Swapped calls calls') (key : UInt8) :
    Keypad.callsOn key (events calls') = Keypad.callsOn key (events calls) := by
  cases h with
  | @swap before after c d apart =>
    have hsplit (c d : ι × HandleCall) : before ++ c :: d :: after = before ++ ([c] ++ ([d] ++ after)) := rfl
    rw [hsplit c d, hsplit d c]
    simp only [callsOn_append]
    -- At most one of the two is a call on this key.
    by_cases hc : key? c = some key
    · simp [callsOn_of_ne (apart key hc)]
    · simp [callsOn_of_ne hc]

theorem Reordered.callsOn_eq (h : Reordered calls calls') (key : UInt8) :
    Keypad.callsOn key (events calls') = Keypad.callsOn key (events calls) := by
  induction h with
  | refl => rfl
  | tail _ hswap ih => exact (hswap.callsOn_eq key).trans ih

end Calls

variable [DecidableEq ι]

/-- A look by a handle, whose wait began after `seen` presses. -/
def look (shared : SharedKeypad ι) (handle : ι) (seen : Nat) : SharedKeypad ι :=
  { shared with
    seen := Function.update shared.seen handle (if shared.pad.look seen = .waiting then some seen else none) }

def step (shared : SharedKeypad ι) : ι × HandleCall → SharedKeypad ι
  | (_, .event e) => { shared with pad := shared.pad.play e }
  | (handle, .wait) => shared.look handle shared.pad.presses
  | (handle, .look) =>
    match shared.seen handle with
    | some seen => shared.look handle seen
    | none => shared

def run (shared : SharedKeypad ι) (calls : List (ι × HandleCall)) : SharedKeypad ι := calls.foldl step shared

theorem pad_step (shared : SharedKeypad ι) (call : ι × HandleCall) :
    (shared.step call).pad = shared.pad.playAll call.2.event?.toList := by
  obtain ⟨handle, kind⟩ := call
  cases kind with
  | event e | wait => rfl
  | look =>
    rw [step]
    split <;> rfl

theorem pad_run (shared : SharedKeypad ι) (calls : List (ι × HandleCall)) :
    (shared.run calls).pad = shared.pad.playAll (events calls) := by
  induction calls generalizing shared with
  | nil => rfl
  | cons call rest ih =>
    have hevents : events (call :: rest) = call.2.event?.toList ++ events rest := by
      cases h : call.2.event? <;> simp [events, h]
    have hrest := ih (shared.step call)
    rw [pad_step, ← Keypad.playAll_append, ← hevents] at hrest
    exact hrest

/-- A key is not changed by any call that is on another key or on none, and a key that does not exist by no call at
all. -/
theorem isDown_step (shared : SharedKeypad ι) {call : ι × HandleCall} {key : UInt8}
    (h : key? call ≠ some key ∨ keyCount ≤ key.toNat) :
    (shared.step call).pad.isDown key = shared.pad.isDown key := by
  obtain hne | hmissing := h
  · rw [pad_step]
    cases he : call.2.event? with
    | none => rfl
    | some e =>
      have hkey : e.key? ≠ some key := by simpa [key?, he] using hne
      exact shared.pad.isDown_play_of_ne hkey
  · rw [Keypad.isDown_of_le _ hmissing, Keypad.isDown_of_le _ hmissing]

/-- Whatever is done through which handle, a key is down exactly if it exists and the last call on it was a press. No
other call changes it, so calls that are not on one key may be exchanged. -/
theorem last_call_decides (calls : List (ι × HandleCall)) :
    (∀ key, (run {} calls).pad.isDown key = true ↔
      key.toNat < keyCount ∧ (Keypad.callsOn key (events calls)).getLast? = some (.press key)) ∧
    (∀ (shared : SharedKeypad ι) call key, key? call ≠ some key ∨ keyCount ≤ key.toNat →
      (shared.step call).pad.isDown key = shared.pad.isDown key) ∧
    ∀ calls', Reordered calls calls' → ∀ key, (run {} calls').pad.isDown key = (run {} calls).pad.isDown key := by
  have hdown (calls : List (ι × HandleCall)) (key : UInt8) : (run {} calls).pad.isDown key = true ↔
      key.toNat < keyCount ∧ (Keypad.callsOn key (events calls)).getLast? = some (.press key) := by
    rw [pad_run]
    exact Keypad.isDown_after_iff (events calls)
  refine ⟨hdown calls, fun shared _ _ => shared.isDown_step, ?_⟩
  intro calls' hreordered key
  rw [Bool.eq_iff_iff, hdown calls' key, hdown calls key, hreordered.callsOn_eq key]

/-- One handle waits while another presses three keys, of which one does not exist, and releases the first. The release
may come before the second press. -/
theorem second_key_stays_down :
    let calls : List (Bool × HandleCall) := [(true, .event (.press 3)), (false, .wait), (true, .event (.press 5)),
      (true, .event (.release 3)), (false, .look), (true, .event (.press 32)), (true, .event .close)]
    let calls' : List (Bool × HandleCall) := [(true, .event (.press 3)), (false, .wait), (true, .event (.release 3)),
      (true, .event (.press 5)), (false, .look), (true, .event (.press 32)), (true, .event .close)]
    (run {} calls).pad.isDown 3 = false ∧ (run {} calls).pad.isDown 5 = true ∧
      (run {} calls).pad.isDown 32 = false ∧ Reordered calls calls' ∧
      (run {} calls').pad.isDown 5 = true := by
  intro calls calls'
  obtain ⟨hdown, -, hreordered⟩ := last_call_decides calls
  have hthree : (run {} calls).pad.isDown 3 = false := by
    rw [Bool.eq_false_iff, Ne, hdown 3]
    decide
  have hmissing : (run {} calls).pad.isDown 32 = false := by
    rw [Bool.eq_false_iff, Ne, hdown 32]
    decide
  have hfive : (run {} calls).pad.isDown 5 = true := (hdown 5).2 (by decide)
  have hswap : Swapped calls calls' := .swap [(true, .event (.press 3)), (false, .wait)] _ (by rintro key ⟨⟩ ⟨⟩)
  exact ⟨hthree, hfive, hmissing, .single hswap, (hreordered calls' (.single hswap) 5).trans hfive⟩

end SharedKeypad

end ChipEight
