import ChipEight.Proofs.KeyWait
import ChipEight.Proofs.PictureSequence

/-! What becomes of the events of the host. The loop hears one after the other up to the first that makes it leave, so
what it calls on the keypad and what it warns of do not depend on how the events are spread over its polls. -/
namespace ChipEight

/-- No two keys of the host stand for one key of the keypad. -/
theorem HostKey.eq_of_keypadKey? {c d : Nat} {key : UInt8} (hc : keypadKey? c = some key)
    (hd : keypadKey? d = some key) : c = d := by
  have hplace {code : Nat} (h : keypadKey? code = some key) : layout[key.toNat]? = some code := by
    obtain ⟨i, hi, rfl⟩ := Option.map_eq_some_iff.1 h
    obtain ⟨hlt, hcode, -⟩ := List.findIdx?_eq_some_iff_getElem.1 hi
    have hbyte : i.toUInt8.toNat = i := by
      rw [length_layout] at hlt
      exact UInt8.toNat_ofNat_of_lt' (Nat.lt_trans hlt (by decide))
    rw [hbyte, List.getElem?_eq_getElem hlt, beq_iff_eq.1 hcode]
  exact Option.some.inj ((hplace hc).symm.trans (hplace hd))

/-- The lines of a log that warn. -/
def warnLines (log : List LogLine) : List LogLine := log.filter (·.level = .warn)

namespace HostEvent

/-- The loop is left at such an event. -/
def leaves : HostEvent → Bool
  | .quit => true
  | .keyDown (some code) => code = HostKey.escape
  | .keyDown none | .keyUp _ | .other => false

/-- The call on the keypad that an event is for. -/
def keypadCall? : HostEvent → Option KeypadEvent
  | .keyDown (some code) => (HostKey.keypadKey? code).map .press
  | .keyUp (some code) => (HostKey.keypadKey? code).map .release
  | .keyDown none | .keyUp none | .quit | .other => none

def unmappedLine (code : Nat) : LogLine := ⟨.warn, "no keypad mapping for " ++ HostKey.name code⟩

/-- What is logged of a key that goes down and has no place on the keypad. -/
def warning? : HostEvent → Option LogLine
  | .keyDown (some code) => if HostKey.keypadKey? code = none then some (unmappedLine code) else none
  | .keyDown none | .keyUp _ | .quit | .other => none

/-- The reactions that an event can have. -/
inductive Asks (event : HostEvent) : Reaction → Prop
  | quit (hl : event.leaves = true) (hc : event.keypadCall? = none) : Asks event .quit
  | keypad {call : KeypadEvent} (hl : event.leaves = false) (hc : event.keypadCall? = some call)
    (hw : event.warning? = none) : Asks event (.keypad call)
  | unmapped {code : Nat} (hl : event.leaves = false) (hc : event.keypadCall? = none)
    (hw : event.warning? = some (unmappedLine code)) : Asks event (.unmapped code)
  | nothing (hl : event.leaves = false) (hc : event.keypadCall? = none) (hw : event.warning? = none) :
    Asks event .nothing

theorem asks (event : HostEvent) : event.Asks event.reaction := by
  cases event with
  | quit => exact .quit rfl rfl
  | other => exact .nothing rfl rfl rfl
  | keyUp code? =>
    cases code? with
    | none => exact .nothing rfl rfl rfl
    | some code =>
      rw [reaction]
      cases hk : HostKey.keypadKey? code with
      | none => exact .nothing rfl (by rw [keypadCall?, hk]; rfl) rfl
      | some key => exact .keypad rfl (by rw [keypadCall?, hk]; rfl) rfl
  | keyDown code? =>
    cases code? with
    | none => exact .nothing rfl rfl rfl
    | some code =>
      rw [reaction]
      by_cases hescape : code = HostKey.escape
      · rw [if_pos hescape, hescape]
        exact .quit rfl rfl
      · have hl : (keyDown (some code)).leaves = false := decide_eq_false hescape
        rw [if_neg hescape]
        cases hk : HostKey.keypadKey? code with
        | none => exact .unmapped hl (by rw [keypadCall?, hk]; rfl) (if_pos hk)
        | some key => exact .keypad hl (by rw [keypadCall?, hk]; rfl) (if_neg (by simp [hk]))

theorem level_warning? (event : HostEvent) {line : LogLine} (h : event.warning? = some line) : line.level = .warn := by
  cases event with
  | keyDown code? =>
    cases code? with
    | none => cases h
    | some code =>
      obtain ⟨-, hline⟩ := Option.ite_none_right_eq_some.1 h
      exact congrArg LogLine.level (Option.some.inj hline).symm
  | keyUp | quit | other => cases h

theorem keypadCall?_of_leaves (event : HostEvent) (h : event.leaves = true) : event.keypadCall? = none := by
  have ha := event.asks
  generalize event.reaction = reaction at ha
  cases ha with
  | quit _ hc => exact hc
  | keypad hl | unmapped hl | nothing hl => cases hl.symm.trans h

end HostEvent

/-- The events before the first at which the loop is left. -/
def heeded (events : List HostEvent) : List HostEvent := events.takeWhile (!·.leaves)

theorem heeded_cons_of_leaves {event : HostEvent} (h : event.leaves = true) (rest : List HostEvent) :
    heeded (event :: rest) = [] := List.takeWhile_cons_of_neg (by simp [h])

theorem heeded_cons {event : HostEvent} (h : event.leaves = false) (rest : List HostEvent) :
    heeded (event :: rest) = event :: heeded rest := List.takeWhile_cons_of_pos (by simp [h])

/-- What is shared, once an event has been heard. -/
def Shared.hear (shared : Shared) (event : HostEvent) : Shared :=
  { shared with
    keypad := shared.keypad.playAll event.keypadCall?.toList
    wakes := shared.wakes + event.keypadCall?.elim 0 KeypadEvent.wakes
    calls := shared.calls ++ event.keypadCall?.toList
    log := shared.log ++ event.warning?.toList }

theorem warnLines_hear (shared : Shared) (event : HostEvent) :
    warnLines (shared.hear event).log = warnLines shared.log ++ [event].filterMap HostEvent.warning? := by
  have hline : warnLines event.warning?.toList = [event].filterMap HostEvent.warning? := by
    cases hw : event.warning? with
    | none => simp [warnLines, hw]
    | some line => simp [warnLines, hw, event.level_warning? hw]
  rw [← hline]
  exact List.filter_append _ _

/-- The calls with which the loop has taken its leave of the keypad. -/
def LoopPhase.closeCalls : LoopPhase → List KeypadEvent
  | .waking | .joining | .ended _ => [.close]
  | .polling | .handling _ | .presenting | .asking | .stopping | .closing => []

namespace Worker.Stepped

variable {ρ γ τ : Type} [Randomizer ρ] [LE τ] [Timescale τ] [Clock γ τ] {w w' : Worker ρ γ}
  {shared shared' : Shared} {deeds : List (Deed ρ γ)}

/-- A worker does not warn. -/
theorem warnLines_eq (h : w.Stepped shared w' shared' deeds) : warnLines shared'.log = warnLines shared.log := by
  cases h with
  | fail view hg hc hv =>
    rename_i how
    cases how with
    | failed cause =>
      show warnLines (shared.log ++ [_]) = _
      simp [warnLines]
    | finished | crashed => rfl
  | _ => rfl

end Worker.Stepped

namespace Session

variable {ρ γ ε τ : Type}

theorem handle_eq (s : Session ρ γ ε) (event : HostEvent) (rest : List HostEvent) :
    s.handle event rest = if event.leaves then { s with phase := .stopping }
      else { s with shared := s.shared.hear event, phase := .handling rest } := by
  have h := event.asks
  rw [handle, Shared.hear]
  generalize event.reaction = reaction at h
  cases h with
  | quit hl hc => rw [if_pos hl]
  | keypad hl hc hw =>
    rw [hl, hc, hw]
    simp [Shared.play, Keypad.playAll]
  | unmapped hl hc hw =>
    rw [hl, hc, hw]
    simp [Shared.note, Keypad.playAll, HostEvent.unmappedLine]
  | nothing hl hc hw =>
    rw [hl, hc, hw]
    simp [Keypad.playAll]

/-- Showing a frame is nothing to the keypad and the log, and has the loop go on or ends the session. -/
theorem present_cases (s : Session ρ γ ε) :
    s.present.shared.keypad = s.shared.keypad ∧ s.present.shared.calls = s.shared.calls ∧
      s.present.shared.log = s.shared.log ∧ s.present.events = s.events ∧
      (s.present.phase = .asking ∨ ∃ failure, s.present.phase = .ended (.error failure)) := by
  unfold present
  cases s.shared.frames.takeLatest with | mk newest frames
  cases newest with
  | none => exact ⟨rfl, rfl, rfl, rfl, .inl rfl⟩
  | some frame =>
    cases h : Host.render frame s.host with
    | ok u host => simp [h]
    | error failure host => simp [h]

/-- The loop's next turn finds that the host refuses a frame, or that the worker has ended. -/
def disturbed (s : Session ρ γ ε) : Bool :=
  match s.phase with
  | .presenting => s.present.phase.hasLeft
  | .asking => s.worker.hasEnded
  | _ => false

/-- The events that the loop has not handled yet, if it is to handle events at all. -/
def ahead (s : Session ρ γ (List (List HostEvent))) : List HostEvent :=
  match s.phase with
  | .polling | .presenting | .asking => s.events.flatten
  | .handling batch => batch ++ s.events.flatten
  | .stopping | .closing | .waking | .joining | .ended _ => []

/-- How many turns the loop takes for some polls and what comes after each. -/
def pollTurns : List (List HostEvent) → Nat
  | [] => 0
  | batch :: later => batch.length + 4 + pollTurns later

/-- How many turns there are, at most, until the loop has handled all events. -/
def turnsLeft (s : Session ρ γ (List (List HostEvent))) : Nat :=
  match s.phase with
  | .polling => pollTurns s.events
  | .handling batch => batch.length + 3 + pollTurns s.events
  | .presenting => 2 + pollTurns s.events
  | .asking => 1 + pollTurns s.events
  | .stopping | .closing | .waking | .joining | .ended _ => 0

section
variable [Randomizer ρ] [LE τ] [Timescale τ] [Clock γ τ] [EventSource ε]

/-- In some turns, the host refuses nothing to the loop and the worker goes on for as long as the loop asks. -/
def undisturbed (s : Session ρ γ ε) : List Turn → Bool
  | [] => true
  | .worker :: rest => (s.step .worker).undisturbed rest
  | .wake :: rest => (s.step .wake).undisturbed rest
  | .loop :: rest => !s.disturbed && (s.step .loop).undisturbed rest

theorem undisturbed_iff {s : Session ρ γ ε} {turns : List Turn} : s.undisturbed turns = true ↔
    ∀ before after, turns = before ++ .loop :: after → (s.run before).disturbed = false := by
  induction turns generalizing s with
  | nil => simp [undisturbed]
  | cons turn rest ih =>
    have hlater : (s.step turn).undisturbed rest = true ↔
        ∀ before after, rest = before ++ .loop :: after → (s.run (turn :: before)).disturbed = false := ih
    constructor
    · intro h before after hsplit
      cases before with
      | nil =>
        obtain ⟨rfl, -⟩ := List.cons.inj hsplit
        have hnow : s.disturbed = false := by simpa using (Bool.and_eq_true_iff.1 h).1
        exact hnow
      | cons first before =>
        obtain ⟨rfl, hrest⟩ := List.cons.inj hsplit
        refine hlater.1 ?_ before after hrest
        cases turn with
        | worker | wake => exact h
        | loop => exact (Bool.and_eq_true_iff.1 h).2
    · intro h
      have hrest := hlater.2 fun before after hsplit => h (turn :: before) after (congrArg _ hsplit)
      cases turn with
      | worker | wake => exact hrest
      | loop =>
        have hnow : s.disturbed = false := h [] rest rfl
        exact Bool.and_eq_true_iff.2 ⟨by rw [hnow]; rfl, hrest⟩

/-- On a host that accepts what it is given, only the end of the worker can disturb the loop. -/
theorem undisturbed_of_accepts {s : Session ρ γ ε} {path : String} {content : Except String (List UInt8)}
    {scale : UInt32} {machine : Machine ρ KeypadView γ} {events : ε} {desk desk' : Desk}
    (h : Session.start path content scale machine events desk = .ok s desk') (haccepts : s.host.Accepts)
    {turns : List Turn} (hgoing : ∀ before after, turns = before ++ .loop :: after →
      (s.run before).phase = .asking → (s.run before).worker.hasEnded = false) : s.undisturbed turns = true := by
  obtain ⟨hattentive, hcourse⟩ := attentive_of_start h haccepts
  refine undisturbed_iff.2 fun before after hsplit => ?_
  have ht := (hcourse before).attentive hattentive
  rw [disturbed]
  cases hp : (s.run before).phase with
  | presenting =>
    obtain ⟨hasking, -, -⟩ := present_of_accepts ht.accepts ht.binary
    simp only [hasking]
    rfl
  | asking => exact hgoing before after hsplit hp
  | _ => rfl

end

/-- How `s` came to `t`: the events that have been heard in between, and what was called on the keypad. -/
structure Hears (s t : Session ρ γ (List (List HostEvent))) (heard : List HostEvent) (calls : List KeypadEvent) :
    Prop where
  ahead_eq : heard ++ heeded t.ahead = heeded s.ahead
  called : t.shared.calls = s.shared.calls ++ calls
  calls_eq : s.phase.closeCalls ++ calls = heard.filterMap HostEvent.keypadCall? ++ t.phase.closeCalls
  keypad_eq : t.shared.keypad = s.shared.keypad.playAll calls
  warnLines_eq : warnLines t.shared.log = warnLines s.shared.log ++ heard.filterMap HostEvent.warning?

section
variable {s t u : Session ρ γ (List (List HostEvent))}

namespace Hears

variable {heard later : List HostEvent} {calls more : List KeypadEvent}

theorem of_quiet (hahead : heeded t.ahead = heeded s.ahead) (hclose : t.phase.closeCalls = s.phase.closeCalls)
    (hkeypad : t.shared.keypad = s.shared.keypad) (hcalls : t.shared.calls = s.shared.calls)
    (hlog : warnLines t.shared.log = warnLines s.shared.log) : s.Hears t [] [] where
  ahead_eq := hahead
  called := by rw [hcalls, List.append_nil]
  calls_eq := by rw [hclose, List.append_nil]; rfl
  keypad_eq := hkeypad
  warnLines_eq := by rw [hlog]; exact (List.append_nil _).symm

theorem trans (h : s.Hears t heard calls) (h' : t.Hears u later more) : s.Hears u (heard ++ later) (calls ++ more) where
  ahead_eq := by rw [List.append_assoc, h'.ahead_eq, h.ahead_eq]
  called := by rw [h'.called, h.called, List.append_assoc]
  calls_eq := by
    rw [← List.append_assoc, h.calls_eq, List.append_assoc, h'.calls_eq, List.filterMap_append, List.append_assoc]
  keypad_eq := by rw [h'.keypad_eq, h.keypad_eq, Keypad.playAll_append]
  warnLines_eq := by rw [h'.warnLines_eq, h.warnLines_eq, List.filterMap_append, List.append_assoc]

end Hears

theorem hears_handle {event : HostEvent} {rest : List HostEvent} (hp : s.phase = .handling (event :: rest)) :
    ∃ heard, s.Hears (s.handle event rest) heard event.keypadCall?.toList := by
  have hahead : s.ahead = event :: (rest ++ s.events.flatten) := by rw [ahead, hp]; rfl
  have hclose : s.phase.closeCalls = [] := by rw [hp]; rfl
  rw [handle_eq]
  cases hl : event.leaves with
  | true =>
    rw [event.keypadCall?_of_leaves hl]
    refine ⟨[], .of_quiet ?_ hclose.symm rfl rfl rfl⟩
    rw [hahead, heeded_cons_of_leaves hl]
    rfl
  | false =>
    refine ⟨[event], ?_, rfl, ?_, rfl, warnLines_hear s.shared event⟩
    · rw [hahead, heeded_cons hl]
      rfl
    · rw [hclose]
      exact (List.append_nil _).symm

/-- A poll only moves events. -/
theorem poll_flatten (batches : List (List HostEvent)) (picture : Frame) :
    (EventSource.poll batches picture).1 ++ (EventSource.poll batches picture).2.flatten = batches.flatten := by
  cases batches with
  | nil | cons => rfl

/-- A turn of the loop that is not disturbed hears one event or none. -/
theorem hears_loopStep (h : s.disturbed = false) : ∃ heard calls, s.Hears s.loopStep heard calls := by
  -- Events are heard from a batch in hand only. Wherever else the loop is, it keeps what lies ahead.
  unfold loopStep
  cases hp : s.phase with
  | polling =>
    refine ⟨[], [], .of_quiet ?_ (by rw [hp]; rfl) rfl rfl rfl⟩
    simp only [ahead, hp]
    rw [poll_flatten]
  | handling batch =>
    cases batch with
    | nil => exact ⟨[], [], .of_quiet (by simp [ahead, hp]) (by rw [hp]; rfl) rfl rfl rfl⟩
    | cons event rest =>
      obtain ⟨heard, hheard⟩ := hears_handle hp
      exact ⟨heard, _, hheard⟩
  | presenting =>
    obtain ⟨hkeypad, hcalls, hlog, hevents, hphase⟩ := s.present_cases
    have hasking : s.present.phase = .asking := by
      refine hphase.resolve_right ?_
      rintro ⟨failure, hended⟩
      rw [disturbed, hp, hended] at h
      cases h
    refine ⟨[], [], .of_quiet ?_ (by rw [hasking, hp]; rfl) hkeypad hcalls (congrArg warnLines hlog)⟩
    simp only [ahead, hasking, hevents, hp]
  | asking =>
    have hgoing : s.worker.hasEnded = false := by rwa [disturbed, hp] at h
    simp only [hgoing]
    exact ⟨[], [], .of_quiet (by simp [ahead, hp]) (by rw [hp]; rfl) rfl rfl rfl⟩
  | stopping => exact ⟨[], [], .of_quiet (by simp [ahead, hp]) (by rw [hp]; rfl) rfl rfl rfl⟩
  | closing =>
    refine ⟨[], [.close], ?_, rfl, ?_, rfl, (List.append_nil _).symm⟩
    · simp [ahead, hp]
    · rw [hp]
      rfl
  | waking => exact ⟨[], [], .of_quiet (by simp [ahead, hp]) (by rw [hp]; rfl) rfl rfl rfl⟩
  | joining =>
    cases hw : s.worker.phase with
    | ended how => exact ⟨[], [], .of_quiet (by simp [ahead, hp]) (by rw [hp]; rfl) rfl rfl rfl⟩
    | _ => exact ⟨[], [], .of_quiet rfl rfl rfl rfl rfl⟩
  | ended outcome => exact ⟨[], [], .of_quiet rfl rfl rfl rfl rfl⟩

/-- Events that lie ahead are not put off for ever. -/
theorem turnsLeft_loopStep (s : Session ρ γ (List (List HostEvent))) :
    s.ahead = [] ∨ s.loopStep.turnsLeft < s.turnsLeft := by
  unfold loopStep
  cases hp : s.phase with
  | polling =>
    cases hb : s.events with
    | nil => exact .inl (by simp [ahead, hp, hb])
    | cons batch later =>
      refine .inr ?_
      simp only [turnsLeft, hp, hb, EventSource.poll, pollTurns]
      omega
  | handling batch =>
    refine .inr ?_
    cases batch with
    | nil =>
      simp only [turnsLeft, hp, List.length_nil]
      omega
    | cons event rest =>
      simp only [handle_eq]
      split <;> simp only [turnsLeft, hp, List.length_cons] <;> omega
  | presenting =>
    obtain ⟨-, -, -, hevents, hphase⟩ := s.present_cases
    refine .inr ?_
    obtain hasking | ⟨failure, hended⟩ := hphase
    · simp only [turnsLeft, hp, hasking, hevents]
      omega
    · simp only [turnsLeft, hp, hended]
      omega
  | asking =>
    refine .inr ?_
    rw [show s.turnsLeft = 1 + pollTurns s.events by rw [turnsLeft, hp]]
    cases s.worker.hasEnded with
    | true => exact Nat.add_pos_left Nat.one_pos _
    | false => exact Nat.lt_add_of_pos_left Nat.one_pos
  | stopping | closing | waking | joining | ended => exact .inl (by rw [ahead, hp])

theorem ahead_eq_nil_of_turnsLeft (h : s.turnsLeft = 0) : s.ahead = [] := by
  have hnone (batches : List (List HostEvent)) (hb : pollTurns batches = 0) : batches = [] := by
    cases batches with
    | nil => rfl
    | cons batch later =>
      rw [pollTurns] at hb
      omega
  rw [turnsLeft] at h
  rw [ahead]
  cases hp : s.phase with
  | polling =>
    rw [hp] at h
    rw [hnone _ h]
    rfl
  | handling | presenting | asking =>
    simp only [hp] at h
    omega
  | stopping | closing | waking | joining | ended => rfl

/-- A loop with no events ahead does not come to any. -/
theorem ahead_loopStep (h : s.ahead = []) : s.loopStep.ahead = [] := by
  rw [ahead] at h
  unfold loopStep
  cases hp : s.phase with
  | polling =>
    rw [hp] at h
    exact (poll_flatten s.events s.host.picture).trans h
  | handling batch =>
    simp only [hp] at h
    cases batch with
    | nil => exact h
    | cons event rest => cases h
  | presenting =>
    rw [hp] at h
    obtain ⟨-, -, -, hevents, hasking | ⟨failure, hended⟩⟩ := s.present_cases
    · simp only [ahead, hasking, hevents]
      exact h
    · simp only [ahead, hended]
  | asking =>
    rw [hp] at h
    cases s.worker.hasEnded with
    | true => rfl
    | false => exact h
  | stopping | closing | waking | ended => simp [ahead, hp]
  | joining =>
    cases hw : s.worker.phase with
    | ended how => rfl
    | _ => simp [ahead, hp]

theorem ahead_of_hasLeft (h : s.phase.hasLeft = true) : s.ahead = [] := by
  rw [ahead]
  cases hp : s.phase with
  | stopping | closing | waking | joining | ended => rfl
  | polling | handling | presenting | asking =>
    rw [hp] at h
    cases h

variable [Randomizer ρ] [LE τ] [Timescale τ] [Clock γ τ]

/-- The worker has no part in what is done about events. -/
theorem hears_workerStep (s : Session ρ γ (List (List HostEvent))) : s.Hears (s.step .worker) [] [] :=
  .of_quiet rfl rfl s.stepped.keypad_eq s.stepped.calls_eq s.stepped.warnLines_eq

theorem hears_wake (s : Session ρ γ (List (List HostEvent))) : s.Hears (s.step .wake) [] [] :=
  .of_quiet rfl rfl rfl rfl rfl

theorem hears_run {turns : List Turn} (h : s.undisturbed turns = true) :
    ∃ heard calls, s.Hears (s.run turns) heard calls := by
  induction turns generalizing s with
  | nil => exact ⟨[], [], .of_quiet rfl rfl rfl rfl rfl⟩
  | cons turn rest ih =>
    cases turn with
    | worker =>
      obtain ⟨heard, calls, hrest⟩ := ih h
      exact ⟨heard, calls, (hears_workerStep s).trans hrest⟩
    | wake =>
      obtain ⟨heard, calls, hrest⟩ := ih h
      exact ⟨heard, calls, (hears_wake s).trans hrest⟩
    | loop =>
      obtain ⟨hnow, hlater⟩ := Bool.and_eq_true_iff.1 h
      obtain ⟨first, firstCalls, hfirst⟩ := hears_loopStep (by simpa using hnow)
      obtain ⟨heard, calls, hrest⟩ := ih hlater
      exact ⟨first ++ heard, firstCalls ++ calls, hfirst.trans hrest⟩

theorem ahead_run {turns : List Turn} (h : s.ahead = [] ∨ s.turnsLeft ≤ turns.count .loop) :
    (s.run turns).ahead = [] := by
  -- The count runs out once, and the loop goes on polling after that, so both sides of `h` are needed.
  induction turns generalizing s with
  | nil => exact h.elim id fun hleft => ahead_eq_nil_of_turnsLeft (Nat.le_zero.1 hleft)
  | cons turn rest ih =>
    cases turn with
    | worker | wake =>
      rw [List.count_cons_of_ne (by decide)] at h
      exact ih h
    | loop =>
      rw [List.count_cons_self] at h
      apply ih
      obtain hnone | hleft := h
      · exact .inl (ahead_loopStep hnone)
      obtain hnone | hless := s.turnsLeft_loopStep
      · exact .inl (ahead_loopStep hnone)
      · exact .inr (Nat.le_of_lt_succ (Nat.lt_of_lt_of_le hless hleft))

/-- What has become of `events` after some turns, of which `heard` have been acted on. -/
structure Answered (s : Session ρ γ (List (List HostEvent))) (turns : List Turn) (events heard : List HostEvent) :
    Prop where
  heard_prefix : heard <+: heeded events
  calls_eq : (s.run turns).shared.calls = heard.filterMap HostEvent.keypadCall? ++ (s.run turns).phase.closeCalls
  keypad_eq : (s.run turns).shared.keypad = Keypad.playAll {} (s.run turns).shared.calls
  warnLines_eq : warnLines (s.run turns).shared.log = warnLines s.shared.log ++ heard.filterMap HostEvent.warning?
  /-- No event before the first quit is left out, and none is put off for ever. -/
  heard_all : (s.run turns).phase.hasLeft = true ∨ pollTurns s.events ≤ turns.count .loop → heard = heeded events

/-- Whatever the order of the turns and however the events are spread over polls, the keypad is called once for each
mapped key that goes down or up before the first quit, and there is one warning for each key without a mapping that
goes down before it. Other events are passed over. -/
theorem events_answered {path : String} {content : Except String (List UInt8)} {scale : UInt32}
    {machine : Machine ρ KeypadView γ} {desk desk' : Desk} {events : List HostEvent}
    {batches : List (List HostEvent)} (hsplit : batches.flatten = events)
    (h : Session.start path content scale machine batches desk = .ok s desk') {turns : List Turn}
    (hu : s.undisturbed turns = true) :
    (∃ heard, s.Answered turns events heard) ∧
      (∀ c d key, HostKey.keypadKey? c = some key → HostKey.keypadKey? d = some key → c = d) ∧
      ∀ (t : Session ρ γ (List (List HostEvent))) event rest, event.leaves = false → event.keypadCall? = none →
        event.warning? = none → t.handle event rest = { t with phase := .handling rest } := by
  refine ⟨?_, fun _ _ _ => HostKey.eq_of_keypadKey?, ?_⟩
  · obtain ⟨heard, calls, hh⟩ := hears_run hu
    obtain ⟨rom, start, -, -, -, rfl⟩ := opened_of_start h
    have hahead := hh.ahead_eq
    rw [show (opened start desk'.host batches desk'.log).ahead = events from hsplit] at hahead
    have hcalled : ((opened start desk'.host batches desk'.log).run turns).shared.calls = calls := hh.called
    refine ⟨heard, ⟨_, hahead⟩, hcalled.trans hh.calls_eq, hcalled ▸ hh.keypad_eq, hh.warnLines_eq, fun hdone => ?_⟩
    have hnone : ((opened start desk'.host batches desk'.log).run turns).ahead = [] := by
      obtain hleft | hcount := hdone
      · exact ahead_of_hasLeft hleft
      · exact ahead_run (.inr hcount)
    rw [hnone] at hahead
    exact (List.append_nil heard).symm.trans hahead
  · intro t event rest hl hc hw
    rw [handle_eq, hl, Shared.hear, hc, hw]
    simp [Keypad.playAll]

end

/-- A key goes down and up again in two polls, another is not on the keypad, and nothing comes of the last one, since
it goes down after Escape. -/
theorem keys_until_escape :
    let batches : List (List HostEvent) :=
      [[.keyDown (some 'q'.toNat)],
        [.keyUp (some 'q'.toNat), .keyDown (some ' '.toNat), .keyDown (some HostKey.escape), .keyDown (some 'v'.toNat)]]
    let turns : List Turn := .worker :: List.replicate 12 .loop
    ∃ (s : Session ByteCycle CycleClock (List (List HostEvent))) (desk' : Desk),
      Session.start "rom.ch8" (.ok figureThenFault) 10 freshMachine batches {} = .ok s desk' ∧
        s.undisturbed turns = true ∧ (s.run turns).shared.calls = [.press 4, .release 4, .close] ∧
        warnLines (s.run turns).shared.log = [⟨.warn, "no keypad mapping for Space"⟩] := by
  intro batches turns
  have hopens : Host.Granted (openHost 10) := Host.granted_openHost (by decide)
  obtain ⟨_, host, hopen, -⟩ := hopens {} Host.accepts_default
  have hstart := start_eq figureThenFault_fits {} hopen "rom.ch8" freshMachine batches
  have hu (log : List LogLine) :
      (opened (freshMachine.loaded figureThenFault) host batches log).undisturbed turns = true := rfl
  have hp (log : List LogLine) :
      ((opened (freshMachine.loaded figureThenFault) host batches log).run turns).phase = .joining := rfl
  refine ⟨_, _, hstart, hu _, ?_⟩
  obtain ⟨⟨heard, ha⟩, -⟩ := events_answered rfl hstart (hu _)
  have hheard := ha.heard_all (.inl (by rw [hp]; rfl))
  rw [ha.calls_eq, ha.warnLines_eq, hp, hheard]
  exact ⟨rfl, rfl⟩

end Session

end ChipEight
