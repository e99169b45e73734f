import ChipEight.Proofs.KeyWait
import ChipEight.Proofs.WorkerDeeds

/-! How a worker waits for a key. It looks at the keypad when the wait begins and whenever it has been
woken, and its looks are those of a wait by the rules. In between it sleeps, and nothing escapes it: as long
as it has not been woken there is nothing for it to find, but that the keypad has just been closed. -/
namespace ChipEight

/-- A key that is pressed wakes those who sleep; nothing else but closing changes what is to be found. -/
theorem Keypad.look_play {pad : Keypad} {event : KeypadEvent} (hw : event.wakes = 0)
    (hc : (pad.play event).closed = false) (seen : Nat) :
    pad.closed = false ∧ (pad.play event).look seen = pad.look seen := by
  cases event with
  | press key =>
    by_cases h : key.toNat < keyCount
    · simp [KeypadEvent.wakes, h] at hw
    · simpa [play, press, h] using hc
  | release key =>
    by_cases h : key.toNat < keyCount
    · simpa [play, release, look, h] using hc
    · simpa [play, release, h] using hc
  | close => cases hc

namespace Worker

variable {ρ γ τ : Type} {w w' : Worker ρ γ} {shared shared' : Shared} {deeds : List (Deed ρ γ)}

/-- A worker that sleeps waits for a key. As long as it has not been woken there is nothing for it to find,
unless the keypad is closed. -/
structure Vigilant (w : Worker ρ γ) (shared : Shared) : Prop where
  awaits : ∀ seen since, w.phase = .waiting seen since → w.awaitsKey = true
  since_le : ∀ seen since, w.phase = .waiting seen since → since ≤ shared.wakes
  asleep : ∀ seen, w.phase = .waiting seen shared.wakes → shared.keypad.closed = false →
    shared.keypad.look seen = .waiting

theorem Vigilant.of_awake (h : ∀ seen since, w.phase ≠ .waiting seen since) : w.Vigilant shared where
  awaits seen since hp := absurd hp (h seen since)
  since_le seen since hp := absurd hp (h seen since)
  asleep seen hp := absurd hp (h seen _)

theorem isBlocked_iff : w.isBlocked shared = true ↔ ∃ seen, w.phase = .waiting seen shared.wakes := by
  rw [isBlocked]
  cases hp : w.phase with
  | waiting seen since =>
    constructor
    · exact fun h => ⟨seen, congrArg (WorkerPhase.waiting seen) (beq_iff_eq.1 h).symm⟩
    · rintro ⟨_, h⟩
      cases h
      exact beq_self_eq_true _
  | _ => simp

/-- Whoever has fallen asleep before is woken. -/
theorem Vigilant.not_asleep (h : w.Vigilant shared) (hw : shared.wakes < shared'.wakes) (seen : Nat) :
    w.phase ≠ .waiting seen shared'.wakes := fun hp =>
  Nat.not_lt.2 (h.since_le seen _ hp) hw

theorem Vigilant.isBlocked_wakeAll (h : w.Vigilant shared) : w.isBlocked shared.wakeAll = false := by
  refine Bool.eq_false_iff.2 fun hb => ?_
  obtain ⟨seen, hp⟩ := isBlocked_iff.1 hb
  exact h.not_asleep (Nat.lt_succ_self shared.wakes) seen hp

theorem Vigilant.wakeAll (h : w.Vigilant shared) : w.Vigilant shared.wakeAll where
  awaits := h.awaits
  since_le seen since hp := Nat.le_succ_of_le (h.since_le seen since hp)
  asleep seen hp := absurd hp (h.not_asleep (Nat.lt_succ_self shared.wakes) seen)

theorem Vigilant.play (h : w.Vigilant shared) (event : KeypadEvent) : w.Vigilant (shared.play event) where
  awaits := h.awaits
  since_le seen since hp := Nat.le_add_right_of_le (h.since_le seen since hp)
  asleep seen hp hc := by
    have hwakes : (shared.play event).wakes = shared.wakes + event.wakes := rfl
    by_cases hquiet : event.wakes = 0
    · rw [hwakes, hquiet] at hp
      obtain ⟨hopen, hlook⟩ := Keypad.look_play hquiet hc seen
      exact hlook.trans (h.asleep seen hp hopen)
    · exact absurd hp (h.not_asleep (by omega) seen)

theorem Looks.awaitsKey {seen : Nat} (h : w.Looks shared seen) (hv : w.Vigilant shared) : w.awaitsKey = true := by
  cases h with
  | first _ ha => exact ha
  | again hp => exact hv.awaits _ _ hp

section
variable [Randomizer ρ] [LE τ] [Timescale τ] [Clock γ τ]

theorem step_of_looks {seen : Nat} (h : w.Looks shared seen) : w.step shared = w.look seen shared := by
  cases h with
  | first hp ha => simp only [step, hp, ha, if_true]
  | again hp hb => simp only [step, hp, hb, Bool.false_eq_true, if_false]

theorem step_of_isBlocked (h : w.isBlocked shared = true) : w.step shared = { worker := w, shared } := by
  obtain ⟨seen, hp⟩ := isBlocked_iff.1 h
  simp only [step, hp, h, if_true]

theorem deed?_runCycle (w : Worker ρ γ) (view : KeypadView) (shared : Shared) :
    (w.runCycle view shared).deed? = some (.cycled { w.machine with keyboard := view }) := by
  simp only [runCycle]
  split <;> rfl

theorem Stepped.vigilant (h : w.Stepped shared w' shared' deeds) (hv : w.Vigilant shared) :
    w'.Vigilant shared' := by
  cases h with
  | wait hw hl =>
    constructor
    · exact fun _ _ _ => hw.awaitsKey hv
    · intro seen since hp
      cases hp
      exact Nat.le_refl _
    · intro seen hp _
      cases hp
      exact hl
  | stay => exact hv
  | _ => exact .of_awake nofun

end

end Worker

open Keypad (Look)

/-- What a cycle that waits is told once its wait has come to an end. -/
def Keypad.Look.answer? : Look → Option UInt8
  | .key pressed => some pressed
  | .waiting | .closed => none

namespace Stage

variable {ρ γ τ : Type} {s : Stage ρ γ} {m : Machine ρ KeypadView γ} {past : List (Deed ρ γ)} {k : KeyWait}

/-- A worker with the machine `m` waits as `k` does. It sleeps, with no more to remember than `past`, until
`k` ends, and then runs a cycle that is told how `k` ended. -/
structure WaitsAs (m : Machine ρ KeypadView γ) (past : List (Deed ρ γ)) (k : KeyWait) (s : Stage ρ γ) :
    Prop where
  pad_eq : k.pad = s.shared.keypad
  waiting : k.found = .waiting →
    s.deeds = past ∧ ∃ since, s.worker = { machine := m, phase := .waiting k.seen since }
  ended : k.found ≠ .waiting → ∃ keypad later, s.deeds = past ++
    .cycled { m with keyboard := { keypad, pressed := k.found.answer? } } :: later

theorem WaitsAs.withShared (h : s.WaitsAs m past k) {shared : Shared} {pad : Keypad}
    (hpad : pad = shared.keypad) : WaitsAs m past { k with pad } { s with shared } :=
  ⟨hpad, h.waiting, h.ended⟩

/-- What a move is to one who waits for a key as the worker does. -/
def waitSteps (s : Stage ρ γ) : Move → List WaitStep
  | .worker => if s.worker.isBlocked s.shared then [] else [.check]
  | .keypad event => [.event event]
  | .wake | .stop | .receive | .hangUp | .warn _ => []

section
variable [Randomizer ρ] [LE τ] [Timescale τ] [Clock γ τ]

def waitStepsIn (s : Stage ρ γ) : List Move → List WaitStep
  | [] => []
  | move :: rest => s.waitSteps move ++ (s.step move).waitStepsIn rest

theorem vigilant_step (h : s.worker.Vigilant s.shared) (move : Move) :
    (s.step move).worker.Vigilant (s.step move).shared := by
  cases move with
  | worker => exact (s.worker.stepped s.shared).vigilant h
  | keypad event => exact h.play event
  | wake => exact h.wakeAll
  | stop | receive | hangUp | warn => exact ⟨h.awaits, h.since_le, h.asleep⟩

/-- No wake-up is lost, whatever happens around the worker. -/
theorem vigilant_run (h : s.worker.Vigilant s.shared) (moves : List Move) :
    (s.run moves).worker.Vigilant (s.run moves).shared := by
  induction moves generalizing s with
  | nil => exact h
  | cons move rest ih => exact ih (vigilant_step h move)

/-- A look of the worker is a look at the keypad, and ends the wait if it finds something. -/
theorem waitsAs_look {seen : Nat} (hw : s.worker.Looks s.shared seen) :
    (s.step .worker).WaitsAs s.worker.machine s.deeds
      { pad := s.shared.keypad, seen, found := s.shared.keypad.look seen } := by
  have hpad := (s.worker.stepped s.shared).keypad_eq
  -- A cycle that runs to its end now is remembered with what it was told.
  have hcycled (view : KeypadView) (hrun : s.worker.step s.shared = s.worker.runCycle view s.shared) :
      (s.step .worker).deeds = s.deeds ++ [.cycled { s.worker.machine with keyboard := view }] := by
    show s.deeds ++ (s.worker.step s.shared).deed?.toList = _
    rw [hrun, Worker.deed?_runCycle]
    rfl
  have hlook := Worker.step_of_looks hw
  rw [Worker.look] at hlook
  cases hl : s.shared.keypad.look seen with
  | waiting =>
    rw [hl] at hlook
    refine ⟨hpad.symm, fun _ => ⟨?_, _, congrArg Stride.worker hlook⟩, absurd rfl⟩
    show s.deeds ++ (s.worker.step s.shared).deed?.toList = s.deeds
    rw [hlook]
    exact List.append_nil s.deeds
  | closed =>
    rw [hl] at hlook
    exact ⟨hpad.symm, nofun, fun _ => ⟨_, [], hcycled _ hlook⟩⟩
  | key pressed =>
    rw [hl] at hlook
    exact ⟨hpad.symm, nofun, fun _ => ⟨_, [], hcycled _ hlook⟩⟩

theorem waitsAs_step (h : s.WaitsAs m past k) (move : Move) :
    (s.step move).WaitsAs m past (k.run (s.waitSteps move)) := by
  cases move with
  | keypad event => exact h.withShared (congrArg (·.play event) h.pad_eq)
  | wake | stop | receive | hangUp | warn => exact h.withShared h.pad_eq
  | worker =>
    rw [waitSteps]
    cases hb : s.worker.isBlocked s.shared with
    | true =>
      have hstay : s.step .worker = s := by
        simp only [step, Worker.step_of_isBlocked hb, Option.toList_none, List.append_nil]
      rw [hstay]
      exact h
    | false =>
      show (s.step .worker).WaitsAs m past (k.step .check)
      by_cases hfound : k.found = .waiting
      · obtain ⟨rfl, since, hworker⟩ := h.waiting hfound
        have hp : s.worker.phase = .waiting k.seen since := congrArg Worker.phase hworker
        obtain rfl : s.worker.machine = m := congrArg Worker.machine hworker
        rw [KeyWait.step, if_pos hfound, h.pad_eq]
        exact waitsAs_look (.again hp hb)
      · obtain ⟨keypad, later, hdeeds⟩ := h.ended hfound
        have hpad : k.pad = (s.step .worker).shared.keypad :=
          h.pad_eq.trans (s.worker.stepped s.shared).keypad_eq.symm
        have hlater : (s.step .worker).deeds = s.deeds ++ (s.worker.step s.shared).deed?.toList := rfl
        rw [hdeeds, List.append_assoc] at hlater
        rw [KeyWait.step, if_neg hfound]
        exact ⟨hpad, fun hw => absurd hw hfound, fun _ => ⟨keypad, _, hlater⟩⟩

theorem waitsAs_run (h : s.WaitsAs m past k) (moves : List Move) :
    (s.run moves).WaitsAs m past (k.run (s.waitStepsIn moves)) := by
  induction moves generalizing s k with
  | nil => exact h
  | cons move rest ih =>
    rw [waitStepsIn, KeyWait.run, List.foldl_append]
    exact ih (waitsAs_step h move)

/-- A cycle that waits for a key keeps to the rules of a wait that begins with its first step, whatever else
happens and in whatever order, and it does not sleep past what it waits for. -/
theorem waits_by_rules (hp : s.worker.phase = .cycling) (ha : s.worker.awaitsKey = true) (moves : List Move) :
    ((s.step .worker).run moves).WaitsAs s.worker.machine s.deeds
        ((KeyWait.start s.shared.keypad).run ((s.step .worker).waitStepsIn moves)) ∧
      ((s.step .worker).run moves).worker.Vigilant ((s.step .worker).run moves).shared := by
  have hawake : s.worker.Vigilant s.shared := by
    refine .of_awake fun seen since hwaiting => ?_
    cases hp.symm.trans hwaiting
  exact ⟨waitsAs_run (waitsAs_look (.first hp ha)) moves, vigilant_run (vigilant_step hawake .worker) moves⟩

end

end Stage

end ChipEight
