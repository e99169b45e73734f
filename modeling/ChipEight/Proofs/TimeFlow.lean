import ChipEight.Proofs.TwoRuns

/-! Time reaches a program through the delay timer alone, and the sound timer reaches nothing. -/
namespace ChipEight

namespace Machine

variable {ρ κ γ ρ' κ' γ' τ : Type} {hidden : Timer → Prop} {a b : Machine ρ κ γ}

/-- Machines that look alike and are connected to the same peripherals, in the same state. -/
structure Twins (hidden : Timer → Prop) (a b : Machine ρ κ γ) : Prop extends Alike hidden a b where
  randomizer : a.randomizer = b.randomizer
  keyboard : a.keyboard = b.keyboard
  clock : a.clock = b.clock

theorem Twins.takeFrame (h : a.Twins hidden b) : a.takeFrame.2.Twins hidden b.takeFrame.2 :=
  ⟨h.toAlike.takeFrame.2, h.randomizer, h.keyboard, h.clock⟩

/-- The same machine with another count in its sound timer. -/
def withSound (m : Machine ρ κ γ) (sound : UInt8) : Machine ρ κ γ := m.onto ({ · with sound })

theorem withSound_twins (m : Machine ρ κ γ) (sound : UInt8) : m.Twins (· = .sound) (m.withSound sound) where
  processor :=
    { v := rfl, i := rfl, pc := rfl, stack := rfl, memory := rfl
      count := by
        intro t ht
        cases t with
        | delay => rfl
        | sound => exact absurd rfl ht }
  screen := rfl
  randomizer := rfl
  keyboard := rfl
  clock := rfl

theorem Twins.eq_withSound (h : a.Twins (· = .sound) b) : b = a.withSound b.processor.sound := by
  have hdelay : a.processor.delay = b.processor.delay := h.processor.count .delay nofun
  obtain ⟨delay, sound, hp⟩ := h.processor.exists_withTimers
  obtain ⟨p, screen, randomizer, keyboard, clock⟩ := b
  obtain ⟨⟨-, rfl⟩, rfl, rfl, rfl⟩ := h
  cases hp
  cases hdelay
  rfl

section
variable [Keyboard κ]

theorem Twins.refused (h : a.Twins hidden b) (i : Instruction) :
    (a.refused i).Twins hidden (b.refused i) := by
  have halike := h.toAlike.refused i
  cases i with
  | awaitKey x =>
    have hkeyboard := congrArg (fun k => (Keyboard.awaitPress k).2) h.keyboard
    exact ⟨halike, h.randomizer, hkeyboard, h.clock⟩
  | _ => exact h

theorem Twins.effect [Randomizer ρ] (h : a.Twins hidden b) {i : Instruction}
    (halike : (a.effect i).Alike hidden (b.effect i)) : (a.effect i).Twins hidden (b.effect i) := by
  cases i with
  | random x kk =>
    have hrandomizer := congrArg (fun r => (Randomizer.nextByte r).2) h.randomizer
    exact ⟨halike, hrandomizer, h.keyboard, h.clock⟩
  | skipKeyDown x | skipKeyUp x =>
    have hkeyboard : (Keyboard.isDown a.keyboard (a.processor.value x)).2 =
        (Keyboard.isDown b.keyboard (b.processor.value x)).2 := by
      rw [h.keyboard, h.toAlike.value x]
    exact ⟨halike, h.randomizer, hkeyboard, h.clock⟩
  | awaitKey x =>
    have hkeyboard := congrArg (fun k => (Keyboard.awaitPress k).2) h.keyboard
    exact ⟨halike, h.randomizer, hkeyboard, h.clock⟩
  | _ => exact ⟨halike, h.randomizer, h.keyboard, h.clock⟩

end

section
variable [LE τ] [Timescale τ] [Clock γ τ]

theorem Twins.timed (h : a.Twins hidden b) (halike : a.timed.Alike hidden b.timed) :
    a.timed.Twins hidden b.timed := by
  refine ⟨halike, ?_, ?_, ?_⟩ <;> unfold Machine.timed <;> rw [h.clock]
  all_goals by_cases hle : (Clock.elapsed b.clock).1 ≤ Timescale.period
  all_goals simp [hle, onto, h.randomizer, h.keyboard]

variable [Randomizer ρ] [Keyboard κ]

theorem Twins.agree (h : a.Twins hidden b) : a.answers.Agree b.answers := by
  have hbyte : a.answers.byte = b.answers.byte := by
    simp only [answers, h.toAlike.pending, h.randomizer]
  have hdown : a.answers.down = b.answers.down := by
    simp only [answers, h.toAlike.pending, h.keyboard, h.toAlike.value]
  have hpressed : a.answers.pressed = b.answers.pressed := by
    simp only [answers, h.toAlike.pending, h.keyboard]
  exact .of_eq hbyte hdown hpressed

theorem eq_elapsed_of_mem {m : Machine ρ κ γ} {x : τ} (h : x ∈ m.answers.elapsed) :
    x = (Clock.elapsed m.clock).1 := by
  simp only [answers] at h
  split at h
  · exact (Option.some.inj h).symm
  · cases h

theorem Twins.agreeOnTime (h : a.Twins hidden b) : a.answers.AgreeOnTime b.answers := by
  intro x hx y hy
  rw [eq_elapsed_of_mem hx, eq_elapsed_of_mem hy, h.clock]

theorem Twins.cycle (h : a.Twins hidden b)
    (hr : a.readsDelay = true → ¬ hidden .delay) :
    outcome (cycle a) = outcome (cycle b) ∧ (endState (cycle a)).Twins hidden (endState (cycle b)) := by
  obtain ⟨hout, hend⟩ := h.toAlike.cycle h.agree (fun _ _ => h.agreeOnTime) hr
  refine ⟨hout, ?_⟩
  have hpending := h.toAlike.pending
  cases hp : a.pending with
  | error f =>
    rw [cycle_eq_error hp, cycle_eq_error (hpending ▸ hp)]
    exact h
  | ok i =>
    have hhalt : a.halt i = b.halt i := by
      apply h.toAlike.halt
      intro x _
      rw [h.keyboard]
    rw [cycle_eq_halt hp, cycle_eq_halt (hpending ▸ hp), ← hhalt] at hend ⊢
    cases he : a.halt i with
    | some e => exact h.refused i
    | none =>
      rw [he] at hend
      have heffect := h.toAlike.effect hp h.agree fun x hi => hr (readsDelay_of_pending (hi ▸ hp))
      exact (h.effect heffect).timed hend

theorem Twins.afterAll (h : a.Twins hidden b) (requests : List Request)
    (hr : ∀ c ∈ a.starts requests, c.readsDelay = true → ¬ hidden .delay) :
    a.responses requests = b.responses requests ∧
      (a.afterAll requests).Twins hidden (b.afterAll requests) := by
  induction requests generalizing a b with
  | nil => exact ⟨rfl, h⟩
  | cons request rest ih =>
    cases request with
    | cycle =>
      obtain ⟨hout, hend⟩ := h.cycle (hr a List.mem_cons_self)
      obtain ⟨hresponses, hlast⟩ := ih hend fun c hc => hr c (List.mem_cons_of_mem a hc)
      exact ⟨congrArg₂ List.cons (congrArg Response.finished hout) hresponses, hlast⟩
    | takeFrame =>
      obtain ⟨hresponses, hlast⟩ := ih h.takeFrame hr
      exact ⟨congrArg₂ List.cons (congrArg Response.frame h.toAlike.takeFrame.1) hresponses, hlast⟩

end

section
variable [LE τ] [Timescale τ] [Clock γ τ] [Clock γ' τ] [Randomizer ρ] [Keyboard κ] [Randomizer ρ']
  [Keyboard κ']

/-- Machines that differ in their timers and clocks do the same until the delay timer is read. Machines that
differ in the sound timer do the same at any time, and differ in nothing else afterwards. -/
theorem time_flows_through_delay (a : Machine ρ κ γ) (b : Machine ρ' κ' γ') (requests : List Request) :
    (a.Alike (fun _ => True) b →
      List.Forall₂ Answers.Agree (a.told requests) (b.told requests) →
      (∀ c ∈ a.starts requests, c.readsDelay = false) →
      a.responses requests = b.responses requests ∧
        (a.afterAll requests).Alike (fun _ => True) (b.afterAll requests)) ∧
    (a.Alike (· = .sound) b →
      List.Forall₂ Answers.Agree (a.told requests) (b.told requests) →
      List.Forall₂ Answers.AgreeOnTime (a.told requests) (b.told requests) →
      a.responses requests = b.responses requests ∧
        (a.afterAll requests).Alike (· = .sound) (b.afterAll requests)) ∧
    ∀ sound, (a.withSound sound).responses requests = a.responses requests ∧
      ∃ sound', (a.withSound sound).afterAll requests = (a.afterAll requests).withSound sound' := by
  have hdelay : ¬ Timer.delay = .sound := nofun
  refine ⟨?_, ?_, ?_⟩
  · intro h hx hr
    exact h.afterAll hx (fun t ht => absurd trivial ht) fun c hc hread =>
      absurd hread (ne_true_of_eq_false (hr c hc))
  · intro h hx ht
    exact h.afterAll hx (fun _ _ => ht) fun _ _ _ => hdelay
  · intro sound
    obtain ⟨hresponses, hend⟩ := (withSound_twins a sound).afterAll requests fun _ _ _ => hdelay
    exact ⟨hresponses.symm, _, hend.eq_withSound⟩

end

/-- A program that picks a random byte and clears the screen, on machines with different timers and with
clocks of different speed. -/
theorem random_then_clear_untimed :
    let p := { Processor.initial with memory := Memory.initial.patch 0x200 [0xC1, 0x0F, 0x00, 0xE0] }
    let a : Machine ByteCycle KeyQueue CycleClock :=
      { processor := p, randomizer := { bytes := #[0x3A] }, keyboard := {}, clock := {} }
    let b : Machine ByteCycle KeyQueue SteadyClock :=
      { processor := p.withTimers 9 3, randomizer := { bytes := #[0x3A] }, keyboard := {}, clock := {} }
    let requests : List Request := [.cycle, .cycle, .takeFrame]
    a.responses requests = b.responses requests ∧
      (a.afterAll requests).Alike (fun _ => True) (b.afterAll requests) := by
  intro p a b requests
  have halike : a.Alike (fun _ => True) b :=
    ⟨⟨rfl, rfl, rfl, rfl, rfl, fun _ ht => absurd trivial ht⟩, rfl⟩
  let a' := (a.ask .cycle).2
  let b' := (b.ask .cycle).2
  have htold : (a.answers.byte = b.answers.byte ∧ a.answers.down = b.answers.down ∧
      a.answers.pressed = b.answers.pressed) ∧ (a'.answers.byte = b'.answers.byte ∧
      a'.answers.down = b'.answers.down ∧ a'.answers.pressed = b'.answers.pressed) ∧
      ∀ c ∈ a.starts requests, c.readsDelay = false := by decide +kernel
  obtain ⟨⟨hbyte, hdown, hpressed⟩, ⟨hbyte', hdown', hpressed'⟩, hread⟩ := htold
  have hagree : List.Forall₂ Answers.Agree (a.told requests) (b.told requests) :=
    .cons (.of_eq hbyte hdown hpressed) (.cons (.of_eq hbyte' hdown' hpressed') .nil)
  exact (time_flows_through_delay a b requests).1 halike hagree hread

end Machine

end ChipEight
