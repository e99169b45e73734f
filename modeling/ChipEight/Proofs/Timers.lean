import ChipEight.Proofs.Subroutine
import Mathlib.Algebra.Order.Monoid.Defs
import Mathlib.Algebra.Order.Ring.Rat

/-! The timers over a whole run: what a timer was set to, less the ticks since then. -/
namespace ChipEight

/-- The two timers, which count down together. -/
inductive Timer
  | delay
  | sound
  deriving DecidableEq

/-- The register that an instruction sets a timer from, if it does. -/
def Instruction.sets (i : Instruction) (t : Timer) : Option Nat :=
  match i, t with
  | .setDelay x, .delay => some x
  | .setSound x, .sound => some x
  | _, _ => none

namespace Processor

def count (p : Processor) : Timer → UInt8
  | .delay => p.delay
  | .sound => p.sound

theorem assignFrom_count (bytes : List UInt8) (x : Nat) (p : Processor) (t : Timer) :
    (p.assignFrom x bytes).count t = p.count t := by
  rw [assignFrom_eq]
  cases t <;> rfl

theorem effect_count (p : Processor) (i : Instruction) (t : Timer) :
    (p.effect i).count t = ((i.sets t).map p.value).getD (p.count t) := by
  cases i with
  | loadRegisters x =>
    have h : (p.effect (.loadRegisters x)).count t = p.count t := assignFrom_count _ 0 p t
    rw [h]
    cases t <;> rfl
  | _ => cases t <;> rfl

theorem ticked_count (p : Processor) (t : Timer) : p.ticked.count t = countedDown (p.count t) := by
  cases t <;> rfl

theorem toNat_countedDown (timer : UInt8) : (countedDown timer).toNat = timer.toNat - 1 := by
  unfold countedDown
  split
  · rename_i hpos
    exact UInt8.toNat_sub_of_le timer 1 (UInt8.le_iff_toNat_le.2 (UInt8.lt_iff_toNat_lt.1 hpos))
  · rename_i hzero
    have : timer.toNat = 0 := Nat.eq_zero_of_not_pos fun h => hzero (UInt8.lt_iff_toNat_lt.2 h)
    omega

end Processor

/-- What it means for a clock to keep the time `now`: it tells the time since its last reset, which was
at the time `since`, and no time runs backwards. -/
structure Clock.KeepsTime {γ τ : Type} [Add τ] [LE τ] [Clock γ τ] (now since : γ → τ) : Prop where
  add_elapsed : ∀ c, since c + (Clock.elapsed c).1 = now (Clock.elapsed c).2
  since_elapsed : ∀ c, since (Clock.elapsed c).2 = since c
  since_reset : ∀ c, since (Clock.reset c) = now (Clock.reset c)
  now_le_elapsed : ∀ c, now c ≤ now (Clock.elapsed c).2
  now_le_reset : ∀ c, now c ≤ now (Clock.reset c)

/-- A clock on which a hundredth of a second passes before each reading. -/
structure SteadyClock where
  now : Rat := 0
  since : Rat := 0

instance : Clock SteadyClock Rat where
  elapsed c := (c.now + mkRat 1 100 - c.since, { c with now := c.now + mkRat 1 100 })
  reset c := { c with since := c.now }

theorem SteadyClock.keepsTime : Clock.KeepsTime SteadyClock.now SteadyClock.since where
  add_elapsed c := add_sub_cancel c.since _
  since_elapsed _ := rfl
  since_reset _ := rfl
  now_le_elapsed c := le_add_of_nonneg_right (by decide : (0 : Rat) ≤ mkRat 1 100)
  now_le_reset c := le_refl c.now

namespace Machine

variable {ρ κ γ τ : Type}

section Effect
variable [Randomizer ρ] [Keyboard κ]

theorem effect_count (m : Machine ρ κ γ) (i : Instruction) (t : Timer) :
    (m.effect i).processor.count t =
      ((i.sets t).map m.processor.value).getD (m.processor.count t) := by
  cases i with
  | clear | random | draw | skipKeyDown | skipKeyUp | awaitKey => cases t <;> rfl
  | _ => exact m.processor.effect_count _ t

/-- No instruction looks at the clock. -/
theorem effect_clock (m : Machine ρ κ γ) (i : Instruction) : (m.effect i).clock = m.clock := by
  cases i <;> rfl

end Effect

theorem Spared.clock_eq {m m' : Machine ρ κ γ} {e : Halt} (h : m.Spared e m') : m'.clock = m.clock := by
  cases h <;> rfl

section Ticks
variable [LinearOrder τ] [Timescale τ] [Clock γ τ]

theorem timed_count (m : Machine ρ κ γ) (t : Timer) :
    (m.timed.processor.count t).toNat = (m.processor.count t).toNat -
      (decide (Timescale.period < (Clock.elapsed m.clock).1)).toNat := by
  rw [timed_processor]
  by_cases h : (Clock.elapsed m.clock).1 ≤ Timescale.period
  · simp [h, not_lt.2 h]
  · simp [h, not_le.1 h, Processor.ticked_count, Processor.toNat_countedDown]

theorem timed_clock (m : Machine ρ κ γ) :
    m.timed.clock = if Timescale.period < (Clock.elapsed m.clock).1
      then Clock.reset (Clock.elapsed m.clock).2 else (Clock.elapsed m.clock).2 := by
  unfold timed
  by_cases h : (Clock.elapsed m.clock).1 ≤ Timescale.period
  · simp [h]
  · simp [h, not_le.1 h, onto]

variable [Randomizer ρ] [Keyboard κ]

/-- Whether the next cycle is a tick: it succeeds, and more than a period has passed. -/
def ticks (m : Machine ρ κ γ) : Bool :=
  match cycle m with
  | .ok .. => decide (Timescale.period < (Clock.elapsed m.clock).1)
  | .error .. => false

/-- What the next cycle sets a timer to, if it does and succeeds. -/
def setting (m : Machine ρ κ γ) (t : Timer) : Option UInt8 :=
  match cycle m, m.pending with
  | .ok .., .ok i => (i.sets t).map m.processor.value
  | _, _ => none

/-- How many of the cycles from number `k` up to number `n` are ticks. -/
def ticksFrom (m : Machine ρ κ γ) (k n : Nat) : Nat :=
  (List.range' k (n - k)).countP fun j => (m.after j).ticks

theorem ticksFrom_self (m : Machine ρ κ γ) (n : Nat) : m.ticksFrom n n = 0 := by
  rw [ticksFrom, Nat.sub_self]
  rfl

theorem ticksFrom_succ (m : Machine ρ κ γ) {k n : Nat} (h : k ≤ n) :
    m.ticksFrom k (n + 1) = m.ticksFrom k n + (m.after n).ticks.toNat := by
  have hn : k + 1 * (n - k) = n := by omega
  rw [ticksFrom, Nat.succ_sub h, List.range'_concat, List.countP_append, hn]
  cases hb : (m.after n).ticks <;> simp [ticksFrom, hb]

theorem ticksFrom_eq_add (m : Machine ρ κ γ) {k n : Nat} (h : k < n) :
    m.ticksFrom k n = (m.after k).ticks.toNat + m.ticksFrom (k + 1) n := by
  have hn : n - k = n - (k + 1) + 1 := by omega
  rw [ticksFrom, hn, List.range'_succ, List.countP_cons, Nat.add_comm]
  cases (m.after k).ticks <;> simp [ticksFrom]

variable {m : Machine ρ κ γ}

theorem ticks_iff : m.ticks = true ↔ m.succeeds ∧ Timescale.period < (Clock.elapsed m.clock).1 := by
  unfold ticks succeeds
  cases cycle m <;> simp

/-- A cycle counts both timers down on a tick, after it has set one of them. -/
theorem count_step (hm : m.Sound) (t : Timer) :
    ((endState (cycle m)).processor.count t).toNat =
      ((m.setting t).getD (m.processor.count t)).toNat - m.ticks.toNat := by
  unfold setting ticks
  cases hc : cycle m with
  | error e m' =>
    have hsame := (cycle_spared hm.depth hc).processor_eq
    show (m'.processor.count t).toNat = (m.processor.count t).toNat - 0
    rw [hsame, Nat.sub_zero]
  | ok u m' =>
    obtain ⟨i, hp, -, rfl⟩ := cycle_of_ok hm.depth hc
    rw [hp]
    show ((m.effect i).timed.processor.count t).toNat = _
    rw [timed_count, effect_count, effect_clock]

theorem count_after (hm : m.Sound) {t : Timer} {k n : Nat} (hkn : k ≤ n)
    (hs : ∀ j, k ≤ j → j < n → (m.after j).setting t = none) :
    ((m.after n).processor.count t).toNat =
      ((m.after k).processor.count t).toNat - m.ticksFrom k n := by
  -- None of these cycles sets the timer, so each only takes away its own tick.
  induction n, hkn using Nat.le_induction with
  | base => rw [ticksFrom_self, Nat.sub_zero]
  | succ n hkn ih =>
    have hbefore := ih fun j hj hlt => hs j hj (Nat.lt_succ_of_lt hlt)
    have hstep := count_step (after_sound hm n) t
    rw [hs n hkn (Nat.lt_succ_self n), Option.getD_none, hbefore] at hstep
    rw [ticksFrom_succ m hkn, ← Nat.sub_sub]
    exact hstep

theorem count_of_set (hm : m.Sound) {t : Timer} {k n : Nat} {v : UInt8} (hkn : k < n)
    (hv : (m.after k).setting t = some v) (hs : ∀ j, k < j → j < n → (m.after j).setting t = none) :
    ((m.after n).processor.count t).toNat = v.toNat - m.ticksFrom k n := by
  have hstep := count_step (after_sound hm k) t
  rw [hv, Option.getD_some] at hstep
  rw [count_after hm hkn hs, after, hstep, ticksFrom_eq_add m hkn, Nat.sub_sub]

/-- A cycle that succeeds looks at the clock, and resets it on a tick. -/
theorem clock_of_success (hm : m.Sound) (hs : m.succeeds) :
    (endState (cycle m)).clock =
      if m.ticks then Clock.reset (Clock.elapsed m.clock).2 else (Clock.elapsed m.clock).2 := by
  have hticks : m.ticks = true ↔ Timescale.period < (Clock.elapsed m.clock).1 :=
    ticks_iff.trans (and_iff_right hs)
  obtain ⟨m', hc⟩ := hs
  obtain ⟨i, -, -, rfl⟩ := cycle_of_ok hm.depth hc
  rw [hc]
  show (m.effect i).timed.clock = _
  simp only [timed_clock, effect_clock, hticks]

theorem clock_of_failure (hm : m.Sound) (hs : ¬ m.succeeds) : (endState (cycle m)).clock = m.clock := by
  cases hc : cycle m with
  | ok u m' => exact absurd ⟨m', hc⟩ hs
  | error e m' => exact (cycle_spared hm.depth hc).clock_eq

end Ticks

section Pace
variable [AddCommMonoid τ] [LinearOrder τ] [IsOrderedCancelAddMonoid τ] [Timescale τ] [Clock γ τ]
  [Randomizer ρ] [Keyboard κ] {now since : γ → τ} {m : Machine ρ κ γ}

/-- A clock that was reset at the time `begun`, or that has seen `ticks` periods go by since then. -/
structure Paced (now since : γ → τ) (begun : τ) (ticks : Nat) (c : γ) : Prop where
  since_le_now : since c ≤ now c
  begun_le : begun + ticks • Timescale.period ≤ since c
  begun_lt : 0 < ticks → begun + ticks • Timescale.period < since c

/-- A tick needs more than a period since the clock was reset, and resets it. -/
theorem paced_step (hk : Clock.KeepsTime now since) (hm : m.Sound) {begun : τ} {ticks : Nat}
    (hp : Paced now since begun ticks m.clock) :
    Paced now since begun (ticks + m.ticks.toNat) (endState (cycle m)).clock := by
  -- A look at the clock changes neither when it was reset nor what has gone by since.
  have hlooked : Paced now since begun ticks (Clock.elapsed m.clock).2 := by
    constructor <;> rw [hk.since_elapsed]
    · exact hp.since_le_now.trans (hk.now_le_elapsed m.clock)
    · exact hp.begun_le
    · exact hp.begun_lt
  cases ht : m.ticks with
  | true =>
    obtain ⟨hs, hlate⟩ := ticks_iff.1 ht
    have hc := clock_of_success hm hs
    rw [ht, if_pos rfl] at hc
    have hlt : begun + (ticks + 1) • Timescale.period <
        since (Clock.reset (Clock.elapsed m.clock).2) :=
      calc begun + (ticks + 1) • Timescale.period
          = begun + ticks • Timescale.period + Timescale.period := by rw [succ_nsmul, add_assoc]
        _ < since m.clock + (Clock.elapsed m.clock).1 := add_lt_add_of_le_of_lt hp.begun_le hlate
        _ = now (Clock.elapsed m.clock).2 := hk.add_elapsed m.clock
        _ ≤ now (Clock.reset (Clock.elapsed m.clock).2) := hk.now_le_reset _
        _ = since (Clock.reset (Clock.elapsed m.clock).2) := (hk.since_reset _).symm
    rw [hc]
    exact ⟨(hk.since_reset _).le, hlt.le, fun _ => hlt⟩
  | false =>
    by_cases hs : m.succeeds
    · rw [clock_of_success hm hs, ht]
      exact hlooked
    · rw [clock_of_failure hm hs]
      exact hp

theorem paced_after (hk : Clock.KeepsTime now since) (hm : m.Sound)
    (h0 : since m.clock = now m.clock) (n : Nat) :
    Paced now since (now m.clock) (m.ticksFrom 0 n) (m.after n).clock := by
  induction n with
  | zero =>
    rw [ticksFrom_self]
    refine ⟨h0.le, ?_, fun h => absurd h (Nat.lt_irrefl 0)⟩
    rw [zero_nsmul, add_zero]
    exact h0.ge
  | succ n ih =>
    rw [ticksFrom_succ m (Nat.zero_le n)]
    exact paced_step hk (after_sound hm n) ih

/-- What holds of the timers after `n` cycles of a program, and of the cycle that follows. -/
structure TimersKept (start : Machine ρ κ γ) (n : Nat) : Prop where
  /-- A timer that was not set is at zero. -/
  unset : ∀ t, (∀ j < n, (start.after j).setting t = none) → (start.after n).processor.count t = 0
  /-- A timer holds what it was set to last, less the ticks from the cycle on that set it. -/
  set : ∀ t v, ∀ k < n, (start.after k).setting t = some v →
    (∀ j, k < j → j < n → (start.after j).setting t = none) →
    ((start.after n).processor.count t).toNat = v.toNat - start.ticksFrom k n
  /-- A tick counts both timers down by one, and no other cycle does. -/
  step : ∀ t, ((start.after (n + 1)).processor.count t).toNat =
    (((start.after n).setting t).getD ((start.after n).processor.count t)).toNat -
      (start.after n).ticks.toNat
  ticks_iff : (start.after n).ticks = true ↔
    (start.after n).succeeds ∧ Timescale.period < (Clock.elapsed (start.after n).clock).1
  /-- Only a tick resets the clock; every other cycle that succeeds has looked at it. -/
  clock_of_success : (start.after n).succeeds → (start.after (n + 1)).clock =
    if (start.after n).ticks then Clock.reset (Clock.elapsed (start.after n).clock).2
    else (Clock.elapsed (start.after n).clock).2
  clock_of_failure : ¬ (start.after n).succeeds →
    (start.after (n + 1)).clock = (start.after n).clock
  clock_of_load : ∀ rom m', load rom (start.after n) = .ok () m' →
    m'.clock = Clock.reset (start.after n).clock
  clock_of_refused : ∀ rom e m', load rom (start.after n) = .error e m' →
    m'.clock = (start.after n).clock
  /-- On a clock that keeps time, so many ticks have taken more than so many periods. -/
  pace : ∀ now since : γ → τ, Clock.KeepsTime now since → 0 < start.ticksFrom 0 n →
    now start.clock + start.ticksFrom 0 n • Timescale.period < now (start.after n).clock

/-- From a successful load on, which resets the clock, the timers hold what they were set to less the ticks
since then, and they never run fast. -/
theorem timers_kept {m start : Machine ρ κ γ} {rom : List UInt8} (h : load rom m = .ok () start)
    (n : Nat) : start.clock = Clock.reset m.clock ∧ start.TimersKept n := by
  have hm : start.Sound := load_sound h
  have hn := after_sound hm n
  have hclock : start.clock = Clock.reset m.clock := by
    rw [eq_loaded_of_load h]
    rfl
  have hzero (t : Timer) : start.processor.count t = 0 := by
    rw [eq_loaded_of_load h]
    cases t <;> rfl
  refine ⟨hclock, ?_⟩
  exact
    { unset := by
        intro t hs
        have hc := count_after hm (Nat.zero_le n) fun j _ => hs j
        rw [after, hzero t] at hc
        exact UInt8.toNat_inj.1 (hc.trans (Nat.zero_sub _))
      set := fun t v k hk hv hs => count_of_set hm hk hv hs
      step := count_step hn
      ticks_iff := ticks_iff
      clock_of_success := clock_of_success hn
      clock_of_failure := clock_of_failure hn
      clock_of_load := by
        intro rom m' hl
        rw [eq_loaded_of_load hl]
        rfl
      clock_of_refused := fun rom e m' hl => (load_spared hl).clock_eq
      pace := by
        intro now since hk hpos
        have hs : since start.clock = now start.clock := by rw [hclock, hk.since_reset]
        have hp := paced_after hk hm hs n
        exact (hp.begun_lt hpos).trans_le hp.since_le_now }

end Pace

/-- A program that sets the delay timer to 3 and then idles, a hundredth of a second for each cycle. -/
theorem idle_timers_kept :
    let m : Machine ByteCycle KeyQueue SteadyClock := { randomizer := {}, keyboard := {}, clock := {} }
    let rom := [0x60, 0x03, 0xF0, 0x15, 0x12, 0x04]
    ∃ start, load rom m = .ok () start ∧ start.TimersKept 5 ∧
      Clock.KeepsTime SteadyClock.now SteadyClock.since ∧
      (start.after 1).setting .delay = some 3 ∧ start.ticksFrom 0 5 = 2 ∧
      (start.after 5).processor.count .delay = 1 := by
  intro m rom
  have hl : load rom m = .ok () (m.loaded rom) := load_of_fits (by decide) m
  exact ⟨m.loaded rom, hl, (timers_kept hl 5).2, SteadyClock.keepsTime, by decide +kernel⟩

end Machine

end ChipEight
