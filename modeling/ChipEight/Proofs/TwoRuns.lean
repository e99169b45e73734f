import ChipEight.Proofs.Timers

/-! Two machines side by side. As long as they look alike, up to timers that no instruction reads, and are
told the same by their peripherals, nothing that they do can tell them apart. -/
namespace ChipEight

namespace Processor

variable {hidden : Timer → Prop} {p q : Processor}

/-- Processors that differ at most in the timers that are `hidden`. -/
structure Alike (hidden : Timer → Prop) (p q : Processor) : Prop where
  v : p.v = q.v
  i : p.i = q.i
  pc : p.pc = q.pc
  stack : p.stack = q.stack
  memory : p.memory = q.memory
  count : ∀ t, ¬ hidden t → p.count t = q.count t

def withTimers (p : Processor) (delay sound : UInt8) : Processor := { p with delay, sound }

theorem Alike.refl (p : Processor) : p.Alike hidden p := ⟨rfl, rfl, rfl, rfl, rfl, fun _ _ => rfl⟩

theorem Alike.exists_withTimers (h : p.Alike hidden q) :
    ∃ delay sound, q = p.withTimers delay sound := by
  obtain ⟨v, i, pc, delay, sound, stack, memory⟩ := q
  obtain ⟨rfl, rfl, rfl, rfl, rfl, -⟩ := h
  exact ⟨delay, sound, rfl⟩

/-- With no timer hidden, processors are alike only if they are equal. -/
theorem Alike.eq (h : p.Alike (fun _ => False) q) : p = q := by
  have hdelay : p.delay = q.delay := h.count .delay id
  have hsound : p.sound = q.sound := h.count .sound id
  obtain ⟨delay, sound, rfl⟩ := h.exists_withTimers
  obtain ⟨v, i, pc, _, _, stack, memory⟩ := p
  cases hdelay
  cases hsound
  rfl

/-- A change that has nothing to do with the timers. -/
theorem Alike.map {f : Processor → Processor} (h : p.Alike hidden q)
    (hf : ∀ p delay sound, f (withTimers p delay sound) = (f p).withTimers delay sound) :
    (f p).Alike hidden (f q) := by
  -- The change meets any two counts, those that are there already among them.
  have hcount (p : Processor) (t : Timer) : (f p).count t = p.count t := by
    have hsame := hf p p.delay p.sound
    have hp : p.withTimers p.delay p.sound = p := rfl
    rw [hp] at hsame
    rw [hsame]
    cases t <;> rfl
  have hvisible (t : Timer) (ht : ¬ hidden t) : (f p).count t = (f q).count t := by
    rw [hcount, hcount, h.count t ht]
  obtain ⟨delay, sound, rfl⟩ := h.exists_withTimers
  rw [hf] at hvisible ⊢
  exact ⟨rfl, rfl, rfl, rfl, rfl, hvisible⟩

theorem Alike.advance (h : p.Alike hidden q) : p.advance.Alike hidden q.advance :=
  h.map fun _ _ _ => rfl

theorem Alike.assign (h : p.Alike hidden q) (x : Nat) {b c : UInt8} (hbc : b = c) :
    (p.assign x b).Alike hidden (q.assign x c) := by
  cases hbc
  exact h.map (f := (·.assign x b)) fun _ _ _ => rfl

theorem Alike.skip (h : p.Alike hidden q) {b c : Bool} (hbc : b = c) :
    (p.skip b).Alike hidden (q.skip c) := by
  cases hbc
  exact h.map (f := (·.skip b)) fun _ _ _ => rfl

theorem assignFrom_withTimers (bytes : List UInt8) (x : Nat) (p : Processor) (delay sound : UInt8) :
    (p.withTimers delay sound).assignFrom x bytes = (p.assignFrom x bytes).withTimers delay sound := by
  induction bytes generalizing x p with
  | nil => rfl
  | cons b rest ih => exact ih (x + 1) (p.assign x b)

theorem Alike.effect (h : p.Alike hidden q) {i : Instruction}
    (hi : ∀ x, i = .readDelay x → ¬ hidden .delay) : (p.effect i).Alike hidden (q.effect i) := by
  have hcount (t : Timer) (ht : ¬ hidden t) : (p.effect i).count t = (q.effect i).count t := by
    have hvalue (x : Nat) : p.value x = q.value x := by rw [value, value, h.v]
    rw [effect_count, effect_count, h.count t ht, funext hvalue]
  cases i with
  | readDelay x => exact (h.assign x (h.count .delay (hi x rfl))).advance
  | loadRegisters x =>
    have hbytes : q.memory.bytesAt q.i.toNat (x + 1) = p.memory.bytesAt p.i.toNat (x + 1) := by
      rw [h.memory, h.i]
    show (p.assignFrom 0 _).advance.Alike hidden (q.assignFrom 0 _).advance
    rw [hbytes]
    generalize p.memory.bytesAt p.i.toNat (x + 1) = bytes
    exact (h.map (f := (·.assignFrom 0 bytes)) (assignFrom_withTimers bytes 0)).advance
  | _ =>
    obtain ⟨delay, sound, rfl⟩ := h.exists_withTimers
    exact ⟨rfl, rfl, rfl, rfl, rfl, hcount⟩

theorem Alike.refusal (h : p.Alike hidden q) (i : Instruction) : p.refusal i = q.refusal i := by
  obtain ⟨delay, sound, rfl⟩ := h.exists_withTimers
  cases i <;> rfl

theorem Alike.ticked (h : p.Alike hidden q) : p.ticked.Alike hidden q.ticked :=
  ⟨h.v, h.i, h.pc, h.stack, h.memory, fun t ht => by rw [ticked_count, ticked_count, h.count t ht]⟩

end Processor

/-- A pop below which there is no slot. -/
theorem CallStack.pop_overfull {stack : CallStack} (pc : UInt16) (h : stackDepth < stack.depth.toNat) :
    stack.pop pc = .error (.defect (.noSuchSlot (stack.depth - 1).toNat)) := by
  have h0 : stack.depth ≠ 0 := by
    intro h0
    rw [h0] at h
    cases h
  have hd := toNat_depth_lowered h0
  have hf : fitByte (stack.depth.toNat - 1 : Int) = .ok (stack.depth - 1) :=
    fitByte_eq (by change _ = (stack.lowered.depth.toNat : Int); omega)
  have hn : stack.slots[(stack.depth - 1).toNat]? = none := by
    apply Vector.getElem?_eq_none
    change stackDepth ≤ stack.lowered.depth.toNat
    omega
  unfold pop
  rw [if_neg h0]
  simp only [hf, bind, Except.bind, hn]
  rfl

/-- What a cycle is told by the peripherals; nothing where it does not ask. -/
structure Answers (τ : Type) where
  byte : Option UInt8
  down : Option Bool
  pressed : Option (Option UInt8)
  elapsed : Option τ
  deriving DecidableEq

namespace Answers

variable {τ : Type}

/-- Where both ask for a byte or a key, they are told the same. -/
structure Agree (a b : Answers τ) : Prop where
  byte : ∀ x ∈ a.byte, ∀ y ∈ b.byte, x = y
  down : ∀ x ∈ a.down, ∀ y ∈ b.down, x = y
  pressed : ∀ x ∈ a.pressed, ∀ y ∈ b.pressed, x = y

/-- Where both ask for the time, they are told the same. -/
def AgreeOnTime (a b : Answers τ) : Prop := ∀ x ∈ a.elapsed, ∀ y ∈ b.elapsed, x = y

theorem Agree.of_eq {a b : Answers τ} (hbyte : a.byte = b.byte) (hdown : a.down = b.down)
    (hpressed : a.pressed = b.pressed) : a.Agree b where
  byte _ hx _ hy := Option.mem_unique (hbyte ▸ hx) hy
  down _ hx _ hy := Option.mem_unique (hdown ▸ hx) hy
  pressed _ hx _ hy := Option.mem_unique (hpressed ▸ hx) hy

end Answers

/-- What is asked of a machine while it runs. -/
inductive Request
  | cycle
  | takeFrame

inductive Response
  | finished (outcome : Except Halt Unit)
  | frame (picture : Option Frame)

namespace Machine

variable {ρ κ γ ρ' κ' γ' τ : Type} {hidden : Timer → Prop}

/-- Machines, on peripherals of any kind, that differ at most in the timers that are `hidden`. -/
structure Alike (hidden : Timer → Prop) (a : Machine ρ κ γ) (b : Machine ρ' κ' γ') : Prop where
  processor : a.processor.Alike hidden b.processor
  screen : a.screen = b.screen

/-- What a call reports, without the machine that it leaves. -/
def outcome : EStateM.Result Halt (Machine ρ κ γ) Unit → Except Halt Unit
  | .ok () _ => .ok ()
  | .error e _ => .error e

/-- Whether the next instruction reads the delay timer. -/
def readsDelay (m : Machine ρ κ γ) : Bool :=
  match m.pending with
  | .ok (.readDelay _) => true
  | _ => false

theorem readsDelay_of_pending {m : Machine ρ κ γ} {x : Nat} (h : m.pending = .ok (.readDelay x)) :
    m.readsDelay = true := by
  rw [readsDelay, h]

variable {a : Machine ρ κ γ} {b : Machine ρ' κ' γ'}

theorem Alike.takeFrame (h : a.Alike hidden b) :
    a.takeFrame.1 = b.takeFrame.1 ∧ a.takeFrame.2.Alike hidden b.takeFrame.2 := by
  rw [Machine.takeFrame, Machine.takeFrame, h.screen]
  exact ⟨rfl, h.processor, rfl⟩

theorem Alike.pending (h : a.Alike hidden b) : a.pending = b.pending := by
  unfold Machine.pending opcode
  rw [h.processor.pc, h.processor.memory]

theorem Alike.value (h : a.Alike hidden b) (x : Nat) : a.processor.value x = b.processor.value x := by
  rw [Processor.value, Processor.value, h.processor.v]

section
variable [Keyboard κ] [Keyboard κ']

theorem Alike.refusal (h : a.Alike hidden b) {i : Instruction}
    (hk : ∀ x, i = .awaitKey x →
      (Keyboard.awaitPress a.keyboard).1 = (Keyboard.awaitPress b.keyboard).1) :
    a.refusal i = b.refusal i := by
  have hp := h.processor.refusal i
  cases i with
  | awaitKey x => rw [Machine.refusal, Machine.refusal, hk x rfl]
  | _ => exact hp

theorem Alike.refused (h : a.Alike hidden b) (i : Instruction) :
    (a.refused i).Alike hidden (b.refused i) := by
  cases i with
  | awaitKey x => exact ⟨h.processor, h.screen⟩
  | _ => exact h

end

section
variable [Keyboard κ] [Keyboard κ'] {m : Machine ρ κ γ} {i : Instruction}

/-- What stops an instruction, also where the stack is out of order: a return that finds more addresses than
slots has no slot to look at. -/
def halt (m : Machine ρ κ γ) (i : Instruction) : Option Halt :=
  if i = .ret ∧ stackDepth < m.processor.stack.depth.toNat then
    some (.defect (.noSuchSlot (m.processor.stack.depth - 1).toNat))
  else (m.refusal i).map .fault

theorem Alike.halt (h : a.Alike hidden b) {i : Instruction}
    (hk : ∀ x, i = .awaitKey x →
      (Keyboard.awaitPress a.keyboard).1 = (Keyboard.awaitPress b.keyboard).1) :
    a.halt i = b.halt i := by
  rw [Machine.halt, Machine.halt, h.refusal hk, h.processor.stack]

theorem execute_overfull [Randomizer ρ] (hd : stackDepth < m.processor.stack.depth.toNat) :
    execute .ret m = .error (.defect (.noSuchSlot (m.processor.stack.depth - 1).toNat)) m := by
  have hr : Processor.ret m.processor =
      .error (.defect (.noSuchSlot (m.processor.stack.depth - 1).toNat)) m.processor := by
    rw [Processor.ret, bind_apply, Processor.pop, bind_ok (get_apply m.processor),
      CallStack.pop_overfull _ hd]
    rfl
  rw [execute, onProcessor, hr]

theorem execute_eq_halt [Randomizer ρ] (hi : i.InRange) :
    execute i m = (m.halt i).elim (.ok () (m.effect i)) fun e => .error e (m.refused i) := by
  unfold Machine.halt
  by_cases hover : i = .ret ∧ stackDepth < m.processor.stack.depth.toNat
  · rw [if_pos hover]
    obtain ⟨rfl, hd⟩ := hover
    exact execute_overfull hd
  · rw [if_neg hover, execute_apply hi fun hret => Nat.not_lt.1 fun hlt => hover ⟨hret, hlt⟩]
    cases m.refusal i <;> rfl

end

section
variable [LE τ] [Timescale τ] [Clock γ τ] [Clock γ' τ]

/-- A tick shows in the timers alone. -/
theorem Alike.timed (h : a.Alike hidden b)
    (ht : ∀ t, ¬ hidden t → (Clock.elapsed a.clock).1 = (Clock.elapsed b.clock).1) :
    a.timed.Alike hidden b.timed := by
  refine ⟨?_, by rw [timed_screen, timed_screen, h.screen]⟩
  have hp := h.processor
  rw [timed_processor, timed_processor]
  -- With both timers hidden one machine may tick alone; with one in sight the readings are the same.
  by_cases hall : ∀ t, hidden t
  · have hcount {p q : Processor} (t : Timer) (ht : ¬ hidden t) : p.count t = q.count t :=
      absurd (hall t) ht
    split <;> split <;> exact ⟨hp.v, hp.i, hp.pc, hp.stack, hp.memory, hcount⟩
  · obtain ⟨t, hvisible⟩ := not_forall.1 hall
    rw [ht t hvisible]
    split
    · exact hp
    · exact hp.ticked

variable [Randomizer ρ] [Keyboard κ]

theorem cycle_eq_error {m : Machine ρ κ γ} {f : Fault} (hp : m.pending = .error f) :
    Machine.cycle m = .error (.fault f) m := by
  rw [Machine.cycle, bind_apply, fetch_apply, hp]

theorem cycle_eq_halt {m : Machine ρ κ γ} {i : Instruction} (hp : m.pending = .ok i) :
    Machine.cycle m =
      (m.halt i).elim (.ok () (m.effect i).timed) fun e => .error e (m.refused i) := by
  have he := execute_eq_halt (m := m) (Instruction.readFrom_of_decode (decode_of_pending hp)).inRange
  rw [Machine.cycle, bind_apply, fetch_apply, hp]
  show (execute i >>= fun _ => _) m = _
  rw [bind_apply, he]
  cases m.halt i with
  | some e => rfl
  | none => exact bind_ok (tickTimers_apply (m.effect i))

def answers (m : Machine ρ κ γ) : Answers τ where
  byte := match m.pending with
    | .ok (.random ..) => some (Randomizer.nextByte m.randomizer).1
    | _ => none
  down := match m.pending with
    | .ok (.skipKeyDown x) | .ok (.skipKeyUp x) =>
      some (Keyboard.isDown m.keyboard (m.processor.value x)).1
    | _ => none
  pressed := match m.pending with
    | .ok (.awaitKey _) => some (Keyboard.awaitPress m.keyboard).1
    | _ => none
  elapsed := match cycle m with
    | .ok .. => some (Clock.elapsed m.clock).1
    | .error .. => none

variable [Randomizer ρ'] [Keyboard κ']

theorem pressed_eq (h : a.Alike hidden b) (hx : a.answers.Agree b.answers) {x : Nat}
    (hp : a.pending = .ok (.awaitKey x)) :
    (Keyboard.awaitPress a.keyboard).1 = (Keyboard.awaitPress b.keyboard).1 :=
  hx.pressed _ (by simp [answers, hp]) _ (by simp [answers, ← h.pending, hp])

/-- An instruction has the same effect on machines that look alike, if what it reads is not hidden and
what it asks has the same answer. -/
theorem Alike.effect (h : a.Alike hidden b) {i : Instruction} (hp : a.pending = .ok i)
    (hx : a.answers.Agree b.answers) (hr : ∀ x, i = .readDelay x → ¬ hidden .delay) :
    (a.effect i).Alike hidden (b.effect i) := by
  have hp' : b.pending = .ok i := h.pending ▸ hp
  have hv := h.processor
  cases i with
  | clear => exact ⟨hv.advance, rfl⟩
  | random x kk =>
    have hbyte : (Randomizer.nextByte a.randomizer).1 = (Randomizer.nextByte b.randomizer).1 :=
      hx.byte _ (by simp [answers, hp]) _ (by simp [answers, hp'])
    exact ⟨(hv.assign x (congrArg (· &&& kk) hbyte)).advance, h.screen⟩
  | draw x y n =>
    have hdrawn : a.screen.draw (a.processor.value x) (a.processor.value y)
          (a.processor.memory.bytesAt a.processor.i.toNat n.toNat) =
        b.screen.draw (b.processor.value x) (b.processor.value y)
          (b.processor.memory.bytesAt b.processor.i.toNat n.toNat) := by
      rw [h.value x, h.value y, h.screen, hv.memory, hv.i]
    exact ⟨(hv.assign flagRegister (congrArg Prod.fst hdrawn)).advance, congrArg Prod.snd hdrawn⟩
  | skipKeyDown x =>
    have hdown : (Keyboard.isDown a.keyboard (a.processor.value x)).1 =
        (Keyboard.isDown b.keyboard (b.processor.value x)).1 :=
      hx.down _ (by simp [answers, hp]) _ (by simp [answers, hp'])
    exact ⟨hv.skip hdown, h.screen⟩
  | skipKeyUp x =>
    have hdown : (Keyboard.isDown a.keyboard (a.processor.value x)).1 =
        (Keyboard.isDown b.keyboard (b.processor.value x)).1 :=
      hx.down _ (by simp [answers, hp]) _ (by simp [answers, hp'])
    exact ⟨hv.skip (congrArg (!·) hdown), h.screen⟩
  | awaitKey x =>
    have hpressed := pressed_eq h hx hp
    exact ⟨(hv.assign x (congrArg (Option.getD · 0) hpressed)).advance, h.screen⟩
  | _ => exact ⟨hv.effect hr, h.screen⟩

/-- A cycle reports the same on machines that look alike, and they look alike afterwards. -/
theorem Alike.cycle (h : a.Alike hidden b) (hx : a.answers.Agree b.answers)
    (ht : ∀ t, ¬ hidden t → a.answers.AgreeOnTime b.answers)
    (hr : a.readsDelay = true → ¬ hidden .delay) :
    outcome (cycle a) = outcome (cycle b) ∧ (endState (cycle a)).Alike hidden (endState (cycle b)) := by
  cases hp : a.pending with
  | error f =>
    rw [cycle_eq_error hp, cycle_eq_error (h.pending ▸ hp)]
    exact ⟨rfl, h⟩
  | ok i =>
    have hca := cycle_eq_halt hp
    have hcb := cycle_eq_halt (h.pending ▸ hp)
    have hhalt : a.halt i = b.halt i := by
      apply h.halt
      intro x hi
      exact pressed_eq h hx (hi ▸ hp)
    rw [← hhalt] at hcb
    cases he : a.halt i with
    | some e =>
      rw [hca, hcb, he]
      exact ⟨rfl, h.refused i⟩
    | none =>
      rw [he] at hca hcb
      have hread (t : Timer) (hv : ¬ hidden t) :
          (Clock.elapsed (a.effect i).clock).1 = (Clock.elapsed (b.effect i).clock).1 := by
        rw [effect_clock, effect_clock]
        exact ht t hv _ (by simp [answers, hca]) _ (by simp [answers, hcb])
      rw [hca, hcb]
      have heffect := h.effect hp hx fun x hi => hr (readsDelay_of_pending (hi ▸ hp))
      exact ⟨rfl, heffect.timed hread⟩

end

section
variable [LE τ] [Timescale τ] [Clock γ τ] [Randomizer ρ] [Keyboard κ]

def ask (m : Machine ρ κ γ) : Request → Response × Machine ρ κ γ
  | .cycle => (.finished (outcome (cycle m)), endState (cycle m))
  | .takeFrame => (.frame m.takeFrame.1, m.takeFrame.2)

/-- The responses to requests made one after the other. -/
def responses (m : Machine ρ κ γ) : List Request → List Response
  | [] => []
  | request :: rest => (m.ask request).1 :: (m.ask request).2.responses rest

/-- The machine that requests leave behind, whether they succeed or not. -/
def afterAll (m : Machine ρ κ γ) : List Request → Machine ρ κ γ
  | [] => m
  | request :: rest => (m.ask request).2.afterAll rest

/-- The machines that the cycles among some requests start from. -/
def starts (m : Machine ρ κ γ) : List Request → List (Machine ρ κ γ)
  | [] => []
  | .cycle :: rest => m :: (m.ask .cycle).2.starts rest
  | .takeFrame :: rest => (m.ask .takeFrame).2.starts rest

/-- What the peripherals tell in the cycles among some requests. -/
def told (m : Machine ρ κ γ) (requests : List Request) : List (Answers τ) :=
  (m.starts requests).map answers

end

section
variable [LE τ] [Timescale τ] [Clock γ τ] [Clock γ' τ] [Randomizer ρ] [Keyboard κ] [Randomizer ρ']
  [Keyboard κ']

/-- Machines that look alike, and are told the same, respond the same. -/
theorem Alike.afterAll (h : a.Alike hidden b) {requests : List Request}
    (hx : List.Forall₂ Answers.Agree (a.told requests) (b.told requests))
    (ht : ∀ t, ¬ hidden t → List.Forall₂ Answers.AgreeOnTime (a.told requests) (b.told requests))
    (hr : ∀ c ∈ a.starts requests, c.readsDelay = true → ¬ hidden .delay) :
    a.responses requests = b.responses requests ∧
      (a.afterAll requests).Alike hidden (b.afterAll requests) := by
  induction requests generalizing a b with
  | nil => exact ⟨rfl, h⟩
  | cons request rest ih =>
    cases request with
    | cycle =>
      obtain ⟨hnow, hlater⟩ := List.forall₂_cons.1 hx
      obtain ⟨hout, hend⟩ := h.cycle hnow (fun t hv => (List.forall₂_cons.1 (ht t hv)).1)
        (hr a List.mem_cons_self)
      obtain ⟨hresponses, hlast⟩ := ih hend hlater (fun t hv => (List.forall₂_cons.1 (ht t hv)).2)
        fun c hc => hr c (List.mem_cons_of_mem a hc)
      exact ⟨congrArg₂ List.cons (congrArg Response.finished hout) hresponses, hlast⟩
    | takeFrame =>
      obtain ⟨hframe, hend⟩ := h.takeFrame
      obtain ⟨hresponses, hlast⟩ := ih hend hx ht hr
      exact ⟨congrArg₂ List.cons (congrArg Response.frame hframe) hresponses, hlast⟩

end
end Machine

end ChipEight
