import ChipEight.Proofs.Soundness

/-! Subroutines over a whole run: the addresses on the stack are those of the calls that have not been
matched by a return yet. -/
namespace ChipEight

/-- What a cycle does to the subroutines under way. -/
inductive Passage
  /-- A call at the address `site` succeeds. -/
  | called (site : UInt16)
  | returned
  /-- Neither; calls and returns that fail are among these cycles. -/
  | stayed
  deriving DecidableEq, Repr

namespace Passage

def isCall : Passage → Bool
  | .called _ => true
  | _ => false

/-- The calls that no return has matched yet, in their order. -/
def openCalls (passages : List Passage) : List UInt16 :=
  passages.foldl (fun sites passage =>
    match passage with
    | .called site => sites ++ [site]
    | .returned => sites.dropLast
    | .stayed => sites) []

/-- Passages in which each call has its return, and each return its call. -/
inductive Balanced : List Passage → Prop
  | nil : Balanced []
  | stay {passages : List Passage} (h : Balanced passages) : Balanced (passages ++ [.stayed])
  | pair {before inner : List Passage} (site : UInt16) (hb : Balanced before) (hi : Balanced inner) :
    Balanced (before ++ .called site :: inner ++ [.returned])

variable {passages : List Passage} {sites : List UInt16} {site : UInt16}

@[simp] theorem openCalls_called :
    openCalls (passages ++ [.called site]) = openCalls passages ++ [site] := by
  rw [openCalls, List.foldl_append]
  rfl

@[simp] theorem openCalls_returned :
    openCalls (passages ++ [.returned]) = (openCalls passages).dropLast := by
  rw [openCalls, List.foldl_append]
  rfl

@[simp] theorem openCalls_stayed : openCalls (passages ++ [.stayed]) = openCalls passages := by
  rw [openCalls, List.foldl_append]
  rfl

theorem exists_concat_of_dropLast {l : List UInt16} (h : l.dropLast = sites ++ [site]) :
    ∃ last, l = sites ++ [site] ++ [last] := by
  have hne : l ≠ [] := by
    rintro rfl
    simp at h
  exact ⟨l.getLast hne, by rw [← h, List.dropLast_concat_getLast]⟩

/-- Since the last open call, calls and returns are balanced. -/
theorem exists_last_open (h : openCalls passages = sites ++ [site]) :
    ∃ before inner, passages = before ++ .called site :: inner ∧ Balanced inner ∧
      openCalls before = sites := by
  -- A return takes two steps back: to the call that it matches, and to the open call before that.
  induction hn : passages.length using Nat.strongRecOn generalizing passages sites site with
  | ind n ih =>
    rcases List.eq_nil_or_concat passages with rfl | ⟨rest, passage, rfl⟩
    · simp [openCalls] at h
    · rw [List.concat_eq_append] at h hn ⊢
      have hrest : rest.length < n := by
        rw [← hn, List.length_append]
        exact Nat.lt_succ_self _
      cases passage with
      | called newest =>
        rw [openCalls_called] at h
        obtain ⟨hsites, hsite⟩ := List.append_inj' h rfl
        cases hsite
        exact ⟨rest, [], rfl, .nil, hsites⟩
      | stayed =>
        rw [openCalls_stayed] at h
        obtain ⟨before, inner, rfl, hi, hb⟩ := ih _ hrest h rfl
        exact ⟨before, inner ++ [.stayed], by simp, hi.stay, hb⟩
      | returned =>
        rw [openCalls_returned] at h
        obtain ⟨matched, hm⟩ := exists_concat_of_dropLast h
        obtain ⟨between, inner, rfl, hi, hb⟩ := ih _ hrest hm rfl
        have hbetween : between.length < n := by
          rw [List.length_append] at hrest
          omega
        obtain ⟨before, earlier, rfl, he, hbefore⟩ := ih _ hbetween hb rfl
        exact ⟨before, earlier ++ .called matched :: inner ++ [.returned], by simp, he.pair matched hi,
          hbefore⟩

end Passage

namespace Processor

variable {p : Processor}

/-- Only calls and returns change the stack. -/
theorem effect_stack {i : Instruction} (hc : ∀ addr, i ≠ .call addr) (hr : i ≠ .ret) :
    (p.effect i).stack = p.stack := by
  cases i with
  | ret => exact absurd rfl hr
  | call addr => exact absurd rfl (hc addr)
  | loadRegisters x => exact assignFrom_stack _ _ _
  | _ => rfl

end Processor

namespace Machine

variable {ρ κ γ τ : Type}

/-- The ways for a cycle to pass. -/
inductive Passes (m m' : Machine ρ κ γ) : Passage → Prop
  | called (hd : m.processor.stack.depth.toNat < stackDepth)
    (hs : m'.processor.stack = m.processor.stack.raised m.processor.pc) :
    Passes m m' (.called m.processor.pc)
  | returned (hd : m.processor.stack.depth ≠ 0)
    (hs : m'.processor.stack = m.processor.stack.lowered)
    (hpc : m'.processor.pc = m.processor.stack.top + 2) : Passes m m' .returned
  | stayed (hs : m'.processor.stack = m.processor.stack) : Passes m m' .stayed

theorem Passes.slots_eq {m m' : Machine ρ κ γ} {passage : Passage} (h : m.Passes m' passage)
    (hc : ∀ site, passage ≠ .called site) :
    m'.processor.stack.slots = m.processor.stack.slots := by
  cases h with
  | called => exact absurd rfl (hc _)
  | returned _ hs =>
    rw [hs]
    rfl
  | stayed hs => rw [hs]

section
variable [Randomizer ρ] [Keyboard κ] {m : Machine ρ κ γ}

theorem effect_stack {i : Instruction} (hc : ∀ addr, i ≠ .call addr) (hr : i ≠ .ret) :
    (m.effect i).processor.stack = m.processor.stack := by
  cases i with
  | clear | random | draw | skipKeyDown | skipKeyUp | awaitKey => rfl
  | _ => exact Processor.effect_stack hc hr

end

section
variable [LE τ] [Timescale τ] [Clock γ τ]

theorem timed_stack (m : Machine ρ κ γ) :
    m.timed.processor.stack = m.processor.stack ∧ m.timed.processor.pc = m.processor.pc := by
  obtain ⟨clock, h⟩ | ⟨clock, h⟩ := timed_cases m
  · rw [h]
    exact ⟨rfl, rfl⟩
  · rw [h]
    exact ⟨rfl, rfl⟩

variable [Randomizer ρ] [Keyboard κ] {m : Machine ρ κ γ}

/-- The machine after `n` cycles, of which some may have failed. -/
def after (m : Machine ρ κ γ) : Nat → Machine ρ κ γ
  | 0 => m
  | n + 1 => endState (cycle (m.after n))

/-- What the next cycle does to the subroutines. -/
def passage (m : Machine ρ κ γ) : Passage :=
  match cycle m, m.pending with
  | .ok .., .ok (.call _) => .called m.processor.pc
  | .ok .., .ok .ret => .returned
  | _, _ => .stayed

/-- What the first `n` cycles do to the subroutines. -/
def passages (m : Machine ρ κ γ) : Nat → List Passage
  | 0 => []
  | n + 1 => m.passages n ++ [(m.after n).passage]

theorem passes (hm : m.Sound) : m.Passes (endState (cycle m)) m.passage := by
  unfold passage
  cases hc : cycle m with
  | error e m' =>
    have hsame := (cycle_spared hm.depth hc).processor_eq
    exact .stayed (congrArg Processor.stack hsame)
  | ok u m' =>
    obtain ⟨i, hp, hr, rfl⟩ := cycle_of_ok hm.depth hc
    obtain ⟨hstack, hpc⟩ := timed_stack (m.effect i)
    rw [hp]
    cases i with
    | call addr => exact .called (CallStack.pushFault_eq_none.1 hr) hstack
    | ret => exact .returned (CallStack.popFault_eq_none.1 hr) hstack hpc
    | _ => exact .stayed (hstack.trans (effect_stack nofun nofun))

theorem after_sound (hm : m.Sound) (n : Nat) : (m.after n).Sound := by
  induction n with
  | zero => exact hm
  | succ n ih => exact (perform_safe ih .cycle).endState

theorem after_passes (hm : m.Sound) (n : Nat) :
    (m.after n).Passes (m.after (n + 1)) (m.after n).passage :=
  passes (after_sound hm n)

/-- The stack holds the open calls. -/
theorem live_after (hm : m.Sound) (h0 : m.processor.stack.live = []) (n : Nat) :
    (m.after n).processor.stack.live = Passage.openCalls (m.passages n) := by
  -- What a cycle does to the stack is what its passage does to the open calls.
  induction n with
  | zero => exact h0
  | succ n ih =>
    have h := after_passes hm n
    rw [passages]
    generalize (m.after n).passage = passage at h ⊢
    cases h with
    | called hd hs => rw [hs, CallStack.live_raised hd, ih, Passage.openCalls_called]
    | returned hd hs =>
      rw [CallStack.live_lowered hd (after_sound hm n).depth] at ih
      rw [hs, Passage.openCalls_returned, ← ih, List.dropLast_concat]
    | stayed hs => rw [hs, ih, Passage.openCalls_stayed]

/-- The depth counts the calls, less the returns. -/
theorem depth_after (hm : m.Sound) (h0 : m.processor.stack.depth = 0) (n : Nat) :
    (m.after n).processor.stack.depth.toNat + (m.passages n).count .returned =
      (m.passages n).countP Passage.isCall := by
  induction n with
  | zero =>
    rw [after, h0]
    rfl
  | succ n ih =>
    have h := after_passes hm n
    rw [passages, List.count_append, List.countP_append]
    generalize (m.after n).passage = passage at h ⊢
    cases h with
    | called hd hs =>
      rw [hs, CallStack.toNat_depth_raised hd]
      show _ + 1 + (_ + 0) = _ + 1
      omega
    | returned hd hs =>
      have hl := CallStack.toNat_depth_lowered hd
      rw [hs]
      show _ + (_ + 1) = _ + 0
      omega
    | stayed hs =>
      rw [hs]
      exact ih

theorem pending_of_called {site : UInt16} (h : m.passage = .called site) :
    ∃ addr, m.pending = .ok (.call addr) ∧ m.processor.pc = site := by
  unfold passage at h
  split at h
  · rename_i addr _ hp
    cases h
    exact ⟨addr, hp, rfl⟩
  · cases h
  · cases h

/-- The address behind a call is never past the end of memory. -/
theorem site_add_le {site : UInt16} {n : Nat} (h : .called site ∈ m.passages n) :
    site.toNat + 2 ≤ memorySize := by
  induction n with
  | zero => cases h
  | succ n ih =>
    rcases List.mem_append.1 h with h | h
    · exact ih h
    · obtain ⟨addr, hp, rfl⟩ := pending_of_called (List.mem_singleton.1 h).symm
      exact pc_add_le_of_pending hp

/-- What holds of the calls and returns of a program after `n` cycles, and of the cycle that follows. -/
structure Disciplined (start : Machine ρ κ γ) (n : Nat) : Prop where
  /-- The slots in use hold the calls that no return has matched, bottom to top. -/
  live_eq : (start.after n).processor.stack.live = Passage.openCalls (start.passages n)
  depth_add : (start.after n).processor.stack.depth.toNat + (start.passages n).count .returned =
    (start.passages n).countP Passage.isCall
  call_fails_iff : ∀ addr, (start.after n).pending = .ok (.call addr) →
    (¬ (start.after n).succeeds ↔ (start.after n).processor.stack.depth.toNat = 16)
  ret_fails_iff : (start.after n).pending = .ok .ret →
    (¬ (start.after n).succeeds ↔ (start.after n).processor.stack.depth.toNat = 0)
  /-- A return goes on behind the call since which calls and returns are balanced, and leaves the stack
  as it was at that call. -/
  resumes : (start.after n).passage = .returned →
    ∃ before site inner, start.passages n = before ++ .called site :: inner ∧ Passage.Balanced inner ∧
      (start.after (n + 1)).processor.pc.toNat = site.toNat + 2 ∧
      (start.after (n + 1)).processor.stack.live = Passage.openCalls before
  /-- Only a call that succeeds changes a slot. -/
  slots_eq : (∀ site, (start.after n).passage ≠ .called site) →
    (start.after (n + 1)).processor.stack.slots = (start.after n).processor.stack.slots

theorem call_fails_iff (hm : m.Sound) {addr : UInt16} (hp : m.pending = .ok (.call addr)) :
    ¬ m.succeeds ↔ m.processor.stack.depth.toNat = 16 := by
  have hd := hm.depth
  have hr : m.succeeds ↔ m.processor.stack.depth.toNat < stackDepth :=
    (succeeds_iff hd hp).trans CallStack.pushFault_eq_none
  rw [hr, Nat.not_lt]
  exact ⟨fun hfull => Nat.le_antisymm hd hfull, fun hfull => Nat.le_of_eq hfull.symm⟩

theorem ret_fails_iff (hm : m.Sound) (hp : m.pending = .ok .ret) :
    ¬ m.succeeds ↔ m.processor.stack.depth.toNat = 0 := by
  have hr : m.succeeds ↔ m.processor.stack.depth ≠ 0 :=
    (succeeds_iff hm.depth hp).trans CallStack.popFault_eq_none
  rw [hr, Decidable.not_not, ← UInt8.toNat_inj]
  rfl

theorem return_resumes (hm : m.Sound) (h0 : m.processor.stack.live = []) {n : Nat}
    (h : (m.after n).passage = .returned) :
    ∃ before site inner, m.passages n = before ++ .called site :: inner ∧ Passage.Balanced inner ∧
      (m.after (n + 1)).processor.pc.toNat = site.toNat + 2 ∧
      (m.after (n + 1)).processor.stack.live = Passage.openCalls before := by
  have hlive := live_after hm h0 n
  have hs := after_passes hm n
  rw [h] at hs
  cases hs with
  | returned hd hs hpc =>
    rw [CallStack.live_lowered hd (after_sound hm n).depth] at hlive
    obtain ⟨before, inner, hsplit, hi, hb⟩ := Passage.exists_last_open hlive.symm
    refine ⟨before, _, inner, hsplit, hi, ?_, ?_⟩
    · -- The sum does not wrap, since the call was fetched from inside the memory.
      have hsite : (m.after n).processor.stack.top.toNat + 2 ≤ memorySize :=
        site_add_le (m := m) (n := n) (by simp [hsplit])
      have h2 : (2 : UInt16).toNat = 2 := rfl
      rw [memorySize] at hsite
      rw [hpc, UInt16.toNat_add, h2]
      omega
    · rw [hs, hb]

/-- From a successful load on, whatever the program and the peripherals do, calls and returns keep their
discipline. -/
theorem calls_disciplined {m start : Machine ρ κ γ} {rom : List UInt8} (h : load rom m = .ok () start)
    (n : Nat) : start.Disciplined n := by
  rw [load_apply] at h
  obtain ⟨-, rfl⟩ := answer_eq_ok h
  have hm := loaded_sound m rom
  exact
    { live_eq := live_after hm rfl n
      depth_add := depth_after hm rfl n
      call_fails_iff := fun addr => call_fails_iff (after_sound hm n)
      ret_fails_iff := ret_fails_iff (after_sound hm n)
      resumes := return_resumes hm rfl
      slots_eq := (after_passes hm n).slots_eq }

/-- A program that calls a subroutine, which returns at once. -/
theorem call_and_return_disciplined :
    let m : Machine ByteCycle KeyQueue CycleClock := { randomizer := {}, keyboard := {}, clock := {} }
    let rom := [0x22, 0x04, 0x12, 0x02, 0x00, 0xEE]
    ∃ start, load rom m = .ok () start ∧ start.passages 2 = [.called 0x200, .returned] ∧
      start.Disciplined 1 := by
  intro m rom
  have hl : load rom m = .ok () (m.loaded rom) := load_of_fits (by decide) m
  exact ⟨_, hl, by decide +kernel, calls_disciplined hl 1⟩

end

end Machine

end ChipEight
