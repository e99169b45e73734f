import ChipEight.Proofs.TwoRuns
import Mathlib.Data.List.Forall2

/-! Loading a program leaves nothing behind of what the machine did before. -/
namespace ChipEight

theorem toList_overwrite (bytes : Array UInt8) (start : Nat) {data : List UInt8}
    (h : start + data.length ≤ bytes.size) :
    (overwrite bytes start data).toList =
      bytes.toList.take start ++ data ++ bytes.toList.drop (start + data.length) := by
  induction data generalizing bytes start with
  | nil => simp [overwrite]
  | cons b rest ih =>
    simp only [List.length_cons] at h
    have hset : start + 1 + rest.length ≤ (bytes.setIfInBounds start b).size := by
      rw [Array.size_setIfInBounds]
      omega
    have hlt : start < bytes.toList.length := by
      rw [Array.length_toList]
      omega
    have htake : (bytes.toList.set start b).take (start + 1) = bytes.toList.take start ++ [b] := by
      rw [List.take_add_one, List.getElem?_set_self hlt, List.take_set_of_le (Nat.le_refl _)]
      rfl
    have hdrop : (bytes.toList.set start b).drop (start + 1 + rest.length) =
        bytes.toList.drop (start + (b :: rest).length) := by
      rw [List.drop_set_of_lt (by omega), List.length_cons, Nat.add_assoc, Nat.add_comm 1]
    rw [overwrite, ih _ _ hset, Array.toList_setIfInBounds, htake, hdrop, List.append_assoc _ [b]]
    rfl

namespace Memory

/-- The font, zeros up to where programs start, the program, and zeros up to the end. -/
theorem toList_loaded {rom : List UInt8} (h : rom.length ≤ maxProgramSize) :
    (initial.patch programStart.toNat rom).toList =
      Font.sprites ++ List.replicate 432 0 ++ rom ++ List.replicate (3584 - rom.length) 0 := by
  have hinitial : initial.toList = Font.sprites ++ List.replicate 4016 0 := by
    show (overwrite (Array.replicate memorySize 0) 0 Font.sprites).toList = _
    rw [toList_overwrite _ 0 (by simp [memorySize, Font.spriteSize]), Array.toList_replicate,
      List.drop_replicate]
    rfl
  have hsize : 512 + rom.length ≤ initial.toArray.size := by
    rw [Vector.size_toArray]
    exact Nat.add_le_of_le_sub' (by decide) h
  show (overwrite initial.toArray 512 rom).toList = _
  rw [toList_overwrite _ 512 hsize]
  show initial.toList.take 512 ++ rom ++ initial.toList.drop (512 + rom.length) = _
  have htake : initial.toList.take 512 = Font.sprites ++ List.replicate 432 0 := by
    rw [hinitial, List.take_append, Font.length_sprites, List.take_replicate]
    rfl
  have hdrop : initial.toList.drop (512 + rom.length) = List.replicate (3584 - rom.length) 0 := by
    have hfont : Font.sprites.drop (512 + rom.length) = [] :=
      List.drop_eq_nil_of_le (by rw [Font.length_sprites, Font.spriteSize]; omega)
    have hzeros : 4016 - (512 + rom.length - 16 * 5) = 3584 - rom.length := by omega
    rw [hinitial, List.drop_append, Font.length_sprites, List.drop_replicate, hfont, Font.spriteSize,
      hzeros, List.nil_append]
  rw [htake, hdrop]

end Memory

namespace Rom

/-- The bytes that one answer of a source adds. -/
def Delivery.piece : Delivery → List UInt8
  | .bytes piece => piece
  | .interrupted | .failure _ => []

/-- The bytes of answers that neither fail nor end a source come before those of the rest. -/
theorem readAll_append {source : List Delivery} (h : ∀ cause, .failure cause ∉ source)
    (hbytes : .bytes [] ∉ source) (rest : List Delivery) :
    readAll (source ++ rest) = (readAll rest).map (source.flatMap Delivery.piece ++ ·) := by
  induction source with
  | nil =>
    rw [List.nil_append]
    cases readAll rest <;> rfl
  | cons answer later ih =>
    have hlater := ih (fun cause hc => h cause (List.mem_cons_of_mem answer hc))
      fun hb => hbytes (List.mem_cons_of_mem answer hb)
    rw [List.cons_append, List.flatMap_cons]
    cases answer with
    | bytes piece =>
      cases piece with
      | nil => exact absurd List.mem_cons_self hbytes
      | cons b piece =>
        rw [readAll, hlater]
        cases readAll rest with
        | error e => rfl
        | ok bytes =>
          show Except.ok (b :: piece ++ (later.flatMap Delivery.piece ++ bytes)) = _
          rw [← List.append_assoc]
          rfl
    | interrupted => exact hlater
    | failure cause => exact absurd List.mem_cons_self (h cause)

theorem sizeFault_eq_some {rom : List UInt8} {f : Fault} :
    sizeFault rom = some f ↔
      Memory.maxProgramSize < rom.length ∧ f = .romTooLarge rom.length Memory.maxProgramSize := by
  simp [sizeFault, eq_comm]

end Rom

namespace Machine

variable {ρ κ γ ρ' κ' γ' τ : Type}

/-- A machine that has just been given a program: nothing else of it is left to chance. -/
structure Fresh (m : Machine ρ κ γ) (rom : List UInt8) : Prop where
  memory : m.processor.memory.toList =
    Font.sprites ++ List.replicate 432 0 ++ rom ++ List.replicate (3584 - rom.length) 0
  v : m.processor.v.toList = List.replicate 16 0
  i : m.processor.i = 0
  pc : m.processor.pc = 0x200
  delay : m.processor.delay = 0
  sound : m.processor.sound = 0
  slots : m.processor.stack.slots.toList = List.replicate 16 0
  depth : m.processor.stack.depth = 0
  pixels : m.screen.pixels.toList = List.replicate 2048 0
  dirty : m.screen.dirty = true

section
variable [Clock γ τ]

theorem loaded_fresh (m : Machine ρ κ γ) {rom : List UInt8} (h : rom.length ≤ Memory.maxProgramSize) :
    (m.loaded rom).Fresh rom where
  memory := Memory.toList_loaded h
  v := rfl
  i := rfl
  pc := rfl
  delay := rfl
  sound := rfl
  slots := rfl
  depth := rfl
  pixels := by simp [loaded, Screen.clear, Frame.blank, displayHeight, displayWidth]
  dirty := rfl

theorem loadFrom_append {source ending : List Rom.Delivery} (h : ∀ cause, .failure cause ∉ source)
    (hbytes : .bytes [] ∉ source) (hend : Rom.readAll ending = .ok []) (m : Machine ρ κ γ) :
    loadFrom (source ++ ending) m = load (source.flatMap Rom.Delivery.piece) m := by
  have hread : Rom.readAll (source ++ ending) = .ok (source.flatMap Rom.Delivery.piece) := by
    rw [Rom.readAll_append h hbytes, hend]
    exact congrArg Except.ok (List.append_nil _)
  rw [loadFrom, hread, checked_ok, bind_ok (pure_apply _ m)]

end

section
variable [LE τ] [Timescale τ] [Clock γ τ] [Clock γ' τ] [Randomizer ρ] [Keyboard κ] [Randomizer ρ']
  [Keyboard κ']

/-- Machines that do the same, whatever is asked of them, as long as they are told the same. -/
def Indistinguishable (a : Machine ρ κ γ) (b : Machine ρ' κ' γ') : Prop :=
  ∀ requests, List.Forall₂ Answers.Agree (a.told requests) (b.told requests) →
    List.Forall₂ Answers.AgreeOnTime (a.told requests) (b.told requests) →
    a.responses requests = b.responses requests ∧
      (a.afterAll requests).processor = (b.afterAll requests).processor ∧
      (a.afterAll requests).screen = (b.afterAll requests).screen

theorem loaded_indistinguishable (a : Machine ρ κ γ) (b : Machine ρ' κ' γ') (rom : List UInt8) :
    (a.loaded rom).Indistinguishable (b.loaded rom) := by
  intro requests hx ht
  have h : (a.loaded rom).Alike (fun _ => False) (b.loaded rom) := ⟨.refl _, rfl⟩
  obtain ⟨hresponses, hend⟩ := h.afterAll hx (fun _ _ => ht) fun _ _ _ => id
  exact ⟨hresponses, hend.processor.eq, hend.screen⟩

/-- A program is refused exactly for its size, and it does not matter how a source hands it over before it
ends. One that fits resets any two machines, which have nothing left to tell their histories by. -/
theorem load_resets (a : Machine ρ κ γ) (b : Machine ρ' κ' γ') (rom : List UInt8) :
    ((∃ e m, load rom a = .error e m) ↔ 3584 < rom.length) ∧
      (∀ e m, load rom a = .error e m → e = .fault (.romTooLarge rom.length 3584) ∧ m = a) ∧
      (∀ source ending, (∀ cause, .failure cause ∉ source) → .bytes [] ∉ source →
        (ending = [] ∨ ∃ unread, ending = .bytes [] :: unread) →
        source.flatMap Rom.Delivery.piece = rom → loadFrom (source ++ ending) a = load rom a) ∧
      (rom.length ≤ 3584 → ∃ start start', load rom a = .ok () start ∧ load rom b = .ok () start' ∧
        start.Fresh rom ∧ start'.Fresh rom ∧ start.clock = Clock.reset a.clock ∧
        start'.clock = Clock.reset b.clock ∧ start.Indistinguishable start') := by
  have hrefused {e : Halt} {m : Machine ρ κ γ} (h : load rom a = .error e m) :
      3584 < rom.length ∧ e = .fault (.romTooLarge rom.length 3584) ∧ m = a := by
    rw [load_apply] at h
    obtain ⟨f, hf, rfl, rfl⟩ := answer_eq_error h
    obtain ⟨hlarge, rfl⟩ := Rom.sizeFault_eq_some.1 hf
    exact ⟨hlarge, rfl, rfl⟩
  refine ⟨⟨fun ⟨e, m, h⟩ => (hrefused h).1, ?_⟩, fun e m h => (hrefused h).2, ?_, ?_⟩
  · intro hlarge
    rw [load_apply, Rom.sizeFault_eq_some.2 ⟨hlarge, rfl⟩]
    exact ⟨_, _, rfl⟩
  · rintro source ending hs hbytes hending rfl
    refine loadFrom_append hs hbytes ?_ a
    obtain rfl | ⟨unread, rfl⟩ := hending
    · rfl
    · rfl
  · intro hfits
    exact ⟨a.loaded rom, b.loaded rom, load_of_fits hfits a, load_of_fits hfits b,
      loaded_fresh a hfits, loaded_fresh b hfits, rfl, rfl, loaded_indistinguishable a b rom⟩

end

/-- A machine that has drawn in a subroutine, and one that has never run, are told the same after a load and do
the same. -/
theorem used_machine_like_new :
    let new : Machine ByteCycle KeyQueue CycleClock :=
      { randomizer := { bytes := #[0x3A] }, keyboard := {}, clock := {} }
    let used := (new.loaded [0x22, 0x02, 0xD0, 0x05]).afterAll [.cycle, .cycle]
    let rom := [0xC1, 0x0F, 0x00, 0xE0]
    let requests : List Request := [.cycle, .cycle, .takeFrame]
    used.processor.stack.depth = 1 ∧ used.screen.pixels.toList.head? = some 1 ∧
      new.processor.stack.depth = 0 ∧ new.screen.pixels.toList.head? = some 0 ∧
      ∃ start start', load rom used = .ok () start ∧ load rom new = .ok () start' ∧
        start.responses requests = start'.responses requests ∧
        (start.afterAll requests).processor = (start'.afterAll requests).processor ∧
        (start.afterAll requests).screen = (start'.afterAll requests).screen := by
  intro new used rom requests
  have hfits : rom.length ≤ 3584 := by decide
  obtain ⟨-, -, -, hresets⟩ := load_resets used new rom
  obtain ⟨start, start', hload, hload', -, -, -, -, hsame⟩ := hresets hfits
  cases hload.symm.trans (load_of_fits hfits used)
  cases hload'.symm.trans (load_of_fits hfits new)
  have hdepth : used.processor.stack.depth = 1 := by decide +kernel
  have hlit : used.screen.pixels.toList.head? = some 1 := by decide +kernel
  have hnew : new.processor.stack.depth = 0 ∧ new.screen.pixels.toList.head? = some 0 := by decide +kernel
  have htold : (used.loaded rom).told requests = (new.loaded rom).told requests := by decide +kernel
  have hagree : List.Forall₂ Answers.Agree ((used.loaded rom).told requests) ((new.loaded rom).told requests) := by
    rw [htold]
    exact List.forall₂_same.2 fun _ _ => .of_eq rfl rfl rfl
  have htime : List.Forall₂ Answers.AgreeOnTime ((used.loaded rom).told requests)
      ((new.loaded rom).told requests) := by
    rw [htold]
    exact List.forall₂_same.2 fun _ _ _ hx _ hy => Option.mem_unique hx hy
  exact ⟨hdepth, hlit, hnew.1, hnew.2, _, _, hload, hload', hsame requests hagree htime⟩

end Machine

end ChipEight
