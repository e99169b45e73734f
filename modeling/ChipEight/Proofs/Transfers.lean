import ChipEight.Proofs.CycleFault
import ChipEight.Proofs.Footprint
import ChipEight.Proofs.MemoryAccess

/-! Registers and digits on their way through memory. What the registers were stored as is loaded again, what
they were loaded from is stored again, and the digits of a register make up its value, wherever the index register
points, over the program or the font as well. -/
namespace ChipEight

theorem Memory.outside_eq_none {address length : Nat} :
    outside address length = none ↔ address + length ≤ memorySize := by
  simp [outside]

/-- The three digits of a byte make up its value. -/
theorem Decimal.toNat_digits (value : UInt8) :
    100 * (value / 100).toNat + 10 * (value % 100 / 10).toNat + (value % 10).toNat = value.toNat := by
  simp
  omega

namespace Processor

/-- The index register is the same in `q` as in `p`, and so are the `length` bytes that it points at. -/
structure SameAtIndex (p q : Processor) (length : Nat) : Prop where
  i_eq : q.i = p.i
  bytes_eq : ∀ r < length, q.memory[p.i.toNat + r]? = p.memory[p.i.toNat + r]?

variable {p q : Processor} {x y r : Nat}

/-- Nothing in the registers matters. -/
theorem SameAtIndex.withRegisters (p : Processor) (v : Vector UInt8 registerCount) (length : Nat) :
    p.SameAtIndex { p with v } length := ⟨rfl, fun _ _ => rfl⟩

/-- Assigning bytes to registers is overwriting the register file. -/
theorem toArray_assignFrom (bytes : List UInt8) (x : Nat) (p : Processor) :
    (p.assignFrom x bytes).v.toArray = overwrite p.v.toArray x bytes := by
  induction bytes generalizing x p with
  | nil => rfl
  | cons b rest ih => exact ih (x + 1) (p.assign x b)

/-- Loading fills each register with its byte. -/
theorem effect_loaded (hx : x < registerCount) (hm : p.i.toNat + (x + 1) ≤ memorySize) (hr : r ≤ x) :
    (p.effect (.loadRegisters x)).v[r]? = p.memory[p.i.toNat + r]? := by
  have hlength := p.memory.length_bytesAt hm
  have hsize : p.v.toArray.size = registerCount := p.v.size_toArray
  show (p.assignFrom 0 (p.memory.bytesAt p.i.toNat (x + 1))).v[r]? = _
  rw [← Vector.getElem?_toArray, toArray_assignFrom, getElem?_overwrite, if_pos (by omega)]
  exact p.memory.bytesAt_eq_getElem? hm (Nat.lt_succ_of_le hr)

theorem getElem?_registersThrough (hr : r ≤ x) : (p.v.toList.take (x + 1))[r]? = p.v[r]? := by
  rw [List.getElem?_take_of_lt (Nat.lt_succ_of_le hr), Vector.getElem?_toList]

/-- Storing leaves each register at its place, and the rest of memory alone. -/
theorem effect_stored (hx : x < registerCount) (hm : p.i.toNat + (x + 1) ≤ memorySize) (k : Nat) :
    (p.effect (.storeRegisters x)).memory[k]? =
      if p.i.toNat ≤ k ∧ k < p.i.toNat + (x + 1) then p.v[k - p.i.toNat]? else p.memory[k]? := by
  have hlength := length_registersThrough hx p
  rw [← hlength] at hm
  refine (p.memory.patch_eq_written hm k).trans ?_
  rw [Memory.written, hlength]
  split
  · exact getElem?_registersThrough (by omega)
  · rfl

theorem effect_stored_at (hx : x < registerCount) (hm : p.i.toNat + (x + 1) ≤ memorySize) (hr : r ≤ x) :
    (p.effect (.storeRegisters x)).memory[p.i.toNat + r]? = p.v[r]? := by
  rw [effect_stored hx hm, if_pos (by omega), Nat.add_sub_cancel_left]

/-- Storing what memory holds already changes nothing. -/
theorem effect_stored_again (hx : x < registerCount) (hm : p.i.toNat + (x + 1) ≤ memorySize)
    (h : ∀ r ≤ x, p.v[r]? = p.memory[p.i.toNat + r]?) : (p.effect (.storeRegisters x)).memory = p.memory := by
  apply Vector.toArray_inj.1
  apply Array.ext_getElem?
  intro k
  rw [Vector.getElem?_toArray, Vector.getElem?_toArray, effect_stored hx hm]
  split
  · rename_i hk
    rw [h _ (by omega), Nat.add_sub_cancel' hk.1]
  · rfl

/-- The digits of register `x` as they are found in memory after storing them. -/
theorem effect_digits (hm : p.i.toNat + 3 ≤ memorySize) (x : Nat) (hr : r < 3) :
    (p.effect (.storeDecimal x)).memory[p.i.toNat + r]? =
      [p.value x / 100, p.value x % 100 / 10, p.value x % 10][r]? := by
  refine (p.memory.patch_eq_written hm _).trans ?_
  rw [Memory.written, if_pos ⟨Nat.le_add_right _ _, Nat.add_lt_add_left hr _⟩, Nat.add_sub_cancel_left]

/-- The first three registers hold the decimal digits of a value. -/
structure HoldsDigits (p : Processor) (value : UInt8) : Prop where
  hundreds_lt : (p.value 0).toNat < 10
  tens_lt : (p.value 1).toNat < 10
  ones_lt : (p.value 2).toNat < 10
  sum_eq : 100 * (p.value 0).toNat + 10 * (p.value 1).toNat + (p.value 2).toNat = value.toNat

theorem holdsDigits_of_eq {value : UInt8}
    (h : ∀ r < 3, p.v[r]? = [value / 100, value % 100 / 10, value % 10][r]?) : p.HoldsDigits value := by
  have hundreds : p.value 0 = value / 100 := by rw [Processor.value, h 0 (by decide)]; rfl
  have tens : p.value 1 = value % 100 / 10 := by rw [Processor.value, h 1 (by decide)]; rfl
  have ones : p.value 2 = value % 10 := by rw [Processor.value, h 2 (by decide)]; rfl
  have hvalue := value.toNat_lt
  constructor
  case hundreds_lt =>
    rw [hundreds]
    simp
    omega
  case tens_lt =>
    rw [tens]
    simp
    omega
  case ones_lt =>
    rw [ones]
    simp
    omega
  case sum_eq =>
    rw [hundreds, tens, ones]
    exact Decimal.toNat_digits value

end Processor

namespace Machine

variable {ρ κ γ : Type} [Randomizer ρ] [Keyboard κ] {m m' : Machine ρ κ γ} {i : Instruction} {n x y : Nat}

/-- Nothing but the bytes that it accesses can keep an instruction from its effect. -/
theorem execute_accesses (hi : i.InRange) (hn : i.accesses = some n) (m : Machine ρ κ γ) :
    execute i m = answer (Memory.outside m.processor.i.toNat n) m () (m.effect i) := by
  cases i with
  | draw | storeDecimal | storeRegisters | loadRegisters =>
    cases hn
    exact execute_apply hi nofun
  | _ => cases hn

theorem execute_of_le (hi : i.InRange) (hn : i.accesses = some n) (h : m.processor.i.toNat + n ≤ memorySize) :
    execute i m = .ok () (m.effect i) := by
  rw [execute_accesses hi hn, Memory.outside_eq_none.2 h]
  rfl

theorem le_of_execute (hi : i.InRange) (hn : i.accesses = some n) (h : execute i m = .ok () m') :
    m.processor.i.toNat + n ≤ memorySize ∧ m' = m.effect i := by
  rw [execute_accesses hi hn] at h
  exact (answer_eq_ok h).imp_left Memory.outside_eq_none.1

/-- Storing and loading are refused alike. -/
theorem error_iff_of_accesses {j : Instruction} {m₁ m₂ : Machine ρ κ γ} (hi : i.InRange) (hj : j.InRange)
    (hn : i.accesses = some n) (hn' : j.accesses = some n) (h : m₂.processor.i = m₁.processor.i) (e : Halt) :
    (∃ m', execute i m₁ = .error e m') ↔ ∃ m', execute j m₂ = .error e m' := by
  rw [execute_accesses hi hn, execute_accesses hj hn', h]
  exact answer_error_iff.trans answer_error_iff.symm

/-- Loading gives the registers the bytes that an earlier instruction has left at the index register. -/
theorem exists_load {bytes : Nat → Option UInt8} (hsame : m'.processor.SameAtIndex m.processor n) (hy : y < 16)
    (hyn : y < n) (hm : m'.processor.i.toNat + n ≤ memorySize)
    (hbytes : ∀ r < n, m'.processor.memory[m'.processor.i.toNat + r]? = bytes r) :
    ∃ m'', execute (.loadRegisters y) m = .ok () m'' ∧ m''.processor.i = m'.processor.i ∧
      ∀ r ≤ y, m''.processor.v[r]? = bytes r := by
  have hi := hsame.i_eq
  have hfits : m.processor.i.toNat + (y + 1) ≤ memorySize := by
    rw [hi]
    omega
  have hrange : Instruction.InRange (.loadRegisters y) := hy
  refine ⟨_, execute_of_le hrange rfl hfits, ?_, ?_⟩
  · exact (Processor.effect_index (i := .loadRegisters y) rfl).trans hi
  · intro r hr
    have hrn : r < n := Nat.lt_of_le_of_lt hr hyn
    refine (Processor.effect_loaded hy hfits hr).trans ?_
    rw [hi, hsame.bytes_eq r hrn, hbytes r hrn]

theorem load_of_store (hx : x < 16) (hy : y ≤ x) (h : execute (.storeRegisters x) m = .ok () m') :
    m'.processor.i = m.processor.i ∧
      (∀ r ≤ x, m'.processor.memory[m.processor.i.toNat + r]? = m.processor.v[r]?) ∧
      ∀ n : Machine ρ κ γ, m'.processor.SameAtIndex n.processor (x + 1) →
        ∃ n', execute (.loadRegisters y) n = .ok () n' ∧ n'.processor.i = m.processor.i ∧
          ∀ r ≤ y, n'.processor.v[r]? = m.processor.v[r]? := by
  have hrange : Instruction.InRange (.storeRegisters x) := hx
  obtain ⟨hm, rfl⟩ := le_of_execute hrange rfl h
  have hstored (r : Nat) (hr : r < x + 1) :
      (m.processor.effect (.storeRegisters x)).memory[m.processor.i.toNat + r]? = m.processor.v[r]? :=
    Processor.effect_stored_at hx hm (Nat.le_of_lt_succ hr)
  refine ⟨rfl, fun r hr => hstored r (Nat.lt_succ_of_le hr), fun n hn => ?_⟩
  have hload := exists_load hn (Nat.lt_of_le_of_lt hy hx) (Nat.lt_succ_of_le hy) hm hstored
  exact hload

theorem store_of_load (hx : x < 16) (h : execute (.loadRegisters x) m = .ok () m') :
    m'.processor.i = m.processor.i ∧ m'.processor.memory = m.processor.memory ∧
      ∀ n : Machine ρ κ γ, m'.processor.SameAtIndex n.processor (x + 1) →
        (∀ r ≤ x, n.processor.v[r]? = m'.processor.v[r]?) →
        ∃ n', execute (.storeRegisters x) n = .ok () n' ∧ n'.processor.i = m.processor.i ∧
          n'.processor.memory = n.processor.memory := by
  have hload : Instruction.InRange (.loadRegisters x) := hx
  have hstore : Instruction.InRange (.storeRegisters x) := hx
  obtain ⟨hm, rfl⟩ := le_of_execute hload rfl h
  have hfoot := effect_footprint m (.loadRegisters x)
  have hi := hfoot.index rfl
  have hmemory (a : Nat) := hfoot.memory a (by simp [Instruction.stored])
  refine ⟨hi, Vector.toArray_inj.1 (Array.ext_getElem? fun a => by simpa using hmemory a), fun n hn hv => ?_⟩
  have hni : n.processor.i = m.processor.i := hn.i_eq.trans hi
  have hfits : n.processor.i.toNat + (x + 1) ≤ memorySize := by
    rw [hni]
    exact hm
  refine ⟨_, execute_of_le hstore rfl hfits, hni, Processor.effect_stored_again hx hfits ?_⟩
  intro r hr
  have hbytes := hn.bytes_eq r (Nat.lt_succ_of_le hr)
  rw [hi, hmemory] at hbytes
  rw [hv r hr, hni, hbytes]
  exact Processor.effect_loaded hx hm hr

theorem load_of_storeDecimal (hx : x < 16) (h : execute (.storeDecimal x) m = .ok () m') :
    m'.processor.i = m.processor.i ∧ ∀ n : Machine ρ κ γ, m'.processor.SameAtIndex n.processor 3 →
      ∃ n', execute (.loadRegisters 2) n = .ok () n' ∧ n'.processor.i = m.processor.i ∧
        n'.processor.HoldsDigits (m.processor.value x) := by
  have hrange : Instruction.InRange (.storeDecimal x) := hx
  obtain ⟨hm, rfl⟩ := le_of_execute hrange rfl h
  have hstored (r : Nat) (hr : r < 3) :
      (m.processor.effect (.storeDecimal x)).memory[m.processor.i.toNat + r]? =
        [m.processor.value x / 100, m.processor.value x % 100 / 10, m.processor.value x % 10][r]? :=
    Processor.effect_digits hm x hr
  refine ⟨rfl, fun n hn => ?_⟩
  obtain ⟨n', hok, hi, hv⟩ := exists_load hn (by decide : 2 < 16) (by decide : 2 < 3) hm hstored
  exact ⟨n', hok, hi, Processor.holdsDigits_of_eq fun r hr => hv r (Nat.le_of_lt_succ hr)⟩

/-- Storing the registers and loading some of them, loading the registers and storing them, and storing the digits
of a register and loading them: each second step succeeds if the first did, and finds what the first has left,
after any change that keeps the index register and what the second step reads. -/
theorem transfers_agree (m : Machine ρ κ γ) (hx : x < 16) (hy : y ≤ x) :
    (∀ m', execute (.storeRegisters x) m = .ok () m' → m'.processor.i = m.processor.i ∧
      (∀ r ≤ x, m'.processor.memory[m.processor.i.toNat + r]? = m.processor.v[r]?) ∧
      ∀ n : Machine ρ κ γ, m'.processor.SameAtIndex n.processor (x + 1) →
        ∃ n', execute (.loadRegisters y) n = .ok () n' ∧ n'.processor.i = m.processor.i ∧
          ∀ r ≤ y, n'.processor.v[r]? = m.processor.v[r]?) ∧
    (∀ m', execute (.loadRegisters x) m = .ok () m' → m'.processor.i = m.processor.i ∧
      m'.processor.memory = m.processor.memory ∧
      ∀ n : Machine ρ κ γ, m'.processor.SameAtIndex n.processor (x + 1) →
        (∀ r ≤ x, n.processor.v[r]? = m'.processor.v[r]?) →
        ∃ n', execute (.storeRegisters x) n = .ok () n' ∧ n'.processor.i = m.processor.i ∧
          n'.processor.memory = n.processor.memory) ∧
    (∀ (n : Machine ρ κ γ) (e : Halt), n.processor.i = m.processor.i →
      ((∃ m', execute (.storeRegisters x) m = .error e m') ↔
        ∃ n', execute (.loadRegisters x) n = .error e n')) ∧
    ∀ m', execute (.storeDecimal x) m = .ok () m' → m'.processor.i = m.processor.i ∧
      ∀ n : Machine ρ κ γ, m'.processor.SameAtIndex n.processor 3 →
        ∃ n', execute (.loadRegisters 2) n = .ok () n' ∧ n'.processor.i = m.processor.i ∧
          n'.processor.HoldsDigits (m.processor.value x) := by
  have hstore : Instruction.InRange (.storeRegisters x) := hx
  have hload : Instruction.InRange (.loadRegisters x) := hx
  refine ⟨fun _ => load_of_store hx hy, fun _ => store_of_load hx, ?_, fun _ => load_of_storeDecimal hx⟩
  exact fun n e hi => error_iff_of_accesses hstore hload rfl rfl hi e

/-- All registers are stored in the last bytes of memory and cleared, and four of them loaded again. The digits of
the largest byte are stored and loaded, over the registers that they come from. -/
theorem registers_come_back :
    let m : Machine ByteCycle KeyQueue CycleClock :=
      { processor := { Processor.initial with
          v := #v[255, 1, 2, 3, 4, 5, 6, 7, 8, 9, 10, 11, 12, 13, 14, 15], i := 4080 },
        randomizer := {}, keyboard := {}, clock := {} }
    let cleared (m' : Machine ByteCycle KeyQueue CycleClock) :=
      m'.onto fun p => { p with v := Vector.replicate _ 0 }
    (∃ m' n, execute (.storeRegisters 15) m = .ok () m' ∧ execute (.loadRegisters 3) (cleared m') = .ok () n ∧
      n.processor.v[0]? = some 255 ∧ n.processor.v[3]? = some 3) ∧
    ∃ m' n, execute (.storeDecimal 0) m = .ok () m' ∧ execute (.loadRegisters 2) m' = .ok () n ∧
      n.processor.HoldsDigits 255 := by
  intro m cleared
  have hstore : Instruction.InRange (.storeRegisters 15) := (by decide : 15 < 16)
  have hdigits : Instruction.InRange (.storeDecimal 0) := (by decide : 0 < 16)
  have hi : m.processor.i.toNat = 4080 := rfl
  have hstored : execute (.storeRegisters 15) m = .ok () _ := execute_of_le hstore rfl (by rw [hi]; decide)
  have hprinted : execute (.storeDecimal 0) m = .ok () _ := execute_of_le hdigits rfl (by rw [hi]; decide)
  constructor
  · obtain ⟨-, -, hload⟩ := (transfers_agree m (by decide : 15 < 16) (by decide : 3 ≤ 15)).1 _ hstored
    obtain ⟨n, hloaded, -, hv⟩ := hload (cleared _) (.withRegisters _ _ _)
    exact ⟨_, n, hstored, hloaded, hv 0 (by decide), hv 3 (by decide)⟩
  · obtain ⟨-, hload⟩ := (transfers_agree m (by decide : 0 < 16) (Nat.le_refl 0)).2.2.2 _ hprinted
    obtain ⟨n, hloaded, -, hv⟩ := hload _ (.withRegisters _ _ 3)
    exact ⟨_, n, hprinted, hloaded, hv⟩

end Machine

end ChipEight
