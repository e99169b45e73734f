import ChipEight.Processor

/-! What comes of an access to memory, for every address and every length. Within memory it reads and writes
exactly the bytes asked for, and past the end it is refused. An access whose end no 64-bit number can hold is a
defect, also if its address lies past the end of memory by itself. -/
namespace ChipEight

namespace Memory

variable {address length k : Nat} {data : List UInt8}

/-- `bytes` are the `length` bytes from `address` on. -/
def Holds (memory : Memory) (address length : Nat) (bytes : List UInt8) : Prop :=
  bytes.length = length ∧ ∀ k < length, bytes[k]? = memory[address + k]?

/-- What position `k` holds once `data` has been written to `address`. -/
def written (memory : Memory) (address : Nat) (data : List UInt8) (k : Nat) : Option UInt8 :=
  if address ≤ k ∧ k < address + data.length then data[k - address]? else memory[k]?

/-- `w` is the word at `address`, the first of its two bytes being the upper half. -/
def HoldsWord (memory : Memory) (address : Nat) (w : UInt16) : Prop :=
  ∃ upper lower, memory[address]? = some upper ∧ memory[address + 1]? = some lower ∧
    w.toNat = 256 * upper.toNat + lower.toNat

theorem bytesAt_eq_getElem? (memory : Memory) (h : address + length ≤ memorySize) (hk : k < length) :
    (memory.bytesAt address length)[k]? = memory[address + k]? := by
  have hb : address + k < memorySize := by omega
  rw [getElem?_bytesAt memory h hk, byte, Vector.getElem?_eq_getElem hb, Option.getD_some]

theorem holds_bytesAt (memory : Memory) (h : address + length ≤ memorySize) :
    memory.Holds address length (memory.bytesAt address length) :=
  ⟨length_bytesAt memory h, fun _ hk => bytesAt_eq_getElem? memory h hk⟩

theorem patch_eq_written (memory : Memory) (h : address + data.length ≤ memorySize) (k : Nat) :
    (memory.patch address data)[k]? = memory.written address data k := by
  have hbytes := getElem?_overwrite memory.toArray address k data
  have hsize : memory.toArray.size = memorySize := memory.size_toArray
  rw [patch, ← Vector.getElem?_toArray, hbytes, hsize, Vector.getElem?_toArray, written]
  congr 1
  simp only [eq_iff_iff]
  omega

theorem holdsWord_wordAt (memory : Memory) (h : address + 2 ≤ memorySize) :
    memory.HoldsWord address (memory.wordAt address) := by
  have hupper : memory[address]? = some (memory[address]) := Vector.getElem?_eq_getElem (by omega)
  have hlower : memory[address + 1]? = some (memory[address + 1]) := Vector.getElem?_eq_getElem (by omega)
  refine ⟨_, _, hupper, hlower, ?_⟩
  have hu := (memory[address]).toNat_lt
  have hl := (memory[address + 1]).toNat_lt
  simp only [wordAt, byte, hupper, hlower, Option.getD_some, UInt16.toNat_ofNat']
  omega

theorem bounds_of_le (h : UInt64.size ≤ address + length) :
    bounds address length = .error (.defect .overflow) := by
  unfold bounds
  rw [fit64, fits_of_le h]
  rfl

theorem read_of_le (memory : Memory) (h : UInt64.size ≤ address + length) :
    memory.read address length = .error (.defect .overflow) := by
  rw [read, bounds_of_le h]
  rfl

theorem write_of_le (memory : Memory) (h : UInt64.size ≤ address + data.length) :
    memory.write address data = .error (.defect .overflow) := by
  rw [write, bounds_of_le h]
  rfl

end Memory

namespace Processor

/-- What comes of an action that accesses `length` bytes at `address`. What `done` tells of its result and of the
processor that it leaves holds of it within memory; past the end it leaves everything as it was. -/
structure Accesses {α : Type} (action : Step α) (p : Processor) (address length : Nat)
    (done : α → Processor → Prop) : Prop where
  inside : address + length ≤ memorySize → ∃ a p', action p = .ok a p' ∧ done a p'
  outside : memorySize < address + length → address + length < UInt64.size →
    action p = .error (.fault (.outOfBounds (max address memorySize))) p
  /-- The end of the access is no 64-bit number. -/
  overflow : UInt64.size ≤ address + length → action p = .error (.defect .overflow) p

variable {p p' : Processor} {address : Nat} {data : List UInt8}

/-- An action that makes the check of an access first. -/
theorem accesses_of_answer {α : Type} {action : Step α} {length : Nat} {value : α} {left : Processor}
    {done : α → Processor → Prop}
    (hanswer : address + length < UInt64.size →
      action p = answer (Memory.outside address length) p value left)
    (hoverflow : UInt64.size ≤ address + length → action p = .error (.defect .overflow) p)
    (hdone : address + length ≤ memorySize → done value left) : Accesses action p address length done where
  inside h := by
    have hlt : address + length < UInt64.size := Nat.lt_of_le_of_lt h (by decide)
    refine ⟨value, left, ?_, hdone h⟩
    rw [hanswer hlt, Memory.outside, if_pos h]
    rfl
  outside h hlt := by
    rw [hanswer hlt, Memory.outside, if_neg (Nat.not_le.2 h)]
    rfl
  overflow := hoverflow

theorem read_accesses (p : Processor) (address length : Nat) :
    Accesses (read address length) p address length fun bytes p' =>
      p' = p ∧ p.memory.Holds address length bytes := by
  apply accesses_of_answer fun h => read_apply h p
  · intro h
    rw [read, bind_ok (get_apply p), Memory.read_of_le _ h]
    rfl
  · exact fun h => ⟨rfl, p.memory.holds_bytesAt h⟩

theorem write_accesses (p : Processor) (address : Nat) (data : List UInt8) :
    Accesses (write address data) p address data.length fun _ p' =>
      ∃ memory : Memory, p' = { p with memory } ∧ ∀ k, memory[k]? = p.memory.written address data k := by
  apply accesses_of_answer fun h => write_apply h p
  · intro h
    rw [write, bind_ok (get_apply p), Memory.write_of_le _ h]
    rfl
  · exact fun h => ⟨_, rfl, p.memory.patch_eq_written h⟩

theorem word_accesses (p : Processor) (address : UInt16) :
    Accesses (do checked ((← get).memory.word address)) p address.toNat 2 fun w p' =>
      p' = p ∧ p.memory.HoldsWord address.toNat w := by
  have hlt : address.toNat + 2 < UInt64.size :=
    Nat.lt_trans (Nat.add_lt_add_right address.toNat_lt 2) (by decide)
  have hword : (do checked ((← get).memory.word address) : Step UInt16) p =
      answer (Memory.outside address.toNat 2) p (p.memory.wordAt address.toNat) p := by
    rw [bind_ok (get_apply p), Memory.word_eq, Memory.outside]
    split <;> rfl
  apply accesses_of_answer fun _ => hword
  · exact fun h => absurd hlt (Nat.not_lt.2 h)
  · exact fun h => ⟨rfl, p.memory.holdsWord_wordAt h⟩

/-- A write that succeeds has been one within memory. -/
theorem memory_of_write (h : write address data p = .ok () p') (k : Nat) :
    p'.memory[k]? = p.memory.written address data k := by
  obtain ⟨inside, outside, overflow⟩ := p.write_accesses address data
  rcases Nat.lt_or_ge (address + data.length) UInt64.size with hsmall | hlarge
  · rcases Nat.lt_or_ge memorySize (address + data.length) with hout | hin
    · cases (outside hout hsmall).symm.trans h
    · obtain ⟨_, _, hok, memory, rfl, hbytes⟩ := inside hin
      cases hok.symm.trans h
      exact hbytes k
  · cases (overflow hlarge).symm.trans h

theorem read_accesses_of_write (h : write address data p = .ok () p') (start length : Nat) :
    Accesses (read start length) p' start length fun bytes p'' => p'' = p' ∧ bytes.length = length ∧
      ∀ k < length, bytes[k]? = p.memory.written address data (start + k) := by
  obtain ⟨inside, outside, overflow⟩ := p'.read_accesses start length
  refine ⟨fun hin => ?_, outside, overflow⟩
  obtain ⟨bytes, p'', hok, hsame, hlength, hbytes⟩ := inside hin
  exact ⟨bytes, p'', hok, hsame, hlength, fun k hk => (hbytes k hk).trans (memory_of_write h _)⟩

/-- As long as the end of the access is a 64-bit number, reading, writing and fetching a word succeed within memory,
with the bytes that were there or that have been written since, and are refused elsewhere, at the first address
past the end. An access with any other end meets a defect. -/
theorem memory_access_exact (p : Processor) :
    (∀ address length, Accesses (read address length) p address length fun bytes p' =>
      p' = p ∧ p.memory.Holds address length bytes) ∧
    (∀ address data, Accesses (write address data) p address data.length fun _ p' =>
      ∃ memory : Memory, p' = { p with memory } ∧ ∀ k, memory[k]? = p.memory.written address data k) ∧
    (∀ address data p', write address data p = .ok () p' → ∀ start length,
      Accesses (read start length) p' start length fun bytes p'' => p'' = p' ∧ bytes.length = length ∧
        ∀ k < length, bytes[k]? = p.memory.written address data (start + k)) ∧
    ∀ address : UInt16, Accesses (do checked ((← get).memory.word address)) p address.toNat 2 fun w p' =>
      p' = p ∧ p.memory.HoldsWord address.toNat w :=
  ⟨p.read_accesses, p.write_accesses, fun _ _ _ h => read_accesses_of_write h, p.word_accesses⟩

/-- The last two bytes are written and read back with the byte before them; one byte more is refused. -/
theorem last_bytes_read_back :
    ∃ p' bytes, write 4094 [1, 2] initial = .ok () p' ∧ read 4093 3 p' = .ok bytes p' ∧
      bytes[0]? = initial.memory[4093]? ∧ bytes[1]? = some 1 ∧ bytes[2]? = some 2 ∧
      read 4093 4 p' = .error (.fault (.outOfBounds 4096)) p' := by
  obtain ⟨-, hwrite, hback, -⟩ := memory_access_exact initial
  obtain ⟨_, p', hok, -⟩ := (hwrite 4094 [1, 2]).inside (by decide)
  obtain ⟨bytes, _, hread, rfl, -, hbytes⟩ := (hback _ _ _ hok 4093 3).inside (by decide)
  exact ⟨_, bytes, hok, hread, hbytes 0 (by decide), hbytes 1 (by decide), hbytes 2 (by decide),
    (hback _ _ _ hok 4093 4).outside (by decide) (by decide)⟩

/-- One byte at the last of all addresses lies past the end of memory, and is not refused as such. -/
theorem read_at_last_address_defect :
    let address := UInt64.size - 1
    memorySize < address + 1 ∧ read address 1 initial = .error (.defect .overflow) initial ∧
      read address 1 initial ≠ .error (.fault (.outOfBounds (max address memorySize))) initial := by
  intro address
  have hdefect := (initial.read_accesses address 1).overflow (by decide)
  refine ⟨by decide, hdefect, ?_⟩
  rw [hdefect]
  nofun

end Processor

end ChipEight
