import ChipEight.Bytes
import ChipEight.Font

/-! Addressable memory. The font lies at address 0 and programs start at `0x200`. Every access goes
through one bounds check, which names the first address past the end. -/
namespace ChipEight

def memorySize : Nat := 4096

abbrev Memory := Vector UInt8 memorySize

namespace Memory

/-- Where programs are loaded and execution starts. -/
def programStart : UInt16 := 0x200

/-- The largest program that fits between `programStart` and the end. -/
def maxProgramSize : Nat := memorySize - programStart.toNat

/-- Memory before a program is loaded: the font, then zeros. -/
def initial : Memory :=
  ⟨overwrite (Array.replicate memorySize 0) 0 Font.sprites, by simp⟩

/-- Checks an access to `length` bytes at `address`, and returns where it ends. -/
def bounds (address length : Nat) : Except Halt Nat := do
  let finish ← fit64 (address + length : Nat)
  if finish ≤ memorySize then return finish
  else throw (.fault (.outOfBounds (max address memorySize)))

/-- The bytes from `start` up to `finish`. -/
def slice (memory : Memory) (start finish : Nat) : Except Halt (List UInt8) :=
  if start ≤ finish ∧ finish ≤ memorySize then .ok (memory.toArray.extract start finish).toList
  else .error (.defect (.noSuchByte finish))

/-- Puts `data` in place of the bytes from `start` up to `finish`, of which there are as many. -/
def replace (memory : Memory) (start finish : Nat) (data : List UInt8) : Except Halt Memory :=
  if start + data.length = finish ∧ finish ≤ memorySize then
    .ok ⟨overwrite memory.toArray start data, by simp⟩
  else .error (.defect (.noSuchByte finish))

def read (memory : Memory) (address length : Nat) : Except Halt (List UInt8) := do
  let finish ← bounds address length
  memory.slice address finish

def write (memory : Memory) (address : Nat) (data : List UInt8) : Except Halt Memory := do
  let finish ← bounds address data.length
  memory.replace address finish data

/-- The two bytes at `address` as one number, the first byte being the upper half. -/
def word (memory : Memory) (address : UInt16) : Except Halt UInt16 := do
  match ← memory.read address.toNat 2 with
  | [upper, lower] => return upper.toUInt16 <<< 8 ||| lower.toUInt16
  | _ => throw (.defect (.noSuchByte address.toNat))

/-- The `length` bytes from `address` on, as far as there are any. -/
def bytesAt (memory : Memory) (address length : Nat) : List UInt8 :=
  (memory.toArray.extract address (address + length)).toList

def patch (memory : Memory) (address : Nat) (data : List UInt8) : Memory :=
  ⟨overwrite memory.toArray address data, by simp⟩

/-- The byte at `address`, 0 past the end. -/
def byte (memory : Memory) (address : Nat) : UInt8 := memory[address]?.getD 0

/-- The big-endian word at `address`. -/
def wordAt (memory : Memory) (address : Nat) : UInt16 :=
  UInt16.ofNat (256 * (memory.byte address).toNat + (memory.byte (address + 1)).toNat)

/-- Why an access to `length` bytes at `address` is refused. -/
def outside (address length : Nat) : Option Fault :=
  if address + length ≤ memorySize then none else some (.outOfBounds (max address memorySize))

theorem outside_eq (address length : Nat) :
    outside address length =
      if memorySize < address + length then some (.outOfBounds (max address memorySize)) else none := by
  unfold outside
  by_cases h : address + length ≤ memorySize
  · rw [if_pos h, if_neg (Nat.not_lt.2 h)]
  · rw [if_neg h, if_pos (Nat.lt_of_not_le h)]

theorem bounds_eq {address length : Nat} (h : address + length < UInt64.size) :
    bounds address length =
      if address + length ≤ memorySize then .ok (address + length)
      else .error (.fault (.outOfBounds (max address memorySize))) := by
  unfold bounds
  rw [fit64_of_lt h]
  rfl

theorem read_eq (memory : Memory) {address length : Nat} (h : address + length < UInt64.size) :
    memory.read address length =
      if address + length ≤ memorySize then .ok (memory.bytesAt address length)
      else .error (.fault (.outOfBounds (max address memorySize))) := by
  rw [read, bounds_eq h]
  split
  · rename_i hm
    exact if_pos ⟨Nat.le_add_right address length, hm⟩
  · rfl

theorem write_eq (memory : Memory) {address : Nat} {data : List UInt8}
    (h : address + data.length < UInt64.size) :
    memory.write address data =
      if address + data.length ≤ memorySize then .ok (memory.patch address data)
      else .error (.fault (.outOfBounds (max address memorySize))) := by
  rw [write, bounds_eq h]
  split
  · rename_i hm
    exact if_pos ⟨rfl, hm⟩
  · rfl

theorem length_bytesAt (memory : Memory) {address length : Nat} (h : address + length ≤ memorySize) :
    (memory.bytesAt address length).length = length := by
  simp [bytesAt]
  omega

theorem length_bytesAt_le (memory : Memory) (address : Nat) {length : Nat} (h : length ≤ UInt8.size) :
    (memory.bytesAt address length).length + UInt8.size ≤ UInt64.size := by
  simp only [bytesAt, Array.length_toList, Array.size_extract, UInt8.size, UInt64.size] at *
  omega

theorem getElem?_bytesAt (memory : Memory) {address length k : Nat} (h : address + length ≤ memorySize)
    (hk : k < length) : (memory.bytesAt address length)[k]? = some (memory.byte (address + k)) := by
  have hb : address + k < memorySize := by omega
  rw [bytesAt, Array.getElem?_toList, Array.getElem?_extract, if_pos (by simp; omega), byte,
    Vector.getElem?_eq_getElem hb, Option.getD_some]
  exact Array.getElem?_eq_getElem (by simpa using hb)

theorem or_shiftLeft_eq (upper lower : UInt8) :
    upper.toUInt16 <<< 8 ||| lower.toUInt16 = UInt16.ofNat (256 * upper.toNat + lower.toNat) := by
  have hu := upper.toNat_lt
  have hl := lower.toNat_lt
  have hor := Nat.two_pow_add_eq_or_of_lt (i := 8) hl upper.toNat
  have hshift : (upper.toUInt16 <<< 8).toNat = 2 ^ 8 * upper.toNat := by
    rw [UInt16.toNat_shiftLeft]
    simp [Nat.shiftLeft_eq]
    omega
  apply UInt16.toNat_inj.1
  rw [UInt16.toNat_or, hshift, UInt8.toNat_toUInt16, ← hor, UInt16.toNat_ofNat']
  omega

/-- The word at an address is read exactly if both its bytes lie inside memory. -/
theorem word_eq (memory : Memory) (address : UInt16) :
    memory.word address =
      if address.toNat + 2 ≤ memorySize then .ok (memory.wordAt address.toNat)
      else .error (.fault (.outOfBounds (max address.toNat memorySize))) := by
  have hlt : address.toNat + 2 < UInt64.size := by
    have := address.toNat_lt
    simp only [UInt64.size]
    omega
  rw [word, read_eq memory hlt]
  split
  · rename_i hm
    have hbytes : memory.bytesAt address.toNat 2 =
        [memory.byte address.toNat, memory.byte (address.toNat + 1)] := by
      apply List.ext_getElem?
      intro k
      by_cases hk : k < 2
      · rw [getElem?_bytesAt memory hm hk]
        match k, hk with
        | 0, _ => rfl
        | 1, _ => rfl
      · rw [List.getElem?_eq_none (by rw [length_bytesAt memory hm]; omega),
          List.getElem?_eq_none (by simp; omega)]
    simp only [hbytes, bind, Except.bind, pure, Except.pure, or_shiftLeft_eq, wordAt]
  · rfl

end Memory

end ChipEight
