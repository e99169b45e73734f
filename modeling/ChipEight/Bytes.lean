/-! Copying a run of bytes into an array. -/
namespace ChipEight

/-- Replaces the bytes from `start` on by `data`; what would fall past the end is dropped. -/
def overwrite (bytes : Array UInt8) (start : Nat) : List UInt8 → Array UInt8
  | [] => bytes
  | b :: rest => overwrite (bytes.setIfInBounds start b) (start + 1) rest

@[simp] theorem size_overwrite (bytes : Array UInt8) (start : Nat) (data : List UInt8) :
    (overwrite bytes start data).size = bytes.size := by
  induction data generalizing bytes start with
  | nil => rfl
  | cons b rest ih => simp [overwrite, ih]

/-- A position holds the byte of `data` that lands there, and its old byte where none does. -/
theorem getElem?_overwrite (bytes : Array UInt8) (start k : Nat) (data : List UInt8) :
    (overwrite bytes start data)[k]? =
      if start ≤ k ∧ k < start + data.length ∧ k < bytes.size then data[k - start]?
      else bytes[k]? := by
  induction data generalizing bytes start with
  | nil => simp [overwrite]; omega
  | cons b rest ih =>
    rw [overwrite, ih]
    by_cases h : start = k
    · subst h
      rw [if_neg (by omega), Array.getElem?_setIfInBounds_self]
      by_cases hk : start < bytes.size
      · rw [if_pos hk, if_pos ⟨Nat.le_refl _, by simp, hk⟩]
        simp
      · rw [if_neg hk, if_neg (fun h => hk h.2.2), Array.getElem?_eq_none (by omega)]
    · simp only [Array.size_setIfInBounds, List.length_cons, Array.getElem?_setIfInBounds, h, if_false]
      by_cases hk : start ≤ k
      · obtain ⟨d, rfl⟩ := Nat.exists_eq_add_of_lt (Nat.lt_of_le_of_ne hk h)
        have e : start + d + 1 - start = (start + d + 1 - (start + 1)) + 1 := by omega
        rw [e, List.getElem?_cons_succ]
        congr 1
        simp only [eq_iff_iff]
        omega
      · rw [if_neg (by omega), if_neg (by omega)]

end ChipEight
