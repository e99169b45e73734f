/-! A queue between two threads that remembers everything sent. -/
namespace ChipEight

structure Channel (α : Type) where
  /-- Everything sent so far, in order. -/
  sent : Array α := #[]
  /-- How many of those have been taken out again. -/
  received : Nat := 0
  listening : Bool := true

namespace Channel

variable {α : Type}

def pending (c : Channel α) : List α := c.sent.toList.drop c.received

def send? (c : Channel α) (a : α) : Option (Channel α) :=
  if c.listening then some { c with sent := c.sent.push a } else none

/-- Takes everything out and returns what was sent last. -/
def takeLatest (c : Channel α) : Option α × Channel α :=
  let newest := if c.received < c.sent.size then c.sent.back? else none
  (newest, { c with received := c.sent.size })

def hangUp (c : Channel α) : Channel α := { c with listening := false }

@[simp] theorem pending_takeLatest (c : Channel α) : c.takeLatest.2.pending = [] := by
  simp [takeLatest, pending]

theorem pending_send? {c d : Channel α} {a : α} (h : c.send? a = some d)
    (hc : c.received ≤ c.sent.size) : d.pending = c.pending ++ [a] := by
  unfold send? at h
  split at h
  · cases h
    simp [pending, List.drop_append_of_le_length, hc]
  · simp at h

end Channel

end ChipEight
