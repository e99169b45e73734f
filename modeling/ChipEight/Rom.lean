import ChipEight.Fault

/-! Reading a program from a source that hands it over piece by piece. -/
namespace ChipEight.Rom

/-- One answer of a source. -/
inductive Delivery
  | bytes (piece : List UInt8)
  /-- Nothing yet; the source is to be asked again. -/
  | interrupted
  | failure (cause : String)
  deriving DecidableEq, Repr

/-- All the bytes until the source ends, which an empty piece says that it does, or its first failure. -/
def readAll : List Delivery → Except Halt (List UInt8)
  | [] => .ok []
  | .bytes [] :: _ => .ok []
  | .bytes (b :: piece) :: rest => (readAll rest).map ((b :: piece) ++ ·)
  | .interrupted :: rest => readAll rest
  | .failure cause :: _ => .error (.fault (.unreadable cause))

theorem readAll_cases (source : List Delivery) :
    (∃ rom, readAll source = .ok rom) ∨
      ∃ cause, readAll source = .error (.fault (.unreadable cause)) := by
  induction source with
  | nil => exact .inl ⟨[], rfl⟩
  | cons answer rest ih =>
    cases answer with
    | bytes piece =>
      cases piece with
      | nil => exact .inl ⟨[], rfl⟩
      | cons b piece =>
        obtain ⟨rom, h⟩ | ⟨cause, h⟩ := ih
        · exact .inl ⟨b :: piece ++ rom, by rw [readAll, h]; rfl⟩
        · exact .inr ⟨cause, by rw [readAll, h]; rfl⟩
    | interrupted => exact ih
    | failure cause => exact .inr ⟨cause, rfl⟩

end ChipEight.Rom
