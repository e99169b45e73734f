import ChipEight.Hex

/-! What stops a machine. A fault can be brought about by a program or by its input and has a text of
its own. A defect is an access outside an array, or a result too large for its word, which no program
brings about. -/
namespace ChipEight

inductive Fault
  /-- The word at `pc` is no instruction. -/
  | unrecognised (opcode pc : UInt16)
  /-- The instruction at `pc` calls machine code. -/
  | machineCode (opcode pc : UInt16)
  /-- The call at `pc` finds every stack slot in use. -/
  | stackOverflow (pc : UInt16)
  /-- The return at `pc` finds no slot in use. -/
  | stackUnderflow (pc : UInt16)
  /-- An access reaches past the end of memory, at `address` first. -/
  | outOfBounds (address : Nat)
  /-- The program has `size` bytes, more than the `max` that fit. -/
  | romTooLarge (size max : Nat)
  /-- No key press will come any more. -/
  | inputClosed
  | unreadable (cause : String)
  deriving DecidableEq, Repr

def Fault.message : Fault → String
  | .unrecognised opcode pc =>
    s!"unrecognised instruction 0x{hex 4 opcode.toNat} at 0x{hex 3 pc.toNat}"
  | .machineCode opcode pc =>
    s!"instruction 0x{hex 4 opcode.toNat} at 0x{hex 3 pc.toNat} calls machine code and can't be interpreted"
  | .stackOverflow pc => s!"stack overflow: CALL at 0x{hex 3 pc.toNat} with all 16 stack slots in use"
  | .stackUnderflow pc => s!"stack underflow: RET at 0x{hex 3 pc.toNat} with an empty stack"
  | .outOfBounds address => s!"memory access out of bounds at address 0x{hex 4 address}"
  | .romTooLarge size max => s!"ROM is too large ({size} bytes), max size is {max} bytes"
  | .inputClosed => "keyboard input closed while waiting for a key press"
  | .unreadable _ => "unable to read ROM"

inductive Defect
  | noSuchRegister (index : Nat)
  | noSuchSlot (index : Nat)
  | noSuchPixel (index : Nat)
  | noSuchByte (index : Nat)
  /-- A result that does not fit its word. -/
  | overflow
  deriving DecidableEq, Repr

inductive Halt
  | fault (f : Fault)
  | defect (d : Defect)
  deriving DecidableEq, Repr

/-- Runs a check inside a stateful action; a failed check leaves the state as it is. -/
def checked {σ α : Type} (result : Except Halt α) : EStateM Halt σ α := fun s =>
  match result with
  | .ok a => .ok a s
  | .error e => .error e s

@[simp] theorem checked_ok {σ α : Type} (a : α) :
    (checked (.ok a) : EStateM Halt σ α) = pure a := rfl

@[simp] theorem checked_error {σ α : Type} (e : Halt) :
    (checked (.error e) : EStateM Halt σ α) = throw e := rfl

section Apply
variable {ε σ α β : Type}

/-! An action applied to a state, piece by piece. -/

theorem bind_apply (x : EStateM ε σ α) (f : α → EStateM ε σ β) (s : σ) :
    (x >>= f) s = match x s with
      | .ok a s => f a s
      | .error e s => .error e s := rfl

theorem bind_ok {x : EStateM ε σ α} {f : α → EStateM ε σ β} {s t : σ} {a : α} (h : x s = .ok a t) :
    (x >>= f) s = f a t := by
  rw [bind_apply, h]

theorem bind_eq_ok {x : EStateM ε σ α} {f : α → EStateM ε σ β} {s t : σ} {b : β}
    (h : (x >>= f) s = .ok b t) : ∃ a u, x s = .ok a u ∧ f a u = .ok b t := by
  rw [bind_apply] at h
  cases hx : x s with
  | ok a u =>
    rw [hx] at h
    exact ⟨a, u, rfl, h⟩
  | error e u =>
    rw [hx] at h
    cases h

@[simp] theorem pure_apply (a : α) (s : σ) : (pure a : EStateM ε σ α) s = .ok a s := rfl

@[simp] theorem throw_apply (e : ε) (s : σ) : (throw e : EStateM ε σ α) s = .error e s := rfl

@[simp] theorem get_apply (s : σ) : (get : EStateM ε σ σ) s = .ok s s := rfl

@[simp] theorem set_apply (s t : σ) : (set t : EStateM ε σ Unit) s = .ok () t := rfl

@[simp] theorem modify_apply (f : σ → σ) (s : σ) : (modify f : EStateM ε σ Unit) s = .ok () (f s) := rfl

@[simp] theorem modifyGet_apply (f : σ → α × σ) (s : σ) :
    (modifyGet f : EStateM ε σ α) s = .ok (f s).1 (f s).2 := rfl

/-- The result of an action that makes its checks first: with `refusal` it leaves the state as `same`,
and without it returns `value` and goes on to `done`. -/
def answer (refusal : Option Fault) (same : σ) (value : α) (done : σ) : EStateM.Result Halt σ α :=
  refusal.elim (.ok value done) fun f => .error (.fault f) same

@[simp] theorem answer_some (f : Fault) (same done : σ) (value : α) :
    answer (some f) same value done = .error (.fault f) same := rfl

@[simp] theorem answer_none (same done : σ) (value : α) :
    answer none same value done = .ok value done := rfl

theorem answer_error_iff {refusal : Option Fault} {same done : σ} {value : α} {e : Halt} :
    (∃ t, answer refusal same value done = .error e t) ↔ ∃ f, refusal = some f ∧ e = .fault f := by
  cases refusal with
  | none => simp
  | some f => simp [eq_comm]

theorem answer_ok_iff {refusal : Option Fault} {same done : σ} {value a : α} :
    (∃ t, answer refusal same value done = .ok a t) ↔ refusal = none ∧ value = a := by
  cases refusal with
  | none => simp
  | some f => simp

theorem answer_eq_error {refusal : Option Fault} {same done t : σ} {value : α} {e : Halt}
    (h : answer refusal same value done = .error e t) :
    ∃ f, refusal = some f ∧ e = .fault f ∧ t = same := by
  cases refusal with
  | none => cases h
  | some f =>
    cases h
    exact ⟨f, rfl, rfl, rfl⟩

theorem answer_eq_ok {refusal : Option Fault} {same done t : σ} {value a : α}
    (h : answer refusal same value done = .ok a t) : refusal = none ∧ t = done := by
  cases refusal with
  | none =>
    cases h
    exact ⟨rfl, rfl⟩
  | some f => cases h

/-- A refusal is final, also for what was to come next. -/
theorem bind_answer {x : EStateM Halt σ α} {f : α → EStateM Halt σ β} {s same done : σ}
    {refusal : Option Fault} {value : α} (h : x s = answer refusal same value done) :
    (x >>= f) s = refusal.elim (f value done) fun e => .error (.fault e) same := by
  rw [bind_apply, h]
  cases refusal <;> rfl

end Apply

end ChipEight
