import ChipEight.CallStack
import ChipEight.Memory

/-! Registers, timers, call stack and memory, with the steps that instructions are made of. -/
namespace ChipEight

def registerCount : Nat := 16

/-- The register that carries, borrows and collisions are reported in. -/
def flagRegister : Nat := 15

structure Processor where
  v : Vector UInt8 registerCount := Vector.replicate registerCount 0
  i : UInt16 := 0
  pc : UInt16 := Memory.programStart
  delay : UInt8 := 0
  sound : UInt8 := 0
  stack : CallStack := {}
  memory : Memory := Memory.initial
  deriving DecidableEq

namespace Processor

def initial : Processor := {}

/-- A step that may fail; the state it has reached by then stays. -/
abbrev Step := EStateM Halt Processor

def register (x : Nat) : Step UInt8 := do
  match (← get).v[x]? with
  | some value => return value
  | none => throw (.defect (.noSuchRegister x))

def setRegister (x : Nat) (value : UInt8) : Step Unit := do
  if h : x < registerCount then modify fun p => { p with v := p.v.set x value h }
  else throw (.defect (.noSuchRegister x))

/-- The flag is written last, so it stays when `x` is the flag register. -/
def setWithFlag (x : Nat) (result : UInt8) (flag : Bool) : Step Unit := do
  setRegister x result
  setRegister flagRegister (if flag then 1 else 0)

def registersThrough (x : Nat) : Step (List UInt8) := do
  if x < registerCount then return (← get).v.toList.take (x + 1)
  else throw (.defect (.noSuchRegister x))

def read (address length : Nat) : Step (List UInt8) := do
  checked ((← get).memory.read address length)

def write (address : Nat) (data : List UInt8) : Step Unit := do
  let memory ← checked ((← get).memory.write address data)
  modify fun p => { p with memory }

def push (address : UInt16) : Step Unit := do
  let p ← get
  let stack ← checked (p.stack.push p.pc address)
  set { p with stack }

def pop : Step UInt16 := do
  let p ← get
  let (address, stack) ← checked (p.stack.pop p.pc)
  set { p with stack }
  return address

def jump (address : UInt16) : Step Unit :=
  modify fun p => { p with pc := address }

def next : Step Unit :=
  modify fun p => { p with pc := p.pc + 2 }

/-- Past the instruction that follows, if `condition` holds. -/
def skipIf (condition : Bool) : Step Unit :=
  modify fun p => { p with pc := p.pc + if condition then 4 else 2 }

def setIndex (address : UInt16) : Step Unit :=
  modify fun p => { p with i := address }

def soundActive (p : Processor) : Bool := 0 < p.sound

/-- One count less, stopping at zero. -/
def countDown (timer : UInt8) : Except Halt UInt8 :=
  if 0 < timer then fitByte (timer.toNat - 1 : Int) else .ok timer

def tick : Step Unit := do
  let p ← get
  let delay ← checked (countDown p.delay)
  let sound ← checked (countDown p.sound)
  set { p with delay, sound }

/-! Each step as a function of the processor it meets. -/

/-- What is in register `x`, 0 for a number that no register has. -/
def value (p : Processor) (x : Nat) : UInt8 := p.v[x]?.getD 0

/-- With `b` in register `x`. -/
def assign (p : Processor) (x : Nat) (b : UInt8) : Processor := { p with v := p.v.setIfInBounds x b }

def assignWithFlag (p : Processor) (x : Nat) (result : UInt8) (flag : Bool) : Processor :=
  (p.assign x result).assign flagRegister (if flag then 1 else 0)

def goto (p : Processor) (address : UInt16) : Processor := { p with pc := address }

def advance (p : Processor) : Processor := { p with pc := p.pc + 2 }

def skip (p : Processor) (condition : Bool) : Processor :=
  { p with pc := p.pc + if condition then 4 else 2 }

def countedDown (timer : UInt8) : UInt8 := if 0 < timer then timer - 1 else timer

def ticked (p : Processor) : Processor :=
  { p with delay := countedDown p.delay, sound := countedDown p.sound }

variable {x : Nat}

@[simp] theorem register_apply (h : x < registerCount) (p : Processor) :
    register x p = .ok (p.value x) p := by
  simp [register, bind_apply, value, h]

@[simp] theorem setRegister_apply (h : x < registerCount) (b : UInt8) (p : Processor) :
    setRegister x b p = .ok () (p.assign x b) := by
  simp [setRegister, h, assign, Vector.setIfInBounds, Array.setIfInBounds]

@[simp] theorem setWithFlag_apply (h : x < registerCount) (result : UInt8) (flag : Bool)
    (p : Processor) : setWithFlag x result flag p = .ok () (p.assignWithFlag x result flag) := by
  have hf : flagRegister < registerCount := by decide
  simp only [setWithFlag, bind_apply, setRegister_apply h, setRegister_apply hf]
  rfl

@[simp] theorem registersThrough_apply (h : x < registerCount) (p : Processor) :
    registersThrough x p = .ok (p.v.toList.take (x + 1)) p := by
  simp [registersThrough, h, bind_apply]

theorem read_apply {address length : Nat} (h : address + length < UInt64.size) (p : Processor) :
    read address length p =
      answer (Memory.outside address length) p (p.memory.bytesAt address length) p := by
  simp only [read, bind_apply, get_apply, Memory.read_eq _ h, Memory.outside]
  by_cases hm : address + length ≤ memorySize
  · simp [hm]
  · simp [hm]

theorem write_apply {address : Nat} {data : List UInt8} (h : address + data.length < UInt64.size)
    (p : Processor) :
    write address data p =
      answer (Memory.outside address data.length) p ()
        { p with memory := p.memory.patch address data } := by
  simp only [write, bind_apply, get_apply, Memory.write_eq _ h, Memory.outside]
  by_cases hm : address + data.length ≤ memorySize
  · simp [hm]
  · simp [hm]

theorem push_apply (address : UInt16) (p : Processor) :
    push address p =
      answer (p.stack.pushFault p.pc) p () { p with stack := p.stack.raised address } := by
  simp only [push, bind_apply, get_apply, CallStack.push_eq, CallStack.pushFault]
  by_cases hd : p.stack.depth.toNat < stackDepth
  · simp [hd]
  · simp [hd]

theorem pop_apply {p : Processor} (h : p.stack.depth.toNat ≤ stackDepth) :
    pop p =
      answer (p.stack.popFault p.pc) p p.stack.top { p with stack := p.stack.lowered } := by
  simp only [pop, bind_apply, get_apply, CallStack.pop_eq p.pc h, CallStack.popFault]
  by_cases hd : p.stack.depth = 0
  · simp [hd]
  · simp [hd]

@[simp] theorem jump_apply (address : UInt16) (p : Processor) :
    jump address p = .ok () (p.goto address) := rfl

@[simp] theorem next_apply (p : Processor) : next p = .ok () p.advance := rfl

@[simp] theorem skipIf_apply (condition : Bool) (p : Processor) :
    skipIf condition p = .ok () (p.skip condition) := rfl

@[simp] theorem setIndex_apply (address : UInt16) (p : Processor) :
    setIndex address p = .ok () { p with i := address } := rfl

theorem countDown_eq (timer : UInt8) : countDown timer = .ok (countedDown timer) := by
  unfold countDown countedDown
  split
  · rename_i h
    have hone : (1 : UInt8).toNat = 1 := rfl
    have hpos : 1 ≤ timer.toNat := UInt8.lt_iff_toNat_lt.1 h
    have hsub := UInt8.toNat_sub_of_le timer 1 (UInt8.le_iff_toNat_le.2 hpos)
    exact fitByte_eq (by omega)
  · rfl

@[simp] theorem tick_apply (p : Processor) : tick p = .ok () p.ticked := by
  simp [tick, bind_apply, countDown_eq, ticked]

end Processor

end ChipEight
