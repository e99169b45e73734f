import ChipEight.Width

/-! The sixteen return addresses. Slots below the depth are live; a popped slot keeps its address
until the next push overwrites it. -/
namespace ChipEight

def stackDepth : Nat := 16

structure CallStack where
  slots : Vector UInt16 stackDepth := Vector.replicate stackDepth 0
  /-- Number of slots in use. -/
  depth : UInt8 := 0
  deriving DecidableEq

namespace CallStack

/-- The slots in use, bottom to top. -/
def live (stack : CallStack) : List UInt16 := stack.slots.toList.take stack.depth.toNat

@[simp] theorem live_empty : ({} : CallStack).live = [] := rfl

/-- Adds `address` on top; `pc` is the call that asks for it. -/
def push (stack : CallStack) (pc address : UInt16) : Except Halt CallStack := do
  if h : stack.depth.toNat < stackDepth then
    let depth ← fitByte (stack.depth.toNat + 1 : Nat)
    return { slots := stack.slots.set stack.depth.toNat address h, depth }
  else
    throw (.fault (.stackOverflow pc))

/-- Takes the address on top; `pc` is the return that asks for it. -/
def pop (stack : CallStack) (pc : UInt16) : Except Halt (UInt16 × CallStack) := do
  if stack.depth = 0 then throw (.fault (.stackUnderflow pc))
  let depth ← fitByte (stack.depth.toNat - 1 : Int)
  match stack.slots[depth.toNat]? with
  | some address => return (address, { stack with depth })
  | none => throw (.defect (.noSuchSlot depth.toNat))

/-- The stack with one more address in use. -/
def raised (stack : CallStack) (address : UInt16) : CallStack :=
  { slots := stack.slots.setIfInBounds stack.depth.toNat address, depth := stack.depth + 1 }

/-- The address on top, 0 if there is none. -/
def top (stack : CallStack) : UInt16 := stack.slots[(stack.depth - 1).toNat]?.getD 0

/-- The stack with one address less in use. -/
def lowered (stack : CallStack) : CallStack := { stack with depth := stack.depth - 1 }

/-- Why a push by the call at `pc` is refused. -/
def pushFault (stack : CallStack) (pc : UInt16) : Option Fault :=
  if stack.depth.toNat < stackDepth then none else some (.stackOverflow pc)

/-- Why a pop by the return at `pc` is refused. -/
def popFault (stack : CallStack) (pc : UInt16) : Option Fault :=
  if stack.depth = 0 then some (.stackUnderflow pc) else none

theorem pushFault_eq_none {stack : CallStack} {pc : UInt16} :
    stack.pushFault pc = none ↔ stack.depth.toNat < stackDepth := by
  simp [pushFault]

theorem popFault_eq_none {stack : CallStack} {pc : UInt16} :
    stack.popFault pc = none ↔ stack.depth ≠ 0 := by
  simp [popFault]

theorem toNat_depth_raised {stack : CallStack} {address : UInt16} (h : stack.depth.toNat < stackDepth) :
    (stack.raised address).depth.toNat = stack.depth.toNat + 1 := by
  simp only [stackDepth] at h
  simp [raised]
  omega

theorem toNat_depth_lowered {stack : CallStack} (h : stack.depth ≠ 0) :
    stack.lowered.depth.toNat + 1 = stack.depth.toNat := by
  have hpos : 1 ≤ stack.depth.toNat := Nat.one_le_iff_ne_zero.2 fun e => h (UInt8.toNat_inj.1 e)
  have hsub := UInt8.toNat_sub_of_le stack.depth 1 (UInt8.le_iff_toNat_le.2 hpos)
  have hone : (1 : UInt8).toNat = 1 := rfl
  rw [lowered, hsub, hone]
  omega

theorem push_eq (stack : CallStack) (pc address : UInt16) :
    stack.push pc address =
      if stack.depth.toNat < stackDepth then .ok (stack.raised address)
      else .error (.fault (.stackOverflow pc)) := by
  by_cases h : stack.depth.toNat < stackDepth
  · have hd : fitByte (stack.depth.toNat + 1 : Nat) = .ok (stack.depth + 1) :=
      by
      have hr : (stack.raised address).depth.toNat = stack.depth.toNat + 1 := toNat_depth_raised h
      exact fitByte_eq (congrArg Nat.cast hr.symm)
    have hs : stack.slots.set stack.depth.toNat address h =
        stack.slots.setIfInBounds stack.depth.toNat address := by
      simp [Vector.setIfInBounds, Array.setIfInBounds, h]
    simp only [push, h, dif_pos, if_pos, hd, raised, ← hs]
    rfl
  · simp only [push, h, dif_neg, if_neg, not_false_eq_true]
    rfl

theorem pop_eq {stack : CallStack} (pc : UInt16) (h : stack.depth.toNat ≤ stackDepth) :
    stack.pop pc =
      if stack.depth = 0 then .error (.fault (.stackUnderflow pc))
      else .ok (stack.top, stack.lowered) := by
  unfold pop
  split
  · rfl
  · rename_i h0
    have hd := toNat_depth_lowered h0
    have hf : fitByte (stack.depth.toNat - 1 : Int) = .ok (stack.depth - 1) :=
      fitByte_eq (by change _ = (stack.lowered.depth.toNat : Int); omega)
    have hlt : (stack.depth - 1).toNat < stackDepth := by
      change stack.lowered.depth.toNat < stackDepth
      omega
    simp only [hf, bind, Except.bind, top, lowered, Vector.getElem?_eq_getElem hlt]
    rfl

theorem live_raised {stack : CallStack} {address : UInt16} (h : stack.depth.toNat < stackDepth) :
    (stack.raised address).live = stack.live ++ [address] := by
  have hl : stack.depth.toNat < stack.slots.toList.length := by simpa using h
  have hs : (stack.raised address).slots.toList = stack.slots.toList.set stack.depth.toNat address := by
    simp [raised]
  rw [live, toNat_depth_raised h, hs, List.take_add_one, List.getElem?_set_self hl,
    List.take_set_of_le (Nat.le_refl _)]
  rfl

theorem live_lowered {stack : CallStack} (h : stack.depth ≠ 0) (hd : stack.depth.toNat ≤ stackDepth) :
    stack.live = stack.lowered.live ++ [stack.top] := by
  have hn := toNat_depth_lowered h
  have hlt : (stack.depth - 1).toNat < stackDepth := by
    change stack.lowered.depth.toNat < stackDepth
    omega
  have ht : stack.slots.toList[stack.lowered.depth.toNat]? = some stack.top := by
    simp [lowered, top, Vector.getElem?_eq_getElem hlt]
  rw [live, ← hn, List.take_add_one, ht]
  rfl

end CallStack

end ChipEight
