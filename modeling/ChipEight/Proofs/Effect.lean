import ChipEight.Machine.Cycle
import ChipEight.Proofs.Decoding

/-! What each instruction does, as one function of the machine it meets, and what it refuses to do. An
instruction that refuses leaves the machine as it is; only a wait that comes to nothing has asked the
keyboard. -/
namespace ChipEight

namespace Processor

/-- With `bytes` in the registers from number `x` on. -/
def assignFrom (p : Processor) (x : Nat) : List UInt8 → Processor
  | [] => p
  | b :: rest => (p.assign x b).assignFrom (x + 1) rest

/-- The processor after an instruction that concerns nothing else and succeeds. -/
def effect (p : Processor) : Instruction → Processor
  | .ret => { p with stack := p.stack.lowered }.goto (p.stack.top + 2)
  | .jump addr => p.goto addr
  | .call addr => { p with stack := p.stack.raised p.pc }.goto addr
  | .skipEqual x kk => p.skip (p.value x == kk)
  | .skipUnequal x kk => p.skip (p.value x != kk)
  | .skipSame x y => p.skip (p.value x == p.value y)
  | .load x kk => (p.assign x kk).advance
  | .addByte x kk => (p.assign x (p.value x + kk)).advance
  | .copy x y => (p.assign x (p.value y)).advance
  | .or x y => (p.assign x (p.value x ||| p.value y)).advance
  | .and x y => (p.assign x (p.value x &&& p.value y)).advance
  | .xor x y => (p.assign x (p.value x ^^^ p.value y)).advance
  | .add x y =>
    (p.assignWithFlag x (p.value x + p.value y) (p.value x + p.value y < p.value x)).advance
  | .sub x y => (p.assignWithFlag x (p.value x - p.value y) (p.value y ≤ p.value x)).advance
  | .shiftRight x => (p.assignWithFlag x (p.value x >>> 1) (p.value x &&& 1 == 1)).advance
  | .subFrom x y => (p.assignWithFlag x (p.value y - p.value x) (p.value x ≤ p.value y)).advance
  | .shiftLeft x => (p.assignWithFlag x (p.value x <<< 1) (p.value x >>> 7 &&& 1 == 1)).advance
  | .skipDifferent x y => p.skip (p.value x != p.value y)
  | .setIndex addr => { p with i := addr &&& 0x0FFF }.advance
  | .jumpOffset addr => p.goto ((addr &&& 0x0FFF) + (p.value 0).toUInt16)
  | .readDelay x => (p.assign x p.delay).advance
  | .setDelay x => { p with delay := p.value x }.advance
  | .setSound x => { p with sound := p.value x }.advance
  | .addIndex x => { p with i := p.i + (p.value x).toUInt16 }.advance
  | .fontSprite x => { p with i := (p.value x).toUInt16 * 5 }.advance
  | .storeDecimal x =>
    { p with
      memory :=
        p.memory.patch p.i.toNat [p.value x / 100, p.value x % 100 / 10, p.value x % 10] }.advance
  | .storeRegisters x =>
    { p with memory := p.memory.patch p.i.toNat (p.v.toList.take (x + 1)) }.advance
  | .loadRegisters x => (p.assignFrom 0 (p.memory.bytesAt p.i.toNat (x + 1))).advance
  | .sys _ | .clear | .random .. | .draw .. | .skipKeyDown _ | .skipKeyUp _ | .awaitKey _ => p

/-- Why the processor refuses an instruction. -/
def refusal (p : Processor) : Instruction → Option Fault
  | .sys addr => some (.machineCode addr p.pc)
  | .ret => p.stack.popFault p.pc
  | .call _ => p.stack.pushFault p.pc
  | .draw _ _ n => Memory.outside p.i.toNat n.toNat
  | .storeDecimal _ => Memory.outside p.i.toNat 3
  | .storeRegisters x | .loadRegisters x => Memory.outside p.i.toNat (x + 1)
  | _ => none

/-- Loading registers concerns nothing but registers. -/
theorem assignFrom_eq (bytes : List UInt8) (x : Nat) (p : Processor) :
    p.assignFrom x bytes = { p with v := (p.assignFrom x bytes).v } := by
  induction bytes generalizing x p with
  | nil => rfl
  | cons b rest ih => exact ih (x + 1) (p.assign x b)

theorem assignFrom_stack (bytes : List UInt8) (x : Nat) (p : Processor) :
    (p.assignFrom x bytes).stack = p.stack := by
  rw [assignFrom_eq]

variable {x y : Nat} {p : Processor}

theorem combine_apply (hx : x < registerCount) (hy : y < registerCount) (f : UInt8 → UInt8 → UInt8)
    (p : Processor) : combine f x y p = .ok () (p.assign x (f (p.value x) (p.value y))).advance := by
  simp [combine, bind_apply, hx, hy]

theorem combineWithFlag_apply (hx : x < registerCount) (hy : y < registerCount)
    (f : UInt8 → UInt8 → UInt8) (flag : UInt8 → UInt8 → Bool) (p : Processor) :
    combineWithFlag f flag x y p =
      .ok () (p.assignWithFlag x (f (p.value x) (p.value y)) (flag (p.value x) (p.value y))).advance := by
  simp [combineWithFlag, bind_apply, hx, hy]

theorem changeWithFlag_apply (hx : x < registerCount) (f : UInt8 → UInt8) (flag : UInt8 → Bool)
    (p : Processor) :
    changeWithFlag f flag x p =
      .ok () (p.assignWithFlag x (f (p.value x)) (flag (p.value x))).advance := by
  simp [changeWithFlag, bind_apply, hx]

theorem skipComparing_apply (hx : x < registerCount) (hy : y < registerCount)
    (condition : UInt8 → UInt8 → Bool) (p : Processor) :
    skipComparing condition x y p = .ok () (p.skip (condition (p.value x) (p.value y))) := by
  simp [skipComparing, bind_apply, hx, hy]

theorem addByte_apply (hx : x < registerCount) (kk : UInt8) (p : Processor) :
    (do setRegister x ((← register x) + kk); next : Step Unit) p =
      .ok () (p.effect (.addByte x kk)) := by
  rw [bind_ok (register_apply hx p), bind_ok (setRegister_apply hx _ p)]
  rfl

theorem readDelay_apply (hx : x < registerCount) (p : Processor) :
    (do setRegister x (← get).delay; next : Step Unit) p = .ok () (p.effect (.readDelay x)) := by
  rw [bind_ok (get_apply p), bind_ok (setRegister_apply hx _ p)]
  rfl

theorem ret_apply (hd : p.stack.depth.toNat ≤ stackDepth) :
    ret p = answer (p.refusal .ret) p () (p.effect .ret) :=
  bind_answer (pop_apply hd)

theorem call_apply (addr : UInt16) (p : Processor) :
    call addr p = answer (p.refusal (.call addr)) p () (p.effect (.call addr)) :=
  bind_answer (push_apply p.pc p)

theorem jumpOffset_apply (addr : UInt16) (p : Processor) :
    jumpOffset addr p = .ok () (p.effect (.jumpOffset addr)) := by
  have h0 : 0 < registerCount := by decide
  have hfit : fitWord ((addr &&& 0x0FFF).toNat + (p.value 0).toNat : Nat) =
      .ok ((addr &&& 0x0FFF) + (p.value 0).toUInt16) := by
    have ha : (addr &&& 0x0FFF).toNat = addr.toNat % 4096 := Pattern.toNat_addr addr
    have hv := (p.value 0).toNat_lt
    refine fitWord_eq ?_
    rw [UInt16.toNat_add, UInt8.toNat_toUInt16, ha]
    omega
  simp only [jumpOffset, bind_apply, register_apply h0, hfit, checked_ok, pure_apply, jump_apply, effect]

theorem addIndex_apply (hx : x < registerCount) (p : Processor) :
    addIndex x p = .ok () (p.effect (.addIndex x)) := by
  simp only [addIndex, bind_apply, register_apply hx, get_apply, setIndex_apply, next_apply, effect]

theorem fontSprite_apply (hx : x < registerCount) (p : Processor) :
    fontSprite x p = .ok () (p.effect (.fontSprite x)) := by
  have hfit : Font.address (p.value x) = .ok ((p.value x).toUInt16 * 5) := by
    have hv := (p.value x).toNat_lt
    have h5 : (5 : UInt16).toNat = 5 := rfl
    refine fitWord_eq ?_
    rw [UInt16.toNat_mul, UInt8.toNat_toUInt16, h5, Font.spriteSize]
    omega
  simp only [fontSprite, bind_apply, register_apply hx, hfit, checked_ok, pure_apply, setIndex_apply,
    next_apply, effect]

/-- An access at the index register never leaves the range of addresses. -/
theorem index_add_lt (p : Processor) {length : Nat} (h : length ≤ UInt8.size) :
    p.i.toNat + length < UInt64.size := by
  have := p.i.toNat_lt
  simp only [UInt8.size, UInt64.size] at *
  omega

theorem storeDecimal_apply (hx : x < registerCount) (p : Processor) :
    storeDecimal x p = answer (p.refusal (.storeDecimal x)) p () (p.effect (.storeDecimal x)) := by
  have hd : checked (Decimal.ofByte (p.value x)) p =
      .ok ⟨p.value x / 100, p.value x % 100 / 10, p.value x % 10⟩ p := by
    rw [Decimal.ofByte_eq, checked_ok, pure_apply]
  have hlt (d : Decimal) : p.i.toNat + d.toList.length < UInt64.size :=
    p.index_add_lt (show 3 ≤ UInt8.size by decide)
  rw [storeDecimal, bind_ok (register_apply hx p), bind_ok hd, bind_ok (get_apply p)]
  exact bind_answer (write_apply (hlt _) p)

theorem length_registersThrough (hx : x < registerCount) (p : Processor) :
    (p.v.toList.take (x + 1)).length = x + 1 := by
  rw [List.length_take, Vector.length_toList]
  exact Nat.min_eq_left hx

theorem storeRegisters_apply (hx : x < registerCount) (p : Processor) :
    storeRegisters x p = answer (p.refusal (.storeRegisters x)) p () (p.effect (.storeRegisters x)) := by
  have hl := length_registersThrough hx p
  have hsize : (p.v.toList.take (x + 1)).length ≤ UInt8.size :=
    Nat.le_trans (Nat.le_of_eq hl) (Nat.le_trans hx (by decide))
  have hw := write_apply (p.index_add_lt hsize) p
  rw [hl] at hw
  rw [storeRegisters, bind_ok (registersThrough_apply hx p), bind_ok (get_apply p)]
  exact bind_answer hw

theorem setRegisters_apply (bytes : List UInt8) {x : Nat} (h : x + bytes.length ≤ registerCount)
    (p : Processor) : setRegisters x bytes p = .ok () (p.assignFrom x bytes) := by
  induction bytes generalizing x p with
  | nil => rfl
  | cons b rest ih =>
    simp only [List.length_cons] at h
    simp only [setRegisters, bind_apply, setRegister_apply (show x < registerCount by omega)]
    exact ih (by omega) (p.assign x b)

theorem loadRegisters_apply (hx : x < registerCount) (p : Processor) :
    loadRegisters x p = answer (p.refusal (.loadRegisters x)) p () (p.effect (.loadRegisters x)) := by
  have hr := read_apply (p.index_add_lt (Nat.le_trans hx (by decide))) p
  rw [loadRegisters, bind_ok (registersThrough_apply hx p), bind_ok (get_apply p), bind_answer hr]
  by_cases hm : p.i.toNat + (x + 1) ≤ memorySize
  · have hl := p.memory.length_bytesAt hm
    have hs := setRegisters_apply (p.memory.bytesAt p.i.toNat (x + 1)) (x := 0) (by rw [hl]; omega) p
    have ho : p.refusal (.loadRegisters x) = none := if_pos hm
    rw [bind_ok hs, ho, Memory.outside, if_pos hm]
    rfl
  · have ho : p.refusal (.loadRegisters x) = some (.outOfBounds (max p.i.toNat memorySize)) := if_neg hm
    rw [ho, Memory.outside, if_neg hm]
    rfl

end Processor

namespace Machine

variable {ρ κ γ : Type}

/-- The machine with its processor changed by `f`. -/
def onto (m : Machine ρ κ γ) (f : Processor → Processor) : Machine ρ κ γ :=
  { m with processor := f m.processor }

theorem onProcessor_ok {α : Type} {step : Processor.Step α} {m : Machine ρ κ γ} {a : α} {p : Processor}
    (h : step m.processor = .ok a p) : onProcessor step m = .ok a { m with processor := p } := by
  rw [onProcessor, h]

theorem onProcessor_answer {α : Type} {step : Processor.Step α} {m : Machine ρ κ γ} {a : α}
    {p : Processor} {refusal : Option Fault} (h : step m.processor = answer refusal m.processor a p) :
    onProcessor step m = answer refusal m a { m with processor := p } := by
  rw [onProcessor, h]
  cases refusal <;> rfl

theorem onScreenChecked_ok {α : Type} {change : Screen → Except Halt (α × Screen)} {m : Machine ρ κ γ}
    {r : α × Screen} (h : change m.screen = .ok r) :
    onScreenChecked change m = .ok r.1 { m with screen := r.2 } := by
  rw [onScreenChecked, h]

section Effect
variable [Keyboard κ]

/-- Why an instruction is refused. -/
def refusal (m : Machine ρ κ γ) : Instruction → Option Fault
  | .awaitKey _ => if (Keyboard.awaitPress m.keyboard).1 = none then some .inputClosed else none
  | i => m.processor.refusal i

/-- The machine after an instruction that was refused. -/
def refused (m : Machine ρ κ γ) : Instruction → Machine ρ κ γ
  | .awaitKey _ => { m with keyboard := (Keyboard.awaitPress m.keyboard).2 }
  | _ => m

theorem refusal_inputClosed {i : Instruction} {m : Machine ρ κ γ}
    (h : m.refusal i = some .inputClosed) :
    (∃ x, i = .awaitKey x) ∧ (Keyboard.awaitPress m.keyboard).1 = none := by
  cases i with
  | awaitKey x =>
    by_cases hn : (Keyboard.awaitPress m.keyboard).1 = none
    · exact ⟨⟨x, rfl⟩, hn⟩
    · cases (if_neg hn).symm.trans h
  | sys addr => cases h
  | ret | call | draw | storeDecimal | storeRegisters | loadRegisters =>
    change (ite _ _ _ : Option Fault) = _ at h
    split at h <;> cases h
  | _ => cases h

variable [Randomizer ρ]

/-- The machine after an instruction that succeeds. -/
def effect (m : Machine ρ κ γ) : Instruction → Machine ρ κ γ
  | .clear => { m with screen := m.screen.clear }.onto Processor.advance
  | .random x kk =>
    let (byte, randomizer) := Randomizer.nextByte m.randomizer
    { m with randomizer }.onto fun p => (p.assign x (byte &&& kk)).advance
  | .draw x y n =>
    let p := m.processor
    let (erased, screen) :=
      m.screen.draw (p.value x) (p.value y) (p.memory.bytesAt p.i.toNat n.toNat)
    { m with screen }.onto fun p => (p.assign flagRegister erased).advance
  | .skipKeyDown x =>
    let (down, keyboard) := Keyboard.isDown m.keyboard (m.processor.value x)
    { m with keyboard }.onto (·.skip down)
  | .skipKeyUp x =>
    let (down, keyboard) := Keyboard.isDown m.keyboard (m.processor.value x)
    { m with keyboard }.onto (·.skip !down)
  | .awaitKey x =>
    let (pressed, keyboard) := Keyboard.awaitPress m.keyboard
    { m with keyboard }.onto fun p => (p.assign x (pressed.getD 0)).advance
  | i => m.onto (·.effect i)

theorem effect_screen {i : Instruction} (h : i.draws = false) (m : Machine ρ κ γ) :
    (m.effect i).screen = m.screen := by
  cases i with
  | clear | draw => cases h
  | _ => rfl

theorem effect_dirty {i : Instruction} (h : i.draws = true) (m : Machine ρ κ γ) :
    (m.effect i).screen.dirty = true := by
  cases i with
  | clear | draw => rfl
  | _ => cases h

theorem draw_apply {x y : Nat} (hx : x < registerCount) (hy : y < registerCount) (n : UInt8)
    (m : Machine ρ κ γ) :
    draw x y n m = answer (m.refusal (.draw x y n)) m () (m.effect (.draw x y n)) := by
  have hlen : n.toNat ≤ UInt8.size := Nat.le_of_lt n.toNat_lt
  have hr : (do Processor.read (← get).i.toNat n.toNat : Processor.Step _) m.processor =
      answer (Memory.outside m.processor.i.toNat n.toNat) m.processor
        (m.processor.memory.bytesAt m.processor.i.toNat n.toNat) m.processor :=
    (bind_ok (get_apply m.processor)).trans
      (Processor.read_apply (m.processor.index_add_lt hlen) m.processor)
  rw [draw, bind_ok (onProcessor_ok (Processor.register_apply hx m.processor)),
    bind_ok (onProcessor_ok (Processor.register_apply hy m.processor)),
    bind_answer (onProcessor_answer hr)]
  have hflag : flagRegister < registerCount := by decide
  have hp := m.screen.paint_eq (m.processor.value x) (m.processor.value y)
    (m.processor.memory.length_bytesAt_le m.processor.i.toNat hlen)
  refine congrArg (Option.elim _ · _) ?_
  rw [bind_ok (onScreenChecked_ok hp)]
  exact onProcessor_ok (bind_ok (Processor.setRegister_apply hflag _ m.processor))

theorem random_apply {x : Nat} (hx : x < registerCount) (kk : UInt8) (m : Machine ρ κ γ) :
    execute (.random x kk) m = .ok () (m.effect (.random x kk)) := by
  have hn : (nextByte : Step ρ κ γ UInt8) m = .ok (Randomizer.nextByte m.randomizer).1
      { m with randomizer := (Randomizer.nextByte m.randomizer).2 } := rfl
  rw [execute, bind_ok (onProcessor_ok (Processor.register_apply hx m.processor)), bind_ok hn]
  exact onProcessor_ok (bind_ok (Processor.setRegister_apply hx _ m.processor))

theorem skipKeyDown_apply {x : Nat} (hx : x < registerCount) (m : Machine ρ κ γ) :
    execute (.skipKeyDown x) m = .ok () (m.effect (.skipKeyDown x)) := by
  rw [execute, bind_ok (onProcessor_ok (Processor.register_apply hx m.processor))]
  rfl

theorem skipKeyUp_apply {x : Nat} (hx : x < registerCount) (m : Machine ρ κ γ) :
    execute (.skipKeyUp x) m = .ok () (m.effect (.skipKeyUp x)) := by
  rw [execute, bind_ok (onProcessor_ok (Processor.register_apply hx m.processor))]
  rfl

theorem awaitKey_apply {x : Nat} (hx : x < registerCount) (m : Machine ρ κ γ) :
    execute (.awaitKey x) m =
      answer (m.refusal (.awaitKey x)) (m.refused (.awaitKey x)) () (m.effect (.awaitKey x)) := by
  cases h : Keyboard.awaitPress m.keyboard with | mk pressed keyboard
  have hw : (awaitPress : Step ρ κ γ UInt8) m = answer (m.refusal (.awaitKey x)) { m with keyboard }
      (pressed.getD 0) { m with keyboard } := by
    simp only [awaitPress, bind_apply, modifyGet_apply, refusal, h]
    cases pressed <;> rfl
  rw [execute, bind_answer hw, refused, effect, h]
  refine congrArg (Option.elim _ · _) ?_
  exact onProcessor_ok (bind_ok (Processor.setRegister_apply hx _ m.processor))

/-- An instruction with operands in range is refused, or has its effect. Only a return needs the stack
to be in order. -/
theorem execute_apply {i : Instruction} (hi : i.InRange) {m : Machine ρ κ γ}
    (hd : i = .ret → m.processor.stack.depth.toNat ≤ stackDepth) :
    execute i m = answer (m.refusal i) (m.refused i) () (m.effect i) := by
  cases i with
  | sys addr => rfl
  | clear => rfl
  | ret => exact onProcessor_answer (Processor.ret_apply (hd rfl))
  | jump addr => rfl
  | call addr => exact onProcessor_answer (Processor.call_apply addr m.processor)
  | skipEqual x kk => exact onProcessor_ok (bind_ok (Processor.register_apply hi m.processor))
  | skipUnequal x kk => exact onProcessor_ok (bind_ok (Processor.register_apply hi m.processor))
  | skipSame x y => exact onProcessor_ok (Processor.skipComparing_apply hi.1 hi.2 _ m.processor)
  | load x kk => exact onProcessor_ok (bind_ok (Processor.setRegister_apply hi kk m.processor))
  | addByte x kk => exact onProcessor_ok (Processor.addByte_apply hi kk m.processor)
  | copy x y => exact onProcessor_ok (Processor.combine_apply hi.1 hi.2 _ m.processor)
  | or x y => exact onProcessor_ok (Processor.combine_apply hi.1 hi.2 _ m.processor)
  | and x y => exact onProcessor_ok (Processor.combine_apply hi.1 hi.2 _ m.processor)
  | xor x y => exact onProcessor_ok (Processor.combine_apply hi.1 hi.2 _ m.processor)
  | add x y => exact onProcessor_ok (Processor.combineWithFlag_apply hi.1 hi.2 _ _ m.processor)
  | sub x y => exact onProcessor_ok (Processor.combineWithFlag_apply hi.1 hi.2 _ _ m.processor)
  | shiftRight x => exact onProcessor_ok (Processor.changeWithFlag_apply hi _ _ m.processor)
  | subFrom x y => exact onProcessor_ok (Processor.combineWithFlag_apply hi.1 hi.2 _ _ m.processor)
  | shiftLeft x => exact onProcessor_ok (Processor.changeWithFlag_apply hi _ _ m.processor)
  | skipDifferent x y => exact onProcessor_ok (Processor.skipComparing_apply hi.1 hi.2 _ m.processor)
  | setIndex addr => rfl
  | jumpOffset addr => exact onProcessor_ok (Processor.jumpOffset_apply addr m.processor)
  | random x kk => exact random_apply hi kk m
  | draw x y n => exact draw_apply hi.1 hi.2.1 n m
  | skipKeyDown x => exact skipKeyDown_apply hi m
  | skipKeyUp x => exact skipKeyUp_apply hi m
  | readDelay x => exact onProcessor_ok (Processor.readDelay_apply hi m.processor)
  | awaitKey x => exact awaitKey_apply hi m
  | setDelay x => exact onProcessor_ok (bind_ok (Processor.register_apply hi m.processor))
  | setSound x => exact onProcessor_ok (bind_ok (Processor.register_apply hi m.processor))
  | addIndex x => exact onProcessor_ok (Processor.addIndex_apply hi m.processor)
  | fontSprite x => exact onProcessor_ok (Processor.fontSprite_apply hi m.processor)
  | storeDecimal x => exact onProcessor_answer (Processor.storeDecimal_apply hi m.processor)
  | storeRegisters x => exact onProcessor_answer (Processor.storeRegisters_apply hi m.processor)
  | loadRegisters x => exact onProcessor_answer (Processor.loadRegisters_apply hi m.processor)

theorem execute_eq {i : Instruction} (hi : i.InRange) {m : Machine ρ κ γ}
    (hd : m.processor.stack.depth.toNat ≤ stackDepth) :
    execute i m = answer (m.refusal i) (m.refused i) () (m.effect i) :=
  execute_apply hi fun _ => hd

/-- An instruction that is not refused has its effect. A return is left out, as it needs a stack in order. -/
theorem execute_accepted {i : Instruction} (hi : i.InRange) (hret : i ≠ .ret) {m : Machine ρ κ γ}
    (h : m.refusal i = none) : execute i m = .ok () (m.effect i) := by
  rw [execute_apply hi fun he => absurd he hret, h]
  rfl

end Effect

end Machine

end ChipEight
