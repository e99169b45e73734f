import ChipEight.Proofs.Decoding
import Mathlib.Data.List.Forall2
import Mathlib.Data.List.Infix
import Mathlib.Data.List.Nodup
import Mathlib.Data.List.Pairwise

/-! The formats of instruction words, digit by digit. A word decodes exactly if it fits a format, the
instruction's operands are the digits that its format leaves open, and the order of the table is of no
account as long as calls of machine code come behind the two words that are told from them. -/
namespace ChipEight

/-- The four digits of a word, the highest first. -/
def digits (w : UInt16) : List Nat :=
  [w.toNat / 0x1000, w.toNat / 0x100 % 0x10, w.toNat / 0x10 % 0x10, w.toNat % 0x10]

theorem digits_injective : Function.Injective digits := by
  intro v w h
  simp only [digits, List.cons.injEq] at h
  exact UInt16.toNat_inj.1 (by omega)

theorem lt_of_mem_digits {w : UInt16} {d : Nat} (h : d ∈ digits w) : d < 16 := by
  have hw := w.toNat_lt
  simp only [digits, List.mem_cons, List.not_mem_nil, or_false] at h
  omega

/-- A mask takes a word digit by digit. -/
theorem digits_and (v w : UInt16) : digits (v &&& w) = List.zipWith (· &&& ·) (digits v) (digits w) := by
  have hdigit (a b k : Nat) : (a &&& b) / 2 ^ k % 2 ^ 4 = (a / 2 ^ k % 2 ^ 4) &&& (b / 2 ^ k % 2 ^ 4) := by
    rw [Nat.and_div_two_pow, Nat.and_mod_two_pow]
  simp only [digits, UInt16.toNat_and, List.zipWith_cons_cons, List.zipWith_nil_left, List.cons.injEq]
  exact ⟨Nat.and_div_two_pow (n := 12), hdigit _ _ 8, hdigit _ _ 4, Nat.and_mod_two_pow (n := 4), trivial⟩

/-- One digit of a format. -/
inductive Place
  /-- The digit that all words of the format have there. -/
  | fixed (digit : Nat)
  /-- A digit of an operand. -/
  | operand
  deriving DecidableEq

def Place.Admits : Place → Nat → Prop
  | .fixed digit, d => d = digit
  | .operand, _ => True

abbrev Format := List Place

namespace Format

instance (digit : Nat) : OfNat Place digit := ⟨.fixed digit⟩

/-! The digits of operands, as they are commonly written. -/

/-- The first register. -/
abbrev x : Place := .operand
/-- The second register. -/
abbrev y : Place := .operand
/-- A digit of an address, or a number of rows. -/
abbrev n : Place := .operand
/-- A digit of a byte. -/
abbrev k : Place := .operand

/-- Whether a word has the fixed digits of a format. -/
def Fits (f : Format) (w : UInt16) : Prop := List.Forall₂ Place.Admits f (digits w)

end Format

namespace Instruction
open Format (x y n k)

def format : Instruction → Format
  | .sys _ => [0x0, n, n, n]
  | .clear => [0x0, 0x0, 0xE, 0x0]
  | .ret => [0x0, 0x0, 0xE, 0xE]
  | .jump _ => [0x1, n, n, n]
  | .call _ => [0x2, n, n, n]
  | .skipEqual .. => [0x3, x, k, k]
  | .skipUnequal .. => [0x4, x, k, k]
  | .skipSame .. => [0x5, x, y, 0x0]
  | .load .. => [0x6, x, k, k]
  | .addByte .. => [0x7, x, k, k]
  | .copy .. => [0x8, x, y, 0x0]
  | .or .. => [0x8, x, y, 0x1]
  | .and .. => [0x8, x, y, 0x2]
  | .xor .. => [0x8, x, y, 0x3]
  | .add .. => [0x8, x, y, 0x4]
  | .sub .. => [0x8, x, y, 0x5]
  | .shiftRight _ => [0x8, x, y, 0x6]
  | .subFrom .. => [0x8, x, y, 0x7]
  | .shiftLeft _ => [0x8, x, y, 0xE]
  | .skipDifferent .. => [0x9, x, y, 0x0]
  | .setIndex _ => [0xA, n, n, n]
  | .jumpOffset _ => [0xB, n, n, n]
  | .random .. => [0xC, x, k, k]
  | .draw .. => [0xD, x, y, n]
  | .skipKeyDown _ => [0xE, x, 0x9, 0xE]
  | .skipKeyUp _ => [0xE, x, 0xA, 0x1]
  | .readDelay _ => [0xF, x, 0x0, 0x7]
  | .awaitKey _ => [0xF, x, 0x0, 0xA]
  | .setDelay _ => [0xF, x, 0x1, 0x5]
  | .setSound _ => [0xF, x, 0x1, 0x8]
  | .addIndex _ => [0xF, x, 0x1, 0xE]
  | .fontSprite _ => [0xF, x, 0x2, 0x9]
  | .storeDecimal _ => [0xF, x, 0x3, 0x3]
  | .storeRegisters _ => [0xF, x, 0x5, 0x5]
  | .loadRegisters _ => [0xF, x, 0x6, 0x5]

/-- The entry of the table that reads an instruction. -/
def pattern : Instruction → Pattern
  | .sys _ => .address 0x0000 .sys
  | .clear => .fixed 0x00E0 .clear
  | .ret => .fixed 0x00EE .ret
  | .jump _ => .address 0x1000 .jump
  | .call _ => .address 0x2000 .call
  | .skipEqual .. => .registerByte 0x3000 .skipEqual
  | .skipUnequal .. => .registerByte 0x4000 .skipUnequal
  | .skipSame .. => .registers 0x5000 .skipSame
  | .load .. => .registerByte 0x6000 .load
  | .addByte .. => .registerByte 0x7000 .addByte
  | .copy .. => .registers 0x8000 .copy
  | .or .. => .registers 0x8001 .or
  | .and .. => .registers 0x8002 .and
  | .xor .. => .registers 0x8003 .xor
  | .add .. => .registers 0x8004 .add
  | .sub .. => .registers 0x8005 .sub
  | .shiftRight _ => .shifted 0x8006 .shiftRight
  | .subFrom .. => .registers 0x8007 .subFrom
  | .shiftLeft _ => .shifted 0x800E .shiftLeft
  | .skipDifferent .. => .registers 0x9000 .skipDifferent
  | .setIndex _ => .address 0xA000 .setIndex
  | .jumpOffset _ => .address 0xB000 .jumpOffset
  | .random .. => .registerByte 0xC000 .random
  | .draw .. => ⟨0xF000, 0xD000, fun w => .draw (Pattern.x w) (Pattern.y w) (Pattern.n w)⟩
  | .skipKeyDown _ => .register 0xE09E .skipKeyDown
  | .skipKeyUp _ => .register 0xE0A1 .skipKeyUp
  | .readDelay _ => .register 0xF007 .readDelay
  | .awaitKey _ => .register 0xF00A .awaitKey
  | .setDelay _ => .register 0xF015 .setDelay
  | .setSound _ => .register 0xF018 .setSound
  | .addIndex _ => .register 0xF01E .addIndex
  | .fontSprite _ => .register 0xF029 .fontSprite
  | .storeDecimal _ => .register 0xF033 .storeDecimal
  | .storeRegisters _ => .register 0xF055 .storeRegisters
  | .loadRegisters _ => .register 0xF065 .loadRegisters

end Instruction

namespace Place

/-- The place of a digit of a mask, with the bits that a word has to have there. -/
def ofMask : (mask bits : Nat) → Place
  | 0, _ => .operand
  | _ + 1, bits => .fixed bits

/-- A mask that keeps the digit, or passes over it. -/
def Whole (mask bits : Nat) : Prop := mask = 15 ∨ mask = 0 ∧ bits = 0

instance (mask bits : Nat) : Decidable (Whole mask bits) := inferInstanceAs (Decidable (_ ∨ _))

theorem and_eq_iff {d mask bits : Nat} (hd : d < 16) (h : Whole mask bits) :
    d &&& mask = bits ↔ (ofMask mask bits).Admits d := by
  rcases h with rfl | ⟨rfl, rfl⟩
  · have hand := Nat.and_two_pow_sub_one_eq_mod d 4
    rw [Nat.mod_eq_of_lt hd] at hand
    rw [hand]
    rfl
  · rw [Nat.and_zero]
    exact iff_of_true rfl trivial

theorem zipWith_and_eq_iff {ds masks bits : List Nat} (h : List.Forall₂ Whole masks bits)
    (hd : ∀ d ∈ ds, d < 16) (hl : ds.length = masks.length) :
    List.zipWith (· &&& ·) ds masks = bits ↔ List.Forall₂ Admits (List.zipWith ofMask masks bits) ds := by
  induction h generalizing ds with
  | nil =>
    rw [List.length_nil, List.length_eq_zero_iff] at hl
    subst hl
    simp
  | cons hw h ih =>
    obtain ⟨d, rest, rfl⟩ := List.exists_of_length_succ _ hl
    have hrest := ih (fun d h => hd d (List.mem_cons_of_mem _ h)) (Nat.succ.inj hl)
    rw [List.zipWith_cons_cons, List.zipWith_cons_cons, List.cons.injEq, List.forall₂_cons, hrest]
    exact and_congr_left' (and_eq_iff (hd d List.mem_cons_self) hw)

end Place

namespace Pattern

def format (p : Pattern) : Format := List.zipWith Place.ofMask (digits p.mask) (digits p.bits)

/-- A word matches an entry of the table exactly if it fits the entry's format. -/
theorem isMatch_iff_fits {p : Pattern} (hp : p ∈ table) (w : UInt16) :
    p.isMatch w = true ↔ p.format.Fits w := by
  have htable : ∀ p ∈ table, List.Forall₂ Place.Whole (digits p.mask) (digits p.bits) := by decide
  have hmatch : p.isMatch w = true ↔
      List.zipWith (· &&& ·) (digits w) (digits p.mask) = digits p.bits := by
    rw [isMatch, beq_iff_eq, ← digits_and]
    exact digits_injective.eq_iff.symm
  exact hmatch.trans (Place.zipWith_and_eq_iff (htable p hp) (fun d => lt_of_mem_digits) rfl)

/-- Calls of machine code, which come last. -/
def machineCode : Pattern := address 0x0000 .sys

end Pattern

namespace Instruction
open Pattern (x_eq y_eq toNat_n toNat_kk toNat_addr)

section Words
variable {a b c d r : Nat} {addr : UInt16}

/-! The digits of a word that is put together, and the operands that are read off it. -/

theorem toNat_word (ha : a < 16) (hb : b < 16) (hc : c < 16) (hd : d < 16) :
    (word a b c d).toNat = ((a * 16 + b) * 16 + c) * 16 + d := by
  rw [word, UInt16.toNat_ofNat']
  omega

theorem toNat_withByte (ha : a < 16) (hr : r < 16) (kk : UInt8) :
    (withByte a r kk).toNat = (a * 16 + r) * 256 + kk.toNat := by
  have hk := kk.toNat_lt
  rw [withByte, UInt16.toNat_ofNat']
  omega

theorem toNat_withAddress (ha : a < 16) (h : addr < 0x1000) :
    (withAddress a addr).toNat = a * 4096 + addr.toNat := by
  have hlt : addr.toNat < 0x1000 := UInt16.lt_iff_toNat_lt.1 h
  rw [withAddress, UInt16.toNat_ofNat']
  omega

theorem digits_word (ha : a < 16) (hb : b < 16) (hc : c < 16) (hd : d < 16) :
    digits (word a b c d) = [a, b, c, d] := by
  simp only [digits, toNat_word ha hb hc hd, List.cons.injEq, and_true]
  omega

theorem digits_withByte (ha : a < 16) (hr : r < 16) (kk : UInt8) :
    digits (withByte a r kk) = [a, r, kk.toNat / 16, kk.toNat % 16] := by
  have hk := kk.toNat_lt
  simp only [digits, toNat_withByte ha hr kk, List.cons.injEq, and_true]
  omega

theorem digits_withAddress (ha : a < 16) (h : addr < 0x1000) :
    digits (withAddress a addr) =
      [a, addr.toNat / 256, addr.toNat / 16 % 16, addr.toNat % 16] := by
  have hlt : addr.toNat < 0x1000 := UInt16.lt_iff_toNat_lt.1 h
  simp only [digits, toNat_withAddress ha h, List.cons.injEq, and_true]
  omega

theorem x_word (ha : a < 16) (hb : b < 16) (hc : c < 16) (hd : d < 16) :
    Pattern.x (word a b c d) = b := by
  rw [x_eq, toNat_word ha hb hc hd]
  omega

theorem y_word (ha : a < 16) (hb : b < 16) (hc : c < 16) (hd : d < 16) :
    Pattern.y (word a b c d) = c := by
  rw [y_eq, toNat_word ha hb hc hd]
  omega

theorem n_word (ha : a < 16) (hb : b < 16) (hc : c < 16) {rows : UInt8} (hn : rows < 16) :
    Pattern.n (word a b c rows.toNat) = rows := by
  have hlt : rows.toNat < 16 := UInt8.lt_iff_toNat_lt.1 hn
  apply UInt8.toNat_inj.1
  rw [toNat_n, toNat_word ha hb hc hlt]
  omega

theorem x_withByte (ha : a < 16) (hr : r < 16) (kk : UInt8) : Pattern.x (withByte a r kk) = r := by
  have hk := kk.toNat_lt
  rw [x_eq, toNat_withByte ha hr kk]
  omega

theorem kk_withByte (ha : a < 16) (hr : r < 16) (kk : UInt8) : Pattern.kk (withByte a r kk) = kk := by
  have hk := kk.toNat_lt
  apply UInt8.toNat_inj.1
  rw [toNat_kk, toNat_withByte ha hr kk]
  omega

theorem addr_withAddress (ha : a < 16) (h : addr < 0x1000) :
    Pattern.addr (withAddress a addr) = addr := by
  have hlt : addr.toNat < 0x1000 := UInt16.lt_iff_toNat_lt.1 h
  apply UInt16.toNat_inj.1
  rw [toNat_addr, toNat_withAddress ha h]
  omega

end Words

variable {i : Instruction}

theorem pattern_mem (i : Instruction) : i.pattern ∈ Pattern.table := by
  cases i <;> simp [pattern, Pattern.table]

theorem format_pattern (i : Instruction) : i.pattern.format = i.format := by
  cases i <;> (simp only [pattern, format]; rfl)

/-- An instruction's word has the fixed digits of its format. -/
theorem fits_encode (hi : i.InRange) : i.format.Fits i.encode := by
  cases i with
  | clear | ret => simp [Format.Fits, format, encode, digits, Place.Admits]
  | sys addr | jump addr | call addr | setIndex addr | jumpOffset addr =>
    have ha : addr < 0x1000 := hi
    simp [Format.Fits, format, encode, digits_withAddress, ha, Place.Admits]
  | draw x y n =>
    have hn : n.toNat < 16 := UInt8.lt_iff_toNat_lt.1 hi.2.2
    simp [Format.Fits, format, encode, digits_word, hi.1, hi.2.1, hn, Place.Admits]
  | skipSame x y | copy x y | or x y | and x y | xor x y | add x y | sub x y | subFrom x y
  | skipDifferent x y =>
    simp [Format.Fits, format, encode, digits_word, hi.1, hi.2, Place.Admits]
  | shiftRight x | shiftLeft x =>
    have hx : x < 16 := hi
    simp [Format.Fits, format, encode, digits_word, hx, Place.Admits]
  | _ =>
    have hx := hi
    simp only [InRange] at hx
    simp [Format.Fits, format, encode, digits_withByte, hx, Place.Admits]

/-- The entry of the table that reads an instruction finds its operands in its word. -/
theorem build_encode (hi : i.InRange) : i.pattern.build i.encode = i := by
  cases i with
  | clear | ret => rfl
  | sys addr | jump addr | call addr | setIndex addr | jumpOffset addr =>
    have ha : addr < 0x1000 := hi
    simp [pattern, Pattern.address, encode, addr_withAddress, ha]
  | draw x y n =>
    have hn : n.toNat < 16 := UInt8.lt_iff_toNat_lt.1 hi.2.2
    simp [pattern, encode, x_word, y_word, n_word, hi.1, hi.2.1, hi.2.2, hn]
  | skipSame x y | copy x y | or x y | and x y | xor x y | add x y | sub x y | subFrom x y
  | skipDifferent x y =>
    simp [pattern, Pattern.registers, encode, x_word, y_word, hi.1, hi.2]
  | shiftRight x | shiftLeft x =>
    have hx : x < 16 := hi
    simp [pattern, Pattern.shifted, encode, x_word, hx]
  | skipEqual x kk | skipUnequal x kk | load x kk | addByte x kk | random x kk =>
    have hx : x < 16 := hi
    simp [pattern, Pattern.registerByte, encode, x_withByte, kk_withByte, hx]
  | _ =>
    have hx := hi
    simp only [InRange] at hx
    simp [pattern, Pattern.register, encode, x_withByte, hx]

end Instruction

namespace Format

/-- Two formats with different fixed digits in one place. -/
def clash (f g : Format) : Bool :=
  (f.zip g).any fun
    | (.fixed a, .fixed b) => a != b
    | _ => false

theorem not_fits_of_clash {f g : Format} {w : UInt16} (h : f.clash g) (hf : f.Fits w) : ¬ g.Fits w := by
  intro hg
  unfold Fits at hf hg
  generalize digits w = ds at hf hg
  induction hf generalizing g with
  | nil => simp [clash] at h
  | @cons p d f ds hp hf ih =>
    cases hg with
    | @cons q _ g _ hq hg =>
      rcases Bool.or_eq_true_iff.1 h with hpq | hrest
      · cases p with
        | operand => cases hpq
        | fixed a =>
          cases q with
          | operand => cases hpq
          | fixed b =>
            have hab : a = b := hp.symm.trans hq
            simp [hab] at hpq
      · exact ih hrest hg

end Format

namespace Pattern

variable {p q : Pattern} {w : UInt16}

theorem eq_of_fixed_isMatch {bits : UInt16} {i : Instruction} (h : (fixed bits i).isMatch w = true) :
    w = bits := by
  have hall : w &&& 0xFFFF = w := by
    apply UInt16.toNat_inj.1
    rw [UInt16.toNat_and]
    exact (Nat.and_two_pow_sub_one_eq_mod w.toNat 16).trans (Nat.mod_eq_of_lt w.toNat_lt)
  exact hall.symm.trans (beq_iff_eq.1 h)

/-- No word matches two entries before calls of machine code. -/
theorem eq_of_isMatch (hp : p ∈ table.dropLast) (hq : q ∈ table.dropLast) (hpw : p.isMatch w = true)
    (hqw : q.isMatch w = true) : p = q := by
  have hclash : table.dropLast.Pairwise fun p q => p.format.clash q.format = true := by decide
  have hpairs := hclash.imp fun h (w : UInt16) => Format.not_fits_of_clash (w := w) h
  have : Std.Symm fun p q : Pattern => ∀ w, p.format.Fits w → ¬ q.format.Fits w :=
    ⟨fun p q h w hq hp => h w hp hq⟩
  by_contra hne
  exact hpairs.forall hp hq hne w
    ((isMatch_iff_fits (List.mem_of_mem_dropLast hp) w).1 hpw)
    ((isMatch_iff_fits (List.mem_of_mem_dropLast hq) w).1 hqw)

/-- Only the two fixed words also look like calls of machine code. -/
theorem fixed_of_machineCode (hp : p ∈ table.dropLast) (hpw : p.isMatch w = true)
    (hw : machineCode.isMatch w = true) : w = 0x00E0 ∨ w = 0x00EE := by
  have hclash : ∀ p ∈ table.dropLast.drop 2, p.format.clash machineCode.format = true := by decide
  have hmem : machineCode ∈ table := List.mem_of_mem_getLast? (by rfl)
  have hsplit : table.dropLast = fixed 0x00E0 .clear :: fixed 0x00EE .ret :: table.dropLast.drop 2 := rfl
  rw [hsplit, List.mem_cons, List.mem_cons] at hp
  obtain rfl | rfl | hrest := hp
  · exact .inl (eq_of_fixed_isMatch hpw)
  · exact .inr (eq_of_fixed_isMatch hpw)
  · have hptable : p ∈ table := List.mem_of_mem_dropLast (List.mem_of_mem_drop hrest)
    exact absurd ((isMatch_iff_fits hmem w).1 hw)
      (Format.not_fits_of_clash (hclash p hrest) ((isMatch_iff_fits hptable w).1 hpw))

theorem mem_table : p ∈ table ↔ p ∈ table.dropLast ∨ p = machineCode := by
  have hsplit : table = table.dropLast ++ [machineCode] := rfl
  rw [hsplit, List.mem_append, List.mem_singleton]
  rfl

/-- Two entries that a word matches are one, or one of them is that of machine code and the word is one
of the two fixed ones. -/
theorem eq_or_machineCode (hp : p ∈ table) (hq : q ∈ table) (hpw : p.isMatch w = true)
    (hqw : q.isMatch w = true) :
    p = q ∨ (p = machineCode ∨ q = machineCode) ∧ (w = 0x00E0 ∨ w = 0x00EE) := by
  rcases mem_table.1 hp with hp | rfl <;> rcases mem_table.1 hq with hq | rfl
  · exact .inl (eq_of_isMatch hp hq hpw hqw)
  · exact .inr ⟨.inr rfl, fixed_of_machineCode hp hpw hqw⟩
  · exact .inr ⟨.inl rfl, fixed_of_machineCode hq hqw hpw⟩
  · exact .inl rfl

theorem nodup_table : table.Nodup := by
  have hbits : (table.map (·.bits)).Nodup := by decide
  exact hbits.of_map _

/-- Every other word matches one entry at most. -/
theorem length_filter_le (hclear : w ≠ 0x00E0) (hret : w ≠ 0x00EE) :
    (table.filter (·.isMatch w)).length ≤ 1 := by
  have hnodup : (table.filter (·.isMatch w)).Nodup := nodup_table.filter _
  have hone : ∀ p ∈ table.filter (·.isMatch w), ∀ q ∈ table.filter (·.isMatch w), p = q := by
    intro p hp q hq
    rw [List.mem_filter] at hp hq
    obtain h | ⟨-, h⟩ := eq_or_machineCode hp.1 hq.1 hp.2 hq.2
    · exact h
    · exact absurd h (not_or.2 ⟨hclear, hret⟩)
  generalize table.filter (·.isMatch w) = found at *
  match found with
  | [] => exact Nat.zero_le 1
  | [_] => exact Nat.le_refl 1
  | p :: q :: rest =>
    have hpq : p = q := hone p (by simp) q (by simp)
    simp [hpq] at hnodup

/-- An order of the table in which calls of machine code come behind the two fixed words. -/
structure Reordered (patterns : List Pattern) : Prop where
  perm : patterns.Perm table
  clear_first : [fixed 0x00E0 .clear, machineCode].Sublist patterns
  ret_first : [fixed 0x00EE .ret, machineCode].Sublist patterns

theorem table_reordered : Reordered table := by
  have hlast : [machineCode].Sublist (table.drop 2) := List.singleton_sublist.2 (List.mem_of_mem_getLast? (by rfl))
  exact ⟨.refl _, .cons_cons _ (.cons _ hlast), .cons _ (.cons_cons _ hlast)⟩

/-- What comes before an entry somewhere in a list stands before each mention of it. -/
theorem mem_of_sublist_append {before after : List Pattern} (hn : (before ++ q :: after).Nodup)
    (hs : [p, q].Sublist (before ++ q :: after)) : p ∈ before := by
  obtain ⟨front, back, hsplit, hp, hq⟩ := List.cons_sublist_iff.1 hs
  have hq : q ∈ back := List.singleton_sublist.1 hq
  rcases List.append_eq_append_iff.1 hsplit with ⟨rest, rfl, hrest⟩ | ⟨rest, rfl, -⟩
  · cases rest with
    | nil => simpa using hp
    | cons r rest =>
      obtain ⟨rfl, rfl⟩ := List.cons.inj hrest
      have hafter : q ∉ rest ++ back := (List.nodup_cons.1 (List.nodup_append.1 hn).2.1).1
      exact absurd (List.mem_append_right rest hq) hafter
  · exact List.mem_append_left rest hp

/-- The entry that is found is the one that the word matches, other than that of machine code for the
two fixed words. -/
theorem Reordered.find?_eq_some_iff {patterns : List Pattern} (h : Reordered patterns) :
    patterns.find? (·.isMatch w) = some p ↔
      p ∈ table ∧ p.isMatch w = true ∧ (p = machineCode → w ≠ 0x00E0 ∧ w ≠ 0x00EE) := by
  have hfound {p : Pattern} (hp : patterns.find? (·.isMatch w) = some p) :
      p ∈ table ∧ p.isMatch w = true ∧ (p = machineCode → w ≠ 0x00E0 ∧ w ≠ 0x00EE) := by
    have hpw : p.isMatch w = true := by simpa using List.find?_some hp
    refine ⟨h.perm.mem_iff.1 (List.mem_of_find?_eq_some hp), hpw, ?_⟩
    rintro rfl
    obtain ⟨-, before, after, hsplit, hbefore⟩ := List.find?_eq_some_iff_append.1 hp
    have hn := h.perm.nodup_iff.2 nodup_table
    have hclear := h.clear_first
    have hret := h.ret_first
    rw [hsplit] at hn hclear hret
    constructor
    · rintro rfl
      exact absurd (hbefore _ (mem_of_sublist_append hn hclear)) (by decide)
    · rintro rfl
      exact absurd (hbefore _ (mem_of_sublist_append hn hret)) (by decide)
  constructor
  · exact hfound
  · rintro ⟨hp, hpw, hfirst⟩
    cases hq : patterns.find? (·.isMatch w) with
    | none => exact absurd hpw (List.find?_eq_none.1 hq p (h.perm.mem_iff.2 hp))
    | some q =>
      obtain ⟨hqt, hqw, hqfirst⟩ := hfound hq
      obtain rfl | ⟨hsys, hw⟩ := eq_or_machineCode hp hqt hpw hqw
      · rfl
      · have hother : w ≠ 0x00E0 ∧ w ≠ 0x00EE := hsys.elim hfirst hqfirst
        exact absurd hw (not_or.2 hother)

theorem Reordered.decodeWith_eq {patterns : List Pattern} (h : Reordered patterns) (w : UInt16) :
    decodeWith patterns w = Instruction.decode w := by
  have hfind : patterns.find? (·.isMatch w) = table.find? (·.isMatch w) :=
    Option.ext fun p => h.find?_eq_some_iff.trans table_reordered.find?_eq_some_iff.symm
  rw [decodeWith, hfind]
  rfl

end Pattern

namespace Instruction

variable {i : Instruction} {w : UInt16}

theorem pattern_build : ∀ p ∈ Pattern.table, (p.build w).pattern = p := by
  simp only [Pattern.table, List.forall_mem_cons, List.not_mem_nil, false_imp_iff, implies_true, and_true]
  repeat' apply And.intro
  all_goals rfl

/-- The instruction that is written is the one that is read. -/
theorem decode_encode (hi : i.InRange) (hclear : i ≠ .sys 0x0E0) (hret : i ≠ .sys 0x0EE) :
    decode i.encode = some i := by
  have hmatch : i.pattern.isMatch i.encode = true := by
    rw [Pattern.isMatch_iff_fits (pattern_mem i), format_pattern]
    exact fits_encode hi
  have hfirst (hp : i.pattern = Pattern.machineCode) : i.encode ≠ 0x00E0 ∧ i.encode ≠ 0x00EE := by
    have hsys : .sys (Pattern.addr i.encode) = i := by
      have hb := build_encode hi
      rw [hp] at hb
      exact hb
    constructor
    · intro he
      rw [he] at hsys
      exact hclear hsys.symm
    · intro he
      rw [he] at hsys
      exact hret hsys.symm
  have hfind := Pattern.table_reordered.find?_eq_some_iff.2 ⟨pattern_mem i, hmatch, hfirst⟩
  rw [decode, Pattern.decodeWith, hfind, Option.map_some, build_encode hi]

/-- Shifts, whose words have a digit that is not looked at. -/
def isShift : Instruction → Bool
  | .shiftRight _ | .shiftLeft _ => true
  | _ => false

theorem looksAt_eq (i : Instruction) (w : UInt16) :
    i.looksAt w = if i.isShift then w.toNat - w.toNat / 16 % 16 * 16 else w.toNat := by
  cases i <;> rfl

/-- All digits but the third. -/
theorem and_outer_digits (w : UInt16) : w.toNat &&& 0xFF0F = w.toNat - w.toNat / 16 % 16 * 16 := by
  have hw := w.toNat_lt
  have hupper : w.toNat &&& 0xFF00 = w.toNat / 2 ^ 8 % 2 ^ 8 * 2 ^ 8 := and_field w.toNat 8 8
  have hlower : w.toNat &&& 0x000F = w.toNat % 2 ^ 4 := Nat.and_two_pow_sub_one_eq_mod w.toNat 4
  have hor := Nat.two_pow_add_eq_or_of_lt (i := 8) (b := w.toNat % 2 ^ 4) (by omega)
    (w.toNat / 2 ^ 8 % 2 ^ 8)
  calc w.toNat &&& 0xFF0F = (w.toNat &&& 0xFF00) ||| (w.toNat &&& 0x000F) :=
        Nat.and_or_distrib_left w.toNat 0xFF00 0x000F
    _ = 2 ^ 8 * (w.toNat / 2 ^ 8 % 2 ^ 8) + w.toNat % 2 ^ 4 := by
        rw [hupper, hlower, Nat.mul_comm, hor]
    _ = w.toNat - w.toNat / 16 % 16 * 16 := by omega

/-- An instruction that is read has the word it is read from, but for the digit that shifts pass over. -/
theorem encode_of_decode (h : decode w = some i) :
    i.encode = if i.isShift then w &&& 0xFF0F else w := by
  have he := (readFrom_of_decode h).toNat_encode
  rw [looksAt_eq] at he
  apply UInt16.toNat_inj.1
  rw [he]
  split
  · exact (and_outer_digits w).symm
  · rfl

/-- A word is no instruction exactly if it fits no format. -/
theorem decode_eq_none_iff : decode w = none ↔ ∀ i : Instruction, ¬ i.format.Fits w := by
  have hfind : decode w = none ↔ ∀ p ∈ Pattern.table, ¬ p.isMatch w = true := by
    rw [decode, Pattern.decodeWith, Option.map_eq_none_iff, List.find?_eq_none]
  rw [hfind]
  constructor
  · intro h i hf
    rw [← format_pattern, ← Pattern.isMatch_iff_fits (pattern_mem i)] at hf
    exact h _ (pattern_mem i) hf
  · intro h p hp hw
    rw [Pattern.isMatch_iff_fits hp, ← pattern_build (w := w) p hp, format_pattern] at hw
    exact h _ hw

/-- Decoding reads exactly the words that fit a format, writing and reading an instruction are inverse
to each other but for the digit that shifts pass over, and the table may be put in any order that keeps
calls of machine code behind the two words that are told from them. -/
theorem decoding_is_the_format :
    (∀ i : Instruction, i.InRange → i.format.Fits i.encode) ∧
      (∀ i : Instruction, i.InRange → i ≠ .sys 0x0E0 → i ≠ .sys 0x0EE → decode i.encode = some i) ∧
      (∀ w i, decode w = some i →
        i.InRange ∧ i.encode = if i.isShift then w &&& 0xFF0F else w) ∧
      (∀ w, decode w = none ↔ ∀ i : Instruction, ¬ i.format.Fits w) ∧
      (∀ w, w ≠ 0x00E0 → w ≠ 0x00EE → (Pattern.table.filter (·.isMatch w)).length ≤ 1) ∧
      Pattern.table.filter (·.isMatch 0x00E0) = [.fixed 0x00E0 .clear, Pattern.machineCode] ∧
      Pattern.table.filter (·.isMatch 0x00EE) = [.fixed 0x00EE .ret, Pattern.machineCode] ∧
      ∀ patterns, Pattern.Reordered patterns → ∀ w, Pattern.decodeWith patterns w = decode w :=
  ⟨fun _ => fits_encode, fun _ => decode_encode,
    fun _ _ h => ⟨(readFrom_of_decode h).inRange, encode_of_decode h⟩,
    fun _ => decode_eq_none_iff, fun _ => Pattern.length_filter_le, rfl, rfl,
    fun _ h => h.decodeWith_eq⟩

end Instruction

end ChipEight
