import ChipEight.Host.Texture

/-! Frames copied into textures. Wherever a row of the picture fits between two rows of the buffer, the copy
puts each pixel in its place and keeps the bytes behind every row, so the frame can be read back. -/
namespace ChipEight

theorem Frame.Binary.eq_zero_or_one {frame : Frame} (hf : frame.Binary) {pixel : UInt8} (h : pixel ∈ frame.toList) :
    pixel = 0 ∨ pixel = 1 := by
  obtain ⟨k, hk, rfl⟩ := Vector.mem_iff_getElem.1 (Vector.mem_toList_iff.1 h)
  exact hf ⟨k, hk⟩

namespace Texture

/-- The brightness of a pixel that is off or lit. -/
def shade (pixel : UInt8) : UInt8 := if pixel = 1 then 255 else 0

/-- The bytes of a frame, row by row, each pixel three times. -/
def shades (frame : Frame) : List UInt8 := (frame.toList.map shade).flatMap (List.replicate pixelBytes)

section Bytes

theorem brightness_eq {pixel : UInt8} (h : pixel = 0 ∨ pixel = 1) :
    brightness pixel = .ok (shade pixel) := by
  rcases h with rfl | rfl
  · exact fitByte_eq (by decide)
  · exact fitByte_eq (by decide)

theorem mapM_brightness {pixels : List UInt8} (h : ∀ pixel ∈ pixels, pixel = 0 ∨ pixel = 1) :
    pixels.mapM brightness = .ok (pixels.map shade) := by
  induction pixels with
  | nil => rfl
  | cons pixel rest ih =>
    obtain ⟨hpixel, hrest⟩ := List.forall_mem_cons.1 h
    rw [List.mapM_cons, brightness_eq hpixel, ih hrest]
    rfl

theorem getElem?_flatMap_replicate {α : Type} {n : Nat} (hn : 0 < n) (l : List α) (k : Nat) :
    (l.flatMap (List.replicate n))[k]? = l[k / n]? := by
  induction l generalizing k with
  | nil => simp
  | cons a rest ih =>
    rw [List.flatMap_cons, List.getElem?_append, List.length_replicate]
    by_cases hk : k < n
    · simp [hk, Nat.div_eq_of_lt hk]
    · rw [if_neg hk, ih, Nat.div_eq_sub_div hn (Nat.le_of_not_lt hk), List.getElem?_cons_succ]

/-- No multiplication on the way is out of range. -/
theorem ofFrame_eq {frame : Frame} (hf : frame.Binary) : ofFrame frame = .ok (shades frame) := by
  rw [ofFrame, mapM_brightness fun _ => hf.eq_zero_or_one]
  rfl

theorem getElem?_shades (frame : Frame) {cell : Cell} {colour : Nat} (hc : colour < pixelBytes) :
    (shades frame)[cell.val * pixelBytes + colour]? = some (shade frame[cell]) := by
  have hdiv : (cell.val * pixelBytes + colour) / pixelBytes = cell.val := by
    rw [pixelBytes] at *
    omega
  rw [shades, getElem?_flatMap_replicate (by decide), hdiv]
  simp

theorem length_shades (frame : Frame) : (shades frame).length = displayHeight * rowBytes := by
  have hframe : frame.toList.length = displayHeight * displayWidth := frame.length_toList
  rw [rowBytes, ← Nat.mul_assoc, ← hframe]
  simp [shades, List.length_flatMap, Function.comp_def, List.map_const']

end Bytes

section Rows

theorem getElem?_rowsOf (count : Nat) (bytes : List UInt8) (y : Nat) :
    (rowsOf count bytes)[y]? =
      if y < count then some ((bytes.drop (y * rowBytes)).take rowBytes) else none := by
  induction count generalizing bytes y with
  | zero => simp [rowsOf]
  | succ count ih =>
    cases y with
    | zero => simp [rowsOf]
    | succ y =>
      rw [rowsOf, List.getElem?_cons_succ, ih, List.drop_drop]
      simp only [Nat.add_lt_add_iff_right, Nat.succ_mul, Nat.add_comm]

@[simp] theorem length_rowsOf (count : Nat) (bytes : List UInt8) :
    (rowsOf count bytes).length = count := by
  induction count generalizing bytes with
  | zero => rfl
  | succ count ih => simp [rowsOf, ih]

theorem length_le_of_mem_rowsOf {count : Nat} {bytes row : List UInt8} (h : row ∈ rowsOf count bytes) :
    row.length ≤ rowBytes := by
  induction count generalizing bytes with
  | zero => cases h
  | succ count ih =>
    rcases List.mem_cons.1 h with rfl | h
    · exact List.length_take_le _ _
    · exact ih h

theorem length_of_mem_rowsOf {count : Nat} {bytes row : List UInt8} (hlength : bytes.length = count * rowBytes)
    (h : row ∈ rowsOf count bytes) : row.length = rowBytes := by
  induction count generalizing bytes with
  | zero => cases h
  | succ count ih =>
    rw [Nat.succ_mul] at hlength
    rcases List.mem_cons.1 h with rfl | h
    · rw [List.length_take]
      omega
    · exact ih (by rw [List.length_drop]; omega) h

/-- The first of `count` rows, from number `y` on and each as long as a frame is wide, that ends behind a buffer of
`size` bytes. -/
def shortRow? (size pitch y count : Nat) : Option Nat :=
  (List.range' y count).find? fun row => size < row * pitch + rowBytes

variable {buffer copied : Array UInt8} {pitch y : Nat} {rows : List (List UInt8)}

/-- A copy fails at the first row that the buffer has no room for. -/
theorem copyRowsFrom_cases (hrows : ∀ row ∈ rows, row.length = rowBytes) :
    (∃ copied, copyRowsFrom buffer pitch y rows = .ok copied ∧ shortRow? buffer.size pitch y rows.length = none) ∨
      ∃ short, copyRowsFrom buffer pitch y rows = .error (.defect (.noSuchByte (short * pitch + rowBytes))) ∧
        shortRow? buffer.size pitch y rows.length = some short := by
  induction rows generalizing buffer y with
  | nil => exact .inl ⟨buffer, rfl, rfl⟩
  | cons row rest ih =>
    obtain ⟨hrow, hrest⟩ := List.forall_mem_cons.1 hrows
    have hnext := @ih (overwrite buffer (y * pitch) row) (y + 1) hrest
    rw [copyRowsFrom, copyRow, shortRow?, List.length_cons, List.range'_succ, hrow]
    by_cases hfit : y * pitch + rowBytes ≤ buffer.size
    · rw [if_pos hfit, List.find?_cons_of_neg (by simpa using hfit)]
      rw [size_overwrite] at hnext
      exact hnext
    · rw [if_neg hfit, List.find?_cons_of_pos (by simpa using hfit)]
      exact .inr ⟨y, rfl, rfl⟩

theorem shortRow?_eq_none (hp : rowBytes ≤ pitch) (count : Nat) : shortRow? (count * pitch) pitch 0 count = none := by
  rw [shortRow?, List.find?_eq_none]
  intro row hrow
  obtain ⟨k, hk, rfl⟩ := List.mem_range'.1 hrow
  have hmul : (k + 1) * pitch ≤ count * pitch := Nat.mul_le_mul_right pitch hk
  rw [Nat.succ_mul] at hmul
  simp only [decide_eq_true_eq, Nat.zero_add, Nat.one_mul]
  omega

/-- Copying rows that fit fills the buffer's rows from number `y` on, each from its start. -/
theorem exists_copyRowsFrom (hrows : ∀ row ∈ rows, row.length ≤ pitch)
    (hsize : (y + rows.length) * pitch ≤ buffer.size) :
    ∃ copied, copyRowsFrom buffer pitch y rows = .ok copied ∧ copied.size = buffer.size ∧
      (∀ k < y * pitch, copied[k]? = buffer[k]?) ∧
      ∀ j o, o < pitch → copied[(y + j) * pitch + o]? =
        (rows[j]?.bind (·[o]?)).or buffer[(y + j) * pitch + o]? := by
  induction rows generalizing buffer y with
  | nil => exact ⟨buffer, rfl, rfl, fun _ _ => rfl, by simp⟩
  | cons row rest ih =>
    obtain ⟨hrow, hrest⟩ := List.forall_mem_cons.1 hrows
    have hnext : (y + 1) * pitch = y * pitch + pitch := Nat.succ_mul y pitch
    have hfit : y * pitch + row.length ≤ buffer.size := by
      have hmul : (y + 1) * pitch ≤ (y + (row :: rest).length) * pitch :=
        Nat.mul_le_mul_right pitch (by simp)
      omega
    obtain ⟨copied, hcopy, hcopied, hbefore, hafter⟩ := @ih (overwrite buffer (y * pitch) row) (y + 1) hrest
      (by simpa [Nat.add_assoc, Nat.add_comm 1] using hsize)
    refine ⟨copied, ?_, by simpa using hcopied, ?_, ?_⟩
    · rw [copyRowsFrom, copyRow, if_pos hfit]
      exact hcopy
    · intro k hk
      rw [hbefore k (by omega), getElem?_overwrite, if_neg (by omega)]
    · intro j o ho
      cases j with
      | zero =>
        rw [Nat.add_zero, hbefore _ (by omega), getElem?_overwrite, Nat.add_sub_cancel_left]
        by_cases hin : o < row.length
        · rw [if_pos (by omega)]
          simp [hin]
        · rw [if_neg (by omega)]
          simp [Nat.le_of_not_lt hin]
      | succ j =>
        have hj : y + (j + 1) = y + 1 + j := by omega
        have hbehind : (y + 1) * pitch ≤ (y + 1 + j) * pitch :=
          Nat.mul_le_mul_right pitch (Nat.le_add_right (y + 1) j)
        rw [hj, hafter j o ho, getElem?_overwrite, if_neg (by omega), List.getElem?_cons_succ]

/-- A copy that succeeds has found room for every row. -/
theorem le_size_of_copyRowsFrom (h : copyRowsFrom buffer pitch y rows = .ok copied) {j : Nat}
    {row : List UInt8} (hrow : rows[j]? = some row) : (y + j) * pitch + row.length ≤ buffer.size := by
  induction rows generalizing buffer y j with
  | nil => simp at hrow
  | cons first rest ih =>
    rw [copyRowsFrom, copyRow] at h
    by_cases hfit : y * pitch + first.length ≤ buffer.size
    · rw [if_pos hfit] at h
      cases j with
      | zero =>
        cases hrow
        exact hfit
      | succ j =>
        have hnext := ih h hrow
        rw [size_overwrite] at hnext
        have hj : y + (j + 1) = y + 1 + j := by omega
        rw [hj]
        exact hnext
    · rw [if_neg hfit] at h
      cases h

end Rows

section Frames

variable {buffer copied : Array UInt8} {pitch : Nat} {frame : Frame}

/-- The copy of a frame stays inside the buffer, puts each byte in its place and keeps those behind every
row. -/
theorem exists_copyRows_shades (frame : Frame) (hp : rowBytes ≤ pitch)
    (hsize : buffer.size = displayHeight * pitch) :
    ∃ copied, copyRows buffer pitch (shades frame) = .ok copied ∧ copied.size = buffer.size ∧
      (∀ cell : Cell, ∀ colour < pixelBytes,
        copied[cell.val / displayWidth * pitch + cell.val % displayWidth * pixelBytes + colour]? =
          some (shade frame[cell])) ∧
      ∀ y o, rowBytes ≤ o → o < pitch → copied[y * pitch + o]? = buffer[y * pitch + o]? := by
  have hrows : ∀ row ∈ rowsOf displayHeight (shades frame), row.length ≤ pitch := fun row hrow =>
    Nat.le_trans (length_le_of_mem_rowsOf hrow) hp
  obtain ⟨copied, hcopy, hcopied, -, hafter⟩ := @exists_copyRowsFrom buffer pitch 0 _ hrows
    (by simp [hsize])
  simp only [Nat.zero_add, getElem?_rowsOf] at hafter
  refine ⟨copied, hcopy, hcopied, ?_, ?_⟩
  · intro cell colour hc
    have hcell := cell.isLt
    have hin : cell.val % displayWidth * pixelBytes + colour < rowBytes := by
      simp only [rowBytes, displayWidth, pixelBytes] at *
      omega
    have hy : cell.val / displayWidth < displayHeight := by
      simp only [displayHeight, displayWidth] at *
      omega
    have hat : cell.val / displayWidth * rowBytes + (cell.val % displayWidth * pixelBytes + colour) =
        cell.val * pixelBytes + colour := by
      simp only [rowBytes, displayWidth, pixelBytes]
      omega
    have hbyte := hafter (cell.val / displayWidth) (cell.val % displayWidth * pixelBytes + colour)
      (Nat.lt_of_lt_of_le hin hp)
    rw [Nat.add_assoc, hbyte, if_pos hy, Option.bind_some, List.getElem?_take_of_lt hin,
      List.getElem?_drop, hat, getElem?_shades frame hc]
    rfl
  · intro y o ho hlt
    have hnone (bytes : List UInt8) : (bytes.take rowBytes)[o]? = none :=
      List.getElem?_eq_none (Nat.le_trans (List.length_take_le _ _) ho)
    rw [hafter y o hlt]
    by_cases hy : y < displayHeight
    · simp [hy, hnone]
    · simp [hy]

/-- A buffer in which every pixel has its brightness shows the frame. -/
theorem toFrame_eq (hf : frame.Binary)
    (h : ∀ (k : Nat) (hk : k < displayHeight * displayWidth), ∀ colour < pixelBytes,
      buffer[k / displayWidth * pitch + k % displayWidth * pixelBytes + colour]? =
        some (shade frame[k])) : toFrame buffer pitch = frame := by
  apply Vector.ext
  intro k hk
  have hwhite : isWhite buffer pitch ⟨k, hk⟩ = true ↔ shade frame[k] = 255 := by
    rw [isWhite, List.all_eq_true]
    constructor
    · intro hall
      have hfirst := hall 0 (by decide)
      rw [h k hk 0 (by decide)] at hfirst
      simpa using hfirst
    · intro hs colour hc
      rw [h k hk colour (List.mem_range.1 hc), hs]
      rfl
  have hcell : frame[k] = 0 ∨ frame[k] = 1 := hf ⟨k, hk⟩
  simp only [toFrame, Vector.getElem_ofFn, hwhite]
  rcases hcell with hoff | hlit
  · simp [shade, hoff]
  · simp [shade, hlit]

/-- Only a buffer whose rows are long enough takes a frame. -/
theorem rowBytes_le_of_copyRows (hsize : buffer.size = displayHeight * pitch)
    (h : copyRows buffer pitch (shades frame) = .ok copied) : rowBytes ≤ pitch := by
  have hlast : (rowsOf displayHeight (shades frame))[31]? =
      some (((shades frame).drop (31 * rowBytes)).take rowBytes) := by
    rw [getElem?_rowsOf, if_pos (by decide)]
  have hroom := le_size_of_copyRowsFrom h hlast
  rw [hsize, List.length_take, List.length_drop, length_shades] at hroom
  simp only [displayHeight, rowBytes, displayWidth, pixelBytes] at *
  omega

/-- A copy that succeeds shows the frame. -/
theorem toFrame_of_copyRows (hf : frame.Binary) (hsize : buffer.size = displayHeight * pitch)
    (h : copyRows buffer pitch (shades frame) = .ok copied) : toFrame copied pitch = frame := by
  obtain ⟨copied', hcopy, -, hpixels, -⟩ :=
    exists_copyRows_shades frame (rowBytes_le_of_copyRows hsize h) hsize
  cases h.symm.trans hcopy
  exact toFrame_eq hf fun k hk => hpixels ⟨k, hk⟩

end Frames

end Texture

end ChipEight
