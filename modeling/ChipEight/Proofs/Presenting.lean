import ChipEight.Proofs.TextureCopy
import ChipEight.Session.Start

/-! What a host shows once its calls have succeeded: each frame that is rendered, as it is. -/
namespace ChipEight.Host

variable {host host' : Host} {frame : Frame}

/-- A call is kept, and comes to what the host has to say to it. -/
theorem call_apply (c : HostCall) (host : Host) :
    call c host = match host.refuses c (host.calls.count c) with
      | some text => .error (.host (c.refusal text)) { host with calls := host.calls ++ [c] }
      | none => .ok () { host with calls := host.calls ++ [c] } := by
  rw [call, bind_ok (get_apply host), bind_ok (set_apply _ _)]
  cases host.refuses c (host.calls.count c) <;> rfl

/-- A host that has been called on, and has not changed otherwise. -/
def asked (host : Host) (made : List HostCall) : Host := { host with calls := host.calls ++ made }

theorem call_of_refused {c : HostCall} {text : String} (h : host.refuses c (host.calls.count c) = some text) :
    call c host = .error (.host (c.refusal text)) (host.asked [c]) := by
  rw [call_apply, h]
  rfl

theorem call_of_granted {c : HostCall} (h : host.refuses c (host.calls.count c) = none) :
    call c host = .ok () (host.asked [c]) := by
  rw [call_apply, h]
  rfl

theorem call_ok {c : HostCall} (h : call c host = .ok () host') : host' = host.asked [c] := by
  cases hr : host.refuses c (host.calls.count c) with
  | some text => cases (call_of_refused hr).symm.trans h
  | none =>
    cases (call_of_granted hr).symm.trans h
    rfl

theorem call_shown {c : HostCall} (h : call c host = .ok () host') : host'.shown = host.shown := by
  rw [call_ok h, asked]

theorem sure_ok {α : Type} {result : Except Halt α} {a : α} (h : sure result host = .ok a host') :
    result = .ok a ∧ host' = host := by
  cases result with
  | ok b =>
    cases h
    exact ⟨rfl, rfl⟩
  | error halt => cases h

/-- There is nothing in the way of the bytes of a frame. -/
theorem sure_ofFrame (hf : frame.Binary) (host : Host) :
    sure (Texture.ofFrame frame) host = .ok (Texture.shades frame) host := by
  rw [Texture.ofFrame_eq hf]
  rfl

/-- The texture as the host hands it over, whatever is to be put into it. -/
def blankTexture (host : Host) : Array UInt8 := Array.replicate (displayHeight * host.pitch) host.filler

@[simp] theorem size_blankTexture (host : Host) : host.blankTexture.size = displayHeight * host.pitch :=
  Array.size_replicate

/-- A frame that is rendered is shown as it is. -/
theorem render_shown (hf : frame.Binary) (h : render frame host = .ok () host') :
    host'.shown = host.shown.push frame := by
  obtain ⟨_, host₁, htexture, hfrom₁⟩ := bind_eq_ok h
  obtain ⟨bytes, host₂, hbytes, hfrom₂⟩ := bind_eq_ok hfrom₁
  obtain ⟨hbytes, rfl⟩ := sure_ok hbytes
  rw [Texture.ofFrame_eq hf] at hbytes
  cases hbytes
  obtain ⟨_, host₃, hlock, hfrom₃⟩ := bind_eq_ok hfrom₂
  rw [bind_ok (get_apply host₃)] at hfrom₃
  obtain ⟨buffer, host₄, hcopy, hfrom₄⟩ := bind_eq_ok hfrom₃
  obtain ⟨hcopy, rfl⟩ := sure_ok hcopy
  rw [bind_ok (modify_apply _ host₄)] at hfrom₄
  obtain ⟨_, host₅, hshow, hfrom₅⟩ := bind_eq_ok hfrom₄
  cases hfrom₅
  obtain rfl := call_ok htexture
  obtain rfl := call_ok hlock
  obtain rfl := call_ok hshow
  show host.shown.push (Texture.toFrame buffer host.pitch) = host.shown.push frame
  rw [Texture.toFrame_of_copyRows hf host.size_blankTexture hcopy]

/-- A window with `scale` by `scale` screen pixels for each pixel. -/
def windowOf (scale : UInt32) : Window where
  title := "Chip-8"
  width := displayWidth * scale.toNat
  height := displayHeight * scale.toNat
  centered := true

/-- Why such a window is not even asked for. -/
def windowFailure? (scale : UInt32) : Option Failure :=
  let width := displayWidth * scale.toNat
  if UInt32.size ≤ width then some (.defect .overflow)
  else if maxWindowWidth < width then some (.host s!"Window width ({width}) is too high.")
  else none

theorem openWindow_apply (scale : UInt32) (host : Host) :
    openWindow scale host = match windowFailure? scale with
      | some failure => .error failure host
      | none => call .window { host with window := some (windowOf scale) } := by
  rw [windowFailure?, openWindow]
  by_cases hover : UInt32.size ≤ displayWidth * scale.toNat
  · have hwidth : fit32 (displayWidth * scale.toNat : Nat) = .error (.defect .overflow) := fits_of_le hover
    rw [hwidth, if_pos hover]
    rfl
  · have hlt : displayWidth * scale.toNat < UInt32.size := Nat.lt_of_not_le hover
    have hle : displayHeight * scale.toNat ≤ displayWidth * scale.toNat := Nat.mul_le_mul_right _ (by decide)
    have hwidth : fit32 (displayWidth * scale.toNat : Nat) = .ok (displayWidth * scale.toNat) := fits_of_lt hlt
    have hheight : fit32 (displayHeight * scale.toNat : Nat) = .ok (displayHeight * scale.toNat) :=
      fits_of_lt (Nat.lt_of_le_of_lt hle hlt)
    rw [hwidth, hheight, if_neg hover]
    show (if maxWindowWidth < displayWidth * scale.toNat then _ else _ : Step Unit) host = _
    by_cases hwide : maxWindowWidth < displayWidth * scale.toNat
    · rw [if_pos hwide, if_pos hwide]
      rfl
    · rw [if_neg hwide, if_neg hwide]
      rfl

theorem openWindow_shown {scale : UInt32} (h : openWindow scale host = .ok () host') :
    host'.shown = host.shown := by
  rw [openWindow_apply] at h
  cases hwide : windowFailure? scale with
  | some failure =>
    rw [hwide] at h
    cases h
  | none =>
    rw [hwide] at h
    have hcall : call .window { host with window := some (windowOf scale) } = .ok () host' := h
    rw [call_shown hcall]

theorem openHost_shown {scale : UInt32} (h : Session.openHost scale host = .ok () host') :
    host'.shown = host.shown.push Frame.blank := by
  obtain ⟨_, h₁, hinit, h⟩ := bind_eq_ok h
  obtain ⟨_, h₂, hdisplay, hevents⟩ := bind_eq_ok h
  obtain ⟨_, h₃, hvideo, h⟩ := bind_eq_ok hdisplay
  obtain ⟨_, h₄, hwindow, h⟩ := bind_eq_ok h
  obtain ⟨_, h₅, hrenderer, hrender⟩ := bind_eq_ok h
  rw [call_shown hevents, render_shown Frame.blank_binary hrender, call_shown hrenderer, openWindow_shown hwindow,
    call_shown hvideo, call_shown hinit]

/-- A host that refuses nothing, with room for the rows of a frame. -/
structure Accepts (host : Host) : Prop where
  refuses : ∀ c n, host.refuses c n = none
  room : Texture.rowBytes ≤ host.pitch

theorem accepts_default : ({} : Host).Accepts := ⟨fun _ _ => rfl, Nat.le_refl _⟩

/-- A step that such a host goes through with, and after which it still is one. -/
def Granted {α : Type} (step : Step α) : Prop :=
  ∀ host : Host, host.Accepts → ∃ a host', step host = .ok a host' ∧ host'.Accepts

end ChipEight.Host
