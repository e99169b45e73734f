import ChipEight.Proofs.FramesTaken
import ChipEight.Proofs.HostStages

/-! Frames on their way to the host. Whatever the distance between two rows of the locked texture and whatever
was in it, rendering sets the three bytes of every pixel and keeps the bytes behind every row, so the frame can
be told from the texture. No frame of a machine has a pixel whose brightness is too large for a byte. -/
namespace ChipEight

namespace Frame

variable {frame : Frame} {x y : Nat}

theorem index_lt (hx : x < displayWidth) (hy : y < displayHeight) :
    y * displayWidth + x < displayHeight * displayWidth := by
  simp only [displayWidth, displayHeight] at *
  omega

theorem isLit_eq (frame : Frame) (h : y * displayWidth + x < displayHeight * displayWidth) :
    frame.isLit x y = (frame[y * displayWidth + x] != 0) := by
  have hindex : fit64 (y * displayWidth + x : Nat) = .ok (y * displayWidth + x) :=
    fit64_of_lt (Nat.lt_trans h (by decide))
  have hpixel : frame.pixel x y = .ok frame[y * displayWidth + x] := by
    simp only [pixel, hindex, bind, Except.bind, Vector.getElem?_eq_getElem h]
    rfl
  rw [isLit, hpixel]

end Frame

namespace Texture

/-- `copied` has the pixels of `frame` in its rows, and is as `buffer` behind them. -/
structure Painted (frame : Frame) (pitch : Nat) (buffer copied : Array UInt8) : Prop where
  size_eq : copied.size = buffer.size
  pixel : ∀ x < displayWidth, ∀ y < displayHeight, ∀ colour < pixelBytes,
    copied[y * pitch + pixelBytes * x + colour]? = some (if frame.isLit x y then 255 else 0)
  /-- What lies behind a row's pixels. -/
  padding : ∀ k, rowBytes ≤ k % pitch → copied[k]? = buffer[k]?

variable {frame other : Frame} {pitch : Nat} {buffer copied : Array UInt8}

theorem shade_eq_isLit (hf : frame.Binary) {k : Nat} (hk : k < displayHeight * displayWidth) :
    shade frame[k] = if frame.isLit (k % displayWidth) (k / displayWidth) then 255 else 0 := by
  have hcell : k / displayWidth * displayWidth + k % displayWidth = k := Nat.div_add_mod' k displayWidth
  have hlit := frame.isLit_eq (hcell.symm ▸ hk)
  simp only [hcell] at hlit
  have hvalue : frame[k] = 0 ∨ frame[k] = 1 := hf ⟨k, hk⟩
  rw [hlit]
  rcases hvalue with hoff | hon
  · simp [shade, hoff]
  · simp [shade, hon]

theorem exists_painted (hf : frame.Binary) (hp : rowBytes ≤ pitch)
    (hsize : buffer.size = displayHeight * pitch) :
    ∃ copied, copyRows buffer pitch (shades frame) = .ok copied ∧ Painted frame pitch buffer copied := by
  obtain ⟨copied, hcopy, hcopied, hpixels, hpadding⟩ := exists_copyRows_shades frame hp hsize
  refine ⟨copied, hcopy, hcopied, ?_, ?_⟩
  · intro x hx y hy colour hc
    have hrow : (y * displayWidth + x) / displayWidth = y := by
      simp only [displayWidth] at *
      omega
    have hcolumn : (y * displayWidth + x) % displayWidth = x := by
      simp only [displayWidth] at *
      omega
    have hcell : y * displayWidth + x < displayHeight * displayWidth := Frame.index_lt hx hy
    have hbyte := hpixels ⟨y * displayWidth + x, hcell⟩ colour hc
    have hshade := shade_eq_isLit hf hcell
    simp only [hrow, hcolumn] at hbyte hshade
    rw [Fin.getElem_fin, hshade] at hbyte
    rw [Nat.mul_comm pixelBytes]
    exact hbyte
  · intro k hk
    have hlt : k % pitch < pitch := Nat.mod_lt k (Nat.lt_of_lt_of_le (by decide) hp)
    have hbyte := hpadding (k / pitch) (k % pitch) hk hlt
    rwa [Nat.div_add_mod'] at hbyte

/-- The frame can be read back. -/
theorem Painted.toFrame_eq (h : Painted frame pitch buffer copied) (hf : frame.Binary) :
    toFrame copied pitch = frame := by
  apply Texture.toFrame_eq hf
  intro k hk colour hc
  have hx : k % displayWidth < displayWidth := Nat.mod_lt k (by decide)
  have hy : k / displayWidth < displayHeight := Nat.div_lt_of_lt_mul (by rwa [Nat.mul_comm])
  have hbyte := h.pixel _ hx _ hy colour hc
  rw [← shade_eq_isLit hf hk] at hbyte
  rw [Nat.mul_comm (k % displayWidth)]
  exact hbyte

/-- Frames with the same bytes are the same, since either can be read back once the bytes have been copied. -/
theorem shades_injective (hf : frame.Binary) (ho : other.Binary) (h : shades frame = shades other) :
    frame = other := by
  have hsize : (Array.replicate (displayHeight * rowBytes) (0 : UInt8)).size = displayHeight * rowBytes :=
    Array.size_replicate
  obtain ⟨copied, hcopy, hframe⟩ := exists_painted hf (Nat.le_refl rowBytes) hsize
  obtain ⟨copied', hcopy', hother⟩ := exists_painted ho (Nat.le_refl rowBytes) hsize
  rw [h] at hcopy
  cases hcopy.symm.trans hcopy'
  exact (hframe.toFrame_eq hf).symm.trans (hother.toFrame_eq ho)

end Texture

namespace Host

/-- How rendering a frame ends: at the first call that the host refuses, or with the frame shown. The texture is
painted in between, so it has the frame also when it is not shown. -/
inductive Rendered (frame : Frame) (host : Host) : EStateM.Result Failure Host Unit → Prop
  | noTexture {text : String} (texture : host.refuses .texture (host.calls.count .texture) = some text) :
    Rendered frame host (.error (.host (HostCall.texture.refusal text)) (host.asked [.texture]))
  | unlocked {text : String} (texture : host.refuses .texture (host.calls.count .texture) = none)
    (lock : host.refuses .lock (host.calls.count .lock) = some text) :
    Rendered frame host (.error (.host (HostCall.lock.refusal text)) (host.asked [.texture, .lock]))
  | unshown {text : String} {buffer : Array UInt8}
    (texture : host.refuses .texture (host.calls.count .texture) = none)
    (lock : host.refuses .lock (host.calls.count .lock) = none)
    (painted : Texture.Painted frame host.pitch host.blankTexture buffer)
    (copy : host.refuses .copy (host.calls.count .copy) = some text) :
    Rendered frame host
      (.error (.host (HostCall.copy.refusal text)) { host.asked [.texture, .lock, .copy] with buffer })
  | shown {buffer : Array UInt8} (texture : host.refuses .texture (host.calls.count .texture) = none)
    (lock : host.refuses .lock (host.calls.count .lock) = none)
    (painted : Texture.Painted frame host.pitch host.blankTexture buffer)
    (copy : host.refuses .copy (host.calls.count .copy) = none) :
    Rendered frame host
      (.ok () { host.asked [.texture, .lock, .copy] with buffer, shown := host.shown.push frame })

variable {host : Host} {frame : Frame} {c : HostCall}

/-- Other calls are nothing to the answer that a call gets. -/
theorem refuses_asked (host : Host) {made : List HostCall} (h : c ∉ made) :
    (host.asked made).refuses c ((host.asked made).calls.count c) = host.refuses c (host.calls.count c) := by
  show host.refuses c ((host.calls ++ made).count c) = _
  rw [List.count_append, List.count_eq_zero_of_not_mem h, Nat.add_zero]

theorem asked_asked (host : Host) (made more : List HostCall) :
    (host.asked made).asked more = host.asked (made ++ more) := by
  rw [asked, asked, asked, List.append_assoc]

/-- With room for the rows of a frame, only the host can keep it from being shown. -/
theorem rendered (hf : frame.Binary) (hp : Texture.rowBytes ≤ host.pitch) :
    Rendered frame host (render frame host) := by
  obtain ⟨copied, hcopied, hpainted⟩ := Texture.exists_painted hf hp host.size_blankTexture
  rw [render]
  cases texture : host.refuses .texture (host.calls.count .texture) with
  | some text =>
    rw [bind_apply, call_of_refused texture]
    exact .noTexture texture
  | none =>
    rw [bind_ok (call_of_granted texture), bind_ok (sure_ofFrame hf _)]
    have hlock : (host.asked [.texture]).refuses .lock ((host.asked [.texture]).calls.count .lock) = _ :=
      host.refuses_asked (by decide)
    cases lock : host.refuses .lock (host.calls.count .lock) with
    | some text =>
      rw [bind_apply, call_of_refused (hlock.trans lock), asked_asked]
      exact .unlocked texture lock
    | none =>
      rw [bind_ok (call_of_granted (hlock.trans lock)), asked_asked, bind_ok (get_apply _)]
      let locked := host.asked [.texture, .lock]
      let painted := { locked with buffer := copied }
      have hpaint : sure (Texture.copyRows host.blankTexture host.pitch (Texture.shades frame)) locked =
          .ok copied locked := by
        rw [hcopied]
        rfl
      show Rendered frame host
        ((sure (Texture.copyRows host.blankTexture host.pitch (Texture.shades frame)) >>= _) locked)
      rw [bind_ok hpaint, bind_ok (modify_apply _ locked)]
      have hcopy : painted.refuses .copy (painted.calls.count .copy) = _ :=
        refuses_asked host (by decide : HostCall.copy ∉ [.texture, .lock])
      have hcalls : painted.asked [.copy] = { host.asked [.texture, .lock, .copy] with buffer := copied } :=
        congrArg (fun host : Host => { host with buffer := copied }) (host.asked_asked _ _)
      cases copy : host.refuses .copy (host.calls.count .copy) with
      | some text =>
        rw [bind_apply, call_of_refused (hcopy.trans copy), hcalls]
        exact .unshown texture lock hpainted copy
      | none =>
        rw [bind_ok (call_of_granted (hcopy.trans copy)), hcalls, modify_apply]
        show Rendered frame host (.ok () { host.asked [.texture, .lock, .copy] with
          buffer := copied, shown := host.shown.push (Texture.toFrame copied host.pitch) })
        rw [hpainted.toFrame_eq hf]
        exact .shown texture lock hpainted copy

end Host

namespace Machine

variable {ρ κ γ τ : Type} [Randomizer ρ] [Keyboard κ] [LE τ] [Timescale τ] [Clock γ τ]

theorem framesTaken_binary {m : Machine ρ κ γ} (hm : m.Sound) (acts : List Act) :
    ∀ frame ∈ m.framesTaken acts, frame.Binary := by
  induction acts using List.reverseRecOn with
  | nil => simp [framesTaken]
  | append_singleton acts a ih =>
    cases a with
    | call c =>
      rw [framesTaken_concat_call]
      exact ih
    | takeFrame =>
      have hpixels := (afterActs_sound hm acts).pixels
      rw [framesTaken_concat_takeFrame, List.forall_mem_append]
      refine ⟨ih, ?_⟩
      rw [takeFrame, Screen.takeFrame_eq]
      cases (m.afterActs acts).screen.dirty <;> simp [hpixels]

end Machine

namespace Texture

variable {ρ κ γ τ : Type} [Randomizer ρ] [Keyboard κ] [LE τ] [Timescale τ] [Clock γ τ]

/-- A frame of pixels that are off or lit is copied into a texture with rows of any length, and can be read
back. Rendering does so and shows the frame, unless the host refuses one of the calls that this takes, and it is
given no other frame by a machine. -/
theorem rendering_exact {frame : Frame} (hf : frame.Binary) {pitch : Nat} (hp : rowBytes ≤ pitch) :
    (∃ bytes, ofFrame frame = .ok bytes ∧ ∀ buffer : Array UInt8, buffer.size = displayHeight * pitch →
      ∃ copied, copyRows buffer pitch bytes = .ok copied ∧ Painted frame pitch buffer copied ∧
        toFrame copied pitch = frame) ∧
    (∀ host : Host, host.pitch = pitch → Host.Rendered frame host (Host.render frame host)) ∧
    (∀ other : Frame, other.Binary → (ofFrame other = ofFrame frame → other = frame) ∧
      ∀ buffer buffer' copied, Painted frame pitch buffer copied → Painted other pitch buffer' copied →
        other = frame) ∧
    ∀ (randomizer : ρ) (keyboard : κ) (clock : γ) (acts : List Act),
      ∀ given ∈ (Machine.new randomizer keyboard clock).framesTaken acts,
        given.Binary ∧ ∀ pixel ∈ given.toList, pixel.toNat * 255 < UInt8.size := by
  refine ⟨⟨_, ofFrame_eq hf, fun buffer hsize => ?_⟩, ?_, ?_, ?_⟩
  · obtain ⟨copied, hcopy, hpainted⟩ := exists_painted hf hp hsize
    exact ⟨copied, hcopy, hpainted, hpainted.toFrame_eq hf⟩
  · rintro host rfl
    exact Host.rendered hf hp
  · intro other ho
    refine ⟨fun hsame => ?_, fun _ _ copied hframe hother => ?_⟩
    · rw [ofFrame_eq ho, ofFrame_eq hf] at hsame
      exact shades_injective ho hf (Except.ok.inj hsame)
    · exact (hother.toFrame_eq ho).symm.trans (hframe.toFrame_eq hf)
  · intro randomizer keyboard clock acts given hgiven
    have hbinary := Machine.framesTaken_binary (Machine.new_sound randomizer keyboard clock) acts given hgiven
    refine ⟨hbinary, fun pixel hpixel => ?_⟩
    rcases hbinary.eq_zero_or_one hpixel with rfl | rfl
    · decide
    · decide

/-- The corner of a frame, in a texture whose rows have eight more bytes than they need, on a host that shows it and
on one that does not. -/
theorem corner_rendered_exactly :
    let frame := (Frame.blank.plot 0 ⟨0, by decide⟩ 1).1
    let willing : Host := { pitch := 200 }
    let unwilling : Host := { willing with refuses := fun c _ => if c = .copy then some "no target" else none }
    frame.Binary ∧ rowBytes ≤ 200 ∧
      (∃ bytes copied, ofFrame frame = .ok bytes ∧ copyRows willing.blankTexture 200 bytes = .ok copied ∧
        copied[2]? = some 255 ∧ copied[3]? = some 0 ∧ copied[195]? = some 0xAA ∧ toFrame copied 200 = frame) ∧
      (∃ host, Host.render frame willing = .ok () host ∧ host.shown = #[frame] ∧
        host.calls = [.texture, .lock, .copy] ∧
        host.buffer[2]? = some 255 ∧ host.buffer[3]? = some 0 ∧ host.buffer[195]? = some 0xAA) ∧
      ∃ host, Host.render frame unwilling = .error (.host "no target") host ∧ host.shown = #[] ∧
        host.buffer[2]? = some 255 ∧ host.buffer[3]? = some 0 ∧ host.buffer[195]? = some 0xAA := by
  intro frame willing unwilling
  have hf : frame.Binary := Frame.plot_binary 0 Frame.blank_binary (.inr rfl)
  have hp : rowBytes ≤ 200 := by decide
  have hlit : frame.isLit 0 0 = true := by decide +kernel
  have hoff : frame.isLit 1 0 = false := by decide +kernel
  have hcorner {copied : Array UInt8} (h : Painted frame 200 willing.blankTexture copied) :
      copied[2]? = some 255 ∧ copied[3]? = some 0 ∧ copied[195]? = some 0xAA := by
    have hfirst := h.pixel 0 (by decide) 0 (by decide) 2 (by decide)
    have hsecond := h.pixel 1 (by decide) 0 (by decide) 0 (by decide)
    rw [hlit] at hfirst
    rw [hoff] at hsecond
    refine ⟨hfirst, hsecond, ?_⟩
    rw [h.padding 195 (by decide)]
    simp [Host.blankTexture, willing, displayHeight]
  obtain ⟨⟨bytes, hbytes, hall⟩, hrendered, -⟩ :=
    rendering_exact (ρ := ByteCycle) (κ := KeypadView) (γ := CycleClock) hf hp
  refine ⟨hf, hp, ?_, ?_, ?_⟩
  · obtain ⟨copied, hcopy, hpainted, hframe⟩ := hall willing.blankTexture willing.size_blankTexture
    obtain ⟨hfirst, hsecond, hbehind⟩ := hcorner hpainted
    exact ⟨bytes, copied, hbytes, hcopy, hfirst, hsecond, hbehind, hframe⟩
  · have h := hrendered willing rfl
    generalize Host.render frame willing = result at h
    cases h with
    | noTexture refused | unlocked _ refused | unshown _ _ _ refused => cases refused
    | shown _ _ hpainted => exact ⟨_, rfl, rfl, rfl, hcorner hpainted⟩
  · have h := hrendered unwilling rfl
    generalize Host.render frame unwilling = result at h
    cases h with
    | noTexture refused | unlocked _ refused | shown _ _ _ refused => cases refused
    | unshown _ _ hpainted refused =>
      cases refused
      exact ⟨_, rfl, rfl, hcorner hpainted⟩

end Texture

end ChipEight
