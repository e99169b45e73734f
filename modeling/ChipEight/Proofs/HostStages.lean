import ChipEight.Proofs.Presenting

/-! Actions on the host taken apart into stages. An action comes to the stages of its plan one after the
other, up to the first that fails: the calls on the host are those of the stages it came to, and the failure
is that of the last. -/
namespace ChipEight

/-- The state that an action leaves behind, if it succeeds or not. -/
def stateLeft {σ α : Type} : EStateM.Result Failure σ α → σ
  | .ok _ s => s
  | .error _ s => s

namespace Host

inductive Stage
  | call (c : HostCall)
  /-- Works out the size of a window with `scale` by `scale` screen pixels for each pixel. -/
  | measure (scale : UInt32)
  /-- Asks for such a window. -/
  | window (scale : UInt32)
  /-- Copies a frame into the locked texture. -/
  | paint

namespace Stage

def call? : Stage → Option HostCall
  | .call c => some c
  | .window _ => some .window
  | .measure _ | .paint => none

def window? : Stage → Option Window
  | .window scale => some (windowOf scale)
  | .call _ | .measure _ | .paint => none

/-- The refusal of a call, if it were the next. -/
def refusal? (host : Host) (c : HostCall) : Option Failure :=
  (host.refuses c (host.calls.count c)).map fun text => .host (c.refusal text)

/-- Why a stage would fail on a host. -/
def failure? (host : Host) : Stage → Option Failure
  | .call c => refusal? host c
  | .measure scale => windowFailure? scale
  | .window _ => refusal? host .window
  | .paint =>
    (Texture.shortRow? (displayHeight * host.pitch) host.pitch 0 displayHeight).map fun row =>
      .defect (.noSuchByte (row * host.pitch + Texture.rowBytes))

/-- With room for the rows of a frame, nothing is in the way of a copy. -/
theorem failure?_paint {host : Host} (hp : Texture.rowBytes ≤ host.pitch) : paint.failure? host = none := by
  rw [failure?, Texture.shortRow?_eq_none hp]
  rfl

end Stage

/-- The calls of some stages, in order. -/
def stageCalls (stages : List Stage) : List HostCall := stages.filterMap Stage.call?

/-- `host'` is `host` once it has come to some stages, the last of which may have failed. -/
structure Came (stages : List Stage) (host host' : Host) : Prop where
  refuses_eq : host'.refuses = host.refuses
  pitch_eq : host'.pitch = host.pitch
  calls_eq : host'.calls = host.calls ++ stageCalls stages
  window_eq : host'.window = (stages.filterMap Stage.window?).getLast?.or host.window

/-- How an action ends that comes to the stages of a plan in turn. -/
inductive Ends {α : Type} (plan : List Stage) (host : Host) : EStateM.Result Failure Host α → Prop
  | passed {a : α} {host' : Host} (passes : ∀ stage ∈ plan, stage.failure? host = none)
    (came : Came plan host host') : Ends plan host (.ok a host')
  | stopped {past ahead : List Stage} {stage : Stage} {failure : Failure} {host' : Host}
    (split : plan = past ++ stage :: ahead) (passes : ∀ stage ∈ past, stage.failure? host = none)
    (fails : stage.failure? host = some failure) (came : Came (past ++ [stage]) host host') :
    Ends plan host (.error failure host')

variable {α β : Type} {p q : List Stage} {host host₁ host₂ : Host}

/-- Stages without calls leave a host as it is. -/
theorem Came.quiet (hcalls : stageCalls p = []) (hwindow : p.filterMap Stage.window? = []) (host : Host) :
    Came p host host where
  refuses_eq := rfl
  pitch_eq := rfl
  calls_eq := by rw [hcalls, List.append_nil]
  window_eq := by rw [hwindow]; rfl

theorem Came.trans (h : Came p host host₁) (h' : Came q host₁ host₂) : Came (p ++ q) host host₂ where
  refuses_eq := h'.refuses_eq.trans h.refuses_eq
  pitch_eq := h'.pitch_eq.trans h.pitch_eq
  calls_eq := by
    rw [h'.calls_eq, h.calls_eq, List.append_assoc, stageCalls, stageCalls, stageCalls, List.filterMap_append]
  window_eq := by rw [h'.window_eq, h.window_eq, List.filterMap_append, List.getLast?_append, Option.or_assoc]

/-- A stage fails in the same way after others that do not make its call. -/
theorem Came.failure?_eq (h : Came p host host₁) {stage : Stage} (hs : ∀ c ∈ stage.call?, c ∉ stageCalls p) :
    stage.failure? host₁ = stage.failure? host := by
  have hrefusal {c : HostCall} (hc : c ∉ stageCalls p) : Stage.refusal? host₁ c = Stage.refusal? host c := by
    rw [Stage.refusal?, Stage.refusal?, h.refuses_eq, h.calls_eq, List.count_append,
      List.count_eq_zero_of_not_mem hc, Nat.add_zero]
  cases stage with
  | call c => exact hrefusal (hs c rfl)
  | window scale => exact hrefusal (hs .window rfl)
  | measure scale => rfl
  | paint => rw [Stage.failure?, Stage.failure?, h.pitch_eq]

/-- An action and what comes after it end by the two plans put together, if no call is in both. -/
theorem Ends.bind {x : Step α} {f : α → Step β} (hx : Ends p host (x host))
    (hf : ∀ a host, Ends q host (f a host)) (hapart : ∀ stage ∈ q, ∀ c ∈ stage.call?, c ∉ stageCalls p) :
    Ends (p ++ q) host ((x >>= f) host) := by
  rw [bind_apply]
  generalize x host = result at hx
  cases hx with
  | @stopped past ahead stage failure host' split passes fails came =>
    have hsplit : p ++ q = past ++ stage :: (ahead ++ q) := by rw [split, List.append_assoc, List.cons_append]
    exact .stopped hsplit passes fails came
  | @passed a host₁ passes came =>
    have hrest := hf a host₁
    show Ends (p ++ q) host (f a host₁)
    generalize f a host₁ = result at hrest
    -- What the second plan finds in `host₁` it would have found in `host`.
    cases hrest with
    | passed passes' came' =>
      refine .passed ?_ (came.trans came')
      refine List.forall_mem_append.2 ⟨passes, fun stage hstage => ?_⟩
      rw [← came.failure?_eq (hapart stage hstage)]
      exact passes' stage hstage
    | @stopped past ahead stage failure host₂ split passes' fails came' =>
      have hsame (s : Stage) (hs : s ∈ q) : s.failure? host₁ = s.failure? host := came.failure?_eq (hapart s hs)
      have hmem : stage ∈ q := by rw [split]; simp
      have hsplit : p ++ q = (p ++ past) ++ stage :: ahead := by rw [split, List.append_assoc]
      refine .stopped hsplit ?_ ((hsame stage hmem) ▸ fails) ?_
      · refine List.forall_mem_append.2 ⟨passes, fun s hs => ?_⟩
        rw [← hsame s (by rw [split]; simp [hs])]
        exact passes' s hs
      · rw [List.append_assoc]
        exact came.trans came'

theorem Ends.first_fails {stage : Stage} {failure : Failure} (h : stage.failure? host = some failure)
    (hcame : Came [stage] host host₁) (ahead : List Stage) :
    Ends (stage :: ahead) host (.error failure host₁ : EStateM.Result Failure Host α) :=
  .stopped (List.nil_append _).symm (List.forall_mem_nil _) h hcame

/-- There is only one first stage that fails. -/
theorem first_unique {past past' ahead ahead' : List Stage} {stage stage' : Stage}
    (h : past ++ stage :: ahead = past' ++ stage' :: ahead') (passes : ∀ s ∈ past, s.failure? host = none)
    (passes' : ∀ s ∈ past', s.failure? host = none) (fails : stage.failure? host ≠ none)
    (fails' : stage'.failure? host ≠ none) : past = past' ∧ stage = stage' := by
  induction past generalizing past' with
  | nil =>
    cases past' with
    | nil => exact ⟨rfl, (List.cons.inj h).1⟩
    | cons s rest =>
      obtain ⟨rfl, -⟩ := List.cons.inj h
      exact absurd (passes' _ List.mem_cons_self) fails
  | cons s rest ih =>
    cases past' with
    | nil =>
      obtain ⟨rfl, -⟩ := List.cons.inj h
      exact absurd (passes _ List.mem_cons_self) fails'
    | cons s' rest' =>
      obtain ⟨rfl, hrest⟩ := List.cons.inj h
      obtain ⟨rfl, rfl⟩ := ih hrest (List.forall_mem_cons.1 passes).2 (List.forall_mem_cons.1 passes').2
      exact ⟨rfl, rfl⟩

/-- The first stage that fails tells where an action ends. -/
theorem Ends.eq_error {past ahead : List Stage} {stage : Stage} {failure : Failure}
    {result : EStateM.Result Failure Host α} (h : Ends (past ++ stage :: ahead) host result)
    (passes : ∀ s ∈ past, s.failure? host = none) (fails : stage.failure? host = some failure) :
    ∃ host', result = .error failure host' ∧ Came (past ++ [stage]) host host' := by
  have hfails : stage.failure? host ≠ none := by rw [fails]; nofun
  cases h with
  | passed passes' _ => exact absurd (passes' stage (by simp)) hfails
  | @stopped past' ahead' stage' failure' host' split passes' fails' came =>
    have hfails' : stage'.failure? host ≠ none := by rw [fails']; nofun
    obtain ⟨rfl, rfl⟩ := first_unique split passes passes' hfails hfails'
    cases fails'.symm.trans fails
    exact ⟨host', rfl, came⟩

/-- An action comes to the first stages of its plan, all of which but the last let it through. -/
theorem Ends.exists_came {result : EStateM.Result Failure Host α} (h : Ends p host result) :
    ∃ came, came <+: p ∧ Came came host (stateLeft result) ∧ ∀ s ∈ came.dropLast, s.failure? host = none := by
  cases h with
  | passed passes came => exact ⟨p, List.prefix_rfl, came, fun s hs => passes s (List.dropLast_subset p hs)⟩
  | @stopped past ahead stage failure host' split passes fails came =>
    have hprefix : past ++ [stage] <+: p := ⟨ahead, by rw [split]; simp⟩
    refine ⟨past ++ [stage], hprefix, came, ?_⟩
    rw [List.dropLast_concat]
    exact passes

theorem ends_call (c : HostCall) (host : Host) : Ends [.call c] host (call c host) := by
  have hcame : Came [.call c] host { host with calls := host.calls ++ [c] } := ⟨rfl, rfl, rfl, rfl⟩
  rw [call_apply]
  cases hr : host.refuses c (host.calls.count c) with
  | none => exact .passed (by simp [Stage.failure?, Stage.refusal?, hr]) hcame
  | some text => exact .first_fails (by simp [Stage.failure?, Stage.refusal?, hr]) hcame []

theorem ends_modify {f : Host → Host} (hrefuses : (f host).refuses = host.refuses)
    (hpitch : (f host).pitch = host.pitch) (hcalls : (f host).calls = host.calls)
    (hwindow : (f host).window = host.window) : Ends [] host ((modify f : Step Unit) host) := by
  have hnone : (f host).calls = host.calls ++ stageCalls [] := hcalls.trans (List.append_nil _).symm
  exact .passed (List.forall_mem_nil _) ⟨hrefuses, hpitch, hnone, hwindow⟩

theorem ends_openWindow (scale : UInt32) (host : Host) :
    Ends [.measure scale, .window scale] host (openWindow scale host) := by
  rw [openWindow_apply]
  cases hmeasure : windowFailure? scale with
  | some failure =>
    have hfails : (Stage.measure scale).failure? host = some failure := hmeasure
    exact .first_fails hfails (.quiet rfl rfl host) _
  | none =>
    let asked : Host :=
      { host with window := some (windowOf scale), calls := host.calls ++ [HostCall.window] }
    have hcame : Came [.measure scale, .window scale] host asked := ⟨rfl, rfl, rfl, rfl⟩
    rw [call_apply]
    cases hr : host.refuses .window (host.calls.count .window) with
    | none =>
      have hwindow : (Stage.window scale).failure? host = none := by simp [Stage.failure?, Stage.refusal?, hr]
      exact .passed (List.forall_mem_cons.2 ⟨hmeasure, List.forall_mem_singleton.2 hwindow⟩) hcame
    | some text =>
      have hwindow : (Stage.window scale).failure? host = some (.host (HostCall.window.refusal text)) := by
        simp [Stage.failure?, Stage.refusal?, hr]
      have hsplit : [.measure scale, .window scale] = [.measure scale] ++ Stage.window scale :: [] := rfl
      exact .stopped hsplit (List.forall_mem_singleton.2 hmeasure) hwindow hcame

theorem ends_paint (frame : Frame) (host : Host) :
    let copied := Texture.copyRows host.blankTexture host.pitch (Texture.shades frame)
    Ends [.paint] host ((sure copied : Step (Array UInt8)) host) := by
  intro copied
  have hrows : ∀ row ∈ Texture.rowsOf displayHeight (Texture.shades frame), row.length = Texture.rowBytes :=
    fun _ => Texture.length_of_mem_rowsOf (Texture.length_shades frame)
  have hcases := @Texture.copyRowsFrom_cases host.blankTexture host.pitch 0 _ hrows
  rw [size_blankTexture, Texture.length_rowsOf] at hcases
  obtain ⟨buffer, hcopy, hnone⟩ | ⟨row, hcopy, hshort⟩ := hcases
  · rw [show copied = _ from hcopy]
    exact .passed (by simp [Stage.failure?, hnone]) (.quiet rfl rfl host)
  · rw [show copied = _ from hcopy]
    exact .first_fails (by rw [Stage.failure?, hshort]; rfl) (.quiet rfl rfl host) []

variable {frame : Frame}

theorem ends_render (hf : frame.Binary) (host : Host) :
    Ends [.call .texture, .call .lock, .paint, .call .copy] host (render frame host) := by
  refine Ends.bind (p := [.call .texture]) (ends_call _ _) (fun _ host => ?_) (by simp [stageCalls, Stage.call?])
  rw [bind_ok (sure_ofFrame hf host)]
  refine Ends.bind (p := [.call .lock]) (ends_call _ _) (fun _ host => ?_) (by simp [stageCalls, Stage.call?])
  rw [bind_ok (get_apply host)]
  refine Ends.bind (p := [.paint]) (ends_paint frame host) (fun _ host => ?_) (by simp [stageCalls, Stage.call?])
  refine Ends.bind (p := []) (ends_modify rfl rfl rfl rfl) (fun _ host => ?_) (by simp [stageCalls])
  exact Ends.bind (p := [.call .copy]) (ends_call _ _) (fun _ _ => ends_modify rfl rfl rfl rfl)
    (List.forall_mem_nil _)

/-- The stages of setting up a host. -/
def setUp (scale : UInt32) : List Stage :=
  [.call .init, .call .video, .measure scale, .window scale, .call .renderer, .call .texture, .call .lock, .paint,
    .call .copy, .call .events]

theorem ends_openHost (scale : UInt32) (host : Host) : Ends (setUp scale) host (Session.openHost scale host) := by
  refine Ends.bind (p := [.call .init]) (ends_call _ _) (fun _ host => ?_) (by simp [stageCalls, Stage.call?])
  refine Ends.bind (p := [.call .video, .measure scale, .window scale, .call .renderer, .call .texture,
    .call .lock, .paint, .call .copy]) ?_ (fun _ => ends_call .events) (by simp [stageCalls, Stage.call?])
  refine Ends.bind (p := [.call .video]) (ends_call _ _) (fun _ host => ?_) (by simp [stageCalls, Stage.call?])
  refine Ends.bind (p := [.measure scale, .window scale]) (ends_openWindow scale host) (fun _ host => ?_)
    (by simp [stageCalls, Stage.call?])
  exact Ends.bind (p := [.call .renderer]) (ends_call _ _) (fun _ => ends_render Frame.blank_binary)
    (by simp [stageCalls, Stage.call?])

/-- On a host that accepts everything, only a window that is too wide is in the way. -/
theorem Accepts.failure?_eq_none (h : host.Accepts) {stage : Stage}
    (hwindow : ∀ scale, stage = .measure scale → windowFailure? scale = none) : stage.failure? host = none := by
  have hrefusal (c : HostCall) : Stage.refusal? host c = none := by
    rw [Stage.refusal?, h.refuses]
    rfl
  cases stage with
  | call c => exact hrefusal c
  | window scale => exact hrefusal .window
  | measure scale => exact hwindow scale rfl
  | paint => exact Stage.failure?_paint h.room

theorem granted_of_ends {x : Step α} (hx : ∀ host, Ends p host (x host))
    (hwindow : ∀ scale, Stage.measure scale ∈ p → windowFailure? scale = none) : Granted x := by
  intro host h
  have hends := hx host
  generalize x host = result at hends
  cases hends with
  | @passed a host' _ came =>
    refine ⟨a, host', rfl, ?_, ?_⟩
    · rw [came.refuses_eq]
      exact h.refuses
    · rw [came.pitch_eq]
      exact h.room
  | @stopped past ahead stage failure host' split _ fails _ =>
    have hpasses : stage.failure? host = none :=
      h.failure?_eq_none fun scale hstage => hwindow scale (by rw [split, ← hstage]; simp)
    cases hpasses.symm.trans fails

theorem granted_render (hf : frame.Binary) : Granted (render frame) :=
  granted_of_ends (ends_render hf) (by simp)

/-- A host that accepts everything can be set up, unless the window is too wide. -/
theorem granted_openHost {scale : UInt32} (h : displayWidth * scale.toNat ≤ maxWindowWidth) :
    Granted (Session.openHost scale) := by
  have hover : ¬UInt32.size ≤ displayWidth * scale.toNat :=
    Nat.not_le.2 (Nat.lt_of_le_of_lt h (by decide))
  have hfits : windowFailure? scale = none := by
    rw [windowFailure?, if_neg hover, if_neg (Nat.not_lt.2 h)]
  apply granted_of_ends (ends_openHost scale)
  intro measured hmem
  obtain rfl : measured = scale := by simpa [setUp] using hmem
  exact hfits

end Host

end ChipEight
