import ChipEight.Proofs.FinalPicture

/-! How a start ends. The program is read, checked for its size and logged, and then the host is set up; the
first failure ends the start and is what it returns. A window is asked for in its true size or not at all. -/
namespace ChipEight

namespace Host

/-- A window has been asked for after all that comes before it, in a size that is not too large. -/
structure WindowAsked (scale : UInt32) (host host' : Host) : Prop where
  init : Stage.refusal? host .init = none
  video : Stage.refusal? host .video = none
  width_lt : 64 * scale.toNat < 2 ^ 31
  window_eq : host'.window =
    some { title := "Chip-8", width := 64 * scale.toNat, height := 32 * scale.toNat, centered := true }

/-- The failure for the width of a window that is too large. -/
def widthFailure (scale : UInt32) : Failure :=
  if 64 * scale.toNat < 2 ^ 32 then .host s!"Window width ({64 * scale.toNat}) is too high."
  else .defect .overflow

variable {scale : UInt32} {host : Host} {came : List Stage}

theorem Stage.failure?_measure (scale : UInt32) (host : Host) :
    (measure scale).failure? host = if 64 * scale.toNat < 2 ^ 31 then none else some (widthFailure scale) := by
  have hmax : maxWindowWidth < displayWidth * scale.toNat ↔ ¬64 * scale.toNat < 2 ^ 31 := Nat.not_lt.symm
  have hover : UInt32.size ≤ displayWidth * scale.toNat ↔ ¬64 * scale.toNat < 2 ^ 32 := Nat.not_lt.symm
  rw [failure?, windowFailure?, widthFailure]
  by_cases hnarrow : 64 * scale.toNat < 2 ^ 31
  · have hfits : 64 * scale.toNat < 2 ^ 32 := Nat.lt_trans hnarrow (by decide)
    simp only [hmax, hover, hnarrow, hfits, not_true_eq_false, if_true, if_false]
  · by_cases hfits : 64 * scale.toNat < 2 ^ 32
    · simp only [hmax, hover, hnarrow, hfits, not_true_eq_false, not_false_eq_true, if_true, if_false]
      rfl
    · simp only [hover, hnarrow, hfits, not_false_eq_true, if_true, if_false]

/-- What comes before a window is asked for. -/
def beforeWindow (scale : UInt32) : List Stage := [.call .init, .call .video, .measure scale]

def afterWindow : List Stage :=
  [.call .renderer, .call .texture, .call .lock, .paint, .call .copy, .call .events]

/-- Setting up a host ends before a window is asked for, or asks for it. -/
theorem prefix_setUp_cases (h : came <+: setUp scale) :
    came <+: beforeWindow scale ∨
      ∃ rest, rest <+: afterWindow ∧ came = beforeWindow scale ++ .window scale :: rest := by
  have hplan : beforeWindow scale ++ .window scale :: afterWindow = setUp scale := rfl
  have hbefore : beforeWindow scale <+: setUp scale := ⟨_, hplan⟩
  by_cases hlength : came.length ≤ (beforeWindow scale).length
  · exact .inl (List.prefix_of_prefix_length_le h hbefore hlength)
  · obtain ⟨rest, rfl⟩ := List.prefix_of_prefix_length_le hbefore h (Nat.le_of_not_le hlength)
    rw [← hplan, List.prefix_append_right_inj] at h
    cases rest with
    | nil => simp at hlength
    | cons stage rest =>
      obtain ⟨rfl, hrest⟩ := List.cons_prefix_cons.1 h
      exact .inr ⟨rest, hrest, rfl⟩

theorem windowAsked_of_passed {host' : Host} (h : ∀ stage ∈ beforeWindow scale, stage.failure? host = none)
    (hwindow : host'.window = some (windowOf scale)) : WindowAsked scale host host' where
  init := h (.call .init) (by simp [beforeWindow])
  video := h (.call .video) (by simp [beforeWindow])
  width_lt := by
    have hmeasure := h (.measure scale) (by simp [beforeWindow])
    rw [Stage.failure?_measure] at hmeasure
    by_contra hwide
    rw [if_neg hwide] at hmeasure
    cases hmeasure
  window_eq := hwindow

/-- Which calls are made when a host is set up, and when a window is among them. -/
theorem Ends.exists_made {α : Type} {result : EStateM.Result Failure Host α}
    (h : Ends (setUp scale) host result) :
    ∃ made, (stateLeft result).calls = host.calls ++ made ∧
      made <+: [.init, .video, .window, .renderer, .texture, .lock, .copy, .events] ∧
      (.window ∉ made → (stateLeft result).window = host.window) ∧
      (.window ∈ made → WindowAsked scale host (stateLeft result)) := by
  obtain ⟨came, hprefix, hcame, hpasses⟩ := h.exists_came
  refine ⟨stageCalls came, hcame.calls_eq, hprefix.filterMap Stage.call?, ?_⟩
  obtain hbefore | ⟨rest, hrest, rfl⟩ := prefix_setUp_cases hprefix
  · have hnone : came.filterMap Stage.window? = [] := List.prefix_nil.1 (hbefore.filterMap Stage.window?)
    have hcalls : stageCalls came <+: [.init, .video] := hbefore.filterMap Stage.call?
    refine ⟨fun _ => ?_, fun hwindow => ?_⟩
    · rw [hcame.window_eq, hnone]
      rfl
    · cases hcalls.subset hwindow with
      | tail _ hvideo => cases hvideo with
        | tail _ hnil => cases hnil
  · have hmem : HostCall.window ∈ stageCalls (beforeWindow scale ++ .window scale :: rest) :=
      List.mem_filterMap.2 ⟨.window scale, by simp, rfl⟩
    have hbefore : ∀ stage ∈ beforeWindow scale, stage.failure? host = none := by
      intro stage hstage
      apply hpasses
      rw [List.dropLast_append_cons]
      exact List.mem_append_left _ hstage
    have hnone : rest.filterMap Stage.window? = [] := List.prefix_nil.1 (hrest.filterMap Stage.window?)
    have hwindow : (stateLeft result).window = some (windowOf scale) := by
      rw [hcame.window_eq, List.filterMap_append, List.filterMap_cons, hnone]
      rfl
    exact ⟨fun hnot => absurd hmem hnot, fun _ => windowAsked_of_passed hbefore hwindow⟩

end Host

namespace Session

variable {ρ γ ε τ : Type}

/-- How a start ends: at once if the program cannot be read or is too large, and else as setting up the host
does. -/
inductive Started [Clock γ τ] (path : String) (content : Except String (List UInt8)) (scale : UInt32)
    (machine : Machine ρ KeypadView γ) (events : ε) (desk : Desk) :
    EStateM.Result Failure Desk (Session ρ γ ε) → Prop
  | unreadable {cause : String} (read : content = .error cause) :
    Started path content scale machine events desk (.error (.unreadableRom path cause) desk)
  | tooLarge {rom : List UInt8} (read : content = .ok rom) (large : 3584 < rom.length) :
    Started path content scale machine events desk
      (.error (.unloadableRom path (.romTooLarge rom.length 3584)) desk)
  | failed {rom : List UInt8} {failure : Failure} {host : Host} (read : content = .ok rom)
    (fits : rom.length ≤ 3584)
    (ends : Host.Ends (Host.setUp scale) desk.host (.error failure host : EStateM.Result Failure Host Unit)) :
    Started path content scale machine events desk
      (.error failure { host, log := desk.log ++ [loadedLine path rom] })
  | opened {rom : List UInt8} {host : Host} (read : content = .ok rom) (fits : rom.length ≤ 3584)
    (ends : Host.Ends (Host.setUp scale) desk.host (.ok () host)) :
    Started path content scale machine events desk
      (.ok (opened (machine.loaded rom) host events (desk.log ++ [loadedLine path rom]))
        { host, log := desk.log ++ [loadedLine path rom] })

section
variable [Clock γ τ]

theorem start_tooLarge {rom : List UInt8} (h : Memory.maxProgramSize < rom.length) (path : String) (scale : UInt32)
    (machine : Machine ρ KeypadView γ) (events : ε) (desk : Desk) :
    start path (.ok rom) scale machine events desk =
      .error (.unloadableRom path (.romTooLarge rom.length Memory.maxProgramSize)) desk := by
  have hload : loadProgram path (.ok rom) machine desk =
      .error (.unloadableRom path (.romTooLarge rom.length Memory.maxProgramSize)) desk := by
    simp only [loadProgram, Machine.load_apply, Rom.sizeFault, if_pos h]
    rfl
  rw [start, bind_apply, hload]

/-- With a program that fits, a start fails if setting up the host does. -/
theorem start_failed {rom : List UInt8} (hrom : rom.length ≤ Memory.maxProgramSize) {scale : UInt32} (desk : Desk)
    {failure : Failure} {host : Host} (hopen : openHost scale desk.host = .error failure host) (path : String)
    (machine : Machine ρ KeypadView γ) (events : ε) :
    start path (.ok rom) scale machine events desk =
      .error failure { host, log := desk.log ++ [loadedLine path rom] } := by
  rw [start, bind_ok (loadProgram_of_fits hrom path machine desk), bind_apply]
  simp only [onHost, hopen]

theorem started (path : String) (content : Except String (List UInt8)) (scale : UInt32)
    (machine : Machine ρ KeypadView γ) (events : ε) (desk : Desk) :
    Started path content scale machine events desk (start path content scale machine events desk) := by
  cases content with
  | error cause => exact .unreadable rfl
  | ok rom =>
    by_cases hlarge : Memory.maxProgramSize < rom.length
    · rw [start_tooLarge hlarge]
      exact .tooLarge rfl hlarge
    · have hfits : rom.length ≤ Memory.maxProgramSize := Nat.le_of_not_lt hlarge
      have hends := Host.ends_openHost scale desk.host
      cases hopen : openHost scale desk.host with
      | ok _ host =>
        rw [start_eq hfits desk hopen]
        rw [hopen] at hends
        exact .opened rfl hfits hends
      | error failure host =>
        rw [start_failed hfits desk hopen]
        rw [hopen] at hends
        exact .failed rfl hfits hends

end

variable [EventSource ε] [Randomizer ρ] [LE τ] [Timescale τ] [Clock γ τ]

/-- A start stops at its first failure, which is what is reported, and asks for a window in its true size or
not at all: where that is too wide, it stops with a failure before the window is asked for. -/
theorem start_stops_at_first_failure (path : String) (content : Except String (List UInt8)) (scale : UInt32)
    (machine : Machine ρ KeypadView γ) (events : ε) (desk : Desk) :
    let result := start path content scale machine events desk
    Started path content scale machine events desk result ∧
    (∃ made, (stateLeft result).host.calls = desk.host.calls ++ made ∧
      made <+: [.init, .video, .window, .renderer, .texture, .lock, .copy, .events] ∧
      (.window ∉ made → (stateLeft result).host.window = desk.host.window) ∧
      (.window ∈ made → (∃ rom, content = .ok rom ∧ rom.length ≤ 3584) ∧
        Host.WindowAsked scale desk.host (stateLeft result).host)) ∧
    (∀ rom, content = .ok rom → rom.length ≤ 3584 → Host.Stage.refusal? desk.host .init = none →
      Host.Stage.refusal? desk.host .video = none → 2 ^ 31 ≤ 64 * scale.toNat →
        ∃ host, result = .error (Host.widthFailure scale) { host, log := desk.log ++ [loadedLine path rom] } ∧
          host.calls = desk.host.calls ++ [.init, .video] ∧ host.window = desk.host.window) ∧
    ∀ failure desk', start path content scale machine events { host := desk.host } = .error failure desk' →
      ∀ limit, report path content scale desk.host machine events limit =
        { outcome := .error failure, host := desk'.host, log := desk'.log } := by
  intro result
  have hstarted : Started path content scale machine events desk result :=
    started path content scale machine events desk
  refine ⟨hstarted, ?_, ?_, ?_⟩
  · generalize result = result at hstarted
    cases hstarted with
    | unreadable read => exact ⟨[], (List.append_nil _).symm, List.nil_prefix, fun _ => rfl, nofun⟩
    | tooLarge read large => exact ⟨[], (List.append_nil _).symm, List.nil_prefix, fun _ => rfl, nofun⟩
    | @failed rom failure host read fits ends =>
      obtain ⟨made, hcalls, hprefix, hnone, hasked⟩ := ends.exists_made
      exact ⟨made, hcalls, hprefix, hnone, fun hwindow => ⟨⟨rom, read, fits⟩, hasked hwindow⟩⟩
    | @opened rom host read fits ends =>
      obtain ⟨made, hcalls, hprefix, hnone, hasked⟩ := ends.exists_made
      exact ⟨made, hcalls, hprefix, hnone, fun hwindow => ⟨⟨rom, read, fits⟩, hasked hwindow⟩⟩
  · rintro rom rfl hfits hinit hvideo hwide
    have hends : Host.Ends ([.call .init, .call .video] ++ .measure scale :: .window scale :: Host.afterWindow)
        desk.host (openHost scale desk.host) := Host.ends_openHost scale desk.host
    have hmeasure : (Host.Stage.measure scale).failure? desk.host = some (Host.widthFailure scale) := by
      rw [Host.Stage.failure?_measure, if_neg (Nat.not_lt.2 hwide)]
    have hpasses : ∀ s ∈ [Host.Stage.call .init, .call .video], s.failure? desk.host = none :=
      List.forall_mem_cons.2 ⟨hinit, List.forall_mem_singleton.2 hvideo⟩
    obtain ⟨host, hopen, hcame⟩ := hends.eq_error hpasses hmeasure
    exact ⟨host, start_failed hfits desk hopen path machine events, hcame.calls_eq, hcame.window_eq⟩
  · intro failure desk' h limit
    rw [report, h]

/-- A host that refuses to put anything into a window, and one that accepts everything with a scale that would
make the window's width wrap around to none. -/
theorem start_stops_at_renderer_and_width :
    let start (scale : UInt32) (host : Host) :=
      Session.start "rom.ch8" (.ok figureThenFault) scale freshMachine ([] : List (List HostEvent)) { host }
    let refusing : Host := { refuses := fun c _ => if c = .renderer then some "none left" else none }
    let log := [loadedLine "rom.ch8" figureThenFault]
    (∃ host, start 10 refusing = .error (.host "SDL error: none left") { host, log } ∧
      host.calls = [.init, .video, .window, .renderer] ∧
      host.window = some { title := "Chip-8", width := 640, height := 320, centered := true }) ∧
    ∃ host, start 0x4000000 {} = .error (.defect .overflow) { host, log } ∧
      host.calls = [.init, .video] ∧ host.window = none := by
  intro start refusing log
  constructor
  · have hends : Host.Ends ([.call .init, .call .video, .measure 10, .window 10] ++
        .call .renderer :: Host.afterWindow.tail) refusing (openHost 10 refusing) :=
      Host.ends_openHost 10 refusing
    have hpasses : ∀ s ∈ [Host.Stage.call .init, .call .video, .measure 10, .window 10],
        s.failure? refusing = none := by
      simp only [List.forall_mem_cons]
      exact ⟨rfl, rfl, rfl, rfl, List.forall_mem_nil _⟩
    obtain ⟨host, hopen, hcame⟩ := hends.eq_error hpasses rfl
    have hstart : start 10 refusing = .error (.host "SDL error: none left") { host, log } :=
      start_failed figureThenFault_fits { host := refusing } hopen "rom.ch8" freshMachine _
    obtain ⟨-, ⟨made, hmade, -, -, hasked⟩, -⟩ := start_stops_at_first_failure "rom.ch8" (.ok figureThenFault) 10
      freshMachine ([] : List (List HostEvent)) { host := refusing }
    rw [show Session.start _ _ _ _ _ _ = _ from hstart] at hmade hasked
    have hcalls : host.calls = [.init, .video, .window, .renderer] := hcame.calls_eq
    obtain rfl : host.calls = made := hmade
    rw [hcalls] at hasked
    exact ⟨host, hstart, hcalls, (hasked (by simp)).2.window_eq⟩
  · obtain ⟨-, -, hwide, -⟩ := start_stops_at_first_failure "rom.ch8" (.ok figureThenFault) 0x4000000
      freshMachine ([] : List (List HostEvent)) {}
    exact hwide figureThenFault rfl figureThenFault_fits rfl rfl (by decide)

end Session

end ChipEight
