import ChipEight.Host.Texture
import ChipEight.Failure

/-! The host's side of a session: a window with a texture that frames are copied to. Every call may be
refused; the calls made so far and the pictures shown so far are kept. -/
namespace ChipEight

inductive HostCall
  | init
  | video
  | window
  | renderer
  | texture
  | lock
  | copy
  | events
  deriving DecidableEq, Repr

/-- The text for a refused call. Opening the window, its renderer and textures has a heading of its own. -/
def HostCall.refusal (call : HostCall) (text : String) : String :=
  match call with
  | .window | .renderer | .texture => "SDL error: " ++ text
  | .init | .video | .lock | .copy | .events => text

structure Window where
  title : String
  width : Nat
  height : Nat
  centered : Bool
  deriving DecidableEq, Repr

structure Host where
  /-- The text with which the host refuses a call, given how often that call was made before. -/
  refuses : HostCall → Nat → Option String := fun _ _ => none
  /-- Bytes between two rows of a locked texture. -/
  pitch : Nat := Texture.rowBytes
  /-- The byte that fills a texture when it is locked. -/
  filler : UInt8 := 0xAA
  calls : List HostCall := []
  window : Option Window := none
  /-- The buffer of the texture locked last. -/
  buffer : Array UInt8 := #[]
  /-- The pictures shown, in order. -/
  shown : Array Frame := #[]

namespace Host

abbrev Step := EStateM Failure Host

def picture (host : Host) : Frame := host.shown.back?.getD Frame.blank

/-- Whether the bytes behind each row of the texture still are what they were. -/
def paddingKept (host : Host) : Bool :=
  (List.range host.buffer.size).all fun k =>
    k % host.pitch < Texture.rowBytes || host.buffer.getD k 0 == host.filler

/-- Makes a call, which counts also if it is refused. -/
def call (c : HostCall) : Step Unit := do
  let host ← get
  set { host with calls := host.calls ++ [c] }
  match host.refuses c (host.calls.count c) with
  | some text => throw (.host (c.refusal text))
  | none => return ()

/-- Runs a check inside a step of the host. -/
def sure {α : Type} (result : Except Halt α) : Step α :=
  match result with
  | .ok a => return a
  | .error halt => throw (.ofHalt halt)

def maxWindowWidth : Nat := 0x7FFFFFFF

/-- Opens a window with `scale` by `scale` screen pixels for each pixel. -/
def openWindow (scale : UInt32) : Step Unit := do
  let width ← sure (fit32 (displayWidth * scale.toNat : Nat))
  let height ← sure (fit32 (displayHeight * scale.toNat : Nat))
  if maxWindowWidth < width then
    throw (.host s!"Window width ({width}) is too high.")
  modify fun host => { host with window := some { title := "Chip-8", width, height, centered := true } }
  call .window

def render (frame : Frame) : Step Unit := do
  call .texture
  let bytes ← sure (Texture.ofFrame frame)
  call .lock
  let host ← get
  let blank := Array.replicate (displayHeight * host.pitch) host.filler
  let buffer ← sure (Texture.copyRows blank host.pitch bytes)
  modify fun host => { host with buffer }
  call .copy
  modify fun host => { host with shown := host.shown.push (Texture.toFrame host.buffer host.pitch) }

/-- Sets up the display and shows a blank frame. -/
def openDisplay (scale : UInt32) : Step Unit := do
  call .video
  openWindow scale
  call .renderer
  render Frame.blank

end Host

end ChipEight
