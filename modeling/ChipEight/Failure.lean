import ChipEight.Fault

/-! Why a session ends before its user ends it. -/
namespace ChipEight

inductive Failure
  | unreadableRom (path cause : String)
  | unloadableRom (path : String) (cause : Fault)
  | host (text : String)
  | emulation (cause : Fault)
  /-- A cycle met a defect. -/
  | crashed (cause : Defect)
  /-- The session itself met a defect. -/
  | defect (cause : Defect)
  deriving DecidableEq, Repr

def Failure.ofHalt : Halt → Failure
  | .fault cause => .emulation cause
  | .defect cause => .defect cause

/-- The text of a failure, followed by that of its cause if it has one. -/
def Failure.messages : Failure → List String
  | .unreadableRom path cause => ["unable to read ROM " ++ path, cause]
  | .unloadableRom path cause => ["unable to load ROM " ++ path, cause.message]
  | .host text => [text]
  | .emulation cause => ["emulation stopped", cause.message]
  | .crashed _ => ["CPU thread panicked"]
  | .defect _ => []

end ChipEight
