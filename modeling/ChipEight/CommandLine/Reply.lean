import ChipEight.CommandLine.Parse
import ChipEight.Session.Start

/-! What the program prints, and its exit code. -/
namespace ChipEight.CommandLine

structure Reply where
  code : Nat
  output : String := ""
  errors : String := ""
  /-- The size of the window, if a session ended well. -/
  window : Option (Nat × Nat) := none
  deriving DecidableEq, Repr

def Interruption.reply : Interruption → Reply
  | .shortHelp => { code := 0, output := CommandLine.shortHelp }
  | .longHelp => { code := 0, output := CommandLine.longHelp }
  | .version => { code := 0, output := CommandLine.version }
  | .misuse e => { code := 2, errors := e.message ++ "\n" }

/-- A failure's text, and its cause in a paragraph of its own. -/
def errorReport : List String → String
  | [] => ""
  | [text] => s!"Error: {text}\n"
  | text :: causes => s!"Error: {text}\n\nCaused by:\n" ++ String.join (causes.map fun c => s!"    {c}\n")

def reportReply (report : Session.Report) : Reply :=
  match report.outcome with
  | .ok () => { code := 0, window := report.host.window.map fun w => (w.width, w.height) }
  | .error (.defect _) => { code := 101 }
  | .error failure => { code := 1, errors := errorReport failure.messages }

/-- Runs the program that the arguments name on a host whose user quits at once; `content` is what
reading its file came to. -/
def runReply (arguments : Arguments) (seed : UInt64) (content : Except String (List UInt8)) : Reply :=
  reportReply (Session.report arguments.rom content arguments.scale {} (Session.newMachine seed)
    ([[.quit]] : List (List HostEvent)) 1000)

end ChipEight.CommandLine
