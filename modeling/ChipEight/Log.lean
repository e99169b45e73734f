/-! Lines of a log. -/
namespace ChipEight

inductive LogLevel
  | trace
  | debug
  | info
  | warn
  | error
  deriving DecidableEq, Repr

def LogLevel.name : LogLevel → String
  | .trace => "TRACE"
  | .debug => "DEBUG"
  | .info => "INFO"
  | .warn => "WARN"
  | .error => "ERROR"

structure LogLine where
  level : LogLevel
  text : String
  deriving DecidableEq, Repr

/-- The level in front of the text. -/
def LogLine.render (line : LogLine) : String := line.level.name ++ " " ++ line.text

/-- The lines of a log that report errors. -/
def errorLines (log : List LogLine) : List LogLine := log.filter (·.level = .error)

end ChipEight
