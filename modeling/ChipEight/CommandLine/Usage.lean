import ChipEight.CommandLine.Numeral

/-! The texts of the command line: help, version, and what is said about a wrong use. -/
namespace ChipEight.CommandLine

def maxScale : Nat := UInt32.size - 1

/-- The scale without a `--scale` option. -/
def defaultScale : UInt32 := 10

/-- Why a value is no scale. -/
inductive ScaleError
  | numeral (e : NumeralError)
  | outOfRange (value : Int)
  deriving DecidableEq, Repr

def ScaleError.text : ScaleError → String
  | .numeral e => e.text
  | .outOfRange value => s!"{value} is not in 0..={maxScale}"

inductive UsageError
  | missingRom
  | unexpected (argument : String)
  /-- `owner` lacks its value. -/
  | missingValue (owner : String)
  | invalidScale (value : String) (why : ScaleError)
  | repeatedScale
  /-- `flag` takes no value. -/
  | unneededValue (value flag : String)
  deriving DecidableEq, Repr

def scaleUsage : String := "--scale <SCALE>"

def romUsage : String := "<ROM>"

def UsageError.message : UsageError → String
  | .missingRom => "error: the following required arguments were not provided:"
  | .unexpected argument => s!"error: unexpected argument '{argument}' found"
  | .missingValue owner => s!"error: a value is required for '{owner}' but none was supplied"
  | .invalidScale value why => s!"error: invalid value '{value}' for '{scaleUsage}': {why.text}"
  | .repeatedScale => s!"error: the argument '{scaleUsage}' cannot be used multiple times"
  | .unneededValue value flag =>
    s!"error: unexpected value '{value}' for '{flag}' found; no more were expected"

def version : String := "chip8 0.1.0\n"

def paragraphs (lines : List String) : String := String.join (lines.map (· ++ "\n"))

def shortHelp : String := paragraphs [
  "Runs a Chip-8 ROM in an SDL2 window",
  "",
  "Usage: chip8 [OPTIONS] <ROM>",
  "",
  "Arguments:",
  "  <ROM>  Path to the ROM file to run",
  "",
  "Options:",
  "  -s, --scale <SCALE>  Size of each Chip-8 pixel in screen pixels [default: 10]",
  "  -h, --help           Print help (see more with '--help')",
  "  -V, --version        Print version"]

def longHelp : String := paragraphs [
  "Runs a Chip-8 ROM in an SDL2 window.",
  "",
  "The keypad is mapped onto 1234/QWER/ASDF/ZXCV; Escape quits. " ++
    "Set RUST_LOG (e.g. RUST_LOG=chip8_core=trace) to see what the CPU is doing.",
  "",
  "Usage: chip8 [OPTIONS] <ROM>",
  "",
  "Arguments:",
  "  <ROM>",
  "          Path to the ROM file to run",
  "",
  "Options:",
  "  -s, --scale <SCALE>",
  "          Size of each Chip-8 pixel in screen pixels",
  "          ",
  "          [default: 10]",
  "",
  "  -h, --help",
  "          Print help (see a summary with '-h')",
  "",
  "  -V, --version",
  "          Print version"]

end ChipEight.CommandLine
