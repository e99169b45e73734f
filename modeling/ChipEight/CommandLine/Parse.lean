import ChipEight.CommandLine.Usage

/-! Reading the command line. A value that stands in an argument of its own stays pending and is only
looked at when the next option or argument is taken, so an unknown option is reported first. -/
namespace ChipEight.CommandLine

structure Arguments where
  rom : String
  scale : UInt32
  deriving DecidableEq, Repr

/-- What ends the reading before the arguments are complete. -/
inductive Interruption
  | shortHelp
  | longHelp
  | version
  | misuse (e : UsageError)
  deriving DecidableEq, Repr

/-- What has been read but not looked at. -/
inductive Pending
  /-- A scale option, with its value once that has been read. -/
  | scale (value : Option String)
  | rom (value : String)
  deriving DecidableEq, Repr

structure Progress where
  rom : Option String := none
  scale : Option UInt32 := none
  pending : Option Pending := none
  /-- Set behind `--`: everything that follows is an argument. -/
  trailing : Bool := false

namespace Progress

def readScale (value : String) : Except ScaleError UInt32 :=
  match Numeral.read value.toList with
  | .error e => .error (.numeral e)
  | .ok n => if 0 ≤ n ∧ n ≤ maxScale then .ok n.toNat.toUInt32 else .error (.outOfRange n)

def takeScale (p : Progress) (value : String) : Except Interruption Progress :=
  if p.scale.isSome then .error (.misuse .repeatedScale)
  else
    match readScale value with
    | .ok scale => .ok { p with scale := some scale }
    | .error why => .error (.misuse (.invalidScale value why))

def settle (p : Progress) : Except Interruption Progress :=
  let rest := { p with pending := none }
  match p.pending with
  | none => .ok p
  | some (.scale none) => .error (.misuse (.missingValue scaleUsage))
  | some (.scale (some value)) => rest.takeScale value
  | some (.rom "") => .error (.misuse (.missingValue romUsage))
  | some (.rom value) => .ok { rest with rom := some value }

def hasRom (p : Progress) : Bool :=
  match p.pending with
  | some (.rom _) => true
  | _ => p.rom.isSome

def scaleOption (p : Progress) (attached : Option String) : Except Interruption Progress := do
  let p ← p.settle
  match attached with
  | some value => p.takeScale value
  | none => return { p with pending := some (.scale none) }

/-- An option that asks for a text instead of a run. -/
def flag (p : Progress) (answer : Interruption) : Except Interruption Progress := do
  let _ ← p.settle
  throw answer

/-- An option with a long name, and the value after its equals sign. -/
def longOption (p : Progress) (name : String) (attached : Option String) :
    Except Interruption Progress :=
  match name, attached with
  | "scale", attached => p.scaleOption attached
  | "help", none => p.flag .longHelp
  | "version", none => p.flag .version
  | "help", some value => throw (.misuse (.unneededValue value "--help"))
  | "version", some value => throw (.misuse (.unneededValue value "--version"))
  | _, _ => throw (.misuse (.unexpected ("--" ++ name)))

/-- The value attached to a short option, which may begin with an equals sign. -/
def attachedValue : List Char → Option String
  | [] => none
  | '=' :: value => some (String.ofList value)
  | value => some (String.ofList value)

/-- Options with short names. Every option but the scale ends the reading. -/
def shortOptions (p : Progress) : List Char → Except Interruption Progress
  | [] => .ok p
  | 's' :: value => p.scaleOption (attachedValue value)
  | 'h' :: _ => p.flag .shortHelp
  | 'V' :: _ => p.flag .version
  | c :: _ => throw (.misuse (.unexpected (String.ofList ['-', c])))

/-- An argument that is no option: the value of a scale option that lacks one, or the program. -/
def plain (p : Progress) (argument : String) : Except Interruption Progress :=
  if p.pending = some (.scale none) ∧ p.trailing = false then
    .ok { p with pending := some (.scale (some argument)) }
  else if p.hasRom then throw (.misuse (.unexpected argument))
  else do
    let p ← p.settle
    return { p with pending := some (.rom argument) }

/-- Splits a long option at its first equals sign. -/
def splitOption (option : List Char) : String × Option String :=
  match option.dropWhile (· != '=') with
  | [] => (String.ofList option, none)
  | _ :: value => (String.ofList (option.takeWhile (· != '=')), some (String.ofList value))

def take (p : Progress) (argument : String) : Except Interruption Progress :=
  if p.trailing then p.plain argument
  else
    match argument.toList with
    | ['-', '-'] => .ok { p with trailing := true }
    | '-' :: '-' :: option =>
      let (name, attached) := splitOption option
      p.longOption name attached
    | '-' :: c :: options => p.shortOptions (c :: options)
    | _ => p.plain argument

/-- Looks at what is still pending, and completes the arguments. -/
def finish (p : Progress) : Except Interruption Arguments := do
  let p ← p.settle
  match p.rom with
  | some rom => return { rom, scale := p.scale.getD defaultScale }
  | none => throw (.misuse .missingRom)

end Progress

def parse (arguments : List String) : Except Interruption Arguments := do
  let p ← arguments.foldlM Progress.take {}
  p.finish

end ChipEight.CommandLine
