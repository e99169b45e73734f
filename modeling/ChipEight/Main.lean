import ChipEight.CommandLine.Reply
import ChipEight.Host.Files

/-! The program: reads the command line and the file that it names, and prints the reply. -/
namespace ChipEight.CommandLine

/-- The system's text for a failure to read a file. -/
def readFailure (e : IO.Error) : String :=
  match e with
  | .noFileOrDirectory .. => FileError.notFound.text
  | .inappropriateType _ 21 _ => FileError.isADirectory.text
  | .inappropriateType .. => FileError.notADirectory.text
  | e => toString e

def readContent (path : String) : IO (Except String (List UInt8)) := do
  try
    return .ok (← IO.FS.readBinFile path).toList
  catch e =>
    return .error (readFailure e)

def print (reply : Reply) : IO UInt32 := do
  (← IO.getStdout).putStr reply.output
  (← IO.getStderr).putStr reply.errors
  return reply.code.toUInt32

end ChipEight.CommandLine

open ChipEight.CommandLine in
def main (arguments : List String) : IO UInt32 := do
  match parse arguments with
  | .error interruption => print interruption.reply
  | .ok parsed =>
    let content ← readContent parsed.rom
    let seed ← IO.rand 0 (UInt32.size - 1)
    print (runReply parsed seed.toUInt64 content)
