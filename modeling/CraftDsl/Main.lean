import CraftDsl.Command.Run

/-!
The command line program.
-/
namespace CraftDsl

def ReadError.ofIOError : IO.Error → ReadError
  | .noFileOrDirectory .. => .missing
  | .inappropriateType _ code _ => if code = 21 then .isFolder else .notFolder
  | e => .other (toString e)

def loadInput : Input → IO (Except ReadError (List Char))
  | .path path => do
    try
      let bytes ← IO.FS.readBinFile path
      return .ok (decodeBytes bytes.toList)
    catch e => return .error (.ofIOError e)
  | .standardInput => do
    let bytes ← (← IO.getStdin).readBinToEnd
    return .ok (decodeBytes bytes.toList)
  | .text text => return .ok text.toList

def CommandResult.emit (result : CommandResult) : IO UInt32 := do
  let stderr ← IO.getStderr
  stderr.putStr (String.ofList result.stderr)
  let stdout ← IO.getStdout
  stdout.putStr (String.ofList result.stdout)
  stdout.flush
  return UInt32.ofNat result.exitCode

end CraftDsl

open CraftDsl in
def main (arguments : List String) : IO UInt32 := do
  match Command.ofArguments? arguments with
  | none => Command.misused.emit
  | some command =>
    let loaded ← match command.input? with
      | some input => loadInput input
      | none => pure (.ok [])
    (command.run fun _ => loaded).emit
