import Scriptlet.CommandLine

namespace Scriptlet.Terminal

open CommandLine

/-- No run that anyone waits for meets this bound. -/
def patience : Nat := Nat.pow 2 62

def readFile (path : String) : IO (Except ReadError ByteArray) := do
  try
    return .ok (← IO.FS.readBinFile path)
  catch
    | .inappropriateType .. => return .error .isDirectory
    | .permissionDenied .. => return .error .denied
    | _ => return .error .notFound

/-- Reads up to and including the next line end. -/
partial def readLine (stdin : IO.FS.Stream) (line : ByteArray) : IO ByteArray := do
  let next ← stdin.read 1
  if next.toList.all (· == lineEnd) then return line ++ next
  readLine stdin (line ++ next)

/-- Writes what lies behind the first bytes, and says how many bytes are written then. -/
def display (stdout : IO.FS.Stream) (shown : Nat) (written : ByteArray) : IO Nat := do
  stdout.write (written.extract shown written.size)
  stdout.flush
  return written.size

partial def converse (listTokens : Bool) (d : Dialogue) (shown : Nat) : IO UInt32 := do
  let stdout ← IO.getStdout
  let shown ← display stdout shown d.prompt.machine.output.written
  let line ← readLine (← IO.getStdin) .empty
  let finish (e : Ending) : IO UInt32 := do
    let _ ← display stdout shown e.stdout
    IO.eprint e.stderr
    return e.code
  if line.isEmpty then finish d.prompt.close
  else
    match decode line with
    | .error e => finish (d.prompt.breakOff e)
    | .ok text =>
      match d.prompt.answer patience listTokens text with
      | none => return 1
      | some d =>
        IO.eprint d.stderr
        converse listTokens { d with stderr := "" } (← display stdout shown d.machine.output.written)

def run (args : List String) : IO UInt32 := do
  let options := Options.ofArgs args
  match options.script with
  | none => converse options.listTokens .start 0
  | some path =>
    match runScript patience options.listTokens path (← readFile path) with
    | none => return 1
    | some e =>
      (← IO.getStdout).write e.stdout
      IO.eprint e.stderr
      return e.code

end Scriptlet.Terminal

def main (args : List String) : IO UInt32 := Scriptlet.Terminal.run args
