import Scriptlet.Session

namespace Scriptlet.CommandLine

/-- With a path the script there is run, and without one the lines of the input. -/
structure Options where
  script : Option String
  listTokens : Bool
  deriving DecidableEq, Repr

namespace Options

/-- Takes further arguments into account. Behind `--` an argument is a path whatever it looks like. -/
def extend (o : Options) : List String → Options
  | [] => o
  | "--" :: rest => { o with script := rest.head? <|> o.script }
  | "--tokens" :: rest => { o with listTokens := true }.extend rest
  | path :: rest => { o with script := some path }.extend rest

def ofArgs (args : List String) : Options := extend ⟨none, false⟩ args

end Options

/-- Why a file or the input could not be read. -/
inductive ReadError where
  | notFound
  | isDirectory
  | denied
  | notText
  deriving DecidableEq, Repr

namespace ReadError

def message : ReadError → String
  | notFound => "No such file or directory (os error 2)"
  | isDirectory => "Is a directory (os error 21)"
  | denied => "Permission denied (os error 13)"
  | notText => "stream did not contain valid UTF-8"

end ReadError

def staticErrorCode : UInt32 := 65
def runtimeErrorCode : UInt32 := 70
def readErrorCode : UInt32 := 74

/-- The text that bytes encode. -/
def decode (bytes : ByteArray) : Except ReadError String :=
  match String.fromUTF8? bytes with
  | some text => .ok text
  | none => .error .notText

/-- The number right-aligned in four columns. -/
def column (n : Nat) : String :=
  let digits := toString n
  String.ofList (List.replicate (4 - digits.length) ' ') ++ digits

def listing (tokens : List Token) : String :=
  String.join (tokens.map fun t => column t.line ++ " " ++ t.display ++ "\n")

/-- The machine after a text was run, what is written to the error stream, and the report. -/
structure TextResult where
  machine : Machine
  stderr : String
  report : Report

/-- Runs a text after its tokens are listed, if they are to be. -/
def runText (bound : Nat) (mode : Mode) (listTokens : Bool) (text : String) (m : Machine) :
    Option TextResult := do
  let scan := Scan.ofText text
  let result ← Session.runTokens bound mode scan.tokens scan.errors m
  let listed := if listTokens then listing scan.tokens else ""
  return ⟨result.machine, listed ++ result.report.text, result.report⟩

/-- What the program leaves behind when it ends. -/
structure Ending where
  stdout : ByteArray
  stderr : String
  code : UInt32

def codeOf (r : Report) : UInt32 :=
  if r.hasStatic then staticErrorCode else if r.hasRuntime then runtimeErrorCode else 0

/-- Runs the script at a path, given what reading it gave. -/
def runScript (bound : Nat) (listTokens : Bool) (path : String) (content : Except ReadError ByteArray) :
    Option Ending :=
  match content >>= decode with
  | .error e => some ⟨.empty, "Could not read '" ++ path ++ "': " ++ e.message ++ "\n", readErrorCode⟩
  | .ok text => do
    let result ← runText bound .script listTokens text (Session.start none)
    return ⟨result.machine.output.written, result.stderr, codeOf result.report⟩

/-- The dialogue as it stands: the machine, whose output includes the prompts, and the error stream. -/
structure Dialogue where
  machine : Machine
  stderr : String

namespace Dialogue

def start : Dialogue := ⟨Session.start none, ""⟩

def write (d : Dialogue) (text : String) : Dialogue :=
  { d with machine := { d.machine with output := (d.machine.output.write text).1 } }

def prompt (d : Dialogue) : Dialogue := d.write "> "

/-- Runs one line, its line end included. -/
def answer (bound : Nat) (listTokens : Bool) (line : String) (d : Dialogue) : Option Dialogue := do
  let result ← runText bound .interactive listTokens line d.machine
  return ⟨result.machine, d.stderr ++ result.stderr⟩

def ending (d : Dialogue) (code : UInt32) : Ending := ⟨d.machine.output.written, d.stderr, code⟩

/-- The dialogue ends with a line end of its own. -/
def close (d : Dialogue) : Ending := (d.write "\n").ending 0

/-- A line that cannot be read breaks the dialogue off. -/
def breakOff (d : Dialogue) (e : ReadError) : Ending :=
  { d with stderr := d.stderr ++ e.message ++ "\n" }.ending readErrorCode

/-- Runs lines one by one, with a prompt before each and before the end. -/
def converse (bound : Nat) (listTokens : Bool) : List ByteArray → Dialogue → Option Ending
  | [], d => some d.prompt.close
  | line :: lines, d =>
    match decode line with
    | .error e => some (d.prompt.breakOff e)
    | .ok text => (d.prompt.answer bound listTokens text).bind (converse bound listTokens lines)

end Dialogue

def lineEnd : UInt8 := 10

/-- Splits bytes behind each line end. -/
def lines (bytes : List UInt8) : List ByteArray :=
  (bytes.foldr (fun b rest =>
    match rest with
    | [] => [[b]]
    | line :: more => if b == lineEnd then [b] :: line :: more else (b :: line) :: more) []).map
      List.toByteArray

/-- Runs the program on its arguments. `read` gives the content of the file at a path. -/
def run (bound : Nat) (args : List String) (read : String → Except ReadError ByteArray)
    (stdin : ByteArray) : Option Ending :=
  let options := Options.ofArgs args
  match options.script with
  | some path => runScript bound options.listTokens path (read path)
  | none => Dialogue.converse bound options.listTokens (lines stdin.toList) .start

end Scriptlet.CommandLine
