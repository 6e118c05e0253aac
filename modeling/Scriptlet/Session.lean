import Scriptlet.Evaluation.Evaluate
import Scriptlet.Grammar.Program
import Scriptlet.Token.Scan
import Scriptlet.Tree.ReturnPlacement

namespace Scriptlet

/-- How a source text is meant that is run on the machine of a session. -/
inductive Mode where
  /-- A whole program, in which every statement has its semicolon. -/
  | script
  /-- A line of dialogue: its last semicolon may be left out and its last value is shown. -/
  | interactive
  deriving DecidableEq, Repr

namespace Mode

def isInteractive : Mode → Bool
  | script => false
  | interactive => true

end Mode

/-- How a run went: the report, why the last value could not be shown, if so, and the machine as the
run leaves it. -/
structure RunResult where
  report : Report
  echoFailure : Option String
  machine : Machine

namespace Session

/-- The scope of the globals is the first one of a session. -/
def globals : Env := ⟨0, []⟩

/-- A machine on which nothing has run, with room for so many bytes of output. -/
def start (limit : Option Nat) : Machine :=
  { store := (Store.empty.openScope []).2, output := .empty limit, scope := globals }

/-- Executes top-level statements in order up to the first `return`, and ends as the last one that
was executed. -/
def executeTop (bound : Nat) (last : Flow) : List Stmt → Action Flow
  | [] => pure last
  | s :: ss => do
    match ← Evaluation.executeWith (Evaluation.call bound) bound s with
    | .ret v => pure (.ret v)
    | flow => executeTop bound flow ss

/-- What there is to show after a line of dialogue. -/
def echo? (mode : Mode) : Flow → Option String
  | .value v => if mode.isInteractive && !v.isNil then some (v.text ++ "\n") else none
  | _ => none

/-- Runs statements in the scope of the globals, unless the report so far holds a static error. There
is no result if the bound is met. -/
def interpret (bound : Nat) (mode : Mode) (statements : List Stmt) (report : Report) (m : Machine) :
    Option RunResult :=
  if report.hasStatic then some ⟨report, none, m⟩
  else
    match executeTop bound .normal statements { m with scope := globals } with
    | .unfinished => none
    | .error e m => some ⟨report ++ [e.diagnostic], none, m⟩
    | .done flow m =>
      match echo? mode flow with
      | none => some ⟨report, none, m⟩
      | some text =>
        match m.output.write text with
        | (output, true) => some ⟨report, none, { m with output }⟩
        | (output, false) => some ⟨report, some output.refusal, { m with output }⟩

/-- Runs the program that tokens make up. `report` holds what was found wrong with the text before. -/
def runTokens (bound : Nat) (mode : Mode) (tokens : List Token) (report : Report) (m : Machine) :
    Option RunResult :=
  let program := Program.ofTokens mode.isInteractive tokens
  interpret bound mode program.statements
    (report ++ program.report ++ checkReturns program.statements) m

/-- Runs a source text. -/
def run (bound : Nat) (mode : Mode) (source : String) (m : Machine) : Option RunResult :=
  let scan := Scan.ofText source
  runTokens bound mode scan.tokens scan.errors m

end Session

end Scriptlet
