namespace Scriptlet

/-- The part of a line that a diagnostic points at. -/
inductive Place where
  | line
  | atEnd
  | lexeme (text : String)
  deriving DecidableEq, Repr

inductive Diagnostic where
  | lexical (line : Nat) (message : String)
  | syntactic (line : Nat) (place : Place) (message : String)
  | runtime (line : Nat) (message : String)
  deriving DecidableEq, Repr

namespace Place

def describe : Place → String
  | line => ""
  | atEnd => " at end"
  | lexeme text => " at '" ++ text ++ "'"

end Place

namespace Diagnostic

def line : Diagnostic → Nat
  | lexical n _ | syntactic n _ _ | runtime n _ => n

def place : Diagnostic → Place
  | syntactic _ p _ => p
  | lexical .. | runtime .. => .line

def message : Diagnostic → String
  | lexical _ m | syntactic _ _ m | runtime _ m => m

/-- Static errors keep a program from running. -/
def isStatic : Diagnostic → Bool
  | runtime .. => false
  | lexical .. | syntactic .. => true

def text : Diagnostic → String
  | runtime n m => m ++ "\n[line " ++ toString n ++ "]"
  | d => "[line " ++ toString d.line ++ "] Error" ++ d.place.describe ++ ": " ++ d.message

end Diagnostic

/-- Diagnostics in the order in which they arose. -/
abbrev Report := List Diagnostic

namespace Report

def hasStatic (r : Report) : Bool := r.any Diagnostic.isStatic

def hasRuntime (r : Report) : Bool := r.any fun d => !d.isStatic

/-- Each diagnostic on lines of its own. -/
def text (r : Report) : String := String.join (r.map fun d => d.text ++ "\n")

end Report

end Scriptlet
