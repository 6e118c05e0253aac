import Scriptlet.Diagnostic
import Scriptlet.Token.Segment

namespace Scriptlet

/-- The tokens of a text, closed by the one token of kind `eof`, and the errors found beside them. -/
structure Scan where
  tokens : List Token
  errors : Report

namespace Segment

def lineEnds (s : Segment) : Nat := s.text.count '\n'

/-- Pairs each segment with the line on which it ends. -/
def withLines (line : Nat) : List Segment → List (Segment × Nat)
  | [] => []
  | s :: ss => (s, line + s.lineEnds) :: withLines (line + s.lineEnds) ss

def token? : Segment × Nat → Option Token
  | (⟨.token kind literal, text⟩, line) => some ⟨kind, String.ofList text, literal, line⟩
  | _ => none

def error? : Segment × Nat → Option Diagnostic
  | (⟨.unterminated, _⟩, line) => some (.lexical line "Unterminated string.")
  | (⟨.unexpected, _⟩, line) => some (.lexical line "Unexpected character.")
  | _ => none

end Segment

namespace Scan

def eof (line : Nat) : Token := ⟨.eof, "", none, line⟩

def ofChars (cs : List Char) : Scan :=
  let placed := Segment.withLines 1 (Segment.ofText cs)
  { tokens := placed.filterMap Segment.token? ++ [eof (1 + cs.count '\n')]
    errors := placed.filterMap Segment.error? }

def ofText (source : String) : Scan := ofChars source.toList

end Scan

end Scriptlet
