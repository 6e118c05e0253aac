import Scriptlet.Grammar.Statement

namespace Scriptlet

/-- The statements of a program, with all that was found wrong while reading them. -/
structure Program where
  statements : List Stmt
  errors : List ParseError

namespace Program

def report (p : Program) : Report := p.errors.map ParseError.diagnostic

end Program

namespace Grammar

/-- The input ends before its first token of kind `eof`, or with its last token. -/
def input (tokens : List Token) : List Token := tokens.takeWhile (·.kind != .eof)

/-- The end is on the line of the `eof` token. Without one it is on the line of the last token. -/
def lineOfEnd (tokens : List Token) : Nat :=
  match tokens.find? (·.kind == .eof) with
  | some t => t.line
  | none => (tokens.getLast?.map Token.line).getD 1

def Setting.ofTokens (interactive : Bool) (tokens : List Token) : Setting :=
  ⟨lineOfEnd tokens, interactive⟩

/-- Reads to the end of the tokens, whatever is wrong with them. -/
def declarations (s : Setting) : List Token → Program
  | [] => ⟨[], []⟩
  | t :: ts =>
    let next := item s (t :: ts)
    let more := declarations s next.rest
    ⟨next.stmt :: more.statements, next.errors ++ more.errors⟩
termination_by ts => ts.length
decreasing_by exact Nat.lt_succ_of_le (length_item s t ts)

end Grammar

/-- The program that the tokens make up. -/
def Program.ofTokens (interactive : Bool) (tokens : List Token) : Program :=
  Grammar.declarations (.ofTokens interactive tokens) (Grammar.input tokens)

end Scriptlet
