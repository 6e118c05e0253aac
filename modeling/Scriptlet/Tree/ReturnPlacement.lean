import Scriptlet.Diagnostic
import Scriptlet.Tree

namespace Scriptlet

namespace Stmt

mutual

/-- The keywords of the returns that would leave the statement. A function keeps those of its body. -/
def exposedReturns : Stmt → List Token
  | .expression _ | .print .. | .var .. | .function .. | .broken => []
  | .block body => exposedReturnsOf body
  | .ifThen _ yes => exposedReturns yes
  | .ifElse _ yes no => exposedReturns yes ++ exposedReturns no
  | .loop _ body => exposedReturns body
  | .ret keyword _ => [keyword]

def exposedReturnsOf : List Stmt → List Token
  | [] => []
  | s :: ss => exposedReturns s ++ exposedReturnsOf ss

end

theorem exposedReturnsOf_append (ss rest : List Stmt) :
    exposedReturnsOf (ss ++ rest) = exposedReturnsOf ss ++ exposedReturnsOf rest := by
  induction ss with
  | nil => rfl
  | cons s ss ih => rw [List.cons_append, exposedReturnsOf, exposedReturnsOf, ih, List.append_assoc]

end Stmt

/-- The diagnostics for returns at the top level of a program. -/
def checkReturns (program : List Stmt) : Report :=
  (Stmt.exposedReturnsOf program).map fun keyword =>
    .syntactic keyword.line (.lexeme keyword.lexeme) "Can't return from top-level code."

end Scriptlet
