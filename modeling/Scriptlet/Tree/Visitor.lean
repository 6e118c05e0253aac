import Scriptlet.Tree

namespace Scriptlet

/-- What is done at an expression, at a statement and at the declaration in a function statement. Each
is given the walk below its node; by default it does that and nothing else. -/
structure Visitor (σ : Type) where
  expr (e : Expr) (below : σ → σ) : σ → σ := below
  stmt (s : Stmt) (below : σ → σ) : σ → σ := below
  declaration (name : Token) (params : List Token) (body : List Stmt) (below : σ → σ) : σ → σ := below

namespace Visitor

variable {σ : Type} (v : Visitor σ)

mutual

def walkExpr : Expr → σ → σ
  | .literal _, x | .name _, x | .step _ _, x => x
  | .assign _ inner, x | .group inner, x | .unary _ inner, x => v.expr inner (walkExpr inner) x
  | .binary _ lhs rhs, x | .logical _ lhs rhs, x =>
    v.expr rhs (walkExpr rhs) (v.expr lhs (walkExpr lhs) x)
  | .call callee _ args, x => visitExprs args (v.expr callee (walkExpr callee) x)

def visitExprs : List Expr → σ → σ
  | [], x => x
  | e :: es, x => visitExprs es (v.expr e (walkExpr e) x)

end

def visitExpr (e : Expr) : σ → σ := v.expr e (v.walkExpr e)

mutual

def walkStmt : Stmt → σ → σ
  | .expression value, x | .print _ value, x => v.visitExpr value x
  | .var _ none, x | .ret _ none, x | .broken, x => x
  | .var _ (some value), x | .ret _ (some value), x => v.visitExpr value x
  | .block body, x => visitStmts body x
  | .ifThen condition yes, x => v.stmt yes (walkStmt yes) (v.visitExpr condition x)
  | .ifElse condition yes no, x =>
    v.stmt no (walkStmt no) (v.stmt yes (walkStmt yes) (v.visitExpr condition x))
  | .loop condition body, x => v.stmt body (walkStmt body) (v.visitExpr condition x)
  | .function name params body, x => v.declaration name params body (visitStmts body) x

def visitStmts : List Stmt → σ → σ
  | [], x => x
  | s :: ss, x => visitStmts ss (v.stmt s (walkStmt s) x)

end

def visitStmt (s : Stmt) : σ → σ := v.stmt s (v.walkStmt s)

end Visitor

end Scriptlet
