import Scriptlet.Token

namespace Scriptlet

/-- Every token in a tree comes from the source text, so errors can be placed. -/
inductive Expr where
  | literal (value : Literal)
  | name (token : Token)
  | assign (target : Token) (value : Expr)
  | group (inner : Expr)
  | unary (op : Token) (operand : Expr)
  /-- A step operator written after the variable that it changes. -/
  | step (op : Token) (target : Token)
  | binary (op : Token) (lhs rhs : Expr)
  | logical (op : Token) (lhs rhs : Expr)
  /-- A call is placed at its closing parenthesis. -/
  | call (callee : Expr) (paren : Token) (args : List Expr)

inductive Stmt where
  | expression (value : Expr)
  | print (keyword : Token) (value : Expr)
  | var (name : Token) (init : Option Expr)
  | block (body : List Stmt)
  | ifThen (condition : Expr) (yes : Stmt)
  | ifElse (condition : Expr) (yes no : Stmt)
  | loop (condition : Expr) (body : Stmt)
  | function (name : Token) (params : List Token) (body : List Stmt)
  | ret (keyword : Token) (value : Option Expr)
  /-- Stands for a statement that could not be read. -/
  | broken

end Scriptlet
