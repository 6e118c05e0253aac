import Scriptlet.Tree

namespace Scriptlet

/-- What a traversal sees of a node. A function statement holds a declaration, which is a node of its
own and is told apart by its name. -/
inductive Node where
  | literal | name | assign | group | unary | step | binary | logical | call
  | expression | print | var | block | branch | loop | function | ret | broken
  | declaration (name : String)
  deriving DecidableEq, Repr

namespace Node

/-- A node followed by what lies below it, unless the traversal stops there. -/
def enter (stop : Node → Bool) (node : Node) (below : List Node) : List Node :=
  node :: if stop node then [] else below

end Node

namespace Expr

mutual

def visit (stop : Node → Bool) : Expr → List Node
  | .literal _ => [.literal]
  | .name _ => [.name]
  | .assign _ value => Node.enter stop .assign (visit stop value)
  | .group inner => Node.enter stop .group (visit stop inner)
  | .unary _ operand => Node.enter stop .unary (visit stop operand)
  | .step _ _ => [.step]
  | .binary _ lhs rhs => Node.enter stop .binary (visit stop lhs ++ visit stop rhs)
  | .logical _ lhs rhs => Node.enter stop .logical (visit stop lhs ++ visit stop rhs)
  | .call callee _ args => Node.enter stop .call (visit stop callee ++ visitAll stop args)

def visitAll (stop : Node → Bool) : List Expr → List Node
  | [] => []
  | e :: es => visit stop e ++ visitAll stop es

end

end Expr

namespace Stmt

mutual

def visit (stop : Node → Bool) : Stmt → List Node
  | .expression value => Node.enter stop .expression (value.visit stop)
  | .print _ value => Node.enter stop .print (value.visit stop)
  | .var _ none => [.var]
  | .var _ (some init) => Node.enter stop .var (init.visit stop)
  | .block body => Node.enter stop .block (visitAll stop body)
  | .ifThen condition yes => Node.enter stop .branch (condition.visit stop ++ visit stop yes)
  | .ifElse condition yes no =>
    Node.enter stop .branch (condition.visit stop ++ visit stop yes ++ visit stop no)
  | .loop condition body => Node.enter stop .loop (condition.visit stop ++ visit stop body)
  | .function name _ body =>
    Node.enter stop .function (Node.enter stop (.declaration name.lexeme) (visitAll stop body))
  | .ret _ none => [.ret]
  | .ret _ (some value) => Node.enter stop .ret (value.visit stop)
  | .broken => [.broken]

def visitAll (stop : Node → Bool) : List Stmt → List Node
  | [] => []
  | s :: ss => visit stop s ++ visitAll stop ss

end

end Stmt

end Scriptlet
