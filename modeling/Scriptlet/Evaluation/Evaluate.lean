import Scriptlet.Evaluation.Action
import Scriptlet.Evaluation.Operator

namespace Scriptlet

/-- How a statement ended. -/
inductive Flow where
  | normal
  /-- An expression statement gave a value. -/
  | value (v : Value)
  /-- A `return` is on its way out of the function. -/
  | ret (v : Value)

namespace Flow

/-- What a statement passes on from a statement inside it. -/
def outward : Flow → Flow
  | ret v => ret v
  | _ => normal

/-- What a call gives once its body has ended so. -/
def result : Flow → Value
  | ret v => v
  | _ => .nil

end Flow

namespace Evaluation

/-- The meaning of calls, which `call` ties to that of statements up to a bound. -/
abbrev Calls := Function → List Value → Action Value

def apply (op : Token) : Except RuntimeFault Value → Action Value
  | .ok v => pure v
  | .error fault => .raise op fault

/-- Changes a variable by one. The result is its old value and its new one. -/
def step (env : Env) (op name : Token) : Action (Float × Float) :=
  match Operator.stepSize? op.kind with
  | none => .raise op (.invalidOperator op.lexeme)
  | some size => do
    match (← Action.read env name).number? with
    | none => .raise op .operandNotNumber
    | some old =>
      Action.assign env name (.number (old + size))
      pure (old, old + size)

/-- Calls a value. That it is a function comes before the number of arguments. -/
def callValue (calls : Calls) (paren : Token) (callee : Value) (args : List Value) : Action Value :=
  match callee with
  | .function f =>
    if args.length = f.arity then calls f args
    else .raise paren (.wrongArity f.arity args.length)
  | _ => .raise paren .notCallable

mutual

/-- The value of an expression. Operands and arguments are evaluated from left to right. -/
def evaluateWith (calls : Calls) : Expr → Action Value
  | .literal l => pure (.ofLiteral l)
  | .name t => do Action.read (← .scope) t
  | .assign t e => do
    let v ← evaluateWith calls e
    Action.assign (← .scope) t v
    pure v
  | .group e => evaluateWith calls e
  | .unary op e =>
    if op.kind.isStep then
      match e with
      | .name t => do return .number (← step (← .scope) op t).2
      | _ => .raise op (.invalidStepTarget op.lexeme)
    else if Operator.isUnary op.kind then do
      let v ← evaluateWith calls e
      apply op (Operator.unary op v)
    else .raise op (.invalidOperator op.lexeme)
  | .step op t => do return .number (← step (← .scope) op t).1
  | .binary op l r => do
    let v ← evaluateWith calls l
    let w ← evaluateWith calls r
    apply op (Operator.binary op v w)
  | .logical op l r => do
    let v ← evaluateWith calls l
    if Operator.decides op v then pure v else evaluateWith calls r
  | .call callee paren args => do
    let f ← evaluateWith calls callee
    let vs ← evaluateAllWith calls args
    callValue calls paren f vs

def evaluateAllWith (calls : Calls) : List Expr → Action (List Value)
  | [] => pure []
  | e :: es => do
    let v ← evaluateWith calls e
    let vs ← evaluateAllWith calls es
    pure (v :: vs)

end

/-- Runs the body as long as the condition holds and no `return` is met, at most `bound` times. -/
def repeatWhile (condition : Action Value) (body : Action Flow) : Nat → Action Flow
  | 0 => .cutOff
  | bound + 1 => do
    if (← condition).truthy then
      match ← body with
      | .ret v => pure (.ret v)
      | _ => repeatWhile condition body bound
    else pure .normal

mutual

def executeWith (calls : Calls) (bound : Nat) : Stmt → Action Flow
  | .expression e => do return .value (← evaluateWith calls e)
  | .print keyword e => do
    let v ← evaluateWith calls e
    Action.printLine keyword v.text
    pure .normal
  | .var name none => do
    Action.define (← .scope) name.lexeme .nil
    pure .normal
  | .var name (some e) => do
    let v ← evaluateWith calls e
    Action.define (← .scope) name.lexeme v
    pure .normal
  | .block body => do
    let inner ← Action.openScope (← Action.scope).chain
    Action.inScope inner (executeAllWith calls bound body)
  | .ifThen c yes => do
    if (← evaluateWith calls c).truthy then return (← executeWith calls bound yes).outward
    else pure .normal
  | .ifElse c yes no => do
    if (← evaluateWith calls c).truthy then return (← executeWith calls bound yes).outward
    else return (← executeWith calls bound no).outward
  | .loop c body => repeatWhile (evaluateWith calls c) (executeWith calls bound body) bound
  | .function name params body => do
    let f ← Action.newFunction name params body (← .scope)
    Action.define (← .scope) name.lexeme (.function f)
    pure .normal
  | .ret _ none => pure (.ret .nil)
  | .ret _ (some e) => do return .ret (← evaluateWith calls e)
  | .broken => pure .normal

/-- Executes statements in order up to the first `return`. -/
def executeAllWith (calls : Calls) (bound : Nat) : List Stmt → Action Flow
  | [] => pure .normal
  | s :: ss => do
    match ← executeWith calls bound s with
    | .ret v => pure (.ret v)
    | _ => executeAllWith calls bound ss

end

/-- Calls a function: its parameters are bound in a new scope inside the scopes of its declaration.
The bound limits how deep calls nest and how often each loop runs. -/
def call : Nat → Calls
  | 0, _, _ => .cutOff
  | bound + 1, f, args => do
    let env ← Action.openScope f.closure.chain
    Action.defineAll env f.params args
    return (← Action.inScope env (executeAllWith (call bound) bound f.body)).result

def evaluate (bound : Nat) (env : Env) (e : Expr) : Action Value :=
  .inScope env (evaluateWith (call bound) e)

def execute (bound : Nat) (env : Env) (s : Stmt) : Action Flow :=
  .inScope env (executeWith (call bound) bound s)

def executeAll (bound : Nat) (env : Env) (ss : List Stmt) : Action Flow :=
  .inScope env (executeAllWith (call bound) bound ss)

end Evaluation

end Scriptlet
