import Scriptlet.Proofs.Grammar.Tape

namespace Scriptlet

/-- What readers from an index are made of, whatever they keep of the faults that they come upon. -/
class Reading (R : Type → Type) extends Monad R where
  /-- Moves as a walker that comes upon no fault. -/
  look {α : Type} : Walker α → R α
  unfinished {α : Type} : R α
  fail {α : Type} : Token → Fault → R α
  /-- Comes upon a fault and does not fail. -/
  complain : Token → Fault → R Unit
  /-- Gives up what fails and goes on with the other reader. -/
  recover {α : Type} : R α → R α → R α

/-- Walkers note the fault. -/
instance : Reading Walker where
  look x := x
  unfinished := Walker.unfinished
  fail t fault := Walker.fail (.at t fault)
  complain t fault := Walker.note (.at t fault)
  recover := Walker.recover

open Reading

variable (R : Type → Type) [Reading R]

namespace Reading

def literal (t : Token) : R Expr :=
  match t.literalValue? with
  | some value => pure (.literal value)
  | none => fail t .noExpression

def unary (op : Token) (operand : Expr) : R Expr :=
  if op.kind.isStep && !operand.isName then fail op .unaryStepTarget
  else pure (.unary op operand)

def assign (op : Token) (target value : Expr) : R Expr :=
  match target with
  | .name t => pure (.assign t value)
  | _ => fail op .assignTarget

def step (op : Token) (target : Expr) : R Expr :=
  match target with
  | .name t => pure (.step op t)
  | _ => fail op .stepTarget

end Reading

namespace Tape

variable (tape : Tape)

/-- Takes a token of the given kind. At the end of an interactive input a semicolon is made up. -/
def expect (kind : TokenKind) (fault : Fault) : R Token := do
  let t ← look tape.peek
  if t.kind = kind then look tape.advance
  else if tape.interactive && kind == .semicolon && t.kind == .eof then
    return ⟨.semicolon, ";", none, t.line⟩
  else fail t fault

/-- Takes the semicolon that ends a statement. -/
def endStatement (fault : Fault) : R Unit := do
  let _ ← tape.expect R .semicolon fault

def overLimit (fault : Fault) (count : Nat) : R Unit := do
  if Grammar.listLimit ≤ count then
    let t ← look tape.peek
    complain t fault
  else
    return ()

/-- Entries set apart by commas, after the `count` that were read before. -/
def commaList {α : Type} (fault : Fault) (one : R α) : Nat → Nat → R (List α)
  | 0, _ => unfinished
  | n + 1, count => do
    tape.overLimit R fault count
    let a ← one
    if ← look (tape.eat .comma) then
      let more ← commaList fault one n (count + 1)
      return a :: more
    else
      return [a]

/-- The entries between two parentheses. -/
def parenthesized {α : Type} (fault : Fault) (one : R α) (n : Nat) : R (List α) := do
  if ← look (tape.check .rightParen) then return []
  else tape.commaList R fault one n 0

mutual

/-- An expression whose operators all bind tighter than `min`. -/
def expression : Nat → Precedence → R Expr
  | 0, _ => unfinished
  | n + 1, min => do
    let t ← look tape.peek
    match t.kind.opening? with
    | none => fail t .noExpression
    | some opening =>
      let t ← look tape.advance
      let lhs ← opened n opening t
      grow n min lhs

/-- What starts with the token `t`, which was taken. -/
def opened : Nat → Opening → Token → R Expr
  | 0, _, _ => unfinished
  | _ + 1, .literal, t => Reading.literal R t
  | _ + 1, .name, t => pure (.name t)
  | n + 1, .group, _ => do
    let inner ← expression n .lowest
    let _ ← tape.expect R .rightParen .groupNotClosed
    return .group inner
  | n + 1, .operator, t => do
    let operand ← expression n .unary
    Reading.unary R t operand

/-- Goes on from `lhs` as long as an operator follows that binds tighter than `min`. -/
def grow : Nat → Precedence → Expr → R Expr
  | 0, _, _ => unfinished
  | n + 1, min, lhs => do
    let t ← look tape.peek
    match t.kind.joining? with
    | none => return lhs
    | some (p, joining) =>
      if min < p then
        let op ← look tape.advance
        let e ← join n p joining lhs op
        grow n min e
      else
        return lhs

/-- Joins `lhs` by the operator `op`, which was taken, with what follows it. -/
def join : Nat → Precedence → Joining → Expr → Token → R Expr
  | 0, _, _, _, _ => unfinished
  | n + 1, p, .binary, lhs, op => do
    let rhs ← expression n p
    return .binary op lhs rhs
  | n + 1, p, .logical, lhs, op => do
    let rhs ← expression n p
    return .logical op lhs rhs
  | n + 1, _, .assign, lhs, op => do
    let value ← expression n .lowest
    Reading.assign R op lhs value
  | _ + 1, _, .step, lhs, op => Reading.step R op lhs
  | n + 1, _, .call, lhs, _ => do
    let args ← tape.parenthesized R .tooManyArguments (expression n .lowest) n
    let paren ← tape.expect R .rightParen .argumentsNotClosed
    return .call lhs paren args

end

def expressionStatement (n : Nat) : R Stmt := do
  let e ← tape.expression R n .lowest
  tape.endStatement R .expressionNotEnded
  return .expression e

def printStatement (n : Nat) : R Stmt := do
  let keyword ← look tape.advance
  let e ← tape.expression R n .lowest
  tape.endStatement R .printNotEnded
  return .print keyword e

/-- An expression, unless what the test looks for comes next. -/
def optional (test : Walker Bool) (n : Nat) : R (Option Expr) := do
  if ← look test then return none
  else
    let e ← tape.expression R n .lowest
    return some e

def returnStatement (n : Nat) : R Stmt := do
  let keyword ← look tape.advance
  let value ← tape.optional R (tape.checkOrEnd .semicolon) n
  tape.endStatement R .returnNotEnded
  return .ret keyword value

/-- The value that a variable is given where it is declared. -/
def initialValue (n : Nat) : R (Option Expr) := do
  if ← look (tape.eat .equal) then
    let e ← tape.expression R n .lowest
    return some e
  else
    return none

def variableDeclaration (n : Nat) : R Stmt := do
  let _ ← look tape.advance
  let name ← tape.expect R .identifier .noVariableName
  let init ← tape.initialValue R n
  tape.endStatement R .variableNotEnded
  return .var name init

/-- A condition in parentheses. -/
def condition (opened closed : Fault) (n : Nat) : R Expr := do
  let _ ← tape.expect R .leftParen opened
  let e ← tape.expression R n .lowest
  let _ ← tape.expect R .rightParen closed
  return e

/-- The name and the parameters of a function, up to the brace that opens the body. -/
def functionHead (n : Nat) : R (Token × List Token) := do
  let name ← tape.expect R .identifier .noFunctionName
  let _ ← tape.expect R .leftParen .noParameterList
  let params ←
    tape.parenthesized R .tooManyParameters (tape.expect R .identifier .noParameterName) n
  let _ ← tape.expect R .rightParen .parametersNotClosed
  let _ ← tape.expect R .leftBrace .noFunctionBody
  return (name, params)

/-- What may stand before the first semicolon of a `for`, and the semicolon. -/
def initializer (n : Nat) : R (Option Stmt) := do
  let t ← look tape.peek
  match t.kind with
  | .semicolon =>
    let _ ← look tape.advance
    return none
  | .kwVar =>
    let s ← tape.variableDeclaration R n
    return some s
  | _ =>
    let s ← tape.expressionStatement R n
    return some s

/-- The condition of a `for`, which is true where it is missing. -/
def forCondition (n : Nat) : R Expr := do
  if ← look (tape.check .semicolon) then return .literal (.bool true)
  else tape.expression R n .lowest

def forClauses (n : Nat) : R Grammar.ForClauses := do
  let _ ← tape.expect R .leftParen .forNotOpened
  let init ← tape.initializer R n
  let condition ← tape.forCondition R n
  tape.endStatement R .forConditionNotEnded
  let increment ← tape.optional R (tape.check .rightParen) n
  let _ ← tape.expect R .rightParen .forNotClosed
  return ⟨init, condition, increment⟩

def ifStatement (one : R Stmt) (n : Nat) : R Stmt := do
  let _ ← look tape.advance
  let c ← tape.condition R .ifNotOpened .ifNotClosed n
  let yes ← one
  if ← look (tape.eat .kwElse) then
    let no ← one
    return .ifElse c yes no
  else
    return .ifThen c yes

def whileStatement (one : R Stmt) (n : Nat) : R Stmt := do
  let _ ← look tape.advance
  let c ← tape.condition R .whileNotOpened .whileNotClosed n
  let body ← one
  return .loop c body

def forStatement (one : R Stmt) (n : Nat) : R Stmt := do
  let _ ← look tape.advance
  let c ← tape.forClauses R n
  let body ← one
  return c.around body

def blockStatement (many : R (List Stmt)) : R Stmt := do
  let _ ← look tape.advance
  let body ← many
  return .block body

def functionDeclaration (many : R (List Stmt)) (n : Nat) : R Stmt := do
  let _ ← look tape.advance
  let (name, params) ← tape.functionHead R n
  let body ← many
  return .function name params body

mutual

def statement : Nat → R Stmt
  | 0 => unfinished
  | n + 1 => do
    let t ← look tape.peek
    match t.kind with
    | .kwPrint => tape.printStatement R n
    | .kwReturn => tape.returnStatement R n
    | .leftBrace => tape.blockStatement R (block n)
    | .kwIf => tape.ifStatement R (statement n) n
    | .kwWhile => tape.whileStatement R (statement n) n
    | .kwFor => tape.forStatement R (statement n) n
    | _ => tape.expressionStatement R n

/-- A declaration, or a broken statement where there is none. -/
def declaration : Nat → R Stmt
  | 0 => unfinished
  | n + 1 => recover
    (do
      let t ← look tape.peek
      match t.kind with
      | .kwVar => tape.variableDeclaration R n
      | .kwFun => tape.functionDeclaration R (block n) n
      | _ => statement n)
    (look (tape.synchronize n))

/-- The declarations of a block, and the brace that closes it. -/
def block : Nat → R (List Stmt)
  | 0 => unfinished
  | n + 1 => do
    if ← look (tape.checkOrEnd .rightBrace) then
      let _ ← tape.expect R .rightBrace .blockNotClosed
      return []
    else
      let s ← declaration n
      let more ← block n
      return s :: more

end

/-- Declarations up to the end. -/
def program : Nat → R (List Stmt)
  | 0 => unfinished
  | n + 1 => do
    if ← look (tape.check .eof) then return []
    else
      let s ← tape.declaration R n
      let more ← program n
      return s :: more

end Tape

end Scriptlet
