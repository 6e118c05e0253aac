import Scriptlet.Proofs.Grammar.Reading

namespace Scriptlet

/-- What is handed back by a reader that fails. -/
structure Raised where
  message : String
  line : Nat
  deriving DecidableEq, Repr

inductive Entry where
  | reported (diagnostic : Diagnostic)
  /-- A declaration was given up for what was raised in it. -/
  | caught (raised : Raised)
  deriving DecidableEq, Repr

abbrev Journal := List Entry

/-- The diagnostics in the journal. -/
def Journal.report (journal : Journal) : Report :=
  journal.filterMap fun
    | .reported d => some d
    | .caught _ => none

/-- As a walk, with the journal as it is afterwards in place of notes. -/
inductive Record (α : Type) where
  | done (value : α) (index : Nat) (journal : Journal)
  | failed (raised : Raised) (index : Nat) (journal : Journal)
  | astray
  | unfinished

/-- A reader that reports. To report a fault is one thing here, and to fail is another. -/
abbrev Scribe (α : Type) := Nat → Journal → Record α

namespace Scribe

variable {α β : Type}

protected def pure (a : α) : Scribe α := fun i journal => .done a i journal

protected def bind (x : Scribe α) (f : α → Scribe β) : Scribe β := fun i journal =>
  match x i journal with
  | .done a k after => f a k after
  | .failed r k after => .failed r k after
  | .astray => .astray
  | .unfinished => .unfinished

instance : Monad Scribe where
  pure := Scribe.pure
  bind := Scribe.bind

def unfinished : Scribe α := fun _ _ => .unfinished

/-- Moves as a walker that has nothing to report. -/
def look (x : Walker α) : Scribe α := fun i journal =>
  match x i with
  | .done a k _ => .done a k journal
  | .failed e k _ => .failed ⟨e.fault.message, e.line⟩ k journal
  | .astray => .astray
  | .unfinished => .unfinished

def report (d : Diagnostic) : Scribe Unit := fun i journal => .done () i (journal ++ [.reported d])

def raise (r : Raised) : Scribe α := fun i journal => .failed r i journal

/-- Gives up what fails and goes on with the other reader. -/
def attempt (x y : Scribe α) : Scribe α := fun i journal =>
  match x i journal with
  | .failed r k after => y k (after ++ [.caught r])
  | result => result

/-- Reports a fault at a token. Whether it is raised is up to the caller. -/
def error (t : Token) (fault : Fault) : Scribe Raised := do
  let place := if t.kind = .eof then .atEnd else .lexeme t.lexeme
  report (.syntactic t.line place fault.message)
  return ⟨fault.message, t.line⟩

def fail (t : Token) (fault : Fault) : Scribe α := do
  let r ← error t fault
  raise r

end Scribe

/-- What is handed back for a fault that nothing fails for is dropped. -/
instance : Reading Scribe where
  look := Scribe.look
  unfinished := Scribe.unfinished
  fail := Scribe.fail
  complain t fault := do
    let _ ← Scribe.error t fault
  recover := Scribe.attempt

namespace Tape

/-- The functions that read something and can fail, with what they are given, and those two that settle
for a broken statement. -/
inductive Part where
  | token (kind : TokenKind) (fault : Fault)
  | expression (min : Precedence)
  | opened (opening : Opening) (t : Token)
  | joined (p : Precedence) (joining : Joining) (lhs : Expr) (op : Token)
  | literal (t : Token)
  | variableDeclaration | functionDeclaration
  | printStatement | returnStatement | ifStatement | whileStatement | forStatement
  | block | statement | declaration | program

namespace Part

abbrev Result : Part → Type
  | token .. => Token
  | expression _ | opened .. | joined .. | literal _ => Expr
  | block | program => List Stmt
  | _ => Stmt

def scribe (tape : Tape) (n : Nat) : (part : Part) → Scribe part.Result
  | token kind fault => tape.expect Scribe kind fault
  | expression min => tape.expression Scribe n min
  | opened opening t => tape.opened Scribe n opening t
  | joined p joining lhs op => tape.join Scribe n p joining lhs op
  | literal t => Reading.literal Scribe t
  | variableDeclaration => tape.variableDeclaration Scribe n
  | functionDeclaration => tape.functionDeclaration Scribe (tape.block Scribe n) n
  | printStatement => tape.printStatement Scribe n
  | returnStatement => tape.returnStatement Scribe n
  | ifStatement => tape.ifStatement Scribe (tape.statement Scribe n) n
  | whileStatement => tape.whileStatement Scribe (tape.statement Scribe n) n
  | forStatement => tape.forStatement Scribe (tape.statement Scribe n) n
  | block => tape.block Scribe n
  | statement => tape.statement Scribe n
  | declaration => tape.declaration Scribe n
  | program => tape.program Scribe n

end Part

end Tape

end Scriptlet
