import Scriptlet.Proofs.Grammar.CommaList
import Scriptlet.Grammar.Program
import Scriptlet.Token.Scan

namespace Scriptlet

/-- How reading from an index goes, where a look may be out of range and the bound may be met. -/
inductive Walk (α : Type) where
  | done (value : α) (index : Nat) (notes : List ParseError)
  | failed (error : ParseError) (index : Nat) (notes : List ParseError)
  /-- No token is held at an index that was looked at. -/
  | astray
  | unfinished

namespace Walk

variable {α : Type}

def addNotes (notes : List ParseError) : Walk α → Walk α
  | done a i more => done a i (notes ++ more)
  | failed e i more => failed e i (notes ++ more)
  | astray => astray
  | unfinished => unfinished

/-- The index of the next token afterwards, also after a failure. -/
def index? : Walk α → Option Nat
  | done _ i _ | failed _ i _ => some i
  | astray | unfinished => none

end Walk

/-- A token shows the fault, unless it is the end. -/
def ParseError.at (t : Token) (fault : Fault) : ParseError :=
  if t.kind = .eof then ⟨fault, .atEnd, t.line⟩ else .atToken t fault

/-- Reading from the index of the next token on. -/
abbrev Walker (α : Type) := Nat → Walk α

namespace Walker

variable {α β : Type}

protected def pure (a : α) : Walker α := fun i => .done a i []

protected def bind (x : Walker α) (f : α → Walker β) : Walker β := fun i =>
  match x i with
  | .done a j notes => (f a j).addNotes notes
  | .failed e j notes => .failed e j notes
  | .astray => .astray
  | .unfinished => .unfinished

instance : Monad Walker where
  pure := Walker.pure
  bind := Walker.bind

def unfinished : Walker α := fun _ => .unfinished

def fail (e : ParseError) : Walker α := fun i => .failed e i []

def note (e : ParseError) : Walker Unit := fun i => .done () i [e]

/-- Nothing else changes the index. -/
def forward : Walker Unit := fun i => .done () (i + 1) []

/-- Notes a failure and goes on with the other reader. -/
def recover (x y : Walker α) : Walker α := fun i =>
  match x i with
  | .failed e j notes => (y j).addNotes (notes ++ [e])
  | w => w

end Walker

open Walker

/-- Tokens, and whether the last semicolon may be left out. -/
structure Tape where
  tokens : List Token
  interactive : Bool

namespace Tape

/-- Tokens that do not end in an `eof` get one. -/
def close (tokens : List Token) : List Token :=
  match tokens.getLast? with
  | none => [Scan.eof 1]
  | some t => if t.kind = .eof then tokens else tokens ++ [Scan.eof t.line]

def ofTokens (interactive : Bool) (tokens : List Token) : Tape := ⟨close tokens, interactive⟩

variable (tape : Tape)

def tokenAt (i : Nat) : Walker Token := fun j =>
  match tape.tokens[i]? with
  | some t => .done t j []
  | none => .astray

def peek : Walker Token := fun i => tape.tokenAt i i

/-- The token that was taken last, or the first one. -/
def previous : Walker Token := fun i => tape.tokenAt (i - 1) i

def check (kind : TokenKind) : Walker Bool := do
  let t ← tape.peek
  return t.kind == kind

def checkOrEnd (kind : TokenKind) : Walker Bool := do
  if ← tape.check kind then return true
  else tape.check .eof

/-- Takes a token unless it is the end. -/
def advance : Walker Token := do
  if ← tape.check .eof then tape.previous
  else
    forward
    tape.previous

/-- Takes a token if it has the given kind. -/
def eat (kind : TokenKind) : Walker Bool := do
  if ← tape.check kind then
    let _ ← tape.advance
    return true
  else
    return false

/-- Goes on to the end, to behind a semicolon, or to a keyword that starts a statement. -/
def skip : Nat → Walker Unit
  | 0 => unfinished
  | n + 1 => do
    let t ← tape.peek
    if t.kind = .eof then return ()
    else
      let u ← tape.previous
      if u.kind = .semicolon then return ()
      else if t.kind.startsStatement then return ()
      else
        let _ ← tape.advance
        skip n

def synchronize (n : Nat) : Walker Stmt := do
  let _ ← tape.advance
  tape.skip n
  -- The line of the next token is logged.
  let _ ← tape.peek
  return .broken

end Tape

end Scriptlet
