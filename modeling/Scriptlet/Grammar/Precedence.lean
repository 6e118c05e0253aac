import Scriptlet.Token

namespace Scriptlet

/-- How tightly operators bind, from the loosest up. -/
inductive Precedence where
  | lowest | assignment | disjunction | conjunction | equality | bitwise | comparison | term | factor
  | unary | step | call
  deriving DecidableEq, Repr

namespace Precedence

def level : Precedence → Nat
  | lowest => 0
  | assignment => 1
  | disjunction => 2
  | conjunction => 3
  | equality => 4
  | bitwise => 5
  | comparison => 6
  | term => 7
  | factor => 8
  | unary => 9
  | step => 10
  | call => 11

instance : LT Precedence := ⟨fun p q => p.level < q.level⟩

instance (p q : Precedence) : Decidable (p < q) := inferInstanceAs (Decidable (p.level < q.level))

end Precedence

/-- What an expression can start with. -/
inductive Opening where
  | literal | name | group | operator
  deriving DecidableEq, Repr

/-- How a token can continue the expression before it. -/
inductive Joining where
  | binary | logical | assign | step | call
  deriving DecidableEq, Repr

namespace TokenKind

def opening? : TokenKind → Option Opening
  | number | string | kwTrue | kwFalse | kwNil => some .literal
  | identifier => some .name
  | leftParen => some .group
  | minus | bang | tilde | plusPlus | minusMinus => some .operator
  | _ => none

def joining? : TokenKind → Option (Precedence × Joining)
  | equal => some (.assignment, .assign)
  | kwOr | pipePipe => some (.disjunction, .logical)
  | kwAnd | ampersandAmpersand => some (.conjunction, .logical)
  | equalEqual | bangEqual => some (.equality, .binary)
  | ampersand | pipe | caret | lessLess | greaterGreater => some (.bitwise, .binary)
  | greater | greaterEqual | less | lessEqual => some (.comparison, .binary)
  | plus | minus => some (.term, .binary)
  | star | slash => some (.factor, .binary)
  | plusPlus | minusMinus => some (.step, .step)
  | leftParen => some (.call, .call)
  | _ => none

end TokenKind

end Scriptlet
