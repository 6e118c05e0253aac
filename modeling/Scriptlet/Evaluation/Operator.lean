import Scriptlet.Evaluation.RuntimeError
import Scriptlet.Number.Word
import Scriptlet.Value

namespace Scriptlet.Operator

/-- The bitwise operators work on 32-bit words, to which numbers are truncated. -/
def word (w : Int32) : Value := .number (Word.toFloat w)

/-- A unary operator that takes a value. -/
def unary (op : Token) (v : Value) : Except RuntimeFault Value :=
  match op.kind with
  | .bang => .ok (.bool !v.truthy)
  | .minus =>
    match v with
    | .number x => .ok (.number (-x))
    | _ => .error .operandNotNumber
  | .tilde =>
    match v with
    | .number x => .ok (word (~~~ (Word.ofFloat x)))
    | _ => .error .operandNotNumber
  | _ => .error (.invalidOperator op.lexeme)

/-- Whether a unary operator takes a value at all. -/
def isUnary : TokenKind → Bool
  | .bang | .minus | .tilde => true
  | _ => false

/-- How much a step operator adds. -/
def stepSize? : TokenKind → Option Float
  | .plusPlus => some 1
  | .minusMinus => some (-1)
  | _ => none

/-- The bitwise operators. A shift goes by its right operand modulo 32, and a shift to the right keeps
the sign. -/
def bitwise? : TokenKind → Option (Int32 → Int32 → Int32)
  | .ampersand => some (· &&& ·)
  | .pipe => some (· ||| ·)
  | .caret => some (· ^^^ ·)
  | .lessLess => some (· <<< ·)
  | .greaterGreater => some (· >>> ·)
  | _ => none

/-- The operators on numbers alone. -/
def arithmetic? : TokenKind → Option (Float → Float → Value)
  | .minus => some fun x y => .number (x - y)
  | .star => some fun x y => .number (x * y)
  | .slash => some fun x y => .number (x / y)
  | .greater => some fun x y => .bool (x > y)
  | .greaterEqual => some fun x y => .bool (x ≥ y)
  | .less => some fun x y => .bool (x < y)
  | .lessEqual => some fun x y => .bool (x ≤ y)
  | _ => none

def add : Value → Value → Except RuntimeFault Value
  | .number x, .number y => .ok (.number (x + y))
  | .string s, .string t => .ok (.string (s ++ t))
  | _, _ => .error .operandsNotAddable

/-- Operands that are no numbers are at fault before an operator that is none. -/
def binary (op : Token) (v w : Value) : Except RuntimeFault Value :=
  match op.kind with
  | .plus => add v w
  | .equalEqual => .ok (.bool (v == w))
  | .bangEqual => .ok (.bool (v != w))
  | kind =>
    match v, w with
    | .number x, .number y =>
      match bitwise? kind, arithmetic? kind with
      | some f, _ => .ok (word (f (Word.ofFloat x) (Word.ofFloat y)))
      | none, some f => .ok (f x y)
      | none, none => .error (.invalidOperator op.lexeme)
    | _, _ => .error .operandsNotNumbers

/-- Whether the left operand of a logical operator decides the result. -/
def decides (op : Token) (v : Value) : Bool :=
  match op.kind with
  | .kwOr | .pipePipe => v.truthy
  | _ => !v.truthy

end Scriptlet.Operator
