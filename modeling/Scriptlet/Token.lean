import Scriptlet.Number.Decimal

namespace Scriptlet

/-- A value written out in the source text. -/
inductive Literal where
  | number (value : Float)
  | string (value : String)
  | bool (value : Bool)
  | nil

/-- The kinds of tokens. Scanning gives neither of the two kinds before the last; they stand for text
that is no token. -/
inductive TokenKind where
  | leftParen | rightParen | leftBrace | rightBrace
  | comma | dot | semicolon
  | plus | minus | star | slash | plusPlus | minusMinus
  | ampersand | pipe | caret | tilde | lessLess | greaterGreater
  | bang | ampersandAmpersand | pipePipe
  | equal | equalEqual | bangEqual | greater | greaterEqual | less | lessEqual
  | identifier | string | number
  | kwAnd | kwBreak | kwClass | kwContinue | kwElse | kwFalse | kwFor | kwFun | kwIf | kwNil | kwOr
  | kwPrint | kwReturn | kwSuper | kwThis | kwTrue | kwVar | kwWhile
  | unterminatedString | error | eof
  deriving DecidableEq, Repr

namespace TokenKind

def all : List TokenKind :=
  [leftParen, rightParen, leftBrace, rightBrace, comma, dot, semicolon, plus, minus, star, slash,
   plusPlus, minusMinus, ampersand, pipe, caret, tilde, lessLess, greaterGreater, bang,
   ampersandAmpersand, pipePipe, equal, equalEqual, bangEqual, greater, greaterEqual, less, lessEqual,
   identifier, string, number, kwAnd, kwBreak, kwClass, kwContinue, kwElse, kwFalse, kwFor, kwFun,
   kwIf, kwNil, kwOr, kwPrint, kwReturn, kwSuper, kwThis, kwTrue, kwVar, kwWhile, unterminatedString,
   error, eof]

def name : TokenKind → String
  | leftParen => "LeftParen" | rightParen => "RightParen"
  | leftBrace => "LeftBrace" | rightBrace => "RightBrace"
  | comma => "Comma" | dot => "Dot" | semicolon => "Semicolon"
  | plus => "Plus" | minus => "Minus" | star => "Star" | slash => "Slash"
  | plusPlus => "PlusPlus" | minusMinus => "MinusMinus"
  | ampersand => "Ampersand" | pipe => "Pipe" | caret => "Caret" | tilde => "Tilde"
  | lessLess => "LessLess" | greaterGreater => "GreaterGreater"
  | bang => "Bang" | ampersandAmpersand => "AmpersandAmpersand" | pipePipe => "PipePipe"
  | equal => "Equal" | equalEqual => "EqualEqual" | bangEqual => "BangEqual"
  | greater => "Greater" | greaterEqual => "GreaterEqual" | less => "Less" | lessEqual => "LessEqual"
  | identifier => "Identifier" | string => "String" | number => "Number"
  | kwAnd => "And" | kwBreak => "Break" | kwClass => "Class" | kwContinue => "Continue"
  | kwElse => "Else" | kwFalse => "False" | kwFor => "For" | kwFun => "Fun" | kwIf => "If"
  | kwNil => "Nil" | kwOr => "Or" | kwPrint => "Print" | kwReturn => "Return" | kwSuper => "Super"
  | kwThis => "This" | kwTrue => "True" | kwVar => "Var" | kwWhile => "While"
  | unterminatedString => "UnterminatedString" | error => "Error" | eof => "Eof"

/-- The operators that change a variable by one. -/
def isStep : TokenKind → Bool
  | plusPlus | minusMinus => true
  | _ => false

end TokenKind

/-- A piece of source text. Only number and string tokens carry a literal when they come from a text;
`line` is the line on which the token ends. -/
structure Token where
  kind : TokenKind
  lexeme : String
  literal : Option Literal
  line : Nat

namespace Literal

/-- Numbers compare as numbers: the two zeros are equal and what is no number differs from itself. -/
protected def beq : Literal → Literal → Bool
  | number x, number y => x == y
  | string s, string t => s == t
  | bool a, bool b => a == b
  | nil, nil => true
  | _, _ => false

instance : BEq Literal := ⟨Literal.beq⟩

def display : Literal → String
  | number x => Number.literalText x
  | string s => s
  | bool b => toString b
  | nil => "nil"

end Literal

namespace Token

protected def beq (s t : Token) : Bool :=
  s.kind == t.kind && s.lexeme == t.lexeme && s.literal == t.literal && s.line == t.line

instance : BEq Token := ⟨Token.beq⟩

def display (t : Token) : String :=
  match t.literal with
  | none => t.kind.name ++ " " ++ t.lexeme
  | some l => t.kind.name ++ " " ++ t.lexeme ++ " " ++ l.display

/-- An identifier token as a program would hold it. -/
def named (name : String) (line : Nat) : Token := ⟨.identifier, name, none, line⟩

end Token

end Scriptlet
