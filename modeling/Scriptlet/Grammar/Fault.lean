import Scriptlet.Diagnostic
import Scriptlet.Token

namespace Scriptlet

/-- What can be wrong with the tokens of a program. -/
inductive Fault where
  | noExpression
  | groupNotClosed
  | unaryStepTarget
  | assignTarget
  | stepTarget
  | tooManyArguments
  | argumentsNotClosed
  | expressionNotEnded
  | blockNotClosed
  | noVariableName
  | variableNotEnded
  | noFunctionName
  | noParameterList
  | tooManyParameters
  | noParameterName
  | parametersNotClosed
  | noFunctionBody
  | printNotEnded
  | ifNotOpened
  | ifNotClosed
  | whileNotOpened
  | whileNotClosed
  | forNotOpened
  | forConditionNotEnded
  | forNotClosed
  | returnNotEnded
  deriving DecidableEq, Repr

namespace Fault

def message : Fault → String
  | noExpression => "Expect expression."
  | groupNotClosed => "Expect ')' after expression."
  | unaryStepTarget => "Invalid operand for prefix operator."
  | assignTarget => "Invalid assignment target."
  | stepTarget => "Invalid operand for postfix operator."
  | tooManyArguments => "Can't have more than 255 arguments."
  | argumentsNotClosed => "Expect ')' after arguments."
  | expressionNotEnded => "Expect ';' after expression."
  | blockNotClosed => "Expect '\x7d' after block."
  | noVariableName => "Expect variable name."
  | variableNotEnded => "Expect ';' after variable declaration."
  | noFunctionName => "Expect function name."
  | noParameterList => "Expect '(' after function name."
  | tooManyParameters => "Can't have more than 255 parameters."
  | noParameterName => "Expect parameter name."
  | parametersNotClosed => "Expect ')' after parameters."
  | noFunctionBody => "Expect '\x7b' before function body."
  | printNotEnded => "Expect ';' after value."
  | ifNotOpened => "Expect '(' after 'if'."
  | ifNotClosed => "Expect ')' after if condition."
  | whileNotOpened => "Expect '(' after 'while'."
  | whileNotClosed => "Expect ')' after condition."
  | forNotOpened => "Expect '(' after 'for'."
  | forConditionNotEnded => "Expect ';' after loop condition."
  | forNotClosed => "Expect ')' after for clauses."
  | returnNotEnded => "Expect ';' after return value."

end Fault

/-- A fault with the token or the end of the input that shows it. -/
structure ParseError where
  fault : Fault
  place : Place
  line : Nat
  deriving DecidableEq, Repr

namespace ParseError

def atToken (t : Token) (fault : Fault) : ParseError := ⟨fault, .lexeme t.lexeme, t.line⟩

def diagnostic (e : ParseError) : Diagnostic := .syntactic e.line e.place e.fault.message

def text (e : ParseError) : String :=
  "[line " ++ toString e.line ++ "] " ++ e.fault.message

end ParseError

end Scriptlet
