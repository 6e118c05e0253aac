import Scriptlet.Diagnostic
import Scriptlet.Token

namespace Scriptlet

inductive RuntimeFault where
  | undefinedVariable (name : String)
  | operandNotNumber
  | operandsNotNumbers
  | operandsNotAddable
  | invalidOperator (lexeme : String)
  | invalidStepTarget (lexeme : String)
  | notCallable
  | wrongArity (expected got : Nat)
  | outputFailed (reason : String)
  deriving DecidableEq, Repr

namespace RuntimeFault

def message : RuntimeFault → String
  | undefinedVariable name => "Undefined variable '" ++ name ++ "'."
  | operandNotNumber => "Operand must be a number."
  | operandsNotNumbers => "Operands must be numbers."
  | operandsNotAddable => "Operands must be two numbers or two strings."
  | invalidOperator lexeme => "Invalid operator '" ++ lexeme ++ "'."
  | invalidStepTarget lexeme => "Invalid operand for '" ++ lexeme ++ "', expected a variable."
  | notCallable => "Can only call functions."
  | wrongArity expected got =>
    "Expected " ++ toString expected ++ " arguments but got " ++ toString got ++ "."
  | outputFailed reason => "Failed to write output: " ++ reason

end RuntimeFault

/-- What went wrong while a program ran, and at which token. -/
structure RuntimeError where
  token : Token
  fault : RuntimeFault

namespace RuntimeError

protected def beq (a b : RuntimeError) : Bool := a.token == b.token && a.fault == b.fault

instance : BEq RuntimeError := ⟨RuntimeError.beq⟩

def message (e : RuntimeError) : String := e.fault.message

def diagnostic (e : RuntimeError) : Diagnostic := .runtime e.token.line e.message

end RuntimeError

end Scriptlet
