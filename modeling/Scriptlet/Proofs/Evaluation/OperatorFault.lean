import Scriptlet.Evaluation.Operator

namespace Scriptlet

namespace RuntimeFault

/-- The faults that tell of an operator without a meaning. -/
def isOperatorFault : RuntimeFault → Bool
  | .invalidOperator _ | .invalidStepTarget _ => true
  | _ => false

/-- The first letter of the message. -/
def initial : RuntimeFault → Char
  | .undefinedVariable _ => 'U'
  | .operandNotNumber | .operandsNotNumbers | .operandsNotAddable => 'O'
  | .invalidOperator _ | .invalidStepTarget _ => 'I'
  | .notCallable => 'C'
  | .wrongArity .. => 'E'
  | .outputFailed _ => 'F'

private theorem head?_message (fault : RuntimeFault) :
    fault.message.toList.head? = some fault.initial := by
  have begins {text : String} {c : Char} (rest : String) (h : text.toList.head? = some c) :
      (text ++ rest).toList.head? = some c := by
    rw [String.toList_append, List.head?_append, h, Option.some_or]
  cases fault with
  | undefinedVariable name =>
    have h : "Undefined variable '".toList.head? = some 'U' := by decide
    exact begins _ (begins _ h)
  | operandNotNumber =>
    have h : "Operand must be a number.".toList.head? = some 'O' := by decide
    exact h
  | operandsNotNumbers =>
    have h : "Operands must be numbers.".toList.head? = some 'O' := by decide
    exact h
  | operandsNotAddable =>
    have h : "Operands must be two numbers or two strings.".toList.head? = some 'O' := by decide
    exact h
  | invalidOperator lexeme =>
    have h : "Invalid operator '".toList.head? = some 'I' := by decide
    exact begins _ (begins _ h)
  | invalidStepTarget lexeme =>
    have h : "Invalid operand for '".toList.head? = some 'I' := by decide
    exact begins _ (begins _ h)
  | notCallable =>
    have h : "Can only call functions.".toList.head? = some 'C' := by decide
    exact h
  | wrongArity expected got =>
    have h : "Expected ".toList.head? = some 'E' := by decide
    exact begins _ (begins _ (begins _ (begins _ h)))
  | outputFailed reason =>
    have h : "Failed to write output: ".toList.head? = some 'F' := by decide
    exact begins _ h

private theorem initial_eq_iff (fault : RuntimeFault) :
    fault.initial = 'I' ↔ fault.isOperatorFault = true := by
  cases fault <;> simp [initial, isOperatorFault]

/-- A report tells these faults from all others. -/
theorem message_ne {fault other : RuntimeFault} (h : fault.isOperatorFault = false)
    (ho : other.isOperatorFault = true) : fault.message ≠ other.message := by
  intro heq
  have hinitial : fault.initial = other.initial := by
    have hsame := head?_message fault
    rw [heq, head?_message] at hsame
    exact (Option.some.inj hsame).symm
  rw [(initial_eq_iff other).2 ho, initial_eq_iff, h] at hinitial
  cases hinitial

end RuntimeFault

namespace Operator

/-- The operators that have a meaning between two operands, both of which are evaluated. -/
def isBinary (kind : TokenKind) : Bool :=
  kind ∈ [.plus, .equalEqual, .bangEqual] || (bitwise? kind).isSome || (arithmetic? kind).isSome

/-- The operators that may leave out their right operand. -/
def isLogical (kind : TokenKind) : Bool :=
  kind ∈ [.kwOr, .pipePipe, .kwAnd, .ampersandAmpersand]

theorem isSome_stepSize? (kind : TokenKind) : (stepSize? kind).isSome = kind.isStep := by
  cases kind <;> rfl

/-- A value that is no function, or a fault of the operands. -/
def Delivers : Except RuntimeFault Value → Prop
  | .ok v => ∀ f, v ≠ .function f
  | .error fault => fault.isOperatorFault = false

theorem delivers_unary {op : Token} (h : isUnary op.kind = true) (v : Value) :
    Delivers (unary op v) := by
  unfold unary
  split
  · exact fun _ => Value.noConfusion
  · split
    · exact fun _ => Value.noConfusion
    · rfl
  · split
    · exact fun _ => Value.noConfusion
    · rfl
  · next hbang hminus htilde =>
    unfold isUnary at h
    split at h
    · next hk => exact absurd hk hbang
    · next hk => exact absurd hk hminus
    · next hk => exact absurd hk htilde
    · cases h

theorem delivers_add (v w : Value) : Delivers (add v w) := by
  unfold add
  split
  · exact fun _ => Value.noConfusion
  · exact fun _ => Value.noConfusion
  · rfl

theorem arithmetic?_ne_function {kind : TokenKind} {f : Float → Float → Value}
    (h : arithmetic? kind = some f) (x y : Float) (g : Function) : f x y ≠ .function g := by
  unfold arithmetic? at h
  split at h <;> cases h <;> exact Value.noConfusion

theorem delivers_binary {op : Token} (h : isBinary op.kind = true) (v w : Value) :
    Delivers (binary op v w) := by
  unfold binary
  split
  · exact delivers_add v w
  · exact fun _ => Value.noConfusion
  · exact fun _ => Value.noConfusion
  · next hplus hequal hbang =>
    split
    · split
      · exact fun _ => Value.noConfusion
      · next harith => exact arithmetic?_ne_function harith _ _
      · next hbit harith =>
        have hk : op.kind = .plus ∨ op.kind = .equalEqual ∨ op.kind = .bangEqual := by
          simpa [isBinary, hbit, harith] using h
        rcases hk with hk | hk | hk
        · exact absurd hk hplus
        · exact absurd hk hequal
        · exact absurd hk hbang
    · rfl

end Operator

end Scriptlet
