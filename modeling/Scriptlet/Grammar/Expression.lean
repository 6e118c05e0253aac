import Scriptlet.Grammar.Precedence
import Scriptlet.Grammar.Reply
import Scriptlet.Tree

namespace Scriptlet

/-- The value of a token that opens a literal. -/
def Token.literalValue? (t : Token) : Option Literal :=
  match t.kind with
  | .kwTrue => some (.bool true)
  | .kwFalse => some (.bool false)
  | .kwNil => some .nil
  | _ => t.literal

def Expr.isName : Expr → Bool
  | .name _ => true
  | _ => false

namespace Grammar

/-- The greatest number of arguments, and of parameters, that goes without complaint. -/
def listLimit : Nat := 255

/-- The complaint about one more entry of a list that holds `count` already. -/
def overLimit (s : Setting) (fault : Fault) (count : Nat) (ts : List Token) : List ParseError :=
  if listLimit ≤ count then [s.error fault ts] else []

/-- A unary operator with its operand; the step operators want a variable. -/
def unary (op : Token) (operand : Expr) (ts : List Token) : Reply Expr :=
  if op.kind.isStep && !operand.isName then .failed (.atToken op .unaryStepTarget) ts []
  else .done (.unary op operand) ts []

/-- Only a variable can be assigned to. The value has been read by the time this is found out. -/
def assign (op : Token) (target value : Expr) (ts : List Token) : Reply Expr :=
  match target with
  | .name t => .done (.assign t value) ts []
  | _ => .failed (.atToken op .assignTarget) ts []

/-- A step operator behind its operand, which has to be a variable too. -/
def step (op : Token) (target : Expr) (ts : List Token) : Reply Expr :=
  match target with
  | .name t => .done (.step op t) ts []
  | _ => .failed (.atToken op .stepTarget) ts []

private theorem unary_within (op : Token) (operand : Expr) (ts : List Token) :
    (unary op operand ts).Within (ts.length + 1) := by
  unfold unary; split <;> simp [Reply.Within]

private theorem assign_within (op : Token) (target value : Expr) (ts : List Token) :
    (assign op target value ts).Within (ts.length + 1) := by
  unfold assign; split <;> simp [Reply.Within]

private theorem step_within (op : Token) (target : Expr) (ts : List Token) :
    (step op target ts).Within (ts.length + 1) := by
  unfold step; split <;> simp [Reply.Within]

mutual

/-- An expression whose operators all bind tighter than `min`. -/
def expressionWithin (s : Setting) (min : Precedence) (ts : List Token) : Bounded ts.length Expr :=
  (operandWithin s ts).bind fun lhs rest _ => growWithin s min lhs rest
termination_by 4 * ts.length + 1

/-- What an expression starts with. -/
def operandWithin (s : Setting) : (ts : List Token) → Bounded ts.length Expr
  | [] => .failed (s.error .noExpression []) []
  | t :: ts =>
    match t.kind.opening? with
    | none => .failed (s.error .noExpression (t :: ts)) (t :: ts)
    | some .literal =>
      match t.literalValue? with
      | some value => .done (.literal value) ts
      | none => (Bounded.failed (.atToken t .noExpression) ts).loosen
    | some .name => .done (.name t) ts
    | some .group =>
      (expressionWithin s .lowest ts).loosen.bind fun inner rest _ =>
        ((expectWithin s .rightParen .groupNotClosed rest).map fun _ => .group inner).loosen
    | some .operator =>
      (expressionWithin s .unary ts).loosen.bind fun operand rest _ =>
        ⟨unary t operand rest, unary_within ..⟩
termination_by ts => 4 * ts.length + 0

/-- Goes on from `lhs` as long as an operator follows that binds tighter than `min`. -/
def growWithin (s : Setting) (min : Precedence) (lhs : Expr) :
    (ts : List Token) → Bounded (ts.length + 1) Expr
  | [] => .done lhs []
  | t :: ts =>
    match t.kind.joining? with
    | none => .done lhs (t :: ts)
    | some (p, joining) =>
      if min < p then
        ((joinWithin s p joining lhs t ts).bind fun e rest _ => growWithin s min e rest).loosen
      else .done lhs (t :: ts)
termination_by ts => 4 * ts.length + 0

/-- Joins `lhs` by the operator `op`, of precedence `p`, with what follows it. -/
def joinWithin (s : Setting) (p : Precedence) (joining : Joining) (lhs : Expr) (op : Token)
    (ts : List Token) : Bounded (ts.length + 1) Expr :=
  match joining with
  | .binary => ((expressionWithin s p ts).map fun rhs => .binary op lhs rhs).loosen
  | .logical => ((expressionWithin s p ts).map fun rhs => .logical op lhs rhs).loosen
  | .assign =>
    ((expressionWithin s .lowest ts).bind fun value rest _ =>
      ⟨assign op lhs value rest, assign_within ..⟩).loosen
  | .step => ⟨step op lhs ts, step_within ..⟩
  | .call =>
    Bounded.bind (if nextIs .rightParen ts then .done [] ts else (argumentsWithin s 0 ts).loosen)
      fun args rest _ =>
        ((expectWithin s .rightParen .argumentsNotClosed rest).map fun paren =>
          .call lhs paren args).loosen
termination_by 4 * ts.length + 3

/-- Expressions set apart by commas, after the `count` that were read before. -/
def argumentsWithin (s : Setting) (count : Nat) (ts : List Token) : Bounded ts.length (List Expr) :=
  Bounded.addNotes (overLimit s .tooManyArguments count ts)
    ((expressionWithin s .lowest ts).bind fun e rest _ =>
      if nextIs .comma rest then
        ((argumentsWithin s (count + 1) rest.tail).map (e :: ·)).afterNext.loosen
      else .done [e] rest)
termination_by 4 * ts.length + 2

end

/-- An expression whose operators all bind tighter than `min`. -/
def expression (s : Setting) (min : Precedence) (ts : List Token) : Reply Expr :=
  (expressionWithin s min ts).1

def operand (s : Setting) (ts : List Token) : Reply Expr := (operandWithin s ts).1

def grow (s : Setting) (min : Precedence) (lhs : Expr) (ts : List Token) : Reply Expr :=
  (growWithin s min lhs ts).1

def join (s : Setting) (p : Precedence) (joining : Joining) (lhs : Expr) (op : Token)
    (ts : List Token) : Reply Expr :=
  (joinWithin s p joining lhs op ts).1

def arguments (s : Setting) (count : Nat) (ts : List Token) : Reply (List Expr) :=
  (argumentsWithin s count ts).1

theorem expression_within (s : Setting) (min : Precedence) (ts : List Token) :
    (expression s min ts).Within ts.length :=
  (expressionWithin s min ts).2

theorem expression_eq (s : Setting) (min : Precedence) (ts : List Token) :
    expression s min ts = (operand s ts).bind (grow s min) := by
  rw [expression, expressionWithin]
  exact Bounded.val_bind _ _ _ fun _ _ _ => rfl

theorem operand_nil (s : Setting) :
    operand s [] = .failed (s.error .noExpression []) [] [] := by
  simp [operand, operandWithin]

theorem operand_cons (s : Setting) (t : Token) (ts : List Token) :
    operand s (t :: ts) =
      match t.kind.opening? with
      | none => .failed (s.error .noExpression (t :: ts)) (t :: ts) []
      | some .literal =>
        match t.literalValue? with
        | some value => .done (.literal value) ts []
        | none => .failed (.atToken t .noExpression) ts []
      | some .name => .done (.name t) ts []
      | some .group =>
        (expression s .lowest ts).bind fun inner rest =>
          (expect s .rightParen .groupNotClosed rest).map fun _ => .group inner
      | some .operator => (expression s .unary ts).bind (unary t) := by
  rw [operand, operandWithin]
  split
  · rfl
  · split <;> rfl
  · rfl
  · exact Bounded.val_bind _ _ _ fun _ _ _ => by simp
  · exact Bounded.val_bind _ _ _ fun _ _ _ => rfl

theorem grow_nil (s : Setting) (min : Precedence) (lhs : Expr) :
    grow s min lhs [] = .done lhs [] [] := by
  simp [grow, growWithin]

theorem grow_cons (s : Setting) (min : Precedence) (lhs : Expr) (t : Token) (ts : List Token) :
    grow s min lhs (t :: ts) =
      match t.kind.joining? with
      | none => .done lhs (t :: ts) []
      | some (p, joining) =>
        if min < p then (join s p joining lhs t ts).bind (grow s min)
        else .done lhs (t :: ts) [] := by
  rw [grow, growWithin]
  split
  · rfl
  · split
    · exact (Bounded.val_loosen _).trans (Bounded.val_bind _ _ _ fun _ _ _ => rfl)
    · rfl

theorem join_eq (s : Setting) (p : Precedence) (joining : Joining) (lhs : Expr) (op : Token)
    (ts : List Token) :
    join s p joining lhs op ts =
      match joining with
      | .binary => (expression s p ts).map (.binary op lhs)
      | .logical => (expression s p ts).map (.logical op lhs)
      | .assign => (expression s .lowest ts).bind (assign op lhs)
      | .step => step op lhs ts
      | .call =>
        (if nextIs .rightParen ts then .done [] ts [] else arguments s 0 ts).bind fun args rest =>
          (expect s .rightParen .argumentsNotClosed rest).map fun paren => .call lhs paren args := by
  rw [join, joinWithin.eq_def]
  split
  · exact (Bounded.val_loosen _).trans (Bounded.val_map ..)
  · exact (Bounded.val_loosen _).trans (Bounded.val_map ..)
  · exact (Bounded.val_loosen _).trans (Bounded.val_bind _ _ _ fun _ _ _ => rfl)
  · rfl
  · rw [Bounded.val_bind _ _ _ fun _ _ _ => by simp; rfl]
    split <;> rfl

theorem arguments_eq (s : Setting) (count : Nat) (ts : List Token) :
    arguments s count ts =
      ((expression s .lowest ts).bind fun e rest =>
        if nextIs .comma rest then (arguments s (count + 1) rest.tail).map (e :: ·)
        else .done [e] rest []).addNotes (overLimit s .tooManyArguments count ts) := by
  rw [arguments, argumentsWithin, Bounded.val_addNotes]
  refine congrArg _ (Bounded.val_bind _ _ _ fun e rest _ => ?_)
  split
  · simp [arguments]
  · rfl

end Grammar

end Scriptlet
