import Scriptlet.Grammar.Expression
import Scriptlet.Proofs.Evaluation.OperatorFault

namespace Scriptlet

namespace Expr

mutual

/-- Every operator in the expression has a meaning where it stands; a step operator in front stands in
front of a variable. -/
def Operable : Expr → Prop
  | .literal _ | .name _ => True
  | .assign _ value => Operable value
  | .group inner => Operable inner
  | .unary op operand =>
    (if op.kind.isStep then operand.isName else Operator.isUnary op.kind) = true ∧ Operable operand
  | .step op _ => op.kind.isStep = true
  | .binary op lhs rhs => Operator.isBinary op.kind = true ∧ Operable lhs ∧ Operable rhs
  | .logical op lhs rhs => Operator.isLogical op.kind = true ∧ Operable lhs ∧ Operable rhs
  | .call callee _ args => Operable callee ∧ OperableAll args

def OperableAll : List Expr → Prop
  | [] => True
  | e :: es => Operable e ∧ OperableAll es

end

theorem operableAll_iff {es : List Expr} : OperableAll es ↔ ∀ e ∈ es, e.Operable := by
  induction es with
  | nil => simp [OperableAll]
  | cons e es ih => simp [OperableAll, ih]

end Expr

namespace Stmt

mutual

/-- Every expression in the statement satisfies `p`, the bodies of functions included, and `broken`
holds if there is a broken statement in it. -/
def Every (p : Expr → Prop) (broken : Prop) : Stmt → Prop
  | .expression value | .print _ value | .var _ (some value) | .ret _ (some value) => p value
  | .var _ none | .ret _ none => True
  | .block body | .function _ _ body => EveryIn p broken body
  | .ifThen condition yes => p condition ∧ Every p broken yes
  | .ifElse condition yes no => p condition ∧ Every p broken yes ∧ Every p broken no
  | .loop condition body => p condition ∧ Every p broken body
  | .broken => broken

def EveryIn (p : Expr → Prop) (broken : Prop) : List Stmt → Prop
  | [] => True
  | s :: ss => Every p broken s ∧ EveryIn p broken ss

end

variable {p q : Expr → Prop} {b c : Prop}

theorem everyIn_iff {ss : List Stmt} : EveryIn p b ss ↔ ∀ s ∈ ss, s.Every p b := by
  induction ss with
  | nil => simp [EveryIn]
  | cons s ss ih => simp [EveryIn, ih]

mutual

theorem Every.mono (hp : ∀ e, p e → q e) (hb : b → c) : (s : Stmt) → s.Every p b → s.Every q c
  | .expression e, h | .print _ e, h | .var _ (some e), h | .ret _ (some e), h => hp e h
  | .var _ none, _ | .ret _ none, _ => trivial
  | .block body, h | .function _ _ body, h => EveryIn.mono hp hb body h
  | .ifThen c yes, h => ⟨hp c h.1, Every.mono hp hb yes h.2⟩
  | .ifElse c yes no, h => ⟨hp c h.1, Every.mono hp hb yes h.2.1, Every.mono hp hb no h.2.2⟩
  | .loop c body, h => ⟨hp c h.1, Every.mono hp hb body h.2⟩
  | .broken, h => hb h

theorem EveryIn.mono (hp : ∀ e, p e → q e) (hb : b → c) : (ss : List Stmt) → EveryIn p b ss →
    EveryIn q c ss
  | [], _ => trivial
  | s :: ss, h => ⟨Every.mono hp hb s h.1, EveryIn.mono hp hb ss h.2⟩

end

/-- No operator is out of place, wherever else the statement may be broken. -/
def Operable (s : Stmt) : Prop := s.Every Expr.Operable True

/-- No part of the statement is broken. -/
def Whole (s : Stmt) : Prop := s.Every (fun _ => True) False

def WellFormed (s : Stmt) : Prop := s.Every Expr.Operable False

theorem WellFormed.operable {s : Stmt} (h : s.WellFormed) : s.Operable :=
  Every.mono (fun _ he => he) False.elim s h

theorem WellFormed.whole {s : Stmt} (h : s.WellFormed) : s.Whole :=
  Every.mono (fun _ _ => trivial) id s h

end Stmt

end Scriptlet
