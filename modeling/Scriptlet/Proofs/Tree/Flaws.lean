import Scriptlet.Proofs.Tree.WellFormed

namespace Scriptlet

open Grammar (listLimit)

namespace Expr

mutual

/-- No call in the expression has too many arguments. -/
def Limited : Expr → Prop
  | .literal _ | .name _ | .step .. => True
  | .assign _ value => Limited value
  | .group inner => Limited inner
  | .unary _ operand => Limited operand
  | .binary _ lhs rhs | .logical _ lhs rhs => Limited lhs ∧ Limited rhs
  | .call callee _ args => Limited callee ∧ LimitedAll args ∧ args.length ≤ listLimit

def LimitedAll : List Expr → Prop
  | [] => True
  | e :: es => Limited e ∧ LimitedAll es

end

mutual

/-- How many arguments are too many, in all calls together. -/
def surplus : Expr → Nat
  | .literal _ | .name _ | .step .. => 0
  | .assign _ value => surplus value
  | .group inner => surplus inner
  | .unary _ operand => surplus operand
  | .binary _ lhs rhs | .logical _ lhs rhs => surplus lhs + surplus rhs
  | .call callee _ args => surplus callee + surplusOf args + (args.length - listLimit)

def surplusOf : List Expr → Nat
  | [] => 0
  | e :: es => surplus e + surplusOf es

end

mutual

private theorem surplus_eq_zero_iff : (e : Expr) → (e.surplus = 0 ↔ e.Limited)
  | .literal _ | .name _ | .step .. => by simp [surplus, Limited]
  | .assign _ value => by rw [surplus, Limited, surplus_eq_zero_iff value]
  | .group inner => by rw [surplus, Limited, surplus_eq_zero_iff inner]
  | .unary _ operand => by rw [surplus, Limited, surplus_eq_zero_iff operand]
  | .binary _ lhs rhs | .logical _ lhs rhs => by
    rw [surplus, Limited, Nat.add_eq_zero_iff, surplus_eq_zero_iff lhs, surplus_eq_zero_iff rhs]
  | .call callee _ args => by
    rw [surplus, Limited, Nat.add_eq_zero_iff, Nat.add_eq_zero_iff, surplus_eq_zero_iff callee,
      surplusOf_eq_zero_iff args, Nat.sub_eq_zero_iff_le, and_assoc]

private theorem surplusOf_eq_zero_iff : (es : List Expr) → (surplusOf es = 0 ↔ LimitedAll es)
  | [] => by simp [surplusOf, LimitedAll]
  | e :: es => by
    rw [surplusOf, LimitedAll, Nat.add_eq_zero_iff, surplus_eq_zero_iff e, surplusOf_eq_zero_iff es]

end

end Expr

namespace Stmt

mutual

/-- No call in the statement has too many arguments, and no function too many parameters. -/
def Limited : Stmt → Prop
  | .expression e | .print _ e | .var _ (some e) | .ret _ (some e) => e.Limited
  | .var _ none | .ret _ none | .broken => True
  | .block body => LimitedAll body
  | .ifThen condition yes => condition.Limited ∧ Limited yes
  | .ifElse condition yes no => condition.Limited ∧ Limited yes ∧ Limited no
  | .loop condition body => condition.Limited ∧ Limited body
  | .function _ params body => LimitedAll body ∧ params.length ≤ listLimit

def LimitedAll : List Stmt → Prop
  | [] => True
  | s :: ss => Limited s ∧ LimitedAll ss

end

mutual

/-- How many arguments and parameters are too many. -/
def surplus : Stmt → Nat
  | .expression e | .print _ e | .var _ (some e) | .ret _ (some e) => e.surplus
  | .var _ none | .ret _ none | .broken => 0
  | .block body => surplusOf body
  | .ifThen condition yes => condition.surplus + surplus yes
  | .ifElse condition yes no => condition.surplus + (surplus yes + surplus no)
  | .loop condition body => condition.surplus + surplus body
  | .function _ params body => surplusOf body + (params.length - listLimit)

def surplusOf : List Stmt → Nat
  | [] => 0
  | s :: ss => surplus s + surplusOf ss

end

mutual

/-- How many statements in the statement are broken, itself included. -/
def brokens : Stmt → Nat
  | .expression _ | .print .. | .var .. | .ret .. => 0
  | .block body | .function _ _ body => brokensOf body
  | .ifThen _ yes => brokens yes
  | .ifElse _ yes no => brokens yes + brokens no
  | .loop _ body => brokens body
  | .broken => 1

def brokensOf : List Stmt → Nat
  | [] => 0
  | s :: ss => brokens s + brokensOf ss

end

private theorem limitedAll_iff {ss : List Stmt} : LimitedAll ss ↔ ∀ s ∈ ss, s.Limited := by
  induction ss with
  | nil => simp [LimitedAll]
  | cons s ss ih => simp [LimitedAll, ih]

mutual

private theorem surplus_eq_zero_iff : (s : Stmt) → (s.surplus = 0 ↔ s.Limited)
  | .expression e | .print _ e | .var _ (some e) | .ret _ (some e) => e.surplus_eq_zero_iff
  | .var _ none | .ret _ none | .broken => by simp [surplus, Limited]
  | .block body => by rw [surplus, Limited, surplusOf_eq_zero_iff body]
  | .ifThen c yes => by
    rw [surplus, Limited, Nat.add_eq_zero_iff, c.surplus_eq_zero_iff, surplus_eq_zero_iff yes]
  | .ifElse c yes no => by
    rw [surplus, Limited, Nat.add_eq_zero_iff, Nat.add_eq_zero_iff, c.surplus_eq_zero_iff,
      surplus_eq_zero_iff yes, surplus_eq_zero_iff no]
  | .loop c body => by
    rw [surplus, Limited, Nat.add_eq_zero_iff, c.surplus_eq_zero_iff, surplus_eq_zero_iff body]
  | .function _ params body => by
    rw [surplus, Limited, Nat.add_eq_zero_iff, surplusOf_eq_zero_iff body, Nat.sub_eq_zero_iff_le]

private theorem surplusOf_eq_zero_iff : (ss : List Stmt) → (surplusOf ss = 0 ↔ LimitedAll ss)
  | [] => by simp [surplusOf, LimitedAll]
  | s :: ss => by
    rw [surplusOf, LimitedAll, Nat.add_eq_zero_iff, surplus_eq_zero_iff s, surplusOf_eq_zero_iff ss]

end

mutual

private theorem brokens_eq_zero_iff : (s : Stmt) → (s.brokens = 0 ↔ s.Whole)
  | .expression _ | .print .. | .var _ (some _) | .ret _ (some _) | .var _ none | .ret _ none => by
    simp [brokens, Whole, Every]
  | .block body | .function _ _ body => by
    rw [brokens, brokensOf_eq_zero_iff body, Whole, Every]
  | .ifThen _ yes => by
    rw [brokens, brokens_eq_zero_iff yes, Whole, Whole, Every, true_and]
  | .ifElse _ yes no => by
    rw [brokens, Nat.add_eq_zero_iff, brokens_eq_zero_iff yes, brokens_eq_zero_iff no, Whole, Whole,
      Whole, Every, true_and]
  | .loop _ body => by
    rw [brokens, brokens_eq_zero_iff body, Whole, Whole, Every, true_and]
  | .broken => by simp [brokens, Whole, Every]

private theorem brokensOf_eq_zero_iff :
    (ss : List Stmt) → (brokensOf ss = 0 ↔ EveryIn (fun _ => True) False ss)
  | [] => by simp [brokensOf, EveryIn]
  | s :: ss => by
    rw [brokensOf, EveryIn, Nat.add_eq_zero_iff, brokens_eq_zero_iff s, brokensOf_eq_zero_iff ss,
      Whole]

end

/-- Broken statements, and arguments and parameters that are too many. -/
def flaws (s : Stmt) : Nat := s.brokens + s.surplus

def flawsOf (ss : List Stmt) : Nat := brokensOf ss + surplusOf ss

@[simp] theorem flaws_expression (e : Expr) : (expression e).flaws = e.surplus :=
  Nat.zero_add _

@[simp] theorem flaws_print (keyword : Token) (e : Expr) : (print keyword e).flaws = e.surplus :=
  Nat.zero_add _

@[simp] theorem flaws_var (name : Token) (init : Option Expr) :
    (var name init).flaws = init.elim 0 Expr.surplus := by
  cases init with
  | none => rfl
  | some e => exact Nat.zero_add _

@[simp] theorem flaws_ret (keyword : Token) (value : Option Expr) :
    (ret keyword value).flaws = value.elim 0 Expr.surplus := by
  cases value with
  | none => rfl
  | some e => exact Nat.zero_add _

@[simp] theorem flaws_block (body : List Stmt) : (block body).flaws = flawsOf body := rfl

@[simp] theorem flaws_ifThen (c : Expr) (yes : Stmt) :
    (ifThen c yes).flaws = c.surplus + yes.flaws := by
  simp only [flaws, brokens, surplus]
  omega

@[simp] theorem flaws_ifElse (c : Expr) (yes no : Stmt) :
    (ifElse c yes no).flaws = c.surplus + (yes.flaws + no.flaws) := by
  simp only [flaws, brokens, surplus]
  omega

@[simp] theorem flaws_loop (c : Expr) (body : Stmt) :
    (loop c body).flaws = c.surplus + body.flaws := by
  simp only [flaws, brokens, surplus]
  omega

@[simp] theorem flaws_function (name : Token) (params : List Token) (body : List Stmt) :
    (function name params body).flaws = (params.length - listLimit) + flawsOf body := by
  simp only [flaws, flawsOf, brokens, surplus]
  omega

@[simp] theorem flawsOf_nil : flawsOf [] = 0 := rfl

@[simp] theorem flawsOf_cons (s : Stmt) (ss : List Stmt) : flawsOf (s :: ss) = s.flaws + flawsOf ss := by
  rw [flawsOf, flawsOf, flaws, brokensOf, surplusOf]
  omega

theorem brokensOf_le_flawsOf (ss : List Stmt) : brokensOf ss ≤ flawsOf ss := Nat.le_add_right ..

/-- Trees without a flaw are the ones that are whole and within the limit. -/
theorem flawsOf_eq_zero_iff {ss : List Stmt} :
    flawsOf ss = 0 ↔ ∀ s ∈ ss, s.Whole ∧ s.Limited := by
  rw [flawsOf, Nat.add_eq_zero_iff, brokensOf_eq_zero_iff, surplusOf_eq_zero_iff, everyIn_iff,
    limitedAll_iff]
  constructor
  · rintro ⟨hwhole, hlimited⟩ s hs
    exact ⟨hwhole s hs, hlimited s hs⟩
  · intro h
    exact ⟨fun s hs => (h s hs).1, fun s hs => (h s hs).2⟩

end Stmt

end Scriptlet
