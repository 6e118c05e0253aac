import Scriptlet.Proofs.Renumber

namespace Scriptlet

namespace Action

/-- What the primitive actions are related to passes to what is put together from them. On the other
side lines are renumbered by `g`, and `f` renumbers what an action ends with. -/
structure Compositional (g : Nat → Nat)
    (R : (α : Type) → (α → α) → Action α → Action α → Prop) : Prop where
  pure {α : Type} (f : α → α) (a : α) : R α f (pure a) (pure (f a))
  bind {α β : Type} {f : α → α} {h : β → β} {x y : Action α} {k l : α → Action β} :
    R α f x y → (∀ a, R β h (k a) (l (f a))) → R β h (x >>= k) (y >>= l)
  inScope {α : Type} {f : α → α} {x y : Action α} (env : Env) :
    R α f x y → R α f (inScope env x) (inScope env y)
  cutOff {α : Type} (f : α → α) : R α f cutOff cutOff
  raise {α : Type} (f : α → α) (token : Token) (fault : RuntimeFault) :
    R α f (raise token fault) (raise (token.renumber g) fault)
  scope : R Env id scope scope
  read (env : Env) (name : Token) :
    R Value (Value.renumber g) (read env name) (read env (name.renumber g))
  assign (env : Env) (name : Token) (v : Value) :
    R Unit id (assign env name v) (assign env (name.renumber g) (v.renumber g))
  define (env : Env) (name : String) (v : Value) :
    R Unit id (define env name v) (define env name (v.renumber g))
  defineAll (env : Env) (names : List Token) (vs : List Value) :
    R Unit id (defineAll env names vs)
      (defineAll env (names.map (Token.renumber g)) (vs.map (Value.renumber g)))
  openScope (outer : List Nat) : R Env id (openScope outer) (openScope outer)
  newFunction (name : Token) (params : List Token) (body : List Stmt) (closure : Env) :
    R Function (Function.renumber g) (newFunction name params body closure)
      (newFunction (name.renumber g) (params.map (Token.renumber g)) (Stmt.renumberAll g body)
        closure)
  printLine (keyword : Token) (text : String) :
    R Unit id (printLine keyword text) (printLine (keyword.renumber g) text)

namespace Compositional

open Evaluation

variable {g : Nat → Nat} {R : (α : Type) → (α → α) → Action α → Action α → Prop} {calls : Calls}

theorem ite {α : Type} {f : α → α} {c : Prop} [Decidable c] {x x' y y' : Action α}
    (hx : R α f x x') (hy : R α f y y') : R α f (if c then x else y) (if c then x' else y') := by
  split
  · exact hx
  · exact hy

theorem apply (h : Compositional g R) (op : Token) (result : Except RuntimeFault Value) :
    R Value (Value.renumber g) (apply op result)
      (apply (op.renumber g) (result.map (Value.renumber g))) := by
  cases result with
  | ok v => exact h.pure _ v
  | error fault => exact h.raise _ op fault

theorem step (h : Compositional g R) (env : Env) (op name : Token) :
    R (Float × Float) id (step env op name) (step env (op.renumber g) (name.renumber g)) := by
  simp only [Evaluation.step, Token.kind_renumber, Token.lexeme_renumber]
  split
  · exact h.raise id op _
  · apply h.bind (h.read env name)
    intro v
    rw [Value.number?_renumber]
    split
    · exact h.raise id op _
    · apply h.bind (h.assign env name _)
      intro _
      exact h.pure id _

/-- The calls that a program makes are related. -/
def RelatesCalls (g : Nat → Nat) (R : (α : Type) → (α → α) → Action α → Action α → Prop)
    (calls : Calls) : Prop :=
  ∀ f args, R Value (Value.renumber g) (calls f args)
    (calls (f.renumber g) (args.map (Value.renumber g)))

theorem callValue (h : Compositional g R) (hcalls : RelatesCalls g R calls) (paren : Token)
    (callee : Value) (args : List Value) :
    R Value (Value.renumber g) (callValue calls paren callee args)
      (callValue calls (paren.renumber g) (callee.renumber g) (args.map (Value.renumber g))) := by
  cases callee with
  | function f =>
    have arity : (f.renumber g).arity = f.arity := List.length_map _
    simp only [Evaluation.callValue, Value.renumber, arity, List.length_map]
    exact ite (hcalls f args) (h.raise _ paren _)
  | _ => exact h.raise _ paren _

mutual

theorem evaluateWith (h : Compositional g R) (hcalls : RelatesCalls g R calls) : (e : Expr) →
    R Value (Value.renumber g) (evaluateWith calls e) (evaluateWith calls (e.renumber g))
  | .literal l => by
    have related := h.pure (Value.renumber g) (.ofLiteral l)
    rw [Value.renumber_ofLiteral] at related
    exact related
  | .name t => by
    simp only [Expr.renumber, Evaluation.evaluateWith]
    apply h.bind h.scope
    intro env
    exact h.read env t
  | .assign t e => by
    simp only [Expr.renumber, Evaluation.evaluateWith]
    apply h.bind (evaluateWith h hcalls e)
    intro v
    apply h.bind h.scope
    intro env
    apply h.bind (h.assign env t v)
    intro _
    exact h.pure _ v
  | .group e => by
    simp only [Expr.renumber, Evaluation.evaluateWith]
    exact evaluateWith h hcalls e
  | .unary op e => by
    have operand := evaluateWith h hcalls e
    simp only [Expr.renumber, Evaluation.evaluateWith, Token.kind_renumber, Token.lexeme_renumber]
    apply ite
    · cases e with
      | name t =>
        apply h.bind h.scope
        intro env
        apply h.bind (h.step env op t)
        intro r
        exact h.pure _ (Value.number r.2)
      | _ => exact h.raise _ op _
    · apply ite
      · apply h.bind operand
        intro v
        rw [Operator.unary_renumber]
        exact h.apply op _
      · exact h.raise _ op _
  | .step op t => by
    simp only [Expr.renumber, Evaluation.evaluateWith]
    apply h.bind h.scope
    intro env
    apply h.bind (h.step env op t)
    intro r
    exact h.pure _ (Value.number r.1)
  | .binary op l r => by
    simp only [Expr.renumber, Evaluation.evaluateWith]
    apply h.bind (evaluateWith h hcalls l)
    intro v
    apply h.bind (evaluateWith h hcalls r)
    intro w
    rw [Operator.binary_renumber]
    exact h.apply op _
  | .logical op l r => by
    simp only [Expr.renumber, Evaluation.evaluateWith]
    apply h.bind (evaluateWith h hcalls l)
    intro v
    simp only [Operator.decides, Token.kind_renumber, Value.truthy_renumber]
    exact ite (h.pure _ v) (evaluateWith h hcalls r)
  | .call callee paren args => by
    simp only [Expr.renumber, Evaluation.evaluateWith]
    apply h.bind (evaluateWith h hcalls callee)
    intro f
    apply h.bind (evaluateAllWith h hcalls args)
    intro vs
    exact h.callValue hcalls paren f vs

theorem evaluateAllWith (h : Compositional g R) (hcalls : RelatesCalls g R calls) :
    (es : List Expr) → R (List Value) (List.map (Value.renumber g)) (evaluateAllWith calls es)
      (evaluateAllWith calls (Expr.renumberAll g es))
  | [] => h.pure _ []
  | e :: es => by
    simp only [Expr.renumberAll, Evaluation.evaluateAllWith]
    apply h.bind (evaluateWith h hcalls e)
    intro v
    apply h.bind (evaluateAllWith h hcalls es)
    intro vs
    exact h.pure _ (v :: vs)

end

theorem repeatWhile (h : Compositional g R) {condition condition' : Action Value}
    {body body' : Action Flow} (hc : R Value (Value.renumber g) condition condition')
    (hb : R Flow (Flow.renumber g) body body') (bound : Nat) :
    R Flow (Flow.renumber g) (repeatWhile condition body bound)
      (repeatWhile condition' body' bound) := by
  induction bound with
  | zero => exact h.cutOff _
  | succ bound ih =>
    simp only [Evaluation.repeatWhile]
    apply h.bind hc
    intro v
    rw [Value.truthy_renumber]
    apply ite
    · apply h.bind hb
      intro flow
      cases flow with
      | ret w => exact h.pure _ (Flow.ret w)
      | normal => exact ih
      | value w => exact ih
    · exact h.pure _ Flow.normal

theorem outward (h : Compositional g R) {x y : Action Flow} (hxy : R Flow (Flow.renumber g) x y) :
    R Flow (Flow.renumber g) (x >>= fun flow => Pure.pure flow.outward)
      (y >>= fun flow => Pure.pure flow.outward) := by
  apply h.bind hxy
  intro flow
  rw [Flow.outward_renumber]
  exact h.pure _ flow.outward

mutual

theorem executeWith (h : Compositional g R) (hcalls : RelatesCalls g R calls) (bound : Nat) :
    (s : Stmt) → R Flow (Flow.renumber g) (executeWith calls bound s)
      (executeWith calls bound (s.renumber g))
  | .expression e => by
    simp only [Stmt.renumber, Evaluation.executeWith]
    apply h.bind (h.evaluateWith hcalls e)
    intro v
    exact h.pure _ (Flow.value v)
  | .print keyword e => by
    simp only [Stmt.renumber, Evaluation.executeWith]
    apply h.bind (h.evaluateWith hcalls e)
    intro v
    rw [Value.text_renumber]
    apply h.bind (h.printLine keyword v.text)
    intro _
    exact h.pure _ Flow.normal
  | .var name none => by
    simp only [Stmt.renumber, Option.map_none, Evaluation.executeWith, Token.lexeme_renumber]
    apply h.bind h.scope
    intro env
    apply h.bind (h.define env name.lexeme .nil)
    intro _
    exact h.pure _ Flow.normal
  | .var name (some e) => by
    simp only [Stmt.renumber, Option.map_some, Evaluation.executeWith, Token.lexeme_renumber]
    apply h.bind (h.evaluateWith hcalls e)
    intro v
    apply h.bind h.scope
    intro env
    apply h.bind (h.define env name.lexeme v)
    intro _
    exact h.pure _ Flow.normal
  | .block body => by
    simp only [Stmt.renumber, Evaluation.executeWith]
    apply h.bind h.scope
    intro env
    apply h.bind (h.openScope env.chain)
    intro inner
    exact h.inScope inner (executeAllWith h hcalls bound body)
  | .ifThen c yes => by
    simp only [Stmt.renumber, Evaluation.executeWith]
    apply h.bind (h.evaluateWith hcalls c)
    intro v
    rw [Value.truthy_renumber]
    exact ite (h.outward (executeWith h hcalls bound yes)) (h.pure _ Flow.normal)
  | .ifElse c yes no => by
    simp only [Stmt.renumber, Evaluation.executeWith]
    apply h.bind (h.evaluateWith hcalls c)
    intro v
    rw [Value.truthy_renumber]
    exact ite (h.outward (executeWith h hcalls bound yes))
      (h.outward (executeWith h hcalls bound no))
  | .loop c body => by
    simp only [Stmt.renumber, Evaluation.executeWith]
    exact h.repeatWhile (h.evaluateWith hcalls c) (executeWith h hcalls bound body) bound
  | .function name params body => by
    simp only [Stmt.renumber, Evaluation.executeWith, Token.lexeme_renumber]
    apply h.bind h.scope
    intro env
    apply h.bind (h.newFunction name params body env)
    intro f
    apply h.bind h.scope
    intro here
    apply h.bind (h.define here name.lexeme (.function f))
    intro _
    exact h.pure _ Flow.normal
  | .ret _ none => h.pure _ (Flow.ret .nil)
  | .ret _ (some e) => by
    simp only [Stmt.renumber, Option.map_some, Evaluation.executeWith]
    apply h.bind (h.evaluateWith hcalls e)
    intro v
    exact h.pure _ (Flow.ret v)
  | .broken => h.pure _ Flow.normal

theorem executeAllWith (h : Compositional g R) (hcalls : RelatesCalls g R calls) (bound : Nat) :
    (ss : List Stmt) → R Flow (Flow.renumber g) (executeAllWith calls bound ss)
      (executeAllWith calls bound (Stmt.renumberAll g ss))
  | [] => h.pure _ Flow.normal
  | s :: ss => by
    simp only [Stmt.renumberAll, Evaluation.executeAllWith]
    apply h.bind (executeWith h hcalls bound s)
    intro flow
    have rest := executeAllWith h hcalls bound ss
    cases flow with
    | ret v => exact h.pure _ (Flow.ret v)
    | normal => exact rest
    | value v => exact rest

end

theorem call (h : Compositional g R) (bound : Nat) : RelatesCalls g R (call bound) := by
  intro f args
  induction bound generalizing f args with
  | zero => exact h.cutOff _
  | succ bound ih =>
    simp only [Evaluation.call]
    apply h.bind (h.openScope f.closure.chain)
    intro env
    apply h.bind (h.defineAll env f.params args)
    intro _
    apply h.bind (h.inScope env (h.executeAllWith ih bound f.body))
    intro flow
    rw [Flow.result_renumber]
    exact h.pure _ flow.result

end Compositional

end Action

end Scriptlet
