import Scriptlet.Proofs.Evaluation.CurrentScope
import Scriptlet.Proofs.Evaluation.ReturnPlacement

namespace Scriptlet

/-- Goes on behind a statement that ended so: at the call after a `return`, else with what is next. -/
def Flow.onward {β : Type} (next : β) (ret : Value → β) : Flow → β
  | .ret v => ret v
  | _ => next

namespace Evaluation.Direct

mutual

/-- The value of an expression in a scope. -/
def evaluateWith (calls : Calls) (env : Env) : Expr → Action Value
  | .literal l => pure (.ofLiteral l)
  | .name t => Action.read env t
  | .assign t e => do
    let v ← evaluateWith calls env e
    Action.assign env t v
    pure v
  | .group e => evaluateWith calls env e
  | .unary op e =>
    if op.kind.isStep then
      match e with
      | .name t => do return .number (← step env op t).2
      | _ => .raise op (.invalidStepTarget op.lexeme)
    else if Operator.isUnary op.kind then do
      let v ← evaluateWith calls env e
      apply op (Operator.unary op v)
    else .raise op (.invalidOperator op.lexeme)
  | .step op t => do return .number (← step env op t).1
  | .binary op l r => do
    let v ← evaluateWith calls env l
    let w ← evaluateWith calls env r
    apply op (Operator.binary op v w)
  | .logical op l r => do
    let v ← evaluateWith calls env l
    if Operator.decides op v then pure v else evaluateWith calls env r
  | .call callee paren args => do
    let f ← evaluateWith calls env callee
    let vs ← evaluateAllWith calls env args
    callValue calls paren f vs

def evaluateAllWith (calls : Calls) (env : Env) : List Expr → Action (List Value)
  | [] => pure []
  | e :: es => do
    let v ← evaluateWith calls env e
    let vs ← evaluateAllWith calls env es
    pure (v :: vs)

end

variable {α : Type}

/-- Before the body comes the condition, and after the body the rest of the loop. -/
def repeatWhile (condition : Action Value) (body : Action α → Action α) (next : Action α) :
    Nat → Action α
  | 0 => .cutOff
  | bound + 1 => do
    if (← condition).truthy then body (repeatWhile condition body next bound) else next

mutual

/-- Executes a statement in a scope and then does what is next, unless a `return` is met. -/
def executeWith (calls : Calls) (bound : Nat) (ret : Value → Action α) (env : Env) :
    Stmt → Action α → Action α
  | .expression e, next => do
    let _ ← evaluateWith calls env e
    next
  | .print keyword e, next => do
    let v ← evaluateWith calls env e
    Action.printLine keyword v.text
    next
  | .var name none, next => do
    Action.define env name.lexeme .nil
    next
  | .var name (some e), next => do
    let v ← evaluateWith calls env e
    Action.define env name.lexeme v
    next
  | .block body, next => do
    let inner ← Action.openScope env.chain
    executeAllWith calls bound ret inner body next
  | .ifThen c yes, next => do
    if (← evaluateWith calls env c).truthy then executeWith calls bound ret env yes next else next
  | .ifElse c yes no, next => do
    if (← evaluateWith calls env c).truthy then executeWith calls bound ret env yes next
    else executeWith calls bound ret env no next
  | .loop c body, next =>
    repeatWhile (evaluateWith calls env c) (executeWith calls bound ret env body) next bound
  | .function name params body, next => do
    let f ← Action.newFunction name params body env
    Action.define env name.lexeme (.function f)
    next
  | .ret _ none, _ => ret .nil
  | .ret _ (some e), _ => do ret (← evaluateWith calls env e)
  | .broken, next => next

def executeAllWith (calls : Calls) (bound : Nat) (ret : Value → Action α) (env : Env) :
    List Stmt → Action α → Action α
  | [], next => next
  | s :: ss, next => executeWith calls bound ret env s (executeAllWith calls bound ret env ss next)

end

/-- Calls a function. A returned value is the value of the call, and a body without one gives `nil`. -/
def call : Nat → Calls
  | 0, _, _ => .cutOff
  | bound + 1, f, args => do
    let env ← Action.openScope f.closure.chain
    Action.defineAll env f.params args
    executeAllWith (call bound) bound pure env f.body (pure .nil)

def evaluate (bound : Nat) (env : Env) (e : Expr) : Action Value :=
  evaluateWith (call bound) env e

def execute (bound : Nat) (ret : Value → Action α) (env : Env) (s : Stmt) (next : Action α) :
    Action α :=
  executeWith (call bound) bound ret env s next

def executeAll (bound : Nat) (ret : Value → Action α) (env : Env) (ss : List Stmt)
    (next : Action α) : Action α :=
  executeAllWith (call bound) bound ret env ss next

end Evaluation.Direct

namespace Evaluation

open Scriptlet.Action

variable {α : Type}

/-- A variable is changed in the scope that is handed over. -/
theorem inScope_step (env : Env) (op name : Token) (part : Float × Float → Float) :
    inScope env (scope >>= fun around => step around op name >>= fun r => pure (.number (part r))) =
      step env op name >>= fun r => pure (Value.number (part r)) := by
  rw [inScope_scope_bind]
  apply inScope_bind_eq (unscoped_step env op name).restores (unscoped_step env op name env)
  intro r
  rfl

variable {calls : Calls}

mutual

/-- In a scope, an expression means what it means when it is given that scope. -/
theorem inScope_evaluateWith (hcalls : UnscopedCalls calls) (env : Env) :
    (e : Expr) → inScope env (evaluateWith calls e) = Direct.evaluateWith calls env e
  | .literal l => rfl
  | .name t => by
    simp only [evaluateWith, Direct.evaluateWith]
    rw [inScope_scope_bind]
    exact unscoped_read env t env
  | .assign t e => by
    simp only [evaluateWith, Direct.evaluateWith]
    apply inScope_bind_eq (restores_evaluateWith hcalls e) (inScope_evaluateWith hcalls env e)
    intro v
    rw [inScope_scope_bind]
    apply inScope_bind_eq (unscoped_assign env t v).restores (unscoped_assign env t v env)
    intro _
    rfl
  | .group e => inScope_evaluateWith hcalls env e
  | .unary op e => by
    have operand := inScope_evaluateWith hcalls env e
    have restores := restores_evaluateWith hcalls e
    simp only [evaluateWith, Direct.evaluateWith]
    split
    · cases e with
      | name t => exact inScope_step env op t Prod.snd
      | _ => exact unscoped_raise op _ env
    · split
      · apply inScope_bind_eq restores operand
        intro v
        exact unscoped_apply op _ env
      · exact unscoped_raise op _ env
  | .step op t => by
    simp only [evaluateWith, Direct.evaluateWith]
    exact inScope_step env op t Prod.fst
  | .binary op l r => by
    simp only [evaluateWith, Direct.evaluateWith]
    apply inScope_bind_eq (restores_evaluateWith hcalls l) (inScope_evaluateWith hcalls env l)
    intro v
    apply inScope_bind_eq (restores_evaluateWith hcalls r) (inScope_evaluateWith hcalls env r)
    intro w
    exact unscoped_apply op _ env
  | .logical op l r => by
    simp only [evaluateWith, Direct.evaluateWith]
    apply inScope_bind_eq (restores_evaluateWith hcalls l) (inScope_evaluateWith hcalls env l)
    intro v
    split
    · rfl
    · exact inScope_evaluateWith hcalls env r
  | .call callee paren args => by
    simp only [evaluateWith, Direct.evaluateWith]
    apply inScope_bind_eq (restores_evaluateWith hcalls callee)
      (inScope_evaluateWith hcalls env callee)
    intro f
    apply inScope_bind_eq (restores_evaluateAllWith hcalls args)
      (inScope_evaluateAllWith hcalls env args)
    intro vs
    exact unscoped_callValue hcalls paren f vs env

private theorem inScope_evaluateAllWith (hcalls : UnscopedCalls calls) (env : Env) :
    (es : List Expr) → inScope env (evaluateAllWith calls es) = Direct.evaluateAllWith calls env es
  | [] => rfl
  | e :: es => by
    simp only [evaluateAllWith, Direct.evaluateAllWith]
    apply inScope_bind_eq (restores_evaluateWith hcalls e) (inScope_evaluateWith hcalls env e)
    intro v
    apply inScope_bind_eq (restores_evaluateAllWith hcalls es)
      (inScope_evaluateAllWith hcalls env es)
    intro vs
    rfl

end

private theorem inScope_evaluateWith_bind {β : Type} (hcalls : UnscopedCalls calls) (env : Env)
    (e : Expr) (f : Value → Action β) : inScope env (evaluateWith calls e >>= f) =
      Direct.evaluateWith calls env e >>= fun v => inScope env (f v) := by
  rw [inScope_bind env (restores_evaluateWith hcalls e), inScope_evaluateWith hcalls env e]

/-- What a statement passes on leads to where the statement inside it led. -/
theorem outward_onward (env : Env) {x : Action Flow} (hx : Restores x) (ret : Value → Action α)
    (next : Action α) :
    (inScope env (x >>= fun flow => pure flow.outward) >>= fun flow => flow.onward next ret) =
      inScope env x >>= fun flow => flow.onward next ret := by
  rw [inScope_bind env hx, bind_assoc]
  congr 1
  funext flow
  cases flow <;> rfl

/-- The rest of a loop comes after its body, unless the body meets a `return`. -/
theorem repeatWhile_onward (env : Env) {condition : Action Value} {body : Action Flow}
    (hc : Restores condition) (hb : Restores body) (ret : Value → Action α) (next : Action α)
    (bound : Nat) :
    (inScope env (repeatWhile condition body bound) >>= fun flow => flow.onward next ret) =
      Direct.repeatWhile (inScope env condition)
        (fun rest => inScope env body >>= fun flow => flow.onward rest ret) next bound := by
  induction bound with
  | zero => rfl
  | succ bound ih =>
    simp only [repeatWhile, Direct.repeatWhile]
    rw [inScope_bind env hc, bind_assoc]
    congr 1
    funext v
    split
    · rw [inScope_bind env hb, bind_assoc]
      congr 1
      funext flow
      cases flow with
      | ret v => rfl
      | normal => exact ih
      | value v => exact ih
    · rfl

mutual

/-- Executing a statement and going on by its tag is executing it with what comes next. -/
theorem executeWith_onward (hcalls : UnscopedCalls calls) (bound : Nat) (env : Env)
    (ret : Value → Action α) (next : Action α) : (s : Stmt) →
    (inScope env (executeWith calls bound s) >>= fun flow => flow.onward next ret) =
      Direct.executeWith calls bound ret env s next
  | .expression e => by
    simp only [executeWith, Direct.executeWith]
    rw [inScope_evaluateWith_bind hcalls, bind_assoc]
    rfl
  | .print keyword e => by
    simp only [executeWith, Direct.executeWith]
    rw [inScope_evaluateWith_bind hcalls, bind_assoc]
    congr 1
    funext v
    rw [inScope_bind env (unscoped_printLine keyword v.text).restores,
      unscoped_printLine keyword v.text env, bind_assoc]
    rfl
  | .var name none => rfl
  | .var name (some e) => by
    simp only [executeWith, Direct.executeWith]
    rw [inScope_evaluateWith_bind hcalls, bind_assoc]
    rfl
  | .block body => by
    simp only [executeWith, Direct.executeWith]
    rw [inScope_scope_bind, inScope_bind env (unscoped_openScope env.chain).restores,
      unscoped_openScope env.chain env, bind_assoc]
    congr 1
    funext inner
    rw [unscoped_inScope inner _ env]
    exact executeAllWith_onward hcalls bound inner ret next body
  | .ifThen c yes => by
    simp only [executeWith, Direct.executeWith]
    rw [inScope_evaluateWith_bind hcalls, bind_assoc]
    congr 1
    funext v
    split
    · rw [outward_onward env (restores_executeWith hcalls bound yes)]
      exact executeWith_onward hcalls bound env ret next yes
    · rfl
  | .ifElse c yes no => by
    simp only [executeWith, Direct.executeWith]
    rw [inScope_evaluateWith_bind hcalls, bind_assoc]
    congr 1
    funext v
    split
    · rw [outward_onward env (restores_executeWith hcalls bound yes)]
      exact executeWith_onward hcalls bound env ret next yes
    · rw [outward_onward env (restores_executeWith hcalls bound no)]
      exact executeWith_onward hcalls bound env ret next no
  | .loop c body => by
    have round : (fun rest => inScope env (executeWith calls bound body) >>= fun flow =>
        flow.onward rest ret) = Direct.executeWith calls bound ret env body := by
      funext rest
      exact executeWith_onward hcalls bound env ret rest body
    simp only [executeWith, Direct.executeWith]
    rw [repeatWhile_onward env (restores_evaluateWith hcalls c)
      (restores_executeWith hcalls bound body), inScope_evaluateWith hcalls env c, round]
  | .function name params body => rfl
  | .ret _ none => rfl
  | .ret _ (some e) => by
    simp only [executeWith, Direct.executeWith]
    rw [inScope_evaluateWith_bind hcalls, bind_assoc]
    rfl
  | .broken => rfl

private theorem executeAllWith_onward (hcalls : UnscopedCalls calls) (bound : Nat) (env : Env)
    (ret : Value → Action α) (next : Action α) : (ss : List Stmt) →
    (inScope env (executeAllWith calls bound ss) >>= fun flow => flow.onward next ret) =
      Direct.executeAllWith calls bound ret env ss next
  | [] => rfl
  | s :: ss => by
    simp only [executeAllWith, Direct.executeAllWith]
    rw [inScope_bind env (restores_executeWith hcalls bound s), bind_assoc,
      ← executeWith_onward hcalls bound env ret _ s]
    congr 1
    funext flow
    have rest := executeAllWith_onward hcalls bound env ret next ss
    cases flow with
    | ret v => rfl
    | normal => exact rest
    | value v => exact rest

end

/-- At every bound, a call that looks for the tag of a `return` is one that the `return` leaves. -/
theorem call_eq_direct (bound : Nat) : call bound = Direct.call bound := by
  induction bound with
  | zero => rfl
  | succ bound ih =>
    funext f args
    simp only [call, Direct.call]
    congr 1
    funext env
    congr 1
    funext _
    rw [← ih, ← executeAllWith_onward (unscoped_call bound) bound env pure (pure .nil) f.body]
    congr 1
    funext flow
    cases flow <;> rfl

/-- A list of statements goes on with the ones behind it unless it meets a `return`. -/
theorem executeAllWith_append (bound : Nat) (ss rest : List Stmt) :
    executeAllWith calls bound (ss ++ rest) = executeAllWith calls bound ss >>= fun flow =>
      flow.onward (executeAllWith calls bound rest) fun v => pure (.ret v) := by
  induction ss with
  | nil => rfl
  | cons s ss ih =>
    simp only [List.cons_append, executeAllWith, bind_assoc]
    congr 1
    funext flow
    cases flow with
    | ret v => rfl
    | normal => exact ih
    | value v => exact ih

/-- What runs in the current scope is what runs in that scope given to it. -/
theorem apply_eq_inScope {β : Type} {x : Action β} (hx : Restores x) (f : β → Action α)
    (m : Machine) :
    (x >>= f) m = (inScope m.scope x >>= f) m := by
  rw [bind_apply, bind_apply, hx.inScope_apply m]

/-- The outcome of a `return` on its way out is the one that the call has for it. -/
theorem direct_of_ret (bound : Nat) (ret : Value → Action α) (next : Action α) (ss : List Stmt)
    {m m' : Machine} {v : Value}
    (h : executeAllWith (call bound) bound ss m = .done (.ret v) m') :
    Direct.executeAll bound ret m.scope ss next m = ret v m' := by
  have restores := restores_executeAllWith (unscoped_call bound) bound ss
  have tagged := executeAllWith_onward (unscoped_call bound) bound m.scope ret next ss
  rw [Direct.executeAll, ← call_eq_direct, ← tagged, ← apply_eq_inScope restores, bind_apply, h]
  rfl

/-- Tags lead every `return` to the call that encloses it, as if it had gone there directly, within
any bound and on any machine, errors and cut-off runs included. -/
theorem return_leaves_call (bound : Nat) :
    (∀ f args, call bound f args = Direct.call bound f args) ∧
    (∀ e m, evaluateWith (call bound) e m = Direct.evaluate bound m.scope e m) ∧
    (∀ {α : Type} (ret : Value → Action α) (next : Action α) s m,
      (executeWith (call bound) bound s >>= fun flow => flow.onward next ret) m =
        Direct.execute bound ret m.scope s next m) ∧
    (∀ {α : Type} (ret : Value → Action α) (next : Action α) ss m,
      (executeAllWith (call bound) bound ss >>= fun flow => flow.onward next ret) m =
        Direct.executeAll bound ret m.scope ss next m) ∧
    (∀ {α : Type} (ret : Value → Action α) (next : Action α) env ss,
      (executeAll bound env ss >>= fun flow => flow.onward next ret) =
        Direct.executeAll bound ret env ss next) ∧
    (∀ ss m v m', executeAllWith (call bound) bound ss m = .done (.ret v) m' →
      (∀ rest, executeAllWith (call bound) bound (ss ++ rest) m = .done (.ret v) m') ∧
      ∀ {α : Type} (ret : Value → Action α) (next : Action α),
        Direct.executeAll bound ret m.scope ss next m = ret v m') ∧
    (∀ c body rounds m w m₁ v m₂, evaluateWith (call bound) c m = .done w m₁ → w.truthy →
      executeWith (call bound) bound body m₁ = .done (.ret v) m₂ →
      repeatWhile (evaluateWith (call bound) c) (executeWith (call bound) bound body) (rounds + 1) m =
        .done (.ret v) m₂) ∧
    (∀ s m v m', s.exposedReturns = [] → executeWith (call bound) bound s m ≠ .done (.ret v) m') := by
  have hcalls : UnscopedCalls (call bound) := unscoped_call bound
  refine ⟨?_, ?_, ?_, ?_, ?_, ?_, ?_, ?_⟩
  · intro f args
    rw [call_eq_direct]
  · intro e m
    rw [Direct.evaluate, ← call_eq_direct, ← inScope_evaluateWith hcalls m.scope e,
      (restores_evaluateWith hcalls e).inScope_apply m]
  · intro α ret next s m
    rw [Direct.execute, ← call_eq_direct, ← executeWith_onward hcalls bound m.scope ret next s]
    exact apply_eq_inScope (restores_executeWith hcalls bound s) _ m
  · intro α ret next ss m
    rw [Direct.executeAll, ← call_eq_direct,
      ← executeAllWith_onward hcalls bound m.scope ret next ss]
    exact apply_eq_inScope (restores_executeAllWith hcalls bound ss) _ m
  · intro α ret next env ss
    rw [Direct.executeAll, ← call_eq_direct]
    exact executeAllWith_onward hcalls bound env ret next ss
  · intro ss m v m' h
    constructor
    · intro rest
      rw [executeAllWith_append, bind_apply, h]
      rfl
    · intro α ret next
      exact direct_of_ret bound ret next ss h
  · intro c body rounds m w m₁ v m₂ hc hw hb
    simp only [repeatWhile, bind_apply, hc, hw, if_true, hb]
    rfl
  · intro s m v m' h
    exact neverReturns_executeWith bound s h m v m'

/-- Out of a block in an endless loop, and past what stands behind the loop; but declaring a function
that returns is no `return`. -/
theorem return_leaves_endless_loop :
    let keyword : Token := ⟨.kwReturn, "return", none, 1⟩
    let yes : Expr := .literal (.bool true)
    let body : Stmt := .block [.ret keyword none]
    let m : Machine := ⟨⟨#[.empty], 0⟩, .empty none, ⟨0, []⟩⟩
    let after : Machine := ⟨⟨#[.empty, .empty], 0⟩, .empty none, ⟨0, []⟩⟩
    executeAllWith (call 2) 2 ([.loop yes body] ++ [.print keyword (.literal .nil)]) m =
        .done (.ret .nil) after ∧
      repeatWhile (evaluateWith (call 2) yes) (executeWith (call 2) 2 body) 2 m =
        .done (.ret .nil) after ∧
      executeWith (call 2) 2 (.function keyword [] [body]) m ≠ .done (.ret .nil) after := by
  intro keyword yes body m after
  obtain ⟨-, -, -, -, -, behind, round, enclosed⟩ := return_leaves_call 2
  refine ⟨?_, ?_, ?_⟩
  · exact (behind [.loop yes body] m .nil after rfl).1 _
  · exact round yes body 1 m (.bool true) m .nil after rfl rfl rfl
  · exact enclosed (.function keyword [] [body]) m .nil after rfl

end Evaluation

end Scriptlet
