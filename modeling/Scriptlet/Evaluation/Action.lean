import Scriptlet.Evaluation.Output
import Scriptlet.Evaluation.RuntimeError
import Scriptlet.Scope.Store

namespace Scriptlet

/-- The store and the output of a running program, and the scope in which it is. -/
structure Machine where
  store : Store
  output : Output
  scope : Env

inductive Outcome (α : Type) where
  | done (value : α) (machine : Machine)
  | error (error : RuntimeError) (machine : Machine)
  | unfinished

/-- What evaluation does to the machine that a program runs on. -/
def Action (α : Type) := Machine → Outcome α

namespace Action

variable {α β : Type}

@[always_inline, inline] protected def pure (a : α) : Action α := fun m => .done a m

/-- An error of the first action keeps the second from running. -/
@[always_inline, inline] protected def bind (x : Action α) (f : α → Action β) : Action β := fun m =>
  match x m with
  | .done a m => f a m
  | .error e m => .error e m
  | .unfinished => .unfinished

instance : Monad Action where
  pure := Action.pure
  bind := Action.bind

theorem pure_apply (a : α) (m : Machine) : (pure a : Action α) m = .done a m := rfl

theorem bind_apply (x : Action α) (f : α → Action β) (m : Machine) :
    (x >>= f) m =
      match x m with
      | .done a m => f a m
      | .error e m => .error e m
      | .unfinished => .unfinished := rfl

instance : LawfulMonad Action :=
  .mk' Action
    (fun x => funext fun m => by
      show (match x m with
        | .done a m => Outcome.done a m
        | .error e m => .error e m
        | .unfinished => .unfinished) = x m
      cases x m <;> rfl)
    (fun _ _ => rfl)
    (fun x f g => funext fun m => by
      simp only [bind_apply]
      cases x m <;> rfl)

/-- Ends without an outcome. -/
def cutOff : Action α := fun _ => .unfinished

def raise (token : Token) (fault : RuntimeFault) : Action α := fun m => .error ⟨token, fault⟩ m

/-- The scope in which the program is. -/
def scope : Action Env := fun m => .done m.scope m

/-- Enters a scope for the length of an action. The scope before is back whether the action ends with
a value or with an error. -/
def inScope (env : Env) (x : Action α) : Action α := fun ⟨store, output, before⟩ =>
  match x ⟨store, output, env⟩ with
  | .done a ⟨store, output, _⟩ => .done a ⟨store, output, before⟩
  | .error e ⟨store, output, _⟩ => .error e ⟨store, output, before⟩
  | .unfinished => .unfinished

/-- The value of the variable that the token names. -/
def read (env : Env) (name : Token) : Action Value := fun m =>
  match m.store.get? env name.lexeme with
  | some v => .done v m
  | none => .error ⟨name, .undefinedVariable name.lexeme⟩ m

/-- Gives the variable that the token names a new value. -/
def assign (env : Env) (name : Token) (v : Value) : Action Unit := fun ⟨store, output, scope⟩ =>
  match store.holder? env.chain name.lexeme with
  | some holder => .done () ⟨store.bindIn holder name.lexeme v, output, scope⟩
  | none => .error ⟨name, .undefinedVariable name.lexeme⟩ ⟨store, output, scope⟩

def define (env : Env) (name : String) (v : Value) : Action Unit := fun ⟨store, output, scope⟩ =>
  .done () ⟨store.define env name v, output, scope⟩

def defineAll (env : Env) (names : List Token) (vs : List Value) : Action Unit :=
  fun ⟨store, output, scope⟩ => .done () ⟨store.defineAll env names vs, output, scope⟩

def openScope (outer : List Nat) : Action Env := fun ⟨store, output, scope⟩ =>
  match store.openScope outer with
  | (env, store) => .done env ⟨store, output, scope⟩

def newFunction (name : Token) (params : List Token) (body : List Stmt) (closure : Env) :
    Action Function := fun ⟨store, output, scope⟩ =>
  match store.newFunction name params body closure with
  | (f, store) => .done f ⟨store, output, scope⟩

/-- Writes a line; a failure is placed at the given token. -/
def printLine (keyword : Token) (text : String) : Action Unit := fun ⟨store, output, scope⟩ =>
  match output.write (text ++ "\n") with
  | (output, true) => .done () ⟨store, output, scope⟩
  | (output, false) => .error ⟨keyword, .outputFailed output.refusal⟩ ⟨store, output, scope⟩

/-- Assignment succeeds when the store has a binding to change. -/
theorem assign_apply (env : Env) (name : Token) (v : Value) (m : Machine) :
    assign env name v m =
      match m.store.assign? env name.lexeme v with
      | some store => .done () { m with store }
      | none => .error ⟨name, .undefinedVariable name.lexeme⟩ m := by
  obtain ⟨store, output, scope⟩ := m
  simp only [assign, Store.assign?]
  cases store.holder? env.chain name.lexeme <;> rfl

end Action

end Scriptlet
