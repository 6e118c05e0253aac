import Scriptlet.Proofs.Evaluation.Compositional

namespace Scriptlet

/-- If it came to an end, the program is in the given scope. -/
def Outcome.EndsIn {α : Type} (env : Env) : Outcome α → Prop
  | .done _ m => m.scope = env
  | .error _ m => m.scope = env
  | .unfinished => True

namespace Action

variable {α β : Type}

/-- Ends in the scope in which it began. -/
def Restores (x : Action α) : Prop := ∀ m, (x m).EndsIn m.scope

/-- Neither looks at the current scope nor changes it. -/
def Unscoped (x : Action α) : Prop := ∀ env, inScope env x = x

private theorem unscoped_pure (a : α) : Unscoped (pure a : Action α) := fun _ => rfl

private theorem unscoped_cutOff : Unscoped (cutOff : Action α) := fun _ => rfl

theorem unscoped_raise (token : Token) (fault : RuntimeFault) :
    Unscoped (raise token fault : Action α) := fun _ => rfl

theorem unscoped_inScope (env : Env) (x : Action α) : Unscoped (inScope env x) := by
  intro around
  funext m
  show inScope around (inScope env x) m = inScope env x m
  simp only [inScope]
  cases x ⟨m.store, m.output, env⟩ <;> rfl

theorem unscoped_read (env : Env) (name : Token) : Unscoped (read env name) := by
  intro around
  funext m
  simp only [inScope, read]
  cases m.store.get? env name.lexeme <;> rfl

theorem unscoped_assign (env : Env) (name : Token) (v : Value) : Unscoped (assign env name v) := by
  intro around
  funext m
  simp only [inScope, assign]
  cases m.store.holder? env.chain name.lexeme <;> rfl

private theorem unscoped_define (env : Env) (name : String) (v : Value) :
    Unscoped (define env name v) :=
  fun _ => rfl

private theorem unscoped_defineAll (env : Env) (names : List Token) (vs : List Value) :
    Unscoped (defineAll env names vs) :=
  fun _ => rfl

theorem unscoped_openScope (outer : List Nat) : Unscoped (openScope outer) := fun _ => rfl

theorem unscoped_newFunction (name : Token) (params : List Token) (body : List Stmt)
    (closure : Env) :
    Unscoped (newFunction name params body closure) :=
  fun _ => rfl

theorem unscoped_printLine (keyword : Token) (text : String) :
    Unscoped (printLine keyword text) := by
  intro around
  funext m
  simp only [inScope, printLine]
  obtain ⟨output, written⟩ := m.output.write (text ++ "\n")
  cases written <;> rfl

theorem Unscoped.restores {x : Action α} (hx : Unscoped x) : Restores x := by
  intro m
  rw [← hx m.scope]
  simp only [inScope]
  cases x ⟨m.store, m.output, m.scope⟩ with
  | done a m' => exact rfl
  | error e m' => exact rfl
  | unfinished => trivial

theorem restores_pure (a : α) : Restores (pure a : Action α) := (unscoped_pure a).restores

theorem restores_scope : Restores scope := fun _ => rfl

theorem Restores.bind {x : Action α} {f : α → Action β} (hx : Restores x)
    (hf : ∀ a, Restores (f a)) : Restores (x >>= f) := by
  intro m
  have hm := hx m
  rw [bind_apply]
  cases h : x m with
  | done a m' =>
    rw [h] at hm
    have ha := hf a m'
    rw [show m'.scope = m.scope from hm] at ha
    exact ha
  | error e m' =>
    rw [h] at hm
    exact hm
  | unfinished => trivial

/-- An action that restores the scope may as well be run inside that scope. -/
theorem Restores.inScope_apply {x : Action α} (hx : Restores x) (m : Machine) :
    inScope m.scope x m = x m := by
  have hm := hx m
  obtain ⟨store, output, before⟩ := m
  simp only [inScope]
  cases h : x ⟨store, output, before⟩ with
  | done a m' =>
    rw [h] at hm
    rw [← show m'.scope = before from hm]
  | error e m' =>
    rw [h] at hm
    rw [← show m'.scope = before from hm]
  | unfinished => rfl

theorem inScope_scope_bind (env : Env) (f : Env → Action α) :
    inScope env (scope >>= f) = inScope env (f env) := rfl

/-- The second action starts in the scope in which the first one left the program. -/
theorem inScope_bind (env : Env) {x : Action α} (hx : Restores x) (f : α → Action β) :
    inScope env (x >>= f) = inScope env x >>= fun a => inScope env (f a) := by
  funext ⟨store, output, before⟩
  have hm := hx ⟨store, output, env⟩
  simp only [inScope, bind_apply]
  cases h : x ⟨store, output, env⟩ with
  | done a m =>
    rw [h] at hm
    obtain ⟨store', output', after⟩ := m
    rw [show after = env from hm]
  | error e m => rfl
  | unfinished => rfl

/-- What two actions mean in a scope is what they mean in it one after the other. -/
theorem inScope_bind_eq {env : Env} {x y : Action α} {f g : α → Action β} (hx : Restores x)
    (hxy : inScope env x = y) (hfg : ∀ a, inScope env (f a) = g a) :
    inScope env (x >>= f) = y >>= g := by
  have hrest : (fun a => inScope env (f a)) = g := funext hfg
  rw [inScope_bind env hx, hxy, hrest]

theorem Unscoped.bind {x : Action α} {f : α → Action β} (hx : Unscoped x)
    (hf : ∀ a, Unscoped (f a)) : Unscoped (x >>= f) := by
  intro env
  apply inScope_bind_eq hx.restores (hx env)
  intro a
  exact hf a env

/-- Whatever is put together from actions that end where they begin does so too. -/
theorem compositional_restores : Compositional id fun _ _ x _ => Restores x where
  pure _ := restores_pure
  bind := Restores.bind
  inScope env _ := (unscoped_inScope env _).restores
  cutOff _ := unscoped_cutOff.restores
  raise _ token fault := (unscoped_raise token fault).restores
  scope := restores_scope
  read env name := (unscoped_read env name).restores
  assign env name v := (unscoped_assign env name v).restores
  define env name v := (unscoped_define env name v).restores
  defineAll env names vs := (unscoped_defineAll env names vs).restores
  openScope outer := (unscoped_openScope outer).restores
  newFunction name params body closure := (unscoped_newFunction name params body closure).restores
  printLine keyword text := (unscoped_printLine keyword text).restores

end Action

namespace Evaluation

open Scriptlet.Action

theorem unscoped_apply (op : Token) (result : Except RuntimeFault Value) :
    Unscoped (apply op result) := by
  cases result with
  | ok v => exact unscoped_pure v
  | error fault => exact unscoped_raise op fault

theorem unscoped_step (env : Env) (op name : Token) : Unscoped (step env op name) := by
  unfold step
  split
  · exact unscoped_raise op _
  · apply (unscoped_read env name).bind
    intro v
    split
    · exact unscoped_raise op _
    · apply (unscoped_assign env name _).bind
      intro _
      exact unscoped_pure _

/-- A call works in a scope of its own, whatever the scope of the caller. -/
theorem unscoped_call (bound : Nat) (f : Function) (args : List Value) :
    Unscoped (call bound f args) := by
  cases bound with
  | zero => exact unscoped_cutOff
  | succ bound =>
    simp only [call]
    apply (unscoped_openScope _).bind
    intro env
    apply (unscoped_defineAll env _ _).bind
    intro _
    apply (unscoped_inScope env _).bind
    intro flow
    exact unscoped_pure _

/-- How calls are made does not depend on the scope of the caller. -/
def UnscopedCalls (calls : Calls) : Prop := ∀ f args, Unscoped (calls f args)

theorem UnscopedCalls.restores {calls : Calls} (h : UnscopedCalls calls) (f : Function)
    (args : List Value) : Restores (calls f args) :=
  (h f args).restores

variable {calls : Calls}

theorem unscoped_callValue (hcalls : UnscopedCalls calls) (paren : Token) (callee : Value)
    (args : List Value) : Unscoped (callValue calls paren callee args) := by
  unfold callValue
  split
  · split
    · exact hcalls _ args
    · exact unscoped_raise paren _
  · exact unscoped_raise paren _

theorem restores_evaluateWith (hcalls : UnscopedCalls calls) (e : Expr) :
    Restores (evaluateWith calls e) :=
  compositional_restores.evaluateWith hcalls.restores e

theorem restores_evaluateAllWith (hcalls : UnscopedCalls calls) (es : List Expr) :
    Restores (evaluateAllWith calls es) :=
  compositional_restores.evaluateAllWith hcalls.restores es

theorem restores_executeWith (hcalls : UnscopedCalls calls) (bound : Nat) (s : Stmt) :
    Restores (executeWith calls bound s) :=
  compositional_restores.executeWith hcalls.restores bound s

theorem restores_executeAllWith (hcalls : UnscopedCalls calls) (bound : Nat) (ss : List Stmt) :
    Restores (executeAllWith calls bound ss) :=
  compositional_restores.executeAllWith hcalls.restores bound ss

end Evaluation

end Scriptlet
