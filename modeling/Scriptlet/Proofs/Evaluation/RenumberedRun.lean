import Scriptlet.Proofs.Evaluation.Compositional

namespace Scriptlet

/-- The outcome with its lines renumbered, where `f` renumbers the value. -/
def Outcome.renumber {α : Type} (g : Nat → Nat) (f : α → α) : Outcome α → Outcome α
  | .done a m => .done (f a) (m.renumber g)
  | .error e m => .error (e.renumber g) (m.renumber g)
  | .unfinished => .unfinished

namespace Action

variable {α β : Type} {g : Nat → Nat}

/-- The second action is the first one on renumbered machines. -/
def Renumbers (g : Nat → Nat) (f : α → α) (x y : Action α) : Prop :=
  ∀ m, y (m.renumber g) = (x m).renumber g f

theorem renumbers_pure (f : α → α) (a : α) : Renumbers g f (pure a) (pure (f a)) := fun _ => rfl

private theorem renumbers_cutOff (f : α → α) : Renumbers g f cutOff cutOff := fun _ => rfl

private theorem renumbers_raise (f : α → α) (token : Token) (fault : RuntimeFault) :
    Renumbers g f (raise token fault) (raise (token.renumber g) fault) :=
  fun _ => rfl

private theorem renumbers_scope : Renumbers g id scope scope := fun _ => rfl

theorem Renumbers.bind {f : α → α} {h : β → β} {x y : Action α} {k l : α → Action β}
    (hx : Renumbers g f x y) (hk : ∀ a, Renumbers g h (k a) (l (f a))) :
    Renumbers g h (x >>= k) (y >>= l) := by
  intro m
  rw [bind_apply, bind_apply, hx m]
  cases x m with
  | done a m' => exact hk a m'
  | error e m' => rfl
  | unfinished => rfl

theorem Renumbers.inScope {f : α → α} {x y : Action α} (h : Renumbers g f x y) (env : Env) :
    Renumbers g f (inScope env x) (inScope env y) := by
  intro m
  have hm := h ⟨m.store, m.output, env⟩
  simp only [Action.inScope, Machine.renumber] at hm ⊢
  rw [hm]
  cases x ⟨m.store, m.output, env⟩ with
  | done a m' => rfl
  | error e m' => rfl
  | unfinished => rfl

private theorem renumbers_read (env : Env) (name : Token) :
    Renumbers g (Value.renumber g) (read env name) (read env (name.renumber g)) := by
  intro m
  simp only [read, Machine.renumber, Token.lexeme_renumber, Store.get?_renumber]
  cases m.store.get? env name.lexeme <;> rfl

private theorem renumbers_assign (env : Env) (name : Token) (v : Value) :
    Renumbers g id (assign env name v) (assign env (name.renumber g) (v.renumber g)) := by
  intro m
  simp only [assign, Machine.renumber, Token.lexeme_renumber, Store.holder?_renumber]
  cases m.store.holder? env.chain name.lexeme with
  | none => rfl
  | some holder =>
    simp only [Store.bindIn_renumber]
    rfl

private theorem renumbers_define (env : Env) (name : String) (v : Value) :
    Renumbers g id (define env name v) (define env name (v.renumber g)) := by
  intro m
  simp only [define, Machine.renumber, Store.define_renumber]
  rfl

private theorem renumbers_defineAll (env : Env) (names : List Token) (vs : List Value) :
    Renumbers g id (defineAll env names vs)
      (defineAll env (names.map (Token.renumber g)) (vs.map (Value.renumber g))) := by
  intro m
  simp only [defineAll, Machine.renumber, Store.defineAll_renumber]
  rfl

private theorem renumbers_openScope (outer : List Nat) :
    Renumbers g id (openScope outer) (openScope outer) := by
  intro m
  simp only [openScope, Machine.renumber, Store.openScope_renumber]
  rfl

private theorem renumbers_newFunction (name : Token) (params : List Token) (body : List Stmt)
    (closure : Env) :
    Renumbers g (Function.renumber g) (newFunction name params body closure)
      (newFunction (name.renumber g) (params.map (Token.renumber g)) (Stmt.renumberAll g body)
        closure) :=
  fun _ => rfl

private theorem renumbers_printLine (keyword : Token) (text : String) :
    Renumbers g id (printLine keyword text) (printLine (keyword.renumber g) text) := by
  intro m
  simp only [printLine, Machine.renumber]
  obtain ⟨output, written⟩ := m.output.write (text ++ "\n")
  cases written <;> rfl

private theorem compositional_renumbers (g : Nat → Nat) : Compositional g fun _ => Renumbers g where
  pure := renumbers_pure
  bind := Renumbers.bind
  inScope env h := h.inScope env
  cutOff := renumbers_cutOff
  raise := renumbers_raise
  scope := renumbers_scope
  read := renumbers_read
  assign := renumbers_assign
  define := renumbers_define
  defineAll := renumbers_defineAll
  openScope := renumbers_openScope
  newFunction := renumbers_newFunction
  printLine := renumbers_printLine

end Action

namespace Evaluation

open Scriptlet.Action

/-- Calls do not look at lines. -/
theorem renumbers_call (g : Nat → Nat) (bound : Nat) (f : Function) (args : List Value) :
    Renumbers g (Value.renumber g) (call bound f args)
      (call bound (f.renumber g) (args.map (Value.renumber g))) :=
  (compositional_renumbers g).call bound f args

theorem renumbers_executeWith (g : Nat → Nat) (bound : Nat) (s : Stmt) :
    Renumbers g (Flow.renumber g) (executeWith (call bound) bound s)
      (executeWith (call bound) bound (s.renumber g)) :=
  (compositional_renumbers g).executeWith (renumbers_call g bound) bound s

end Evaluation

end Scriptlet
