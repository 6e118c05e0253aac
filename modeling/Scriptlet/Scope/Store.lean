import Scriptlet.Scope.Bindings

namespace Scriptlet

/-- All scopes that were ever opened. -/
structure Store where
  scopes : Array Bindings
  /-- How many functions were made; the next one takes this number as its identity. -/
  functions : Nat

namespace Store

def empty : Store := ⟨#[], 0⟩

/-- Opens a scope inside the scopes of a chain. -/
def openScope (s : Store) (outer : List Nat) : Env × Store :=
  (⟨s.scopes.size, outer⟩, { s with scopes := s.scopes.push .empty })

/-- Takes a new identity for a function. -/
def newFunction (s : Store) (name : Token) (params : List Token) (body : List Stmt) (closure : Env) :
    Function × Store :=
  (⟨s.functions, name, params, body, closure⟩, { s with functions := s.functions + 1 })

/-- The value of a name in one scope. -/
def valueIn? (s : Store) (scope : Nat) (name : String) : Option Value :=
  s.scopes[scope]?.bind (·.get? name)

/-- The innermost scope of a chain that binds the name. -/
def holder? (s : Store) (chain : List Nat) (name : String) : Option Nat :=
  chain.find? fun scope => (s.valueIn? scope name).isSome

/-- The value of the innermost binding. -/
def get? (s : Store) (env : Env) (name : String) : Option Value :=
  env.chain.findSome? fun scope => s.valueIn? scope name

/-- Binds a name in one scope. -/
def bindIn (s : Store) (scope : Nat) (name : String) (v : Value) : Store :=
  { s with scopes := s.scopes.modify scope (·.set name v) }

def define (s : Store) (env : Env) (name : String) (v : Value) : Store := s.bindIn env.own name v

/-- Changes the innermost binding. -/
def assign? (s : Store) (env : Env) (name : String) (v : Value) : Option Store :=
  match s.holder? env.chain name with
  | none => none
  | some scope => some (s.bindIn scope name v)

/-- Binds names to values pair by pair, as far as there are both. -/
def defineAll (s : Store) (env : Env) : List Token → List Value → Store
  | p :: ps, v :: vs => (s.define env p.lexeme v).defineAll env ps vs
  | _, _ => s

/-- How many names the own scope binds, and how many scopes are around it. -/
def describe (s : Store) (env : Env) : String :=
  let bindings := (s.scopes[env.own]?.map Bindings.size).getD 0
  "Environment \x7b bindings: " ++ toString bindings ++ ", depth: " ++ toString env.outer.length ++
    " \x7d"

/-- The value that is read is the one in the scope that assignment changes. -/
theorem get?_eq (s : Store) (env : Env) (name : String) :
    s.get? env name = (s.holder? env.chain name).bind (s.valueIn? · name) := by
  unfold get? holder?
  induction env.chain with
  | nil => rfl
  | cons scope rest ih =>
    rw [List.findSome?_cons, List.find?_cons]
    cases h : s.valueIn? scope name with
    | none => simpa [h] using ih
    | some v => simp [h]

theorem valueIn?_bindIn (s : Store) (scope other : Nat) (name x : String) (v : Value) :
    (s.bindIn scope name v).valueIn? other x =
      if scope = other ∧ name = x ∧ scope < s.scopes.size then some v else s.valueIn? other x := by
  unfold bindIn valueIn?
  rw [Array.getElem?_modify]
  by_cases h : scope = other
  · subst h
    rcases Nat.lt_or_ge scope s.scopes.size with hs | hs
    · simp [hs, Bindings.get?_set]
    · simp [Nat.not_lt.2 hs]
  · simp [h]

end Store

end Scriptlet
