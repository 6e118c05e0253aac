import Mathlib.Data.Set.Insert
import Scriptlet.Proofs.Scope.Lookup

namespace Scriptlet

namespace Store

def names (s : Store) (scope : Nat) : Set String := {name | (s.valueIn? scope name).isSome}

variable {s : Store}

theorem names_bindIn_of_ne {scope other : Nat} (h : scope ≠ other) (name : String) (v : Value) :
    (s.bindIn scope name v).names other = s.names other := by
  ext x
  simp only [names, valueIn?_bindIn, h, false_and, if_false]

theorem names_bindIn_self {scope : Nat} (h : scope < s.scopes.size) (name : String) (v : Value) :
    (s.bindIn scope name v).names scope = insert name (s.names scope) := by
  ext x
  by_cases hx : name = x
  · simp [names, valueIn?_bindIn, h, hx]
  · simp [names, valueIn?_bindIn, h, hx, Ne.symm hx]

/-- A binding that is there is replaced. -/
theorem names_bindIn_of_mem {scope : Nat} {name : String} (h : name ∈ s.names scope) (v : Value)
    (other : Nat) : (s.bindIn scope name v).names other = s.names other := by
  by_cases hne : scope = other
  · subst hne
    obtain ⟨w, hw⟩ := Option.isSome_iff_exists.1 h
    rw [names_bindIn_self (lt_size_of_valueIn? hw), Set.insert_eq_of_mem h]
  · exact names_bindIn_of_ne hne name v

private theorem names_openScope (s : Store) (outer : List Nat) (scope : Nat) :
    (s.openScope outer).2.names scope = s.names scope := by
  ext x
  simp only [names, valueIn?_openScope]

/-- No scope has been dropped, and none of them has other names. -/
structure KeepsNames (before s : Store) : Prop where
  grown : before.scopes.size ≤ s.scopes.size
  names : ∀ scope < before.scopes.size, s.names scope = before.names scope

theorem KeepsNames.refl (s : Store) : s.KeepsNames s := ⟨Nat.le_refl _, fun _ _ => rfl⟩

theorem KeepsNames.assign {before : Store} (h : before.KeepsNames s) {scope : Nat} {name : String}
    (hname : name ∈ s.names scope) (v : Value) : before.KeepsNames (s.bindIn scope name v) where
  grown := by
    rw [size_bindIn]
    exact h.grown
  names other hother := by
    rw [names_bindIn_of_mem hname]
    exact h.names other hother

/-- Definitions in new scopes do not matter. -/
theorem KeepsNames.define {before : Store} (h : before.KeepsNames s) {env : Env}
    (henv : before.scopes.size ≤ env.own) (name : String) (v : Value) :
    before.KeepsNames (s.define env name v) where
  grown := by
    rw [Store.define, size_bindIn]
    exact h.grown
  names other hother := by
    have hne : env.own ≠ other := (Nat.lt_of_lt_of_le hother henv).ne'
    rw [Store.define, names_bindIn_of_ne hne]
    exact h.names other hother

theorem KeepsNames.openScope {before : Store} (h : before.KeepsNames s) (outer : List Nat) :
    before.KeepsNames (s.openScope outer).2 where
  grown := by
    rw [size_openScope]
    exact Nat.le_succ_of_le h.grown
  names other hother := by
    rw [names_openScope]
    exact h.names other hother

end Store

end Scriptlet
