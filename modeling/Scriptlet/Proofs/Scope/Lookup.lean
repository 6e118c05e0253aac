import Scriptlet.Proofs.Scope.StoredFunctions

namespace Scriptlet

namespace Store

variable {s : Store}

theorem lt_size_of_valueIn? {scope : Nat} {name : String} {v : Value}
    (h : s.valueIn? scope name = some v) : scope < s.scopes.size := by
  obtain ⟨b, hb, -⟩ := Option.bind_eq_some_iff.1 h
  exact (Array.getElem?_eq_some_iff.1 hb).1

theorem valueIn?_of_size_le {scope : Nat} (h : s.scopes.size ≤ scope) (name : String) :
    s.valueIn? scope name = none := by
  rw [valueIn?, Array.getElem?_eq_none h]
  rfl

theorem exists_of_get? {env : Env} {name : String} {v : Value} (h : s.get? env name = some v) :
    ∃ scope ∈ env.chain, s.valueIn? scope name = some v := by
  rw [get?_eq] at h
  obtain ⟨scope, hholder, hv⟩ := Option.bind_eq_some_iff.1 h
  exact ⟨scope, List.mem_of_find?_eq_some hholder, hv⟩

/-- Assignment changes a binding that is there. -/
theorem exists_of_assign? {s' : Store} {env : Env} {name : String} {v : Value}
    (h : s.assign? env name v = some s') :
    ∃ scope ∈ env.chain, (s.valueIn? scope name).isSome ∧ s' = s.bindIn scope name v := by
  unfold assign? at h
  split at h
  · cases h
  · next scope hholder =>
    have hbound := List.find?_some (p := fun n => (s.valueIn? n name).isSome) hholder
    exact ⟨scope, List.mem_of_find?_eq_some hholder, hbound, (Option.some.inj h).symm⟩

@[simp] theorem size_bindIn (s : Store) (scope : Nat) (name : String) (v : Value) :
    (s.bindIn scope name v).scopes.size = s.scopes.size :=
  Array.size_modify

theorem size_defineAll (s : Store) (env : Env) (names : List Token) (vs : List Value) :
    (s.defineAll env names vs).scopes.size = s.scopes.size := by
  induction names generalizing s vs with
  | nil => rfl
  | cons t names ih =>
    cases vs with
    | nil => rfl
    | cons v vs => exact (ih _ vs).trans (size_bindIn s env.own t.lexeme v)

theorem getElem?_bindIn_of_ne (s : Store) {scope other : Nat} (h : scope ≠ other) (name : String)
    (v : Value) : (s.bindIn scope name v).scopes[other]? = s.scopes[other]? := by
  unfold bindIn
  rw [Array.getElem?_modify, if_neg h]

@[simp] theorem size_openScope (s : Store) (outer : List Nat) :
    (s.openScope outer).2.scopes.size = s.scopes.size + 1 :=
  Array.size_push _

theorem getElem?_openScope (s : Store) (outer : List Nat) {scope : Nat}
    (h : scope < s.scopes.size) :
    (s.openScope outer).2.scopes[scope]? = s.scopes[scope]? := by
  show (s.scopes.push .empty)[scope]? = s.scopes[scope]?
  rw [Array.getElem?_push, if_neg (Nat.ne_of_lt h)]

end Store

end Scriptlet
