import Scriptlet.Proofs.Scope.Lookup

namespace Scriptlet

/-- The environments that a value leads to. -/
def Value.closures : Value → List Env
  | .function f => [f.closure]
  | _ => []

private theorem Value.forall_mem_closures {p : Env → Prop} {v : Value} :
    (∀ e ∈ v.closures, p e) ↔ v.FunctionHas fun f => p f.closure := by
  cases v with
  | function f =>
    constructor
    · intro h g hg
      cases hg
      exact h _ List.mem_cons_self
    · intro h e he
      rw [List.mem_singleton.1 he]
      exact h f rfl
  | _ =>
    refine iff_of_true ?_ (.of_ne fun f hf => by cases hf)
    intro e he
    cases he

/-- The environments that any of the values leads to. -/
def Value.closuresOf (vs : List Value) : List Env := vs.flatMap Value.closures

theorem Value.forall_mem_closuresOf {p : Env → Prop} {vs : List Value} :
    (∀ e ∈ closuresOf vs, p e) ↔ ∀ v ∈ vs, v.FunctionHas fun f => p f.closure := by
  constructor
  · intro h v hv
    exact forall_mem_closures.1 fun e he => h e (List.mem_flatMap.2 ⟨v, hv, he⟩)
  · intro h e he
    obtain ⟨v, hv, he⟩ := List.mem_flatMap.1 he
    exact forall_mem_closures.2 (h v hv) e he

/-- All scopes of the environment are of the given kind. -/
def Env.Within (p : Nat → Prop) (e : Env) : Prop := ∀ n ∈ e.chain, p n

theorem Env.Within.enclosing {p : Nat → Prop} {e outer : Env} (h : e.Within p)
    (houter : e.enclosing? = some outer) : outer.Within p := by
  obtain ⟨own, around⟩ := e
  cases around with
  | nil => cases houter
  | cons next around =>
    cases houter
    exact fun n hn => h n (List.mem_cons_of_mem own hn)

namespace Store

/-- The environments that can be reached from the given ones. -/
inductive Reaches (s : Store) (roots : List Env) : Env → Prop where
  | root {e : Env} : e ∈ roots → Reaches s roots e
  | enclosing {e outer : Env} : Reaches s roots e → e.enclosing? = some outer →
    Reaches s roots outer
  | closure {e : Env} {name : String} {f : Function} : Reaches s roots e →
    s.valueIn? e.own name = some (.function f) → Reaches s roots f.closure

/-- The scope can be reached from the given environments. -/
def ReachesScope (s : Store) (roots : List Env) (scope : Nat) : Prop :=
  ∃ e, s.Reaches roots e ∧ e.own = scope

variable {s : Store} {roots : List Env} {p : Nat → Prop}

/-- With an environment all scopes around it are reached. -/
theorem Reaches.within {e : Env} (h : s.Reaches roots e) : e.Within (s.ReachesScope roots) := by
  obtain ⟨own, outer⟩ := e
  induction outer generalizing own with
  | nil =>
    intro n hn
    rw [List.mem_singleton.1 hn]
    exact ⟨_, h, rfl⟩
  | cons next outer ih =>
    intro n hn
    rcases List.mem_cons.1 hn with rfl | hn
    · exact ⟨_, h, rfl⟩
    · exact ih next (h.enclosing rfl) n hn

/-- The functions in scopes of the given kind have closures of such scopes. -/
def Closed (p : Nat → Prop) (s : Store) : Prop :=
  ∀ scope name v, p scope → s.valueIn? scope name = some v →
    v.FunctionHas fun f => f.closure.Within p

private theorem closed_reachesScope (s : Store) (roots : List Env) :
    s.Closed (s.ReachesScope roots) := by
  rintro scope name v ⟨e, he, rfl⟩ hv f rfl
  exact (he.closure hv).within

/-- Nothing outside a closed set is reached from inside. -/
theorem Closed.within (hs : s.Closed p) (hroots : ∀ e ∈ roots, e.Within p) {e : Env}
    (h : s.Reaches roots e) : e.Within p := by
  induction h with
  | root he => exact hroots _ he
  | enclosing _ houter ih => exact ih.enclosing houter
  | @closure e name f _ hf ih =>
    have hown : p e.own := ih _ List.mem_cons_self
    exact hs e.own name _ hown hf f rfl

theorem Closed.reachesScope (hs : s.Closed p) (hroots : ∀ e ∈ roots, e.Within p) {scope : Nat}
    (h : s.ReachesScope roots scope) : p scope := by
  obtain ⟨e, he, rfl⟩ := h
  exact hs.within hroots he _ List.mem_cons_self

theorem Closed.get? (hs : s.Closed p) {env : Env} (henv : env.Within p) {name : String} {v : Value}
    (hv : s.get? env name = some v) : v.FunctionHas fun f => f.closure.Within p := by
  obtain ⟨scope, hscope, hv⟩ := exists_of_get? hv
  exact hs scope name v (henv scope hscope) hv

theorem Closed.bindIn (hs : s.Closed p) (scope : Nat) (name : String) {v : Value}
    (hv : v.FunctionHas fun f => f.closure.Within p) : (s.bindIn scope name v).Closed p := by
  intro other x w hother hw
  rw [valueIn?_bindIn] at hw
  split at hw
  · cases hw
    exact hv
  · exact hs other x w hother hw

theorem Closed.openScope (hs : s.Closed p) (outer : List Nat) : (s.openScope outer).2.Closed p := by
  intro scope name v hscope hv
  rw [valueIn?_openScope] at hv
  exact hs scope name v hscope hv

/-- The scopes that can be reached, and all that are not there yet. -/
def Territory (s : Store) (roots : List Env) (scope : Nat) : Prop :=
  s.ReachesScope roots scope ∨ s.scopes.size ≤ scope

theorem Reaches.within_territory {e : Env} (h : s.Reaches roots e) : e.Within (s.Territory roots) :=
  fun n hn => .inl (h.within n hn)

theorem closed_territory (s : Store) (roots : List Env) : s.Closed (s.Territory roots) := by
  rintro scope name v (hscope | hscope) hv f hf n hn
  · exact .inl (closed_reachesScope s roots scope name v hscope hv f hf n hn)
  · exact absurd (lt_size_of_valueIn? hv) (Nat.not_lt.2 hscope)

end Store

end Scriptlet
