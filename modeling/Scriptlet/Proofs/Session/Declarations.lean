import Scriptlet.Proofs.Scope.Names
import Scriptlet.Proofs.Session.Visited

namespace Scriptlet

open Scriptlet.Action Evaluation

/-- The names that the statement itself declares. -/
def Stmt.declaredNames (s : Stmt) : Set String := {name | s.declared?.map Token.lexeme = some name}

/-- No scope that was there has other names, however the program ended. -/
def Outcome.KeepsNames {α : Type} (before : Store) (r : Outcome α) : Prop :=
  ∀ m, r.machine? = some m → before.KeepsNames m.store

/-- The current scope gets the declared names, if there is no error. No other scope that was there has
other names. -/
def Outcome.Declares {α : Type} (names : Set String) (before : Machine) : Outcome α → Prop
  | .done _ m => before.store.scopes.size ≤ m.store.scopes.size ∧
    ∀ scope < before.store.scopes.size, m.store.names scope =
      if scope = before.scope.own then before.store.names scope ∪ names
      else before.store.names scope
  | .error _ m => before.store.KeepsNames m.store
  | .unfinished => True

theorem Outcome.KeepsNames.declares {α : Type} {m : Machine} {r : Outcome α}
    (h : r.KeepsNames m.store) : r.Declares ∅ m := by
  cases r with
  | unfinished => trivial
  | error e m' => exact h m' rfl
  | done a m' =>
    refine ⟨(h m' rfl).grown, fun scope hscope => ?_⟩
    rw [(h m' rfl).names scope hscope, Set.union_empty, ite_self]

/-- A program declares names in new scopes only. -/
def Invariant.names (before : Store) : Invariant Invariant.Still where
  env _ _ := True
  binds _ e := before.scopes.size ≤ e.own
  function _ _ := True
  store _ s := before.KeepsNames s
  env_mono _ := id
  binds_mono _ := id
  function_mono _ := id
  env_of_binds _ := trivial
  env_closure := id
  store_get? _ _ _ _ _ := trivial
  store_assign? hs _ _ h := by
    obtain ⟨scope, -, hbound, rfl⟩ := Store.exists_of_assign? h
    exact hs.assign hbound _
  store_define name hs he _ := hs.define he name _
  store_openScope hs _ := ⟨.still, le_rfl, hs.grown, hs.openScope _⟩
  store_newFunction _ _ _ hs _ := ⟨.still, le_rfl, trivial, hs.grown, hs.names⟩

namespace Evaluation

private theorem keepsNames_of_keeps {α : Type} {before : Store} {R : Invariant.Still → α → Prop}
    {r : Outcome α} (h : (Invariant.names before).Keeps R .still r) : r.KeepsNames before := by
  intro m hm
  obtain ⟨_, -, hstore⟩ := h.exists_store hm
  exact hstore

private theorem keepsNames_evaluateWith (bound : Nat) (x : Expr) (m : Machine) :
    (evaluateWith (call bound) x m).KeepsNames m.store :=
  keepsNames_of_keeps (Invariant.keeps_evaluateWith bound x (.refl m.store) trivial)

private theorem keepsNames_call (bound : Nat) (f : Function) (args : List Value) (m : Machine) :
    (call bound f args m).KeepsNames m.store :=
  keepsNames_of_keeps (Invariant.keeps_call bound (.refl m.store) trivial fun _ _ _ _ => trivial)

theorem keepsNames_executeWith (bound : Nat) {st : Stmt} (h : st.exposedDeclarations = [])
    (m : Machine) : (executeWith (call bound) bound st m).KeepsNames m.store :=
  keepsNames_of_keeps
    (Invariant.keeps_executeWith bound st (.refl m.store) trivial fun hne => absurd h hne)

/-- Binds the name in the current scope. -/
def declare (name : Token) (v : Value) : Action Flow := do
  Action.define (← .scope) name.lexeme v
  pure .normal

/-- A declaration finds a value and binds its name to it. -/
theorem exists_declare (bound : Nat) {st : Stmt} {t : Token} (h : st.declared? = some t) :
    ∃ x : Action Value, Restores x ∧ (∀ m, (x m).KeepsNames m.store) ∧
      executeWith (call bound) bound st = x >>= declare t := by
  cases st with
  | var name init =>
    cases h
    cases init with
    | none =>
      refine ⟨pure .nil, restores_pure _, fun m m' hm' => ?_, ?_⟩
      · cases hm'
        exact .refl m.store
      · simp only [executeWith, pure_bind, declare]
    | some x =>
      refine ⟨evaluateWith (call bound) x, restores_evaluateWith (unscoped_call bound) x,
        keepsNames_evaluateWith bound x, ?_⟩
      rw [executeWith]
      rfl
  | function name params body =>
    cases h
    refine ⟨do return .function (← Action.newFunction t params body (← .scope)), ?_, ?_, ?_⟩
    · apply restores_scope.bind
      intro env
      apply (unscoped_newFunction t params body env).restores.bind
      intro f
      exact restores_pure _
    · intro m m' hm'
      cases hm'
      exact ⟨Nat.le_refl _, fun _ _ => rfl⟩
    · simp only [executeWith, bind_assoc, pure_bind, declare]
  | _ => cases h

private theorem declares_declare {x : Action Value} (hx : Restores x) (t : Token) {m : Machine}
    (hnames : (x m).KeepsNames m.store) (hscope : m.scope.own < m.store.scopes.size) :
    ((x >>= declare t) m).Declares {t.lexeme} m := by
  have hends := hx m
  rw [bind_apply]
  generalize x m = r at hnames hends
  cases r with
  | unfinished => trivial
  | error e m' => exact hnames m' rfl
  | done v m' =>
    have hkept := hnames m' rfl
    have hown : m.scope.own < m'.store.scopes.size := Nat.lt_of_lt_of_le hscope hkept.grown
    show (Outcome.done Flow.normal
      ⟨m'.store.define m'.scope t.lexeme v, m'.output, m'.scope⟩).Declares {t.lexeme} m
    rw [show m'.scope = m.scope from hends, Store.define]
    refine ⟨?_, fun scope hlt => ?_⟩
    · rw [Store.size_bindIn]
      exact hkept.grown
    · split
      · next heq =>
        rw [heq, Store.names_bindIn_self hown, hkept.names _ hscope, Set.union_singleton]
      · next hne =>
        rw [Store.names_bindIn_of_ne (Ne.symm hne), hkept.names scope hlt]

private theorem declares_executeWith (bound : Nat) {st : Stmt} (h : st.PlacesDeclarations)
    {m : Machine} (hscope : m.scope.own < m.store.scopes.size) :
    (executeWith (call bound) bound st m).Declares st.declaredNames m := by
  cases hdeclared : st.declared? with
  | none =>
    have hnone : st.exposedDeclarations = [] := by
      rw [h, hdeclared]
      rfl
    have hempty : st.declaredNames = ∅ := by
      ext name
      simp [Stmt.declaredNames, hdeclared]
    rw [hempty]
    exact (keepsNames_executeWith bound hnone m).declares
  | some t =>
    obtain ⟨x, hx, hnames, heq⟩ := exists_declare bound hdeclared
    have hsingle : st.declaredNames = {t.lexeme} := by
      ext name
      simp [Stmt.declaredNames, hdeclared, eq_comm]
    rw [hsingle, heq]
    exact declares_declare hx t (hnames m) hscope

end Evaluation

namespace Session

/-- On every machine that a session visits, what is evaluated, executed or called leaves each scope
with the names that it has, but for the name that a declaration declares in its own. -/
theorem declarations_stay_local :
    (∀ limit m, Visited limit m → m.scope.own < m.store.scopes.size) ∧
    (∀ bound m, (∀ x, (evaluateWith (call bound) x m).KeepsNames m.store) ∧
      ∀ f args, (call bound f args m).KeepsNames m.store) ∧
    ∀ st, Grammar.Readable st → ∀ bound m, m.scope.own < m.store.scopes.size →
      (executeWith (call bound) bound st m).Declares st.declaredNames m := by
  refine ⟨?_, fun bound m => ⟨?_, ?_⟩, ?_⟩
  · intro limit m hm
    obtain ⟨L, hL⟩ := hm.exists_covers
    rw [← hL.store.scopes]
    exact hL.scope.own_lt
  · intro x
    exact keepsNames_evaluateWith bound x m
  · intro f args
    exact keepsNames_call bound f args m
  · intro st hst bound m hscope
    exact declares_executeWith bound hst.placesDeclarations hscope

/-- The function that is called declares a name as well, and changes a variable of the globals. -/
theorem declarations_stay_local_in_call :
    let first := "var a; fun f() \x7b var c = true; a = c; \x7d"
    ∃ r st flow m, run 0 .script first (start none) = some r ∧
      st ∈ statements .script "var b = f();" ∧ executeWith (call 1) 1 st r.machine = .done flow m ∧
      (m.store.valueIn? 0 "a").map Value.truthy = some true ∧
      m.store.names 0 = r.machine.store.names 0 ∪ {"b"} := by
  intro first
  obtain ⟨hcurrent, -, hdeclares⟩ := declarations_stay_local
  have hfirst : (run 0 .script first (start none)).isSome = true := by decide +kernel
  obtain ⟨r, hr⟩ := Option.isSome_iff_exists.1 hfirst
  have hsecond : (statements .script "var b = f();").map (fun st => st.declared?.map Token.lexeme) =
      [some "b"] := by decide +kernel
  obtain ⟨st, hst, hname⟩ := List.map_eq_singleton_iff.1 hsecond
  have hdone : ((run 0 .script first (start none)).bind fun r =>
      (statements .script "var b = f();").head?.bind fun st =>
        match executeWith (call 1) 1 st r.machine with
        | .done _ m => (m.store.valueIn? 0 "a").map Value.truthy
        | _ => none) = some true := by decide +kernel
  rw [hr, hst] at hdone
  have hreadable : Grammar.Readable st := by
    have hmem : st ∈ statements .script "var b = f();" := hst ▸ List.mem_cons_self
    exact .program hmem
  have hinterpreted : Interpreted none r.machine := by
    rw [run, runTokens_eq] at hr
    exact .next .start hr
  have hlt := hcurrent none r.machine (.between hinterpreted)
  have hnames := hdeclares st hreadable 1 r.machine hlt
  have hdeclared : st.declaredNames = {"b"} := by
    ext name
    simp [Stmt.declaredNames, hname, eq_comm]
  simp only [Option.bind_some, List.head?_cons] at hdone
  cases ho : executeWith (call 1) 1 st r.machine with
  | unfinished =>
    rw [ho] at hdone
    cases hdone
  | error e m =>
    rw [ho] at hdone
    cases hdone
  | done flow m =>
    rw [ho] at hdone hnames
    rw [hinterpreted.scope_eq] at hlt
    have hzero := hnames.2 0 hlt
    rw [hinterpreted.scope_eq, if_pos (show 0 = globals.own from rfl), hdeclared] at hzero
    exact ⟨r, st, flow, m, hr, hst ▸ List.mem_cons_self, ho, hdone, hzero⟩

end Session

end Scriptlet
