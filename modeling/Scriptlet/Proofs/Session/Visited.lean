import Scriptlet.Proofs.Evaluation.Frame
import Scriptlet.Proofs.Session.CurrentScope

namespace Scriptlet

open Scriptlet.Action Evaluation

theorem Outcome.EndsIn.scope_eq {α : Type} {env : Env} {r : Outcome α} {m : Machine}
    (h : r.EndsIn env) (hm : r.machine? = some m) : m.scope = env := by
  cases r with
  | unfinished => cases hm
  | done a m =>
    cases hm
    exact h
  | error e m =>
    cases hm
    exact h

/-- Goes on in a new scope, in which the names are bound. -/
def Machine.enter (m : Machine) (outer : List Nat) (names : List Token) (vs : List Value) : Machine :=
  let (env, store) := m.store.openScope outer
  ⟨store.defineAll env names vs, m.output, env⟩

/-- The ledger describes the store and knows where the program is. -/
structure Ledger.Covers (L : Ledger) (m : Machine) : Prop where
  store : L.Describes m.store
  scope : L.KnowsEnv m.scope

namespace Ledger

variable {L : Ledger} {m m' : Machine}

private theorem Covers.of_framed {α : Type} {x : Action α} {roots : List Env}
    {given : α → List Value}
    (h : L.Covers m) (hx : Restores x) (hframed : (x m).Framed L m.store roots given)
    (hm' : (x m).machine? = some m') : ∃ K, L ≤ K ∧ K.Covers m' := by
  have hscope : m'.scope = m.scope := (hx m).scope_eq hm'
  obtain ⟨vs, hvs⟩ := hframed.exists_framed hm'
  obtain ⟨K, hLK, hK, -⟩ := hvs.continued
  exact ⟨K, hLK, hK, hscope ▸ h.scope.mono hLK⟩

theorem Covers.evaluateWith (h : L.Covers m) {bound : Nat} {x : Expr}
    (hm' : (evaluateWith (call bound) x m).machine? = some m') : ∃ K, L ≤ K ∧ K.Covers m' :=
  h.of_framed (restores_evaluateWith (unscoped_call bound) x)
    (framed_evaluateWith h.store h.scope bound x) hm'

theorem Covers.executeWith (h : L.Covers m) {bound : Nat} {st : Stmt}
    (hm' : (executeWith (call bound) bound st m).machine? = some m') : ∃ K, L ≤ K ∧ K.Covers m' :=
  h.of_framed (restores_executeWith (unscoped_call bound) bound st)
    (framed_executeWith h.store h.scope bound st) hm'

theorem Covers.enter (h : L.Describes m.store) {e : Env} (he : L.KnowsEnv e) (names : List Token)
    {vs : List Value} (hvs : ∀ v ∈ vs, v.FunctionHas L.Knows) :
    (L.addScope e.chain).Covers (m.enter e.chain names vs) where
  store := (h.openScope e.chain).defineAll _ names fun v hv f hf =>
    (hvs v hv f hf).mono (L.le_addScope e.chain)
  scope := h.knowsEnv_openScope he

theorem Covers.executeTop (h : L.Covers m) {bound : Nat} {last : Flow} {ss : List Stmt}
    (hm' : (Session.executeTop bound last ss m).machine? = some m') : ∃ K, L ≤ K ∧ K.Covers m' := by
  induction ss generalizing L m last with
  | nil =>
    cases hm'
    exact ⟨L, le_rfl, h⟩
  | cons s ss ih =>
    have hfirst {m₁ : Machine}
        (hs : (Evaluation.executeWith (call bound) bound s m).machine? = some m₁) :=
      h.executeWith hs
    rw [Session.executeTop, bind_apply] at hm'
    cases hs : Evaluation.executeWith (call bound) bound s m with
    | unfinished =>
      rw [hs] at hm'
      cases hm'
    | error e m₁ =>
      rw [hs] at hm' hfirst
      exact hfirst hm'
    | done flow m₁ =>
      rw [hs] at hm' hfirst
      obtain ⟨K, hLK, hK⟩ := hfirst rfl
      have hmore {last : Flow} (hm' : (Session.executeTop bound last ss m₁).machine? = some m') :
          ∃ K, L ≤ K ∧ K.Covers m' := by
        obtain ⟨K', hKK', hK'⟩ := ih hK hm'
        exact ⟨K', le_trans hLK hKK', hK'⟩
      cases flow with
      | ret v =>
        cases hm'
        exact ⟨K, hLK, hK⟩
      | normal => exact hmore hm'
      | value v => exact hmore hm'

end Ledger

namespace Session

variable {limit : Option Nat} {m : Machine}

/-- The machines that a session visits. The parts that are evaluated or executed may end with an error,
the callee and the arguments of a call that is entered may not. -/
inductive Visited (limit : Option Nat) : Machine → Prop where
  | between {m : Machine} : Interpreted limit m → Visited limit m
  | evaluated {m m' : Machine} {bound : Nat} {x : Expr} : Visited limit m →
    (evaluateWith (call bound) x m).machine? = some m' → Visited limit m'
  | executed {m m' : Machine} {bound : Nat} {st : Stmt} : Visited limit m →
    (executeWith (call bound) bound st m).machine? = some m' → Visited limit m'
  | block {m : Machine} : Visited limit m → Visited limit (m.enter m.scope.chain [] [])
  | body {m m₁ m₂ : Machine} {bound : Nat} {callee : Expr} {args : List Expr} {f : Function}
    {vs : List Value} : Visited limit m → evaluateWith (call bound) callee m = .done (.function f) m₁ →
    evaluateAllWith (call bound) args m₁ = .done vs m₂ →
    Visited limit (m₂.enter f.closure.chain f.params vs)

theorem Interpreted.exists_covers (h : Interpreted limit m) : ∃ L : Ledger, L.Covers m := by
  induction h with
  | start => exact ⟨_, Ledger.describes_empty.openScope [], rfl, trivial⟩
  | @next m bound mode ss report r hm hr ih =>
    obtain ⟨L, hL⟩ := ih
    have hscope : r.machine.scope = globals := (hm.next hr).scope_eq
    cases hstatic : report.hasStatic with
    | true =>
      rw [interpret_of_static hstatic] at hr
      cases hr
      exact ⟨L, hL⟩
    | false =>
      rw [interpret_of_clean hstatic] at hr
      have hglobals : L.Covers { m with scope := globals } := ⟨hL.store, hm.scope_eq ▸ hL.scope⟩
      have hexecuted {m' : Machine} (hm' : (Session.executeTop bound .normal ss
          { m with scope := globals }).machine? = some m') : ∃ K, L ≤ K ∧ K.Covers m' :=
        hglobals.executeTop hm'
      rcases finish_cases hr with ⟨e, ho, -⟩ | ⟨flow, m', ho, -, hstore⟩
      · rw [ho] at hexecuted
        obtain ⟨K, -, hK⟩ := hexecuted rfl
        exact ⟨K, hK⟩
      · rw [ho] at hexecuted
        obtain ⟨K, hLK, hK⟩ := hexecuted rfl
        exact ⟨K, hstore ▸ hK.store, hscope ▸ hglobals.scope.mono hLK⟩

theorem Visited.exists_covers (h : Visited limit m) : ∃ L : Ledger, L.Covers m := by
  induction h with
  | between hm => exact hm.exists_covers
  | evaluated _ hm' ih =>
    obtain ⟨L, hL⟩ := ih
    obtain ⟨K, -, hK⟩ := hL.evaluateWith hm'
    exact ⟨K, hK⟩
  | executed _ hm' ih =>
    obtain ⟨L, hL⟩ := ih
    obtain ⟨K, -, hK⟩ := hL.executeWith hm'
    exact ⟨K, hK⟩
  | block _ ih =>
    obtain ⟨L, hL⟩ := ih
    exact ⟨_, .enter hL.store hL.scope [] (List.forall_mem_nil _)⟩
  | @body m m₁ m₂ bound callee args f vs _ hcallee hargs ih =>
    obtain ⟨L, hL⟩ := ih
    have hfirst := framed_evaluateWith hL.store hL.scope bound callee
    have hscope := restores_evaluateWith (unscoped_call bound) callee m
    rw [hcallee] at hfirst hscope
    obtain ⟨K, hLK, hK, hf⟩ := hfirst.continued
    have hknows : K.Knows f := hf _ List.mem_cons_self f rfl
    have hscope₁ : K.KnowsEnv m₁.scope := by
      rw [show m₁.scope = m.scope from hscope]
      exact hL.scope.mono hLK
    have hsecond := framed_evaluateAllWith hK hscope₁ bound args
    rw [hargs] at hsecond
    obtain ⟨K', hKK', hK', hvs⟩ := hsecond.continued
    exact ⟨_, .enter hK' (hknows.mono hKK').2 f.params hvs⟩

end Session

end Scriptlet
