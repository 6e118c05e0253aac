import Scriptlet.Proofs.Session.Piecewise

namespace Scriptlet

namespace Session

open Scriptlet.Action Evaluation

/-- The machines on which any statements were interpreted one after the other, each time with any
report on what was found wrong before. -/
inductive Interpreted (limit : Option Nat) : Machine → Prop where
  | start : Interpreted limit (start limit)
  | next {m : Machine} {bound : Nat} {mode : Mode} {ss : List Stmt} {report : Report} {r : RunResult} :
    Interpreted limit m → interpret bound mode ss report m = some r → Interpreted limit r.machine

/-- Output that is shown at the end of a run changes nothing but the output. -/
theorem scope_finish {mode : Mode} {report : Report} {o : Outcome Flow} {r : RunResult} {env : Env}
    (ho : o.EndsIn env) (h : finish mode report o = some r) : r.machine.scope = env := by
  cases o with
  | unfinished => cases h
  | error e m =>
    cases h
    exact ho
  | done flow m =>
    simp only [finish] at h
    split at h
    · cases h
      exact ho
    · split at h
      · cases h
        exact ho
      · cases h
        exact ho

/-- Whatever the current scope was, statements that are executed leave the scope of the globals. -/
theorem scope_interpret {bound : Nat} {mode : Mode} {ss : List Stmt} {report : Report} {m : Machine}
    {r : RunResult} (h : interpret bound mode ss report m = some r) :
    r.machine.scope = if report.hasStatic then m.scope else globals := by
  cases hstatic : report.hasStatic with
  | true =>
    rw [interpret_of_static hstatic] at h
    cases h
    rfl
  | false =>
    rw [interpret_of_clean hstatic] at h
    exact scope_finish (restores_executeTop bound .normal ss { m with scope := globals }) h

theorem Interpreted.scope_eq {limit : Option Nat} {m : Machine} (h : Interpreted limit m) :
    m.scope = globals := by
  induction h with
  | start => rfl
  | @next m bound mode ss report r hm hr ih =>
    rw [scope_interpret hr, ih, ite_self]

/-- Whatever comes to an end leaves the machine in the scope in which it was started, also with an
error or a `return`, so a session is always back in the scope of its globals. -/
theorem scope_restored :
    (∀ bound m,
      (∀ e, (evaluateWith (call bound) e m).EndsIn m.scope) ∧
      (∀ s, (executeWith (call bound) bound s m).EndsIn m.scope) ∧
      (∀ env ss, (executeAll bound env ss m).EndsIn m.scope) ∧
      ∀ f args, (call bound f args m).EndsIn m.scope) ∧
    ∀ limit m, Interpreted limit m → m.scope = globals := by
  refine ⟨fun bound m => ⟨?_, ?_, ?_, ?_⟩, fun limit m hm => hm.scope_eq⟩
  · intro e
    exact restores_evaluateWith (unscoped_call bound) e m
  · intro s
    exact restores_executeWith (unscoped_call bound) bound s m
  · intro env ss
    exact (unscoped_inScope env _).restores m
  · intro f args
    exact (unscoped_call bound f args).restores m

/-- The error is raised in an argument of a call, two blocks and a call below the globals. -/
theorem scope_restored_after_failure :
    let source := "fun f(a) \x7b \x7b \x7b return f(-nil); \x7d \x7d \x7d f(true);"
    ∃ r, interpret 2 .script (statements .script source) [] (start none) = some r ∧
      r.report = [.runtime 1 "Operand must be a number."] ∧ r.machine.store.scopes.size = 4 ∧
      r.machine.scope = globals := by
  intro source
  have hruns : (interpret 2 .script (statements .script source) [] (start none)).map
      (fun r => (r.report, r.machine.store.scopes.size)) =
        some ([.runtime 1 "Operand must be a number."], 4) := by decide +kernel
  obtain ⟨r, hr, hsummary⟩ := Option.map_eq_some_iff.1 hruns
  obtain ⟨hreport, hsize⟩ := Prod.ext_iff.1 hsummary
  have hreached : Interpreted none r.machine := .next .start hr
  exact ⟨r, hr, hreport, hsize, scope_restored.2 none r.machine hreached⟩

end Session

end Scriptlet
