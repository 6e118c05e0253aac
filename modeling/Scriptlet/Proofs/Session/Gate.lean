import Scriptlet.Proofs.Evaluation.ReturnPlacement
import Scriptlet.Session

namespace Scriptlet

private theorem ParseError.isStatic_diagnostic (e : ParseError) :
    e.diagnostic.isStatic = true := rfl

private theorem Program.isStatic_report (p : Program) : ∀ d ∈ p.report, d.isStatic = true := by
  intro d hd
  obtain ⟨e, -, rfl⟩ := List.mem_map.1 hd
  exact e.isStatic_diagnostic

private theorem isStatic_checkReturns (ss : List Stmt) :
    ∀ d ∈ checkReturns ss, d.isStatic = true := by
  intro d hd
  obtain ⟨keyword, -, rfl⟩ := List.mem_map.1 hd
  rfl

theorem Scan.isStatic_errors (source : String) :
    ∀ d ∈ (Scan.ofText source).errors, d.isStatic = true := by
  intro d hd
  obtain ⟨placed, -, hplaced⟩ := List.mem_filterMap.1 hd
  unfold Segment.error? at hplaced
  split at hplaced
  · cases hplaced
    rfl
  · cases hplaced
    rfl
  · cases hplaced

namespace Report

theorem hasStatic_append (r r' : Report) :
    (r ++ r').hasStatic = (r.hasStatic || r'.hasStatic) :=
  List.any_append

/-- A report on what is static holds something static unless it is empty. -/
theorem hasStatic_eq_false_iff {r : Report} (h : ∀ d ∈ r, d.isStatic = true) :
    r.hasStatic = false ↔ r = [] := by
  cases r with
  | nil => exact iff_of_true rfl rfl
  | cons d r =>
    have hd := h d List.mem_cons_self
    simp [hasStatic, hd]

end Report

namespace Session

open Scriptlet.Action Evaluation

/-- What is found wrong with the program that the tokens make up. -/
def staticReport (mode : Mode) (tokens : List Token) : Report :=
  let program := Program.ofTokens mode.isInteractive tokens
  program.report ++ checkReturns program.statements

theorem isStatic_staticReport (mode : Mode) (tokens : List Token) :
    ∀ d ∈ staticReport mode tokens, d.isStatic = true := by
  intro d hd
  rcases List.mem_append.1 hd with hd | hd
  · exact Program.isStatic_report _ d hd
  · exact isStatic_checkReturns _ d hd

/-- What is found wrong with a text before it is run. -/
def sourceReport (mode : Mode) (source : String) : Report :=
  (Scan.ofText source).errors ++ staticReport mode (Scan.ofText source).tokens

theorem isStatic_sourceReport (mode : Mode) (source : String) :
    ∀ d ∈ sourceReport mode source, d.isStatic = true := by
  intro d hd
  rcases List.mem_append.1 hd with hd | hd
  · exact Scan.isStatic_errors source d hd
  · exact isStatic_staticReport mode _ d hd

/-- The statements of a text. -/
def statements (mode : Mode) (source : String) : List Stmt :=
  (Program.ofTokens mode.isInteractive (Scan.ofText source).tokens).statements

/-- How a run ends once its statements have. -/
def finish (mode : Mode) (report : Report) : Outcome Flow → Option RunResult
  | .unfinished => none
  | .error e m => some ⟨report ++ [e.diagnostic], none, m⟩
  | .done flow m =>
    match echo? mode flow with
    | none => some ⟨report, none, m⟩
    | some text =>
      match m.output.write text with
      | (output, true) => some ⟨report, none, { m with output }⟩
      | (output, false) => some ⟨report, some output.refusal, { m with output }⟩

/-- A run ends with an error and reports it, or without one and reports nothing. What is shown at the
end leaves the store as it is. -/
theorem finish_cases {mode : Mode} {report : Report} {o : Outcome Flow} {r : RunResult}
    (h : finish mode report o = some r) :
    (∃ e, o = .error e r.machine ∧ r.report = report ++ [e.diagnostic]) ∨
      ∃ flow m, o = .done flow m ∧ r.report = report ∧ r.machine.store = m.store := by
  cases o with
  | unfinished => cases h
  | error e m =>
    cases h
    exact .inl ⟨e, rfl, rfl⟩
  | done flow m =>
    refine .inr ⟨flow, m, rfl, ?_⟩
    simp only [finish] at h
    split at h
    · cases h
      exact ⟨rfl, rfl⟩
    · split at h
      · cases h
        exact ⟨rfl, rfl⟩
      · cases h
        exact ⟨rfl, rfl⟩

/-- Nothing is shown at the end of a script. -/
theorem finish_script (report : Report) (flow : Flow) (m : Machine) :
    finish .script report (.done flow m) = some ⟨report, none, m⟩ := by
  cases flow <;> rfl

theorem finish_eq_none_iff (mode : Mode) (report : Report) (o : Outcome Flow) :
    finish mode report o = none ↔ o = .unfinished := by
  cases o with
  | unfinished => exact iff_of_true rfl rfl
  | error e m => simp [finish]
  | done flow m =>
    simp only [finish, reduceCtorEq, iff_false]
    split
    · simp
    · split <;> simp

theorem interpret_of_static {report : Report} (h : report.hasStatic = true) (bound : Nat)
    (mode : Mode) (ss : List Stmt) (m : Machine) :
    interpret bound mode ss report m = some ⟨report, none, m⟩ := by
  rw [interpret, if_pos h]

theorem interpret_of_clean {report : Report} (h : report.hasStatic = false) (bound : Nat)
    (mode : Mode) (ss : List Stmt) (m : Machine) :
    interpret bound mode ss report m =
      finish mode report (executeTop bound .normal ss { m with scope := globals }) := by
  rw [interpret, if_neg (by simp [h])]
  cases executeTop bound .normal ss { m with scope := globals } <;> rfl

theorem runTokens_eq (bound : Nat) (mode : Mode) (tokens : List Token) (report : Report)
    (m : Machine) :
    runTokens bound mode tokens report m =
      interpret bound mode (Program.ofTokens mode.isInteractive tokens).statements
        (report ++ staticReport mode tokens) m := by
  rw [runTokens, staticReport, List.append_assoc]

/-- Nothing is executed where anything static is wrong, and only that is reported. -/
theorem run_of_static {mode : Mode} {source : String} (h : sourceReport mode source ≠ [])
    (bound : Nat)
    (m : Machine) : run bound mode source m = some ⟨sourceReport mode source, none, m⟩ := by
  have hstatic : (sourceReport mode source).hasStatic = true := by
    rw [← Bool.not_eq_false]
    intro hfalse
    exact h ((Report.hasStatic_eq_false_iff (isStatic_sourceReport mode source)).1 hfalse)
  rw [run, runTokens_eq]
  exact interpret_of_static hstatic bound mode _ m

theorem run_of_clean {mode : Mode} {source : String} (h : sourceReport mode source = [])
    (bound : Nat) (m : Machine) :
    run bound mode source m =
      finish mode []
        (executeTop bound .normal (statements mode source) { m with scope := globals }) := by
  have hreport : (Scan.ofText source).errors ++ staticReport mode (Scan.ofText source).tokens = [] := h
  rw [run, runTokens_eq, hreport]
  exact interpret_of_clean rfl bound mode _ m

/-- Executes statements in order, each on the machine that the one before leaves however that one
ended, and ends as the last one. Only an error keeps the rest from being executed. -/
def executeEach (bound : Nat) (ss : List Stmt) : Action Flow :=
  ss.foldlM (fun _ s => executeWith (call bound) bound s) .normal

/-- A statement without an exposed `return` is always followed by the ones behind it. -/
theorem executeTop_cons (bound : Nat) (last : Flow) {s : Stmt} (ss : List Stmt)
    (h : s.exposedReturns = []) :
    executeTop bound last (s :: ss) =
      executeWith (call bound) bound s >>= fun flow => executeTop bound flow ss := by
  have hnever : NeverReturns (executeWith (call bound) bound s) := neverReturns_executeWith bound s h
  funext m
  rw [executeTop, bind_apply, bind_apply]
  cases hs : executeWith (call bound) bound s m with
  | done flow m' =>
    cases flow with
    | ret v => exact absurd hs (hnever m v m')
    | normal => rfl
    | value v => rfl
  | error e m' => rfl
  | unfinished => rfl

theorem executeTop_eq_foldlM (bound : Nat) (last : Flow) {ss : List Stmt}
    (h : Stmt.exposedReturnsOf ss = []) :
    executeTop bound last ss = ss.foldlM (fun _ s => executeWith (call bound) bound s) last := by
  induction ss generalizing last with
  | nil => rfl
  | cons s ss ih =>
    rw [Stmt.exposedReturnsOf, List.append_eq_nil_iff] at h
    rw [executeTop_cons bound last ss h.1, List.foldlM_cons]
    congr 1
    funext flow
    exact ih flow h.2

/-- Where no `return` is exposed none comes out of a statement, so a text that passes the gate is
executed statement by statement, and only an error ends that. -/
theorem run_executes_each :
    (∀ ss, checkReturns ss = [] → ∀ bound,
      (∀ s ∈ ss, ∀ m v m', executeWith (call bound) bound s m ≠ .done (.ret v) m') ∧
        executeTop bound .normal ss = executeEach bound ss) ∧
    ∀ mode source, sourceReport mode source = [] → ∀ bound m,
      run bound mode source m =
        finish mode []
          (executeEach bound (statements mode source) { m with scope := globals }) := by
  have henclosed {ss : List Stmt} (hss : checkReturns ss = []) : Stmt.exposedReturnsOf ss = [] :=
    List.map_eq_nil_iff.1 hss
  refine ⟨fun ss hss bound => ⟨?_, executeTop_eq_foldlM bound .normal (henclosed hss)⟩, ?_⟩
  · intro s hs
    have hnone := henclosed hss
    obtain ⟨front, back, rfl⟩ := List.append_of_mem hs
    rw [Stmt.exposedReturnsOf_append, Stmt.exposedReturnsOf, List.append_eq_nil_iff,
      List.append_eq_nil_iff] at hnone
    exact neverReturns_executeWith bound s hnone.2.1
  · intro mode source hsource bound m
    have hreturns : checkReturns (statements mode source) = [] := by
      rw [sourceReport, staticReport, List.append_eq_nil_iff, List.append_eq_nil_iff] at hsource
      exact hsource.2.2
    rw [run_of_clean hsource, executeEach,
      executeTop_eq_foldlM bound .normal (henclosed hreturns)]

/-- The `return` ends the call and leaves the statement behind the call to be executed. -/
theorem run_executes_behind_call :
    let source := "fun f() \x7b print nil; return; print true; \x7d f(); print \"x\";"
    sourceReport .script source = [] ∧
      (∀ s ∈ statements .script source, ∀ m v m', executeWith (call 1) 1 s m ≠ .done (.ret v) m') ∧
      (run 1 .script source (start none)).map (·.machine.output.written) =
        some "nil\nx\n".toUTF8 := by
  intro source
  obtain ⟨hnever, hrun⟩ := run_executes_each
  have hsource : sourceReport .script source = [] := by decide +kernel
  have hreturns : checkReturns (statements .script source) = [] := by decide +kernel
  refine ⟨hsource, (hnever _ hreturns 1).1, ?_⟩
  rw [hrun _ _ hsource]
  decide +kernel

end Session

end Scriptlet
