import Scriptlet.Proofs.Evaluation.Filled
import Scriptlet.Proofs.Grammar.WellFormedProgram
import Scriptlet.Proofs.Session.Gate

namespace Scriptlet

namespace Report

/-- The report tells of no operator without a meaning. -/
def SparesOperators (r : Report) : Prop :=
  ∀ line (fault : RuntimeFault), fault.isOperatorFault = true → .runtime line fault.message ∉ r

private theorem sparesOperators_of_static {r : Report} (h : ∀ d ∈ r, d.isStatic = true) :
    r.SparesOperators := by
  intro line fault _ hmem
  cases h _ hmem

theorem SparesOperators.append {r r' : Report} (h : r.SparesOperators) (h' : r'.SparesOperators) :
    Report.SparesOperators (r ++ r') := by
  intro line fault hfault hmem
  rcases List.mem_append.1 hmem with hmem | hmem
  · exact h line fault hfault hmem
  · exact h' line fault hfault hmem

private theorem sparesOperators_diagnostic {e : RuntimeError}
    (h : e.fault.isOperatorFault = false) :
    SparesOperators [e.diagnostic] := by
  intro line fault hfault hmem
  have hmessage : fault.message = e.fault.message :=
    (Diagnostic.runtime.inj (List.mem_singleton.1 hmem)).2
  exact RuntimeFault.message_ne h hfault hmessage.symm

end Report

namespace Session

open Scriptlet.Action Evaluation

open Instrument (filled)

theorem agree_executeTop (gap : Action Flow) (bound : Nat) {last : Flow} (hlast : last.Sound)
    {ss : List Stmt} (hss : ∀ s ∈ ss, s.WellFormed) :
    Agree Flow.Sound ((filled gap).executeTop bound last ss) (executeTop bound last ss) := by
  rw [← Instrument.plain_executeTop]
  exact (Instrument.relates_agree gap).executeTop (.inl rfl) () (fun _ => hlast) (fun _ _ => trivial)
    fun _ => hss

/-- A sound outcome leaves a sound machine, and adds no more than one fault to the report. -/
theorem finish_sound {mode : Mode} {report : Report} {o : Outcome Flow} {r : RunResult}
    (ho : o.Sound Flow.Sound) (h : finish mode report o = some r) :
    r.machine.Sound ∧ ∃ found, r.report = report ++ found ∧ found.SparesOperators := by
  rcases finish_cases h with ⟨e, rfl, hreport⟩ | ⟨flow, m, rfl, hreport, hstore⟩
  · exact ⟨ho.2, [e.diagnostic], hreport, Report.sparesOperators_diagnostic ho.1⟩
  · have hmachine : r.machine.Sound := by
      rw [Machine.Sound, hstore]
      exact ho.2
    refine ⟨hmachine, [], ?_, fun _ _ _ => List.not_mem_nil⟩
    rw [hreport, List.append_nil]

/-- The machines on which any texts or tokens were run one after the other, each with any report on
what was found wrong before. -/
inductive Reached (limit : Option Nat) : Machine → Prop where
  | start : Reached limit (start limit)
  | next {m : Machine} {bound : Nat} {mode : Mode} {tokens : List Token} {report : Report}
    {r : RunResult} : Reached limit m → runTokens bound mode tokens report m = some r →
    Reached limit r.machine

private theorem sound_start (limit : Option Nat) : (start limit).Sound :=
  Store.eachFunction_empty.openScope []

/-- What tokens are run as: nothing at all, or a well-formed program. -/
theorem runTokens_cases (bound : Nat) (mode : Mode) (tokens : List Token) (report : Report)
    (m : Machine) :
    runTokens bound mode tokens report m = some ⟨report ++ staticReport mode tokens, none, m⟩ ∨
      (∀ s ∈ (Program.ofTokens mode.isInteractive tokens).statements, s.WellFormed) ∧
        runTokens bound mode tokens report m = finish mode report
          (executeTop bound .normal (Program.ofTokens mode.isInteractive tokens).statements
            { m with scope := globals }) := by
  rw [runTokens_eq]
  cases hstatic : (report ++ staticReport mode tokens).hasStatic with
  | true => exact .inl (interpret_of_static hstatic bound mode _ m)
  | false =>
    have hnone : staticReport mode tokens = [] := by
      rw [Report.hasStatic_append, Bool.or_eq_false_iff] at hstatic
      exact (Report.hasStatic_eq_false_iff (isStatic_staticReport mode tokens)).1 hstatic.2
    have hprogram : (Program.ofTokens mode.isInteractive tokens).report = [] := by
      rw [staticReport, List.append_eq_nil_iff] at hnone
      exact hnone.1
    refine .inr ⟨Program.wellFormed_ofTokens hprogram, ?_⟩
    rw [interpret_of_clean hstatic, hnone, List.append_nil]

private theorem executeTop_sound {m : Machine} (hm : m.Sound) (bound : Nat) {ss : List Stmt}
    (hss : ∀ s ∈ ss, s.WellFormed) :
    (executeTop bound .normal ss { m with scope := globals }).Sound Flow.Sound := by
  have hlast : Flow.Sound .normal := trivial
  have hagree := agree_executeTop (pure .normal) bound hlast hss
  exact (hagree { m with scope := globals } hm).2

private theorem runTokens_sound {m : Machine} (hm : m.Sound) {bound : Nat} {mode : Mode}
    {tokens : List Token} {report : Report} {r : RunResult}
    (h : runTokens bound mode tokens report m = some r) :
    r.machine.Sound ∧ ∃ found, r.report = report ++ found ∧ found.SparesOperators := by
  rcases runTokens_cases bound mode tokens report m with hrun | ⟨hss, hrun⟩
  · rw [hrun] at h
    cases h
    have hstatic := Report.sparesOperators_of_static (isStatic_staticReport mode tokens)
    exact ⟨hm, staticReport mode tokens, rfl, hstatic⟩
  · rw [hrun] at h
    exact finish_sound (executeTop_sound hm bound hss) h

theorem Reached.sound {limit : Option Nat} {m : Machine} (h : Reached limit m) : m.Sound := by
  induction h with
  | start => exact sound_start limit
  | next _ hrun ih => exact (runTokens_sound ih hrun).1

private theorem run_sparesOperators {m : Machine} (hm : m.Sound) {bound : Nat} {mode : Mode}
    {source : String} {r : RunResult} (h : run bound mode source m = some r) :
    r.report.SparesOperators := by
  obtain ⟨-, found, hreport, hfound⟩ := runTokens_sound hm h
  rw [hreport]
  exact (Report.sparesOperators_of_static (Scan.isStatic_errors source)).append hfound

/-- Operators stand only where they have a meaning, also in the functions that any session leaves
behind, so no text is reported to have one that is out of place. -/
theorem operators_have_meaning :
    (∀ interactive tokens, ∀ s ∈ (Program.ofTokens interactive tokens).statements, s.Operable) ∧
    ∀ limit m, Reached limit m →
      m.store.EachFunction (fun f => ∀ s ∈ f.body, s.Operable) ∧
      (∀ bound mode source r, run bound mode source m = some r → ∀ line lexeme,
        .runtime line (RuntimeFault.invalidOperator lexeme).message ∉ r.report ∧
        .runtime line (RuntimeFault.invalidStepTarget lexeme).message ∉ r.report) ∧
      ∀ bound mode tokens report r, runTokens bound mode tokens report m = some r →
        ∃ found, r.report = report ++ found ∧ ∀ line lexeme,
          .runtime line (RuntimeFault.invalidOperator lexeme).message ∉ found ∧
          .runtime line (RuntimeFault.invalidStepTarget lexeme).message ∉ found := by
  refine ⟨Program.operable_ofTokens, fun limit m hm => ⟨?_, ?_, ?_⟩⟩
  · intro scope name v hv f hf s hs
    have hbody := hm.sound scope name v hv f hf
    exact (hbody s hs).operable
  · intro bound mode source r hr line lexeme
    have hspares := run_sparesOperators hm.sound hr
    exact ⟨hspares line _ rfl, hspares line _ rfl⟩
  · intro bound mode tokens report r hr
    obtain ⟨-, found, hreport, hspares⟩ := runTokens_sound hm.sound hr
    exact ⟨found, hreport, fun line lexeme => ⟨hspares line _ rfl, hspares line _ rfl⟩⟩

/-- The operator of an earlier text has a meaning, if not for the operand that a later text gives. -/
theorem operators_have_meaning_in_call :
    let first := "fun f(a) \x7b return -a; \x7d"
    ∃ r r', run 0 .script first (start none) = some r ∧ run 1 .script "f(nil);" r.machine = some r' ∧
      r'.report = [.runtime 1 "Operand must be a number."] ∧ ∀ line lexeme,
        .runtime line (RuntimeFault.invalidOperator lexeme).message ∉ r'.report ∧
        .runtime line (RuntimeFault.invalidStepTarget lexeme).message ∉ r'.report := by
  intro first
  have hruns : ((run 0 .script first (start none)).bind fun r =>
      (run 1 .script "f(nil);" r.machine).map RunResult.report) =
        some [.runtime 1 "Operand must be a number."] := by decide +kernel
  obtain ⟨r, hr, hmore⟩ := Option.bind_eq_some_iff.1 hruns
  obtain ⟨r', hr', hreport⟩ := Option.map_eq_some_iff.1 hmore
  have hreached : Reached none r.machine := .next .start hr
  exact ⟨r, r', hr, hr', hreport,
    (operators_have_meaning.2 none r.machine hreached).2.1 1 .script _ r' hr'⟩

end Session

end Scriptlet
