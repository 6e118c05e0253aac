import Scriptlet.Proofs.Session.Soundness

namespace Scriptlet.Session

open Scriptlet.Action Evaluation
open Instrument (filled)

/-- One text of a session, with the bound on how far its run may go. -/
structure Turn where
  bound : Nat
  mode : Mode
  source : String

namespace Turn

def run (t : Turn) (m : Machine) : Option RunResult := Session.run t.bound t.mode t.source m

def statements (t : Turn) : List Stmt := Session.statements t.mode t.source

/-- Whether something static is wrong with the text. -/
def isRejected (t : Turn) : Bool := (sourceReport t.mode t.source).hasStatic

private theorem isRejected_iff (t : Turn) :
    t.isRejected = true ↔ sourceReport t.mode t.source ≠ [] := by
  have hstatic := Report.hasStatic_eq_false_iff (isStatic_sourceReport t.mode t.source)
  rw [isRejected, ← Bool.not_eq_false, hstatic]

theorem run_of_rejected {t : Turn} (h : t.isRejected = true) (m : Machine) :
    t.run m = some ⟨sourceReport t.mode t.source, none, m⟩ :=
  run_of_static (t.isRejected_iff.1 h) t.bound m

private theorem sourceReport_of_not_rejected {t : Turn} (h : t.isRejected = false) :
    sourceReport t.mode t.source = [] :=
  (Report.hasStatic_eq_false_iff (isStatic_sourceReport t.mode t.source)).1 h

theorem run_of_not_rejected {t : Turn} (h : t.isRejected = false) (m : Machine) :
    t.run m =
      finish t.mode [] (executeTop t.bound .normal t.statements { m with scope := globals }) :=
  run_of_clean (sourceReport_of_not_rejected h) t.bound m

/-- A text that is run reports at most one fault, and that one is not static. -/
theorem report_of_not_rejected {t : Turn} (h : t.isRejected = false) {m : Machine} {r : RunResult}
    (hr : t.run m = some r) : r.report = [] ∨ ∃ line message, r.report = [.runtime line message] := by
  rw [run_of_not_rejected h] at hr
  rcases finish_cases hr with ⟨e, -, hreport⟩ | ⟨-, -, -, hreport, -⟩
  · exact .inr ⟨e.token.line, e.message, hreport⟩
  · exact .inl hreport

/-- The report tells whether the text was run. -/
theorem hasStatic_report {t : Turn} {m : Machine} {r : RunResult} (hr : t.run m = some r) :
    r.report.hasStatic = t.isRejected := by
  cases h : t.isRejected with
  | true =>
    rw [run_of_rejected h] at hr
    cases hr
    exact h
  | false =>
    rcases report_of_not_rejected h hr with hreport | ⟨line, message, hreport⟩
    · rw [hreport]
      rfl
    · rw [hreport]
      rfl

private theorem wellFormed_of_not_rejected {t : Turn} (h : t.isRejected = false) :
    ∀ s ∈ t.statements, s.WellFormed := by
  have hreport := sourceReport_of_not_rejected h
  rw [sourceReport, staticReport, List.append_eq_nil_iff, List.append_eq_nil_iff] at hreport
  exact Program.wellFormed_ofTokens hreport.2.1

end Turn

/-- The results of the runs of a session, in order, and the machine that the last of them leaves. There
are none if a run does not end. -/
def runAll : List Turn → Machine → Option (List RunResult × Machine)
  | [], m => some ([], m)
  | t :: ts, m => (t.run m).bind fun r => (runAll ts r.machine).map fun (rs, last) => (r :: rs, last)

/-- Without the texts that are not run a session is the same, but for the results of those. -/
theorem runAll_filter (turns : List Turn) (m : Machine) :
    runAll (turns.filter fun t => !t.isRejected) m =
      (runAll turns m).map fun (rs, last) => (rs.filter fun r => !r.report.hasStatic, last) := by
  induction turns generalizing m with
  | nil => rfl
  | cons t turns ih =>
    cases h : t.isRejected with
    | true =>
      -- The machine is the same behind this text, so the rest is run on the same one.
      have hstatic : (sourceReport t.mode t.source).hasStatic = true := h
      rw [List.filter_cons_of_neg (by simp [h]), ih, runAll, Turn.run_of_rejected h,
        Option.bind_some, Option.map_map]
      congr 1
      funext ⟨rs, last⟩
      simp [hstatic]
    | false =>
      rw [List.filter_cons_of_pos (by simp [h]), runAll, runAll]
      cases hr : t.run m with
      | none => rfl
      | some r =>
        have hstatic : r.report.hasStatic = false := by rw [Turn.hasStatic_report hr, h]
        rw [Option.bind_some, Option.bind_some, ih, Option.map_map, Option.map_map]
        congr 1
        funext ⟨rs, last⟩
        simp [hstatic]

theorem Reached.runAll {limit : Option Nat} {turns : List Turn} {m last : Machine}
    {rs : List RunResult} (hm : Reached limit m) (h : runAll turns m = some (rs, last)) :
    Reached limit last := by
  induction turns generalizing m rs with
  | nil =>
    cases h
    exact hm
  | cons t turns ih =>
    obtain ⟨r, hr, hmore⟩ := Option.bind_eq_some_iff.1 h
    obtain ⟨⟨rs', last'⟩, hrest, heq⟩ := Option.map_eq_some_iff.1 hmore
    cases heq
    exact ih (hm.next hr) hrest

/-- A text that is run is well-formed and finds well-formed functions, so what a broken statement would
do makes no difference. -/
theorem Turn.run_filled {t : Turn} (h : t.isRejected = false) {m : Machine} (hm : m.Sound)
    (gap : Action Flow) :
    t.run m = finish t.mode []
      ((filled gap).executeTop t.bound .normal t.statements { m with scope := globals }) := by
  have hlast : Flow.Sound .normal := trivial
  have hagree := agree_executeTop gap t.bound hlast (Turn.wellFormed_of_not_rejected h)
  rw [run_of_not_rejected h, (hagree { m with scope := globals } hm).1]

/-- Texts with a static error can be left out of a session, and nothing broken is ever executed:
whatever it did in place of nothing, every run would be the same. -/
theorem rejected_texts_leave_no_trace :
    (∀ turns m, runAll (turns.filter fun t => !t.isRejected) m =
      (runAll turns m).map fun (rs, last) => (rs.filter fun r => !r.report.hasStatic, last)) ∧
    (∀ (t : Turn) m r, t.run m = some r →
      (t.isRejected = true ↔ ∃ d ∈ r.report, d.isStatic = true) ∧
      ((r.report ≠ [] ∧ (∀ d ∈ r.report, d.isStatic = true) ∧
          ∀ bound m', run bound t.mode t.source m' = some ⟨r.report, none, m'⟩) ∨
        r.report = [] ∨ ∃ line message, r.report = [.runtime line message])) ∧
    (∀ bound last ss, (filled (pure .normal)).executeTop bound last ss = executeTop bound last ss) ∧
    ∀ limit turns rs m, runAll turns (start limit) = some (rs, m) →
      m.store.EachFunction (fun f => ∀ s ∈ f.body, s.Whole) ∧
      ∀ t : Turn, t.isRejected = false → (∀ s ∈ t.statements, s.Whole) ∧
        ∀ gap, t.run m = finish t.mode []
          ((filled gap).executeTop t.bound .normal t.statements { m with scope := globals }) := by
  refine ⟨runAll_filter, ?_, Instrument.plain_executeTop, ?_⟩
  · intro t m r hr
    refine ⟨?_, ?_⟩
    · rw [← Turn.hasStatic_report hr]
      exact List.any_eq_true
    cases h : t.isRejected with
    | true =>
      have hreport := t.isRejected_iff.1 h
      rw [Turn.run_of_rejected h] at hr
      cases hr
      exact .inl ⟨hreport, isStatic_sourceReport t.mode t.source, run_of_static hreport⟩
    | false => exact .inr (Turn.report_of_not_rejected h hr)
  · intro limit turns rs m h
    have hsound := (Reached.start.runAll h).sound
    refine ⟨?_, fun t ht => ⟨?_, Turn.run_filled ht hsound⟩⟩
    · intro scope name v hv f hf s hs
      have hbody := hsound scope name v hv f hf
      exact (hbody s hs).whole
    · intro s hs
      exact (Turn.wellFormed_of_not_rejected ht s hs).whole

/-- The second text lacks its last semicolon, so the third one finds the function of the first. -/
theorem rejected_text_between :
    let first : Turn := ⟨0, .script, "fun f() \x7b print nil; \x7d"⟩
    let second : Turn := ⟨0, .script, "fun f() \x7b print true; \x7d f()"⟩
    let third : Turn := ⟨1, .interactive, "f()"⟩
    first.isRejected = false ∧ second.isRejected = true ∧ third.isRejected = false ∧
      (∃ d ∈ sourceReport .script second.source, d.isStatic = true) ∧
      ∃ rs m, runAll [first, second, third] (start none) = some (rs, m) ∧
        m.output.written = "nil\n".toUTF8 ∧
        runAll [first, third] (start none) =
          some (rs.filter fun r => !r.report.hasStatic, m) ∧
        ∀ gap, third.run m = finish .interactive []
          ((filled gap).executeTop 1 .normal third.statements { m with scope := globals }) := by
  intro first second third
  obtain ⟨hfilter, hruns, -, hwhole⟩ := rejected_texts_leave_no_trace
  have hfirst : first.isRejected = false := by decide +kernel
  have hsecond : second.isRejected = true := by decide +kernel
  have hthird : third.isRejected = false := by decide +kernel
  have hwritten : (runAll [first, second, third] (start none)).map (·.2.output.written) =
      some "nil\n".toUTF8 := by decide +kernel
  obtain ⟨⟨rs, m⟩, hall, hm⟩ := Option.map_eq_some_iff.1 hwritten
  have hkept : [first, second, third].filter (fun t => !t.isRejected) = [first, third] := by
    simp only [List.filter_cons, hfirst, hsecond, hthird]
    rfl
  have hrest := hfilter [first, second, third] (start none)
  rw [hkept, hall] at hrest
  have hsecondRun := hruns second (start none) _ (Turn.run_of_rejected hsecond _)
  exact ⟨hfirst, hsecond, hthird, hsecondRun.1.1 hsecond, rs, m, hall, hm, hrest,
    ((hwhole none _ rs m hall).2 third hthird).2⟩

end Scriptlet.Session
