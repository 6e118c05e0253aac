import Scriptlet.Proofs.Evaluation.CurrentScope
import Scriptlet.Proofs.Evaluation.RenumberedRun
import Scriptlet.Proofs.Grammar.SentenceLines
import Scriptlet.Proofs.Session.Gate
import Scriptlet.Proofs.Token.LineEnd

namespace Scriptlet.Session

open Scriptlet.Action Evaluation Grammar

/-- Nothing keeps the text from being run. -/
def IsClean (mode : Mode) (source : String) : Prop :=
  let scan := Scan.ofText source
  let program := Program.ofTokens mode.isInteractive scan.tokens
  scan.errors = [] ∧ program.report = [] ∧ checkReturns program.statements = []

/-- The tokens of a script and the program that they make up. -/
structure IsScript (tokens : List Token) (ss : List Stmt) : Prop where
  closed : ∃ line, tokens = tokens.dropLast ++ [Scan.eof line]
  proper : ∀ t ∈ tokens.dropLast, t.kind ≠ .eof
  program : IsProgram tokens.dropLast ss
  enclosed : Stmt.exposedReturnsOf ss = []

namespace IsScript

variable {tokens : List Token} {ss : List Stmt}

private theorem ofTokens_eq (h : IsScript tokens ss) :
    Program.ofTokens false tokens = ⟨ss, []⟩ := by
  obtain ⟨line, hclosed⟩ := h.closed
  have hinput : input tokens = tokens.dropLast := by
    rw [hclosed, input_append _ h.proper, ← hclosed]
    exact List.append_nil _
  rw [Program.ofTokens, hinput]
  exact (declarations_eq_iff rfl).2 h.program

/-- A script is run without a report on what was found before. -/
theorem runTokens_eq (h : IsScript tokens ss) (bound : Nat) (m : Machine) :
    runTokens bound .script tokens [] m = interpret bound .script ss [] m := by
  have hreturns : checkReturns ss = [] := by rw [checkReturns, h.enclosed, List.map_nil]
  have hprogram := h.ofTokens_eq
  simp only [runTokens, Mode.isInteractive, hprogram, hreturns]
  rfl

theorem renumber (h : IsScript tokens ss) (g : Nat → Nat) :
    IsScript (tokens.map (Token.renumber g)) (Stmt.renumberAll g ss) := by
  obtain ⟨line, hclosed⟩ := h.closed
  have hbody : (tokens.map (Token.renumber g)).dropLast = tokens.dropLast.map (Token.renumber g) :=
    List.map_dropLast.symm
  constructor
  · refine ⟨g line, ?_⟩
    rw [hbody]
    conv => lhs; rw [hclosed, List.map_append]
    rfl
  · intro t ht
    rw [hbody] at ht
    obtain ⟨u, hu, rfl⟩ := List.mem_map.1 ht
    exact h.proper u hu
  · rw [hbody]
    exact h.program.renumber g
  · rw [Stmt.exposedReturnsOf_renumber, h.enclosed, List.map_nil]

theorem append {more : List Token} {rest : List Stmt} (h : IsScript tokens ss)
    (hmore : IsScript more rest) : IsScript (tokens.dropLast ++ more) (ss ++ rest) := by
  obtain ⟨line, hclosed⟩ := hmore.closed
  have hbody : (tokens.dropLast ++ more).dropLast = tokens.dropLast ++ more.dropLast := by
    conv => lhs; rw [hclosed, ← List.append_assoc, List.dropLast_concat]
  constructor
  · refine ⟨line, ?_⟩
    rw [hbody, List.append_assoc, ← hclosed]
  · intro t ht
    rw [hbody] at ht
    rcases List.mem_append.1 ht with ht | ht
    · exact h.proper t ht
    · exact hmore.proper t ht
  · rw [hbody]
    exact h.program.append hmore.program
  · rw [Stmt.exposedReturnsOf_append, h.enclosed, hmore.enclosed]
    rfl

end IsScript

/-- All tokens of a text but the last one, which marks the end, are read. -/
theorem ofTokens_scan (interactive : Bool) (source : String) :
    Program.ofTokens interactive (Scan.ofText source).tokens =
      declarations (.ofTokens interactive (Scan.ofText source).tokens)
        (Scan.ofText source).tokens.dropLast := by
  have hclosed := Scan.tokens_eq source.toList
  have hinput : input (Scan.ofText source).tokens = (Scan.ofText source).tokens.dropLast := by
    rw [Scan.ofText, hclosed, input_append _ (Scan.kind_ne_eof source.toList), ← hclosed]
    exact List.append_nil _
  rw [Program.ofTokens, hinput]

private theorem isClean_script_iff (source : String) :
    IsClean .script source ↔
      (Scan.ofText source).errors = [] ∧ ∃ ss, IsScript (Scan.ofText source).tokens ss := by
  have hproper := Scan.kind_ne_eof source.toList
  have hclosed := Scan.tokens_eq source.toList
  constructor
  · rintro ⟨herrors, hreport, hreturns⟩
    simp only [Mode.isInteractive] at hreport hreturns
    have hprogram : Program.ofTokens false (Scan.ofText source).tokens =
        ⟨(Program.ofTokens false (Scan.ofText source).tokens).statements, []⟩ := by
      rw [← List.map_eq_nil_iff.1 hreport]
    refine ⟨herrors, _, ⟨_, hclosed⟩, hproper, ?_, List.map_eq_nil_iff.1 hreturns⟩
    exact isProgram_of_declarations rfl ((ofTokens_scan false source).symm.trans hprogram)
  · rintro ⟨herrors, ss, hscript⟩
    have hprogram := hscript.ofTokens_eq
    simp only [IsClean, Mode.isInteractive, hprogram]
    refine ⟨herrors, rfl, ?_⟩
    rw [checkReturns, hscript.enclosed, List.map_nil]

/-- Two scripts with a line end between them are one script, in which the lines of the second one go
on from those of the first. -/
theorem isScript_joined {before behind : String} {ss rest : List Stmt}
    (hb : (Scan.ofText before).errors = []) (hr : (Scan.ofText behind).errors = [])
    (hss : IsScript (Scan.ofText before).tokens ss)
    (hrest : IsScript (Scan.ofText behind).tokens rest) :
    let k := before.toList.count '\n' + 1
    (Scan.ofText (before ++ "\n" ++ behind)).errors = [] ∧
      IsScript (Scan.ofText (before ++ "\n" ++ behind)).tokens
        (ss ++ Stmt.renumberAll (· + k) rest) := by
  intro k
  have htext : (before ++ "\n" ++ behind).toList = before.toList ++ '\n' :: behind.toList := by
    simp
  have hscan := Scan.ofChars_append behind.toList (Scan.terminated_of_errors hb)
  rw [← htext] at hscan
  constructor
  · have hbefore : (Scan.ofChars before.toList).errors = [] := hb
    have hbehind : (Scan.ofChars behind.toList).errors = [] := hr
    rw [Scan.ofText, hscan.2, hbefore, hbehind]
    rfl
  · rw [Scan.ofText, hscan.1]
    exact hss.append (hrest.renumber (· + k))

/-- What a script leaves behind: its last value is not shown. -/
def conclude : Outcome Flow → Option RunResult
  | .done _ m => some ⟨[], none, m⟩
  | .error e m => some ⟨[e.diagnostic], none, m⟩
  | .unfinished => none

private theorem interpret_script (bound : Nat) (ss : List Stmt) (m : Machine) :
    interpret bound .script ss [] m =
      conclude (executeTop bound .normal ss { m with scope := globals }) := by
  simp only [interpret, Report.hasStatic, List.any_nil, Bool.false_eq_true, if_false, List.nil_append]
  cases executeTop bound .normal ss { m with scope := globals } with
  | done flow m' => cases flow <;> rfl
  | error e m' => rfl
  | unfinished => rfl

private theorem conclude_renumber (g : Nat → Nat) (o : Outcome Flow) :
    conclude (o.renumber g (Flow.renumber g)) = (conclude o).map (RunResult.renumber g) := by
  cases o <;> rfl

/-- How the statements before ended does not matter. -/
theorem conclude_executeTop (bound : Nat) (last : Flow) (ss : List Stmt) (m : Machine) :
    conclude (executeTop bound last ss m) = conclude (executeTop bound .normal ss m) := by
  cases ss <;> rfl

theorem restores_executeTop (bound : Nat) (last : Flow) (ss : List Stmt) :
    Restores (executeTop bound last ss) := by
  induction ss generalizing last with
  | nil => exact restores_pure last
  | cons s ss ih =>
    apply (restores_executeWith (unscoped_call bound) bound s).bind
    intro flow
    cases flow with
    | ret v => exact restores_pure _
    | normal => exact ih _
    | value v => exact ih _

theorem renumbers_executeTop (g : Nat → Nat) (bound : Nat) (last : Flow) (ss : List Stmt) :
    Renumbers g (Flow.renumber g) (executeTop bound last ss)
      (executeTop bound (last.renumber g) (Stmt.renumberAll g ss)) := by
  induction ss generalizing last with
  | nil => exact renumbers_pure _ last
  | cons s ss ih =>
    apply (renumbers_executeWith g bound s).bind
    intro flow
    cases flow with
    | ret v => exact renumbers_pure _ (Flow.ret v)
    | normal => exact ih .normal
    | value v => exact ih (.value v)

/-- Statements without an exposed `return` are always followed by the ones behind them. -/
theorem executeTop_append (bound : Nat) (last : Flow) {ss : List Stmt} (rest : List Stmt)
    (h : Stmt.exposedReturnsOf ss = []) :
    executeTop bound last (ss ++ rest) =
      executeTop bound last ss >>= fun flow => executeTop bound flow rest := by
  induction ss generalizing last with
  | nil => rfl
  | cons s ss ih =>
    rw [Stmt.exposedReturnsOf, List.append_eq_nil_iff] at h
    rw [List.cons_append, executeTop_cons bound last (ss ++ rest) h.1,
      executeTop_cons bound last ss h.1, bind_assoc]
    congr 1
    funext flow
    exact ih flow h.2

/-- Marks a line as one of before. -/
def markOld (n : Nat) : Nat := 2 * n

/-- Marks a line as one of the text that is run. -/
def markNew (n : Nat) : Nat := 2 * n + 1

/-- Takes the marks away and moves the lines of the text behind `k` others. -/
def unmark (k n : Nat) : Nat := if n % 2 = 0 then n / 2 else n / 2 + k

private theorem unmark_comp_markOld (k : Nat) : unmark k ∘ markOld = id := by
  funext n
  show (if 2 * n % 2 = 0 then 2 * n / 2 else 2 * n / 2 + k) = n
  split <;> omega

private theorem unmark_comp_markNew (k : Nat) : unmark k ∘ markNew = (· + k) := by
  funext n
  show (if (2 * n + 1) % 2 = 0 then (2 * n + 1) / 2 else (2 * n + 1) / 2 + k) = n + k
  split <;> omega

/-- The run of a script in which the lines of the script are marked as new and all others as old. -/
def runMarked (bound : Nat) (source : String) (m : Machine) : Option RunResult :=
  runTokens bound .script ((Scan.ofText source).tokens.map (Token.renumber markNew)) []
    (m.renumber markOld)

/-- Behind `k` lines a script does what it does elsewhere: the marks show which lines move. -/
theorem interpret_behind {source : String} {ss : List Stmt}
    (h : IsScript (Scan.ofText source).tokens ss) (bound k : Nat) (m : Machine) :
    interpret bound .script (Stmt.renumberAll (· + k) ss) [] m =
      (runMarked bound source m).map (RunResult.renumber (unmark k)) := by
  have hmachine : ({ m.renumber markOld with scope := globals } : Machine).renumber (unmark k) =
      { m with scope := globals } := by
    have hm := Machine.renumber_renumber markOld (unmark k) { m with scope := globals }
    rw [unmark_comp_markOld, Machine.renumber_id] at hm
    exact hm
  have hrun := renumbers_executeTop (unmark k) bound .normal (Stmt.renumberAll markNew ss)
    { m.renumber markOld with scope := globals }
  rw [hmachine, Stmt.renumberAll_renumberAll, unmark_comp_markNew] at hrun
  rw [runMarked, (h.renumber _).runTokens_eq, interpret_script, interpret_script,
    ← conclude_renumber, ← hrun]
  rfl

/-- A script in two pieces is the first piece and then the second one, unless the first one fails. -/
theorem interpret_append (bound : Nat) {ss : List Stmt} (rest : List Stmt) (m : Machine)
    (h : Stmt.exposedReturnsOf ss = []) :
    interpret bound .script (ss ++ rest) [] m =
      (interpret bound .script ss [] m).bind fun r =>
        if r.report.hasRuntime then some r else interpret bound .script rest [] r.machine := by
  have restored := restores_executeTop bound .normal ss { m with scope := globals }
  rw [interpret_script, interpret_script, executeTop_append bound .normal rest h, bind_apply]
  cases hs : executeTop bound .normal ss { m with scope := globals } with
  | done flow m' =>
    rw [hs] at restored
    have hscope : m' = { m' with scope := globals } := by
      rw [← show m'.scope = globals from restored]
    have hnone : Report.hasRuntime [] = false := rfl
    simp only [conclude, Option.bind_some, hnone, Bool.false_eq_true, if_false]
    rw [interpret_script, ← hscope]
    exact conclude_executeTop bound flow rest m'
  | error e m' => rfl
  | unfinished => rfl

private theorem run_eq_interpret (bound : Nat) {source : String} {ss : List Stmt}
    (hfine : (Scan.ofText source).errors = []) (h : IsScript (Scan.ofText source).tokens ss)
    (m : Machine) : run bound .script source m = interpret bound .script ss [] m := by
  simp only [run, hfine]
  exact h.runTokens_eq bound m

/-- Scripts have no other failures than the ones that end them. -/
theorem report_interpret {bound : Nat} {ss : List Stmt} {m : Machine} {r : RunResult}
    (h : interpret bound .script ss [] m = some r) (hr : r.report.hasRuntime = false) :
    r.report = [] := by
  rw [interpret_script] at h
  cases ho : executeTop bound .normal ss { m with scope := globals } with
  | done flow m' =>
    rw [ho] at h
    cases h
    rfl
  | error e m' =>
    rw [ho] at h
    cases h
    cases hr
  | unfinished =>
    rw [ho] at h
    cases h

/-- A script may be cut at a line end wherever both pieces are scripts: the whole does what the first
piece does and then, unless that failed, what the second one does. -/
theorem run_joined (bound : Nat) (m : Machine) {before behind : String}
    (hbefore : IsClean .script before) (hbehind : IsClean .script behind) :
    IsClean .script (before ++ "\n" ++ behind) ∧
    run bound .script (before ++ "\n" ++ behind) m =
      (run bound .script before m).bind (fun r =>
        if r.report.hasRuntime then some r
        else (runMarked bound behind r.machine).map
          (RunResult.renumber (unmark (before.toList.count '\n' + 1)))) ∧
    (∀ r, run bound .script before m = some r → r.report.hasRuntime = false → r.report = []) ∧
    ∀ m', run bound .script behind m' =
      (runMarked bound behind m').map (RunResult.renumber (unmark 0)) := by
  obtain ⟨hb, ss, hss⟩ := (isClean_script_iff before).1 hbefore
  obtain ⟨hr, rest, hrest⟩ := (isClean_script_iff behind).1 hbehind
  obtain ⟨hfine, hjoined⟩ := isScript_joined hb hr hss hrest
  refine ⟨(isClean_script_iff _).2 ⟨hfine, _, hjoined⟩, ?_, ?_, ?_⟩
  · rw [run_eq_interpret bound hfine hjoined, run_eq_interpret bound hb hss,
      interpret_append bound _ m hss.enclosed]
    congr 1
    funext r
    rw [interpret_behind hrest]
  · intro r hrun
    rw [run_eq_interpret bound hb hss] at hrun
    exact report_interpret hrun
  · intro m'
    rw [run_eq_interpret bound hr hrest, ← interpret_behind hrest]
    exact congrArg (interpret bound .script · [] m') (Stmt.renumberAll_id rest).symm

/-- A failure of the second piece is on its own first line, which is the second one of the whole. -/
theorem run_joined_failure :
    IsClean .script "\x7b\x7d" ∧ IsClean .script "x;" ∧
      IsClean .script ("\x7b\x7d" ++ "\n" ++ "x;") ∧
      (run 1 .script "x;" (start none)).map RunResult.report =
        some [.runtime 1 "Undefined variable 'x'."] ∧
      (run 1 .script ("\x7b\x7d" ++ "\n" ++ "x;") (start none)).map RunResult.report =
        some [.runtime 2 "Undefined variable 'x'."] := by
  have hbefore : IsClean .script "\x7b\x7d" := by
    unfold IsClean
    decide +kernel
  have hbehind : IsClean .script "x;" := by
    unfold IsClean
    decide +kernel
  obtain ⟨hclean, hwhole, -, hpiece⟩ := run_joined 1 (start none) hbefore hbehind
  refine ⟨hbefore, hbehind, hclean, ?_, ?_⟩
  · rw [hpiece]
    decide +kernel
  · rw [hwhole]
    decide +kernel

end Scriptlet.Session
