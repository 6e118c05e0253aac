import Scriptlet.Proofs.Grammar.RenumberedProgram
import Scriptlet.Proofs.Session.Piecewise

namespace Scriptlet

open List (Forall₂)

/-- Puts everything on the first line. -/
def unlined : Nat → Nat := fun _ => 1

structure Token.Alike (t t' : Token) : Prop where
  kind : t.kind = t'.kind
  lexeme : t.lexeme = t'.lexeme
  literal : t.literal = t'.literal

inductive Diagnostic.Alike : Diagnostic → Diagnostic → Prop where
  | lexical {n n' : Nat} {message : String} : Alike (.lexical n message) (.lexical n' message)
  | syntactic {n n' : Nat} {place : Place} {message : String} :
    Alike (.syntactic n place message) (.syntactic n' place message)
  | runtime {n n' : Nat} {message : String} : Alike (.runtime n message) (.runtime n' message)

/-- The scopes bind the same names to the same values, but for the lines in the declarations of
functions. -/
structure Machine.Alike (m m' : Machine) : Prop where
  store : m.store.renumber unlined = m'.store.renumber unlined
  output : m.output = m'.output
  scope : m.scope = m'.scope

structure RunResult.Alike (r r' : RunResult) : Prop where
  report : Forall₂ Diagnostic.Alike r.report r'.report
  echoFailure : r.echoFailure = r'.echoFailure
  machine : r.machine.Alike r'.machine

private theorem Token.alike_iff {t t' : Token} :
    t.Alike t' ↔ t.renumber unlined = t'.renumber unlined := by
  obtain ⟨kind, lexeme, literal, line⟩ := t
  obtain ⟨kind', lexeme', literal', line'⟩ := t'
  simp only [renumber, unlined, mk.injEq, and_true]
  exact ⟨fun h => ⟨h.kind, h.lexeme, h.literal⟩, fun h => ⟨h.1, h.2.1, h.2.2⟩⟩

private theorem Diagnostic.alike_iff {d d' : Diagnostic} :
    d.Alike d' ↔ d.renumber unlined = d'.renumber unlined := by
  constructor
  · intro h
    cases h <;> rfl
  · intro h
    cases d <;> cases d' <;> cases h
    · exact .lexical
    · exact .syntactic
    · exact .runtime

private theorem Machine.alike_iff {m m' : Machine} :
    m.Alike m' ↔ m.renumber unlined = m'.renumber unlined := by
  obtain ⟨store, output, scope⟩ := m
  obtain ⟨store', output', scope'⟩ := m'
  rw [renumber, renumber, mk.injEq]
  exact ⟨fun h => ⟨h.store, h.output, h.scope⟩, fun h => ⟨h.1, h.2.1, h.2.2⟩⟩

theorem Machine.Alike.refl (m : Machine) : m.Alike m := ⟨rfl, rfl, rfl⟩

/-- Where `f` is the same for related entries only, lists of related entries are the same behind it. -/
theorem forall₂_iff_map_eq {α β : Type} {R : α → α → Prop} {f : α → β}
    (h : ∀ a a', R a a' ↔ f a = f a') {as as' : List α} :
    Forall₂ R as as' ↔ as.map f = as'.map f := by
  induction as generalizing as' with
  | nil => simp [eq_comm]
  | cons a as ih => cases as' <;> simp [h, ih]

private theorem Token.forall₂_alike_iff {ts ts' : List Token} :
    Forall₂ Alike ts ts' ↔ ts.map (renumber unlined) = ts'.map (renumber unlined) :=
  forall₂_iff_map_eq fun t t' => by exact alike_iff

private theorem Report.forall₂_alike_iff {r r' : Report} :
    Forall₂ Diagnostic.Alike r r' ↔
      r.map (Diagnostic.renumber unlined) = r'.map (Diagnostic.renumber unlined) :=
  forall₂_iff_map_eq fun d d' => by exact Diagnostic.alike_iff

private theorem RunResult.alike_iff {r r' : RunResult} :
    r.Alike r' ↔ r.renumber unlined = r'.renumber unlined := by
  obtain ⟨report, echoFailure, machine⟩ := r
  obtain ⟨report', echoFailure', machine'⟩ := r'
  simp only [renumber, mk.injEq, ← Report.forall₂_alike_iff, ← Machine.alike_iff]
  exact ⟨fun h => ⟨h.report, h.echoFailure, h.machine⟩, fun h => ⟨h.1, h.2.1, h.2.2⟩⟩

namespace Report

private theorem hasStatic_renumber (g : Nat → Nat) (r : Report) :
    hasStatic (r.map (Diagnostic.renumber g)) = r.hasStatic := by
  have hstatic : Diagnostic.isStatic ∘ Diagnostic.renumber g = Diagnostic.isStatic := by
    funext d
    cases d <;> rfl
  rw [hasStatic, List.any_map, hstatic, hasStatic]

end Report

namespace Session

private theorem echo?_renumber (g : Nat → Nat) (mode : Mode) (flow : Flow) :
    echo? mode (flow.renumber g) = echo? mode flow := by
  have hnil (v : Value) : (v.renumber g).isNil = v.isNil := by cases v <;> rfl
  cases flow with
  | value v => simp only [Flow.renumber, echo?, hnil, Value.text_renumber]
  | normal => rfl
  | ret v => rfl

private theorem finish_renumber (g : Nat → Nat) (mode : Mode) (report : Report) (o : Outcome Flow) :
    finish mode (report.map (Diagnostic.renumber g)) (o.renumber g (Flow.renumber g)) =
      (finish mode report o).map (RunResult.renumber g) := by
  cases o with
  | unfinished => rfl
  | error e m =>
    simp only [Outcome.renumber, finish, Option.map_some, RunResult.renumber, List.map_append]
    rfl
  | done flow m =>
    have houtput : (m.renumber g).output = m.output := rfl
    simp only [Outcome.renumber, finish, echo?_renumber, houtput]
    cases echo? mode flow with
    | none => rfl
    | some text =>
      dsimp only
      generalize m.output.write text = w
      obtain ⟨output, whole⟩ := w
      cases whole <;> rfl

private theorem interpret_renumber (g : Nat → Nat) (bound : Nat) (mode : Mode) (ss : List Stmt)
    (report : Report) (m : Machine) :
    interpret bound mode (Stmt.renumberAll g ss) (report.map (Diagnostic.renumber g)) (m.renumber g) =
      (interpret bound mode ss report m).map (RunResult.renumber g) := by
  have hstatic := Report.hasStatic_renumber g report
  cases h : report.hasStatic with
  | true =>
    rw [interpret_of_static (hstatic.trans h), interpret_of_static h]
    rfl
  | false =>
    have hrun := renumbers_executeTop g bound .normal ss { m with scope := globals }
    rw [interpret_of_clean (hstatic.trans h), interpret_of_clean h, ← finish_renumber, ← hrun]
    rfl

/-- The line of the end of no tokens at all is not read off a token, so it has to keep its number. -/
theorem runTokens_renumber {g : Nat → Nat} (hg : g 1 = 1) (bound : Nat) (mode : Mode)
    (tokens : List Token) (report : Report) (m : Machine) :
    runTokens bound mode (tokens.map (Token.renumber g)) (report.map (Diagnostic.renumber g))
        (m.renumber g) =
      (runTokens bound mode tokens report m).map (RunResult.renumber g) := by
  have hprogram := Program.ofTokens_renumber hg mode.isInteractive tokens
  have hstatic : staticReport mode (tokens.map (Token.renumber g)) =
      (staticReport mode tokens).map (Diagnostic.renumber g) := by
    simp only [staticReport, hprogram, Program.report_renumber, List.map_append]
    exact congrArg _ (checkReturns_renumber g _)
  rw [runTokens_eq, runTokens_eq, hprogram, hstatic, ← List.map_append]
  exact interpret_renumber g bound mode _ _ m

/-- Alike tokens are run alike, and none of the two runs ends without the other. -/
theorem alike_runTokens (bound : Nat) (mode : Mode) {tokens tokens' : List Token}
    {report report' : Report} {m m' : Machine} (htokens : Forall₂ Token.Alike tokens tokens')
    (hreport : Forall₂ Diagnostic.Alike report report') (hm : m.Alike m') :
    Option.Rel RunResult.Alike (runTokens bound mode tokens report m)
      (runTokens bound mode tokens' report' m') := by
  rw [Token.forall₂_alike_iff] at htokens
  rw [Report.forall₂_alike_iff] at hreport
  have hone : unlined 1 = 1 := rfl
  -- With every line made line 1 both runs are the same run.
  have hrun := runTokens_renumber hone bound mode tokens report m
  have hrun' := runTokens_renumber hone bound mode tokens' report' m'
  rw [← htokens, ← hreport, ← Machine.alike_iff.1 hm, hrun] at hrun'
  cases hr : runTokens bound mode tokens report m with
  | none =>
    rw [hr] at hrun'
    rw [Option.map_eq_none_iff.1 hrun'.symm]
    exact .none
  | some r =>
    rw [hr] at hrun'
    obtain ⟨r', hr', halike⟩ := Option.map_eq_some_iff.1 hrun'.symm
    rw [hr']
    exact .some (RunResult.alike_iff.2 halike.symm)

/-- A run of tokens in a session, with the report on the text that they come from. -/
structure TokenTurn where
  bound : Nat
  mode : Mode
  tokens : List Token
  report : Report

namespace TokenTurn

def run (t : TokenTurn) (m : Machine) : Option RunResult :=
  runTokens t.bound t.mode t.tokens t.report m

structure Alike (t t' : TokenTurn) : Prop where
  bound : t.bound = t'.bound
  mode : t.mode = t'.mode
  tokens : Forall₂ Token.Alike t.tokens t'.tokens
  report : Forall₂ Diagnostic.Alike t.report t'.report

theorem Alike.run {t t' : TokenTurn} {m m' : Machine} (h : t.Alike t') (hm : m.Alike m') :
    Option.Rel RunResult.Alike (t.run m) (t'.run m') := by
  rw [TokenTurn.run, TokenTurn.run, h.bound, h.mode]
  exact alike_runTokens t'.bound t'.mode h.tokens h.report hm

/-- The results of the runs in order, and the machine that the last of them leaves. There are none if
a run does not end. -/
def runAll : List TokenTurn → Machine → Option (List RunResult × Machine)
  | [], m => some ([], m)
  | t :: ts, m => (t.run m).bind fun r => (runAll ts r.machine).map fun (rs, last) => (r :: rs, last)

/-- Each run leaves alike machines for the next one. -/
theorem alike_runAll {turns turns' : List TokenTurn} {m m' : Machine}
    (hturns : Forall₂ Alike turns turns') (hm : m.Alike m') :
    Option.Rel (fun s s' => Forall₂ RunResult.Alike s.1 s'.1 ∧ s.2.Alike s'.2) (runAll turns m)
      (runAll turns' m') := by
  induction hturns generalizing m m' with
  | nil => exact .some ⟨.nil, hm⟩
  | @cons t t' turns turns' ht _ ih =>
    have hfirst := ht.run hm
    rw [runAll, runAll]
    generalize t.run m = r, t'.run m' = r' at hfirst
    cases hfirst with
    | none => exact .none
    | @some r r' hr =>
      have hrest := ih hr.machine
      rw [Option.bind_some, Option.bind_some]
      generalize runAll turns r.machine = s, runAll turns' r'.machine = s' at hrest
      cases hrest with
      | none => exact .none
      | some hs => exact .some ⟨.cons hr hs.1, hs.2⟩

end TokenTurn

/-- The segments of a text that are not layout. -/
def besideLayout (source : String) : List Segment :=
  (Segment.ofText source.toList).filter fun s => !s.isLayout

private theorem map_fst_withLines (line : Nat) (ss : List Segment) :
    (Segment.withLines line ss).map Prod.fst = ss := by
  induction ss generalizing line with
  | nil => rfl
  | cons s ss ih => rw [Segment.withLines, List.map_cons, ih]

theorem map_fst_visible (line : Nat) (source : String) :
    (Segment.visible line source.toList).map Prod.fst = besideLayout source := by
  rw [besideLayout, ← map_fst_withLines line (Segment.ofText source.toList), List.filter_map]
  rfl

/-- A line end between two texts adds nothing but layout. -/
theorem besideLayout_append {before : String} (behind : String)
    (h : (Scan.ofText before).errors = []) :
    besideLayout (before ++ "\n" ++ behind) = besideLayout before ++ besideLayout behind := by
  have htext : (before ++ "\n" ++ behind).toList = before.toList ++ '\n' :: behind.toList := by
    simp
  rw [← map_fst_visible 1, htext, Segment.visible_append 1 _ (Scan.terminated_of_errors h),
    List.map_append, map_fst_visible, map_fst_visible]

/-- The lines of segments are all that their layout decides about. -/
theorem alike_scan {source source' : String} (h : besideLayout source = besideLayout source') :
    Forall₂ Token.Alike (Scan.ofText source).tokens (Scan.ofText source').tokens ∧
      Forall₂ Diagnostic.Alike (Scan.ofText source).errors (Scan.ofText source').errors := by
  have hsegments : Forall₂ (fun a b => a.1 = b.1) (Segment.visible 1 source.toList)
      (Segment.visible 1 source'.toList) := by
    rw [forall₂_iff_map_eq (f := Prod.fst) fun _ _ => Iff.rfl, map_fst_visible, map_fst_visible, h]
  have htoken : ∀ a b : Segment × Nat, a.1 = b.1 →
      Option.Rel Token.Alike (Segment.token? a) (Segment.token? b) := by
    rintro ⟨⟨kind, text⟩, line⟩ ⟨_, line'⟩ rfl
    cases kind with
    | token kind literal => exact .some ⟨rfl, rfl, rfl⟩
    | _ => exact .none
  have herror : ∀ a b : Segment × Nat, a.1 = b.1 →
      Option.Rel Diagnostic.Alike (Segment.error? a) (Segment.error? b) := by
    rintro ⟨⟨kind, text⟩, line⟩ ⟨_, line'⟩ rfl
    cases kind with
    | unterminated => exact .some .lexical
    | unexpected => exact .some .lexical
    | _ => exact .none
  constructor
  · rw [Scan.ofText, Scan.ofText, Scan.tokens_eq, Scan.tokens_eq source'.toList, Scan.dropLast_tokens,
      Scan.dropLast_tokens]
    exact List.rel_append (List.rel_filterMap htoken hsegments) (.cons ⟨rfl, rfl, rfl⟩ .nil)
  · rw [Scan.ofText, Scan.ofText, Scan.errors_eq, Scan.errors_eq]
    exact List.rel_filterMap herror hsegments

/-- Tokens that differ in lines only are run alike, and so are further ones after them. So are two
texts in which the same is written between the blanks and comments. -/
theorem layout_does_not_matter :
    (∀ bound mode tokens tokens' report report' m m', Forall₂ Token.Alike tokens tokens' →
      Forall₂ Diagnostic.Alike report report' → m.Alike m' →
      Option.Rel RunResult.Alike (runTokens bound mode tokens report m)
        (runTokens bound mode tokens' report' m')) ∧
    (∀ turns turns' m m', Forall₂ TokenTurn.Alike turns turns' → m.Alike m' →
      Option.Rel (fun s s' => Forall₂ RunResult.Alike s.1 s'.1 ∧ s.2.Alike s'.2)
        (TokenTurn.runAll turns m) (TokenTurn.runAll turns' m')) ∧
    (∀ bound mode source source' m m', (Scan.ofText source).errors = [] →
      (Scan.ofText source').errors = [] →
      Forall₂ Token.Alike (Scan.ofText source).tokens (Scan.ofText source').tokens → m.Alike m' →
      Option.Rel RunResult.Alike (run bound mode source m) (run bound mode source' m')) ∧
    ∀ bound mode source source' m m', besideLayout source = besideLayout source' → m.Alike m' →
      Option.Rel RunResult.Alike (run bound mode source m) (run bound mode source' m') := by
  refine ⟨?_, ?_, ?_, ?_⟩
  · intro bound mode tokens tokens' report report' m m' htokens hreport hm
    exact alike_runTokens bound mode htokens hreport hm
  · intro turns turns' m m' hturns hm
    exact TokenTurn.alike_runAll hturns hm
  · intro bound mode source source' m m' hfine hfine' htokens hm
    rw [run, run, hfine, hfine']
    exact alike_runTokens bound mode htokens .nil hm
  · intro bound mode source source' m m' hsource hm
    obtain ⟨htokens, herrors⟩ := alike_scan hsource
    exact alike_runTokens bound mode htokens herrors hm

/-- The two functions carry their own lines into the second run, which fails at them. -/
theorem layout_moves_failure :
    let source := "fun f() \x7b" ++ "\n" ++ "return x; \x7d f();"
    let source' := "fun f() \x7b" ++ "\n" ++ ("// Nothing" ++ "\n" ++ "return x; \x7d f();")
    let turns (source : String) : List TokenTurn :=
      [⟨2, .script, (Scan.ofText source).tokens, []⟩, ⟨2, .interactive, (Scan.ofText "f()").tokens, []⟩]
    let reports (source : String) :=
      (TokenTurn.runAll (turns source) (start none)).map fun s => s.1.map RunResult.report
    let failure (line : Nat) : Report := [.runtime line "Undefined variable 'x'."]
    besideLayout source = besideLayout source' ∧
      Option.Rel RunResult.Alike (run 2 .script source (start none))
        (run 2 .script source' (start none)) ∧
      Option.Rel (fun s s' => Forall₂ RunResult.Alike s.1 s'.1 ∧ s.2.Alike s'.2)
        (TokenTurn.runAll (turns source) (start none))
        (TokenTurn.runAll (turns source') (start none)) ∧
      reports source = some [failure 2, failure 2] ∧
      reports source' = some [failure 3, failure 3] := by
  intro source source' turns reports failure
  obtain ⟨-, hturns, -, htexts⟩ := layout_does_not_matter
  have hcomment : besideLayout "// Nothing" = [] := List.isEmpty_iff.1 (by decide +kernel)
  have hsource : besideLayout source = besideLayout source' := by
    have hopened : (Scan.ofText "fun f() \x7b").errors = [] := by decide +kernel
    have hnothing : (Scan.ofText "// Nothing").errors = [] := by decide +kernel
    rw [besideLayout_append _ hopened, besideLayout_append _ hopened, besideLayout_append _ hnothing,
      hcomment, List.nil_append]
  have hsame (ts : List Token) : Forall₂ Token.Alike ts ts := Token.forall₂_alike_iff.2 rfl
  refine ⟨hsource, htexts _ _ _ _ _ _ hsource (.refl _), hturns _ _ _ _ ?_ (.refl _), ?_, ?_⟩
  · exact .cons ⟨rfl, rfl, (alike_scan hsource).1, .nil⟩ (.cons ⟨rfl, rfl, hsame _, .nil⟩ .nil)
  · decide +kernel
  · decide +kernel

end Session

end Scriptlet
