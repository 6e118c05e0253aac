import Scriptlet.Proofs.Grammar.Provenance
import Scriptlet.Proofs.Session.Piecewise
import Scriptlet.Proofs.Token.LongestMatch

namespace Scriptlet

namespace Segment

private theorem line_of_mem_withLines {line : Nat} {ss : List Segment} {p : Segment × Nat}
    (h : p ∈ withLines line ss) :
    line ≤ p.2 ∧ p.2 ≤ line + (ss.flatMap Segment.text).count '\n' := by
  induction ss generalizing line with
  | nil => cases h
  | cons s ss ih =>
    have hcount : ((s :: ss).flatMap Segment.text).count '\n' =
        s.lineEnds + (ss.flatMap Segment.text).count '\n' := by
      rw [List.flatMap_cons, List.count_append, lineEnds]
    rw [hcount]
    rcases List.mem_cons.1 h with rfl | h
    · dsimp only
      omega
    · have hrest := ih h
      omega

end Segment

namespace Scan

open Segment

/-- The line on which a text ends. -/
def lastLine (source : String) : Nat := 1 + source.toList.count '\n'

/-- The line is one of the text. -/
def HasLine (source : String) (line : Nat) : Prop := 1 ≤ line ∧ line ≤ lastLine source

private theorem hasLine_of_mem_withLines {source : String} {p : Segment × Nat}
    (h : p ∈ withLines 1 (Segment.ofText source.toList)) : HasLine source p.2 := by
  have hline := line_of_mem_withLines h
  rw [(segmentation_ofText source.toList).flatMap_text] at hline
  exact hline

private theorem mem_eof (source : String) : eof (lastLine source) ∈ (ofText source).tokens :=
  List.mem_append_right _ (List.mem_singleton_self _)

private theorem hasLine_of_mem_tokens {source : String} {t : Token}
    (h : t ∈ (ofText source).tokens) :
    HasLine source t.line := by
  rcases List.mem_append.1 h with h | h
  · obtain ⟨⟨⟨kind, text⟩, line⟩, hp, htoken⟩ := List.mem_filterMap.1 h
    have hline := hasLine_of_mem_withLines hp
    cases kind with
    | token kind literal =>
      cases htoken
      exact hline
    | _ => cases htoken
  · rw [List.mem_singleton.1 h]
    exact ⟨Nat.le_add_right 1 _, Nat.le_refl _⟩

/-- What is found wrong while scanning is lexical, and on a line of the text. -/
theorem exists_lexical_of_mem_errors {source : String} {d : Diagnostic}
    (h : d ∈ (ofText source).errors) :
    ∃ line message, d = .lexical line message ∧ HasLine source line := by
  obtain ⟨⟨⟨kind, text⟩, line⟩, hp, herror⟩ := List.mem_filterMap.1 h
  have hline := hasLine_of_mem_withLines hp
  cases kind with
  | unterminated =>
    cases herror
    exact ⟨_, _, rfl, hline⟩
  | unexpected =>
    cases herror
    exact ⟨_, _, rfl, hline⟩
  | _ => cases herror

private theorem lineOfEnd_tokens (source : String) :
    Grammar.lineOfEnd (ofText source).tokens = lastLine source := by
  have hnone : (ofText source).tokens.dropLast.find? (·.kind == .eof) = none := by
    rw [List.find?_eq_none]
    intro t ht
    simpa using kind_ne_eof source.toList t ht
  have hfind : (ofText source).tokens.find? (·.kind == .eof) = some (eof (lastLine source)) := by
    rw [ofText, tokens_eq, List.find?_append, ← ofText, hnone]
    rfl
  rw [Grammar.lineOfEnd, hfind]
  rfl

end Scan

/-- Where a diagnostic on a text may point: at a token before the end, at the end, or just at a line,
which is that of a token unless the diagnostic is lexical. -/
inductive Diagnostic.PointsInto (source : String) : Diagnostic → Prop where
  | lexical {line : Nat} {message : String} (h : Scan.HasLine source line) :
    PointsInto source (.lexical line message)
  | token {t : Token} {message : String} (h : t ∈ (Scan.ofText source).tokens) (hkind : t.kind ≠ .eof) :
    PointsInto source (.syntactic t.line (.lexeme t.lexeme) message)
  | atEnd {line : Nat} {message : String} (h : Scan.eof line ∈ (Scan.ofText source).tokens) :
    PointsInto source (.syntactic line .atEnd message)
  | runtime {t : Token} {message : String} (h : t ∈ (Scan.ofText source).tokens)
    (hkind : t.kind ≠ .eof) : PointsInto source (.runtime t.line message)

private theorem Diagnostic.PointsInto.hasLine {source : String} {d : Diagnostic}
    (h : d.PointsInto source) :
    Scan.HasLine source d.line := by
  cases h with
  | lexical h => exact h
  | token h _ => exact Scan.hasLine_of_mem_tokens h
  | atEnd h => exact Scan.hasLine_of_mem_tokens h
  | runtime h _ => exact Scan.hasLine_of_mem_tokens h

namespace Session

private theorem start_renumber (g : Nat → Nat) (limit : Option Nat) :
    (start limit).renumber g = start limit := by
  have hstore := Store.openScope_renumber g .empty []
  have hempty : Store.empty.renumber g = Store.empty := by simp [Store.renumber, Store.empty]
  rw [hempty] at hstore
  rw [start, Machine.renumber, ← (Prod.mk.inj hstore).2]
  rfl

/-- A program on a new machine fails on the line of one of its tokens. -/
theorem exists_token_of_error {bound : Nat} {interactive : Bool} {tokens : List Token}
    {limit : Option Nat} {e : RuntimeError} {m : Machine}
    (h : executeTop bound .normal (Program.ofTokens interactive tokens).statements (start limit) =
      .error e m) : ∃ t ∈ Grammar.input tokens, t.line = e.token.line := by
  -- This moves just the lines without tokens, so it leaves the program as it is.
  let g (line : Nat) : Nat := if ∃ t ∈ Grammar.input tokens, t.line = line then line else line + 1
  have htokens : ∀ t ∈ Grammar.input tokens, t.renumber g = t := by
    intro t ht
    have hline : g t.line = t.line := if_pos ⟨t, ht, rfl⟩
    rw [Token.renumber, hline]
  have hprogram : ∀ st ∈ (Program.ofTokens interactive tokens).statements, st.renumber g = st :=
    (Grammar.treeProperty_renumber g).declarations rfl (.ofTokens interactive tokens) htokens
  have hrun := renumbers_executeTop g bound .normal
    (Program.ofTokens interactive tokens).statements (start limit)
  rw [start_renumber, Stmt.renumberAll_eq_map, Grammar.map_eq_self hprogram] at hrun
  rw [show Flow.normal.renumber g = .normal from rfl, h, Outcome.renumber, Outcome.error.injEq] at hrun
  have hline : e.token.line = g e.token.line := by
    conv => lhs; rw [hrun.1]
    rfl
  by_contra hnone
  rw [show g e.token.line = e.token.line + 1 from if_neg hnone] at hline
  omega

private theorem pointsInto_sourceReport {mode : Mode} {source : String} {d : Diagnostic}
    (hd : d ∈ sourceReport mode source) : d.PointsInto source := by
  rw [sourceReport, staticReport] at hd
  rcases List.mem_append.1 hd with hd | hd
  · obtain ⟨line, message, rfl, hline⟩ := Scan.exists_lexical_of_mem_errors hd
    exact .lexical hline
  rcases List.mem_append.1 hd with hd | hd
  · obtain ⟨e, he, rfl⟩ := List.mem_map.1 hd
    rcases Program.shows_errors _ _ e he with ⟨t, ht, hkind, htoken⟩ | hend
    · rw [htoken]
      exact .token ht hkind
    · rw [hend, Scan.lineOfEnd_tokens]
      exact .atEnd (Scan.mem_eof source)
  · obtain ⟨t, ht, rfl⟩ := List.mem_map.1 hd
    have hmem := Program.tokens_ofTokens _ _ (Stmt.exposedReturnsOf_subset _ ht)
    exact .token (Grammar.input_subset _ hmem) (Grammar.kind_ne_eof_of_mem_input hmem)

/-- Every diagnostic of a run on a new machine points at a token of the text or at its end, with the
line of that, and no tree holds a token that was not given. -/
theorem diagnostics_point_into_text :
    (∀ bound mode source limit r, run bound mode source (start limit) = some r →
      ∀ d ∈ r.report, d.PointsInto source ∧ 1 ≤ d.line ∧ d.line ≤ 1 + source.toList.count '\n') ∧
    ∀ interactive tokens, Stmt.tokensOf (Program.ofTokens interactive tokens).statements ⊆ tokens := by
  refine ⟨?_, fun interactive tokens =>
    List.Subset.trans (Program.tokens_ofTokens interactive tokens) (Grammar.input_subset tokens)⟩
  intro bound mode source limit r hrun d hd
  have hpoints : d.PointsInto source := by
    by_cases hsource : sourceReport mode source = []
    · rw [run_of_clean hsource] at hrun
      rcases finish_cases hrun with ⟨e, herror, hreport⟩ | ⟨-, -, -, hreport, -⟩
      · obtain ⟨t, ht, hline⟩ := exists_token_of_error herror
        have hdiagnostic : d = .runtime t.line e.message := by
          rw [hreport] at hd
          rw [hline]
          exact List.mem_singleton.1 hd
        rw [hdiagnostic]
        exact .runtime (Grammar.input_subset _ ht) (Grammar.kind_ne_eof_of_mem_input ht)
      · rw [hreport] at hd
        cases hd
    · rw [run_of_static hsource, Option.some.injEq] at hrun
      rw [← hrun] at hd
      exact pointsInto_sourceReport hd
  exact ⟨hpoints, hpoints.hasLine⟩

/-- The call on the last line fails where the function was written, on the second one. -/
theorem diagnostics_point_into_function :
    let source := "fun f() \x7b\n  return x;\n\x7d\n\nf();"
    ∃ r, run 2 .script source (start none) = some r ∧
      r.report = [.runtime 2 "Undefined variable 'x'."] ∧ Scan.lastLine source = 5 ∧
      (∀ d ∈ r.report, d.PointsInto source ∧ 1 ≤ d.line ∧ d.line ≤ 5) := by
  intro source
  have hreport : (run 2 .script source (start none)).map RunResult.report =
      some [.runtime 2 "Undefined variable 'x'."] := by decide +kernel
  have hlast : Scan.lastLine source = 5 := by decide +kernel
  obtain ⟨r, hrun, hr⟩ := Option.map_eq_some_iff.1 hreport
  have hpoints := diagnostics_point_into_text.1 2 .script source none r hrun
  rw [show 1 + source.toList.count '\n' = 5 from hlast] at hpoints
  exact ⟨r, hrun, hr, hlast, hpoints⟩

end Session

end Scriptlet
