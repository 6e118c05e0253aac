import Scriptlet.Proofs.Grammar.Accounting
import Scriptlet.Proofs.Grammar.Tally
import Scriptlet.Proofs.Grammar.TapeCalls

namespace Scriptlet

open Grammar

/-- Reported for the order of the tokens. -/
def Diagnostic.isSyntactic : Diagnostic → Bool
  | syntactic .. => true
  | lexical .. | runtime .. => false

private theorem Program.countP_report (p : Program) :
    p.report.countP Diagnostic.isSyntactic = p.errors.length := by
  have hall : ∀ d ∈ p.report, d.isSyntactic = true := by
    intro d hd
    obtain ⟨e, _, rfl⟩ := List.mem_map.1 hd
    rfl
  rw [List.countP_eq_length.2 hall, Program.report, List.length_map]

namespace Tape

/-- The index goes to the end, and what is noted is what is wrong with the program. -/
theorem program_ofTokens (interactive : Bool) (tokens : List Token) {n : Nat}
    (hn : 4 * (input tokens).length + 4 ≤ n) :
    (ofTokens interactive tokens).program Walker n 0 =
      .done (Program.ofTokens interactive tokens).statements (input tokens).length
        (Program.ofTokens interactive tokens).errors := by
  have hwalk : ((ofTokens interactive tokens).program Walker n 0).Follows (input tokens)
      (Program.ofTokens interactive tokens).reply :=
    (holds_ofTokens interactive tokens).program (Nat.zero_le _) hn
  exact hwalk.unique (.done (Nat.le_refl _) List.drop_length)

private theorem journal_ofTokens (interactive : Bool) (tokens : List Token) {n : Nat}
    (hn : 4 * (input tokens).length + 4 ≤ n) :
    ∃ journal, (ofTokens interactive tokens).program Scribe n 0 [] =
        .done (Program.ofTokens interactive tokens).statements (input tokens).length journal ∧
      journal.report = (Program.ofTokens interactive tokens).report ∧ journal.Accounted := by
  have htells := tells_program (ofTokens interactive tokens) n 0 []
  rw [program_ofTokens interactive tokens hn] at htells
  generalize (ofTokens interactive tokens).program Scribe n 0 [] = result at htells
  cases htells with
  | done h => exact ⟨_, rfl, h.report, h.accounted⟩

end Tape

/-- Nothing is reported if and only if nothing is broken or too long, there are no more broken
statements than reports, and each failure of a part is reported once, as the last thing. -/
theorem failures_reported (interactive : Bool) (tokens : List Token) :
    let p := Program.ofTokens interactive tokens
    let tape := Tape.ofTokens interactive tokens
    (p.report = [] ↔ ∀ st ∈ p.statements, st.Whole ∧ st.Limited) ∧
    Stmt.brokensOf p.statements ≤ p.report.countP Diagnostic.isSyntactic ∧
    (∀ n, 4 * tape.firstEnd + 4 ≤ n → ∃ journal,
      tape.program Scribe n 0 [] = .done p.statements tape.firstEnd journal ∧
      journal.report = p.report ∧ journal.Accounted) ∧
    ∀ (part : Tape.Part) (n i : Nat) (before : Journal),
      (part.scribe tape n i before).Accounts before := by
  intro p tape
  have hcovers : Covers (Stmt.flawsOf p.statements) p.errors.length := covers_declarations _ _
  refine ⟨?_, ?_, ?_, fun part n => part.accounts tape n⟩
  · rw [← Stmt.flawsOf_eq_zero_iff, Program.report, List.map_eq_nil_iff,
      ← List.length_eq_zero_iff]
    constructor
    · intro hnone
      exact Nat.eq_zero_of_le_zero (hnone ▸ hcovers.le)
    · exact hcovers.none
  · rw [p.countP_report]
    exact Nat.le_trans (Stmt.brokensOf_le_flawsOf _) hcovers.le
  · intro n hn
    rw [(Tape.holds_ofTokens interactive tokens).firstEnd_eq] at hn ⊢
    exact Tape.journal_ofTokens interactive tokens hn

end Scriptlet
