import Scriptlet.Proofs.Grammar.Correspondence
import Scriptlet.Proofs.Renumber

namespace Scriptlet

def ParseError.renumber (g : Nat → Nat) (e : ParseError) : ParseError := { e with line := g e.line }

def Program.renumber (g : Nat → Nat) (p : Program) : Program :=
  ⟨Stmt.renumberAll g p.statements, p.errors.map (ParseError.renumber g)⟩

theorem Program.report_renumber (g : Nat → Nat) (p : Program) :
    (p.renumber g).report = p.report.map (Diagnostic.renumber g) := by
  simp only [report, Program.renumber, List.map_map]
  rfl

theorem checkReturns_renumber (g : Nat → Nat) (ss : List Stmt) :
    checkReturns (Stmt.renumberAll g ss) = (checkReturns ss).map (Diagnostic.renumber g) := by
  rw [checkReturns, Stmt.exposedReturnsOf_renumber, checkReturns, List.map_map, List.map_map]
  rfl

namespace Grammar

open List (Forall₂)

private theorem forall₂_eq_map_iff {α β : Type} {f : α → β} {as : List α} {bs : List β} :
    Forall₂ (fun a b => b = f a) as bs ↔ bs = as.map f := by
  induction as generalizing bs with
  | nil => simp
  | cons a as ih => simp [List.forall₂_cons_left_iff, ih]

private theorem optionRel_eq_map_iff {α β : Type} {f : α → β} {a : Option α} {b : Option β} :
    Option.Rel (fun a b => b = f a) a b ↔ b = a.map f := by
  constructor
  · intro h
    cases h with
    | none => rfl
    | some h => rw [h, Option.map_some]
  · rintro rfl
    cases a with
    | none => exact .none
    | some a => exact .some rfl

/-- Lines play no part in the making of a tree. -/
theorem correspondence_renumber (g : Nat → Nat) :
    Correspondence (fun t t' => t' = t.renumber g) (fun e e' => e' = e.renumber g)
      (fun st st' => st' = st.renumber g) where
  kind := by
    rintro t _ rfl
    rfl
  carries := by
    rintro t _ rfl
    rfl
  isName := by
    rintro e _ rfl
    cases e <;> rfl
  literal _ := rfl
  name := by
    rintro t _ rfl
    rfl
  assign := by
    rintro t t' e _ ht rfl
    cases ht
    rfl
  group := by
    rintro e _ rfl
    rfl
  unary := by
    rintro op _ e _ rfl rfl
    rfl
  step := by
    rintro op _ t t' rfl ht
    cases ht
    rfl
  binary := by
    rintro op _ l _ r _ rfl rfl rfl
    rfl
  logical := by
    rintro op _ l _ r _ rfl rfl rfl
    rfl
  call := by
    rintro paren _ f _ args args' rfl rfl hargs
    rw [Expr.renumber, Expr.renumberAll_eq_map, forall₂_eq_map_iff.1 hargs]
  expression := by
    rintro e _ rfl
    rfl
  print := by
    rintro k _ e _ rfl rfl
    rfl
  var := by
    rintro t _ init init' rfl hinit
    rw [Stmt.renumber, optionRel_eq_map_iff.1 hinit]
  ret := by
    rintro k _ value value' rfl hvalue
    rw [Stmt.renumber, optionRel_eq_map_iff.1 hvalue]
  block := by
    rintro body body' hbody
    rw [Stmt.renumber, Stmt.renumberAll_eq_map, forall₂_eq_map_iff.1 hbody]
  ifThen := by
    rintro c _ yes _ rfl rfl
    rfl
  ifElse := by
    rintro c _ yes _ no _ rfl rfl rfl
    rfl
  loop := by
    rintro c _ body _ rfl rfl
    rfl
  function := by
    rintro t _ params params' body body' rfl hparams hbody
    rw [Stmt.renumber, Stmt.renumberAll_eq_map, forall₂_eq_map_iff.1 hparams,
      forall₂_eq_map_iff.1 hbody]
  broken := rfl

/-- Without any token the end is on line 1, so that line has to keep its number. -/
theorem lineOfEnd_renumber {g : Nat → Nat} (hg : g 1 = 1) (tokens : List Token) :
    lineOfEnd (tokens.map (Token.renumber g)) = g (lineOfEnd tokens) := by
  have hfind : (tokens.map (Token.renumber g)).find? (·.kind == .eof) =
      (tokens.find? (·.kind == .eof)).map (Token.renumber g) := by
    rw [List.find?_map]
    rfl
  unfold lineOfEnd
  rw [hfind, List.getLast?_map]
  cases tokens.find? (·.kind == .eof) with
  | some t => rfl
  | none =>
    cases tokens.getLast? with
    | some t => rfl
    | none => exact hg.symm

private theorem eq_renumber_of_faults {g : Nat → Nat} {s s' : Setting}
    (hs : s'.endLine = g s.endLine)
    {e e' : ParseError} (h : Faults (fun t t' => t' = t.renumber g) s s' e e') :
    e' = e.renumber g := by
  cases h with
  | token fault ht =>
    rw [ht]
    rfl
  | atEnd fault =>
    rw [hs]
    rfl

end Grammar

open Grammar

theorem Program.ofTokens_renumber {g : Nat → Nat} (hg : g 1 = 1) (interactive : Bool)
    (tokens : List Token) :
    ofTokens interactive (tokens.map (Token.renumber g)) = (ofTokens interactive tokens).renumber g := by
  have h := correspondence_renumber g
  have hinput := forall₂_input h (forall₂_eq_map_iff.2 (rfl : tokens.map (Token.renumber g) = _))
  have hend := lineOfEnd_renumber hg tokens
  have hprograms : ProgramsCorrespond _ _ (.ofTokens interactive tokens)
      (.ofTokens interactive (tokens.map (Token.renumber g))) _ _ :=
    programs_correspond h rfl hinput
  obtain ⟨hstatements, herrors⟩ := hprograms
  have hmapped := forall₂_eq_map_iff.1 (herrors.imp fun _ _ he => eq_renumber_of_faults hend he)
  rw [forall₂_eq_map_iff] at hstatements
  simp only [ofTokens, Program.renumber, Stmt.renumberAll_eq_map, ← hstatements, ← hmapped]

end Scriptlet
