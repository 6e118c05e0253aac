import Scriptlet.Proofs.Grammar.Journal
import Scriptlet.Proofs.Grammar.TapeExpression

namespace Scriptlet

variable {α β : Type}

/-- The complaints that nothing is raised for. -/
def Fault.isComplaint : Fault → Bool
  | tooManyArguments | tooManyParameters => true
  | _ => false

/-- Every failure was reported when it arose, and nothing else was but complaints. -/
inductive Journal.Accounted : Journal → Prop where
  | nil : Accounted []
  | complaint {fault : Fault} {d : Diagnostic} {entries : Journal} :
    fault.isComplaint = true → d.message = fault.message → Accounted entries →
    Accounted (.reported d :: entries)
  | caught {r : Raised} {d : Diagnostic} {entries : Journal} :
    d.message = r.message → d.line = r.line → Accounted entries →
    Accounted (.reported d :: .caught r :: entries)

/-- The journal goes on from what it was before. What is handed back for a failure is reported last. -/
def Record.Accounts (before : Journal) : Record α → Prop
  | .done _ _ after => ∃ entries, after = before ++ entries ∧ entries.Accounted
  | .failed r _ after => ∃ entries d, after = before ++ entries ++ [.reported d] ∧
      entries.Accounted ∧ d.message = r.message ∧ d.line = r.line
  | .astray | .unfinished => True

theorem Journal.Accounted.append {entries more : Journal} (h : entries.Accounted)
    (hmore : more.Accounted) : Journal.Accounted (entries ++ more) := by
  induction h with
  | nil => exact hmore
  | complaint hcomplaint hmessage _ ih => exact .complaint hcomplaint hmessage ih
  | caught hmessage hline _ ih => exact .caught hmessage hline ih

private theorem Journal.report_append (entries more : Journal) :
    Journal.report (entries ++ more) = entries.report ++ more.report :=
  List.filterMap_append

/-- Entries for what was noted on the way. -/
structure Settles (notes : List ParseError) (entries : Journal) : Prop where
  accounted : entries.Accounted
  report : entries.report = notes.map ParseError.diagnostic

namespace Settles

theorem nil : Settles [] [] := ⟨.nil, rfl⟩

theorem append {notes more : List ParseError} {entries others : Journal}
    (h : Settles notes entries) (h' : Settles more others) :
    Settles (notes ++ more) (entries ++ others) where
  accounted := h.accounted.append h'.accounted
  report := by rw [Journal.report_append, h.report, h'.report, List.map_append]

end Settles

/-- What is handed back for a fault. -/
def ParseError.raised (e : ParseError) : Raised := ⟨e.fault.message, e.line⟩

private theorem settles_complaint {e : ParseError} (h : e.fault.isComplaint = true) :
    Settles [e] [.reported e.diagnostic] :=
  ⟨.complaint h rfl .nil, rfl⟩

private theorem settles_caught (e : ParseError) :
    Settles [e] [.reported e.diagnostic, .caught e.raised] :=
  ⟨.caught rfl rfl .nil, rfl⟩

/-- A record ends as the walk does, with entries for what the walk noted. -/
inductive Record.Retells (before : Journal) : Walk α → Record α → Prop where
  | done {a : α} {i : Nat} {notes : List ParseError} {entries : Journal}
    (h : Settles notes entries) : Retells before (.done a i notes) (.done a i (before ++ entries))
  | failed {e : ParseError} {i : Nat} {notes : List ParseError} {entries : Journal}
    (h : Settles notes entries) : Retells before (.failed e i notes)
      (.failed e.raised i (before ++ entries ++ [.reported e.diagnostic]))
  | astray : Retells before .astray .astray
  | unfinished : Retells before .unfinished .unfinished

namespace Record.Retells

variable {before : Journal} {w : Walk α} {result : Record α}

theorem accounts (h : Retells before w result) : result.Accounts before := by
  cases h with
  | done h => exact ⟨_, rfl, h.accounted⟩
  | failed h => exact ⟨_, _, rfl, h.accounted, rfl, rfl⟩
  | astray => trivial
  | unfinished => trivial

/-- Walks and records go on in the same way. -/
theorem after {notes : List ParseError} {entries : Journal} (h : Settles notes entries)
    (hmore : Retells (before ++ entries) w result) :
    Retells before (w.addNotes notes) result := by
  cases hmore with
  | done hmore =>
    rw [List.append_assoc]
    exact .done (h.append hmore)
  | failed hmore =>
    rw [List.append_assoc before]
    exact .failed (h.append hmore)
  | astray => exact .astray
  | unfinished => exact .unfinished

end Record.Retells

open Record

/-- The scribe does what the walker does and keeps the journal in order. -/
def Scribe.Tells (x : Walker α) (y : Scribe α) : Prop :=
  ∀ i before, Retells before (x i) (y i before)

/-- Nothing fails and nothing is noted. -/
def Walk.Quiet : Walk α → Prop
  | .done _ _ notes => notes = []
  | .failed .. => False
  | .astray | .unfinished => True

def Walker.Quiet (x : Walker α) : Prop := ∀ i, (x i).Quiet

namespace Walker.Quiet

theorem pure (a : α) : Quiet (pure a) := fun _ => rfl

theorem unfinished : Quiet (unfinished : Walker α) := fun _ => trivial

theorem bind {x : Walker α} {f : α → Walker β} (h : x.Quiet) (hf : ∀ a, (f a).Quiet) :
    (x >>= f).Quiet := by
  intro i
  show (Walker.bind x f i).Quiet
  have hx := h i
  rw [Walker.bind]
  cases hw : x i with
  | done a k notes =>
    rw [hw] at hx
    obtain rfl : notes = [] := hx
    show ((f a k).addNotes []).Quiet
    rw [Walk.addNotes_nil]
    exact hf a k
  | failed e k notes =>
    rw [hw] at hx
    exact hx
  | astray => trivial
  | unfinished => trivial

theorem ite {c : Prop} [Decidable c] {x y : Walker α} (hx : x.Quiet) (hy : y.Quiet) :
    (if c then x else y).Quiet := by
  split
  · exact hx
  · exact hy

end Walker.Quiet

namespace Tape

open Walker

variable (tape : Tape)

private theorem quiet_tokenAt (i : Nat) : (tape.tokenAt i).Quiet := by
  intro j
  rw [tokenAt]
  split
  · rfl
  · trivial

private theorem quiet_peek : tape.peek.Quiet := fun i => tape.quiet_tokenAt i i

private theorem quiet_previous : tape.previous.Quiet := fun i => tape.quiet_tokenAt (i - 1) i

private theorem quiet_check (kind : TokenKind) : (tape.check kind).Quiet :=
  tape.quiet_peek.bind fun _ => .pure _

private theorem quiet_checkOrEnd (kind : TokenKind) : (tape.checkOrEnd kind).Quiet :=
  (tape.quiet_check kind).bind fun _ => .ite (.pure _) (tape.quiet_check .eof)

private theorem quiet_advance : tape.advance.Quiet :=
  (tape.quiet_check .eof).bind fun _ =>
    .ite tape.quiet_previous (Quiet.bind (fun _ => rfl) fun _ => tape.quiet_previous)

private theorem quiet_eat (kind : TokenKind) : (tape.eat kind).Quiet :=
  (tape.quiet_check kind).bind fun _ =>
    .ite (tape.quiet_advance.bind fun _ => .pure _) (.pure _)

private theorem quiet_skip (n : Nat) : (tape.skip n).Quiet := by
  induction n with
  | zero => exact .unfinished
  | succ n ih =>
    refine tape.quiet_peek.bind fun _ => .ite (.pure _) ?_
    refine tape.quiet_previous.bind fun _ => .ite (.pure _) (.ite (.pure _) ?_)
    exact tape.quiet_advance.bind fun _ => ih

private theorem quiet_synchronize (n : Nat) : (tape.synchronize n).Quiet :=
  tape.quiet_advance.bind fun _ => (tape.quiet_skip n).bind fun _ =>
    tape.quiet_peek.bind fun _ => .pure _

end Tape

namespace Scribe

private theorem tells_pure (a : α) : Tells (pure a) (pure a) := by
  intro i before
  have h : Retells before (.done a i []) (.done a i (before ++ [])) := .done .nil
  rwa [List.append_nil] at h

private theorem tells_unfinished : Tells (Reading.unfinished : Walker α) Reading.unfinished :=
  fun _ _ => .unfinished

private theorem tells_bind {x : Walker α} {y : Scribe α} {f : α → Walker β} {g : α → Scribe β}
    (h : Tells x y) (hf : ∀ a, Tells (f a) (g a)) : Tells (x >>= f) (y >>= g) := by
  intro i before
  show Retells before (Walker.bind x f i) (Scribe.bind y g i before)
  have hx := h i before
  rw [Walker.bind, Scribe.bind]
  generalize x i = w at hx
  generalize y i before = result at hx
  cases hx with
  | done h => exact .after h (hf _ _ _)
  | failed h => exact .failed h
  | astray => exact .astray
  | unfinished => exact .unfinished

private theorem tells_map {x : Walker α} {y : Scribe α} (h : Tells x y) (g : α → β) :
    Tells (do let a ← x; return g a) (do let a ← y; return g a) :=
  tells_bind h fun a => tells_pure (g a)

private theorem tells_ite {c : Prop} [Decidable c] {x x' : Walker α} {y y' : Scribe α}
    (h : Tells x y) (h' : Tells x' y') : Tells (if c then x else x') (if c then y else y') := by
  split
  · exact h
  · exact h'

/-- A quiet walker leaves the journal alone. -/
theorem tells_look {x : Walker α} (h : x.Quiet) : Tells (Reading.look x) (Reading.look x) := by
  intro i before
  show Retells before (x i) (look x i before)
  have hx := h i
  rw [look]
  cases hw : x i with
  | done a k notes =>
    rw [hw] at hx
    obtain rfl : notes = [] := hx
    have hdone : Retells before (.done a k []) (.done a k (before ++ [])) := .done .nil
    rwa [List.append_nil] at hdone
  | failed e k notes =>
    rw [hw] at hx
    exact hx.elim
  | astray => exact .astray
  | unfinished => exact .unfinished

/-- What is reported and what is handed back agree on the message and the line. -/
theorem error_eq (t : Token) (fault : Fault) (i : Nat) (before : Journal) :
    error t fault i before = .done (ParseError.at t fault).raised i
      (before ++ [.reported (ParseError.at t fault).diagnostic]) := by
  rw [ParseError.at]
  by_cases h : t.kind = .eof
  · rw [if_pos h]
    show Record.done _ _ _ = _
    rw [if_pos h]
    rfl
  · rw [if_neg h]
    show Record.done _ _ _ = _
    rw [if_neg h]
    rfl

private theorem tells_fail (t : Token) (fault : Fault) :
    Tells (Reading.fail t fault : Walker α) (Reading.fail t fault) := by
  intro i before
  show Retells before _ (Scribe.bind (error t fault) raise i before)
  rw [Scribe.bind, error_eq]
  have h : Retells before (.failed (.at t fault) i [] : Walk α)
      (.failed (ParseError.at t fault).raised i
        (before ++ [] ++ [.reported (ParseError.at t fault).diagnostic])) := .failed .nil
  rwa [List.append_nil] at h

/-- What is handed back for a complaint is dropped. -/
theorem tells_complain {fault : Fault} (h : fault.isComplaint = true) (t : Token) :
    Tells (Reading.complain t fault) (Reading.complain t fault) := by
  intro i before
  show Retells before _ (Scribe.bind (error t fault) _ i before)
  rw [Scribe.bind, error_eq]
  refine .done (settles_complaint ?_)
  rw [ParseError.at]
  split
  · exact h
  · exact h

/-- What failed was reported last, and is caught next. -/
theorem tells_recover {x x' : Walker α} {y y' : Scribe α} (h : Tells x y) (h' : Tells x' y') :
    Tells (Reading.recover x x') (Reading.recover y y') := by
  intro i before
  show Retells before (Walker.recover x x' i) (attempt y y' i before)
  have hx := h i before
  rw [Walker.recover, attempt]
  generalize x i = w at hx
  generalize y i before = result at hx
  cases hx with
  | done h => exact .done h
  | @failed e k notes entries h =>
    have hmore := h' k (before ++ entries ++ [.reported e.diagnostic] ++ [.caught e.raised])
    rw [List.append_assoc, List.append_assoc] at hmore
    simp only [List.append_assoc]
    exact .after (h.append (settles_caught e)) hmore
  | astray => exact .astray
  | unfinished => exact .unfinished

end Scribe

open Scribe

namespace Tape

variable (tape : Tape)

private theorem tells_expect (kind : TokenKind) (fault : Fault) :
    Tells (tape.expect Walker kind fault) (tape.expect Scribe kind fault) :=
  tells_bind (tells_look tape.quiet_peek) fun t =>
    tells_ite (tells_look tape.quiet_advance) (tells_ite (tells_pure _) (tells_fail t fault))

private theorem tells_endStatement (fault : Fault) :
    Tells (tape.endStatement Walker fault) (tape.endStatement Scribe fault) :=
  tells_map (tells_expect tape .semicolon fault) _

private theorem tells_overLimit {fault : Fault} (h : fault.isComplaint = true) (count : Nat) :
    Tells (tape.overLimit Walker fault count) (tape.overLimit Scribe fault count) :=
  tells_ite (tells_bind (tells_look tape.quiet_peek) (tells_complain h)) (tells_pure ())

private theorem tells_commaList {fault : Fault} (h : fault.isComplaint = true) {x : Walker α}
    {y : Scribe α} (hone : Tells x y) (n count : Nat) :
    Tells (tape.commaList Walker fault x n count) (tape.commaList Scribe fault y n count) := by
  induction n generalizing count with
  | zero => exact tells_unfinished
  | succ n ih =>
    refine tells_bind (tells_overLimit tape h count) fun _ => tells_bind hone fun a => ?_
    refine tells_bind (tells_look (tape.quiet_eat .comma)) fun _ => ?_
    exact tells_ite (tells_map (ih (count + 1)) _) (tells_pure _)

private theorem tells_parenthesized {fault : Fault} (h : fault.isComplaint = true) {x : Walker α}
    {y : Scribe α} (hone : Tells x y) (n : Nat) :
    Tells (tape.parenthesized Walker fault x n) (tape.parenthesized Scribe fault y n) :=
  tells_bind (tells_look (tape.quiet_check .rightParen)) fun _ =>
    tells_ite (tells_pure _) (tells_commaList tape h hone n 0)

private theorem tells_unary (op : Token) (operand : Expr) :
    Tells (Reading.unary Walker op operand) (Reading.unary Scribe op operand) :=
  tells_ite (tells_fail op _) (tells_pure _)

private theorem tells_assign (op : Token) (target value : Expr) :
    Tells (Reading.assign Walker op target value) (Reading.assign Scribe op target value) := by
  cases target with
  | name t => exact tells_pure _
  | _ => exact tells_fail op _

private theorem tells_step (op : Token) (target : Expr) :
    Tells (Reading.step Walker op target) (Reading.step Scribe op target) := by
  cases target with
  | name t => exact tells_pure _
  | _ => exact tells_fail op _

/-- Readers of expressions under one bound. -/
structure ExpressionsTell (n : Nat) : Prop where
  expression (m : Precedence) : Tells (tape.expression Walker n m) (tape.expression Scribe n m)
  opened (opening : Opening) (t : Token) :
    Tells (tape.opened Walker n opening t) (tape.opened Scribe n opening t)
  grow (m : Precedence) (lhs : Expr) : Tells (tape.grow Walker n m lhs) (tape.grow Scribe n m lhs)
  join (p : Precedence) (joining : Joining) (lhs : Expr) (op : Token) :
    Tells (tape.join Walker n p joining lhs op) (tape.join Scribe n p joining lhs op)

variable {tape} {n : Nat}

private theorem tells_expression_succ (ih : ExpressionsTell tape n) (m : Precedence) :
    Tells (tape.expression Walker (n + 1) m) (tape.expression Scribe (n + 1) m) := by
  rw [expression, expression]
  refine tells_bind (tells_look tape.quiet_peek) fun t => ?_
  cases t.kind.opening? with
  | none => exact tells_fail t _
  | some opening =>
    exact tells_bind (tells_look tape.quiet_advance) fun t =>
      tells_bind (ih.opened opening t) fun lhs => ih.grow m lhs

private theorem tells_literal (t : Token) :
    Tells (Reading.literal Walker t) (Reading.literal Scribe t) := by
  unfold Reading.literal
  cases t.literalValue? with
  | none => exact tells_fail t _
  | some value => exact tells_pure _

private theorem tells_opened_succ (ih : ExpressionsTell tape n) (opening : Opening) (t : Token) :
    Tells (tape.opened Walker (n + 1) opening t) (tape.opened Scribe (n + 1) opening t) := by
  cases opening with
  | literal =>
    rw [opened, opened]
    exact tells_literal t
  | name =>
    rw [opened, opened]
    exact tells_pure _
  | group =>
    rw [opened, opened]
    exact tells_bind (ih.expression _) fun inner => tells_map (tells_expect tape _ _) _
  | operator =>
    rw [opened, opened]
    exact tells_bind (ih.expression _) (tells_unary t)

private theorem tells_grow_succ (ih : ExpressionsTell tape n) (m : Precedence) (lhs : Expr) :
    Tells (tape.grow Walker (n + 1) m lhs) (tape.grow Scribe (n + 1) m lhs) := by
  rw [grow, grow]
  refine tells_bind (tells_look tape.quiet_peek) fun t => ?_
  cases t.kind.joining? with
  | none => exact tells_pure lhs
  | some operator =>
    obtain ⟨p, joining⟩ := operator
    refine tells_ite ?_ (tells_pure lhs)
    exact tells_bind (tells_look tape.quiet_advance) fun op =>
      tells_bind (ih.join p joining lhs op) fun e => ih.grow m e

private theorem tells_join_succ (ih : ExpressionsTell tape n) (p : Precedence) (joining : Joining)
    (lhs : Expr) (op : Token) :
    Tells (tape.join Walker (n + 1) p joining lhs op) (tape.join Scribe (n + 1) p joining lhs op) := by
  cases joining with
  | binary =>
    rw [join, join]
    exact tells_map (ih.expression p) _
  | logical =>
    rw [join, join]
    exact tells_map (ih.expression p) _
  | assign =>
    rw [join, join]
    exact tells_bind (ih.expression _) (tells_assign op lhs)
  | step =>
    rw [join, join]
    exact tells_step op lhs
  | call =>
    rw [join, join]
    exact tells_bind (tells_parenthesized tape rfl (ih.expression _) n) fun args =>
      tells_map (tells_expect tape _ _) _

private theorem expressionsTell (tape : Tape) (n : Nat) : ExpressionsTell tape n := by
  induction n with
  | zero =>
    constructor
    · intro m
      rw [expression, expression]
      exact tells_unfinished
    · intro opening t
      rw [opened, opened]
      exact tells_unfinished
    · intro m lhs
      rw [grow, grow]
      exact tells_unfinished
    · intro p joining lhs op
      rw [join, join]
      exact tells_unfinished
  | succ n ih =>
    exact ⟨tells_expression_succ ih, tells_opened_succ ih, tells_grow_succ ih, tells_join_succ ih⟩

private theorem tells_expression (tape : Tape) (n : Nat) (m : Precedence) :
    Tells (tape.expression Walker n m) (tape.expression Scribe n m) :=
  (expressionsTell tape n).expression m

variable (tape n)

private theorem tells_expressionStatement :
    Tells (tape.expressionStatement Walker n) (tape.expressionStatement Scribe n) :=
  tells_bind (tells_expression tape n _) fun _ => tells_map (tells_endStatement tape _) _

private theorem tells_printStatement :
    Tells (tape.printStatement Walker n) (tape.printStatement Scribe n) :=
  tells_bind (tells_look tape.quiet_advance) fun _ =>
    tells_bind (tells_expression tape n _) fun _ => tells_map (tells_endStatement tape _) _

private theorem tells_optional {test : Walker Bool} (h : test.Quiet) :
    Tells (tape.optional Walker test n) (tape.optional Scribe test n) :=
  tells_bind (tells_look h) fun _ =>
    tells_ite (tells_pure none) (tells_map (tells_expression tape n _) some)

private theorem tells_returnStatement :
    Tells (tape.returnStatement Walker n) (tape.returnStatement Scribe n) :=
  tells_bind (tells_look tape.quiet_advance) fun _ =>
    tells_bind (tells_optional tape n (tape.quiet_checkOrEnd _)) fun _ =>
      tells_map (tells_endStatement tape _) _

private theorem tells_initialValue :
    Tells (tape.initialValue Walker n) (tape.initialValue Scribe n) :=
  tells_bind (tells_look (tape.quiet_eat _)) fun _ =>
    tells_ite (tells_map (tells_expression tape n _) some) (tells_pure none)

private theorem tells_variableDeclaration :
    Tells (tape.variableDeclaration Walker n) (tape.variableDeclaration Scribe n) :=
  tells_bind (tells_look tape.quiet_advance) fun _ =>
    tells_bind (tells_expect tape _ _) fun _ =>
      tells_bind (tells_initialValue tape n) fun _ => tells_map (tells_endStatement tape _) _

private theorem tells_condition (opened closed : Fault) :
    Tells (tape.condition Walker opened closed n) (tape.condition Scribe opened closed n) :=
  tells_bind (tells_expect tape _ opened) fun _ =>
    tells_bind (tells_expression tape n _) fun _ => tells_map (tells_expect tape _ closed) _

private theorem tells_functionHead :
    Tells (tape.functionHead Walker n) (tape.functionHead Scribe n) :=
  tells_bind (tells_expect tape _ _) fun _ =>
    tells_bind (tells_expect tape _ _) fun _ =>
      tells_bind (tells_parenthesized tape rfl (tells_expect tape _ _) n) fun _ =>
        tells_bind (tells_expect tape _ _) fun _ => tells_map (tells_expect tape _ _) _

private theorem tells_initializer :
    Tells (tape.initializer Walker n) (tape.initializer Scribe n) := by
  refine tells_bind (tells_look tape.quiet_peek) fun t => ?_
  cases t.kind
  case semicolon => exact tells_map (tells_look tape.quiet_advance) _
  case kwVar => exact tells_map (tells_variableDeclaration tape n) some
  all_goals exact tells_map (tells_expressionStatement tape n) some

private theorem tells_forCondition :
    Tells (tape.forCondition Walker n) (tape.forCondition Scribe n) :=
  tells_bind (tells_look (tape.quiet_check _)) fun _ =>
    tells_ite (tells_pure _) (tells_expression tape n _)

private theorem tells_forClauses : Tells (tape.forClauses Walker n) (tape.forClauses Scribe n) :=
  tells_bind (tells_expect tape _ _) fun _ =>
    tells_bind (tells_initializer tape n) fun _ =>
      tells_bind (tells_forCondition tape n) fun _ =>
        tells_bind (tells_endStatement tape _) fun _ =>
          tells_bind (tells_optional tape n (tape.quiet_check _)) fun _ =>
            tells_map (tells_expect tape _ _) _

private theorem tells_ifStatement {x : Walker Stmt} {y : Scribe Stmt} (hone : Tells x y) :
    Tells (tape.ifStatement Walker x n) (tape.ifStatement Scribe y n) :=
  tells_bind (tells_look tape.quiet_advance) fun _ =>
    tells_bind (tells_condition tape n _ _) fun _ =>
      tells_bind hone fun _ =>
        tells_bind (tells_look (tape.quiet_eat _)) fun _ =>
          tells_ite (tells_map hone _) (tells_pure _)

private theorem tells_whileStatement {x : Walker Stmt} {y : Scribe Stmt} (hone : Tells x y) :
    Tells (tape.whileStatement Walker x n) (tape.whileStatement Scribe y n) :=
  tells_bind (tells_look tape.quiet_advance) fun _ =>
    tells_bind (tells_condition tape n _ _) fun _ => tells_map hone _

private theorem tells_forStatement {x : Walker Stmt} {y : Scribe Stmt} (hone : Tells x y) :
    Tells (tape.forStatement Walker x n) (tape.forStatement Scribe y n) :=
  tells_bind (tells_look tape.quiet_advance) fun _ =>
    tells_bind (tells_forClauses tape n) fun _ => tells_map hone _

private theorem tells_blockStatement {x : Walker (List Stmt)} {y : Scribe (List Stmt)}
    (hmany : Tells x y) : Tells (tape.blockStatement Walker x) (tape.blockStatement Scribe y) :=
  tells_bind (tells_look tape.quiet_advance) fun _ => tells_map hmany _

private theorem tells_functionDeclaration {x : Walker (List Stmt)} {y : Scribe (List Stmt)}
    (hmany : Tells x y) :
    Tells (tape.functionDeclaration Walker x n) (tape.functionDeclaration Scribe y n) :=
  tells_bind (tells_look tape.quiet_advance) fun _ =>
    tells_bind (tells_functionHead tape n) fun _ => tells_map hmany _

/-- Readers of statements under one bound. -/
structure StatementsTell : Prop where
  statement : Tells (tape.statement Walker n) (tape.statement Scribe n)
  declaration : Tells (tape.declaration Walker n) (tape.declaration Scribe n)
  block : Tells (tape.block Walker n) (tape.block Scribe n)

variable {tape n}

private theorem tells_statement_succ (ih : StatementsTell tape n) :
    Tells (tape.statement Walker (n + 1)) (tape.statement Scribe (n + 1)) := by
  rw [statement, statement]
  refine tells_bind (tells_look tape.quiet_peek) fun t => ?_
  cases t.kind
  case kwPrint => exact tells_printStatement tape n
  case kwReturn => exact tells_returnStatement tape n
  case leftBrace => exact tells_blockStatement tape ih.block
  case kwIf => exact tells_ifStatement tape n ih.statement
  case kwWhile => exact tells_whileStatement tape n ih.statement
  case kwFor => exact tells_forStatement tape n ih.statement
  all_goals exact tells_expressionStatement tape n

private theorem tells_declaration_succ (ih : StatementsTell tape n) :
    Tells (tape.declaration Walker (n + 1)) (tape.declaration Scribe (n + 1)) := by
  rw [declaration, declaration]
  refine tells_recover ?_ (tells_look (tape.quiet_synchronize n))
  refine tells_bind (tells_look tape.quiet_peek) fun t => ?_
  cases t.kind
  case kwVar => exact tells_variableDeclaration tape n
  case kwFun => exact tells_functionDeclaration tape n ih.block
  all_goals exact ih.statement

private theorem tells_block_succ (ih : StatementsTell tape n) :
    Tells (tape.block Walker (n + 1)) (tape.block Scribe (n + 1)) := by
  rw [block, block]
  refine tells_bind (tells_look (tape.quiet_checkOrEnd _)) fun _ => ?_
  refine tells_ite (tells_map (tells_expect tape _ _) _) ?_
  exact tells_bind ih.declaration fun _ => tells_map ih.block _

private theorem statementsTell (tape : Tape) (n : Nat) : StatementsTell tape n := by
  induction n with
  | zero =>
    constructor
    · rw [statement, statement]
      exact tells_unfinished
    · rw [declaration, declaration]
      exact tells_unfinished
    · rw [block, block]
      exact tells_unfinished
  | succ n ih =>
    exact ⟨tells_statement_succ ih, tells_declaration_succ ih, tells_block_succ ih⟩

/-- A whole program, one declaration after the other. -/
theorem tells_program (tape : Tape) (n : Nat) :
    Tells (tape.program Walker n) (tape.program Scribe n) := by
  induction n with
  | zero => exact tells_unfinished
  | succ n ih =>
    refine tells_bind (tells_look (tape.quiet_check _)) fun _ => ?_
    refine tells_ite (tells_pure _) ?_
    exact tells_bind (statementsTell tape n).declaration fun _ => tells_map ih _

/-- Whatever is asked for, there is a walker that does the same. -/
theorem Part.exists_tells (tape : Tape) (n : Nat) (part : Part) :
    ∃ x, Tells x (part.scribe tape n) := by
  cases part with
  | token kind fault => exact ⟨_, tells_expect tape kind fault⟩
  | expression m => exact ⟨_, tells_expression tape n m⟩
  | opened opening t => exact ⟨_, (expressionsTell tape n).opened opening t⟩
  | joined p joining lhs op => exact ⟨_, (expressionsTell tape n).join p joining lhs op⟩
  | literal t => exact ⟨_, tells_literal t⟩
  | variableDeclaration => exact ⟨_, tells_variableDeclaration tape n⟩
  | functionDeclaration =>
    exact ⟨_, tells_functionDeclaration tape n (statementsTell tape n).block⟩
  | printStatement => exact ⟨_, tells_printStatement tape n⟩
  | returnStatement => exact ⟨_, tells_returnStatement tape n⟩
  | ifStatement => exact ⟨_, tells_ifStatement tape n (statementsTell tape n).statement⟩
  | whileStatement => exact ⟨_, tells_whileStatement tape n (statementsTell tape n).statement⟩
  | forStatement => exact ⟨_, tells_forStatement tape n (statementsTell tape n).statement⟩
  | block => exact ⟨_, (statementsTell tape n).block⟩
  | statement => exact ⟨_, (statementsTell tape n).statement⟩
  | declaration => exact ⟨_, (statementsTell tape n).declaration⟩
  | program => exact ⟨_, tells_program tape n⟩

/-- Nothing is raised that was not reported just before. -/
theorem Part.accounts (tape : Tape) (n : Nat) (part : Part) (i : Nat) (before : Journal) :
    (part.scribe tape n i before).Accounts before := by
  obtain ⟨x, hx⟩ := part.exists_tells tape n
  exact (hx i before).accounts

-- The value of a `print` is missing: one report, and one failure for which the statement is given up.
example : program Scribe (ofTokens false [⟨.kwPrint, "print", none, 1⟩]) 8 0 [] =
    .done [.broken] 1 [.reported (.syntactic 1 .atEnd "Expect expression."),
      .caught ⟨"Expect expression.", 1⟩] := rfl

end Tape

end Scriptlet
