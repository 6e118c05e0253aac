import Mathlib.Data.List.Forall2
import Scriptlet.Grammar.Program
import Scriptlet.Proofs.Grammar.CommaList

namespace Scriptlet.Grammar

open List (Forall₂)

/-- The relation `T` holds only between tokens that no reader tells apart, and `P` and `Q` pass from
such tokens and from parts of trees to the trees that are made of them. -/
structure Correspondence (T : Token → Token → Prop) (P : Expr → Expr → Prop)
    (Q : Stmt → Stmt → Prop) : Prop where
  kind {t t' : Token} : T t t' → t.kind = t'.kind
  carries {t t' : Token} : T t t' → t.literal = t'.literal
  isName {e e' : Expr} : P e e' → e.isName = e'.isName
  literal (value : Literal) : P (.literal value) (.literal value)
  name {t t' : Token} : T t t' → P (.name t) (.name t')
  assign {t t' : Token} {e e' : Expr} : P (.name t) (.name t') → P e e' →
    P (.assign t e) (.assign t' e')
  group {e e' : Expr} : P e e' → P (.group e) (.group e')
  unary {op op' : Token} {e e' : Expr} : T op op' → P e e' → P (.unary op e) (.unary op' e')
  step {op op' t t' : Token} : T op op' → P (.name t) (.name t') → P (.step op t) (.step op' t')
  binary {op op' : Token} {l l' r r' : Expr} : T op op' → P l l' → P r r' →
    P (.binary op l r) (.binary op' l' r')
  logical {op op' : Token} {l l' r r' : Expr} : T op op' → P l l' → P r r' →
    P (.logical op l r) (.logical op' l' r')
  call {paren paren' : Token} {f f' : Expr} {args args' : List Expr} : T paren paren' → P f f' →
    Forall₂ P args args' → P (.call f paren args) (.call f' paren' args')
  expression {e e' : Expr} : P e e' → Q (.expression e) (.expression e')
  print {k k' : Token} {e e' : Expr} : T k k' → P e e' → Q (.print k e) (.print k' e')
  var {t t' : Token} {init init' : Option Expr} : T t t' → Option.Rel P init init' →
    Q (.var t init) (.var t' init')
  ret {k k' : Token} {value value' : Option Expr} : T k k' → Option.Rel P value value' →
    Q (.ret k value) (.ret k' value')
  block {body body' : List Stmt} : Forall₂ Q body body' → Q (.block body) (.block body')
  ifThen {c c' : Expr} {yes yes' : Stmt} : P c c' → Q yes yes' → Q (.ifThen c yes) (.ifThen c' yes')
  ifElse {c c' : Expr} {yes yes' no no' : Stmt} : P c c' → Q yes yes' → Q no no' →
    Q (.ifElse c yes no) (.ifElse c' yes' no')
  loop {c c' : Expr} {body body' : Stmt} : P c c' → Q body body' → Q (.loop c body) (.loop c' body')
  function {t t' : Token} {params params' : List Token} {body body' : List Stmt} : T t t' →
    Forall₂ T params params' → Forall₂ Q body body' →
    Q (.function t params body) (.function t' params' body')
  broken : Q .broken .broken

/-- The same fault, shown by tokens that correspond or by the ends of the two inputs. -/
inductive Faults (T : Token → Token → Prop) (s s' : Setting) : ParseError → ParseError → Prop where
  | token {t t' : Token} (fault : Fault) (h : T t t') :
    Faults T s s' (.atToken t fault) (.atToken t' fault)
  | atEnd (fault : Fault) : Faults T s s' ⟨fault, .atEnd, s.endLine⟩ ⟨fault, .atEnd, s'.endLine⟩

variable {T : Token → Token → Prop} {s s' : Setting} {ts ts' : List Token}

section Tokens

private theorem nextIs_eq (hT : ∀ {t t'}, T t t' → t.kind = t'.kind) (h : Forall₂ T ts ts')
    (kind : TokenKind) : nextIs kind ts = nextIs kind ts' := by
  cases h with
  | nil => rfl
  | cons ht _ => rw [nextIs, nextIs, hT ht]

private theorem isEmpty_eq (h : Forall₂ T ts ts') : ts.isEmpty = ts'.isEmpty := by
  cases h <;> rfl

private theorem forall₂_tail (h : Forall₂ T ts ts') : Forall₂ T ts.tail ts'.tail := by
  cases h with
  | nil => exact .nil
  | cons _ hts => exact hts

private theorem faults_error (fault : Fault) (h : Forall₂ T ts ts') :
    Faults T s s' (s.error fault ts) (s'.error fault ts') := by
  cases h with
  | nil => exact .atEnd fault
  | cons ht _ => exact .token fault ht

private theorem forall₂_overLimit (fault : Fault) (count : Nat) (h : Forall₂ T ts ts') :
    Forall₂ (Faults T s s') (overLimit s fault count ts) (overLimit s' fault count ts') := by
  unfold overLimit
  split
  · exact .cons (faults_error fault h) .nil
  · exact .nil

end Tokens

variable {α β : Type} {R : α → α → Prop} {R' : β → β → Prop}

namespace Reply

/-- Both replies are done or both have failed, with what corresponds. -/
inductive Corresponds (T : Token → Token → Prop) (s s' : Setting) (R : α → α → Prop) :
    Reply α → Reply α → Prop where
  | done {a a' : α} {ts ts' : List Token} {notes notes' : List ParseError} (ha : R a a')
    (hts : Forall₂ T ts ts') (hnotes : Forall₂ (Faults T s s') notes notes') :
    Corresponds T s s' R (.done a ts notes) (.done a' ts' notes')
  | failed {e e' : ParseError} {ts ts' : List Token} {notes notes' : List ParseError}
    (he : Faults T s s' e e') (hts : Forall₂ T ts ts')
    (hnotes : Forall₂ (Faults T s s') notes notes') :
    Corresponds T s s' R (.failed e ts notes) (.failed e' ts' notes')

theorem Corresponds.addNotes {r r' : Reply α} {notes notes' : List ParseError}
    (h : r.Corresponds T s s' R r') (hnotes : Forall₂ (Faults T s s') notes notes') :
    (r.addNotes notes).Corresponds T s s' R (r'.addNotes notes') := by
  cases h with
  | done ha hts hmore => exact .done ha hts (List.rel_append hnotes hmore)
  | failed he hts hmore => exact .failed he hts (List.rel_append hnotes hmore)

/-- The second reader has fewer tokens to read. -/
theorem Corresponds.bindWithin {n : Nat} {r r' : Reply α} {f f' : α → List Token → Reply β}
    (h : r.Corresponds T s s' R r') (hn : r.Within n)
    (hf : ∀ {a a' ts ts'}, ts.length < n → R a a' → Forall₂ T ts ts' →
      (f a ts).Corresponds T s s' R' (f' a' ts')) :
    (r.bind f).Corresponds T s s' R' (r'.bind f') := by
  cases h with
  | done ha hts hnotes => exact (hf hn ha hts).addNotes hnotes
  | failed he hts hnotes => exact .failed he hts hnotes

theorem Corresponds.bind {r r' : Reply α} {f f' : α → List Token → Reply β}
    (h : r.Corresponds T s s' R r')
    (hf : ∀ {a a' ts ts'}, R a a' → Forall₂ T ts ts' →
      (f a ts).Corresponds T s s' R' (f' a' ts')) :
    (r.bind f).Corresponds T s s' R' (r'.bind f') := by
  cases h with
  | done ha hts hnotes => exact (hf ha hts).addNotes hnotes
  | failed he hts hnotes => exact .failed he hts hnotes

theorem Corresponds.map {r r' : Reply α} {g g' : α → β} (h : r.Corresponds T s s' R r')
    (hg : ∀ {a a'}, R a a' → R' (g a) (g' a')) :
    (r.map g).Corresponds T s s' R' (r'.map g') :=
  h.bind fun ha hts => .done (hg ha) hts .nil

end Reply

open Reply

variable {P : Expr → Expr → Prop} {Q : Stmt → Stmt → Prop} {n : Nat}

private theorem corresponds_expect (h : Correspondence T P Q) (kind : TokenKind) (fault : Fault)
    (hts : Forall₂ T ts ts') :
    (expect s kind fault ts).Corresponds T s s' T (expect s' kind fault ts') := by
  cases hts with
  | nil => exact .failed (.atEnd fault) .nil .nil
  | cons ht hts =>
    rw [expect, expect, h.kind ht]
    split
    · exact .done ht hts .nil
    · exact .failed (.token fault ht) (.cons ht hts) .nil

private theorem corresponds_endStatement (h : Correspondence T P Q)
    (hs : s.interactive = s'.interactive) (fault : Fault) (hts : Forall₂ T ts ts') :
    (endStatement s fault ts).Corresponds T s s' (fun _ _ => True) (endStatement s' fault ts') := by
  unfold endStatement
  rw [hs, isEmpty_eq hts]
  split
  · exact .done trivial .nil .nil
  · exact (corresponds_expect h _ fault hts).map fun _ => trivial

/-- Entries that are read from fewer than `n` tokens. -/
theorem ReadsCommaList.corresponds {fault : Fault} {one one' : List Token → Reply α}
    {many many' : Nat → List Token → Reply (List α)} (hmany : ReadsCommaList s fault one many)
    (hmany' : ReadsCommaList s' fault one' many') (h : Correspondence T P Q)
    (hwithin : ∀ ts, (one ts).Within ts.length)
    (hone : ∀ {ts ts'}, ts.length < n → Forall₂ T ts ts' →
      (one ts).Corresponds T s s' R (one' ts')) {count : Nat} (hn : ts.length < n)
    (hts : Forall₂ T ts ts') :
    (many count ts).Corresponds T s s' (Forall₂ R) (many' count ts') := by
  induction hk : ts.length using Nat.strongRecOn generalizing ts ts' count with
  | ind k ih =>
    subst hk
    rw [hmany, hmany']
    apply Corresponds.addNotes _ (forall₂_overLimit fault count hts)
    apply (hone hn hts).bindWithin (hwithin ts)
    intro a a' rest rest' hlen ha hrest
    rw [nextIs_eq h.kind hrest]
    split
    · have hshort : rest.tail.length < ts.length := by
        rw [List.length_tail]
        omega
      exact (ih _ hshort (Nat.lt_trans hshort hn) (forall₂_tail hrest) rfl).map (.cons ha)
    · exact .done (.cons ha .nil) hrest .nil

/-- The entries between two parentheses. -/
theorem ReadsCommaList.corresponds_parenthesized {fault : Fault} {one one' : List Token → Reply α}
    {many many' : Nat → List Token → Reply (List α)} (hmany : ReadsCommaList s fault one many)
    (hmany' : ReadsCommaList s' fault one' many') (h : Correspondence T P Q)
    (hwithin : ∀ ts, (one ts).Within ts.length)
    (hone : ∀ {ts ts'}, ts.length < n → Forall₂ T ts ts' →
      (one ts).Corresponds T s s' R (one' ts')) (hn : ts.length < n) (hts : Forall₂ T ts ts') :
    (if nextIs .rightParen ts then Reply.done [] ts [] else many 0 ts).Corresponds T s s' (Forall₂ R)
      (if nextIs .rightParen ts' then .done [] ts' [] else many' 0 ts') := by
  rw [nextIs_eq h.kind hts]
  split
  · exact .done .nil hts .nil
  · exact hmany.corresponds hmany' h hwithin hone hn hts

section Expressions

/-- Expressions that are read from fewer than `n` tokens. -/
def CorrespondBelow (T : Token → Token → Prop) (P : Expr → Expr → Prop) (s s' : Setting)
    (n : Nat) : Prop :=
  ∀ m {ts ts'}, ts.length < n → Forall₂ T ts ts' →
    (expression s m ts).Corresponds T s s' P (expression s' m ts')

private theorem literalValue?_eq (h : Correspondence T P Q) {t t' : Token} (ht : T t t') :
    t.literalValue? = t'.literalValue? := by
  rw [Token.literalValue?, Token.literalValue?, h.kind ht, h.carries ht]

private theorem exists_name_of_isName {e : Expr} (h : e.isName = true) : ∃ t, e = .name t := by
  cases e with
  | name t => exact ⟨t, rfl⟩
  | _ => cases h

private theorem corresponds_unary (h : Correspondence T P Q) {op op' : Token} {e e' : Expr}
    (hop : T op op') (he : P e e') (hts : Forall₂ T ts ts') :
    (unary op e ts).Corresponds T s s' P (unary op' e' ts') := by
  unfold unary
  rw [h.kind hop, h.isName he]
  split
  · exact .failed (.token _ hop) hts .nil
  · exact .done (h.unary hop he) hts .nil

private theorem assign_of_isName_eq_false (op : Token) (v : Expr) {e : Expr} (h : e.isName = false)
    (ts : List Token) : assign op e v ts = .failed (.atToken op .assignTarget) ts [] := by
  cases e with
  | name t => cases h
  | _ => rfl

private theorem step_of_isName_eq_false (op : Token) {e : Expr} (h : e.isName = false)
    (ts : List Token) :
    step op e ts = .failed (.atToken op .stepTarget) ts [] := by
  cases e with
  | name t => cases h
  | _ => rfl

private theorem corresponds_assign (h : Correspondence T P Q) {op op' : Token} {l l' v v' : Expr}
    (hop : T op op') (hl : P l l') (hv : P v v') (hts : Forall₂ T ts ts') :
    (assign op l v ts).Corresponds T s s' P (assign op' l' v' ts') := by
  have hname := h.isName hl
  cases hl' : l'.isName with
  | true =>
    obtain ⟨t', rfl⟩ := exists_name_of_isName hl'
    obtain ⟨t, rfl⟩ := exists_name_of_isName (hname.trans hl')
    exact .done (h.assign hl hv) hts .nil
  | false =>
    rw [assign_of_isName_eq_false _ _ (hname.trans hl'), assign_of_isName_eq_false _ _ hl']
    exact .failed (.token _ hop) hts .nil

private theorem corresponds_step (h : Correspondence T P Q) {op op' : Token} {l l' : Expr}
    (hop : T op op') (hl : P l l') (hts : Forall₂ T ts ts') :
    (step op l ts).Corresponds T s s' P (step op' l' ts') := by
  have hname := h.isName hl
  cases hl' : l'.isName with
  | true =>
    obtain ⟨t', rfl⟩ := exists_name_of_isName hl'
    obtain ⟨t, rfl⟩ := exists_name_of_isName (hname.trans hl')
    exact .done (h.step hop hl) hts .nil
  | false =>
    rw [step_of_isName_eq_false _ (hname.trans hl'), step_of_isName_eq_false _ hl']
    exact .failed (.token _ hop) hts .nil

private theorem corresponds_operand (h : Correspondence T P Q) (ih : CorrespondBelow T P s s' n)
    (hn : ts.length ≤ n) (hts : Forall₂ T ts ts') :
    (operand s ts).Corresponds T s s' P (operand s' ts') := by
  cases hts with
  | nil =>
    rw [operand_nil, operand_nil]
    exact .failed (.atEnd _) .nil .nil
  | @cons t t' ts ts' ht hts =>
    rw [List.length_cons] at hn
    rw [operand_cons, operand_cons, ← h.kind ht, ← literalValue?_eq h ht]
    split
    · exact .failed (.token _ ht) (.cons ht hts) .nil
    · split
      · exact .done (h.literal _) hts .nil
      · exact .failed (.token _ ht) hts .nil
    · exact .done (h.name ht) hts .nil
    · apply (ih .lowest hn hts).bind
      intro inner inner' rest rest' hinner hrest
      exact (corresponds_expect h _ _ hrest).map fun _ => h.group hinner
    · apply (ih .unary hn hts).bind
      intro e e' rest rest' he hrest
      exact corresponds_unary h ht he hrest

private theorem corresponds_join (h : Correspondence T P Q) (ih : CorrespondBelow T P s s' n)
    (p : Precedence) (joining : Joining) {lhs lhs' : Expr} {op op' : Token} (hn : ts.length < n)
    (hop : T op op') (hlhs : P lhs lhs') (hts : Forall₂ T ts ts') :
    (join s p joining lhs op ts).Corresponds T s s' P (join s' p joining lhs' op' ts') := by
  rw [join_eq, join_eq]
  cases joining with
  | binary => exact (ih p hn hts).map (h.binary hop hlhs)
  | logical => exact (ih p hn hts).map (h.logical hop hlhs)
  | assign =>
    apply (ih .lowest hn hts).bind
    intro v v' rest rest' hv hrest
    exact corresponds_assign h hop hlhs hv hrest
  | step => exact corresponds_step h hop hlhs hts
  | call =>
    have hargs := (readsCommaList_arguments s).corresponds_parenthesized (readsCommaList_arguments s')
      h (expression_within s .lowest) (ih .lowest) hn hts
    apply hargs.bind
    intro args args' rest rest' hall hrest
    exact (corresponds_expect h _ _ hrest).map fun hparen => h.call hparen hlhs hall

private theorem corresponds_grow (h : Correspondence T P Q) (ih : CorrespondBelow T P s s' n)
    (m : Precedence) {lhs lhs' : Expr} (hn : ts.length ≤ n) (hlhs : P lhs lhs')
    (hts : Forall₂ T ts ts') : (grow s m lhs ts).Corresponds T s s' P (grow s' m lhs' ts') := by
  induction hk : ts.length using Nat.strongRecOn generalizing ts ts' lhs lhs' with
  | ind k hshorter =>
    subst hk
    cases hts with
    | nil =>
      rw [grow_nil, grow_nil]
      exact .done hlhs .nil .nil
    | @cons t t' ts ts' ht hts =>
      rw [List.length_cons] at hn hshorter
      rw [grow_cons, grow_cons, ← h.kind ht]
      split
      · exact .done hlhs (.cons ht hts) .nil
      · next p joining _ =>
        split
        · have hjoin := corresponds_join h ih p joining hn ht hlhs hts
          apply hjoin.bindWithin (joinWithin s p joining lhs t ts).2
          intro e e' rest rest' hlen he hrest
          exact hshorter rest.length hlen (by omega) he hrest rfl
        · exact .done hlhs (.cons ht hts) .nil

private theorem correspondBelow (h : Correspondence T P Q) (n : Nat) :
    CorrespondBelow T P s s' n := by
  induction n with
  | zero =>
    intro m ts ts' hn
    exact absurd hn (Nat.not_lt_zero _)
  | succ n ih =>
    intro m ts ts' hn hts
    have hlen : ts.length ≤ n := Nat.le_of_lt_succ hn
    rw [expression_eq, expression_eq]
    apply (corresponds_operand h ih hlen hts).bindWithin (operandWithin s ts).2
    intro lhs lhs' rest rest' hrest hlhs hmore
    exact corresponds_grow h ih m (by omega) hlhs hmore

private theorem corresponds_expression (h : Correspondence T P Q) (m : Precedence)
    (hts : Forall₂ T ts ts') :
    (expression s m ts).Corresponds T s s' P (expression s' m ts') :=
  correspondBelow h (ts.length + 1) m (Nat.lt_succ_self _) hts

end Expressions

section Statements

variable (h : Correspondence T P Q) (hs : s.interactive = s'.interactive)

include h hs

/-- An expression with a semicolon behind it. -/
theorem corresponds_terminated (fault : Fault) {f f' : Expr → Stmt}
    (hf : ∀ {e e'}, P e e' → Q (f e) (f' e')) (hts : Forall₂ T ts ts') :
    ((expression s .lowest ts).bind fun e rest =>
      (endStatement s fault rest).map fun _ => f e).Corresponds T s s' Q
      ((expression s' .lowest ts').bind fun e rest =>
        (endStatement s' fault rest).map fun _ => f' e) := by
  apply (corresponds_expression h .lowest hts).bind
  intro e e' rest rest' he hrest
  exact (corresponds_endStatement h hs fault hrest).map fun _ => hf he

omit hs in
private theorem corresponds_someExpression (hts : Forall₂ T ts ts') :
    ((expression s .lowest ts).map some).Corresponds T s s' (Option.Rel P)
      ((expression s' .lowest ts').map some) :=
  (corresponds_expression h .lowest hts).map .some

private theorem corresponds_returnStatement {k k' : Token} (hk : T k k') (hts : Forall₂ T ts ts') :
    (returnStatement s k ts).Corresponds T s s' Q (returnStatement s' k' ts') := by
  have hvalue : (if ts.isEmpty || nextIs .semicolon ts then .done none ts []
      else (expression s .lowest ts).map some).Corresponds T s s' (Option.Rel P)
      (if ts'.isEmpty || nextIs .semicolon ts' then .done none ts' []
        else (expression s' .lowest ts').map some) := by
    rw [isEmpty_eq hts, nextIs_eq h.kind hts]
    split
    · exact .done .none hts .nil
    · exact corresponds_someExpression h hts
  apply hvalue.bind
  intro value value' rest rest' hvalue hrest
  exact (corresponds_endStatement h hs _ hrest).map fun _ => h.ret hk hvalue

private theorem corresponds_variableDeclaration (hts : Forall₂ T ts ts') :
    (variableDeclaration s ts).Corresponds T s s' Q (variableDeclaration s' ts') := by
  apply (corresponds_expect h _ _ hts).bind
  intro name name' rest rest' hname hrest
  have hinit : (if nextIs .equal rest then (expression s .lowest rest.tail).map some
      else .done none rest []).Corresponds T s s' (Option.Rel P)
      (if nextIs .equal rest' then (expression s' .lowest rest'.tail).map some
        else .done none rest' []) := by
    rw [nextIs_eq h.kind hrest]
    split
    · exact corresponds_someExpression h (forall₂_tail hrest)
    · exact .done .none hrest .nil
  apply hinit.bind
  intro init init' rest rest' hinit hrest
  exact (corresponds_endStatement h hs _ hrest).map fun _ => h.var hname hinit

omit hs in
private theorem corresponds_condition (opened closed : Fault) (hts : Forall₂ T ts ts') :
    (condition s opened closed ts).Corresponds T s s' P (condition s' opened closed ts') := by
  apply (corresponds_expect h _ _ hts).bind
  intro _ _ rest rest' _ hrest
  apply (corresponds_expression h .lowest hrest).bind
  intro e e' rest rest' he hrest
  exact (corresponds_expect h _ _ hrest).map fun _ => he

/-- The name and the parameters of a function. -/
def HeadsCorrespond (T : Token → Token → Prop) (head head' : Token × List Token) : Prop :=
  T head.1 head'.1 ∧ Forall₂ T head.2 head'.2

omit hs in
private theorem corresponds_functionHead (hts : Forall₂ T ts ts') :
    (functionHead s ts).Corresponds T s s' (HeadsCorrespond T) (functionHead s' ts') := by
  apply (corresponds_expect h _ _ hts).bind
  intro name name' rest rest' hname hrest
  apply (corresponds_expect h _ _ hrest).bind
  intro _ _ rest rest' _ hrest
  have hparams := (readsCommaList_parameters s).corresponds_parenthesized
    (readsCommaList_parameters s') h (expect_within s _ _) (fun _ => corresponds_expect h _ _)
    (Nat.lt_succ_self _) hrest
  apply hparams.bind
  intro params params' rest rest' hparams hrest
  apply (corresponds_expect h _ _ hrest).bind
  intro _ _ rest rest' _ hrest
  exact (corresponds_expect h _ _ hrest).map fun _ => ⟨hname, hparams⟩

/-- The three clauses of a `for`. -/
structure ClausesCorrespond (P : Expr → Expr → Prop) (Q : Stmt → Stmt → Prop)
    (c c' : ForClauses) : Prop where
  init : Option.Rel Q c.init c'.init
  condition : P c.condition c'.condition
  increment : Option.Rel P c.increment c'.increment

private theorem corresponds_forClauses (hts : Forall₂ T ts ts') :
    (forClauses s ts).Corresponds T s s' (ClausesCorrespond P Q) (forClauses s' ts') := by
  apply (corresponds_expect h _ _ hts).bind
  intro _ _ rest rest' _ hrest
  have hinit : (if nextIs .semicolon rest then .done none rest.tail []
      else if nextIs .kwVar rest then (variableDeclaration s rest.tail).map some
      else (expressionStatement s rest).map some).Corresponds T s s' (Option.Rel Q)
      (if nextIs .semicolon rest' then .done none rest'.tail []
        else if nextIs .kwVar rest' then (variableDeclaration s' rest'.tail).map some
        else (expressionStatement s' rest').map some) := by
    rw [nextIs_eq h.kind hrest, nextIs_eq h.kind hrest]
    split
    · exact .done .none (forall₂_tail hrest) .nil
    split
    · exact (corresponds_variableDeclaration h hs (forall₂_tail hrest)).map .some
    · exact (corresponds_terminated h hs _ h.expression hrest).map .some
  apply hinit.bind
  intro init init' rest rest' hinit hrest
  have hcondition : (if nextIs .semicolon rest then .done (.literal (.bool true)) rest []
      else expression s .lowest rest).Corresponds T s s' P
      (if nextIs .semicolon rest' then .done (.literal (.bool true)) rest' []
        else expression s' .lowest rest') := by
    rw [nextIs_eq h.kind hrest]
    split
    · exact .done (h.literal _) hrest .nil
    · exact corresponds_expression h .lowest hrest
  apply hcondition.bind
  intro c c' rest rest' hc hrest
  apply (corresponds_endStatement h hs _ hrest).bind
  intro _ _ rest rest' _ hrest
  have hincrement : (if nextIs .rightParen rest then .done none rest []
      else (expression s .lowest rest).map some).Corresponds T s s' (Option.Rel P)
      (if nextIs .rightParen rest' then .done none rest' []
        else (expression s' .lowest rest').map some) := by
    rw [nextIs_eq h.kind hrest]
    split
    · exact .done .none hrest .nil
    · exact corresponds_someExpression h hrest
  apply hincrement.bind
  intro increment increment' rest rest' hincrement hrest
  exact (corresponds_expect h _ _ hrest).map fun _ => ⟨hinit, hc, hincrement⟩

omit hs in
private theorem corresponds_around {c c' : ForClauses} (hc : ClausesCorrespond P Q c c')
    {body body' : Stmt} (hbody : Q body body') : Q (c.around body) (c'.around body') := by
  obtain ⟨init, condition, increment⟩ := c
  obtain ⟨init', condition', increment'⟩ := c'
  obtain ⟨hinit, hcondition, hincrement⟩ := hc
  have hloop {round round' : Stmt} (hround : Q round round') :
      Q (.block (init.toList ++ [.loop condition round]))
        (.block (init'.toList ++ [.loop condition' round'])) := by
    apply h.block
    cases hinit with
    | none => exact .cons (h.loop hcondition hround) .nil
    | some hst => exact .cons hst (.cons (h.loop hcondition hround) .nil)
  cases hincrement with
  | none => exact hloop hbody
  | some he => exact hloop (h.block (.cons hbody (.cons (h.expression he) .nil)))

/-- Statements and blocks that are read from fewer than `n` tokens. -/
structure StatementsCorrespondBelow (T : Token → Token → Prop) (Q : Stmt → Stmt → Prop)
    (s s' : Setting) (n : Nat) : Prop where
  statement {ts ts' : List Token} : ts.length < n → Forall₂ T ts ts' →
    (statement s ts).Corresponds T s s' Q (statement s' ts')
  block {ts ts' : List Token} : ts.length < n → Forall₂ T ts ts' →
    (block s ts).Corresponds T s s' (Forall₂ Q) (block s' ts')

omit hs in
private theorem corresponds_if (ih : StatementsCorrespondBelow T Q s s' n) (hn : ts.length < n)
    (hts : Forall₂ T ts ts') :
    ((condition s .ifNotOpened .ifNotClosed ts).bind fun c rest =>
      (statement s rest).bind fun yes rest =>
        if nextIs .kwElse rest then (statement s rest.tail).map (.ifElse c yes)
        else .done (.ifThen c yes) rest []).Corresponds T s s' Q
      ((condition s' .ifNotOpened .ifNotClosed ts').bind fun c rest =>
        (statement s' rest).bind fun yes rest =>
          if nextIs .kwElse rest then (statement s' rest.tail).map (.ifElse c yes)
          else .done (.ifThen c yes) rest []) := by
  apply (corresponds_condition h _ _ hts).bindWithin (condition_within ..)
  intro c c' rest rest' hlen hc hrest
  apply (ih.statement (by omega) hrest).bindWithin (statementWithin s rest).2
  intro yes yes' rest rest' hlen' hyes hrest
  rw [nextIs_eq h.kind hrest]
  split
  · have hshort : rest.tail.length < n := by
      rw [List.length_tail]
      omega
    exact (ih.statement hshort (forall₂_tail hrest)).map (h.ifElse hc hyes)
  · exact .done (h.ifThen hc hyes) hrest .nil

private theorem corresponds_statement (ih : StatementsCorrespondBelow T Q s s' n)
    (hn : ts.length ≤ n)
    (hts : Forall₂ T ts ts') : (statement s ts).Corresponds T s s' Q (statement s' ts') := by
  cases hts with
  | nil =>
    rw [statement_nil, statement_nil]
    exact corresponds_terminated h hs _ h.expression .nil
  | @cons t t' ts ts' ht hts =>
    rw [List.length_cons] at hn
    rw [statement_cons, statement_cons, ← h.kind ht]
    split
    · exact corresponds_terminated h hs _ (h.print ht) hts
    · exact corresponds_returnStatement h hs ht hts
    · exact (ih.block hn hts).map h.block
    · exact corresponds_if h ih hn hts
    · apply (corresponds_condition h _ _ hts).bindWithin (condition_within ..)
      intro c c' rest rest' hlen hc hrest
      exact (ih.statement (by omega) hrest).map (h.loop hc)
    · apply (corresponds_forClauses h hs hts).bindWithin (forClauses_within ..)
      intro c c' rest rest' hlen hc hrest
      exact (ih.statement (by omega) hrest).map (corresponds_around h hc)
    · exact corresponds_terminated h hs _ h.expression (.cons ht hts)

private theorem corresponds_declaration (ih : StatementsCorrespondBelow T Q s s' n)
    (hn : ts.length ≤ n)
    (hts : Forall₂ T ts ts') : (declaration s ts).Corresponds T s s' Q (declaration s' ts') := by
  cases hts with
  | nil => exact corresponds_statement h hs ih hn .nil
  | @cons t t' ts ts' ht hts =>
    rw [List.length_cons] at hn
    rw [declaration, declaration, ← h.kind ht]
    split
    · exact corresponds_variableDeclaration h hs hts
    · apply (corresponds_functionHead h hts).bindWithin (functionHead_within ..)
      rintro ⟨name, params⟩ ⟨name', params'⟩ rest rest' hlen ⟨hname, hparams⟩ hrest
      exact (ih.block (by omega) hrest).map (h.function hname hparams)
    · exact corresponds_statement h hs ih hn (.cons ht hts)

omit hs in
private theorem forall₂_resume (hts : Forall₂ T ts ts') : Forall₂ T (resume ts) (resume ts') := by
  induction hts with
  | nil => exact .nil
  | @cons t t' ts ts' ht hts ih =>
    cases hts with
    | nil =>
      have hnone (t : Token) : resume [t] = [] := by
        rw [resume]
        split <;> rfl
      rw [hnone, hnone]
      exact .nil
    | cons hu hus =>
      rw [resume, resume, h.kind ht, h.kind hu]
      split
      · exact .cons hu hus
      · split
        · exact .cons hu hus
        · exact ih

/-- What is read in place of a declaration, what is left and what was found wrong. -/
structure ItemsCorrespond (T : Token → Token → Prop) (Q : Stmt → Stmt → Prop) (s s' : Setting)
    (i i' : Item) : Prop where
  stmt : Q i.stmt i'.stmt
  rest : Forall₂ T i.rest i'.rest
  errors : Forall₂ (Faults T s s') i.errors i'.errors

private theorem items_correspond (ih : StatementsCorrespondBelow T Q s s' n) (hn : ts.length ≤ n)
    (hts : Forall₂ T ts ts') : ItemsCorrespond T Q s s' (item s ts) (item s' ts') := by
  have hread := corresponds_declaration h hs ih hn hts
  unfold item
  generalize declaration s ts = r, declaration s' ts' = r' at hread
  cases hread with
  | done hst hrest hnotes => exact ⟨hst, hrest, hnotes⟩
  | failed he hrest hnotes =>
    exact ⟨h.broken, forall₂_resume h hrest, List.rel_append hnotes (.cons he .nil)⟩

private theorem corresponds_block (ih : StatementsCorrespondBelow T Q s s' n) (hn : ts.length ≤ n)
    (hts : Forall₂ T ts ts') : (block s ts).Corresponds T s s' (Forall₂ Q) (block s' ts') := by
  cases hts with
  | nil =>
    rw [block_nil, block_nil]
    exact .failed (.atEnd _) .nil .nil
  | @cons t t' ts ts' ht hts =>
    rw [block_cons, block_cons, ← h.kind ht]
    split
    · exact .done .nil hts .nil
    · have hitem := items_correspond h hs ih hn (.cons ht hts)
      have hlen := length_item s t ts
      rw [List.length_cons] at hn
      have hmore := ih.block (by omega) hitem.rest
      exact (hmore.map (.cons hitem.stmt)).addNotes hitem.errors

private theorem statementsCorrespondBelow (n : Nat) : StatementsCorrespondBelow T Q s s' n := by
  induction n with
  | zero =>
    constructor
    · intro ts ts' hn
      exact absurd hn (Nat.not_lt_zero _)
    · intro ts ts' hn
      exact absurd hn (Nat.not_lt_zero _)
  | succ n ih =>
    constructor
    · intro ts ts' hn hts
      exact corresponds_statement h hs ih (Nat.le_of_lt_succ hn) hts
    · intro ts ts' hn hts
      exact corresponds_block h hs ih (Nat.le_of_lt_succ hn) hts

/-- Trees and errors of whole programs. -/
structure ProgramsCorrespond (T : Token → Token → Prop) (Q : Stmt → Stmt → Prop) (s s' : Setting)
    (p p' : Program) : Prop where
  statements : Forall₂ Q p.statements p'.statements
  errors : Forall₂ (Faults T s s') p.errors p'.errors

theorem programs_correspond (hts : Forall₂ T ts ts') :
    ProgramsCorrespond T Q s s' (declarations s ts) (declarations s' ts') := by
  induction hk : ts.length using Nat.strongRecOn generalizing ts ts' with
  | ind k ih =>
    subst hk
    cases hts with
    | nil =>
      rw [declarations, declarations]
      exact ⟨.nil, .nil⟩
    | @cons t t' ts ts' ht hts =>
      have hbelow := statementsCorrespondBelow h hs (t :: ts).length
      have hitem := items_correspond h hs hbelow (Nat.le_refl _) (.cons ht hts)
      have hmore := ih _ (Nat.lt_succ_of_le (length_item s t ts)) hitem.rest rfl
      rw [declarations, declarations]
      exact ⟨.cons hitem.stmt hmore.statements, List.rel_append hitem.errors hmore.errors⟩

omit hs in
theorem forall₂_input (hts : Forall₂ T ts ts') : Forall₂ T (input ts) (input ts') := by
  induction hts with
  | nil => exact .nil
  | @cons t t' ts ts' ht _ ih =>
    rw [input, input, List.takeWhile_cons, List.takeWhile_cons, h.kind ht]
    split
    · exact .cons ht ih
    · exact .nil

end Statements

end Scriptlet.Grammar
