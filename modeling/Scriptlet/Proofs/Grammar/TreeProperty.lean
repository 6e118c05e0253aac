import Scriptlet.Grammar.Program
import Scriptlet.Proofs.Grammar.CommaList

namespace Scriptlet.Grammar

/-- `P` and `Q` pass to every expression and statement made of such parts and of tokens that satisfy
`T`, with the operators that the table has for their places. -/
structure TreeProperty (T : Token → Prop) (P : Expr → Prop) (Q : Stmt → Prop) : Prop where
  literal (value : Literal) : P (.literal value)
  name {t : Token} : T t → P (.name t)
  assign {t : Token} {value : Expr} : P (.name t) → P value → P (.assign t value)
  group {inner : Expr} : P inner → P (.group inner)
  unary {op : Token} {operand : Expr} : T op → op.kind.opening? = some .operator →
    (op.kind.isStep = true → operand.isName = true) → P operand → P (.unary op operand)
  step {op t : Token} {p : Precedence} : T op → op.kind.joining? = some (p, .step) →
    P (.name t) → P (.step op t)
  binary {op : Token} {lhs rhs : Expr} {p : Precedence} : T op →
    op.kind.joining? = some (p, .binary) → P lhs → P rhs → P (.binary op lhs rhs)
  logical {op : Token} {lhs rhs : Expr} {p : Precedence} : T op →
    op.kind.joining? = some (p, .logical) → P lhs → P rhs → P (.logical op lhs rhs)
  call {paren : Token} {callee : Expr} {args : List Expr} : T paren → P callee →
    (∀ e ∈ args, P e) → P (.call callee paren args)
  expression {e : Expr} : P e → Q (.expression e)
  print {keyword : Token} {e : Expr} : T keyword → P e → Q (.print keyword e)
  var {name : Token} {init : Option Expr} : T name → (∀ e ∈ init, P e) → Q (.var name init)
  ret {keyword : Token} {value : Option Expr} : T keyword → (∀ e ∈ value, P e) →
    Q (.ret keyword value)
  block {body : List Stmt} : (∀ s ∈ body, Q s) → Q (.block body)
  ifThen {c : Expr} {yes : Stmt} : P c → Q yes → Q (.ifThen c yes)
  ifElse {c : Expr} {yes no : Stmt} : P c → Q yes → Q no → Q (.ifElse c yes no)
  loop {c : Expr} {body : Stmt} : P c → Q body → Q (.loop c body)
  function {name : Token} {params : List Token} {body : List Stmt} : T name →
    (∀ t ∈ params, T t) → (∀ s ∈ body, Q s) → Q (.function name params body)

variable {T : Token → Prop} {α β : Type} {P : α → Prop} {R : β → Prop}

namespace Reply

/-- `P` holds of what was read, if anything was, and `T` of the tokens that are left. -/
def Yields (T : Token → Prop) (P : α → Prop) : Reply α → Prop
  | .done a rest _ => P a ∧ ∀ t ∈ rest, T t
  | .failed _ rest _ => ∀ t ∈ rest, T t

theorem Yields.addNotes {r : Reply α} (h : r.Yields T P) (notes : List ParseError) :
    (r.addNotes notes).Yields T P := by
  cases r with
  | done a rest more => exact h
  | failed e rest more => exact h

/-- The second reader has fewer tokens to read. -/
theorem Yields.bindWithin {n : Nat} {r : Reply α} {f : α → List Token → Reply β}
    (h : r.Yields T P) (hn : r.Within n)
    (hf : ∀ a rest, rest.length < n → P a → (∀ t ∈ rest, T t) → (f a rest).Yields T R) :
    (r.bind f).Yields T R := by
  cases r with
  | done a rest notes =>
    obtain ⟨ha, hrest⟩ := h
    exact (hf a rest hn ha hrest).addNotes notes
  | failed e rest notes => exact h

theorem Yields.bind {r : Reply α} {f : α → List Token → Reply β} (h : r.Yields T P)
    (hf : ∀ a rest, P a → (∀ t ∈ rest, T t) → (f a rest).Yields T R) : (r.bind f).Yields T R := by
  have hwithin : r.Within (r.rest.length + 1) := by
    cases r with
    | done a rest notes => exact Nat.lt_succ_self _
    | failed e rest notes => exact Nat.le_succ _
  exact h.bindWithin hwithin fun a rest _ => hf a rest

theorem Yields.map {r : Reply α} {g : α → β} (h : r.Yields T P) (hg : ∀ a, P a → R (g a)) :
    (r.map g).Yields T R := by
  apply h.bind
  intro a rest ha hrest
  exact ⟨hg a ha, hrest⟩

end Reply

open Reply

private theorem yields_expect (s : Setting) (kind : TokenKind) (fault : Fault) {ts : List Token}
    (hts : ∀ t ∈ ts, T t) : (expect s kind fault ts).Yields T T := by
  cases ts with
  | nil => exact hts
  | cons t ts =>
    rw [expect]
    split
    · exact List.forall_mem_cons.1 hts
    · exact hts

private theorem yields_endStatement (s : Setting) (fault : Fault) {ts : List Token}
    (hts : ∀ t ∈ ts, T t) : (endStatement s fault ts).Yields T fun _ => True := by
  unfold endStatement
  split
  · exact ⟨trivial, fun t ht => nomatch ht⟩
  · apply (yields_expect s _ fault hts).map
    intro _ _
    trivial

/-- Entries that are read from fewer than `n` tokens. -/
theorem ReadsCommaList.yields {s : Setting} {fault : Fault} {one : List Token → Reply α}
    {many : Nat → List Token → Reply (List α)} (h : ReadsCommaList s fault one many) {n : Nat}
    (hwithin : ∀ ts, (one ts).Within ts.length)
    (hone : ∀ ts, ts.length < n → (∀ t ∈ ts, T t) → (one ts).Yields T P) {ts : List Token}
    {count : Nat} (hn : ts.length < n) (hts : ∀ t ∈ ts, T t) :
    (many count ts).Yields T fun as => ∀ a ∈ as, P a := by
  induction hk : ts.length using Nat.strongRecOn generalizing ts count with
  | ind k ih =>
    subst hk
    rw [h]
    apply Yields.addNotes
    apply (hone ts hn hts).bindWithin (hwithin ts)
    intro a rest hlen ha hrest
    split
    · have hshort : rest.tail.length < ts.length := by
        rw [List.length_tail]
        omega
      have hmore : (many (count + 1) rest.tail).Yields T fun as => ∀ a ∈ as, P a :=
        ih _ hshort (Nat.lt_trans hshort hn) (fun t ht => hrest t (List.mem_of_mem_tail ht)) rfl
      apply hmore.map
      intro as has
      exact List.forall_mem_cons.2 ⟨ha, has⟩
    · refine ⟨?_, hrest⟩
      intro b hb
      rw [List.mem_singleton.1 hb]
      exact ha

/-- The entries between two parentheses. -/
theorem ReadsCommaList.yields_parenthesized {s : Setting} {fault : Fault}
    {one : List Token → Reply α} {many : Nat → List Token → Reply (List α)}
    (h : ReadsCommaList s fault one many) {n : Nat} (hwithin : ∀ ts, (one ts).Within ts.length)
    (hone : ∀ ts, ts.length < n → (∀ t ∈ ts, T t) → (one ts).Yields T P) {ts : List Token}
    (hn : ts.length < n) (hts : ∀ t ∈ ts, T t) :
    (if nextIs .rightParen ts then .done [] ts [] else many 0 ts).Yields T
      fun as => ∀ a ∈ as, P a := by
  split
  · refine ⟨?_, hts⟩
    intro a ha
    cases ha
  · exact h.yields hwithin hone hn hts

section Expressions

variable {Pe : Expr → Prop} {Q : Stmt → Prop} {s : Setting} {n : Nat}

/-- Expressions that are read from fewer than `n` tokens. -/
def YieldsBelow (s : Setting) (T : Token → Prop) (P : Expr → Prop) (n : Nat) : Prop :=
  ∀ m ts, ts.length < n → (∀ t ∈ ts, T t) → (expression s m ts).Yields T P

private theorem yields_unary (h : TreeProperty T Pe Q) {op : Token} {operand : Expr}
    {ts : List Token} (hop : T op) (hk : op.kind.opening? = some .operator) (he : Pe operand)
    (hts : ∀ t ∈ ts, T t) : (unary op operand ts).Yields T Pe := by
  unfold unary
  split
  · exact hts
  · next hstep =>
    have hname : op.kind.isStep = true → operand.isName = true := by
      intro hk
      simpa [hk] using hstep
    exact ⟨h.unary hop hk hname he, hts⟩

private theorem yields_operand (h : TreeProperty T Pe Q) (ih : YieldsBelow s T Pe n)
    {ts : List Token} (hn : ts.length ≤ n) (hts : ∀ t ∈ ts, T t) : (operand s ts).Yields T Pe := by
  cases ts with
  | nil =>
    rw [operand_nil]
    exact hts
  | cons t ts =>
    rw [List.length_cons] at hn
    obtain ⟨ht, hrest⟩ := List.forall_mem_cons.1 hts
    rw [operand_cons]
    split
    · exact hts
    · split
      · exact ⟨h.literal _, hrest⟩
      · exact hrest
    · exact ⟨h.name ht, hrest⟩
    · apply (ih .lowest ts hn hrest).bind
      intro inner rest hinner hmore
      apply (yields_expect s _ _ hmore).map
      intro _ _
      exact h.group hinner
    · next hk =>
      apply (ih .unary ts hn hrest).bind
      intro operand rest he hmore
      exact yields_unary h ht hk he hmore

private theorem yields_join (h : TreeProperty T Pe Q) (ih : YieldsBelow s T Pe n) {p : Precedence}
    {joining : Joining} {lhs : Expr} {op : Token} {ts : List Token} (hn : ts.length < n)
    (hop : T op) (hk : op.kind.joining? = some (p, joining)) (hlhs : Pe lhs)
    (hts : ∀ t ∈ ts, T t) : (join s p joining lhs op ts).Yields T Pe := by
  rw [join_eq]
  cases joining with
  | binary =>
    apply (ih p ts hn hts).map
    intro rhs hrhs
    exact h.binary hop hk hlhs hrhs
  | logical =>
    apply (ih p ts hn hts).map
    intro rhs hrhs
    exact h.logical hop hk hlhs hrhs
  | assign =>
    apply (ih .lowest ts hn hts).bind
    intro value rest hvalue hrest
    unfold assign
    split
    · exact ⟨h.assign hlhs hvalue, hrest⟩
    · exact hrest
  | step =>
    dsimp only
    unfold step
    split
    · exact ⟨h.step hop hk hlhs, hts⟩
    · exact hts
  | call =>
    have hargs := (readsCommaList_arguments s).yields_parenthesized (expression_within s .lowest)
      (ih .lowest) hn hts
    apply hargs.bind
    intro args rest hall hrest
    apply (yields_expect s _ _ hrest).map
    intro paren hparen
    exact h.call hparen hlhs hall

private theorem yields_grow (h : TreeProperty T Pe Q) (ih : YieldsBelow s T Pe n) {m : Precedence}
    {lhs : Expr} {ts : List Token} (hn : ts.length ≤ n) (hlhs : Pe lhs) (hts : ∀ t ∈ ts, T t) :
    (grow s m lhs ts).Yields T Pe := by
  induction hk : ts.length using Nat.strongRecOn generalizing ts lhs with
  | ind k hshorter =>
    subst hk
    cases ts with
    | nil =>
      rw [grow_nil]
      exact ⟨hlhs, hts⟩
    | cons t ts =>
      rw [List.length_cons] at hn hshorter
      obtain ⟨ht, hrest⟩ := List.forall_mem_cons.1 hts
      rw [grow_cons]
      split
      · exact ⟨hlhs, hts⟩
      · next p joining hjoining =>
        split
        · have hjoin := yields_join h ih hn ht hjoining hlhs hrest
          apply hjoin.bindWithin (joinWithin s p joining lhs t ts).2
          intro e rest hlen he hmore
          exact hshorter rest.length hlen (by omega) he hmore rfl
        · exact ⟨hlhs, hts⟩

private theorem yieldsBelow (h : TreeProperty T Pe Q) (s : Setting) (n : Nat) :
    YieldsBelow s T Pe n := by
  induction n with
  | zero =>
    intro m ts hn
    exact absurd hn (Nat.not_lt_zero _)
  | succ n ih =>
    intro m ts hn hts
    have hlen : ts.length ≤ n := Nat.le_of_lt_succ hn
    rw [expression_eq]
    apply (yields_operand h ih hlen hts).bindWithin (operandWithin s ts).2
    intro lhs rest hrest hlhs hmore
    exact yields_grow h ih (by omega) hlhs hmore

private theorem yields_expression (h : TreeProperty T Pe Q) (s : Setting) (m : Precedence)
    {ts : List Token} (hts : ∀ t ∈ ts, T t) : (expression s m ts).Yields T Pe :=
  yieldsBelow h s (ts.length + 1) m ts (Nat.lt_succ_self _) hts

end Expressions

section Statements

variable {Pe : Expr → Prop} {Q : Stmt → Prop} {s : Setting} {ts : List Token}

/-- An expression with a semicolon behind it. -/
theorem yields_terminated (h : TreeProperty T Pe Q) (fault : Fault) {f : Expr → Stmt}
    (hf : ∀ e, Pe e → Q (f e)) (hts : ∀ t ∈ ts, T t) :
    ((expression s .lowest ts).bind fun e rest =>
      (endStatement s fault rest).map fun _ => f e).Yields T Q := by
  apply (yields_expression h s .lowest hts).bind
  intro e rest he hrest
  apply (yields_endStatement s fault hrest).map
  intro _ _
  exact hf e he

private theorem yields_someExpression (h : TreeProperty T Pe Q) (hts : ∀ t ∈ ts, T t) :
    ((expression s .lowest ts).map some).Yields T fun o => ∀ e ∈ o, Pe e := by
  apply (yields_expression h s .lowest hts).map
  intro e he e' he'
  cases he'
  exact he

/-- What may be left out has nothing to satisfy where it is. -/
theorem yields_optional {r : Reply (Option α)} (b : Bool) (hts : ∀ t ∈ ts, T t)
    (hr : r.Yields T fun o => ∀ a ∈ o, P a) :
    (if b then .done none ts [] else r).Yields T fun o => ∀ a ∈ o, P a := by
  split
  · refine ⟨?_, hts⟩
    intro a ha
    cases ha
  · exact hr

private theorem yields_returnStatement (h : TreeProperty T Pe Q) {keyword : Token} (hk : T keyword)
    (hts : ∀ t ∈ ts, T t) : (returnStatement s keyword ts).Yields T Q := by
  apply (yields_optional _ hts (yields_someExpression h hts)).bind
  intro value rest hvalue hrest
  apply (yields_endStatement s _ hrest).map
  intro _ _
  exact h.ret hk hvalue

private theorem yields_variableDeclaration (h : TreeProperty T Pe Q) (hts : ∀ t ∈ ts, T t) :
    (variableDeclaration s ts).Yields T Q := by
  apply (yields_expect s _ _ hts).bind
  intro name rest hname hrest
  have hinit : (if nextIs .equal rest then (expression s .lowest rest.tail).map some
      else .done none rest []).Yields T fun o => ∀ e ∈ o, Pe e := by
    split
    · exact yields_someExpression h fun t ht => hrest t (List.mem_of_mem_tail ht)
    · refine ⟨?_, hrest⟩
      intro e he
      cases he
  apply hinit.bind
  intro init rest hinit hrest
  apply (yields_endStatement s _ hrest).map
  intro _ _
  exact h.var hname hinit

private theorem yields_condition (h : TreeProperty T Pe Q) (opened closed : Fault)
    (hts : ∀ t ∈ ts, T t) :
    (condition s opened closed ts).Yields T Pe := by
  apply (yields_expect s _ _ hts).bind
  intro _ rest _ hrest
  apply (yields_expression h s .lowest hrest).bind
  intro e rest he hrest
  apply (yields_expect s _ _ hrest).map
  intro _ _
  exact he

private theorem yields_functionHead (hts : ∀ t ∈ ts, T t) :
    (functionHead s ts).Yields T fun head => T head.1 ∧ ∀ t ∈ head.2, T t := by
  apply (yields_expect s _ _ hts).bind
  intro name rest hname hrest
  apply (yields_expect s _ _ hrest).bind
  intro _ rest _ hrest
  have hparams := (readsCommaList_parameters s).yields_parenthesized (expect_within s _ _)
    (fun _ _ hts => yields_expect s _ _ hts) (Nat.lt_succ_self _) hrest
  apply hparams.bind
  intro params rest hparams hrest
  apply (yields_expect s _ _ hrest).bind
  intro _ rest _ hrest
  apply (yields_expect s _ _ hrest).map
  intro _ _
  exact ⟨hname, hparams⟩

/-- What `for` clauses consist of. -/
def ForClauses.Satisfy (P : Expr → Prop) (Q : Stmt → Prop) (c : ForClauses) : Prop :=
  (∀ st ∈ c.init, Q st) ∧ P c.condition ∧ ∀ e ∈ c.increment, P e

private theorem yields_forClauses (h : TreeProperty T Pe Q) (hts : ∀ t ∈ ts, T t) :
    (forClauses s ts).Yields T (ForClauses.Satisfy Pe Q) := by
  apply (yields_expect s _ _ hts).bind
  intro _ rest _ hrest
  have hinit : (if nextIs .semicolon rest then .done none rest.tail []
      else if nextIs .kwVar rest then (variableDeclaration s rest.tail).map some
      else (expressionStatement s rest).map some).Yields T fun o => ∀ st ∈ o, Q st := by
    have htail : ∀ t ∈ rest.tail, T t := fun t ht => hrest t (List.mem_of_mem_tail ht)
    have hsome (st : Stmt) (hst : Q st) : ∀ st' ∈ some st, Q st' := by
      intro st' hst'
      cases hst'
      exact hst
    split
    · refine ⟨?_, htail⟩
      intro st hst
      cases hst
    split
    · exact (yields_variableDeclaration h htail).map hsome
    · exact (yields_terminated h _ (fun _ he => h.expression he) hrest).map hsome
  apply hinit.bind
  intro init rest hinit hrest
  have hcondition : (if nextIs .semicolon rest then .done (.literal (.bool true)) rest []
      else expression s .lowest rest).Yields T Pe := by
    split
    · exact ⟨h.literal _, hrest⟩
    · exact yields_expression h s .lowest hrest
  apply hcondition.bind
  intro c rest hc hrest
  apply (yields_endStatement s _ hrest).bind
  intro _ rest _ hrest
  apply (yields_optional _ hrest (yields_someExpression h hrest)).bind
  intro increment rest hincrement hrest
  apply (yields_expect s _ _ hrest).map
  intro _ _
  exact ⟨hinit, hc, hincrement⟩

theorem TreeProperty.around (h : TreeProperty T Pe Q) {c : ForClauses} (hc : c.Satisfy Pe Q)
    {body : Stmt} (hbody : Q body) : Q (c.around body) := by
  obtain ⟨init, condition, increment⟩ := c
  obtain ⟨hinit, hcondition, hincrement⟩ := hc
  have hloop {round : Stmt} (hround : Q round) :
      Q (.block (init.toList ++ [.loop condition round])) := by
    apply h.block
    intro st hst
    rcases List.mem_append.1 hst with hst | hst
    · exact hinit st (Option.mem_toList.1 hst)
    · rw [List.mem_singleton.1 hst]
      exact h.loop hcondition hround
  cases increment with
  | none => exact hloop hbody
  | some e =>
    have hround : Q (.block [body, .expression e]) := by
      apply h.block
      intro st hst
      rcases List.mem_cons.1 hst with rfl | hst
      · exact hbody
      · rw [List.mem_singleton.1 hst]
        exact h.expression (hincrement e rfl)
    exact hloop hround

/-- Statements and blocks that are read from fewer than `n` tokens. -/
structure YieldsStatementsBelow (s : Setting) (T : Token → Prop) (Q : Stmt → Prop) (n : Nat) :
    Prop where
  statement {ts : List Token} : ts.length < n → (∀ t ∈ ts, T t) → (statement s ts).Yields T Q
  block {ts : List Token} : ts.length < n → (∀ t ∈ ts, T t) →
    (block s ts).Yields T fun body => ∀ st ∈ body, Q st

private theorem yields_if (h : TreeProperty T Pe Q) {n : Nat} (ih : YieldsStatementsBelow s T Q n)
    (hn : ts.length < n) (hts : ∀ t ∈ ts, T t) :
    ((condition s .ifNotOpened .ifNotClosed ts).bind fun c rest =>
      (statement s rest).bind fun yes rest =>
        if nextIs .kwElse rest then (statement s rest.tail).map (.ifElse c yes)
        else .done (.ifThen c yes) rest []).Yields T Q := by
  apply (yields_condition h _ _ hts).bindWithin (condition_within ..)
  intro c rest hlen hc hrest
  apply (ih.statement (by omega) hrest).bindWithin (statementWithin s rest).2
  intro yes rest hlen' hyes hrest
  split
  · have hno : (statement s rest.tail).Yields T Q := by
      apply ih.statement
      · rw [List.length_tail]
        omega
      · exact fun t ht => hrest t (List.mem_of_mem_tail ht)
    apply hno.map
    intro no hno
    exact h.ifElse hc hyes hno
  · exact ⟨h.ifThen hc hyes, hrest⟩

private theorem yields_statement (h : TreeProperty T Pe Q) {n : Nat}
    (ih : YieldsStatementsBelow s T Q n)
    (hn : ts.length ≤ n) (hts : ∀ t ∈ ts, T t) : (statement s ts).Yields T Q := by
  cases ts with
  | nil =>
    rw [statement_nil]
    exact yields_terminated h _ (fun _ he => h.expression he) hts
  | cons t ts =>
    rw [List.length_cons] at hn
    obtain ⟨ht, hrest⟩ := List.forall_mem_cons.1 hts
    rw [statement_cons]
    split
    · exact yields_terminated h _ (fun _ he => h.print ht he) hrest
    · exact yields_returnStatement h ht hrest
    · exact (ih.block hn hrest).map fun _ => h.block
    · exact yields_if h ih hn hrest
    · apply (yields_condition h _ _ hrest).bindWithin (condition_within ..)
      intro c rest hlen hc hmore
      apply (ih.statement (by omega) hmore).map
      intro body hbody
      exact h.loop hc hbody
    · apply (yields_forClauses h hrest).bindWithin (forClauses_within ..)
      intro c rest hlen hc hmore
      apply (ih.statement (by omega) hmore).map
      intro body hbody
      exact h.around hc hbody
    · exact yields_terminated h _ (fun _ he => h.expression he) hts

private theorem yields_declaration (h : TreeProperty T Pe Q) {n : Nat}
    (ih : YieldsStatementsBelow s T Q n)
    (hn : ts.length ≤ n) (hts : ∀ t ∈ ts, T t) : (declaration s ts).Yields T Q := by
  cases ts with
  | nil => exact yields_statement h ih hn hts
  | cons t ts =>
    rw [List.length_cons] at hn
    have hrest := (List.forall_mem_cons.1 hts).2
    rw [declaration]
    split
    · exact yields_variableDeclaration h hrest
    · apply (yields_functionHead hrest).bindWithin (functionHead_within ..)
      rintro ⟨name, params⟩ rest hlen ⟨hname, hparams⟩ hmore
      apply (ih.block (by omega) hmore).map
      intro body hbody
      exact h.function hname hparams hbody
    · exact yields_statement h ih hn hts

private theorem mem_of_mem_resume {t : Token} (h : t ∈ resume ts) : t ∈ ts := by
  induction ts with
  | nil => cases h
  | cons u us ih =>
    unfold resume at h
    split at h
    · exact List.mem_cons_of_mem u h
    · split at h
      · cases h
      · split at h
        · exact List.mem_cons_of_mem u h
        · exact List.mem_cons_of_mem u (ih h)

/-- Reading goes on behind what could not be read, with tokens that were there. -/
theorem yields_item (h : TreeProperty T Pe Q) (hbroken : Q .broken) {n : Nat}
    (ih : YieldsStatementsBelow s T Q n) (hn : ts.length ≤ n) (hts : ∀ t ∈ ts, T t) :
    Q (item s ts).stmt ∧ ∀ t ∈ (item s ts).rest, T t := by
  have hread := yields_declaration h ih hn hts
  rw [item]
  cases hr : declaration s ts with
  | done st rest notes =>
    rw [hr] at hread
    exact hread
  | failed e rest notes =>
    rw [hr] at hread
    exact ⟨hbroken, fun t ht => hread t (mem_of_mem_resume ht)⟩

private theorem yields_block (h : TreeProperty T Pe Q) (hbroken : Q .broken) {n : Nat}
    (ih : YieldsStatementsBelow s T Q n) (hn : ts.length ≤ n) (hts : ∀ t ∈ ts, T t) :
    (block s ts).Yields T fun body => ∀ st ∈ body, Q st := by
  cases ts with
  | nil =>
    rw [block_nil]
    exact hts
  | cons t ts =>
    rw [block_cons]
    split
    · refine ⟨?_, (List.forall_mem_cons.1 hts).2⟩
      intro st hst
      cases hst
    · obtain ⟨hitem, hrest⟩ := yields_item h hbroken ih hn hts
      have hlen := length_item s t ts
      rw [List.length_cons] at hn
      apply Yields.addNotes
      apply (ih.block (by omega) hrest).map
      intro body hbody
      exact List.forall_mem_cons.2 ⟨hitem, hbody⟩

private theorem yieldsStatementsBelow (h : TreeProperty T Pe Q) (hbroken : Q .broken) (s : Setting)
    (n : Nat) : YieldsStatementsBelow s T Q n := by
  induction n with
  | zero =>
    constructor
    · intro ts hn
      exact absurd hn (Nat.not_lt_zero _)
    · intro ts hn
      exact absurd hn (Nat.not_lt_zero _)
  | succ n ih =>
    constructor
    · intro ts hn hts
      exact yields_statement h ih (Nat.le_of_lt_succ hn) hts
    · intro ts hn hts
      exact yields_block h hbroken ih (Nat.le_of_lt_succ hn) hts

theorem TreeProperty.declarations (h : TreeProperty T Pe Q) (hbroken : Q .broken) (s : Setting)
    (hts : ∀ t ∈ ts, T t) : ∀ st ∈ (declarations s ts).statements, Q st := by
  induction hk : ts.length using Nat.strongRecOn generalizing ts with
  | ind k ih =>
    subst hk
    cases ts with
    | nil =>
      rw [Grammar.declarations]
      intro st hst
      cases hst
    | cons t ts =>
      have hbelow := yieldsStatementsBelow h hbroken s (t :: ts).length
      obtain ⟨hitem, hrest⟩ := yields_item h hbroken hbelow (Nat.le_refl _) hts
      have hmore := ih _ (Nat.lt_succ_of_le (length_item s t ts)) hrest rfl
      rw [Grammar.declarations]
      intro st hst
      rcases List.mem_cons.1 hst with rfl | hst
      · exact hitem
      · exact hmore st hst

/-- Every program has the property, whatever is wrong with it. -/
theorem TreeProperty.ofTokens (h : TreeProperty T Pe Q) (hbroken : Q .broken) (interactive : Bool)
    {tokens : List Token} (hT : ∀ t ∈ tokens, T t) :
    ∀ st ∈ (Program.ofTokens interactive tokens).statements, Q st := by
  apply h.declarations hbroken
  intro t ht
  exact hT t ((List.takeWhile_sublist _).subset ht)

end Statements

end Scriptlet.Grammar
