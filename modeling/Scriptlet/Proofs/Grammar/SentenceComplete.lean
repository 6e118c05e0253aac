import Scriptlet.Proofs.Grammar.ExpressionSound
import Scriptlet.Proofs.Grammar.Sentence

namespace Scriptlet.Grammar

theorem nextIs_cons (k : TokenKind) (t : Token) (ts : List Token) :
    nextIs k (t :: ts) = (t.kind == k) := rfl

/-- An expression in front of a token that cannot continue it. -/
theorem expression_closed (s : Setting) {ts : List Token} {e : Expr} (h : Derives .assignment ts e)
    {t : Token} (us : List Token) (ht : t.kind.joining? = none) :
    expression s .lowest (ts ++ t :: us) = .done e (t :: us) [] :=
  (expression_eq_done_iff s (by decide)).2 ⟨.of_not_joining _ _ ht, h⟩

private theorem terminated_append (s : Setting) (fault : Fault) {ts : List Token} {e : Expr}
    (h : Derives .assignment ts e) {semicolon : Token} (hs : semicolon.kind = .semicolon)
    (f : Expr → Stmt) (us : List Token) :
    ((expression s .lowest (ts ++ [semicolon] ++ us)).bind fun e rest =>
      (endStatement s fault rest).map fun _ => f e) = .done (f e) us [] := by
  have hread : expression s .lowest (ts ++ [semicolon] ++ us) = .done e (semicolon :: us) [] := by
    rw [List.append_assoc]
    exact expression_closed s h us (by rw [hs]; rfl)
  rw [hread, Reply.done_bind, endStatement_cons s fault us hs, Reply.done_map]

private theorem optional_append (s : Setting) {ts : List Token} {o : Option Expr}
    (h : Optionally ts o)
    {t : Token} (us : List Token) (ho : t.kind.opening? = none) (hj : t.kind.joining? = none) :
    (if nextIs t.kind (ts ++ t :: us) then .done none (ts ++ t :: us) []
      else (expression s .lowest (ts ++ t :: us)).map some) = Reply.done o (t :: us) [] := by
  cases h with
  | absent => rw [List.nil_append, nextIs_cons, if_pos (beq_self_eq_true _)]
  | given he =>
    rw [not_nextIs_of_derives he ho, expression_closed s he us hj]
    rfl

private theorem returnStatement_append (s : Setting) (ret : Token) {ts : List Token}
    {value : Option Expr} (h : Optionally ts value) {semicolon : Token}
    (hs : semicolon.kind = .semicolon) (us : List Token) :
    returnStatement s ret (ts ++ [semicolon] ++ us) = .done (.ret ret value) us [] := by
  have hvalue := optional_append s h us (by rw [hs]; rfl) (by rw [hs]; rfl)
  rw [hs] at hvalue
  have hne : (ts ++ semicolon :: us).isEmpty = false := by cases ts <;> rfl
  rw [List.append_assoc, List.singleton_append, returnStatement, hne, Bool.false_or, hvalue,
    Reply.done_bind, endStatement_cons s _ us hs, Reply.done_map]

theorem condition_append (s : Setting) (opens closes : Fault) {opened closed : Token}
    {ts : List Token} {c : Expr} (ho : opened.kind = .leftParen) (h : Derives .assignment ts c)
    (hc : closed.kind = .rightParen) (us : List Token) :
    condition s opens closes (opened :: (ts ++ closed :: us)) = .done c us [] := by
  rw [condition, expect_cons s _ _ ho, Reply.done_bind,
    expression_closed s h us (by rw [hc]; rfl), Reply.done_bind, expect_cons s _ us hc,
    Reply.done_map]

/-- A variable declaration behind its keyword. -/
theorem variableDeclaration_append (s : Setting) {ts : List Token} {st : Stmt}
    (h : VariableClause ts st) (us : List Token) :
    ∃ var more, ts = var :: more ∧ var.kind = .kwVar ∧
      variableDeclaration s (more ++ us) = .done st us [] := by
  cases h with
  | @plain var x semicolon hvar hx hs =>
    refine ⟨var, [x, semicolon], rfl, hvar, ?_⟩
    have hnext : nextIs .equal (semicolon :: us) = false := by rw [nextIs_cons, hs]; rfl
    rw [variableDeclaration, List.cons_append, expect_cons s _ _ hx, Reply.done_bind,
      List.singleton_append, hnext]
    change Reply.bind (.done none (semicolon :: us) []) _ = _
    rw [Reply.done_bind, endStatement_cons s _ us hs, Reply.done_map]
  | @initialized var x equal semicolon ts e hvar hx he hd hs =>
    refine ⟨var, x :: equal :: (ts ++ [semicolon]), rfl, hvar, ?_⟩
    have hnext : nextIs .equal (equal :: (ts ++ [semicolon] ++ us)) = true := by
      rw [nextIs_cons, he]
      rfl
    have hread : expression s .lowest (ts ++ [semicolon] ++ us) =
        .done e (semicolon :: us) [] := by
      rw [List.append_assoc]
      exact expression_closed s hd us (by rw [hs]; rfl)
    rw [variableDeclaration, List.cons_append, expect_cons s _ _ hx, Reply.done_bind,
      List.cons_append, if_pos hnext, List.tail_cons, hread, Reply.done_map, Reply.done_bind,
      endStatement_cons s _ us hs, Reply.done_map]

private theorem functionHead_append (s : Setting) {name opened closed start : Token}
    {params ts : List Token} (hn : name.kind = .identifier) (ho : opened.kind = .leftParen)
    (hl : Listed (params.map fun p => [p]) ts) (hp : ∀ p ∈ params, p.kind = .identifier)
    (hcount : params.length ≤ 255) (hc : closed.kind = .rightParen)
    (hs : start.kind = .leftBrace) (us : List Token) :
    functionHead s (name :: opened :: (ts ++ closed :: start :: us)) =
      .done (name, params) us [] := by
  have hparams : (if nextIs .rightParen (ts ++ closed :: start :: us)
      then .done [] (ts ++ closed :: start :: us) []
      else parameters s 0 (ts ++ closed :: start :: us)) =
      Reply.done params (closed :: start :: us) [] := by
    let items := params.map fun p => ([p], p)
    have hlisted : Listed (items.map Prod.fst) ts := by
      rw [List.map_map]
      exact hl
    have hone : ∀ a ∈ items, ∀ t rest, t.kind = .comma ∨ t.kind = .rightParen →
        expect s .identifier .noParameterName (a.1 ++ t :: rest) = .done a.2 (t :: rest) [] := by
      intro a ha t rest _
      obtain ⟨p, hmem, rfl⟩ := List.mem_map.1 ha
      exact expect_cons s _ _ (hp p hmem)
    have hopen : ∀ a ∈ items, ∀ rest, nextIs .rightParen (a.1 ++ rest) = false := by
      intro a ha rest
      obtain ⟨p, hmem, rfl⟩ := List.mem_map.1 ha
      rw [List.singleton_append, nextIs_cons, hp p hmem]
      rfl
    have hfew : items.length ≤ 255 := by rwa [List.length_map]
    have hseconds : items.map Prod.snd = params := by
      rw [List.map_map]
      exact List.map_id params
    rw [(readsCommaList_parameters s).parenthesized (start :: us) hlisted hone hopen hfew hc,
      hseconds]
  rw [functionHead, expect_cons s _ _ hn, Reply.done_bind, expect_cons s _ _ ho, Reply.done_bind,
    hparams, Reply.done_bind, expect_cons s _ _ hc, Reply.done_bind, expect_cons s _ _ hs,
    Reply.done_map]

private theorem initialClause_append (s : Setting) {ts : List Token} {init : Option Stmt}
    (h : InitialClause ts init) (us : List Token) :
    (if nextIs .semicolon (ts ++ us) then .done none (ts ++ us).tail []
      else if nextIs .kwVar (ts ++ us) then (variableDeclaration s (ts ++ us).tail).map some
      else (expressionStatement s (ts ++ us)).map some) = Reply.done init us [] := by
  cases h with
  | absent hs =>
    rw [List.singleton_append, nextIs_cons, hs]
    rfl
  | binding hv =>
    obtain ⟨var, more, rfl, hvar, hread⟩ := variableDeclaration_append s hv us
    rw [List.cons_append, nextIs_cons, nextIs_cons, hvar, List.tail_cons, hread]
    rfl
  | @expression ts e semicolon he hs =>
    have hnext {k : TokenKind} (hk : k.opening? = none) :
        nextIs k (ts ++ [semicolon] ++ us) = false := by
      rw [List.append_assoc]
      exact not_nextIs_of_derives he hk
    rw [hnext rfl, hnext rfl, expressionStatement, terminated_append s _ he hs .expression us]
    rfl

theorem forClauses_append (s : Setting) {opened semicolon closed : Token}
    {is cs ns : List Token} {init : Option Stmt} {c increment : Option Expr}
    (ho : opened.kind = .leftParen) (hi : InitialClause is init) (hcond : Optionally cs c)
    (hs : semicolon.kind = .semicolon) (hn : Optionally ns increment)
    (hc : closed.kind = .rightParen) (us : List Token) :
    forClauses s (opened :: (is ++ (cs ++ semicolon :: (ns ++ closed :: us)))) =
      .done ⟨init, c.getD (.literal (.bool true)), increment⟩ us [] := by
  have hcondition : (if nextIs .semicolon (cs ++ semicolon :: (ns ++ closed :: us))
      then .done (.literal (.bool true)) (cs ++ semicolon :: (ns ++ closed :: us)) []
      else expression s .lowest (cs ++ semicolon :: (ns ++ closed :: us))) =
      Reply.done (c.getD (.literal (.bool true))) (semicolon :: (ns ++ closed :: us)) [] := by
    cases hcond with
    | absent =>
      rw [List.nil_append, nextIs_cons, hs]
      rfl
    | given he =>
      rw [not_nextIs_of_derives he rfl, expression_closed s he _ (by rw [hs]; rfl)]
      rfl
  have hincrement := optional_append s hn us (by rw [hc]; rfl) (by rw [hc]; rfl)
  rw [hc] at hincrement
  rw [forClauses, expect_cons s _ _ ho, Reply.done_bind, initialClause_append s hi, Reply.done_bind,
    hcondition, Reply.done_bind, endStatement_cons s _ _ hs, Reply.done_bind, hincrement,
    Reply.done_bind, expect_cons s _ us hc, Reply.done_map]

theorem statement_of_expression (s : Setting) {ts : List Token} {e : Expr}
    (h : Derives .assignment ts e) (us : List Token) :
    statement s (ts ++ us) = expressionStatement s (ts ++ us) := by
  obtain ⟨t, ts, rfl, ht⟩ := h.exists_opening
  rw [List.cons_append, statement_cons]
  cases hk : t.kind <;> rw [hk] at ht <;> cases ht

theorem declaration_eq_statement (s : Setting) {t : Token} (ts : List Token)
    (h : declares t.kind = false) : declaration s (t :: ts) = statement s (t :: ts) := by
  rw [declaration]
  cases hk : t.kind <;> rw [hk] at h <;> first | rfl | cases h

def Form.reader (s : Setting) : Form → List Token → Reply Stmt
  | .statement _ => Grammar.statement s
  | .declaration => Grammar.declaration s

/-- What may follow a sentence: an `else` only where it cannot become part of it. -/
def Form.Allows : Form → List Token → Prop
  | .statement false, _ => True
  | .statement true, us | .declaration, us => nextIs .kwElse us = false

/-- The tokens are read as one sentence wherever it may stand. -/
def Form.Reads (s : Setting) (f : Form) (ts : List Token) (st : Stmt) : Prop :=
  ∀ us, f.Allows us → f.reader s (ts ++ us) = .done st us []

theorem item_of_declaration {s : Setting} {ts us : List Token} {st : Stmt}
    (h : declaration s ts = .done st us []) : item s ts = ⟨st, us, []⟩ := by
  rw [item, h]
  rfl

theorem not_nextIs_else {body : List (List Token × Stmt)}
    (h : ∀ d ∈ body, Sentence .declaration d.1 d.2) {us : List Token}
    (hus : nextIs .kwElse us = false) :
    nextIs .kwElse (body.flatMap Prod.fst ++ us) = false := by
  cases body with
  | nil => exact hus
  | cons d body =>
    obtain ⟨t, ts, hd, ht, -⟩ := (h d List.mem_cons_self).exists_head
    rw [List.flatMap_cons, hd, List.cons_append, List.cons_append, nextIs_cons,
      beq_eq_false_iff_ne]
    intro hk
    rw [hk] at ht
    cases ht

private theorem block_append (s : Setting) {body : List (List Token × Stmt)} {closed : Token}
    (h : ∀ d ∈ body, Sentence .declaration d.1 d.2)
    (ih : ∀ d ∈ body, Form.declaration.Reads s d.1 d.2) (hc : closed.kind = .rightBrace)
    (us : List Token) :
    block s (body.flatMap Prod.fst ++ closed :: us) = .done (body.map Prod.snd) us [] := by
  induction body with
  | nil => rw [List.flatMap_nil, List.nil_append, block_cons, if_pos hc]; rfl
  | cons d body ihbody =>
    have hrest := ihbody (fun e he => h e (List.mem_cons_of_mem _ he))
      (fun e he => ih e (List.mem_cons_of_mem _ he))
    have hallowed : nextIs .kwElse (body.flatMap Prod.fst ++ closed :: us) = false := by
      apply not_nextIs_else fun e he => h e (List.mem_cons_of_mem _ he)
      rw [nextIs_cons, hc]
      rfl
    have hitem := item_of_declaration (ih d List.mem_cons_self _ hallowed)
    obtain ⟨t, ts, hd, ht, -⟩ := (h d List.mem_cons_self).exists_head
    have hk : t.kind ≠ .rightBrace := by
      intro hk
      rw [hk] at ht
      cases ht
    rw [List.flatMap_cons, List.append_assoc]
    rw [hd, List.cons_append] at hitem ⊢
    rw [block_cons, if_neg hk, hitem]
    simp only [hrest, Reply.done_map]
    rfl

/-- An `if` up to its first branch. -/
theorem statement_if (s : Setting) {kw opened closed : Token} {ts us rest : List Token} {c : Expr}
    {yes : Stmt} (hk : kw.kind = .kwIf) (ho : opened.kind = .leftParen)
    (hd : Derives .assignment ts c) (hc : closed.kind = .rightParen)
    (hyes : statement s us = .done yes rest []) :
    statement s (kw :: opened :: (ts ++ closed :: us)) =
      if nextIs .kwElse rest then (statement s rest.tail).map (.ifElse c yes)
      else .done (.ifThen c yes) rest [] := by
  rw [statement_cons, hk]
  simp only [condition_append s _ _ ho hd hc, Reply.done_bind, hyes]

theorem Sentence.reads (s : Setting) {f : Form} {ts : List Token} {st : Stmt}
    (h : Sentence f ts st) : f.Reads s ts st := by
  induction h with
  | expression he hs =>
    intro us _
    rw [Form.reader, List.append_assoc, statement_of_expression s he, ← List.append_assoc,
      expressionStatement, terminated_append s _ he hs .expression us]
  | print hk he hs =>
    intro us _
    rw [Form.reader, List.cons_append, statement_cons, hk]
    exact terminated_append s _ he hs (.print _) us
  | ret hk hv hs =>
    intro us _
    rw [Form.reader, List.cons_append, statement_cons, hk]
    exact returnStatement_append s _ hv hs us
  | block hk hbody hc ih =>
    intro us _
    rw [Form.reader, List.cons_append, List.append_assoc, statement_cons, hk]
    change (Grammar.block s _).map _ = _
    rw [List.singleton_append, block_append s hbody ih hc us, Reply.done_map]
  | @ifThen kw opened closed ts us c yes b hk ho hd hc _ ih =>
    intro rest hrest
    have hyes : statement s (us ++ rest) = .done yes rest [] := by
      apply ih
      cases b with
      | false => trivial
      | true => exact hrest
    have happend : kw :: opened :: (ts ++ closed :: us) ++ rest =
        kw :: opened :: (ts ++ closed :: (us ++ rest)) := by simp
    rw [happend, Form.reader, statement_if s hk ho hd hc hyes]
    exact if_neg (by rw [hrest]; simp)
  | @ifElse kw opened closed otherwise ts us vs c yes no b hk ho hd hc _ he _ ihyes ihno =>
    intro rest hrest
    have hyes : statement s (us ++ otherwise :: (vs ++ rest)) =
        .done yes (otherwise :: (vs ++ rest)) [] := ihyes _ trivial
    have hno : statement s (vs ++ rest) = .done no rest [] := ihno _ hrest
    have happend : kw :: opened :: (ts ++ closed :: (us ++ otherwise :: vs)) ++ rest =
        kw :: opened :: (ts ++ closed :: (us ++ otherwise :: (vs ++ rest))) := by simp
    rw [happend, Form.reader, statement_if s hk ho hd hc hyes, nextIs_cons, he, List.tail_cons, hno]
    rfl
  | @loop kw opened closed ts us c body b hk ho hd hc _ ih =>
    intro rest hrest
    have hbody : statement s (us ++ rest) = .done body rest [] := ih _ hrest
    have happend : kw :: opened :: (ts ++ closed :: us) ++ rest =
        kw :: opened :: (ts ++ closed :: (us ++ rest)) := by simp
    rw [happend, Form.reader, statement_cons, hk]
    simp only [condition_append s _ _ ho hd hc, Reply.done_bind, hbody, Reply.done_map]
  | @forLoop kw opened semicolon closed is cs ns us init c increment body b hk ho hi hcond hs hn
      hc _ ih =>
    intro rest hrest
    have hbody : statement s (us ++ rest) = .done body rest [] := ih _ hrest
    have happend : kw :: opened :: (is ++ (cs ++ semicolon :: (ns ++ closed :: us))) ++ rest =
        kw :: opened :: (is ++ (cs ++ semicolon :: (ns ++ closed :: (us ++ rest)))) := by simp
    rw [happend, Form.reader, statement_cons, hk]
    simp only [forClauses_append s ho hi hcond hs hn hc, Reply.done_bind, hbody, Reply.done_map]
    cases increment <;> rfl
  | @ofStatement ts st b hst ih =>
    intro us hus
    obtain ⟨t, ts, rfl, -, hd⟩ := hst.exists_head
    rw [Form.reader, List.cons_append, declaration_eq_statement s _ (hd (by simp))]
    apply ih
    cases b with
    | false => trivial
    | true => exact hus
  | binding hv =>
    intro us _
    obtain ⟨var, more, rfl, hk, hread⟩ := variableDeclaration_append s hv us
    rw [Form.reader, List.cons_append, declaration, hk]
    exact hread
  | @function kw name opened closed start finish params ts body hk hn ho hl hp hcount hc hs hbody
      hf ih =>
    intro us _
    have happend : kw :: name :: opened ::
        (ts ++ closed :: start :: (body.flatMap Prod.fst ++ [finish])) ++ us =
        kw :: name :: opened ::
          (ts ++ closed :: start :: (body.flatMap Prod.fst ++ finish :: us)) := by simp
    rw [happend, Form.reader, declaration, hk]
    change functionDeclaration s _ = _
    rw [functionDeclaration, functionHead_append s hn ho hl hp hcount hc hs, Reply.done_bind,
      block_append s hbody ih hf us]
    rfl

/-- Reading a program finds its declarations, and nothing wrong. -/
theorem declarations_of_isProgram (s : Setting) {ts : List Token} {ss : List Stmt}
    (h : IsProgram ts ss) : declarations s ts = ⟨ss, []⟩ := by
  obtain ⟨body, hbody, rfl, rfl⟩ := h
  induction body with
  | nil => rw [List.flatMap_nil, declarations]; rfl
  | cons d body ih =>
    have hmore := fun e he => hbody e (List.mem_cons_of_mem d he)
    have hallowed : nextIs .kwElse (body.flatMap Prod.fst) = false := by
      rw [← List.append_nil (body.flatMap Prod.fst)]
      exact not_nextIs_else hmore rfl
    have hitem := item_of_declaration ((hbody d List.mem_cons_self).reads s _ hallowed)
    obtain ⟨t, ts, hd, -, -⟩ := (hbody d List.mem_cons_self).exists_head
    rw [List.flatMap_cons]
    rw [hd, List.cons_append] at hitem ⊢
    rw [declarations, hitem]
    simp only [ih hmore, List.map_cons, List.nil_append]

end Scriptlet.Grammar
