import Scriptlet.Proofs.Grammar.SentenceSound

namespace Scriptlet.Grammar

variable {s : Setting} {semicolon : Token}

/-- What ends a list of tokens ends the part of it that comes last. -/
theorem exists_of_append_eq_concat {front us pre : List Token} {t : Token}
    (h : front ++ us = pre ++ [t]) (hus : us ≠ []) :
    ∃ more, us = more ++ [t] ∧ pre = front ++ more := by
  have hlast : us = us.dropLast ++ [us.getLast hus] := (List.dropLast_concat_getLast hus).symm
  rw [hlast, ← List.append_assoc] at h
  obtain ⟨hpre, ht⟩ := List.append_inj' h rfl
  cases ht
  exact ⟨us.dropLast, hlast, hpre.symm⟩

private theorem Sentence.ne_nil {f : Form} {ts : List Token} {st : Stmt} (h : Sentence f ts st) :
    ts ≠ [] := by
  obtain ⟨t, us, rfl, -⟩ := h.exists_head
  exact List.cons_ne_nil t us

private theorem expression_at_end (s : Setting) {ts : List Token} {e : Expr}
    (h : Derives .assignment ts e) :
    expression s .lowest ts = .done e [] [] := by
  have hstop : Stops .lowest [] := fun t ht => by cases ht
  have hread := (expression_eq_done_iff s (by decide)).2 ⟨hstop, h⟩
  rwa [List.append_nil] at hread

private theorem endStatement_at_end (hs : s.interactive = true) (fault : Fault) :
    endStatement s fault [] = .done () [] [] :=
  endStatement_eq_done_iff.2 (.inr ⟨hs, rfl, rfl⟩)

private theorem terminated_at_end (hs : s.interactive = true) (fault : Fault) {ts : List Token}
    {e : Expr} (h : Derives .assignment ts e) (f : Expr → Stmt) :
    ((expression s .lowest ts).bind fun e rest =>
      (endStatement s fault rest).map fun _ => f e) = .done (f e) [] [] := by
  rw [expression_at_end s h, Reply.done_bind, endStatement_at_end hs, Reply.done_map]

private theorem returnStatement_at_end (hs : s.interactive = true) (ret : Token) {ts : List Token}
    {value : Option Expr} (h : Optionally ts value) :
    returnStatement s ret ts = .done (.ret ret value) [] [] := by
  have hvalue : (if ts.isEmpty || nextIs .semicolon ts then .done none ts []
      else (expression s .lowest ts).map some) = Reply.done value [] [] := by
    cases h with
    | absent => rfl
    | given he =>
      have hnext : nextIs .semicolon ts = false := by
        rw [← List.append_nil ts]
        exact not_nextIs_of_derives he rfl
      have hne : ts.isEmpty = false := by
        obtain ⟨t, us, rfl, -⟩ := he.exists_opening
        rfl
      rw [hnext, hne, expression_at_end s he]
      rfl
  rw [returnStatement, hvalue, Reply.done_bind, endStatement_at_end hs, Reply.done_map]

/-- A variable declaration behind its keyword. -/
theorem variableDeclaration_at_end (hs : s.interactive = true) {pre : List Token} {t : Token}
    {st : Stmt} (h : VariableClause (pre ++ [t]) st) :
    ∃ var more, pre = var :: more ∧ var.kind = .kwVar ∧
      variableDeclaration s more = .done st [] [] := by
  generalize hts : pre ++ [t] = ts at h
  cases h with
  | @plain var x _ hvar hx _ =>
    have hsplit : pre ++ [t] = [var, x] ++ [_] := hts
    obtain ⟨rfl, -⟩ := List.append_inj' hsplit rfl
    refine ⟨var, [x], rfl, hvar, ?_⟩
    rw [variableDeclaration, expect_cons s _ _ hx, Reply.done_bind]
    change Reply.bind (.done none [] []) _ = _
    rw [Reply.done_bind, endStatement_at_end hs, Reply.done_map]
  | @initialized var x equal _ us e hvar hx he hd _ =>
    have hsplit : pre ++ [t] = (var :: x :: equal :: us) ++ [_] := hts
    obtain ⟨rfl, -⟩ := List.append_inj' hsplit rfl
    refine ⟨var, x :: equal :: us, rfl, hvar, ?_⟩
    have hnext : nextIs .equal (equal :: us) = true := by
      rw [nextIs_cons, he]
      rfl
    rw [variableDeclaration, expect_cons s _ _ hx, Reply.done_bind, if_pos hnext, List.tail_cons,
      expression_at_end s hd, Reply.done_map, Reply.done_bind, endStatement_at_end hs,
      Reply.done_map]

/-- The tokens are read as the sentence at the end of the input, although a semicolon behind them is
left out. -/
def Form.ReadsUnended (s : Setting) (f : Form) (ts : List Token) (st : Stmt) : Prop :=
  ∀ pre semicolon, ts = pre ++ [semicolon] → semicolon.kind = .semicolon →
    f.reader s pre = .done st [] []

private theorem Form.readsUnended_concat {f : Form} {front : List Token} {t : Token} {st : Stmt} :
    f.ReadsUnended s (front ++ [t]) st ↔ (t.kind = .semicolon → f.reader s front = .done st [] []) := by
  constructor
  · exact fun h ht => h front t rfl ht
  · intro h pre semicolon hts ht
    obtain ⟨rfl, hlast⟩ := List.append_inj' hts rfl
    cases hlast
    exact h ht

/-- What comes last in a sentence decides: it is in it that the semicolon is left out. -/
theorem Form.ReadsUnended.behind {f g : Form} {us : List Token} {st last : Stmt}
    (h : g.ReadsUnended s us last) (hus : us ≠ []) (front : List Token → List Token)
    (hfront : ∀ us, front us = front [] ++ us)
    (hread : ∀ more, g.reader s more = .done last [] [] → f.reader s (front more) = .done st [] []) :
    f.ReadsUnended s (front us) st := by
  intro pre semicolon hts hsemi
  rw [hfront] at hts
  obtain ⟨more, hmore, rfl⟩ := exists_of_append_eq_concat hts hus
  rw [← hfront]
  exact hread more (h more semicolon hmore hsemi)

/-- Only the statement at the very end can lack its semicolon, be it inside of others. Blocks and
functions end with a brace, which no semicolon replaces. -/
theorem Sentence.readsUnended (hs : s.interactive = true) {f : Form} {ts : List Token} {st : Stmt}
    (h : Sentence f ts st) : f.ReadsUnended s ts st := by
  induction h with
  | @expression ts e t he _ =>
    rw [Form.readsUnended_concat]
    intro _
    have hstatement := statement_of_expression s he []
    rw [List.append_nil] at hstatement
    rw [Form.reader, hstatement]
    exact terminated_at_end hs _ he .expression
  | @print kw t ts e hk he _ =>
    rw [← List.cons_append, Form.readsUnended_concat]
    intro _
    rw [Form.reader, statement_cons, hk]
    exact terminated_at_end hs _ he (.print kw)
  | @ret kw t ts value hk hv _ =>
    rw [← List.cons_append, Form.readsUnended_concat]
    intro _
    rw [Form.reader, statement_cons, hk]
    exact returnStatement_at_end hs kw hv
  | @block opened closed body _ _ hc _ =>
    rw [← List.cons_append, Form.readsUnended_concat, hc]
    intro h
    cases h
  | @ifThen kw opened closed ts us c yes b hk ho hd hc hyes ih =>
    refine ih.behind hyes.ne_nil (fun us => kw :: opened :: (ts ++ closed :: us)) (by simp) ?_
    intro more hread
    rw [Form.reader, statement_if s hk ho hd hc hread]
    rfl
  | @ifElse kw opened closed otherwise ts us vs c yes no b hk ho hd hc hyes he hno _ ih =>
    refine ih.behind hno.ne_nil
      (fun vs => kw :: opened :: (ts ++ closed :: (us ++ otherwise :: vs))) (by simp) ?_
    intro more hread
    have hfirst : statement s (us ++ otherwise :: more) = .done yes (otherwise :: more) [] :=
      hyes.reads s _ trivial
    have hsecond : statement s more = .done no [] [] := hread
    rw [Form.reader, statement_if s hk ho hd hc hfirst, nextIs_cons, he, List.tail_cons, hsecond]
    rfl
  | @loop kw opened closed ts us c body b hk ho hd hc hbody ih =>
    refine ih.behind hbody.ne_nil (fun us => kw :: opened :: (ts ++ closed :: us)) (by simp) ?_
    intro more hread
    rw [Form.reader] at hread
    rw [Form.reader, statement_cons, hk]
    simp only [condition_append s _ _ ho hd hc, Reply.done_bind, hread, Reply.done_map]
  | @forLoop kw opened t closed is cs ns us init c increment body b hk ho hi hcond ht hn hc hbody
      ih =>
    refine ih.behind hbody.ne_nil
      (fun us => kw :: opened :: (is ++ (cs ++ t :: (ns ++ closed :: us)))) (by simp) ?_
    intro more hread
    rw [Form.reader] at hread
    rw [Form.reader, statement_cons, hk]
    simp only [forClauses_append s ho hi hcond ht hn hc, Reply.done_bind, hread, Reply.done_map]
    cases increment <;> rfl
  | @ofStatement ts st b hst ih =>
    intro pre semicolon hts hsemi
    have hread : statement s pre = .done st [] [] := ih pre semicolon hts hsemi
    obtain ⟨t, us, hhead, -, hdeclares⟩ := hst.exists_head
    cases pre with
    | nil => exact hread
    | cons u pre =>
      rw [hhead] at hts
      cases hts
      rw [Form.reader, declaration_eq_statement s _ (hdeclares (by simp))]
      exact hread
  | binding hv =>
    intro pre semicolon hts _
    rw [hts] at hv
    obtain ⟨var, more, rfl, hk, hread⟩ := variableDeclaration_at_end hs hv
    rw [Form.reader, declaration, hk]
    exact hread
  | @function kw name opened closed start finish params ts body _ _ _ _ _ _ _ _ _ hf _ =>
    have hsplit : kw :: name :: opened ::
        (ts ++ closed :: start :: (body.flatMap Prod.fst ++ [finish])) =
        kw :: name :: opened :: (ts ++ closed :: start :: body.flatMap Prod.fst) ++ [finish] := by
      simp
    rw [hsplit, Form.readsUnended_concat, hf]
    intro h
    cases h

/-- No declaration is a semicolon alone. -/
theorem declaration_nil_ne_done (s : Setting) (st : Stmt) : declaration s [] ≠ .done st [] [] := by
  intro h
  have hempty : declaration s [] = (expression s .lowest []).bind fun e rest =>
      (endStatement s .expressionNotEnded rest).map fun _ => .expression e := statement_nil s
  rw [hempty, expression_eq, operand_nil] at h
  cases h

/-- A program that lacks its last semicolon is read as if it had it. -/
theorem declarations_of_unended (hs : s.interactive = true) (hk : semicolon.kind = .semicolon)
    {ts : List Token} {ss : List Stmt} (h : IsProgram (ts ++ [semicolon]) ss) :
    declarations s ts = ⟨ss, []⟩ := by
  obtain ⟨body, hbody, hts, rfl⟩ := h
  induction body generalizing ts with
  | nil => simp at hts
  | cons d body ih =>
    have hd := hbody d List.mem_cons_self
    have hmore := fun e he => hbody e (List.mem_cons_of_mem d he)
    rw [List.flatMap_cons] at hts
    cases body with
    | nil =>
      rw [List.flatMap_nil, List.append_nil] at hts
      have hread : declaration s ts = .done d.2 [] [] := hd.readsUnended hs ts semicolon hts.symm hk
      cases ts with
      | nil => exact absurd hread (declaration_nil_ne_done s d.2)
      | cons t ts =>
        rw [declarations, item_of_declaration hread, declarations]
        rfl
    | cons d' body =>
      have hne : (d' :: body).flatMap Prod.fst ≠ [] := by
        obtain ⟨t, us, hd', -⟩ := (hmore d' List.mem_cons_self).exists_head
        rw [List.flatMap_cons, hd']
        simp
      obtain ⟨more, hflat, rfl⟩ := exists_of_append_eq_concat hts.symm hne
      have hallowed : nextIs .kwElse more = false := by
        have hnext : nextIs .kwElse ((d' :: body).flatMap Prod.fst ++ []) = false :=
          not_nextIs_else hmore rfl
        rw [List.append_nil, hflat] at hnext
        cases more with
        | nil => rfl
        | cons t more => exact hnext
      have hitem := item_of_declaration (hd.reads s more hallowed)
      have hrest := ih hmore hflat.symm
      obtain ⟨t, us, hhead, -, -⟩ := hd.exists_head
      rw [hhead, List.cons_append] at hitem ⊢
      rw [declarations, hitem]
      simp only [hrest, List.map_cons, List.nil_append]

/-- What an interactive reader takes without complaint is a program, as it stands or with a semicolon
behind it. -/
theorem declarations_interactive_iff (hs : s.interactive = true) (hk : semicolon.kind = .semicolon)
    {ts : List Token} {ss : List Stmt} :
    declarations s ts = ⟨ss, []⟩ ↔ IsProgram ts ss ∨ IsProgram (ts ++ [semicolon]) ss := by
  constructor
  · intro h
    obtain ⟨lent, hlent, hprogram⟩ := exists_isProgram_of_declarations hk h
    rcases hlent with rfl | ⟨-, -, rfl⟩
    · rw [List.append_nil] at hprogram
      exact .inl hprogram
    · exact .inr hprogram
  · rintro (h | h)
    · exact declarations_of_isProgram s h
    · exact declarations_of_unended hs hk h

end Scriptlet.Grammar
