import Scriptlet.Grammar.Program
import Scriptlet.Proofs.Grammar.CommaList
import Scriptlet.Proofs.Tree.Flaws

namespace Scriptlet.Grammar

open Reply

variable {α β : Type} {R : α → Nat → Prop} {S : β → Nat → Prop}

namespace Reply

/-- `R` holds of what was read, if anything was, and of the number of faults on the way. -/
def Tallies (R : α → Nat → Prop) : Reply α → Prop
  | done a _ notes => R a notes.length
  | failed .. => True

theorem Tallies.addNotes {R' : α → Nat → Prop} {r : Reply α} {notes : List ParseError}
    (h : r.Tallies R) (hR : ∀ a k, R a k → R' a (notes.length + k)) :
    (r.addNotes notes).Tallies R' := by
  cases r with
  | done a rest more =>
    rw [Reply.addNotes, Tallies, List.length_append]
    exact hR a _ h
  | failed e rest more => trivial

/-- The second reader has fewer tokens to read. -/
theorem Tallies.bindWithin {n : Nat} {r : Reply α} {f : α → List Token → Reply β}
    (h : r.Tallies R) (hn : r.Within n)
    (hf : ∀ a rest k, rest.length < n → R a k → (f a rest).Tallies fun b l => S b (k + l)) :
    (r.bind f).Tallies S := by
  cases r with
  | done a rest notes => exact (hf a rest _ hn h).addNotes fun _ _ => id
  | failed e rest notes => trivial

theorem Tallies.bind {r : Reply α} {f : α → List Token → Reply β} (h : r.Tallies R)
    (hf : ∀ a rest k, R a k → (f a rest).Tallies fun b l => S b (k + l)) :
    (r.bind f).Tallies S := by
  cases r with
  | done a rest notes => exact (hf a rest _ h).addNotes fun _ _ => id
  | failed e rest notes => trivial

theorem Tallies.map {r : Reply α} {g : α → β} (h : r.Tallies R) (hg : ∀ a k, R a k → S (g a) k) :
    (r.map g).Tallies S :=
  h.bind fun a _ k ha => hg a k ha

end Reply

/-- A single token is taken without complaint or not at all. -/
theorem tallies_expect (s : Setting) (kind : TokenKind) (fault : Fault) (ts : List Token) :
    (expect s kind fault ts).Tallies fun _ k => k = 0 := by
  cases ts with
  | nil => trivial
  | cons t ts =>
    rw [expect]
    split
    · rfl
    · trivial

private theorem tallies_endStatement (s : Setting) (fault : Fault) (ts : List Token) :
    (endStatement s fault ts).Tallies fun _ k => k = 0 := by
  unfold endStatement
  split
  · rfl
  · exact (tallies_expect s _ fault ts).map fun _ _ => id

/-- What has been read does not depend on the token that closes it. -/
theorem tallies_closed {s : Setting} {kind : TokenKind} {fault : Fault} {ts : List Token}
    {f : Token → β} (h : ∀ t, S (f t) 0) : ((expect s kind fault ts).map f).Tallies S := by
  apply (tallies_expect s kind fault ts).map
  rintro t k rfl
  exact h t

private theorem tallies_ended {s : Setting} {fault : Fault} {ts : List Token} {b : β} (h : S b 0) :
    ((endStatement s fault ts).map fun _ => b).Tallies S := by
  apply (tallies_endStatement s fault ts).map
  rintro _ k rfl
  exact h

private theorem length_overLimit (s : Setting) (fault : Fault) (count : Nat) (ts : List Token) :
    (overLimit s fault count ts).length + (count - listLimit) = count + 1 - listLimit := by
  rw [overLimit]
  split
  · rw [List.length_singleton]
    omega
  · rw [List.length_nil]
    omega

/-- `total` adds up the weights of the entries. -/
structure Totals (weight : α → Nat) (total : List α → Nat) : Prop where
  nil : total [] = 0
  cons (a : α) (as : List α) : total (a :: as) = weight a + total as

/-- Entries that are read from fewer than `n` tokens, each with as many faults as its weight says. -/
theorem ReadsCommaList.tallies {s : Setting} {fault : Fault} {one : List Token → Reply α}
    {many : Nat → List Token → Reply (List α)} (h : ReadsCommaList s fault one many)
    {weight : α → Nat} {total : List α → Nat} (htotal : Totals weight total) {n : Nat}
    (hwithin : ∀ ts, (one ts).Within ts.length)
    (hone : ∀ ts, ts.length < n → (one ts).Tallies fun a k => k = weight a) {ts : List Token}
    (count : Nat) (hn : ts.length < n) :
    (many count ts).Tallies fun as k =>
      k + (count - listLimit) = total as + (count + as.length - listLimit) := by
  induction hk : ts.length using Nat.strongRecOn generalizing ts count with
  | ind k ih =>
    subst hk
    have hover := length_overLimit s fault count ts
    rw [h]
    apply Tallies.addNotes (R := fun as k =>
      k + (count + 1 - listLimit) = total as + (count + as.length - listLimit))
    · apply (hone ts hn).bindWithin (hwithin ts)
      rintro a rest k hlen rfl
      split
      · have hshort : rest.tail.length < ts.length := by
          rw [List.length_tail]
          omega
        apply (ih _ hshort (count + 1) (Nat.lt_trans hshort hn) rfl).map
        intro as l has
        rw [htotal.cons, List.length_cons, ← Nat.add_assoc, Nat.add_right_comm count]
        omega
      · show weight a + 0 + _ = _
        rw [htotal.cons, htotal.nil, List.length_singleton]
    · intro as k has
      omega

/-- The entries between two parentheses. -/
theorem ReadsCommaList.tallies_parenthesized {s : Setting} {fault : Fault}
    {one : List Token → Reply α} {many : Nat → List Token → Reply (List α)}
    (h : ReadsCommaList s fault one many) {weight : α → Nat} {total : List α → Nat}
    (htotal : Totals weight total) {n : Nat} (hwithin : ∀ ts, (one ts).Within ts.length)
    (hone : ∀ ts, ts.length < n → (one ts).Tallies fun a k => k = weight a) {ts : List Token}
    (hn : ts.length < n) :
    (if nextIs .rightParen ts then .done [] ts [] else many 0 ts).Tallies fun as k =>
      k = total as + (as.length - listLimit) := by
  split
  · simp [Tallies, htotal.nil]
  · have hmany := h.tallies htotal hwithin hone 0 hn
    simpa only [Nat.zero_sub, Nat.add_zero, Nat.zero_add] using hmany

section Expressions

variable {s : Setting} {n : Nat}

/-- Expressions that are read from fewer than `n` tokens. -/
def TalliesBelow (s : Setting) (n : Nat) : Prop :=
  ∀ m ts, ts.length < n → (expression s m ts).Tallies fun e k => k = e.surplus

private theorem tallies_unary (op : Token) (operand : Expr) (ts : List Token) :
    (unary op operand ts).Tallies fun e k => operand.surplus + k = e.surplus := by
  unfold unary
  split
  · trivial
  · rfl

private theorem tallies_operand (ih : TalliesBelow s n) {ts : List Token} (hn : ts.length ≤ n) :
    (operand s ts).Tallies fun e k => k = e.surplus := by
  cases ts with
  | nil =>
    rw [operand_nil]
    trivial
  | cons t ts =>
    rw [List.length_cons] at hn
    rw [operand_cons]
    split
    · trivial
    · split
      · rfl
      · trivial
    · rfl
    · apply (ih .lowest ts hn).bind
      rintro inner rest k rfl
      exact tallies_closed fun _ => rfl
    · apply (ih .unary ts hn).bind
      rintro operand rest k rfl
      exact tallies_unary t operand rest

private theorem tallies_join (ih : TalliesBelow s n) (p : Precedence) (joining : Joining)
    (lhs : Expr) (op : Token) {ts : List Token} (hn : ts.length < n) :
    (join s p joining lhs op ts).Tallies fun e k => lhs.surplus + k = e.surplus := by
  rw [join_eq]
  cases joining with
  | binary =>
    apply (ih p ts hn).map
    rintro rhs k rfl
    rfl
  | logical =>
    apply (ih p ts hn).map
    rintro rhs k rfl
    rfl
  | assign =>
    apply (ih .lowest ts hn).bind
    rintro value rest k rfl
    unfold assign
    split
    · exact Nat.zero_add _
    · trivial
  | step =>
    dsimp only
    unfold step
    split
    · rfl
    · trivial
  | call =>
    have htotal : Totals Expr.surplus Expr.surplusOf := ⟨rfl, fun _ _ => rfl⟩
    apply ((readsCommaList_arguments s).tallies_parenthesized htotal
      (expression_within s .lowest) (ih .lowest) hn).bind
    intro args rest k hk
    apply tallies_closed
    intro paren
    rw [hk, Expr.surplus, Nat.add_zero, Nat.add_assoc]

private theorem tallies_grow (ih : TalliesBelow s n) {m : Precedence} {lhs : Expr} {ts : List Token}
    (hn : ts.length ≤ n) :
    (grow s m lhs ts).Tallies fun e k => lhs.surplus + k = e.surplus := by
  induction hk : ts.length using Nat.strongRecOn generalizing ts lhs with
  | ind k hshorter =>
    subst hk
    cases ts with
    | nil =>
      rw [grow_nil]
      rfl
    | cons t ts =>
      rw [List.length_cons] at hn hshorter
      rw [grow_cons]
      split
      · rfl
      · next p joining _ =>
        split
        · apply (tallies_join ih p joining lhs t hn).bindWithin (joinWithin s p joining lhs t ts).2
          intro e rest k hlen he
          have hmore : (grow s m e rest).Tallies fun e' l => e.surplus + l = e'.surplus :=
            hshorter rest.length hlen (by omega) rfl
          simpa only [← he, Nat.add_assoc] using hmore
        · rfl

private theorem talliesBelow (s : Setting) (n : Nat) : TalliesBelow s n := by
  induction n with
  | zero =>
    intro m ts hn
    exact absurd hn (Nat.not_lt_zero _)
  | succ n ih =>
    intro m ts hn
    have hlen : ts.length ≤ n := Nat.le_of_lt_succ hn
    rw [expression_eq]
    apply (tallies_operand ih hlen).bindWithin (operandWithin s ts).2
    rintro lhs rest k hrest rfl
    exact tallies_grow ih (by omega)

private theorem tallies_expression (s : Setting) (m : Precedence) (ts : List Token) :
    (expression s m ts).Tallies fun e k => k = e.surplus :=
  talliesBelow s (ts.length + 1) m ts (Nat.lt_succ_self _)

end Expressions

/-- So many faults for so many flaws: no fewer, and none where there is no flaw. -/
structure Covers (flaws faults : Nat) : Prop where
  le : flaws ≤ faults
  none : flaws = 0 → faults = 0

namespace Covers

theorem refl (n : Nat) : Covers n n := ⟨Nat.le_refl n, id⟩

theorem add {m n k l : Nat} (h : Covers m k) (h' : Covers n l) : Covers (m + n) (k + l) where
  le := Nat.add_le_add h.le h'.le
  none := by
    intro hnone
    obtain ⟨hm, hn⟩ := Nat.add_eq_zero_iff.1 hnone
    rw [h.none hm, h'.none hn]

private theorem of_pos {k : Nat} (h : 0 < k) : Covers 1 k := ⟨h, fun h => nomatch h⟩

end Covers

section Statements

variable {s : Setting} {ts : List Token}

/-- An expression with a semicolon behind it. -/
theorem tallies_terminated (fault : Fault) {f : Expr → Stmt} (hf : ∀ e, (f e).flaws = e.surplus) :
    ((expression s .lowest ts).bind fun e rest =>
      (endStatement s fault rest).map fun _ => f e).Tallies fun st k => Covers st.flaws k := by
  apply (tallies_expression s .lowest ts).bind
  rintro e rest k rfl
  apply tallies_ended
  rw [hf]
  exact .refl _

private theorem tallies_someExpression :
    ((expression s .lowest ts).map some).Tallies fun o k => k = o.elim 0 Expr.surplus :=
  (tallies_expression s .lowest ts).map fun _ _ he => he

/-- What may be left out has nothing wrong with it where it is. -/
theorem tallies_optional {weight : α → Nat} {r : Reply (Option α)} (b : Bool)
    (hr : r.Tallies fun o k => k = o.elim 0 weight) :
    (if b then .done none ts [] else r).Tallies fun o k => k = o.elim 0 weight := by
  split
  · rfl
  · exact hr

private theorem tallies_returnStatement (keyword : Token) :
    (returnStatement s keyword ts).Tallies fun st k => Covers st.flaws k := by
  apply (tallies_optional _ tallies_someExpression).bind
  rintro value rest k rfl
  apply tallies_ended
  rw [Stmt.flaws_ret]
  exact .refl _

private theorem tallies_variableDeclaration :
    (variableDeclaration s ts).Tallies fun st k => Covers st.flaws k := by
  apply (tallies_expect s _ _ ts).bind
  rintro name rest k rfl
  have hinit : (if nextIs .equal rest then (expression s .lowest rest.tail).map some
      else .done none rest []).Tallies fun o k => k = o.elim 0 Expr.surplus := by
    split
    · exact tallies_someExpression
    · rfl
  apply hinit.bind
  rintro init rest k rfl
  apply tallies_ended
  rw [Stmt.flaws_var, Nat.zero_add]
  exact .refl _

private theorem tallies_condition (opened closed : Fault) :
    (condition s opened closed ts).Tallies fun e k => k = e.surplus := by
  apply (tallies_expect s _ _ ts).bind
  rintro _ rest k rfl
  apply (tallies_expression s .lowest rest).bind
  rintro e rest k rfl
  exact tallies_closed fun _ => Nat.zero_add _

private theorem tallies_functionHead :
    (functionHead s ts).Tallies fun head k => k = head.2.length - listLimit := by
  apply (tallies_expect s _ _ ts).bind
  rintro name rest k rfl
  apply (tallies_expect s _ _ rest).bind
  rintro _ rest k rfl
  have htotal : Totals (fun _ : Token => 0) fun _ => 0 := ⟨rfl, fun _ _ => rfl⟩
  apply ((readsCommaList_parameters s).tallies_parenthesized htotal (expect_within s _ _)
    (fun ts _ => tallies_expect s _ _ ts) (Nat.lt_succ_self rest.length)).bind
  intro params rest k hk
  apply (tallies_expect s _ _ rest).bind
  intro _ rest l hl
  apply tallies_closed
  intro _
  dsimp only
  omega

/-- What is wrong with `for` clauses. -/
def ForClauses.flaws (c : ForClauses) : Nat :=
  c.init.elim 0 Stmt.flaws + (c.condition.surplus + c.increment.elim 0 Expr.surplus)

private theorem flaws_around (c : ForClauses) (body : Stmt) :
    (c.around body).flaws = c.flaws + body.flaws := by
  obtain ⟨init, condition, increment⟩ := c
  have hloop (round : Stmt) :
      (Stmt.block (init.toList ++ [.loop condition round])).flaws =
        init.elim 0 Stmt.flaws + (condition.surplus + round.flaws) := by
    cases init <;> simp
  cases increment with
  | none =>
    refine (hloop body).trans ?_
    simp only [ForClauses.flaws, Option.elim_none]
    omega
  | some e =>
    refine (hloop (.block [body, .expression e])).trans ?_
    simp only [ForClauses.flaws, Option.elim_some, Stmt.flaws_block, Stmt.flawsOf_cons,
      Stmt.flaws_expression, Stmt.flawsOf_nil]
    omega

private theorem tallies_forClauses : (forClauses s ts).Tallies fun c k => Covers c.flaws k := by
  apply (tallies_expect s _ _ ts).bind
  rintro _ rest k rfl
  have hinit : (if nextIs .semicolon rest then .done none rest.tail []
      else if nextIs .kwVar rest then (variableDeclaration s rest.tail).map some
      else (expressionStatement s rest).map some).Tallies
        fun o k => Covers (o.elim 0 Stmt.flaws) k := by
    split
    · exact .refl 0
    split
    · exact tallies_variableDeclaration.map fun _ _ => id
    · apply (tallies_terminated _ Stmt.flaws_expression).map
      exact fun _ _ => id
  apply hinit.bind
  intro init rest k hinit
  have hcondition : (if nextIs .semicolon rest then .done (.literal (.bool true)) rest []
      else expression s .lowest rest).Tallies fun e k => k = e.surplus := by
    split
    · rfl
    · exact tallies_expression s .lowest rest
  apply hcondition.bind
  rintro condition rest l rfl
  apply (tallies_endStatement s _ rest).bind
  rintro _ rest m rfl
  apply (tallies_optional _ tallies_someExpression).bind
  rintro increment rest m rfl
  apply tallies_closed
  intro _
  simpa [ForClauses.flaws, Nat.add_assoc] using hinit.add (.refl _)

/-- Statements and blocks that are read from fewer than `n` tokens. -/
structure CoversBelow (s : Setting) (n : Nat) : Prop where
  statement {ts : List Token} : ts.length < n →
    (statement s ts).Tallies fun st k => Covers st.flaws k
  block {ts : List Token} : ts.length < n →
    (block s ts).Tallies fun body k => Covers (Stmt.flawsOf body) k

variable {n : Nat}

private theorem tallies_if (ih : CoversBelow s n) (hn : ts.length < n) :
    ((condition s .ifNotOpened .ifNotClosed ts).bind fun c rest =>
      (statement s rest).bind fun yes rest =>
        if nextIs .kwElse rest then (statement s rest.tail).map (Stmt.ifElse c yes)
        else .done (.ifThen c yes) rest []).Tallies fun st k => Covers st.flaws k := by
  apply (tallies_condition _ _).bindWithin (condition_within ..)
  rintro c rest k hlen rfl
  apply (ih.statement (by omega)).bindWithin (statementWithin s rest).2
  intro yes rest k hlen' hyes
  split
  · have hshort : rest.tail.length < n := by
      rw [List.length_tail]
      omega
    apply (ih.statement hshort).map
    intro no l hno
    rw [Stmt.flaws_ifElse]
    exact (Covers.refl _).add (hyes.add hno)
  · show Covers (Stmt.ifThen c yes).flaws _
    rw [Stmt.flaws_ifThen]
    exact (Covers.refl _).add hyes

private theorem tallies_statement (ih : CoversBelow s n) (hn : ts.length ≤ n) :
    (statement s ts).Tallies fun st k => Covers st.flaws k := by
  cases ts with
  | nil =>
    rw [statement_nil]
    exact tallies_terminated _ Stmt.flaws_expression
  | cons t ts =>
    rw [List.length_cons] at hn
    rw [statement_cons]
    split
    · exact tallies_terminated _ (Stmt.flaws_print t)
    · exact tallies_returnStatement t
    · exact (ih.block hn).map fun _ _ => id
    · exact tallies_if ih hn
    · apply (tallies_condition _ _).bindWithin (condition_within ..)
      rintro c rest k hlen rfl
      apply (ih.statement (by omega)).map
      intro body l hbody
      rw [Stmt.flaws_loop]
      exact (Covers.refl _).add hbody
    · apply tallies_forClauses.bindWithin (forClauses_within ..)
      intro c rest k hlen hc
      apply (ih.statement (by omega)).map
      intro body l hbody
      rw [flaws_around]
      exact hc.add hbody
    · exact tallies_terminated _ Stmt.flaws_expression

private theorem tallies_declaration (ih : CoversBelow s n) (hn : ts.length ≤ n) :
    (declaration s ts).Tallies fun st k => Covers st.flaws k := by
  cases ts with
  | nil => exact tallies_statement ih hn
  | cons t ts =>
    rw [List.length_cons] at hn
    rw [declaration]
    split
    · exact tallies_variableDeclaration
    · apply tallies_functionHead.bindWithin (functionHead_within ..)
      rintro ⟨name, params⟩ rest k hlen hk
      apply (ih.block (by omega)).map
      intro body l hbody
      rw [Stmt.flaws_function, hk]
      exact (Covers.refl _).add hbody
    · exact tallies_statement ih hn

/-- The failure that a broken statement stands for is a fault as well. -/
theorem covers_item (ih : CoversBelow s n) (hn : ts.length ≤ n) :
    Covers (item s ts).stmt.flaws (item s ts).errors.length := by
  have hread := tallies_declaration ih hn
  rw [item]
  cases hr : declaration s ts with
  | done st rest notes =>
    rw [hr] at hread
    exact hread
  | failed e rest notes =>
    have hpos : 0 < (notes ++ [e]).length := by simp
    exact .of_pos hpos

private theorem tallies_block (ih : CoversBelow s n) (hn : ts.length ≤ n) :
    (block s ts).Tallies fun body k => Covers (Stmt.flawsOf body) k := by
  cases ts with
  | nil =>
    rw [block_nil]
    trivial
  | cons t ts =>
    rw [block_cons]
    split
    · exact .refl 0
    · have hitem := covers_item ih hn
      have hlen := length_item s t ts
      rw [List.length_cons] at hn
      have hmore : ((block s (item s (t :: ts)).rest).map ((item s (t :: ts)).stmt :: ·)).Tallies
          fun body k => ∃ more, body = (item s (t :: ts)).stmt :: more ∧
            Covers (Stmt.flawsOf more) k := by
        apply (ih.block (by omega)).map
        intro more k hmore
        exact ⟨more, rfl, hmore⟩
      apply hmore.addNotes
      rintro _ k ⟨more, rfl, hmore⟩
      rw [Stmt.flawsOf_cons]
      exact hitem.add hmore

private theorem coversBelow (s : Setting) (n : Nat) : CoversBelow s n := by
  induction n with
  | zero =>
    constructor
    · intro ts hn
      exact absurd hn (Nat.not_lt_zero _)
    · intro ts hn
      exact absurd hn (Nat.not_lt_zero _)
  | succ n ih =>
    constructor
    · intro ts hn
      exact tallies_statement ih (Nat.le_of_lt_succ hn)
    · intro ts hn
      exact tallies_block ih (Nat.le_of_lt_succ hn)

/-- The flaws of a program are covered by what was found wrong while it was read. -/
theorem covers_declarations (s : Setting) (ts : List Token) :
    Covers (Stmt.flawsOf (declarations s ts).statements) (declarations s ts).errors.length := by
  induction hk : ts.length using Nat.strongRecOn generalizing ts with
  | ind k ih =>
    subst hk
    cases ts with
    | nil =>
      rw [declarations]
      exact .refl 0
    | cons t ts =>
      have hitem := covers_item (coversBelow s (t :: ts).length) (Nat.le_refl _)
      have hmore := ih _ (Nat.lt_succ_of_le (length_item s t ts)) _ rfl
      rw [declarations, Stmt.flawsOf_cons, List.length_append]
      exact hitem.add hmore

end Statements

end Scriptlet.Grammar
