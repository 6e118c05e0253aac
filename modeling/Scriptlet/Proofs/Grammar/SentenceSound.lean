import Scriptlet.Proofs.Grammar.SentenceComplete

namespace Scriptlet.Grammar

/-- `lent` is what the reader may have put behind its input if it left `us` over: nothing, or the given
semicolon at the end of an interactive input. -/
def Lends (s : Setting) (semicolon : Token) (us lent : List Token) : Prop :=
  lent = [] ∨ s.interactive = true ∧ us = [] ∧ lent = [semicolon]

variable {s : Setting} {semicolon : Token}

namespace Lends

theorem nothing (us : List Token) : Lends s semicolon us [] := .inl rfl

/-- Nothing is lent in front of other tokens. -/
theorem eq_nil {us lent : List Token} (h : Lends s semicolon us lent) (hus : us ≠ []) :
    lent = [] := by
  rcases h with h | ⟨-, h, -⟩
  · exact h
  · exact absurd h hus

private theorem eq_nil_of_script {us lent : List Token} (h : Lends s semicolon us lent)
    (hs : s.interactive = false) : lent = [] := by
  rcases h with h | ⟨hi, -, -⟩
  · exact h
  · rw [hs] at hi
    cases hi

end Lends

private theorem endStatement_sound (hk : semicolon.kind = .semicolon) {fault : Fault}
    {ts us : List Token} (h : endStatement s fault ts = .done () us []) :
    ∃ lent t, Lends s semicolon us lent ∧ ts ++ lent = t :: us ∧ t.kind = .semicolon := by
  rcases endStatement_eq_done_iff.1 h with ⟨t, rfl, ht⟩ | ⟨hi, rfl, rfl⟩
  · exact ⟨[], t, .nothing us, List.append_nil _, ht⟩
  · exact ⟨[semicolon], semicolon, .inr ⟨hi, rfl, rfl⟩, rfl, hk⟩

private theorem terminated_sound (hk : semicolon.kind = .semicolon) {fault : Fault}
    {f : Expr → Stmt} {ts us : List Token} {st : Stmt}
    (h : ((expression s .lowest ts).bind fun e rest =>
      (endStatement s fault rest).map fun _ => f e) = .done st us []) :
    ∃ lent pre e t, Lends s semicolon us lent ∧ ts ++ lent = pre ++ t :: us ∧
      Derives .assignment pre e ∧ t.kind = .semicolon ∧ st = f e := by
  obtain ⟨e, rest, hread, h⟩ := Reply.bind_eq_done_iff.1 h
  obtain ⟨_, hend, rfl⟩ := Reply.map_eq_done_iff.1 h
  obtain ⟨lent, t, hlent, hrest, ht⟩ := endStatement_sound hk hend
  obtain ⟨pre, rfl, hd⟩ := expression_eq_done s hread
  exact ⟨lent, pre, e, t, hlent, by rw [List.append_assoc, hrest], hd, ht, rfl⟩

private theorem optional_sound {b : Bool} {ts us : List Token} {o : Option Expr}
    (h : (if b then .done none ts [] else (expression s .lowest ts).map some) =
      Reply.done o us []) : ∃ pre, ts = pre ++ us ∧ Optionally pre o := by
  cases b with
  | true =>
    cases h
    exact ⟨[], rfl, .absent⟩
  | false =>
    obtain ⟨e, hread, rfl⟩ := Reply.map_eq_done_iff.1 h
    obtain ⟨pre, rfl, hd⟩ := expression_eq_done s hread
    exact ⟨pre, rfl, .given hd⟩

private theorem returnStatement_sound (hk : semicolon.kind = .semicolon) {ret : Token}
    {ts us : List Token} {st : Stmt} (h : returnStatement s ret ts = .done st us []) :
    ∃ lent pre value t, Lends s semicolon us lent ∧ ts ++ lent = pre ++ t :: us ∧
      Optionally pre value ∧ t.kind = .semicolon ∧ st = .ret ret value := by
  obtain ⟨value, rest, hvalue, h⟩ := Reply.bind_eq_done_iff.1 h
  obtain ⟨_, hend, rfl⟩ := Reply.map_eq_done_iff.1 h
  obtain ⟨lent, t, hlent, hrest, ht⟩ := endStatement_sound hk hend
  obtain ⟨pre, rfl, hv⟩ := optional_sound hvalue
  exact ⟨lent, pre, value, t, hlent, by rw [List.append_assoc, hrest], hv, ht, rfl⟩

private theorem condition_sound {opens closes : Fault} {ts us : List Token} {c : Expr}
    (h : condition s opens closes ts = .done c us []) :
    ∃ opened pre closed, ts = opened :: (pre ++ closed :: us) ∧ opened.kind = .leftParen ∧
      Derives .assignment pre c ∧ closed.kind = .rightParen := by
  obtain ⟨opened, rest, hopen, h⟩ := Reply.bind_eq_done_iff.1 h
  obtain ⟨c', rest', hread, h⟩ := Reply.bind_eq_done_iff.1 h
  obtain ⟨closed, hclose, rfl⟩ := Reply.map_eq_done_iff.1 h
  obtain ⟨rfl, ho⟩ := expect_eq_done_iff.1 hopen
  obtain ⟨rfl, hc⟩ := expect_eq_done_iff.1 hclose
  obtain ⟨pre, rfl, hd⟩ := expression_eq_done s hread
  exact ⟨opened, pre, closed, rfl, ho, hd, hc⟩

private theorem variableDeclaration_sound (hk : semicolon.kind = .semicolon) {var : Token}
    (hvar : var.kind = .kwVar) {ts us : List Token} {st : Stmt}
    (h : variableDeclaration s ts = .done st us []) :
    ∃ lent pre, Lends s semicolon us lent ∧ ts ++ lent = pre ++ us ∧
      VariableClause (var :: pre) st := by
  obtain ⟨x, rest, hname, h⟩ := Reply.bind_eq_done_iff.1 h
  obtain ⟨init, rest', hinit, h⟩ := Reply.bind_eq_done_iff.1 h
  obtain ⟨_, hend, rfl⟩ := Reply.map_eq_done_iff.1 h
  obtain ⟨rfl, hx⟩ := expect_eq_done_iff.1 hname
  obtain ⟨lent, t, hlent, hrest, ht⟩ := endStatement_sound hk hend
  by_cases hnext : nextIs .equal rest = true
  · rw [if_pos hnext] at hinit
    obtain ⟨e, hread, rfl⟩ := Reply.map_eq_done_iff.1 hinit
    cases rest with
    | nil => cases hnext
    | cons equal rest =>
      obtain ⟨pre, hpre, hd⟩ := expression_eq_done s hread
      rw [List.tail_cons] at hpre
      subst hpre
      exact ⟨lent, x :: equal :: (pre ++ [t]), hlent, by simp [hrest],
        .initialized hvar hx (eq_of_beq hnext) hd ht⟩
  · rw [if_neg hnext] at hinit
    cases hinit
    exact ⟨lent, [x, t], hlent, by simp [hrest], .plain hvar hx ht⟩

private theorem functionHead_sound {ts us params : List Token} {name : Token}
    (h : functionHead s ts = .done (name, params) us []) :
    ∃ opened pre closed start, ts = name :: opened :: (pre ++ closed :: start :: us) ∧
      name.kind = .identifier ∧ opened.kind = .leftParen ∧
      Listed (params.map fun p => [p]) pre ∧ (∀ p ∈ params, p.kind = .identifier) ∧
      params.length ≤ 255 ∧ closed.kind = .rightParen ∧ start.kind = .leftBrace := by
  obtain ⟨name', rest, hname, h⟩ := Reply.bind_eq_done_iff.1 h
  obtain ⟨opened, rest', hopen, h⟩ := Reply.bind_eq_done_iff.1 h
  obtain ⟨params', rest'', hparams, h⟩ := Reply.bind_eq_done_iff.1 h
  obtain ⟨closed, rest''', hclose, h⟩ := Reply.bind_eq_done_iff.1 h
  obtain ⟨start, hstart, hpair⟩ := Reply.map_eq_done_iff.1 h
  cases hpair
  obtain ⟨rfl, hn⟩ := expect_eq_done_iff.1 hname
  obtain ⟨rfl, ho⟩ := expect_eq_done_iff.1 hopen
  obtain ⟨rfl, hc⟩ := expect_eq_done_iff.1 hclose
  obtain ⟨rfl, hb⟩ := expect_eq_done_iff.1 hstart
  have hone (ts : List Token) (p : Token) (rest : List Token) (_ : ts.length < rest'.length + 1)
      (hread : expect s .identifier .noParameterName ts = .done p rest []) :
      ∃ pre, ts = pre ++ rest ∧ pre = [p] ∧ p.kind = .identifier := by
    obtain ⟨rfl, hp⟩ := expect_eq_done_iff.1 hread
    exact ⟨[p], rfl, rfl, hp⟩
  obtain ⟨items, pre, rfl, rfl, hl, hitems, hcount⟩ :=
    (readsCommaList_parameters s).parenthesized_sound hone (Nat.lt_succ_self _) hparams
  have hparts : items.map Prod.fst = (items.map Prod.snd).map fun p => [p] := by
    rw [List.map_map]
    exact List.map_congr_left fun a ha => (hitems a ha).1
  refine ⟨opened, pre, closed, start, rfl, hn, ho, hparts ▸ hl, ?_, by rwa [List.length_map], hc, hb⟩
  intro p hp
  obtain ⟨a, ha, rfl⟩ := List.mem_map.1 hp
  exact (hitems a ha).2

private theorem initialClause_sound (hk : semicolon.kind = .semicolon) {ts us : List Token}
    {init : Option Stmt}
    (h : (if nextIs .semicolon ts then .done none ts.tail []
      else if nextIs .kwVar ts then (variableDeclaration s ts.tail).map some
      else (expressionStatement s ts).map some) = Reply.done init us []) :
    ∃ lent pre, Lends s semicolon us lent ∧ ts ++ lent = pre ++ us ∧ InitialClause pre init := by
  split at h
  · next hnext =>
    cases ts with
    | nil => cases hnext
    | cons t ts =>
      cases h
      exact ⟨[], [t], .nothing _, List.append_nil _, .absent (eq_of_beq hnext)⟩
  split at h
  · next hnext =>
    obtain ⟨st, hread, rfl⟩ := Reply.map_eq_done_iff.1 h
    cases ts with
    | nil => cases hnext
    | cons var ts =>
      obtain ⟨lent, pre, hlent, hpre, hv⟩ :=
        variableDeclaration_sound hk (eq_of_beq hnext) hread
      rw [List.tail_cons] at hpre
      exact ⟨lent, var :: pre, hlent, by rw [List.cons_append, hpre, List.cons_append],
        .binding hv⟩
  · obtain ⟨st, hread, rfl⟩ := Reply.map_eq_done_iff.1 h
    obtain ⟨lent, pre, e, t, hlent, hpre, hd, ht, rfl⟩ := terminated_sound hk hread
    exact ⟨lent, pre ++ [t], hlent, by rw [hpre, List.append_assoc, List.singleton_append],
      .expression hd ht⟩

/-- The header of a `for` goes on behind each of its semicolons, so none of them is lent. -/
theorem forClauses_sound (hk : semicolon.kind = .semicolon) {ts us : List Token}
    {clauses : ForClauses} (h : forClauses s ts = .done clauses us []) :
    ∃ opened is cs t ns closed c,
      ts = opened :: (is ++ (cs ++ t :: (ns ++ closed :: us))) ∧
      opened.kind = .leftParen ∧ InitialClause is clauses.init ∧ Optionally cs c ∧
      clauses.condition = c.getD (.literal (.bool true)) ∧ t.kind = .semicolon ∧
      Optionally ns clauses.increment ∧ closed.kind = .rightParen := by
  obtain ⟨opened, rest₀, hopen, h⟩ := Reply.bind_eq_done_iff.1 h
  obtain ⟨init, rest₁, hinit, h⟩ := Reply.bind_eq_done_iff.1 h
  obtain ⟨condition, rest₂, hcondition, h⟩ := Reply.bind_eq_done_iff.1 h
  obtain ⟨_, rest₃, hend, h⟩ := Reply.bind_eq_done_iff.1 h
  obtain ⟨increment, rest₄, hincrement, h⟩ := Reply.bind_eq_done_iff.1 h
  obtain ⟨closed, hclose, rfl⟩ := Reply.map_eq_done_iff.1 h
  obtain ⟨rfl, ho⟩ := expect_eq_done_iff.1 hopen
  obtain ⟨rfl, hc⟩ := expect_eq_done_iff.1 hclose
  obtain ⟨ns, rfl, hn⟩ := optional_sound hincrement
  obtain ⟨lent, t, hlent, hrest₂, ht⟩ := endStatement_sound hk hend
  obtain rfl := hlent.eq_nil (by simp)
  rw [List.append_nil] at hrest₂
  subst hrest₂
  obtain ⟨lent, is, hlent, hrest₀, hi⟩ := initialClause_sound hk hinit
  have hcond : ∃ cs c, rest₁ = cs ++ t :: (ns ++ closed :: us) ∧ Optionally cs c ∧
      condition = c.getD (.literal (.bool true)) := by
    split at hcondition
    · cases hcondition
      exact ⟨[], none, rfl, .absent, rfl⟩
    · obtain ⟨cs, hcs, hd⟩ := expression_eq_done s hcondition
      exact ⟨cs, some condition, hcs, .given hd, rfl⟩
  obtain ⟨cs, c, rfl, hcs, hvalue⟩ := hcond
  obtain rfl := hlent.eq_nil (by simp)
  rw [List.append_nil] at hrest₀
  subst hrest₀
  exact ⟨opened, is, cs, t, ns, closed, c, rfl, ho, hi, hcs, hvalue, ht, hn, hc⟩

/-- A statement was read: its tokens are a sentence, and no `else` that it could have taken is left
over. -/
def StatementRead (s : Setting) (semicolon : Token) (ts us : List Token) (st : Stmt) : Prop :=
  ∃ lent pre b, Lends s semicolon us lent ∧ ts ++ lent = pre ++ us ∧
    Sentence (.statement b) pre st ∧ (Form.statement b).Allows us

def DeclarationRead (s : Setting) (semicolon : Token) (ts us : List Token) (st : Stmt) : Prop :=
  ∃ lent pre, Lends s semicolon us lent ∧ ts ++ lent = pre ++ us ∧ Sentence .declaration pre st

/-- The declarations of a block were read, and the brace that closes it. -/
def BlockRead (ts us : List Token) (ss : List Stmt) : Prop :=
  ∃ (body : List (List Token × Stmt)) (closed : Token),
    ts = body.flatMap Prod.fst ++ closed :: us ∧ closed.kind = .rightBrace ∧
    ss = body.map Prod.snd ∧ ∀ d ∈ body, Sentence .declaration d.1 d.2

/-- Statements and blocks of fewer than `n` tokens are read as the grammar derives them. -/
structure SentencesSoundBelow (s : Setting) (semicolon : Token) (n : Nat) : Prop where
  statement : ∀ {ts us : List Token} {st : Stmt}, ts.length < n →
    Grammar.statement s ts = .done st us [] → StatementRead s semicolon ts us st
  block : ∀ {ts us : List Token} {ss : List Stmt}, ts.length < n →
    Grammar.block s ts = .done ss us [] → BlockRead ts us ss

private theorem statementRead_closed {lent ts us : List Token} {st : Stmt}
    (hlent : Lends s semicolon us lent) (pre : List Token) (hts : ts ++ lent = pre ++ us)
    (h : Sentence (.statement false) pre st) : StatementRead s semicolon ts us st :=
  ⟨lent, pre, false, hlent, hts, h, trivial⟩

private theorem if_sound {n : Nat} (ih : SentencesSoundBelow s semicolon n) {kw : Token}
    (hk : kw.kind = .kwIf) {ts us : List Token} {st : Stmt} (hn : ts.length < n)
    (h : ((condition s .ifNotOpened .ifNotClosed ts).bind fun c rest =>
      (statement s rest).bind fun yes rest =>
        if nextIs .kwElse rest then (statement s rest.tail).map (.ifElse c yes)
        else .done (.ifThen c yes) rest []) = .done st us []) :
    StatementRead s semicolon (kw :: ts) us st := by
  obtain ⟨c, rest, hcond, hbranch⟩ := Reply.bind_eq_done_iff.1 h
  obtain ⟨yes, rest', hyes, hmore⟩ := Reply.bind_eq_done_iff.1 hbranch
  obtain ⟨opened, cs, closed, rfl, ho, hd, hc⟩ := condition_sound hcond
  simp only [List.length_cons, List.length_append] at hn
  obtain ⟨lent, ys, b, hlent, hrest, hy, hallows⟩ := ih.statement (by omega) hyes
  by_cases hnext : nextIs .kwElse rest' = true
  · rw [if_pos hnext] at hmore
    obtain ⟨no, hno, rfl⟩ := Reply.map_eq_done_iff.1 hmore
    cases rest' with
    | nil => cases hnext
    | cons otherwise rest' =>
      obtain rfl := hlent.eq_nil (List.cons_ne_nil _ _)
      rw [List.append_nil] at hrest
      subst hrest
      rw [List.tail_cons] at hno
      simp only [List.length_append, List.length_cons] at hn
      obtain ⟨lent, ns, d, hlent, hrest, hn', hallows'⟩ := ih.statement (by omega) hno
      cases b with
      | true => exact absurd hnext (by rw [show nextIs _ _ = false from hallows]; simp)
      | false =>
        exact ⟨lent, kw :: opened :: (cs ++ closed :: (ys ++ otherwise :: ns)), d, hlent,
          by simp [hrest], .ifElse hk ho hd hc hy (eq_of_beq hnext) hn', hallows'⟩
  · rw [if_neg hnext] at hmore
    cases hmore
    exact ⟨lent, kw :: opened :: (cs ++ closed :: ys), true, hlent, by simp [hrest],
      .ifThen hk ho hd hc hy, Bool.eq_false_iff.2 hnext⟩

/-- The condition of a `for` is the one that is written, or always true. -/
theorem ForClauses.around_eq (clauses : ForClauses) {c : Option Expr}
    (hc : clauses.condition = c.getD (.literal (.bool true))) (body : Stmt) :
    clauses.around body = forBlock clauses.init c clauses.increment body := by
  cases hincrement : clauses.increment <;>
    simp only [ForClauses.around, forBlock, hc, hincrement]

/-- The rest of a `for` was read: its clauses in parentheses, any of which may be missing, and its
body. -/
def ForRead (s : Setting) (semicolon : Token) (ts us : List Token) (init : Option Stmt)
    (c increment : Option Expr) (body : Stmt) : Prop :=
  ∃ (opened : Token) (is cs : List Token) (t : Token) (ns : List Token) (closed : Token)
    (bs lent : List Token) (b : Bool),
    Lends s semicolon us lent ∧
    ts ++ lent = opened :: (is ++ (cs ++ t :: (ns ++ closed :: (bs ++ us)))) ∧
    opened.kind = .leftParen ∧ InitialClause is init ∧ Optionally cs c ∧ t.kind = .semicolon ∧
    Optionally ns increment ∧ closed.kind = .rightParen ∧ Sentence (.statement b) bs body ∧
    (Form.statement b).Allows us

private theorem ForRead.statementRead {kw : Token} (hk : kw.kind = .kwFor) {ts us : List Token}
    {init : Option Stmt} {c increment : Option Expr} {body : Stmt}
    (h : ForRead s semicolon ts us init c increment body) :
    StatementRead s semicolon (kw :: ts) us (forBlock init c increment body) := by
  obtain ⟨opened, is, cs, t, ns, closed, bs, lent, b, hlent, hts, ho, hi, hc, ht, hn, hclosed, hb,
    hallows⟩ := h
  exact ⟨lent, kw :: opened :: (is ++ (cs ++ t :: (ns ++ closed :: bs))), b, hlent, by simp [hts],
    .forLoop hk ho hi hc ht hn hclosed hb, hallows⟩

theorem for_sound (hsemi : semicolon.kind = .semicolon) {n : Nat}
    (ih : SentencesSoundBelow s semicolon n) {ts rest us : List Token} {clauses : ForClauses}
    {body : Stmt} (hn : ts.length < n) (hclauses : forClauses s ts = .done clauses rest [])
    (hbody : statement s rest = .done body us []) :
    ∃ c, clauses.condition = c.getD (.literal (.bool true)) ∧
      ForRead s semicolon ts us clauses.init c clauses.increment body := by
  obtain ⟨opened, is, cs, t, ns, closed, c, rfl, ho, hi, hcond, hvalue, ht, hn', hc⟩ :=
    forClauses_sound hsemi hclauses
  simp only [List.length_cons, List.length_append] at hn
  obtain ⟨lent, bs, b, hlent, hrest, hb, hallows⟩ := ih.statement (by omega) hbody
  exact ⟨c, hvalue, opened, is, cs, t, ns, closed, bs, lent, b, hlent, by simp [hrest], ho, hi, hcond,
    ht, hn', hc, hb, hallows⟩

private theorem statement_sound (hsemi : semicolon.kind = .semicolon) {n : Nat}
    (ih : SentencesSoundBelow s semicolon n) {ts us : List Token} {st : Stmt}
    (hn : ts.length ≤ n) (h : statement s ts = .done st us []) :
    StatementRead s semicolon ts us st := by
  have expressed (h : expressionStatement s ts = .done st us []) :
      StatementRead s semicolon ts us st := by
    obtain ⟨lent, pre, e, t, hlent, hpre, hd, ht, rfl⟩ := terminated_sound hsemi h
    exact statementRead_closed hlent (pre ++ [t]) (by simp [hpre]) (.expression hd ht)
  cases ts with
  | nil =>
    rw [statement_nil] at h
    exact expressed h
  | cons t ts =>
    have hlen : ts.length < n := hn
    rw [statement_cons] at h
    split at h
    · next hk =>
      obtain ⟨lent, pre, e, u, hlent, hpre, hd, hu, rfl⟩ := terminated_sound hsemi h
      exact statementRead_closed hlent (t :: (pre ++ [u])) (by simp [hpre]) (.print hk hd hu)
    · next hk =>
      obtain ⟨lent, pre, value, u, hlent, hpre, hv, hu, rfl⟩ := returnStatement_sound hsemi h
      exact statementRead_closed hlent (t :: (pre ++ [u])) (by simp [hpre]) (.ret hk hv hu)
    · next hk =>
      obtain ⟨ss, hread, rfl⟩ := Reply.map_eq_done_iff.1 h
      obtain ⟨body, closed, rfl, hc, rfl, hbody⟩ := ih.block hlen hread
      exact statementRead_closed (.nothing _) (t :: (body.flatMap Prod.fst ++ [closed])) (by simp)
        (.block hk hbody hc)
    · next hk => exact if_sound ih hk hlen h
    · next hk =>
      obtain ⟨c, rest, hcond, h⟩ := Reply.bind_eq_done_iff.1 h
      obtain ⟨body, hread, rfl⟩ := Reply.map_eq_done_iff.1 h
      obtain ⟨opened, cs, closed, rfl, ho, hd, hc⟩ := condition_sound hcond
      simp only [List.length_cons, List.length_append] at hlen
      obtain ⟨lent, bs, b, hlent, hrest, hb, hallows⟩ := ih.statement (by omega) hread
      exact ⟨lent, t :: opened :: (cs ++ closed :: bs), b, hlent, by simp [hrest],
        .loop hk ho hd hc hb, hallows⟩
    · next hk =>
      obtain ⟨clauses, rest, hclauses, h⟩ := Reply.bind_eq_done_iff.1 h
      obtain ⟨body, hread, rfl⟩ := Reply.map_eq_done_iff.1 h
      obtain ⟨c, hvalue, hfor⟩ := for_sound hsemi ih hlen hclauses hread
      rw [clauses.around_eq hvalue]
      exact hfor.statementRead hk
    · exact expressed h

private theorem declaration_sound (hsemi : semicolon.kind = .semicolon) {n : Nat}
    (ih : SentencesSoundBelow s semicolon n) {ts us : List Token} {st : Stmt}
    (hn : ts.length ≤ n) (h : declaration s ts = .done st us []) :
    DeclarationRead s semicolon ts us st := by
  have stated (h : statement s ts = .done st us []) : DeclarationRead s semicolon ts us st := by
    obtain ⟨lent, pre, b, hlent, hpre, hsentence, -⟩ := statement_sound hsemi ih hn h
    exact ⟨lent, pre, hlent, hpre, .ofStatement hsentence⟩
  cases ts with
  | nil => exact stated h
  | cons t ts =>
    have hlen : ts.length < n := hn
    rw [declaration] at h
    split at h
    · next hk =>
      obtain ⟨lent, pre, hlent, hpre, hv⟩ := variableDeclaration_sound hsemi hk h
      exact ⟨lent, t :: pre, hlent, by rw [List.cons_append, hpre, List.cons_append],
        .binding hv⟩
    · next hk =>
      obtain ⟨⟨name, params⟩, rest, hhead, h⟩ := Reply.bind_eq_done_iff.1 h
      obtain ⟨ss, hread, rfl⟩ := Reply.map_eq_done_iff.1 h
      obtain ⟨opened, ps, closed, start, rfl, hn', ho, hl, hp, hcount, hc, hstart⟩ :=
        functionHead_sound hhead
      simp only [List.length_cons, List.length_append] at hlen
      obtain ⟨body, finish, rfl, hf, rfl, hbody⟩ := ih.block (by omega) hread
      exact ⟨[], t :: name :: opened ::
          (ps ++ closed :: start :: (body.flatMap Prod.fst ++ [finish])), .nothing _, by simp,
        .function hk hn' ho hl hp hcount hc hstart hbody hf⟩
    · exact stated h

/-- An item with nothing wrong in it is a declaration that was read. -/
theorem declaration_of_item {ts : List Token} (h : (item s ts).errors = []) :
    declaration s ts = .done (item s ts).stmt (item s ts).rest [] := by
  rw [item] at h ⊢
  cases hd : declaration s ts with
  | done st rest notes =>
    rw [hd] at h
    have hnotes : notes = [] := h
    rw [hnotes]
    rfl
  | failed e rest notes =>
    rw [hd] at h
    have hnotes : notes ++ [e] = [] := h
    simp at hnotes

private theorem block_sound (hsemi : semicolon.kind = .semicolon) {n : Nat}
    (ih : SentencesSoundBelow s semicolon n) {ts us : List Token} {ss : List Stmt}
    (hn : ts.length ≤ n) (h : block s ts = .done ss us []) : BlockRead ts us ss := by
  cases ts with
  | nil =>
    rw [block_nil] at h
    cases h
  | cons t ts =>
    rw [block_cons] at h
    split at h
    · next hk =>
      cases h
      exact ⟨[], t, rfl, hk, rfl, by simp⟩
    · obtain ⟨hfine, hmore⟩ := Reply.addNotes_eq_done_iff.1 h
      obtain ⟨rest, hread, rfl⟩ := Reply.map_eq_done_iff.1 hmore
      have hlen : (item s (t :: ts)).rest.length < n :=
        Nat.lt_of_le_of_lt (length_item s t ts) hn
      obtain ⟨lent, pre, hlent, hpre, hsentence⟩ :=
        declaration_sound hsemi ih hn (declaration_of_item hfine)
      obtain ⟨body, closed, hrest, hc, rfl, hbody⟩ := ih.block hlen hread
      -- The brace is still to come, so the declaration has brought its own semicolon.
      obtain rfl := hlent.eq_nil (by rw [hrest]; simp)
      rw [List.append_nil] at hpre
      refine ⟨(pre, (item s (t :: ts)).stmt) :: body, closed, ?_, hc, rfl, ?_⟩
      · rw [List.flatMap_cons, List.append_assoc, ← hrest]
        exact hpre
      · intro d hd
        rcases List.mem_cons.1 hd with rfl | hd
        · exact hsentence
        · exact hbody d hd

theorem sentencesSoundBelow (hsemi : semicolon.kind = .semicolon) (n : Nat) :
    SentencesSoundBelow s semicolon n := by
  induction n with
  | zero => exact ⟨fun h => absurd h (Nat.not_lt_zero _), fun h => absurd h (Nat.not_lt_zero _)⟩
  | succ n ih =>
    exact ⟨fun hn h => statement_sound hsemi ih (Nat.le_of_lt_succ hn) h,
      fun hn h => block_sound hsemi ih (Nat.le_of_lt_succ hn) h⟩

/-- A program that is read without complaint is derived by the grammar, with the semicolon at its end
that an interactive reader lends. -/
theorem exists_isProgram_of_declarations (hsemi : semicolon.kind = .semicolon) {ts : List Token}
    {ss : List Stmt} (h : declarations s ts = ⟨ss, []⟩) :
    ∃ lent, Lends s semicolon [] lent ∧ IsProgram (ts ++ lent) ss := by
  induction hk : ts.length using Nat.strongRecOn generalizing ts ss with
  | ind k ih =>
    subst hk
    cases ts with
    | nil =>
      rw [declarations] at h
      cases h
      exact ⟨[], .nothing _, [], by simp, rfl, rfl⟩
    | cons t ts =>
      rw [declarations, Program.mk.injEq, List.append_eq_nil_iff] at h
      obtain ⟨rfl, hfine, hmore⟩ := h
      obtain ⟨lent, pre, hlent, hpre, hsentence⟩ := declaration_sound hsemi
        (sentencesSoundBelow hsemi _) (Nat.le_refl _) (declaration_of_item hfine)
      cases hrest : (item s (t :: ts)).rest with
      | nil =>
        have hend : declarations s [] = ⟨[], []⟩ := by rw [declarations]
        refine ⟨lent, hrest ▸ hlent, [(pre, (item s (t :: ts)).stmt)], ?_, ?_, ?_⟩
        · intro d hd
          rw [List.mem_singleton.1 hd]
          exact hsentence
        · rw [hpre, hrest]
          rfl
        · rw [hend]
          rfl
      | cons u us =>
        obtain rfl := hlent.eq_nil (by simp [hrest])
        rw [List.append_nil] at hpre
        have hlen : (u :: us).length < (t :: ts).length :=
          hrest ▸ Nat.lt_succ_of_le (length_item s t ts)
        have hprogram : declarations s (u :: us) = ⟨(declarations s (u :: us)).statements, []⟩ := by
          rw [← hrest, ← hmore]
        obtain ⟨lent, hlent', body, hbody, hbehind, hss⟩ := ih _ hlen hprogram rfl
        refine ⟨lent, hlent', (pre, (item s (t :: ts)).stmt) :: body, ?_, ?_, ?_⟩
        · intro d hd
          rcases List.mem_cons.1 hd with rfl | hd
          · exact hsentence
          · exact hbody d hd
        · rw [hpre, hrest, List.append_assoc, hbehind, List.flatMap_cons]
        · rw [List.map_cons, ← hss]

theorem isProgram_of_declarations (hs : s.interactive = false) {ts : List Token}
    {ss : List Stmt} (h : declarations s ts = ⟨ss, []⟩) : IsProgram ts ss := by
  have hsemi : (⟨.semicolon, ";", none, 0⟩ : Token).kind = .semicolon := rfl
  obtain ⟨lent, hlent, hprogram⟩ := exists_isProgram_of_declarations hsemi h
  rw [hlent.eq_nil_of_script hs, List.append_nil] at hprogram
  exact hprogram

theorem declarations_eq_iff (hs : s.interactive = false) {ts : List Token} {ss : List Stmt} :
    declarations s ts = ⟨ss, []⟩ ↔ IsProgram ts ss :=
  ⟨isProgram_of_declarations hs, declarations_of_isProgram s⟩

/-- A script is read without complaint if and only if its tokens are declarations one after the
other, and then it is read as their trees. -/
theorem program_accepts_sentences (ts : List Token) (hts : ∀ t ∈ ts, t.kind ≠ .eof) :
    ((Program.ofTokens false ts).report = [] ↔ ∃ ss, IsProgram ts ss) ∧
    ∀ ss, IsProgram ts ss → (Program.ofTokens false ts).statements = ss := by
  have hinput : input ts = ts := by
    have happend := input_append [] hts
    have hnil : input [] = [] := rfl
    rwa [hnil, List.append_nil] at happend
  have hs : (Setting.ofTokens false ts).interactive = false := rfl
  rw [Program.ofTokens, hinput]
  constructor
  · rw [Program.report, List.map_eq_nil_iff]
    constructor
    · intro h
      exact ⟨_, (declarations_eq_iff hs).1 (by rw [← h])⟩
    · rintro ⟨ss, h⟩
      rw [(declarations_eq_iff hs).2 h]
  · intro ss h
    rw [(declarations_eq_iff hs).2 h]

/-- An `else` belongs to the nearest `if`. -/
theorem program_accepts_nearest_else :
    let kwIf : Token := ⟨.kwIf, "if", none, 1⟩
    let opened : Token := ⟨.leftParen, "(", none, 1⟩
    let closed : Token := ⟨.rightParen, ")", none, 1⟩
    let otherwise : Token := ⟨.kwElse, "else", none, 1⟩
    let semicolon : Token := ⟨.semicolon, ";", none, 1⟩
    let x := Token.named "x" 1
    let ts := [kwIf, opened, x, closed, kwIf, opened, x, closed, x, semicolon, otherwise, x, semicolon]
    (∀ t ∈ ts, t.kind ≠ .eof) ∧ (Program.ofTokens false ts).report = [] ∧
      (Program.ofTokens false ts).statements =
        [.ifThen (.name x) (.ifElse (.name x) (.expression (.name x)) (.expression (.name x)))] := by
  intro kwIf opened closed otherwise semicolon x ts
  have hx : Derives .assignment [x] (.name x) := (Derives.name rfl).loosen (by decide)
  have hxs : Sentence (.statement false) ([x] ++ [semicolon]) (.expression (.name x)) :=
    .expression hx rfl
  have hinner : Sentence (.statement false)
      (kwIf :: opened :: ([x] ++ closed :: ([x] ++ [semicolon] ++ otherwise :: ([x] ++ [semicolon]))))
      (.ifElse (.name x) (.expression (.name x)) (.expression (.name x))) :=
    .ifElse rfl rfl hx rfl hxs rfl hxs
  have hprogram : IsProgram ts
      [.ifThen (.name x) (.ifElse (.name x) (.expression (.name x)) (.expression (.name x)))] := by
    refine ⟨[(ts, _)], ?_, by simp, rfl⟩
    intro d hd
    rw [List.mem_singleton.1 hd]
    exact .ofStatement (@Sentence.ifThen kwIf opened closed [x] _ _ _ _ rfl rfl hx rfl hinner)
  have hkinds : ∀ t ∈ ts, t.kind ≠ .eof := by decide
  have haccepts := program_accepts_sentences ts hkinds
  exact ⟨hkinds, haccepts.1.2 ⟨_, hprogram⟩, haccepts.2 _ hprogram⟩

end Scriptlet.Grammar
