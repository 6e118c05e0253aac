import Scriptlet.Proofs.Grammar.CompletePrefix

namespace Scriptlet

/-- Whether the token can stand in an expression. -/
def TokenKind.inExpression (k : TokenKind) : Bool :=
  k.opening?.isSome || k.joining?.isSome || k == .rightParen || k == .comma

private theorem TokenKind.of_inExpression {k : TokenKind} (h : k.inExpression = true) :
    k ≠ .semicolon ∧ k.startsStatement = false ∧ k ≠ .eof := by
  revert h
  cases k <;> decide

theorem TokenKind.of_startsStatement {k : TokenKind} (h : k.startsStatement = true) :
    k ≠ .semicolon ∧ k.joining? = none ∧ k ≠ .kwElse ∧ k ≠ .rightBrace ∧ k ≠ .eof := by
  revert h
  cases k <;> decide

namespace Grammar

variable {s : Setting} {l : Layer} {t : Token} {ts us : List Token} {e : Expr}

private theorem Listed.forall_mem {parts : List (List Token)} {P : Token → Prop}
    (h : Listed parts ts)
    (hcomma : ∀ t : Token, t.kind = .comma → P t) (hparts : ∀ part ∈ parts, ∀ t ∈ part, P t) :
    ∀ t ∈ ts, P t := by
  induction h with
  | none =>
    intro t ht
    cases ht
  | one ts => exact hparts ts List.mem_cons_self
  | more hc _ ih =>
    rw [List.forall_mem_append, List.forall_mem_cons]
    rw [List.forall_mem_cons] at hparts
    exact ⟨hparts.1, hcomma _ hc, ih hparts.2⟩

theorem Derives.inExpression (h : Derives l ts e) : ∀ t ∈ ts, t.kind.inExpression = true := by
  have hkind {t : Token} {k : TokenKind} (ht : t.kind = k) (hk : k.inExpression = true) :
      t.kind.inExpression = true := ht ▸ hk
  have hmem {t : Token} {ks : List TokenKind} (ht : t.kind ∈ ks)
      (hks : ks.all (·.inExpression) = true) : t.kind.inExpression = true :=
    List.all_eq_true.1 hks _ ht
  induction h with
  | assign hx hop _ ih =>
    rw [List.forall_mem_cons, List.forall_mem_cons]
    exact ⟨hkind hx rfl, hkind hop rfl, ih⟩
  | @logical l _ _ _ _ _ hop _ _ ihl ihr =>
    rw [List.forall_mem_append, List.forall_mem_cons]
    exact ⟨ihl, hmem hop (by cases l <;> decide), ihr⟩
  | @binary l _ _ _ _ _ hop _ _ ihl ihr =>
    rw [List.forall_mem_append, List.forall_mem_cons]
    exact ⟨ihl, hmem hop (by cases l <;> decide), ihr⟩
  | unary hop _ ih =>
    rw [List.forall_mem_cons]
    exact ⟨hmem hop (by decide), ih⟩
  | stepBefore hop hx =>
    rw [List.forall_mem_cons, List.forall_mem_singleton]
    exact ⟨hmem hop (by decide), hkind hx rfl⟩
  | stepAfter hx hop =>
    rw [List.forall_mem_cons, List.forall_mem_singleton]
    exact ⟨hkind hx rfl, hmem hop (by decide)⟩
  | @call _ _ _ _ _ args _ ho hl _ _ hp ihcallee ihargs =>
    rw [List.forall_mem_append, List.forall_mem_cons, List.forall_mem_append,
      List.forall_mem_singleton]
    have hargs : ∀ part ∈ args.map Prod.fst, ∀ t ∈ part, t.kind.inExpression = true := by
      intro part hpart
      obtain ⟨a, ha, rfl⟩ := List.mem_map.1 hpart
      exact ihargs a ha
    exact ⟨ihcallee, hkind ho rfl, hl.forall_mem (fun t ht => hkind ht rfl) hargs, hkind hp rfl⟩
  | name hx | yes hx | no hx | nil hx =>
    rw [List.forall_mem_singleton]
    exact hkind hx rfl
  | literal ht _ =>
    rw [List.forall_mem_singleton]
    exact hmem ht (by decide)
  | group ho _ hc ih =>
    rw [List.forall_mem_cons, List.forall_mem_append, List.forall_mem_singleton]
    exact ⟨hkind ho rfl, ih, hkind hc rfl⟩
  | tighter _ ih => exact ih

theorem Derives.kind_ne_eof (h : Derives l ts e) : ∀ t ∈ ts, t.kind ≠ .eof := by
  intro t ht
  exact (TokenKind.of_inExpression (h.inExpression t ht)).2.2

theorem Optionally.kind_ne_eof {o : Option Expr} (h : Optionally ts o) :
    ∀ t ∈ ts, t.kind ≠ .eof := by
  cases h with
  | absent => exact List.forall_mem_nil _
  | given he => exact he.kind_ne_eof

theorem VariableClause.kind_ne_eof {st : Stmt} (h : VariableClause ts st) :
    ∀ t ∈ ts, t.kind ≠ .eof := by
  cases h with
  | plain hvar hx hs =>
    simp only [List.forall_mem_cons, hvar, hx, hs]
    exact ⟨nofun, nofun, nofun, List.forall_mem_nil _⟩
  | initialized hvar hx hq he hs =>
    simp only [List.forall_mem_cons, List.forall_mem_append, hvar, hx, hq, hs]
    exact ⟨nofun, nofun, nofun, he.kind_ne_eof, nofun, List.forall_mem_nil _⟩

theorem InitialClause.kind_ne_eof {init : Option Stmt} (h : InitialClause ts init) :
    ∀ t ∈ ts, t.kind ≠ .eof := by
  cases h with
  | absent hs =>
    rw [List.forall_mem_singleton, hs]
    exact nofun
  | binding hv => exact hv.kind_ne_eof
  | expression he hs =>
    rw [List.forall_mem_append, List.forall_mem_singleton, hs]
    exact ⟨he.kind_ne_eof, nofun⟩

private theorem forall_mem_flatMap_fst {body : List (List Token × Stmt)} {P : Token → Prop}
    (h : ∀ d ∈ body, ∀ t ∈ d.1, P t) : ∀ t ∈ body.flatMap Prod.fst, P t := by
  intro t ht
  obtain ⟨d, hd, ht⟩ := List.mem_flatMap.1 ht
  exact h d hd t ht

theorem Sentence.kind_ne_eof {f : Form} {st : Stmt} (h : Sentence f ts st) :
    ∀ t ∈ ts, t.kind ≠ .eof := by
  induction h with
  | expression he hs =>
    rw [List.forall_mem_append, List.forall_mem_singleton, hs]
    exact ⟨he.kind_ne_eof, nofun⟩
  | print hk he hs =>
    rw [List.forall_mem_cons, List.forall_mem_append, List.forall_mem_singleton, hk, hs]
    exact ⟨nofun, he.kind_ne_eof, nofun⟩
  | ret hk hv hs =>
    rw [List.forall_mem_cons, List.forall_mem_append, List.forall_mem_singleton, hk, hs]
    exact ⟨nofun, hv.kind_ne_eof, nofun⟩
  | block ho _ hc ih =>
    rw [List.forall_mem_cons, List.forall_mem_append, List.forall_mem_singleton, ho, hc]
    exact ⟨nofun, forall_mem_flatMap_fst ih, nofun⟩
  | ifThen hk ho he hc _ ih =>
    simp only [List.forall_mem_cons, List.forall_mem_append, hk, ho, hc]
    exact ⟨nofun, nofun, he.kind_ne_eof, nofun, ih⟩
  | ifElse hk ho he hc _ helse _ ihyes ihno =>
    simp only [List.forall_mem_cons, List.forall_mem_append, hk, ho, hc, helse]
    exact ⟨nofun, nofun, he.kind_ne_eof, nofun, ihyes, nofun, ihno⟩
  | loop hk ho he hc _ ih =>
    simp only [List.forall_mem_cons, List.forall_mem_append, hk, ho, hc]
    exact ⟨nofun, nofun, he.kind_ne_eof, nofun, ih⟩
  | forLoop hk ho hi he hs hn hc _ ih =>
    simp only [List.forall_mem_cons, List.forall_mem_append, hk, ho, hs, hc]
    exact ⟨nofun, nofun, hi.kind_ne_eof, he.kind_ne_eof, nofun, hn.kind_ne_eof, nofun, ih⟩
  | ofStatement _ ih => exact ih
  | binding hv => exact hv.kind_ne_eof
  | function hk hname ho hl hparams _ hc hstart _ hfinish ih =>
    simp only [List.forall_mem_cons, List.forall_mem_append, hk, hname, ho, hc, hstart, hfinish]
    refine ⟨nofun, nofun, nofun, hl.forall_mem (fun t ht => ?_) ?_, nofun, nofun,
      forall_mem_flatMap_fst ih, nofun, List.forall_mem_nil _⟩
    · rw [ht]
      exact nofun
    · intro part hpart t ht
      obtain ⟨p, hp, rfl⟩ := List.mem_map.1 hpart
      rw [List.mem_singleton.1 ht, hparams p hp]
      exact nofun

theorem IsProgram.kind_ne_eof {ss : List Stmt} (h : IsProgram ts ss) : ∀ t ∈ ts, t.kind ≠ .eof := by
  obtain ⟨body, hbody, rfl, -⟩ := h
  exact forall_mem_flatMap_fst fun d hd => (hbody d hd).kind_ne_eof

/-- What is left behind the next semicolon or from the next keyword on that starts a statement. -/
def skip : List Token → List Token
  | [] => []
  | t :: ts =>
    if t.kind = .semicolon then ts
    else if t.kind.startsStatement then t :: ts
    else skip ts

/-- Whatever token shows the fault, a keyword too, is dropped; only a semicolon ends the search. -/
theorem resume_cons (ts : List Token) (h : t.kind ≠ .semicolon) : resume (t :: ts) = skip ts := by
  induction ts generalizing t with
  | nil => rw [resume, if_neg h, skip]
  | cons u us ih =>
    rw [resume, if_neg h, skip]
    by_cases hu : u.kind = .semicolon
    · rw [if_pos hu, hu, if_neg (by decide), resume.eq_def]
      exact if_pos hu
    · rw [if_neg hu, ih hu]

theorem skip_append (us : List Token) (h : ∀ t ∈ ts, t.kind.inExpression = true) :
    skip (ts ++ us) = skip us := by
  induction ts with
  | nil => rfl
  | cons t ts ih =>
    rw [List.forall_mem_cons] at h
    obtain ⟨hsemicolon, hstarts, -⟩ := TokenKind.of_inExpression h.1
    rw [List.cons_append, skip, if_neg hsemicolon, if_neg (by rw [hstarts]; simp), ih h.2]

/-- The tokens lack nothing but a semicolon to be a statement with one expression, and this is the fault
where another token follows. -/
inductive Unended : List Token → Stmt → Fault → Prop where
  | print {kw : Token} {ts : List Token} {e : Expr} : kw.kind = .kwPrint →
    Derives .assignment ts e → Unended (kw :: ts) (.print kw e) .printNotEnded
  | var {kw x equal : Token} {ts : List Token} {e : Expr} : kw.kind = .kwVar →
    x.kind = .identifier → equal.kind = .equal → Derives .assignment ts e →
    Unended (kw :: x :: equal :: ts) (.var x (some e)) .variableNotEnded

namespace Unended

variable {st : Stmt} {fault : Fault}

theorem sentence (h : Unended ts st fault) (ht : t.kind = .semicolon) :
    Sentence .declaration (ts ++ [t]) st := by
  cases h with
  | print hk he => exact .ofStatement (.print hk he ht)
  | var hk hx hq he => exact .binding (.initialized hk hx hq he ht)

/-- Behind its keyword there is nothing at which reading could go on. -/
theorem exists_keyword (h : Unended ts st fault) :
    ∃ kw more, ts = kw :: more ∧ kw.kind.startsStatement = true ∧
      ∀ t ∈ more, t.kind.inExpression = true := by
  cases h with
  | print hk he => exact ⟨_, _, rfl, by rw [hk]; rfl, he.inExpression⟩
  | var hk hx hq he =>
    refine ⟨_, _, rfl, by rw [hk]; rfl, ?_⟩
    rw [List.forall_mem_cons, List.forall_mem_cons, hx, hq]
    exact ⟨rfl, rfl, he.inExpression⟩

theorem kind_ne_eof (h : Unended ts st fault) : ∀ t ∈ ts, t.kind ≠ .eof := by
  obtain ⟨kw, more, rfl, hk, hmore⟩ := h.exists_keyword
  obtain ⟨-, -, -, -, heof⟩ := TokenKind.of_startsStatement hk
  rw [List.forall_mem_cons]
  refine ⟨heof, ?_⟩
  intro t ht
  exact (TokenKind.of_inExpression (hmore t ht)).2.2

end Unended

/-- The tokens cannot follow an expression directly, be it as part of it or as the end of its
statement. -/
structure ShowsGap (s : Setting) (us : List Token) : Prop where
  stops : Stops .lowest us
  unended (fault : Fault) : endStatement s fault us = .failed (s.error fault us) us []

theorem showsGap_nil (hs : s.interactive = false) : ShowsGap s [] where
  stops := fun t ht => by cases ht
  unended fault := by
    rw [endStatement, hs]
    rfl

theorem showsGap_cons (us : List Token) (hs : t.kind ≠ .semicolon) (hj : t.kind.joining? = none) :
    ShowsGap s (t :: us) where
  stops := .of_not_joining _ us hj
  unended fault := by
    rw [endStatement, if_neg (by simp), expect, if_neg hs]
    rfl

namespace Unended

variable {st : Stmt} {fault : Fault}

private theorem declaration_eq (h : Unended ts st fault) (hus : ShowsGap s us) :
    declaration s (ts ++ us) = .failed (s.error fault us) us [] := by
  have hread {ts : List Token} {e : Expr} (he : Derives .assignment ts e) :
      expression s .lowest (ts ++ us) = .done e us [] :=
    (expression_eq_done_iff s (by decide)).2 ⟨hus.stops, he⟩
  cases h with
  | print hk he =>
    rw [List.cons_append, declaration_eq_statement s _ (by rw [hk]; rfl), statement_cons, hk]
    dsimp only
    rw [printStatement, hread he, Reply.done_bind, hus.unended]
    rfl
  | @var kw x equal ts e hk hx hq he =>
    have hnext : nextIs .equal (equal :: (ts ++ us)) = true := by
      rw [nextIs_cons, hq]
      rfl
    rw [List.cons_append, declaration, hk]
    dsimp only
    rw [variableDeclaration, List.cons_append, expect_cons s _ _ hx, Reply.done_bind,
      List.cons_append, if_pos hnext, List.tail_cons, hread he, Reply.done_map, Reply.done_bind,
      hus.unended]
    rfl

/-- What follows shows the fault, and its first token goes with the statement. -/
theorem item_eq (h : Unended ts st fault) (hus : ShowsGap s us) :
    item s (ts ++ us) = ⟨.broken, resume us, [s.error fault us]⟩ := by
  rw [item, h.declaration_eq hus]
  rfl

end Unended

end Grammar

end Scriptlet
