import Scriptlet.Proofs.Grammar.CommaList
import Scriptlet.Proofs.Grammar.LayerBounds

namespace Scriptlet.Grammar

theorem grow_of_stops (s : Setting) {m : Precedence} (e : Expr) {ts : List Token}
    (h : Stops m ts) : grow s m e ts = .done e ts [] := by
  cases ts with
  | nil => exact grow_nil s m e
  | cons t ts =>
    rw [grow_cons]
    split
    · rfl
    · next p j hj =>
      have hp : ¬ m < p := Nat.not_lt.2 (h.head hj)
      rw [if_neg hp]

theorem grow_of_lt (s : Setting) {m p : Precedence} {j : Joining} (e : Expr) {t : Token}
    (ts : List Token) (hj : t.kind.joining? = some (p, j)) (hp : m < p) :
    grow s m e (t :: ts) = (join s p j e t ts).bind (grow s m) := by
  rw [grow_cons, hj]
  exact if_pos hp

private theorem expression_of_operand {s : Setting} (m : Precedence) {ts us : List Token} {e : Expr}
    (h : operand s ts = .done e us []) : expression s m ts = grow s m e us := by
  rw [expression_eq, h, Reply.done_bind]

theorem operand_name (s : Setting) {x : Token} (ts : List Token) (hx : x.kind = .identifier) :
    operand s (x :: ts) = .done (.name x) ts [] := by
  rw [operand_cons, hx]
  rfl

theorem operand_literal (s : Setting) {t : Token} {value : Literal} (ts : List Token)
    (ht : t.kind.opening? = some .literal) (hv : t.literalValue? = some value) :
    operand s (t :: ts) = .done (.literal value) ts [] := by
  rw [operand_cons, ht]
  simp only [hv]

theorem operand_operator (s : Setting) {op : Token} (ts : List Token)
    (hop : op.kind.opening? = some .operator) :
    operand s (op :: ts) = (expression s .unary ts).bind (unary op) := by
  rw [operand_cons, hop]

theorem operand_group (s : Setting) {opened : Token} (ts : List Token)
    (ho : opened.kind = .leftParen) :
    operand s (opened :: ts) =
      (expression s .lowest ts).bind fun inner rest =>
        (expect s .rightParen .groupNotClosed rest).map fun _ => .group inner := by
  rw [operand_cons, ho]
  rfl

/-- Reading the tokens below a bound that lets their layer through is the same as growing their tree:
the reader is done with them and looks at what follows. -/
def Grows (s : Setting) (l : Layer) (ts : List Token) (e : Expr) : Prop :=
  ∀ (m : Precedence) (us : List Token), m < l.opening → Stops l.closing us →
    expression s m (ts ++ us) = grow s m e us

namespace Grows

variable {s : Setting} {l : Layer}

theorem tighter {ts : List Token} {e : Expr} (h : Grows s l.tighter ts e) : Grows s l ts e := by
  intro m us hm hstop
  exact h m us (Nat.lt_of_lt_of_le hm l.opening_tighter) (hstop.mono l.closing_tighter)

private theorem of_operand {ts : List Token} {e : Expr}
    (h : ∀ us, operand s (ts ++ us) = .done e us []) :
    Grows s l ts e :=
  fun m us _ _ => expression_of_operand m (h us)

/-- An expression is read to its end where it cannot go on. -/
theorem done {ts us : List Token} {e : Expr} {m : Precedence} (h : Grows s l ts e)
    (hm : m < l.opening) (hc : m.level ≤ l.closing.level) (hstop : Stops m us) :
    expression s m (ts ++ us) = .done e us [] := by
  rw [h m us hm (hstop.mono hc), grow_of_stops s e hstop]

/-- The left operand is read first; the right one is bounded by the operator between them. -/
theorem joined {op : Token} {ts vs us : List Token} {lhs rhs : Expr} {j : Joining}
    {m : Precedence} (hj : op.kind.joining? = some (l.opening, j)) (hl : l.Joins)
    (ihl : Grows s l ts lhs) (ihr : Grows s l.tighter vs rhs) (hm : m < l.opening)
    (hstop : Stops l.closing us) :
    expression s m ((ts ++ op :: vs) ++ us) =
        (join s l.opening j lhs op (vs ++ us)).bind (grow s m) ∧
      expression s l.opening (vs ++ us) = .done rhs us [] := by
  obtain ⟨hc, ht, -, -⟩ := hl
  constructor
  · have hleft : Stops l.closing (op :: (vs ++ us)) :=
      .of_joining? _ hj (hc ▸ Nat.le_refl _)
    rw [List.append_assoc, List.cons_append, ihl m _ hm hleft, grow_of_lt s _ _ hj hm]
  · have hle := hc ▸ l.closing_tighter
    exact ihr.done ht hle (hc ▸ hstop)

theorem assign {x op : Token} {ts : List Token} {value : Expr} (hx : x.kind = .identifier)
    (hop : op.kind = .equal) (ih : Grows s .assignment ts value) :
    Grows s .assignment (x :: op :: ts) (.assign x value) := by
  intro m us hm hstop
  have hj : op.kind.joining? = some (.assignment, .assign) := by rw [hop]; rfl
  have hvalue : expression s .lowest (ts ++ us) = .done value us [] :=
    ih.done (by decide) (by decide) hstop
  rw [List.cons_append, List.cons_append, expression_of_operand m (operand_name s _ hx),
    grow_of_lt s _ _ hj hm, join_eq]
  simp only [hvalue, Reply.done_bind, Grammar.assign]

theorem unary {op : Token} {ts : List Token} {operand : Expr}
    (hop : op.kind ∈ [.minus, .bang, .tilde]) (ih : Grows s .unary ts operand) :
    Grows s .unary (op :: ts) (.unary op operand) := by
  intro m us hm hstop
  have hkind : op.kind.opening? = some .operator ∧ op.kind.isStep = false := by
    simp only [List.mem_cons, List.not_mem_nil, or_false] at hop
    rcases hop with h | h | h <;> rw [h] <;> exact ⟨rfl, rfl⟩
  have hinner : expression s .unary (ts ++ us) = .done operand us [] :=
    ih.done (by decide) (by decide) hstop
  apply expression_of_operand
  rw [List.cons_append, operand_operator s _ hkind.1, hinner, Reply.done_bind, Grammar.unary,
    hkind.2]
  rfl

theorem stepBefore {op x : Token} (hop : op.kind ∈ [.plusPlus, .minusMinus])
    (hx : x.kind = .identifier) : Grows s .unary [op, x] (.unary op (.name x)) := by
  intro m us hm hstop
  have hkind : op.kind.opening? = some .operator := by
    simp only [List.mem_cons, List.not_mem_nil, or_false] at hop
    rcases hop with h | h <;> rw [h] <;> rfl
  have hname : expression s .unary (x :: us) = .done (.name x) us [] := by
    rw [expression_of_operand .unary (operand_name s us hx)]
    exact grow_of_stops s _ hstop
  apply expression_of_operand
  change operand s (op :: x :: us) = _
  rw [operand_operator s _ hkind, hname, Reply.done_bind, Grammar.unary]
  simp [Expr.isName]

theorem stepAfter {x op : Token} (hx : x.kind = .identifier)
    (hop : op.kind ∈ [.plusPlus, .minusMinus]) : Grows s .suffixed [x, op] (.step op x) := by
  intro m us hm _
  have hj : op.kind.joining? = some (.step, .step) := by
    simp only [List.mem_cons, List.not_mem_nil, or_false] at hop
    rcases hop with h | h <;> rw [h] <;> rfl
  change expression s m (x :: op :: us) = _
  rw [expression_of_operand m (operand_name s _ hx), grow_of_lt s _ _ hj hm, join_eq]
  exact Reply.done_bind ..

theorem group {opened closed : Token} {ts : List Token} {inner : Expr}
    (ho : opened.kind = .leftParen) (hc : closed.kind = .rightParen)
    (ih : Grows s .assignment ts inner) :
    Grows s l (opened :: (ts ++ [closed])) (.group inner) := by
  apply of_operand
  intro us
  have hstop : Stops .lowest (closed :: us) := .of_not_joining _ _ (by rw [hc]; rfl)
  have hinner : expression s .lowest (ts ++ closed :: us) = .done inner (closed :: us) [] :=
    ih.done (by decide) (by decide) hstop
  rw [List.cons_append, List.append_assoc, operand_group s _ ho, List.singleton_append, hinner,
    Reply.done_bind, expect_cons s _ us hc, Reply.done_map]

end Grows

/-- The first token of an expression is none that cannot open one. -/
theorem not_nextIs_of_derives {l : Layer} {ts us : List Token} {e : Expr} {k : TokenKind}
    (h : Derives l ts e) (hk : k.opening? = none) : nextIs k (ts ++ us) = false := by
  obtain ⟨t, ts, rfl, ht⟩ := h.exists_opening
  rw [List.cons_append, nextIs, beq_eq_false_iff_ne]
  rintro rfl
  rw [hk] at ht
  cases ht

theorem Grows.call {s : Setting} {opened paren : Token} {ts us : List Token} {callee : Expr}
    {args : List (List Token × Expr)} (ho : opened.kind = .leftParen)
    (hl : Listed (args.map Prod.fst) us) (hargs : ∀ a ∈ args, Derives .assignment a.1 a.2)
    (hcount : args.length ≤ 255) (hp : paren.kind = .rightParen)
    (ih : Grows s .suffixed ts callee) (ihargs : ∀ a ∈ args, Grows s .assignment a.1 a.2) :
    Grows s .suffixed (ts ++ opened :: (us ++ [paren]))
      (.call callee paren (args.map Prod.snd)) := by
  intro m rest hm _
  have hj : opened.kind.joining? = some (.call, .call) := by rw [ho]; rfl
  have hlt : m < .call := Nat.lt_trans hm (by decide)
  have hlist : (if nextIs .rightParen (us ++ paren :: rest) then .done [] (us ++ paren :: rest) []
      else Grammar.arguments s 0 (us ++ paren :: rest)) =
      Reply.done (args.map Prod.snd) (paren :: rest) [] := by
    have hone : ∀ a ∈ args, ∀ t more, t.kind = .comma ∨ t.kind = .rightParen →
        expression s .lowest (a.1 ++ t :: more) = .done a.2 (t :: more) [] := by
      intro a ha t more ht
      have hstop : Stops .lowest (t :: more) := by
        apply Stops.of_not_joining
        rcases ht with ht | ht <;> rw [ht] <;> rfl
      exact (ihargs a ha).done (by decide) (by decide) hstop
    have hopen : ∀ a ∈ args, ∀ more, nextIs .rightParen (a.1 ++ more) = false := by
      intro a ha more
      exact not_nextIs_of_derives (hargs a ha) rfl
    exact (readsCommaList_arguments s).parenthesized rest hl hone hopen hcount hp
  have happend : ts ++ opened :: (us ++ [paren]) ++ rest =
      ts ++ opened :: (us ++ paren :: rest) := by simp
  rw [happend, ih m _ hm (.call _), grow_of_lt s _ _ hj hlt, join_eq]
  simp only [hlist, Reply.done_bind, expect_cons s _ rest hp, Reply.done_map]

theorem Derives.grows (s : Setting) {l : Layer} {ts : List Token} {e : Expr} (h : Derives l ts e) :
    Grows s l ts e := by
  induction h with
  | assign hx hop _ ih => exact ih.assign hx hop
  | @logical l op ts vs lhs rhs hop _ _ ihl ihr =>
    intro m us hm hstop
    have hj := Layer.joining?_of_mem_logicalOperators hop
    obtain ⟨hread, hrhs⟩ := ihl.joined hj (Layer.joins_of_mem_logicalOperators hop) ihr hm hstop
    rw [hread, join_eq]
    simp only [hrhs, Reply.done_map, Reply.done_bind]
  | @binary l op ts vs lhs rhs hop _ _ ihl ihr =>
    intro m us hm hstop
    have hj := Layer.joining?_of_mem_binaryOperators hop
    obtain ⟨hread, hrhs⟩ := ihl.joined hj (Layer.joins_of_mem_binaryOperators hop) ihr hm hstop
    rw [hread, join_eq]
    simp only [hrhs, Reply.done_map, Reply.done_bind]
  | unary hop _ ih => exact ih.unary hop
  | stepBefore hop hx => exact .stepBefore hop hx
  | stepAfter hx hop => exact .stepAfter hx hop
  | call _ ho hl hargs hcount hp ih ihargs => exact .call ho hl hargs hcount hp ih ihargs
  | name hx => exact .of_operand fun us => operand_name s us hx
  | literal hk hv =>
    apply Grows.of_operand
    intro us
    simp only [List.mem_cons, List.not_mem_nil, or_false] at hk
    rcases hk with hk | hk <;>
      exact operand_literal s us (by rw [hk]; rfl) (by rw [Token.literalValue?, hk, hv])
  | yes hk | no hk | nil hk =>
    apply Grows.of_operand
    intro us
    exact operand_literal s us (by rw [hk]; rfl) (by rw [Token.literalValue?, hk])
  | group ho _ hc ih => exact ih.group ho hc
  | tighter _ ih => exact ih.tighter

end Scriptlet.Grammar
