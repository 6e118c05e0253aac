import Scriptlet.Grammar.Program
import Scriptlet.Proofs.Grammar.ExpressionComplete

namespace Scriptlet.Grammar

/-- Expressions of fewer than `n` tokens are read as the grammar derives them. -/
def SoundBelow (s : Setting) (n : Nat) : Prop :=
  ∀ ts : List Token, ts.length < n → ∀ (m : Precedence) (e : Expr) (us : List Token),
    m.level ≤ Precedence.unary.level → expression s m ts = .done e us [] →
    Stops m us ∧ ∃ pre, ts = pre ++ us ∧ Derives (.above m) pre e

theorem SoundBelow.mono {s : Setting} {m n : Nat} (h : SoundBelow s n) (hmn : m ≤ n) :
    SoundBelow s m :=
  fun ts hts => h ts (Nat.lt_of_lt_of_le hts hmn)

private theorem derives_literal {t : Token} {value : Literal} (ht : t.kind.opening? = some .literal)
    (hv : t.literalValue? = some value) : Derives .suffixed [t] (.literal value) := by
  cases hk : t.kind <;> rw [hk] at ht <;> cases ht <;> simp only [Token.literalValue?, hk] at hv
  case string => exact .literal (by rw [hk]; decide) hv
  case number => exact .literal (by rw [hk]; decide) hv
  case kwTrue => cases hv; exact .yes hk
  case kwFalse => cases hv; exact .no hk
  case kwNil => cases hv; exact .nil hk

private theorem kind_of_opening_operator {k : TokenKind} (h : k.opening? = some .operator) :
    k.isStep = false ∧ k ∈ [.minus, .bang, .tilde] ∨
      k.isStep = true ∧ k ∈ [.plusPlus, .minusMinus] := by
  cases k <;> cases h <;> decide

/-- A unary operator was given an operand that it takes. -/
theorem derives_unary {op : Token} {ts us vs : List Token} {operand e : Expr}
    (hop : op.kind.opening? = some .operator) (hd : Derives .unary ts operand)
    (h : unary op operand us = .done e vs []) : us = vs ∧ Derives .unary (op :: ts) e := by
  rw [unary] at h
  rcases kind_of_opening_operator hop with ⟨hs, hk⟩ | ⟨hs, hk⟩
  · rw [hs] at h
    cases h
    exact ⟨rfl, .unary hk hd⟩
  · rw [hs] at h
    cases operand with
    | name x =>
      obtain ⟨rfl, hx⟩ := hd.eq_of_name
      cases h
      exact ⟨rfl, .stepBefore hk hx⟩
    | _ => cases h

private theorem operand_sound {s : Setting} {ts us : List Token} {e : Expr}
    (ih : SoundBelow s ts.length) (h : operand s ts = .done e us []) :
    ∃ l pre, ts = pre ++ us ∧ Derives l pre e ∧ Stops l.closing us ∧
      Layer.unary.rank ≤ l.rank := by
  cases ts with
  | nil =>
    rw [operand_nil] at h
    cases h
  | cons t ts =>
    have hlen : ts.length < (t :: ts).length := Nat.lt_succ_self _
    cases ho : t.kind.opening? with
    | none =>
      rw [operand_cons, ho] at h
      cases h
    | some opening =>
      cases opening with
      | literal =>
        cases hv : t.literalValue? with
        | none =>
          rw [operand_cons, ho] at h
          simp only [hv] at h
          cases h
        | some value =>
          rw [operand_literal s ts ho hv] at h
          cases h
          exact ⟨.suffixed, [t], rfl, derives_literal ho hv, .call _, by decide⟩
      | name =>
        have hk : t.kind = .identifier := by
          cases hk : t.kind <;> rw [hk] at ho <;> cases ho
        rw [operand_name s ts hk] at h
        cases h
        exact ⟨.suffixed, [t], rfl, .name hk, .call _, by decide⟩
      | group =>
        have hk : t.kind = .leftParen := by
          cases hk : t.kind <;> rw [hk] at ho <;> cases ho
        rw [operand_group s ts hk, Reply.bind_eq_done_iff] at h
        obtain ⟨inner, rest, hread, hclose⟩ := h
        obtain ⟨closed, hexpect, rfl⟩ := Reply.map_eq_done_iff.1 hclose
        obtain ⟨rfl, hc⟩ := expect_eq_done_iff.1 hexpect
        obtain ⟨-, pre, rfl, hd⟩ := ih ts hlen _ _ _ (by decide) hread
        refine ⟨.suffixed, t :: (pre ++ [closed]), by simp, .group hk hd hc, .call _, by decide⟩
      | operator =>
        rw [operand_operator s ts ho, Reply.bind_eq_done_iff] at h
        obtain ⟨inner, rest, hread, hunary⟩ := h
        obtain ⟨hstop, pre, rfl, hd⟩ := ih ts hlen _ _ _ (by decide) hread
        obtain ⟨rfl, hd⟩ := derives_unary ho hd hunary
        exact ⟨.unary, t :: pre, rfl, hd, hstop, Nat.le_refl _⟩

/-- The list of arguments between the parentheses of a call. -/
theorem derives_call {s : Setting} {n : Nat} (ih : SoundBelow s n) {opened : Token}
    {pre ts us : List Token} {callee e : Expr} (hn : ts.length < n)
    (hlhs : Derives .suffixed pre callee) (ho : opened.kind = .leftParen)
    (h : ((if nextIs .rightParen ts then .done [] ts [] else arguments s 0 ts).bind
      fun args rest => (expect s .rightParen .argumentsNotClosed rest).map fun paren =>
        Expr.call callee paren args) = .done e us []) :
    ∃ mid, ts = mid ++ us ∧ Derives .suffixed (pre ++ opened :: mid) e := by
  obtain ⟨es, rest, hlist, hclose⟩ := Reply.bind_eq_done_iff.1 h
  obtain ⟨paren, hexpect, rfl⟩ := Reply.map_eq_done_iff.1 hclose
  obtain ⟨rfl, hp⟩ := expect_eq_done_iff.1 hexpect
  obtain ⟨args, mid, rfl, rfl, hl, hargs, hmany⟩ :=
    (readsCommaList_arguments s).parenthesized_sound
      (fun ts e rest hts hread => (ih ts hts _ e rest (by decide) hread).2) hn hlist
  exact ⟨mid ++ [paren], by simp, .call hlhs ho hl hargs hmany hp⟩

/-- One round of the loop. The tree that it ends with belongs to a layer above the bound, and what
follows does not reach into it. -/
theorem join_sound {s : Setting} {n : Nat} (ih : SoundBelow s n) {op : Token}
    {pre ts us : List Token} {m p : Precedence} {j : Joining} {l : Layer} {lhs e : Expr}
    (hn : ts.length < n) (hlhs : Derives l pre lhs) (hstop : Stops l.closing (op :: ts))
    (hj : op.kind.joining? = some (p, j)) (hm : m < p)
    (h : join s p j lhs op ts = .done e us []) :
    ∃ k mid, ts = mid ++ us ∧ Derives k (pre ++ op :: mid) e ∧ Stops k.closing us ∧
      (Layer.above m).rank ≤ k.rank := by
  have hp := hstop.head hj
  have htable := Layer.joined_of_joining? hj
  rw [join_eq] at h
  cases j with
  | logical =>
    obtain ⟨hk, ho⟩ := htable
    generalize Layer.joinedBy p = k at hk ho
    subst ho
    have hjoins := Layer.joins_of_mem_logicalOperators hk
    have hleft := hlhs.loosen (Layer.rank_le_of_opening_le hjoins hp)
    obtain ⟨rhs, hread, rfl⟩ := Reply.map_eq_done_iff.1 h
    obtain ⟨hc, -, ht, hf⟩ := id hjoins
    obtain ⟨hrest, mid, rfl, hright⟩ := ih ts hn _ _ _ (Nat.le_trans hf (by decide)) hread
    rw [ht] at hright
    exact ⟨k, mid, rfl, .logical hk hleft hright, hc ▸ hrest, Layer.rank_above_le hjoins hm⟩
  | binary =>
    obtain ⟨hk, ho⟩ := htable
    generalize Layer.joinedBy p = k at hk ho
    subst ho
    have hjoins := Layer.joins_of_mem_binaryOperators hk
    have hleft := hlhs.loosen (Layer.rank_le_of_opening_le hjoins hp)
    obtain ⟨rhs, hread, rfl⟩ := Reply.map_eq_done_iff.1 h
    obtain ⟨hc, -, ht, hf⟩ := id hjoins
    obtain ⟨hrest, mid, rfl, hright⟩ := ih ts hn _ _ _ (Nat.le_trans hf (by decide)) hread
    rw [ht] at hright
    exact ⟨k, mid, rfl, .binary hk hleft hright, hc ▸ hrest, Layer.rank_above_le hjoins hm⟩
  | assign =>
    obtain ⟨hk, rfl⟩ := htable
    obtain ⟨value, rest, hread, htarget⟩ := Reply.bind_eq_done_iff.1 h
    obtain ⟨hrest, mid, rfl, hvalue⟩ := ih ts hn _ _ _ (by decide) hread
    cases lhs with
    | name x =>
      obtain ⟨rfl, hx⟩ := hlhs.eq_of_name
      cases htarget
      exact ⟨.assignment, mid, rfl, .assign hx hk hvalue, hrest,
        Layer.rank_above_le_assignment hm⟩
    | _ => cases htarget
  | step =>
    obtain ⟨hk, rfl⟩ := htable
    cases lhs with
    | name x =>
      obtain ⟨rfl, hx⟩ := hlhs.eq_of_name
      cases h
      exact ⟨.suffixed, [], rfl, .stepAfter hx hk, .call _, Layer.rank_le _⟩
    | _ => cases h
  | call =>
    obtain ⟨hk, rfl⟩ := htable
    have hl : l = .suffixed := Layer.eq_suffixed_of_call hp
    subst hl
    obtain ⟨mid, rfl, hd⟩ := derives_call ih hn hlhs hk h
    exact ⟨.suffixed, mid, rfl, hd, .call _, Layer.rank_le _⟩

private theorem grow_sound {s : Setting} {n : Nat} (ih : SoundBelow s n) {pre ts us : List Token}
    {m : Precedence} {l : Layer} {lhs e : Expr} (hn : ts.length ≤ n) (hlhs : Derives l pre lhs)
    (hstop : Stops l.closing ts) (hm : (Layer.above m).rank ≤ l.rank)
    (h : grow s m lhs ts = .done e us []) :
    Stops m us ∧ ∃ mid, ts = mid ++ us ∧ Derives (.above m) (pre ++ mid) e := by
  -- The tree so far belongs to a layer that the next operator does not reach into.
  induction hk : ts.length using Nat.strongRecOn generalizing pre ts l lhs with
  | ind k ihk =>
    subst hk
    have stopped (hs : Stops m ts) :
        Stops m us ∧ ∃ mid, ts = mid ++ us ∧ Derives (.above m) (pre ++ mid) e := by
      rw [grow_of_stops s lhs hs] at h
      cases h
      refine ⟨hs, [], rfl, ?_⟩
      rw [List.append_nil]
      exact hlhs.loosen hm
    cases ts with
    | nil => exact stopped fun t ht => by cases ht
    | cons op ts =>
      cases hj : op.kind.joining? with
      | none => exact stopped (.of_not_joining m ts hj)
      | some joining =>
        obtain ⟨p, j⟩ := joining
        by_cases hp : m < p
        · rw [grow_of_lt s lhs ts hj hp, Reply.bind_eq_done_iff] at h
          obtain ⟨next, rest, hjoin, hgrow⟩ := h
          obtain ⟨k, mid, rfl, hnext, hrest, hk⟩ := join_sound ih hn hlhs hstop hj hp hjoin
          have hlen : (op :: (mid ++ rest)).length = mid.length + rest.length + 1 := by simp
          obtain ⟨hs, more, rfl, hd⟩ :=
            ihk rest.length (by omega) (by omega) hnext hrest hk hgrow rfl
          refine ⟨hs, op :: (mid ++ more), by simp, ?_⟩
          simpa using hd
        · exact stopped (.of_joining? ts hj (Nat.not_lt.1 hp))

private theorem soundBelow (s : Setting) (n : Nat) : SoundBelow s n := by
  induction n with
  | zero => exact fun ts hts => absurd hts (Nat.not_lt_zero _)
  | succ n ih =>
    intro ts hts m e us hm h
    rw [expression_eq, Reply.bind_eq_done_iff] at h
    obtain ⟨lhs, rest, hoperand, hgrow⟩ := h
    have ih' := ih.mono (Nat.le_of_lt_succ hts)
    obtain ⟨l, pre, rfl, hlhs, hstop, hl⟩ := operand_sound ih' hoperand
    have habove : (Layer.above m).rank ≤ l.rank := Nat.le_trans (Layer.rank_above_le_unary hm) hl
    have hlen : rest.length ≤ (pre ++ rest).length := by simp
    obtain ⟨hs, mid, rfl, hd⟩ := grow_sound ih' hlen hlhs hstop habove hgrow
    exact ⟨hs, pre ++ mid, by simp, hd⟩

/-- Reading below a bound up to a given rest, and the grammar. -/
theorem expression_eq_done_iff (s : Setting) {m : Precedence}
    (hm : m.level ≤ Precedence.unary.level) {ts us : List Token} {e : Expr} :
    expression s m (ts ++ us) = .done e us [] ↔ Stops m us ∧ Derives (.above m) ts e := by
  constructor
  · intro h
    obtain ⟨hs, pre, hpre, hd⟩ := soundBelow s _ _ (Nat.lt_succ_self _) m e us hm h
    rw [List.append_cancel_right hpre]
    exact ⟨hs, hd⟩
  · rintro ⟨hs, hd⟩
    obtain ⟨ho, hc⟩ := Layer.bounds_above hm
    exact (hd.grows s).done ho hc hs

theorem expression_eq_done (s : Setting) {ts us : List Token} {e : Expr}
    (h : expression s .lowest ts = .done e us []) :
    ∃ pre, ts = pre ++ us ∧ Derives .assignment pre e :=
  (soundBelow s _ ts (Nat.lt_succ_self _) _ e us (by decide) h).2

/-- The grammar is unambiguous. -/
theorem Derives.unique {m : Precedence} (hm : m.level ≤ Precedence.unary.level) {ts : List Token}
    {e e' : Expr} (h : Derives (.above m) ts e) (h' : Derives (.above m) ts e') : e = e' := by
  have hs : Stops m [] := fun t ht => by cases ht
  have hread := (expression_eq_done_iff ⟨1, false⟩ hm).2 ⟨hs, h⟩
  have hread' := (expression_eq_done_iff ⟨1, false⟩ hm).2 ⟨hs, h'⟩
  rw [hread] at hread'
  cases hread'
  rfl

theorem input_append {ts : List Token} (us : List Token) (h : ∀ t ∈ ts, t.kind ≠ .eof) :
    input (ts ++ us) = ts ++ input us := by
  have hall : ∀ t ∈ ts, (t.kind != .eof) = true := fun t ht => bne_iff_ne.2 (h t ht)
  exact List.takeWhile_append_of_pos hall

/-- The end of the input continues no expression, and neither does the token that marks it. -/
theorem stops_input_cons_iff (m : Precedence) (t : Token) (rest : List Token) :
    Stops m (input (t :: rest)) ↔
      ∀ p j, t.kind.joining? = some (p, j) → p.level ≤ m.level := by
  by_cases ht : t.kind = .eof
  · have hend : input (t :: rest) = [] := by simp [input, ht]
    rw [hend, ht]
    constructor
    · intro _ p j hj
      cases hj
    · intro _ u hu
      cases hu
  · have hgo : input (t :: rest) = t :: input rest := by simp [input, ht]
    rw [hgo]
    constructor
    · intro h p j hj
      exact h.head hj
    · intro h u hu p j hj
      cases hu
      exact h p j hj

/-- Tokens are read up to `rest` below a bound if and only if the layer above it derives the
expression from them and `rest` cannot go on below the bound. -/
theorem expression_accepts_layer (s : Setting) (m : Precedence)
    (hm : m.level ≤ Precedence.unary.level) (ts : List Token) (hts : ∀ u ∈ ts, u.kind ≠ .eof)
    (t : Token) (rest : List Token) (e : Expr) :
    (expression s m (input (ts ++ t :: rest)) = .done e (input (t :: rest)) [] ↔
      (∀ p j, t.kind.joining? = some (p, j) → p.level ≤ m.level) ∧ Derives (.above m) ts e) ∧
    (Derives (.above m) ts e → ∀ e', Derives (.above m) ts e' → e' = e) := by
  constructor
  · rw [input_append _ hts, expression_eq_done_iff s hm, stops_input_cons_iff]
  · intro h e' h'
    exact h'.unique hm h

/-- Equal operators group to the left, and the assigned value takes in both. -/
theorem expression_accepts_difference :
    let x := Token.named "x" 1
    let y := Token.named "y" 1
    let equal : Token := ⟨.equal, "=", none, 1⟩
    let minus : Token := ⟨.minus, "-", none, 1⟩
    let semicolon : Token := ⟨.semicolon, ";", none, 1⟩
    Precedence.lowest.level ≤ Precedence.unary.level ∧
    (∀ u ∈ [x, equal, y, minus, x, minus, y], u.kind ≠ .eof) ∧
    expression ⟨1, false⟩ .lowest (input ([x, equal, y, minus, x, minus, y] ++ [semicolon])) =
      .done (.assign x (.binary minus (.binary minus (.name y) (.name x)) (.name y)))
        (input [semicolon]) [] := by
  intro x y equal minus semicolon
  have hy {l : Layer} : Derives l [y] (.name y) := (Derives.name rfl).loosen (l.rank_le)
  have hx {l : Layer} : Derives l [x] (.name x) := (Derives.name rfl).loosen (l.rank_le)
  have hm : minus.kind ∈ Layer.term.binaryOperators := by decide
  have hdiff : Derives .term ([y] ++ minus :: [x] ++ minus :: [y]) _ :=
    .binary hm (.binary hm hy hx) hy
  have hkinds : ∀ u ∈ [x, equal, y, minus, x, minus, y], u.kind ≠ .eof := by decide
  refine ⟨by decide, hkinds, ?_⟩
  apply (expression_accepts_layer _ _ (by decide) _ hkinds _ _ _).1.2
  refine ⟨?_, .assign rfl rfl (hdiff.loosen (by decide))⟩
  intro p j hj
  cases hj

end Scriptlet.Grammar
