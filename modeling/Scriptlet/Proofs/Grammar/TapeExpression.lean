import Scriptlet.Proofs.Grammar.Reading

namespace Scriptlet

open Grammar

variable {α β : Type}

/-- The walk ends as the reply does, at the index behind which the tokens are that the reply leaves. -/
inductive Walk.Follows (input : List Token) : Walk α → Reply α → Prop where
  | done {a : α} {i : Nat} {rest : List Token} {notes : List ParseError} (hi : i ≤ input.length)
    (hrest : input.drop i = rest) : Follows input (.done a i notes) (.done a rest notes)
  | failed {e : ParseError} {i : Nat} {rest : List Token} {notes : List ParseError}
    (hi : i ≤ input.length) (hrest : input.drop i = rest) :
    Follows input (.failed e i notes) (.failed e rest notes)

namespace Walk

theorem addNotes_nil (w : Walk α) : w.addNotes [] = w := by
  cases w <;> rfl

theorem Follows.addNotes {input : List Token} {w : Walk α} {r : Reply α} (h : w.Follows input r)
    (notes : List ParseError) : (w.addNotes notes).Follows input (r.addNotes notes) := by
  cases h with
  | done hi hrest => exact .done hi hrest
  | failed hi hrest => exact .failed hi hrest

end Walk

namespace Walker

open Walk

variable {input : List Token} {i n : Nat}

private theorem bind_of_noted {x : Walker α} {a : α} {j : Nat} {notes : List ParseError}
    (h : x i = .done a j notes) (f : α → Walker β) : (x >>= f) i = (f a j).addNotes notes := by
  show Walker.bind x f i = (f a j).addNotes notes
  rw [Walker.bind, h]

theorem bind_of_done {x : Walker α} {a : α} {j : Nat} (h : x i = .done a j []) (f : α → Walker β) :
    (x >>= f) i = f a j :=
  (bind_of_noted h f).trans (addNotes_nil _)

theorem bind_look {x : Walker α} {a : α} {j : Nat} (h : x i = .done a j []) (f : α → Walker β) :
    (Reading.look x >>= f) i = f a j :=
  bind_of_done h f

private theorem reading_look (x : Walker α) : Reading.look x = x := rfl

private theorem reading_fail (t : Token) (fault : Fault) :
    (Reading.fail t fault : Walker α) = fail (.at t fault) := rfl

private theorem reading_complain (t : Token) (fault : Fault) :
    (Reading.complain t fault : Walker Unit) = note (.at t fault) := rfl

/-- The second walker goes on where fewer than `n` tokens are left. -/
theorem follows_bind {x : Walker α} {f : α → Walker β} {r : Reply α} {g : α → List Token → Reply β}
    (hx : (x i).Follows input r) (hn : r.Within n)
    (hf : ∀ a j, j ≤ input.length → input.length - j < n → (f a j).Follows input (g a (input.drop j))) :
    ((x >>= f) i).Follows input (r.bind g) := by
  show (Walker.bind x f i).Follows input (r.bind g)
  rw [Walker.bind]
  generalize x i = w at hx
  cases hx with
  | done hj hrest =>
    subst hrest
    rw [Reply.Within, List.length_drop] at hn
    exact (hf _ _ hj hn).addNotes _
  | failed hj hrest => exact .failed hj hrest

theorem follows_map {x : Walker α} {r : Reply α} (hx : (x i).Follows input r) (g : α → β) :
    ((do let a ← x; return g a) i).Follows input (r.map g) := by
  show (Walker.bind x _ i).Follows input (r.map g)
  rw [Walker.bind]
  generalize x i = w at hx
  cases hx with
  | done hj hrest => exact (Follows.done hj hrest).addNotes _
  | failed hj hrest => exact .failed hj hrest

theorem follows_of_eq {x y : Walker α} {r : Reply α} (h : x = y) (hy : (y i).Follows input r) :
    (x i).Follows input r :=
  h ▸ hy

end Walker

namespace Tape

open Walk Walker

/-- The tape holds the input, and behind it an `eof` on the line of the end. -/
structure Holds (tape : Tape) (s : Setting) (input : List Token) : Prop where
  interactive : tape.interactive = s.interactive
  proper : ∀ t ∈ input, t.kind ≠ .eof
  closed : ∃ t behind, tape.tokens = input ++ t :: behind ∧ t.kind = .eof ∧ t.line = s.endLine

/-- What there is at an index: one of the tokens of the input, or the end of it. -/
inductive Position (tape : Tape) (s : Setting) (input : List Token) (i : Nat) : Prop where
  | token (t : Token) (hi : i + 1 ≤ input.length) (hdrop : input.drop i = t :: input.drop (i + 1))
    (hpeek : tape.peek i = .done t i []) (hadvance : tape.advance i = .done t (i + 1) [])
    (hprevious : tape.previous (i + 1) = .done t (i + 1) []) (hkind : t.kind ≠ .eof)
    (herror : ∀ fault, .at t fault = s.error fault (input.drop i))
  | ending (t u : Token) (hi : i = input.length) (hdrop : input.drop i = [])
    (hpeek : tape.peek i = .done t i []) (hadvance : tape.advance i = .done u i [])
    (hkind : t.kind = .eof) (herror : ∀ fault, .at t fault = s.error fault (input.drop i))

variable {tape : Tape} {s : Setting} {input : List Token} {i : Nat}

private theorem check_of_peek {t : Token} (h : tape.peek i = .done t i []) (kind : TokenKind) :
    tape.check kind i = .done (t.kind == kind) i [] := by
  rw [check, bind_of_done h]
  rfl

private theorem advance_of_ne_eof {t : Token} (h : tape.peek i = .done t i [])
    (hkind : t.kind ≠ .eof) :
    tape.advance i = tape.previous (i + 1) := by
  have hforward : forward i = .done () (i + 1) [] := rfl
  rw [advance, bind_of_done (check_of_peek h .eof), beq_false_of_ne hkind]
  exact bind_of_done hforward _

private theorem advance_of_eof {t : Token} (h : tape.peek i = .done t i [])
    (hkind : t.kind = .eof) :
    tape.advance i = tape.previous i := by
  rw [advance, bind_of_done (check_of_peek h .eof), hkind]
  rfl

private theorem at_of_ne_eof {t : Token} (h : t.kind ≠ .eof) (fault : Fault) :
    .at t fault = ParseError.atToken t fault := by
  rw [ParseError.at, if_neg h]

theorem Holds.position (h : tape.Holds s input) (hi : i ≤ input.length) :
    Position tape s input i := by
  obtain ⟨e, behind, htokens, hkind, hline⟩ := h.closed
  rcases Nat.lt_or_eq_of_le hi with hlt | rfl
  · have hget : tape.tokens[i]? = some input[i] := by
      rw [htokens, List.getElem?_append_left hlt, List.getElem?_eq_getElem hlt]
    have hpeek : tape.peek i = .done input[i] i [] := by rw [peek, tokenAt, hget]
    have hprevious : tape.previous (i + 1) = .done input[i] (i + 1) [] := by
      rw [previous, Nat.add_sub_cancel, tokenAt, hget]
    have hproper := h.proper _ (List.getElem_mem hlt)
    have hdrop := List.drop_eq_getElem_cons hlt
    refine .token input[i] hlt hdrop hpeek ?_ hprevious hproper ?_
    · rw [advance_of_ne_eof hpeek hproper, hprevious]
    · intro fault
      rw [at_of_ne_eof hproper, hdrop]
      rfl
  · have hget : tape.tokens[input.length]? = some e := by
      rw [htokens, List.getElem?_append_right (Nat.le_refl _), Nat.sub_self]
      rfl
    have hpeek : tape.peek input.length = .done e input.length [] := by rw [peek, tokenAt, hget]
    -- What was taken last is there unless the end is all that there is, and then it is the end.
    have hlt : input.length - 1 < tape.tokens.length := by
      rw [htokens, List.length_append, List.length_cons]
      omega
    have hprevious : tape.previous input.length =
        .done tape.tokens[input.length - 1] input.length [] := by
      rw [previous, tokenAt, List.getElem?_eq_getElem hlt]
    have hadvance := (advance_of_eof hpeek hkind).trans hprevious
    refine .ending e _ rfl List.drop_length hpeek hadvance hkind ?_
    intro fault
    rw [ParseError.at, if_pos hkind, hline, List.drop_length]
    rfl

/-- There is a next token at every index up to the end, and faults are shown by it. -/
theorem Holds.exists_peek (h : tape.Holds s input) (hi : i ≤ input.length) :
    ∃ t, tape.peek i = .done t i [] ∧ ∀ fault, .at t fault = s.error fault (input.drop i) := by
  cases h.position hi with
  | token t _ _ hpeek _ _ _ herror => exact ⟨t, hpeek, herror⟩
  | ending t u _ _ hpeek _ _ herror => exact ⟨t, hpeek, herror⟩

/-- No token is made up, except for a semicolon at an end that stands in for it. -/
theorem Holds.expect (h : tape.Holds s input) {kind : TokenKind} (hkind : kind ≠ .eof)
    (hmade : ¬ (s.interactive = true ∧ kind = .semicolon ∧ input.drop i = [])) (fault : Fault)
    (hi : i ≤ input.length) :
    (tape.expect Walker kind fault i).Follows input (Grammar.expect s kind fault (input.drop i)) := by
  have hnone {t : Token} (hpeek : tape.peek i = .done t i []) (hne : t.kind ≠ kind)
      (hend : t.kind = .eof → input.drop i = []) :
      tape.expect Walker kind fault i = .failed (.at t fault) i [] := by
    have hcondition : ¬ (tape.interactive && kind == .semicolon && t.kind == .eof) = true := by
      intro hcondition
      rw [Bool.and_eq_true, Bool.and_eq_true, beq_iff_eq, beq_iff_eq, h.interactive] at hcondition
      exact hmade ⟨hcondition.1.1, hcondition.1.2, hend hcondition.2⟩
    rw [Tape.expect, bind_look hpeek, if_neg hne, if_neg hcondition]
    rfl
  cases h.position hi with
  | token t hlt hdrop hpeek hadvance _ hproper herror =>
    by_cases hk : t.kind = kind
    · rw [Tape.expect, bind_look hpeek, if_pos hk, reading_look, hadvance, hdrop,
        expect_cons s fault _ hk]
      exact .done hlt rfl
    · rw [hnone hpeek hk (absurd · hproper), herror, hdrop, Grammar.expect, if_neg hk]
      exact .failed hi hdrop
  | ending t u _ hdrop hpeek _ hend herror =>
    have hk : t.kind ≠ kind := by
      rw [hend]
      exact hkind.symm
    rw [hnone hpeek hk fun _ => hdrop, herror, hdrop]
    exact .failed hi hdrop

theorem Holds.endStatement (h : tape.Holds s input) (fault : Fault) (hi : i ≤ input.length) :
    (tape.endStatement Walker fault i).Follows input (Grammar.endStatement s fault (input.drop i)) := by
  by_cases hend : s.interactive = true ∧ input.drop i = []
  · cases h.position hi with
    | token t _ hdrop _ _ _ _ _ => rw [hdrop] at hend; cases hend.2
    | ending t u _ hdrop hpeek _ hkind _ =>
      have hmade : tape.expect Walker .semicolon fault i = .done ⟨.semicolon, ";", none, t.line⟩ i [] := by
        rw [Tape.expect, bind_look hpeek, if_neg (by rw [hkind]; decide),
          if_pos (by rw [h.interactive, hend.1, hkind]; rfl)]
        rfl
      rw [Tape.endStatement, bind_of_done hmade, hdrop, Grammar.endStatement, hend.1]
      exact .done hi hdrop
  · have hmade : ¬ (s.interactive = true ∧ TokenKind.semicolon = .semicolon ∧ input.drop i = []) := by
      simpa using hend
    have hif : ¬ (s.interactive && (input.drop i).isEmpty) = true := by simpa using hend
    rw [Grammar.endStatement, if_neg hif]
    exact follows_map (h.expect (by decide) hmade fault hi) _

theorem Holds.check (h : tape.Holds s input) {kind : TokenKind} (hkind : kind ≠ .eof)
    (hi : i ≤ input.length) : tape.check kind i = .done (nextIs kind (input.drop i)) i [] := by
  cases h.position hi with
  | token t _ hdrop hpeek _ _ _ _ =>
    rw [check_of_peek hpeek, hdrop]
    rfl
  | ending t u _ hdrop hpeek _ hend _ =>
    rw [check_of_peek hpeek, hdrop, hend, beq_false_of_ne hkind.symm]
    rfl

theorem Holds.checkEnd (h : tape.Holds s input) (hi : i ≤ input.length) :
    tape.check .eof i = .done (input.drop i).isEmpty i [] := by
  cases h.position hi with
  | token t _ hdrop hpeek _ _ hproper _ =>
    rw [check_of_peek hpeek, hdrop, beq_false_of_ne hproper]
    rfl
  | ending t u _ hdrop hpeek _ hend _ =>
    rw [check_of_peek hpeek, hdrop, hend]
    rfl

theorem Holds.checkOrEnd (h : tape.Holds s input) {kind : TokenKind} (hkind : kind ≠ .eof)
    (hi : i ≤ input.length) :
    tape.checkOrEnd kind i =
      .done ((input.drop i).isEmpty || nextIs kind (input.drop i)) i [] := by
  rw [Tape.checkOrEnd, bind_of_done (h.check hkind hi), Bool.or_comm]
  cases nextIs kind (input.drop i) with
  | true => rfl
  | false => exact h.checkEnd hi

theorem succ_le_of_nextIs {kind : TokenKind} (h : nextIs kind (input.drop i) = true) :
    i + 1 ≤ input.length := by
  rcases Nat.lt_or_ge i input.length with hlt | hle
  · exact hlt
  · rw [List.drop_eq_nil_of_le hle] at h
    cases h

/-- A token of the kind is taken if it is the next one. -/
theorem Holds.eat (h : tape.Holds s input) {kind : TokenKind} (hkind : kind ≠ .eof)
    (hi : i ≤ input.length) :
    tape.eat kind i = .done (nextIs kind (input.drop i))
      (if nextIs kind (input.drop i) then i + 1 else i) [] := by
  rw [Tape.eat, bind_of_done (h.check hkind hi)]
  cases hnext : nextIs kind (input.drop i) with
  | false => rfl
  | true =>
    cases h.position hi with
    | token t _ hdrop hpeek hadvance _ _ _ =>
      rw [if_pos rfl, bind_of_done hadvance]
      rfl
    | ending t u _ hdrop _ _ _ _ =>
      rw [hdrop] at hnext
      cases hnext

theorem Holds.overLimit (h : tape.Holds s input) (fault : Fault) (count : Nat)
    (hi : i ≤ input.length) :
    tape.overLimit Walker fault count i =
      .done () i (Grammar.overLimit s fault count (input.drop i)) := by
  rw [Tape.overLimit, Grammar.overLimit]
  split
  · obtain ⟨t, hpeek, herror⟩ := h.exists_peek hi
    rw [bind_look hpeek, reading_complain, herror]
    rfl
  · rfl

/-- There are no more rounds than tokens that are left. -/
theorem Holds.commaList (h : tape.Holds s input) {fault : Fault} {one : Walker α}
    {one' : List Token → Reply α} {many : Nat → List Token → Reply (List α)}
    (hmany : ReadsCommaList s fault one' many) (hwithin : ∀ ts, (one' ts).Within ts.length)
    {l n count : Nat}
    (hone : ∀ j, j ≤ input.length → input.length - j ≤ l → (one j).Follows input (one' (input.drop j)))
    (hl : input.length - i ≤ l) (hn : input.length - i < n) (hi : i ≤ input.length) :
    (tape.commaList Walker fault one n count i).Follows input (many count (input.drop i)) := by
  induction n generalizing i count with
  | zero => omega
  | succ n ih =>
    rw [hmany, Tape.commaList, bind_of_noted (h.overLimit fault count hi)]
    apply Follows.addNotes
    apply follows_bind (hone i hi hl) (hwithin _)
    intro a j hj hlt
    rw [List.length_drop] at hlt
    rw [bind_look (h.eat (by decide) hj)]
    cases hnext : nextIs .comma (input.drop j) with
    | false => exact .done hj rfl
    | true =>
      have hj' := succ_le_of_nextIs hnext
      rw [if_pos rfl, if_pos rfl, if_pos rfl, List.tail_drop]
      exact follows_map (ih (by omega) (by omega) hj') _

theorem Holds.parenthesized (h : tape.Holds s input) {fault : Fault} {one : Walker α}
    {one' : List Token → Reply α} {many : Nat → List Token → Reply (List α)}
    (hmany : ReadsCommaList s fault one' many) (hwithin : ∀ ts, (one' ts).Within ts.length) {n : Nat}
    (hone : ∀ j, j ≤ input.length → input.length - j ≤ input.length - i →
      (one j).Follows input (one' (input.drop j)))
    (hn : input.length - i < n) (hi : i ≤ input.length) :
    (tape.parenthesized Walker fault one n i).Follows input
      (if nextIs .rightParen (input.drop i) then .done [] (input.drop i) []
        else many 0 (input.drop i)) := by
  rw [Tape.parenthesized, bind_look (h.check (by decide) hi)]
  split
  · exact .done hi rfl
  · exact h.commaList hmany hwithin hone (Nat.le_refl _) hn hi

private theorem follows_unary {op : Token} (hop : op.kind ≠ .eof) (operand : Expr)
    (hi : i ≤ input.length) :
    (Reading.unary Walker op operand i).Follows input (Grammar.unary op operand (input.drop i)) := by
  rw [Reading.unary, Grammar.unary, reading_fail, at_of_ne_eof hop]
  split
  · exact .failed hi rfl
  · exact .done hi rfl

private theorem follows_assign {op : Token} (hop : op.kind ≠ .eof) (target value : Expr)
    (hi : i ≤ input.length) :
    (Reading.assign Walker op target value i).Follows input
      (Grammar.assign op target value (input.drop i)) := by
  unfold Reading.assign Grammar.assign
  rw [reading_fail, at_of_ne_eof hop]
  cases target with
  | name t => exact .done hi rfl
  | _ => exact .failed hi rfl

private theorem follows_step {op : Token} (hop : op.kind ≠ .eof) (target : Expr)
    (hi : i ≤ input.length) :
    (Reading.step Walker op target i).Follows input (Grammar.step op target (input.drop i)) := by
  unfold Reading.step Grammar.step
  rw [reading_fail, at_of_ne_eof hop]
  cases target with
  | name t => exact .done hi rfl
  | _ => exact .failed hi rfl

/-- What a bound is enough for. Each reader has a margin of its own over the four calls for each token
that is left, so that the ones that it calls before it takes a token have less. -/
structure ExpressionsFollow (tape : Tape) (s : Setting) (input : List Token) (n : Nat) : Prop where
  expression (m : Precedence) {i : Nat} : i ≤ input.length → 4 * (input.length - i) + 1 ≤ n →
    (tape.expression Walker n m i).Follows input (Grammar.expression s m (input.drop i))
  opened {t : Token} {opening : Opening} {i : Nat} : t.kind ≠ .eof → t.kind.opening? = some opening →
    i ≤ input.length → 4 * (input.length - i) + 2 ≤ n →
    (tape.opened Walker n opening t i).Follows input (operand s (t :: input.drop i))
  grow (m : Precedence) (lhs : Expr) {i : Nat} : i ≤ input.length → 4 * (input.length - i) + 1 ≤ n →
    (tape.grow Walker n m lhs i).Follows input (Grammar.grow s m lhs (input.drop i))
  join (p : Precedence) (joining : Joining) (lhs : Expr) {op : Token} {i : Nat} : op.kind ≠ .eof →
    i ≤ input.length → 4 * (input.length - i) + 3 ≤ n →
    (tape.join Walker n p joining lhs op i).Follows input (Grammar.join s p joining lhs op (input.drop i))

variable {n : Nat}

private theorem Holds.expression_succ (h : tape.Holds s input)
    (ih : ExpressionsFollow tape s input n)
    (m : Precedence) (hi : i ≤ input.length) (hn : 4 * (input.length - i) ≤ n) :
    (tape.expression Walker (n + 1) m i).Follows input (Grammar.expression s m (input.drop i)) := by
  rw [Tape.expression, expression_eq]
  cases h.position hi with
  | ending t u _ hdrop hpeek _ hend herror =>
    have hopening : t.kind.opening? = none := by rw [hend]; rfl
    rw [bind_look hpeek, hopening, reading_fail, herror, hdrop, operand_nil]
    exact .failed hi hdrop
  | token t hlt hdrop hpeek hadvance _ hproper herror =>
    rw [bind_look hpeek, hdrop]
    cases hopening : t.kind.opening? with
    | none =>
      rw [operand_cons, hopening, reading_fail, herror, hdrop]
      exact .failed hi hdrop
    | some opening =>
      dsimp only
      rw [bind_look hadvance]
      apply follows_bind (ih.opened hproper hopening hlt (by omega)) (operandWithin s _).2
      intro lhs j hj hless
      rw [List.length_cons, List.length_drop] at hless
      exact ih.grow m lhs hj (by omega)

private theorem Holds.opened_succ (h : tape.Holds s input) (ih : ExpressionsFollow tape s input n)
    {t : Token}
    {opening : Opening} (hproper : t.kind ≠ .eof) (hopening : t.kind.opening? = some opening)
    (hi : i ≤ input.length) (hn : 4 * (input.length - i) + 1 ≤ n) :
    (tape.opened Walker (n + 1) opening t i).Follows input (operand s (t :: input.drop i)) := by
  rw [operand_cons, hopening]
  cases opening with
  | literal =>
    rw [Tape.opened, Reading.literal]
    cases t.literalValue? with
    | some value => exact .done hi rfl
    | none =>
      rw [reading_fail, at_of_ne_eof hproper]
      exact .failed hi rfl
  | name => exact .done hi rfl
  | group =>
    rw [Tape.opened]
    apply follows_bind (ih.expression .lowest hi hn) (expression_within ..)
    intro inner j hj _
    exact follows_map (h.expect (by decide) (by simp) .groupNotClosed hj) _
  | operator =>
    rw [Tape.opened]
    apply follows_bind (ih.expression .unary hi hn) (expression_within ..)
    intro operand j hj _
    exact follows_unary hproper operand hj

private theorem Holds.grow_succ (h : tape.Holds s input) (ih : ExpressionsFollow tape s input n)
    (m : Precedence) (lhs : Expr) (hi : i ≤ input.length) (hn : 4 * (input.length - i) ≤ n) :
    (tape.grow Walker (n + 1) m lhs i).Follows input (Grammar.grow s m lhs (input.drop i)) := by
  rw [Tape.grow]
  cases h.position hi with
  | ending t u _ hdrop hpeek _ hend _ =>
    have hjoining : t.kind.joining? = none := by rw [hend]; rfl
    rw [bind_look hpeek, hjoining, hdrop, grow_nil]
    exact .done hi hdrop
  | token t hlt hdrop hpeek hadvance _ hproper _ =>
    rw [bind_look hpeek, hdrop, grow_cons]
    cases t.kind.joining? with
    | none => exact .done hi hdrop
    | some operator =>
      obtain ⟨p, joining⟩ := operator
      dsimp only
      split
      · rw [bind_look hadvance]
        apply follows_bind (ih.join p joining lhs hproper hlt (by omega)) (joinWithin ..).2
        intro e j hj hless
        rw [List.length_drop] at hless
        exact ih.grow m e hj (by omega)
      · exact .done hi hdrop

private theorem Holds.join_succ (h : tape.Holds s input) (ih : ExpressionsFollow tape s input n)
    (p : Precedence) (joining : Joining) (lhs : Expr) {op : Token} (hop : op.kind ≠ .eof)
    (hi : i ≤ input.length) (hn : 4 * (input.length - i) + 2 ≤ n) :
    (tape.join Walker (n + 1) p joining lhs op i).Follows input
      (Grammar.join s p joining lhs op (input.drop i)) := by
  rw [join_eq]
  cases joining with
  | binary => exact follows_map (ih.expression p hi (by omega)) _
  | logical => exact follows_map (ih.expression p hi (by omega)) _
  | assign =>
    apply follows_bind (ih.expression .lowest hi (by omega)) (expression_within ..)
    intro value j hj _
    exact follows_assign hop lhs value hj
  | step => exact follows_step hop lhs hi
  | call =>
    have hone (j : Nat) (hj : j ≤ input.length) (hless : input.length - j ≤ input.length - i) :
        (tape.expression Walker n .lowest j).Follows input
          (Grammar.expression s .lowest (input.drop j)) := ih.expression .lowest hj (by omega)
    have hn : input.length - i < n := by omega
    have hargs := h.parenthesized (readsCommaList_arguments s) (expression_within s .lowest) hone hn hi
    apply follows_bind hargs (optional_within (argumentsWithin ..).2)
    intro args j hj _
    exact follows_map (h.expect (by decide) (by simp) .argumentsNotClosed hj) _

theorem Holds.expressionsFollow (h : tape.Holds s input) (n : Nat) :
    ExpressionsFollow tape s input n := by
  induction n with
  | zero =>
    constructor
    · intro m i _ hn
      omega
    · intro t opening i _ _ _ hn
      omega
    · intro m lhs i _ hn
      omega
    · intro p joining lhs op i _ _ hn
      omega
  | succ n ih =>
    constructor
    · intro m i hi hn
      exact h.expression_succ ih m hi (by omega)
    · intro t opening i hproper hopening hi hn
      exact h.opened_succ ih hproper hopening hi (by omega)
    · intro m lhs i hi hn
      exact h.grow_succ ih m lhs hi (by omega)
    · intro p joining lhs op i hop hi hn
      exact h.join_succ ih p joining lhs hop hi (by omega)

end Tape

end Scriptlet
