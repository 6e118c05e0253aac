import Scriptlet.Proofs.Grammar.SentenceSound

namespace Scriptlet.Grammar

namespace Reply

variable {α β γ : Type}

theorem map_done (g : α → β) (a : α) (ts : List Token) (notes : List ParseError) :
    (done a ts notes).map g = done (g a) ts notes := by
  rw [map, bind, addNotes, List.append_nil]

theorem map_id (r : Reply α) : r.map id = r := by
  cases r with
  | done a ts notes => exact map_done id a ts notes
  | failed e ts notes => rfl

theorem map_map (g : α → β) (f : β → γ) (r : Reply α) : (r.map g).map f = r.map (f ∘ g) := by
  cases r with
  | done a ts notes => rw [map_done, map_done, map_done, Function.comp_apply]
  | failed e ts notes => rfl

end Reply

variable {ts us : List Token} {ss : List Stmt}

theorem item_append (s : Setting) {st : Stmt} (h : Sentence .declaration ts st)
    (hus : nextIs .kwElse us = false) : item s (ts ++ us) = ⟨st, us, []⟩ :=
  item_of_declaration (h.reads s us hus)

theorem declarations_of_sentence (s : Setting) {st : Stmt} (h : Sentence .declaration ts st)
    (hus : nextIs .kwElse us = false) : declarations s (ts ++ us) =
      ⟨st :: (declarations s us).statements, (declarations s us).errors⟩ := by
  have hitem := item_append s h hus
  obtain ⟨t, rest, rfl, -, -⟩ := h.exists_head
  rw [List.cons_append] at hitem ⊢
  rw [declarations, hitem]
  rfl

/-- No brace that closes the block is looked for in a declaration of it. -/
theorem block_of_sentence (s : Setting) {st : Stmt} (h : Sentence .declaration ts st)
    (hus : nextIs .kwElse us = false) : block s (ts ++ us) = (block s us).map (st :: ·) := by
  have hitem := item_append s h hus
  obtain ⟨t, rest, rfl, ht, -⟩ := h.exists_head
  have hk : t.kind ≠ .rightBrace := by
    intro hk
    rw [hk] at ht
    cases ht
  rw [List.cons_append] at hitem ⊢
  rw [block_cons, if_neg hk, hitem]
  cases block s us <;> rfl

/-- Declarations in front of a program. -/
theorem declarations_append (s : Setting) (h : IsProgram ts ss) (hus : nextIs .kwElse us = false) :
    declarations s (ts ++ us) =
      ⟨ss ++ (declarations s us).statements, (declarations s us).errors⟩ := by
  obtain ⟨body, hbody, rfl, rfl⟩ := h
  induction body with
  | nil => rfl
  | cons d body ih =>
    rw [List.forall_mem_cons] at hbody
    have hmore := not_nextIs_else hbody.2 hus
    rw [List.flatMap_cons, List.append_assoc, declarations_of_sentence s hbody.1 hmore, ih hbody.2]
    rfl

/-- Declarations in front of the rest of a block. -/
theorem block_append_left (s : Setting) (h : IsProgram ts ss) (hus : nextIs .kwElse us = false) :
    block s (ts ++ us) = (block s us).map (ss ++ ·) := by
  obtain ⟨body, hbody, rfl, rfl⟩ := h
  induction body with
  | nil => exact (Reply.map_id _).symm
  | cons d body ih =>
    rw [List.forall_mem_cons] at hbody
    have hmore := not_nextIs_else hbody.2 hus
    rw [List.flatMap_cons, List.append_assoc, block_of_sentence s hbody.1 hmore, ih hbody.2,
      Reply.map_map]
    rfl

theorem input_eq_self (hts : ∀ t ∈ ts, t.kind ≠ .eof) : input ts = ts := by
  have happend : input (ts ++ []) = ts ++ [] := input_append [] hts
  rwa [List.append_nil] at happend

/-- The end of the input is told by the tokens that come last. -/
theorem lineOfEnd_append (hts : ∀ t ∈ ts, t.kind ≠ .eof) (hus : us ≠ []) :
    lineOfEnd (ts ++ us) = lineOfEnd us := by
  have hfind : ts.find? (·.kind == .eof) = none :=
    List.find?_eq_none.2 fun t ht => by simpa using hts t ht
  have hlast : (ts ++ us).getLast? = us.getLast? := by
    rw [List.getLast?_append, List.getLast?_eq_some_getLast hus, Option.some_or]
  rw [lineOfEnd, lineOfEnd, List.find?_append, hfind, Option.none_or, hlast]

/-- Tokens in which a script finds nothing wrong leave no trace but their trees: whatever stands behind
them, in either mode, is read and complained about as it is on its own. -/
theorem program_reads_on (interactive : Bool) {ts us : List Token} (hts : ∀ t ∈ ts, t.kind ≠ .eof)
    (hclean : (Program.ofTokens false ts).report = []) (hus : nextIs .kwElse us = false) :
    Program.ofTokens interactive (ts ++ us) =
      ⟨(Program.ofTokens false ts).statements ++ (Program.ofTokens interactive us).statements,
        (Program.ofTokens interactive us).errors⟩ := by
  obtain ⟨haccepts, hstatements⟩ := program_accepts_sentences ts hts
  obtain ⟨ss, hprogram⟩ := haccepts.1 hclean
  have hinput : input (ts ++ us) = ts ++ input us := input_append us hts
  have helse : nextIs .kwElse (input us) = false := by
    cases us with
    | nil => rfl
    | cons t us =>
      rw [input, List.takeWhile_cons]
      split
      · exact hus
      · rfl
  have hread := declarations_append (.ofTokens interactive (ts ++ us)) hprogram helse
  rw [Program.ofTokens, hinput, hread, hstatements ss hprogram]
  cases us with
  | nil => simp [Program.ofTokens, input, declarations]
  | cons t us =>
    have hsetting : Setting.ofTokens interactive (ts ++ t :: us) = .ofTokens interactive (t :: us) :=
      congrArg (Setting.mk · interactive) (lineOfEnd_append hts (List.cons_ne_nil t us))
    rw [hsetting]
    rfl

/-- Neither the `if` that could still take an `else` nor its line has to do with what goes wrong behind
it. The last statement goes without its semicolon. -/
theorem program_reads_on_after_if :
    let kwIf : Token := ⟨.kwIf, "if", none, 1⟩
    let opened : Token := ⟨.leftParen, "(", none, 1⟩
    let closed : Token := ⟨.rightParen, ")", none, 1⟩
    let semicolon : Token := ⟨.semicolon, ";", none, 1⟩
    let plus : Token := ⟨.plus, "+", none, 2⟩
    let x := Token.named "x" 1
    let y := Token.named "y" 2
    let ts := [kwIf, opened, x, closed, x, semicolon]
    let us := [plus, y, semicolon, y]
    (∀ t ∈ ts, t.kind ≠ .eof) ∧ (Program.ofTokens false ts).report = [] ∧
      nextIs .kwElse us = false ∧
      Program.ofTokens true (ts ++ us) =
        ⟨[.ifThen (.name x) (.expression (.name x)), .broken, .expression (.name y)],
          [.atToken plus .noExpression]⟩ := by
  intro kwIf opened closed semicolon plus x y ts us
  have hts : ∀ t ∈ ts, t.kind ≠ .eof := by decide
  have hus : nextIs .kwElse us = false := rfl
  have hfirst : Program.ofTokens false ts = ⟨[.ifThen (.name x) (.expression (.name x))], []⟩ := by
    cbv
  have hsecond : Program.ofTokens true us =
      ⟨[.broken, .expression (.name y)], [.atToken plus .noExpression]⟩ := by
    cbv
  have hclean : (Program.ofTokens false ts).report = [] := by
    rw [hfirst]
    rfl
  refine ⟨hts, hclean, hus, ?_⟩
  rw [program_reads_on true hts hclean hus, hfirst, hsecond]
  rfl

end Scriptlet.Grammar
