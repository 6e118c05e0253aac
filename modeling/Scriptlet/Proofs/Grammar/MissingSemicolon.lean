import Mathlib.Data.List.Chain
import Scriptlet.Proofs.Grammar.Resumption

namespace Scriptlet.Grammar

variable {s : Setting} {ts us : List Token} {ss : List Stmt}

/-- A statement of one expression as it was written, with its semicolon or without. -/
structure Draft where
  body : List Token
  semicolon : Option Token
  stmt : Stmt
  fault : Fault
  unended : Unended body stmt fault
  kind : ∀ t ∈ semicolon, t.kind = .semicolon

namespace Draft

def tokens (d : Draft) : List Token := d.body ++ d.semicolon.toList

def isEnded (d : Draft) : Bool := d.semicolon.isSome

theorem kind_ne_eof (d : Draft) : ∀ t ∈ d.tokens, t.kind ≠ .eof := by
  rw [tokens, List.forall_mem_append]
  refine ⟨d.unended.kind_ne_eof, ?_⟩
  intro t ht
  rw [d.kind t (Option.mem_toList.1 ht)]
  decide

/-- What is read of statements in a row. The one behind a gap is dropped, gap or no gap behind it. -/
def read (s : Setting) : List Draft → Program
  | [] => ⟨[], []⟩
  | [d] => if d.isEnded then ⟨[d.stmt], []⟩ else ⟨[.broken], [s.error d.fault []]⟩
  | d :: next :: ds =>
    if d.isEnded then
      ⟨d.stmt :: (read s (next :: ds)).statements, (read s (next :: ds)).errors⟩
    else ⟨.broken :: (read s ds).statements, s.error d.fault next.tokens :: (read s ds).errors⟩

theorem exists_keyword (d : Draft) : ∃ kw more, d.tokens = kw :: more ∧
    kw.kind.startsStatement = true ∧
    ∀ us, skip (more ++ us) = if d.isEnded then us else skip us := by
  obtain ⟨kw, more, hbody, hk, hmore⟩ := d.unended.exists_keyword
  refine ⟨kw, more ++ d.semicolon.toList, by rw [tokens, hbody, List.cons_append], hk, ?_⟩
  intro us
  rw [List.append_assoc, skip_append _ hmore, isEnded]
  cases hs : d.semicolon with
  | none => rfl
  | some t =>
    have ht : t.kind = .semicolon := d.kind t hs
    rw [Option.toList_some, List.singleton_append, skip, if_pos ht]
    rfl

/-- Behind a statement of the row there is another one or the end. -/
theorem showsGap (hs : s.interactive = false) (ds : List Draft) :
    ShowsGap s (ds.flatMap tokens) := by
  cases ds with
  | nil => exact showsGap_nil hs
  | cons d ds =>
    obtain ⟨kw, more, hd, hk, -⟩ := d.exists_keyword
    obtain ⟨hsemicolon, hjoining, -⟩ := TokenKind.of_startsStatement hk
    rw [List.flatMap_cons, hd, List.cons_append]
    exact showsGap_cons _ hsemicolon hjoining

private theorem nextIs_else_eq_false (ds : List Draft) :
    nextIs .kwElse (ds.flatMap tokens) = false := by
  cases ds with
  | nil => rfl
  | cons d ds =>
    obtain ⟨kw, more, hd, hk, -⟩ := d.exists_keyword
    obtain ⟨-, -, helse, -⟩ := TokenKind.of_startsStatement hk
    rw [List.flatMap_cons, hd, List.cons_append, nextIs_cons]
    exact beq_false_of_ne helse

private theorem skip_tokens (ds : List Draft) : skip (ds.flatMap tokens) = ds.flatMap tokens := by
  cases ds with
  | nil => rfl
  | cons d ds =>
    obtain ⟨kw, more, hd, hk, -⟩ := d.exists_keyword
    obtain ⟨hsemicolon, -⟩ := TokenKind.of_startsStatement hk
    rw [List.flatMap_cons, hd, List.cons_append, skip, if_neg hsemicolon, if_pos hk]

/-- The whole next statement is dropped with its keyword: what is behind it starts with a keyword, even
where it has no semicolon. -/
theorem resume_tokens (d : Draft) (ds : List Draft) :
    resume ((d :: ds).flatMap tokens) = ds.flatMap tokens := by
  obtain ⟨kw, more, hd, hk, hskip⟩ := d.exists_keyword
  obtain ⟨hsemicolon, -⟩ := TokenKind.of_startsStatement hk
  rw [List.flatMap_cons, hd, List.cons_append, resume_cons _ hsemicolon, hskip, skip_tokens,
    ite_self]

private theorem item_ended {d : Draft} (h : d.isEnded = true) (ds : List Draft) :
    item s ((d :: ds).flatMap tokens) = ⟨d.stmt, ds.flatMap tokens, []⟩ := by
  obtain ⟨t, ht⟩ := Option.isSome_iff_exists.1 h
  have hsentence := d.unended.sentence (d.kind t ht)
  rw [List.flatMap_cons, tokens, ht]
  exact item_append s hsentence (nextIs_else_eq_false ds)

private theorem item_unended (hs : s.interactive = false) {d : Draft} (h : d.isEnded = false)
    (ds : List Draft) : item s ((d :: ds).flatMap tokens) =
      ⟨.broken, resume (ds.flatMap tokens), [s.error d.fault (ds.flatMap tokens)]⟩ := by
  have hnone : d.semicolon = none := Option.isSome_eq_false_iff.1 h |> Option.isNone_iff_eq_none.1
  have hbody : d.tokens = d.body := by rw [tokens, hnone, Option.toList_none, List.append_nil]
  rw [List.flatMap_cons, hbody]
  exact d.unended.item_eq (showsGap hs ds)

private theorem declarations_eq_read (hs : s.interactive = false) (ds : List Draft) :
    declarations s (ds.flatMap tokens) = read s ds := by
  have hstep (d : Draft) (ds : List Draft) : declarations s ((d :: ds).flatMap tokens) =
      let next := item s ((d :: ds).flatMap tokens)
      let more := declarations s next.rest
      ⟨next.stmt :: more.statements, next.errors ++ more.errors⟩ := by
    obtain ⟨kw, more, hd, -, -⟩ := d.exists_keyword
    rw [List.flatMap_cons, hd, List.cons_append, declarations]
  have hend : declarations s [] = ⟨[], []⟩ := by rw [declarations]
  fun_induction read s ds with
  | case1 => exact hend
  | case2 d h =>
    rw [hstep, item_ended h]
    simp only [List.flatMap_nil, hend, List.nil_append]
  | case3 d h =>
    rw [hstep, item_unended hs (Bool.eq_false_iff.2 h)]
    simp only [List.flatMap_nil, resume, hend, List.append_nil]
  | case4 d next ds h ih =>
    rw [hstep, item_ended h]
    simp only [ih, List.nil_append]
  | case5 d next ds h ih =>
    rw [hstep, item_unended hs (Bool.eq_false_iff.2 h), resume_tokens]
    simp only [ih]
    obtain ⟨kw, more, hnext, -, -⟩ := next.exists_keyword
    rw [List.flatMap_cons, hnext]
    rfl

private theorem ofTokens_tokens (ds : List Draft) : Program.ofTokens false (ds.flatMap tokens) =
    read (.ofTokens false (ds.flatMap tokens)) ds := by
  have hinput : input (ds.flatMap tokens) = ds.flatMap tokens := by
    apply input_eq_self
    intro t ht
    obtain ⟨d, -, ht⟩ := List.mem_flatMap.1 ht
    exact d.kind_ne_eof t ht
  rw [Program.ofTokens, hinput]
  exact declarations_eq_read rfl ds

private theorem countP_ended {d : Draft} (h : d.isEnded = true) (ds : List Draft) :
    (d :: ds).countP (!·.isEnded) = ds.countP (!·.isEnded) := by
  simp [h]

private theorem countP_unended {d : Draft} (h : d.isEnded = false) (ds : List Draft) :
    (d :: ds).countP (!·.isEnded) = ds.countP (!·.isEnded) + 1 := by
  simp [h]

private theorem length_errors_read_le (s : Setting) (ds : List Draft) :
    (read s ds).errors.length ≤ ds.countP (!·.isEnded) := by
  fun_induction read s ds with
  | case1 => exact Nat.le_refl _
  | case2 d h => exact Nat.zero_le _
  | case3 d h => exact (countP_unended (Bool.eq_false_iff.2 h) []).ge
  | case4 d next ds h ih => exact (countP_ended h (next :: ds)).symm ▸ ih
  | case5 d next ds h ih =>
    have hmore : ds.countP (!·.isEnded) ≤ (next :: ds).countP (!·.isEnded) :=
      (List.sublist_cons_self next ds).countP_le
    rw [countP_unended (Bool.eq_false_iff.2 h), List.length_cons]
    exact Nat.succ_le_succ (Nat.le_trans ih hmore)

private theorem length_errors_read_eq_iff (s : Setting) (ds : List Draft) :
    (read s ds).errors.length = ds.countP (!·.isEnded) ↔
      ds.IsChain fun d next => d.isEnded = true ∨ next.isEnded = true := by
  fun_induction read s ds with
  | case1 => simp
  | case2 d h => simp [h]
  | case3 d h => simp [h]
  | case4 d next ds h ih =>
    rw [List.isChain_cons_cons]
    simpa [h] using ih
  | case5 d next ds h ih =>
    have hle := length_errors_read_le s ds
    have hd : d.isEnded = false := Bool.eq_false_iff.2 h
    rw [List.isChain_cons_cons, countP_unended hd, hd, List.length_cons, Nat.succ_inj]
    cases hnext : next.isEnded with
    | true =>
      have htail : (next :: ds).IsChain (fun d next => d.isEnded = true ∨ next.isEnded = true) ↔
          ds.IsChain fun d next => d.isEnded = true ∨ next.isEnded = true := by
        cases ds with
        | nil => simp
        | cons d' ds => simp [List.isChain_cons_cons, hnext]
      rw [htail, ← ih, countP_ended hnext]
      simp
    | false =>
      -- The gap in `next` goes unreported, and no other report makes up for it.
      rw [countP_unended hnext]
      constructor
      · intro heq
        omega
      · rintro ⟨hor, -⟩
        simp at hor

end Draft

/-- A script of such statements is complained about at most once for each gap, and once for each of them
if and only if no two gaps follow directly on each other. -/
theorem gaps_reported_iff (ds : List Draft) :
    let p := Program.ofTokens false (ds.flatMap Draft.tokens)
    p = Draft.read (.ofTokens false (ds.flatMap Draft.tokens)) ds ∧
      p.report.length ≤ ds.countP (!·.isEnded) ∧
      (p.report.length = ds.countP (!·.isEnded) ↔
        ds.IsChain fun d next => d.isEnded = true ∨ next.isEnded = true) := by
  intro p
  have hp : p = Draft.read (.ofTokens false (ds.flatMap Draft.tokens)) ds := Draft.ofTokens_tokens ds
  rw [Program.report, List.length_map, hp]
  exact ⟨rfl, Draft.length_errors_read_le _ ds, Draft.length_errors_read_eq_iff _ ds⟩

/-- `print` and a name, with a semicolon behind them or without. -/
def Draft.printing (x : String) (line : Nat) (ended : Bool) : Draft where
  body := [⟨.kwPrint, "print", none, line⟩, .named x line]
  semicolon := if ended then some ⟨.semicolon, ";", none, line⟩ else none
  stmt := .print ⟨.kwPrint, "print", none, line⟩ (.name (.named x line))
  fault := .printNotEnded
  unended := .print rfl ((Derives.name rfl).loosen (by decide))
  kind := by
    cases ended <;> simp

/-- The second of two gaps in a row is not reported. -/
theorem gap_behind_gap_unreported :
    let ds : List Draft := [.printing "a" 1 false, .printing "b" 2 false, .printing "c" 3 true]
    let p := Program.ofTokens false (ds.flatMap Draft.tokens)
    ds.countP (!·.isEnded) = 2 ∧ p.report.length = 1 ∧
      p.errors = [⟨.printNotEnded, .lexeme "print", 2⟩] := by
  intro ds p
  have hp : p = Draft.read (.ofTokens false (ds.flatMap Draft.tokens)) ds := Draft.ofTokens_tokens ds
  exact ⟨rfl, by rw [hp]; rfl, by rw [hp]; rfl⟩

/-- The tokens close `depth` blocks, with any declarations in front of each brace, and then there are
`count` declarations up to the end. -/
inductive Closes : Nat → Nat → List Token → Prop where
  | done : Closes 0 0 []
  | outside {count : Nat} {ts us : List Token} {st : Stmt} : Sentence .declaration ts st →
    Closes 0 count us → Closes 0 (count + 1) (ts ++ us)
  | inside {depth count : Nat} {ts us : List Token} {st : Stmt} : Sentence .declaration ts st →
    Closes (depth + 1) count us → Closes (depth + 1) count (ts ++ us)
  | closed {depth count : Nat} {brace : Token} {us : List Token} : brace.kind = .rightBrace →
    Closes depth count us → Closes (depth + 1) count (brace :: us)

namespace Closes

variable {depth count : Nat}

private theorem of_isProgram (h : IsProgram ts ss) : Closes 0 ss.length ts := by
  obtain ⟨body, hbody, rfl, rfl⟩ := h
  induction body with
  | nil => exact .done
  | cons d body ih =>
    rw [List.forall_mem_cons] at hbody
    exact .outside hbody.1 (ih hbody.2)

private theorem inside_all (hus : Closes (depth + 1) count us) {body : List (List Token × Stmt)}
    (h : ∀ d ∈ body, Sentence .declaration d.1 d.2) :
    Closes (depth + 1) count (body.flatMap Prod.fst ++ us) := by
  induction body with
  | nil => exact hus
  | cons d body ih =>
    rw [List.forall_mem_cons] at h
    rw [List.flatMap_cons, List.append_assoc]
    exact .inside h.1 (ih h.2)

private theorem nextIs_else (h : Closes depth count ts) : nextIs .kwElse ts = false := by
  have hhead {ts us : List Token} {st : Stmt} (h : Sentence .declaration ts st) :
      nextIs .kwElse (ts ++ us) = false := by
    obtain ⟨t, more, rfl, ht, -⟩ := h.exists_head
    rw [List.cons_append, nextIs_cons, beq_eq_false_iff_ne]
    intro hk
    rw [hk] at ht
    cases ht
  cases h with
  | done => rfl
  | outside h _ | inside h _ => exact hhead h
  | closed hk _ =>
    rw [nextIs_cons, hk]
    rfl

private theorem exists_isProgram (h : Closes 0 count ts) :
    ∃ ss, IsProgram ts ss ∧ ss.length = count := by
  generalize hd : 0 = depth at h
  induction h with
  | done => exact ⟨[], ⟨[], by simp, rfl, rfl⟩, rfl⟩
  | @outside count ts us st h _ ih =>
    obtain ⟨ss, ⟨body, hbody, rfl, rfl⟩, rfl⟩ := ih rfl
    refine ⟨st :: body.map Prod.snd, ⟨(ts, st) :: body, ?_, rfl, rfl⟩, rfl⟩
    exact List.forall_mem_cons.2 ⟨h, hbody⟩
  | inside => cases hd
  | closed => cases hd

/-- Without a brace the block is never closed. -/
theorem block_failed (s : Setting) (h : Closes 0 count ts) :
    block s ts = .failed (s.error .blockNotClosed []) [] [] := by
  obtain ⟨ss, hss, -⟩ := h.exists_isProgram
  have hnext : nextIs .kwElse [] = false := rfl
  have hread := block_append_left s hss hnext
  rw [List.append_nil, block_nil] at hread
  exact hread

private theorem block_done (s : Setting) (h : Closes (depth + 1) count ts) :
    ∃ body us, block s ts = .done body us [] ∧ Closes depth count us := by
  generalize hd : depth + 1 = d at h
  induction h with
  | done => cases hd
  | outside => cases hd
  | @inside _ _ ts us st h hus ih =>
    obtain ⟨body, rest, hread, hrest⟩ := ih hd
    exact ⟨st :: body, rest, by rw [block_of_sentence s h hus.nextIs_else, hread, Reply.done_map], hrest⟩
  | closed hk hus =>
    cases hd
    exact ⟨[], _, by rw [block_cons, if_pos hk], hus⟩

/-- A brace that closes no block is no declaration. -/
theorem errors_ne_nil (s : Setting) (h : Closes (depth + 1) count ts) :
    (declarations s ts).errors ≠ [] := by
  generalize hd : depth + 1 = d at h
  induction h with
  | done => cases hd
  | outside => cases hd
  | inside h hus ih =>
    rw [declarations_of_sentence s h hus.nextIs_else]
    exact ih hd
  | @closed _ _ brace us hk hus =>
    have hread : declaration s (brace :: us) =
        .failed (s.error .noExpression (brace :: us)) (brace :: us) [] := by
      rw [declaration_eq_statement s us (by rw [hk]; rfl), statement_cons, hk]
      dsimp only
      rw [expressionStatement, expression_eq, operand_cons, hk]
      rfl
    rw [declarations, item, hread]
    simp [Reply.settle]

/-- What the search for a place to go on passes over in a declaration: nothing, all of it, or the brace
that opens a block. -/
theorem skip_sentence {st : Stmt} (h : Sentence .declaration ts st) :
    (∀ us, skip (ts ++ us) = ts ++ us) ∨ (∀ us, skip (ts ++ us) = us) ∨
    ∃ (opened brace : Token) (body : List (List Token × Stmt)),
      ts = opened :: (body.flatMap Prod.fst ++ [brace]) ∧ opened.kind = .leftBrace ∧
      brace.kind = .rightBrace ∧ ∀ d ∈ body, Sentence .declaration d.1 d.2 := by
  have hstays {t : Token} {more : List Token} (ht : t.kind.startsStatement = true) (us : List Token) :
      skip (t :: more ++ us) = t :: more ++ us := by
    obtain ⟨hsemicolon, -⟩ := TokenKind.of_startsStatement ht
    rw [List.cons_append, skip, if_neg hsemicolon, if_pos ht]
  cases h with
  | ofStatement h =>
    cases h with
    | expression he hs =>
      right; left
      intro us
      rw [List.append_assoc, skip_append _ he.inExpression, List.singleton_append, skip, if_pos hs]
    | block ho hbody hc => exact .inr (.inr ⟨_, _, _, rfl, ho, hc, hbody⟩)
    | print hk | ret hk | ifThen hk | ifElse hk | loop hk | forLoop hk =>
      exact .inl (hstays (by rw [hk]; rfl))
  | binding h =>
    cases h with
    | plain hk | initialized hk => exact .inl (hstays (by rw [hk]; rfl))
  | function hk => exact .inl (hstays (by rw [hk]; rfl))

private theorem skip_brace {brace : Token} (us : List Token) (h : brace.kind = .leftBrace ∨
    brace.kind = .rightBrace) : skip (brace :: us) = skip us := by
  rw [skip]
  rcases h with h | h <;> rw [h] <;> rfl

/-- From a program, the search can end inside a block only if it passes over the brace of the first
declaration, and then this one is no longer outside. -/
theorem after_skip (h : Closes depth count ts) :
    ∃ depth' count', Closes depth' count' (skip ts) ∧ count' ≤ count ∧
      (depth = 0 → depth' = 0 ∨ count' < count ∧ nextIs .leftBrace ts = true) := by
  induction hn : ts.length using Nat.strongRecOn generalizing ts depth count with
  | ind n ih =>
    subst hn
    cases h with
    | done => exact ⟨0, 0, .done, Nat.le_refl _, fun _ => .inl rfl⟩
    | @outside count us rest st h hrest =>
      obtain hstays | hskips | ⟨opened, brace, body, rfl, ho, hb, hbody⟩ := skip_sentence h
      · rw [hstays]
        exact ⟨0, count + 1, .outside h hrest, Nat.le_refl _, fun _ => .inl rfl⟩
      · rw [hskips]
        exact ⟨0, count, hrest, Nat.le_succ _, fun _ => .inl rfl⟩
      · have hinner := (Closes.closed hb hrest).inside_all hbody
        obtain ⟨depth', count', hafter, hle, -⟩ := ih _ (by simp) hinner rfl
        rw [List.cons_append, List.append_assoc, List.singleton_append, skip_brace _ (.inl ho),
          nextIs_cons, ho]
        exact ⟨depth', count', hafter, Nat.le_succ_of_le hle,
          fun _ => .inr ⟨Nat.lt_succ_of_le hle, rfl⟩⟩
    | @inside depth count us rest st h hrest =>
      obtain hstays | hskips | ⟨opened, brace, body, rfl, ho, hb, hbody⟩ := skip_sentence h
      · rw [hstays]
        exact ⟨depth + 1, count, .inside h hrest, Nat.le_refl _, fun hd => nomatch hd⟩
      · rw [hskips]
        exact ⟨depth + 1, count, hrest, Nat.le_refl _, fun hd => nomatch hd⟩
      · have hinner := (Closes.closed hb hrest).inside_all hbody
        obtain ⟨depth', count', hafter, hle, -⟩ := ih _ (by simp) hinner rfl
        rw [List.cons_append, List.append_assoc, List.singleton_append, skip_brace _ (.inl ho)]
        exact ⟨depth', count', hafter, hle, fun hd => nomatch hd⟩
    | closed hk hus =>
      obtain ⟨depth', count', hafter, hle, -⟩ := ih _ (Nat.lt_succ_self _) hus rfl
      rw [skip_brace _ (.inr hk)]
      exact ⟨depth', count', hafter, hle, fun hd => nomatch hd⟩

end Closes

variable {opened closed : Token} {ds body : List Token} {dss : List Stmt} {st : Stmt} {fault : Fault}

/-- A block whose last statement lacks its semicolon, and whatever follows its brace. -/
theorem block_gap (s : Setting) (hd : IsProgram ds dss) (hb : Unended body st fault)
    (hc : closed.kind = .rightBrace) (us : List Token) :
    block s (ds ++ (body ++ closed :: us)) =
      ((block s (skip us)).map fun rest => dss ++ .broken :: rest).addNotes
        [.atToken closed fault] := by
  have hgap : ShowsGap s (closed :: us) :=
    showsGap_cons us (by rw [hc]; decide) (by rw [hc]; rfl)
  have hitem := hb.item_eq hgap
  rw [resume_cons us (by rw [hc]; decide)] at hitem
  obtain ⟨kw, more, rfl, hk, -⟩ := hb.exists_keyword
  obtain ⟨-, -, helse, hbrace, -⟩ := TokenKind.of_startsStatement hk
  have hnext : nextIs .kwElse (kw :: more ++ closed :: us) = false := beq_false_of_ne helse
  rw [block_append_left s hd hnext]
  rw [List.cons_append] at hitem ⊢
  rw [block_cons, if_neg hbrace, hitem]
  cases block s (skip us) <;> simp [Reply.map_done, Reply.addNotes] <;> rfl

private theorem item_block (s : Setting) (ho : opened.kind = .leftBrace) (ts : List Token) :
    item s (opened :: ts) = ((block s ts).map .block).settle := by
  rw [item, declaration_eq_statement s ts (by rw [ho]; rfl), statement_cons, ho]

/-- The block takes in what follows up to the end, and is lost with it. -/
theorem declarations_gap_lost (s : Setting) (ho : opened.kind = .leftBrace) (hd : IsProgram ds dss)
    (hb : Unended body st fault) (hc : closed.kind = .rightBrace) {count : Nat}
    (hus : Closes 0 count (skip us)) : declarations s (opened :: (ds ++ (body ++ closed :: us))) =
      ⟨[.broken], [.atToken closed fault, s.error .blockNotClosed []]⟩ := by
  have hitem := item_block s ho (ds ++ (body ++ closed :: us))
  rw [block_gap s hd hb hc, hus.block_failed s] at hitem
  have hend : declarations s [] = ⟨[], []⟩ := by rw [declarations]
  rw [declarations, hitem]
  simp only [Reply.settle, Reply.addNotes, Reply.map, Reply.bind, resume, hend]
  rfl

/-- The block ends with a brace that was to close another one. -/
theorem declarations_gap_closed (s : Setting) (ho : opened.kind = .leftBrace)
    (hd : IsProgram ds dss)
    (hb : Unended body st fault) (hc : closed.kind = .rightBrace) {depth count : Nat}
    (hus : Closes (depth + 1) count (skip us)) :
    ∃ taken rest, Closes depth count rest ∧
      declarations s (opened :: (ds ++ (body ++ closed :: us))) =
        ⟨.block taken :: (declarations s rest).statements,
          .atToken closed fault :: (declarations s rest).errors⟩ := by
  obtain ⟨taken, rest, hread, hrest⟩ := hus.block_done s
  have hitem := item_block s ho (ds ++ (body ++ closed :: us))
  rw [block_gap s hd hb hc, hread, Reply.map_done] at hitem
  refine ⟨dss ++ .broken :: taken, rest, hrest, ?_⟩
  rw [declarations, hitem]
  rfl

/-- A block whose last statement lacks its semicolon is not closed by its own brace. Unless a block
follows, all that follows is lost with it, and the end is complained about as well. -/
theorem block_with_gap_takes_in_rest (ho : opened.kind = .leftBrace) (hd : IsProgram ds dss)
    (hb : Unended body st fault) (hc : closed.kind = .rightBrace) (hu : IsProgram us ss) :
    let tokens := opened :: (ds ++ (body ++ closed :: us))
    let p := Program.ofTokens false tokens
    (nextIs .leftBrace us = false →
      p = ⟨[.broken],
        [.atToken closed fault, ⟨.blockNotClosed, .atEnd, lineOfEnd tokens⟩]⟩) ∧
    ¬ (p.report.length = 1 ∧ p.statements.tail = ss) := by
  intro tokens p
  have hinput : input tokens = tokens := by
    apply input_eq_self
    rw [List.forall_mem_cons, List.forall_mem_append, List.forall_mem_append, List.forall_mem_cons,
      ho, hc]
    exact ⟨nofun, hd.kind_ne_eof, hb.kind_ne_eof, nofun, hu.kind_ne_eof⟩
  have hp : p = declarations (.ofTokens false tokens) tokens := congrArg (declarations _) hinput
  -- What follows closes `depth` blocks that it has not opened; of those the broken block is the first.
  obtain ⟨depth, count, hafter, hle, hzero⟩ := (Closes.of_isProgram hu).after_skip
  cases depth with
  | zero =>
    have hlost := declarations_gap_lost (.ofTokens false tokens) ho hd hb hc hafter
    rw [hp, hlost]
    refine ⟨fun _ => rfl, ?_⟩
    rintro ⟨hone, -⟩
    cases hone
  | succ depth =>
    obtain hzero | ⟨hless, hbrace⟩ := hzero rfl
    · cases hzero
    obtain ⟨taken, rest, hrest, hclosed⟩ :=
      declarations_gap_closed (.ofTokens false tokens) ho hd hb hc hafter
    rw [hp, hclosed]
    constructor
    · intro hother
      rw [hbrace] at hother
      cases hother
    rintro ⟨hone, hsame⟩
    cases depth with
    | zero =>
      obtain ⟨sss, hprogram, hlength⟩ := hrest.exists_isProgram
      rw [declarations_of_isProgram _ hprogram, List.tail_cons] at hsame
      have hshort : ss.length = count := hsame ▸ hlength
      omega
    | succ depth =>
      have herrors := hrest.errors_ne_nil (.ofTokens false tokens)
      rw [Program.report, List.map_cons, List.length_cons, List.length_map] at hone
      exact herrors (List.eq_nil_of_length_eq_zero (Nat.succ.inj hone))

/-- `print b;` is lost behind a block with a gap in it, and with the block what came before the gap. -/
theorem block_with_gap_takes_in_print :
    let opened : Token := ⟨.leftBrace, "\x7b", none, 1⟩
    let closed : Token := ⟨.rightBrace, "\x7d", none, 1⟩
    let kw : Token := ⟨.kwPrint, "print", none, 1⟩
    let semicolon : Token := ⟨.semicolon, ";", none, 1⟩
    let x := Token.named "x" 1
    let a := Token.named "a" 1
    let b := Token.named "b" 1
    IsProgram [x, semicolon] [.expression (.name x)] ∧
      IsProgram [kw, b, semicolon] [.print kw (.name b)] ∧
      Program.ofTokens false [opened, x, semicolon, kw, a, closed, kw, b, semicolon] =
        ⟨[.broken], [⟨.printNotEnded, .lexeme "\x7d", 1⟩, ⟨.blockNotClosed, .atEnd, 1⟩]⟩ := by
  intro opened closed kw semicolon x a b
  have hname (x : String) : Derives .assignment [.named x 1] (.name (.named x 1)) :=
    (Derives.name rfl).loosen (by decide)
  have hone {ts : List Token} {st : Stmt} (h : Sentence .declaration ts st) : IsProgram ts [st] :=
    ⟨[(ts, st)], List.forall_mem_singleton.2 h, (List.append_nil ts).symm, rfl⟩
  have hbefore : IsProgram [x, semicolon] [.expression (.name x)] :=
    hone (.ofStatement (@Sentence.expression [x] _ semicolon (hname "x") rfl))
  have hbehind : IsProgram [kw, b, semicolon] [.print kw (.name b)] :=
    hone (.ofStatement (@Sentence.print kw semicolon [b] _ rfl (hname "b") rfl))
  have hgap : Unended [kw, a] (.print kw (.name a)) .printNotEnded := .print rfl (hname "a")
  have hlost := (@block_with_gap_takes_in_rest _ _ opened closed _ _ _ _ _ rfl hbefore hgap rfl
    hbehind).1 rfl
  exact ⟨hbefore, hbehind, hlost⟩

end Scriptlet.Grammar
