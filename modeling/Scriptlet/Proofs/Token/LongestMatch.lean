import Mathlib
import Scriptlet.Proofs.Number.DecimalText
import Scriptlet.Proofs.Token.LineEnd

namespace Scriptlet

namespace Segment

open Decimal (IsDigits readMantissa)
open Number (RoundsTo)

/-- Operators and punctuation of one character. -/
def symbols : List (Char × TokenKind) :=
  [('(', .leftParen), (')', .rightParen), ('\x7b', .leftBrace), ('\x7d', .rightBrace), (',', .comma),
   ('.', .dot), (';', .semicolon), ('+', .plus), ('-', .minus), ('*', .star), ('/', .slash),
   ('&', .ampersand), ('|', .pipe), ('^', .caret), ('~', .tilde), ('!', .bang), ('=', .equal),
   ('>', .greater), ('<', .less)]

/-- Operators of two characters. -/
def pairs : List ((Char × Char) × TokenKind) :=
  [(('+', '+'), .plusPlus), (('-', '-'), .minusMinus), (('<', '<'), .lessLess),
   (('>', '>'), .greaterGreater), (('&', '&'), .ampersandAmpersand), (('|', '|'), .pipePipe),
   (('=', '='), .equalEqual), (('!', '='), .bangEqual), (('>', '='), .greaterEqual),
   (('<', '='), .lessEqual)]

/-- The texts of each kind of segment. A word is an identifier unless it is reserved, and the literal of a
number is the float that the decimal in its text rounds to. -/
inductive Matches : SegmentKind → List Char → Prop where
  | symbol {c : Char} {kind : TokenKind} (h : (c, kind) ∈ symbols) : Matches (.token kind none) [c]
  | pair {c d : Char} {kind : TokenKind} (h : ((c, d), kind) ∈ pairs) :
    Matches (.token kind none) [c, d]
  | keyword {text : String} {kind : TokenKind} (h : (text, kind) ∈ keywords) :
    Matches (.token kind none) text.toList
  | identifier {c : Char} {cs : List Char} (hc : isWordStart c) (hcs : ∀ d ∈ cs, isWordRest d)
    (hword : ∀ k ∈ keywords, k.1 ≠ String.ofList (c :: cs)) :
    Matches (.token .identifier none) (c :: cs)
  | whole {cs : List Char} {x : Float} (hcs : IsDigits cs) (hx : RoundsTo false (readMantissa cs) x) :
    Matches (.token .number (some (.number x))) cs
  | decimal {cs ds : List Char} {x : Float} (hcs : IsDigits cs) (hds : IsDigits ds)
    (hx : RoundsTo false (readMantissa (cs ++ '.' :: ds)) x) :
    Matches (.token .number (some (.number x))) (cs ++ '.' :: ds)
  | string {cs : List Char} (h : quote ∉ cs) :
    Matches (.token .string (some (.string (String.ofList cs)))) (quote :: cs ++ [quote])
  | unterminated {cs : List Char} (h : quote ∉ cs) : Matches .unterminated (quote :: cs)
  | blanks {c : Char} {cs : List Char} (h : ∀ d ∈ c :: cs, isBlank d) : Matches .layout (c :: cs)
  | comment {cs : List Char} (h : '\n' ∉ cs) : Matches .layout ('/' :: '/' :: cs)

/-- The text falls into the segments. Each is a longest match at its place; a character at which
nothing matches is a segment by itself. -/
inductive Segmentation : List Char → List Segment → Prop where
  | nil : Segmentation [] []
  | longest {s : Segment} {rest : List Char} {ss : List Segment} (hs : Matches s.kind s.text)
    (hlongest : ∀ kind text, Matches kind text → text <+: s.text ++ rest →
      text.length ≤ s.text.length) (hrest : Segmentation rest ss) :
    Segmentation (s.text ++ rest) (s :: ss)
  | unexpected {c : Char} {rest : List Char} {ss : List Segment}
    (hnone : ∀ kind text, Matches kind text → ¬ text <+: c :: rest) (hrest : Segmentation rest ss) :
    Segmentation (c :: rest) (⟨.unexpected, [c]⟩ :: ss)

private theorem isBlank_eq_false_of_isWordRest {c : Char} (h : isWordRest c) :
    isBlank c = false := by
  rw [Bool.eq_false_iff]
  intro hblank
  simp only [isBlank, Bool.or_eq_true, beq_iff_eq] at hblank
  rcases hblank with (((rfl | rfl) | rfl) | rfl) | rfl <;> revert h <;> decide

private theorem isWordRest_of_isDigit {c : Char} (h : c.isDigit) : isWordRest c := by
  simp [isWordRest, Char.isAlphanum, h]

private theorem isWordRest_of_isWordStart {c : Char} (h : isWordStart c) : isWordRest c := by
  simp only [isWordStart, isWordRest, Char.isAlphanum, Bool.or_eq_true] at h ⊢
  rcases h with h | h
  · exact .inl (.inl h)
  · exact .inr h

private theorem isDigit_eq_false_of_isWordStart {c : Char} (h : isWordStart c) :
    c.isDigit = false := by
  rw [Bool.eq_false_iff]
  intro hdigit
  have hbelow : (decide (c.val ≥ '0'.val) && decide (c.val ≤ '9'.val)) = true := hdigit
  have hletter : (decide (c.val ≥ 'A'.val ∧ c.val ≤ 'Z'.val) ||
      decide (c.val ≥ 'a'.val) && decide (c.val ≤ 'z'.val) || c == '_') = true := h
  simp only [Bool.or_eq_true, Bool.and_eq_true, decide_eq_true_eq, beq_iff_eq, ge_iff_le,
    UInt32.le_iff_toNat_le] at hbelow hletter
  rcases hletter with hletter | rfl
  · revert hletter hbelow
    simp
    omega
  · revert hbelow
    decide

private theorem first_of_isDigit {c : Char} (h : c.isDigit) (cs : List Char) :
    first c cs = number c cs := by
  have hblank := isBlank_eq_false_of_isWordRest (isWordRest_of_isDigit h)
  simp [first, h, hblank]

private theorem first_of_isWordStart {c : Char} (h : isWordStart c) (cs : List Char) :
    first c cs = word c cs := by
  have hblank := isBlank_eq_false_of_isWordRest (isWordRest_of_isWordStart h)
  simp [first, h, hblank, isDigit_eq_false_of_isWordStart h]

private theorem first_quote (cs : List Char) : first quote cs = quoted cs := rfl

private theorem bne_of_not_mem {c : Char} {cs : List Char} (h : c ∉ cs) :
    ∀ d ∈ cs, (d != c) = true := by
  intro d hd
  rw [bne_iff_ne]
  rintro rfl
  exact h hd

private theorem wordKind_of_mem {text : String} {kind : TokenKind} (h : (text, kind) ∈ keywords) :
    wordKind text.toList = kind := by
  have hall : ∀ k ∈ keywords, wordKind k.1.toList = k.2 := by decide +kernel
  exact hall (text, kind) h

private theorem wordKind_of_not_mem {word : List Char}
    (h : ∀ k ∈ keywords, k.1 ≠ String.ofList word) :
    wordKind word = .identifier := by
  have hnone : keywords.lookup (String.ofList word) = none := by
    rw [List.lookup_eq_none_iff]
    intro k hk
    rw [bne_iff_ne]
    exact (h k hk).symm
  rw [wordKind, hnone, Option.getD_none]

private theorem first_word {c : Char} {cs : List Char} (hc : isWordStart c)
    (hcs : ∀ d ∈ cs, isWordRest d) :
    first c cs = (⟨.token (wordKind (c :: cs)) none, c :: cs⟩, []) := by
  rw [first_of_isWordStart hc, word, List.takeWhile_eq_self_iff.2 hcs,
    List.dropWhile_eq_nil_iff.2 hcs]

private theorem first_keyword {text : String} {kind : TokenKind} (h : (text, kind) ∈ keywords) :
    ∃ c cs, text.toList = c :: cs ∧ first c cs = (⟨.token kind none, c :: cs⟩, []) := by
  have hall : ∀ k ∈ keywords,
      (k.1.toList.head?.any isWordStart && k.1.toList.all isWordRest) = true := by decide
  have hword := hall (text, kind) h
  rw [← wordKind_of_mem h]
  cases hcs : text.toList with
  | nil =>
    rw [hcs] at hword
    cases hword
  | cons c cs =>
    simp only [hcs, List.head?_cons, Option.any_some, List.all_cons, Bool.and_eq_true,
      List.all_eq_true] at hword
    exact ⟨c, cs, rfl, first_word hword.1 hword.2.2⟩

/-- No operator starts like a segment of another kind, comments apart. -/
theorem first_of_symbol {c : Char} {kind : TokenKind} (h : (c, kind) ∈ symbols) {cs : List Char}
    (hcs : c ≠ '/' ∨ cs.head? ≠ some '/') : first c cs = operator c cs := by
  have hall : ∀ k ∈ symbols, isBlank k.1 = false ∧ k.1.isDigit = false ∧ isWordStart k.1 = false ∧
      (k.1 == quote) = false := by decide
  obtain ⟨hblank, hdigit, hword, hquote⟩ := hall (c, kind) h
  have hcomment : (c == '/' && cs.head? == some '/') = false := by
    rcases hcs with hc | hc
    · simp [hc]
    · simp [hc]
  simp [first, hblank, hdigit, hword, hquote, hcomment]

private theorem charKind?_eq_some_iff {c : Char} {kind : TokenKind} :
    charKind? c = some kind ↔ (c, kind) ∈ symbols := by
  constructor
  · intro h
    unfold charKind? at h
    split at h <;> cases h <;> decide
  · have hall : ∀ k ∈ symbols, charKind? k.1 = some k.2 := by decide
    exact hall (c, kind)

private theorem pairKind?_eq_some_iff {c d : Char} {kind : TokenKind} :
    pairKind? c d = some kind ↔ ((c, d), kind) ∈ pairs := by
  constructor
  · intro h
    unfold pairKind? at h
    split at h <;> cases h <;> decide
  · have hall : ∀ k ∈ pairs, pairKind? k.1.1 k.1.2 = some k.2 := by decide
    exact hall ((c, d), kind)

/-- An operator of two characters starts with one of one character. -/
theorem exists_symbol_of_pair {c d : Char} {kind : TokenKind} (h : ((c, d), kind) ∈ pairs) :
    c ≠ '/' ∧ ∃ k, (c, k) ∈ symbols := by
  have hall : ∀ p ∈ pairs, p.1.1 ≠ '/' ∧ ∃ k ∈ symbols, k.1 = p.1.1 := by decide
  obtain ⟨hc, ⟨c', k⟩, hk, rfl⟩ := hall ((c, d), kind) h
  exact ⟨hc, k, hk⟩

/-- A text that matches is scanned as one segment. -/
theorem first_of_matches {kind : SegmentKind} {text : List Char} (h : Matches kind text) :
    ∃ c cs, text = c :: cs ∧ first c cs = (⟨kind, c :: cs⟩, []) := by
  cases h with
  | @symbol c kind h =>
    refine ⟨c, [], rfl, ?_⟩
    rw [first_of_symbol h (.inr (by simp)), operator, single, charKind?_eq_some_iff.2 h]
  | @pair c d kind h =>
    obtain ⟨hc, k, hk⟩ := exists_symbol_of_pair h
    refine ⟨c, [d], rfl, ?_⟩
    rw [first_of_symbol hk (.inl hc), operator, pairKind?_eq_some_iff.2 h]
  | keyword h => exact first_keyword h
  | @identifier c cs hc hcs h =>
    refine ⟨c, cs, rfl, ?_⟩
    rw [first_word hc hcs, wordKind_of_not_mem h]
  | whole hcs hx =>
    obtain ⟨c, cs, rfl⟩ := List.exists_cons_of_ne_nil hcs.1
    obtain rfl := hx.unique (Number.roundsTo_readMantissa_pointed hcs [])
    obtain ⟨hc, hcs⟩ := List.forall_mem_cons.1 hcs.2
    refine ⟨c, cs, rfl, ?_⟩
    simp only [first_of_isDigit hc, number, List.takeWhile_eq_self_iff.2 hcs,
      List.dropWhile_eq_nil_iff.2 hcs, fraction]
    rfl
  | decimal hcs hds hx =>
    obtain ⟨c, cs, rfl⟩ := List.exists_cons_of_ne_nil hcs.1
    obtain ⟨d, ds, rfl⟩ := List.exists_cons_of_ne_nil hds.1
    obtain rfl := hx.unique (Number.roundsTo_readMantissa_pointed hcs (d :: ds))
    obtain ⟨hc, hcs⟩ := List.forall_mem_cons.1 hcs.2
    obtain ⟨hd, hds⟩ := List.forall_mem_cons.1 hds.2
    have hpoint : Char.isDigit '.' = false := by decide
    refine ⟨c, cs ++ '.' :: d :: ds, rfl, ?_⟩
    simp only [first_of_isDigit hc, number, takeWhile_append_cons hpoint,
      dropWhile_append_cons hpoint, List.takeWhile_eq_self_iff.2 hcs,
      List.dropWhile_eq_nil_iff.2 hcs, List.nil_append, fraction, hd, if_true,
      List.takeWhile_eq_self_iff.2 hds, List.dropWhile_eq_nil_iff.2 hds]
    rfl
  | @string cs h =>
    have hall := bne_of_not_mem h
    have htake : (cs ++ [quote]).takeWhile (· != quote) = cs := by
      rw [takeWhile_append_cons (by simp), List.takeWhile_eq_self_iff.2 hall]
    have hdrop : (cs ++ [quote]).dropWhile (· != quote) = [quote] := by
      rw [dropWhile_append_cons (by simp), List.dropWhile_eq_nil_iff.2 hall, List.nil_append]
    refine ⟨quote, cs ++ [quote], rfl, ?_⟩
    simp only [first_quote, quoted, htake, hdrop, List.cons_append]
  | @unterminated cs h =>
    have hall := bne_of_not_mem h
    refine ⟨quote, cs, rfl, ?_⟩
    simp only [first_quote, quoted, List.takeWhile_eq_self_iff.2 hall,
      List.dropWhile_eq_nil_iff.2 hall]
  | @blanks c cs h =>
    obtain ⟨hc, hcs⟩ := List.forall_mem_cons.1 h
    refine ⟨c, cs, rfl, ?_⟩
    rw [first, if_pos hc, blanks, List.takeWhile_eq_self_iff.2 hcs, List.dropWhile_eq_nil_iff.2 hcs]
  | @comment cs h =>
    have hcs : ∀ d ∈ '/' :: cs, (d != '\n') = true := by
      apply bne_of_not_mem
      simp [h]
    refine ⟨'/', '/' :: cs, rfl, ?_⟩
    have hfirst : first '/' ('/' :: cs) = comment '/' ('/' :: cs) := rfl
    rw [hfirst, comment, List.takeWhile_eq_self_iff.2 hcs, List.dropWhile_eq_nil_iff.2 hcs]

private theorem digits_fraction (cs : List Char) : ∀ d ∈ (fraction cs).1, d.isDigit := by
  unfold fraction
  split
  · split
    · next hd => exact List.forall_mem_cons.2 ⟨hd, fun _ => List.mem_takeWhile_imp⟩
    · simp
  · simp

private theorem matches_number {c : Char} (hc : c.isDigit) (cs : List Char) :
    Matches (number c cs).1.kind (number c cs).1.text := by
  have hwhole : IsDigits (c :: cs.takeWhile Char.isDigit) :=
    ⟨List.cons_ne_nil _ _, List.forall_mem_cons.2 ⟨hc, fun _ => List.mem_takeWhile_imp⟩⟩
  have hplaces := digits_fraction (cs.dropWhile Char.isDigit)
  have hliteral := Number.roundsTo_readMantissa_pointed hwhole
  simp only [number]
  cases hp : (fraction (cs.dropWhile Char.isDigit)).1 with
  | nil => exact .whole hwhole (hliteral [])
  | cons d ds =>
    rw [hp] at hplaces
    exact .decimal hwhole ⟨List.cons_ne_nil _ _, hplaces⟩ (hliteral (d :: ds))

private theorem matches_word {c : Char} (hc : isWordStart c) (cs : List Char) :
    Matches (word c cs).1.kind (word c cs).1.text := by
  simp only [word, wordKind]
  cases h : keywords.lookup (String.ofList (c :: cs.takeWhile isWordRest)) with
  | none =>
    apply Matches.identifier hc fun _ => List.mem_takeWhile_imp
    intro k hk
    have hne := List.lookup_eq_none_iff.1 h k hk
    rw [bne_iff_ne] at hne
    exact hne.symm
  | some kind =>
    obtain ⟨before, behind, hsplit, -⟩ := List.lookup_eq_some_iff.1 h
    have hmem : (String.ofList (c :: cs.takeWhile isWordRest), kind) ∈ keywords := by
      rw [hsplit]
      simp
    have hmatches := Matches.keyword hmem
    rw [String.toList_ofList] at hmatches
    exact hmatches

private theorem matches_quoted (cs : List Char) :
    Matches (quoted cs).1.kind (quoted cs).1.text := by
  have hnone : quote ∉ cs.takeWhile (· != quote) := by
    intro h
    have hq : (quote != quote) = true := List.mem_takeWhile_imp (p := (· != quote)) h
    simp at hq
  unfold quoted
  split
  · exact .unterminated hnone
  · next q rest hdrop =>
    have hq : q = quote := by
      have hhead := List.head?_dropWhile_not (· != quote) cs
      rw [hdrop] at hhead
      simpa using hhead
    rw [hq]
    exact .string hnone

private theorem matches_single (c : Char) (cs : List Char) :
    (single c cs).1.kind ≠ .unexpected → Matches (single c cs).1.kind (single c cs).1.text := by
  unfold single
  split
  · next kind hkind => exact fun _ => .symbol (charKind?_eq_some_iff.1 hkind)
  · exact absurd rfl

private theorem matches_operator (c : Char) (cs : List Char) :
    (operator c cs).1.kind ≠ .unexpected →
    Matches (operator c cs).1.kind (operator c cs).1.text := by
  unfold operator
  split
  · split
    · next kind hkind => exact fun _ => .pair (pairKind?_eq_some_iff.1 hkind)
    · exact matches_single c _
  · exact matches_single c []

private theorem matches_comment {c : Char} {cs : List Char}
    (h : (c == '/' && cs.head? == some '/') = true) :
    Matches (comment c cs).1.kind (comment c cs).1.text := by
  simp only [Bool.and_eq_true, beq_iff_eq] at h
  obtain ⟨rfl, hhead⟩ := h
  obtain ⟨ds, rfl⟩ := List.head?_eq_some_iff.1 hhead
  have hends : '\n' ∉ ds.takeWhile (· != '\n') := by
    intro hmem
    have hne : ('\n' != '\n') = true := List.mem_takeWhile_imp (p := (· != '\n')) hmem
    simp at hne
  exact .comment hends

/-- The first segment of a text matches, unless it is unexpected. -/
theorem matches_first (c : Char) (cs : List Char) : (first c cs).1.kind ≠ .unexpected →
    Matches (first c cs).1.kind (first c cs).1.text := by
  unfold first
  split
  · next hc => exact fun _ => .blanks (List.forall_mem_cons.2 ⟨hc, fun _ => List.mem_takeWhile_imp⟩)
  split
  · next hc => exact fun _ => matches_number hc cs
  split
  · next hc => exact fun _ => matches_word hc cs
  split
  · exact fun _ => matches_quoted cs
  split
  · next hc => exact fun _ => matches_comment hc
  · exact matches_operator c cs

private theorem length_dropWhile_append {p : Char → Bool} {cs : List Char} (h : cs.dropWhile p = [])
    (more : List Char) : ((cs ++ more).dropWhile p).length ≤ more.length := by
  rw [List.dropWhile_append, h]
  exact (List.dropWhile_sublist p).length_le

private theorem length_fraction_append {cs : List Char}
    (h : (fraction cs).2 = []) (more : List Char) :
    (fraction (cs ++ more)).2.length ≤ more.length := by
  unfold fraction at h
  split at h
  · next d ds =>
    split at h
    · next hd =>
      simp only [List.cons_append, fraction, hd, if_true]
      exact length_dropWhile_append h more
    · cases h
  · rw [show cs = [] from h]
    exact length_fraction more

private theorem length_number_append {c : Char} {cs : List Char} (h : (number c cs).2 = [])
    (more : List Char) : (number c (cs ++ more)).2.length ≤ more.length := by
  simp only [number, List.dropWhile_append]
  split
  · exact (length_fraction _).trans (List.dropWhile_sublist _).length_le
  · exact length_fraction_append h more

private theorem length_quoted_append {cs : List Char} (h : (quoted cs).2 = []) (more : List Char) :
    (quoted (cs ++ more)).2.length ≤ more.length := by
  by_cases hclosed : (quoted cs).1.kind = .unterminated
  · have hdrop : ((cs ++ more).dropWhile (· != quote)).length ≤ more.length := by
      apply length_dropWhile_append
      rw [kind_quoted_eq_unterminated_iff] at hclosed
      exact List.dropWhile_eq_nil_iff.2 (bne_of_not_mem hclosed)
    unfold quoted
    split
    · exact Nat.zero_le _
    · next q rest hrest =>
      rw [hrest] at hdrop
      exact Nat.le_of_succ_le hdrop
  · rw [quoted_append more hclosed, h]
    exact Nat.le_refl _

private theorem length_operator_append {c d : Char} {cs : List Char}
    (h : (operator c (d :: cs)).2 = [])
    (more : List Char) : (operator c (d :: cs ++ more)).2.length ≤ more.length := by
  simp only [List.cons_append, operator] at h ⊢
  cases hpair : pairKind? c d with
  | some kind =>
    simp only [hpair] at h ⊢
    rw [h]
    exact Nat.le_refl _
  | none =>
    have hsingle : (single c (d :: cs)).2 = d :: cs := by
      unfold single
      split <;> rfl
    simp only [hpair, hsingle] at h
    cases h

/-- A segment that takes a whole text takes no less where there is more. -/
theorem length_first_append {c : Char} {cs : List Char} (more : List Char) :
    (first c cs).2 = [] → (first c (cs ++ more)).2.length ≤ more.length := by
  cases cs with
  | nil => exact fun _ => length_first c more
  | cons d cs =>
    unfold first
    rw [List.cons_append, List.head?_cons, List.head?_cons]
    split
    · exact fun h => length_dropWhile_append (p := isBlank) h more
    split
    · exact fun h => length_number_append h more
    split
    · exact fun h => length_dropWhile_append (p := isWordRest) h more
    split
    · exact fun h => length_quoted_append h more
    split
    · exact fun h => length_dropWhile_append (p := (· != '\n')) h more
    · exact fun h => length_operator_append h more

private theorem Matches.ne_unexpected {kind : SegmentKind} {text : List Char}
    (h : Matches kind text) :
    kind ≠ .unexpected := by
  cases h <;> simp

/-- Nothing that matches at the start of a text is longer than its first segment. -/
theorem length_le_first {kind : SegmentKind} {text : List Char} (h : Matches kind text) {c : Char}
    {cs : List Char} (hpre : text <+: c :: cs) : text.length ≤ (first c cs).1.text.length := by
  obtain ⟨more, hmore⟩ := hpre
  obtain ⟨d, ds, rfl, hfirst⟩ := first_of_matches h
  rw [List.cons_append] at hmore
  obtain ⟨rfl, rfl⟩ := List.cons.inj hmore
  have hrest : (first d (ds ++ more)).2.length ≤ more.length :=
    length_first_append more (by rw [hfirst])
  have htext := congrArg List.length (text_first d (ds ++ more))
  simp only [List.length_append, List.length_cons] at htext ⊢
  omega

private theorem operator_of_unexpected {c : Char} {cs : List Char}
    (h : (operator c cs).1.kind = .unexpected) :
    operator c cs = (⟨.unexpected, [c]⟩, cs) ∧ charKind? c = none := by
  have hsingle (ds : List Char) (h : (single c ds).1.kind = .unexpected) :
      single c ds = (⟨.unexpected, [c]⟩, ds) ∧ charKind? c = none := by
    unfold single at h ⊢
    split at h
    · cases h
    · next hc => exact ⟨rfl, hc⟩
  unfold operator at h ⊢
  split at h
  · split at h
    · cases h
    · exact hsingle _ h
  · exact hsingle [] h

/-- What is unexpected is so whatever follows. -/
theorem first_of_unexpected {c : Char} {cs : List Char} (h : (first c cs).1.kind = .unexpected) :
    first c cs = (⟨.unexpected, [c]⟩, cs) ∧ first c [] = (⟨.unexpected, [c]⟩, []) := by
  have hoperator : first c cs = operator c cs ∧ first c [] = operator c [] := by
    revert h
    unfold first
    split
    · exact nofun
    split
    · next hc => exact fun h => absurd h (matches_number hc cs).ne_unexpected
    split
    · next hc => exact fun h => absurd h (matches_word hc cs).ne_unexpected
    split
    · exact fun h => absurd h (matches_quoted cs).ne_unexpected
    split
    · exact nofun
    · exact fun _ => ⟨rfl, if_neg (by simp)⟩
  rw [hoperator.1] at h ⊢
  obtain ⟨heq, hc⟩ := operator_of_unexpected h
  refine ⟨heq, ?_⟩
  rw [hoperator.2, operator, single, hc]

/-- Nothing matches at an unexpected character. -/
theorem not_matches_of_unexpected {c : Char} {cs : List Char}
    (h : (first c cs).1.kind = .unexpected) {kind : SegmentKind} {text : List Char}
    (hm : Matches kind text) : ¬ text <+: c :: cs := by
  intro hpre
  obtain ⟨hfirst, halone⟩ := first_of_unexpected h
  have hlen := length_le_first hm hpre
  obtain ⟨d, ds, rfl, hself⟩ := first_of_matches hm
  rw [hfirst] at hlen
  have hds : ds = [] := by simpa using hlen
  obtain ⟨rfl, -⟩ := List.cons_prefix_cons.1 hpre
  rw [hds, halone] at hself
  cases hself
  exact hm.ne_unexpected rfl

theorem ofText_of_first {c : Char} {cs rest : List Char} {s : Segment}
    (h : first c cs = (s, rest)) :
    ofText (c :: cs) = s :: ofText rest := by
  rw [ofText, h]

/-- A text is scanned into segments that are longest matches. -/
theorem segmentation_ofText (cs : List Char) : Segmentation cs (ofText cs) := by
  induction hk : cs.length using Nat.strongRecOn generalizing cs with
  | ind k ih =>
    subst hk
    cases cs with
    | nil =>
      rw [ofText]
      exact .nil
    | cons c cs =>
      have hrest := ih _ (Nat.lt_succ_of_le (length_first c cs)) _ rfl
      rw [ofText]
      by_cases h : (first c cs).1.kind = .unexpected
      · rw [(first_of_unexpected h).1] at hrest ⊢
        exact .unexpected (fun kind text => not_matches_of_unexpected h) hrest
      · have hlongest : ∀ kind text, Matches kind text →
            text <+: (first c cs).1.text ++ (first c cs).2 →
            text.length ≤ (first c cs).1.text.length := by
          intro kind text hm hpre
          rw [text_first] at hpre
          exact length_le_first hm hpre
        have hall := Segmentation.longest (matches_first c cs h) hlongest hrest
        rwa [text_first] at hall

theorem Segmentation.flatMap_text {cs : List Char} {ss : List Segment} (h : Segmentation cs ss) :
    ss.flatMap text = cs := by
  induction h with
  | nil => rfl
  | longest _ _ _ ih => rw [List.flatMap_cons, ih]
  | unexpected _ _ ih =>
    rw [List.flatMap_cons, ih]
    rfl

end Segment

namespace Scan

open Segment

end Scan

end Scriptlet
