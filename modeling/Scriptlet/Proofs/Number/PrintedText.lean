import Mathlib
import Scriptlet.Proofs.Number.DecimalText
import Scriptlet.Proofs.Token.LongestMatch
import Scriptlet.Token.Scan
import Scriptlet.Value

namespace Scriptlet

namespace Number

open Binary64 Decimal

/-- Text of a shape, with or without a minus sign before it. -/
def Shaped (shape : List Char → Prop) (text : String) : Prop :=
  ∃ negative digits, shape digits ∧ text = signed negative digits

/-- The sign and the size of the number that a text shows. -/
def read (text : String) : Bool × ℚ :=
  match text.toList with
  | '-' :: cs => (true, readSize cs)
  | cs => (false, readSize cs)

private theorem toList_signed (negative : Bool) (cs : List Char) :
    (signed negative cs).toList = if negative then '-' :: cs else cs :=
  String.toList_ofList

section

variable {negative : Bool} {cs : List Char} (h : cs.head? ≠ some '-')

include h

private theorem read_signed : read (signed negative cs) = (negative, readSize cs) := by
  rw [read, toList_signed]
  cases negative with
  | true => rfl
  | false =>
    split
    next ds heq =>
      have hcs : cs = '-' :: ds := heq
      simp [hcs] at h
    next => rfl

private theorem signed_inj {negative' : Bool} {cs' : List Char} (h' : cs'.head? ≠ some '-')
    (heq : signed negative cs = signed negative' cs') : negative = negative' ∧ cs = cs' := by
  have hlists := congrArg String.toList heq
  rw [toList_signed, toList_signed] at hlists
  cases negative <;> cases negative' <;> simp at hlists
  case false.false => exact ⟨rfl, hlists⟩
  case false.true => simp [hlists] at h
  case true.false => simp [← hlists] at h'
  case true.true => exact ⟨rfl, hlists⟩

end

/-- Text of either shape starts with a digit. -/
theorem isDigit_head {cs : List Char} (h : IsPositional cs ∨ IsScientific cs) :
    ∃ c, cs.head? = some c ∧ c.isDigit := by
  have hdigits {ds : List Char} (h : IsDigits ds) : ∃ c, ds.head? = some c ∧ c.isDigit := by
    obtain ⟨c, ds, rfl⟩ := List.exists_cons_of_ne_nil h.1
    exact ⟨c, rfl, h.2 c List.mem_cons_self⟩
  rcases h with (h | ⟨whole, places, hwhole, -, -, rfl⟩) | ⟨lead, places, exponent, hlead, -, -, -, rfl⟩
  · exact hdigits h
  · obtain ⟨c, hhead, hc⟩ := hdigits hwhole
    exact ⟨c, by rw [List.head?_append, hhead]; rfl, hc⟩
  · exact ⟨lead, rfl, hlead⟩

private theorem head_ne_minus {cs : List Char} (h : IsPositional cs ∨ IsScientific cs) :
    cs.head? ≠ some '-' := by
  obtain ⟨c, hhead, hc⟩ := isDigit_head h
  rw [hhead]
  rintro ⟨⟩
  exact absurd hc (by decide)

private theorem not_shaped_both {text : String} (hplain : Shaped IsPositional text) :
    ¬Shaped IsScientific text := by
  rintro ⟨negative', digits', hdigits', htext⟩
  obtain ⟨negative, digits, hdigits, rfl⟩ := hplain
  obtain ⟨-, rfl⟩ := signed_inj (head_ne_minus (.inl hdigits)) (head_ne_minus (.inr hdigits')) htext
  exact hdigits'.not_isPositional hdigits

/-- Zero, or at least a thousandth and less than ten million. -/
def IsOrdinary (x : Float) : Prop := size x = 0 ∨ 1 / 1000 ≤ size x ∧ size x < 10 ^ 7

private theorem isOrdinary_iff {x : Float} (hx : pattern x ≤ infinity) :
    isOrdinary (pattern x) = true ↔ IsOrdinary x := by
  have hunits : (0 : ℚ) < unitsPerOne := by exact_mod_cast unitsPerOne_pos
  have hsize := size_eq hx
  have hzero : pattern x = 0 ↔ size x = 0 := by
    have hmagnitude : magnitude (pattern x) = 0 ↔ pattern x = 0 := strictMono_magnitude.injective.eq_iff' rfl
    rw [← hmagnitude, ← Nat.cast_eq_zero (R := ℚ), ← hsize, mul_eq_zero, or_iff_left hunits.ne']
  have hlow : unitsPerOne ≤ 1000 * magnitude (pattern x) ↔ 1 / 1000 ≤ size x := by
    rw [← Nat.cast_le (α := ℚ), Nat.cast_mul, ← hsize, ← mul_assoc, le_mul_iff_one_le_left hunits,
      div_le_iff₀ (by decide), mul_comm]
    rfl
  have hhigh : magnitude (pattern x) < Nat.pow 10 7 * unitsPerOne ↔ size x < 10 ^ 7 := by
    rw [← Nat.cast_lt (α := ℚ), Nat.cast_mul, ← hsize, mul_lt_mul_iff_left₀ hunits, Nat.pow_eq]
    norm_num
  rw [IsOrdinary, ← hzero, ← hlow, ← hhigh, isOrdinary]
  simp

/-- The text of a finite pattern, without a sign. -/
def unsignedText (p : Nat) : List Char :=
  if isOrdinary p then (shortest p).positional else (shortest p).scientific

section

variable {p : Nat} (hp : p < infinity)

include hp

private theorem isPositional_positional : IsPositional (shortest p).positional := by
  obtain ⟨whole, places, hparts, heq⟩ := (shortest p).positional_parts
  rw [heq]
  apply hparts.isPositional_pointed
  rcases Nat.eq_zero_or_pos p with rfl | hpos
  · exact .inr rfl
  · exact .inl (coefficient_shortest hp hpos)

private theorem isScientific_of_not_isOrdinary (h : isOrdinary p = false) :
    IsScientific (shortest p).scientific := by
  have hpos : 0 < p := by
    rcases Nat.eq_zero_or_pos p with rfl | hpos
    · cases h
    · exact hpos
  have hcoefficient := coefficient_shortest hp hpos
  exact isScientific_scientific _ (by omega)

private theorem shape_unsignedText : IsPositional (unsignedText p) ∨
    IsScientific (unsignedText p) := by
  unfold unsignedText
  split
  next => exact .inl (isPositional_positional hp)
  next h => exact .inr (isScientific_of_not_isOrdinary hp (eq_false_of_ne_true h))

end

private theorem readSize_unsignedText (p : Nat) :
    readSize (unsignedText p) = (shortest p).value := by
  unfold unsignedText
  split
  next =>
    obtain ⟨whole, places, hparts, heq⟩ := (shortest p).positional_parts
    rw [heq, hparts.readSize_pointed]
  next => exact (shortest p).readSize_scientific

section

variable {v : Float} (hv : pattern v < infinity)

include hv

private theorem text_of_finite : text v = signed (isNegative v) (unsignedText (pattern v)) := by
  rw [text, if_neg hv.asymm, if_neg hv.ne]
  rfl

private theorem read_text : read (text v) = (isNegative v, (shortest (pattern v)).value) := by
  rw [text_of_finite hv, read_signed (head_ne_minus (shape_unsignedText hv)), readSize_unsignedText]

private theorem roundsTo_read_text (x : Float) :
    RoundsTo (read (text v)).1 (read (text v)).2 x ↔ x = v := by
  have hself : RoundsTo (read (text v)).1 (read (text v)).2 v := by
    rw [read_text hv, roundsTo_iff]
    exact ⟨rfl, isNearest_shortest hv⟩
  constructor
  · exact fun hx => hx.unique hself
  · rintro rfl
    exact hself

end

private theorem text_of_infinity_le {w : Float} (hw : infinity ≤ pattern w) :
    ∃ negative cs c, text w = signed negative cs ∧ cs.head? = some c ∧ c.isDigit = false ∧ c ≠ '-' := by
  rcases hw.lt_or_eq with hlt | heq
  · refine ⟨false, "NaN".toList, 'N', ?_, rfl, rfl, by decide⟩
    rw [text, if_pos hlt]
    rfl
  · refine ⟨isNegative w, "Infinity".toList, 'I', ?_, rfl, rfl, by decide⟩
    rw [text, if_neg heq.not_lt, if_pos heq.symm]

/-- No other float has the same text, be it finite or not. -/
theorem text_injective_at {v w : Float} (hv : pattern v < infinity) (h : text w = text v) :
    w = v := by
  rcases Nat.lt_or_ge (pattern w) infinity with hw | hw
  · rw [← roundsTo_read_text hv, ← h, roundsTo_read_text hw]
  · exfalso
    obtain ⟨negative, cs, c, htext, hhead, hdigit, hminus⟩ := text_of_infinity_le hw
    rw [htext, text_of_finite hv] at h
    have hne : cs.head? ≠ some '-' := by
      rw [hhead]
      rintro ⟨⟩
      exact hminus rfl
    obtain ⟨-, rfl⟩ := signed_inj hne (head_ne_minus (shape_unsignedText hv)) h
    obtain ⟨c', hhead', hdigit'⟩ := isDigit_head (shape_unsignedText hv)
    rw [hhead] at hhead'
    cases hhead'
    simp [hdigit] at hdigit'

/-- Digits that may have a point between them are a number of the language. -/
theorem matches_pointed {whole places : List Char} (hwhole : IsDigits whole)
    (hplaces : ∀ c ∈ places, c.isDigit) : Segment.Matches
      (.token .number (some (.number (ofDigits whole places)))) (pointed whole places) := by
  have hliteral := roundsTo_readMantissa_pointed hwhole places
  unfold pointed at hliteral ⊢
  split
  next hnil =>
    rw [if_pos hnil] at hliteral
    exact .whole hwhole hliteral
  next hne =>
    rw [if_neg hne] at hliteral
    exact .decimal hwhole ⟨hne, hplaces⟩ hliteral

private theorem ofDigits_of_parts {p : Nat} (hp : p < infinity) {whole places : List Char}
    (h : (shortest p).Parts whole places) : ofDigits whole places = ofPattern false p := by
  have hread := roundsTo_ofDigits whole places
  rw [h.value_eq] at hread
  apply hread.unique
  rw [roundsTo_iff, isNegative_ofPattern false hp.le, pattern_ofPattern false hp.le]
  exact ⟨rfl, isNearest_shortest hp⟩

end Number

/-- A token that is all of a text on one line. -/
theorem Scan.ofText_of_matches {kind : TokenKind} {literal : Option Literal} {text : List Char}
    (h : Segment.Matches (.token kind literal) text) (hline : '\n' ∉ text) :
    Scan.ofText (String.ofList text) =
      ⟨[⟨kind, String.ofList text, literal, 1⟩, Scan.eof 1], []⟩ := by
  have hcount : text.count '\n' = 0 := List.count_eq_zero.2 hline
  obtain ⟨c, cs, rfl, hfirst⟩ := Segment.first_of_matches h
  have hsegments : Segment.ofText (c :: cs) = [⟨.token kind literal, c :: cs⟩] := by
    rw [Segment.ofText_of_first hfirst, Segment.ofText]
  rw [Scan.ofText, String.toList_ofList, Scan.ofChars, hsegments]
  simp [Segment.withLines, Segment.lineEnds, hcount, Segment.token?, Segment.error?]

namespace Number

open Binary64 Decimal

private theorem scan_text_of_isOrdinary {v : Float} (hv : pattern v < infinity)
    (hordinary : isOrdinary (pattern v) = true) : Scan.ofText (text v.abs) =
      ⟨[⟨.number, text v.abs, some (.number v.abs), 1⟩, Scan.eof 1], []⟩ := by
  have hpattern : pattern v.abs = pattern v := by
    rw [abs_eq hv, pattern_ofPattern false hv.le]
  have hsign : isNegative v.abs = false := by
    rw [abs_eq hv, isNegative_ofPattern false hv.le]
  obtain ⟨whole, places, hparts, hpositional⟩ := (shortest (pattern v)).positional_parts
  have htext : text v.abs = String.ofList (pointed whole places) := by
    rw [text_of_finite (hpattern ▸ hv), hsign, hpattern, unsignedText, if_pos hordinary, hpositional]
    rfl
  have hliteral : v.abs = ofDigits whole places := by
    rw [abs_eq hv, ofDigits_of_parts hv hparts]
  have hmatches := matches_pointed hparts.isDigits_whole hparts.isDigit_places
  have hline : '\n' ∉ pointed whole places := by
    have hwhole := hparts.isDigits_whole.not_mem (d := '\n') rfl
    have hplaces : '\n' ∉ places := fun hmem => ne_of_isDigit (hparts.isDigit_places _ hmem) rfl rfl
    unfold pointed
    split <;> simp [hwhole, hplaces]
  rw [htext, hliteral]
  exact Scan.ofText_of_matches hmatches hline

/-- The text of a finite float shows its sign and a number that is rounded to it and to no other
float. Without exponent and sign it is one number token. -/
theorem text_reads_back (v : Float) (hv : v.isFinite = true) :
    (Shaped IsPositional (Value.number v).text ↔ IsOrdinary v) ∧
    (Shaped IsScientific (Value.number v).text ↔ ¬IsOrdinary v) ∧
    (∀ x, RoundsTo (read (Value.number v).text).1 (read (Value.number v).text).2 x ↔ x = v) ∧
    (∀ w, (Value.number w).text = (Value.number v).text → w = v) ∧
    (IsOrdinary v → Scan.ofText (Value.number v.abs).text =
      ⟨[⟨.number, (Value.number v.abs).text, some (.number v.abs), 1⟩, Scan.eof 1], []⟩) := by
  have hv := isFinite_iff.1 hv
  have hordinary := isOrdinary_iff hv.le
  have hplain (h : IsOrdinary v) : Shaped IsPositional (text v) := by
    refine ⟨isNegative v, _, isPositional_positional hv, ?_⟩
    rw [text_of_finite hv, unsignedText, if_pos (hordinary.2 h)]
  have hscientific (h : ¬IsOrdinary v) : Shaped IsScientific (text v) := by
    rw [← hordinary] at h
    refine ⟨isNegative v, _, isScientific_of_not_isOrdinary hv (eq_false_of_ne_true h), ?_⟩
    rw [text_of_finite hv, unsignedText, if_neg h]
  refine ⟨⟨fun h => ?_, hplain⟩, ⟨fun h hsize => ?_, hscientific⟩, roundsTo_read_text hv, fun w h => ?_,
    fun h => ?_⟩
  · by_contra hsize
    exact not_shaped_both h (hscientific hsize)
  · exact not_shaped_both (hplain hsize) h
  · exact text_injective_at hv h
  · exact scan_text_of_isOrdinary hv (hordinary.2 h)

theorem text_reads_back_at_negative_tenth :
    (-0.1 : Float).isFinite = true ∧ Shaped IsPositional "-0.1" ∧ ¬Shaped IsScientific "-0.1" ∧
    (∀ x, RoundsTo (read "-0.1").1 (read "-0.1").2 x ↔ x = -0.1) ∧
    (∀ w, (Value.number w).text = "-0.1" → w = -0.1) ∧
    Scan.ofText "0.1" = ⟨[⟨.number, "0.1", some (.number 0.1), 1⟩, Scan.eof 1], []⟩ := by
  have hfinite : (-0.1 : Float).isFinite = true := by decide +kernel
  have hsize : IsOrdinary (-0.1) := (isOrdinary_iff (by decide +kernel)).1 (by decide +kernel)
  have htext : (Value.number (-0.1)).text = "-0.1" := by decide +kernel
  have habs : (-0.1 : Float).abs = 0.1 := by decide +kernel
  have htextAbs : (Value.number 0.1).text = "0.1" := by decide +kernel
  obtain ⟨hplain, hscientific, hread, hsame, hscan⟩ := text_reads_back (-0.1) hfinite
  rw [htext] at hplain hscientific hread hsame
  rw [habs, htextAbs] at hscan
  exact ⟨hfinite, hplain.2 hsize, fun h => hscientific.1 h hsize, hread, hsame, hscan hsize⟩

example : (Value.number (.ofBits 1)).text = "5.0E-324" := by decide +kernel

end Number

end Scriptlet
