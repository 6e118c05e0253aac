import Mathlib
import Scriptlet.Proofs.Number.Shortest

namespace Scriptlet.Decimal

def IsDigits (cs : List Char) : Prop := cs ≠ [] ∧ ∀ c ∈ cs, c.isDigit

/-- Digits, or digits on both sides of a point, after the point not just a zero. -/
def IsPositional (cs : List Char) : Prop :=
  IsDigits cs ∨
  ∃ whole places, IsDigits whole ∧ IsDigits places ∧ places ≠ ['0'] ∧ cs = whole ++ '.' :: places

/-- An integer as it is written: no sign but that of a negative one, and no padding. -/
def IsExponent (cs : List Char) : Prop :=
  ∃ ds, IsDigits ds ∧ (ds.head? = some '0' → ds = ['0']) ∧ (cs = ds ∨ cs = '-' :: ds)

/-- One digit that is not zero, a point, more digits, and an exponent. -/
def IsScientific (cs : List Char) : Prop :=
  ∃ lead places exponent, lead.isDigit ∧ lead ≠ '0' ∧ IsDigits places ∧ IsExponent exponent ∧
    cs = lead :: '.' :: places ++ 'E' :: exponent

theorem ne_of_isDigit {c d : Char} (hc : c.isDigit) (hd : d.isDigit = false) : c ≠ d := by
  rintro rfl
  simp [hc] at hd

theorem IsDigits.not_mem {cs : List Char} (h : IsDigits cs) {d : Char} (hd : d.isDigit = false) :
    d ∉ cs := fun hmem => ne_of_isDigit (h.2 d hmem) hd rfl

private theorem IsPositional.not_mem_E {cs : List Char} (h : IsPositional cs) : 'E' ∉ cs := by
  rcases h with h | ⟨whole, places, hwhole, hplaces, -, rfl⟩
  · exact h.not_mem rfl
  · have hw := hwhole.not_mem (d := 'E') rfl
    have hp := hplaces.not_mem (d := 'E') rfl
    simp [hw, hp]

/-- The two shapes exclude each other. -/
theorem IsScientific.not_isPositional {cs : List Char} (h : IsScientific cs) :
    ¬IsPositional cs := by
  obtain ⟨lead, places, exponent, -, -, -, -, rfl⟩ := h
  exact fun hpositional => hpositional.not_mem_E (by simp)

/-- What stands before the first occurrence of a character, and what stands behind it. -/
def cutAt (d : Char) (cs : List Char) : List Char × List Char :=
  (cs.takeWhile (· != d), (cs.dropWhile (· != d)).tail)

/-- A digit sequence that may have a point. -/
def readMantissa (cs : List Char) : ℚ :=
  let (whole, places) := cutAt '.' cs
  Nat.ofDigitChars 10 (whole ++ places) 0 / 10 ^ places.length

def readExponent : List Char → ℤ
  | '-' :: ds => -Nat.ofDigitChars 10 ds 0
  | ds => Nat.ofDigitChars 10 ds 0

/-- A number without a sign: `E` stands before the power of ten, which is zero where there is no `E`. -/
def readSize (cs : List Char) : ℚ :=
  let (mantissa, exponent) := cutAt 'E' cs
  readMantissa mantissa * 10 ^ readExponent exponent

private theorem cutAt_append {d : Char} {cs : List Char} (h : d ∉ cs) (ds : List Char) :
    cutAt d (cs ++ d :: ds) = (cs, ds) := by
  have hbefore : ∀ c ∈ cs, (c != d) = true := fun c hc => bne_iff_ne.2 (ne_of_mem_of_not_mem hc h)
  rw [cutAt, List.takeWhile_append_of_pos hbefore, List.dropWhile_append_of_pos hbefore]
  simp

private theorem cutAt_of_not_mem {d : Char} {cs : List Char} (h : d ∉ cs) :
    cutAt d cs = (cs, []) := by
  have hbefore : ∀ c ∈ cs, (c != d) = true := fun c hc => bne_iff_ne.2 (ne_of_mem_of_not_mem hc h)
  rw [cutAt, List.takeWhile_eq_self_iff.2 hbefore, List.dropWhile_eq_nil_iff.2 hbefore]
  rfl

private theorem isDigits_toDigits (n : Nat) : IsDigits (Nat.toDigits 10 n) :=
  ⟨Nat.toDigits_ne_nil, fun _ hc => Nat.isDigit_of_mem_toDigits (by decide) (by decide) hc⟩

/-- Only zero is written with a zero in front. -/
theorem eq_zero_of_head_toDigits {n : Nat} (h : (Nat.toDigits 10 n).head? = some '0') : n = 0 := by
  induction n using Nat.strong_induction_on with
  | _ n ih =>
    rcases Nat.lt_or_ge n 10 with hsmall | hlarge
    · rw [Nat.toDigits_of_lt_base hsmall] at h
      interval_cases n <;> first | rfl | exact absurd h (by decide)
    · rw [Nat.toDigits_of_base_le (by decide) hlarge, List.head?_append_of_ne_nil _ Nat.toDigits_ne_nil] at h
      have := ih (n / 10) (by omega) h
      omega

private theorem toList_toString (z : ℤ) : (toString z).toList =
    if 0 ≤ z then Nat.toDigits 10 z.toNat else '-' :: Nat.toDigits 10 (-z).toNat := by
  rw [Int.toString_eq_repr, Int.repr_eq_if]
  split
  · exact Nat.toList_repr
  · rw [String.toList_append, Nat.toList_repr]
    rfl

private theorem isExponent_toString (z : ℤ) : IsExponent (toString z).toList := by
  have hpadding (n : Nat) (h : (Nat.toDigits 10 n).head? = some '0') : Nat.toDigits 10 n = ['0'] := by
    rw [eq_zero_of_head_toDigits h]
    rfl
  rw [toList_toString]
  split
  · exact ⟨_, isDigits_toDigits _, hpadding _, .inl rfl⟩
  · exact ⟨_, isDigits_toDigits _, hpadding _, .inr rfl⟩

private theorem readExponent_toString (z : ℤ) : readExponent (toString z).toList = z := by
  rw [toList_toString]
  split
  · next hz =>
    unfold readExponent
    split
    · next ds heq =>
      have hminus : '-' ∉ Nat.toDigits 10 z.toNat := (isDigits_toDigits _).not_mem rfl
      simp [heq] at hminus
    · rw [Nat.ofDigitChars_ten_toDigits, Int.toNat_of_nonneg hz]
  · next hz =>
    rw [readExponent, Nat.ofDigitChars_ten_toDigits]
    omega

/-- Text with a point where something stands behind it. -/
def pointed (whole places : List Char) : List Char :=
  if places = [] then whole else whole ++ '.' :: places

private theorem readMantissa_pointed {whole : List Char} (hwhole : IsDigits whole)
    (places : List Char) :
    readMantissa (pointed whole places) =
      Nat.ofDigitChars 10 (whole ++ places) 0 / 10 ^ places.length := by
  have hpoint := hwhole.not_mem (d := '.') rfl
  have hcut : cutAt '.' (pointed whole places) = (whole, places) := by
    unfold pointed
    split
    next hnil => rw [cutAt_of_not_mem hpoint, hnil]
    next hne => exact cutAt_append hpoint places
  rw [readMantissa, hcut]

/-- The digits on the two sides of the point. -/
structure Parts (d : Decimal) (whole places : List Char) : Prop where
  isDigits_whole : IsDigits whole
  isDigit_places : ∀ c ∈ places, c.isDigit
  length_places : places.length = (-d.exponent).toNat
  ofDigitChars : Nat.ofDigitChars 10 (whole ++ places) 0 = d.coefficient * 10 ^ d.exponent.toNat

section

variable (d : Decimal)

private theorem isDigits_digits : IsDigits d.digits := isDigits_toDigits d.coefficient

private theorem ofDigitChars_digits : Nat.ofDigitChars 10 d.digits 0 = d.coefficient :=
  Nat.ofDigitChars_ten_toDigits

private theorem isDigit_zeros {n : Nat} : ∀ c ∈ zeros n, c.isDigit := by
  intro c hc
  rw [(List.mem_replicate.1 hc).2]
  rfl

private theorem parts_integer (h : (-d.exponent).toNat = 0) :
    Parts d (d.digits ++ zeros d.exponent.toNat) [] := by
  refine ⟨⟨?_, ?_⟩, ?_, h.symm, ?_⟩
  · exact List.append_ne_nil_of_left_ne_nil d.isDigits_digits.1 _
  · exact List.forall_mem_append.2 ⟨d.isDigits_digits.2, isDigit_zeros⟩
  · exact List.forall_mem_nil _
  · rw [List.append_nil, Nat.ofDigitChars_append, ofDigitChars_digits, zeros, Nat.ofDigitChars_replicate_zero,
      Nat.mul_comm]

private theorem parts_pointed (h : (-d.exponent).toNat ≠ 0) (hlength : (-d.exponent).toNat <
    d.digits.length) :
    Parts d (d.digits.take (d.digits.length - (-d.exponent).toNat))
      (d.digits.drop (d.digits.length - (-d.exponent).toNat)) := by
  refine ⟨⟨?_, ?_⟩, ?_, ?_, ?_⟩
  · rw [← List.length_pos_iff, List.length_take]
    omega
  · exact fun c hc => d.isDigits_digits.2 c (List.mem_of_mem_take hc)
  · exact fun c hc => d.isDigits_digits.2 c (List.mem_of_mem_drop hc)
  · rw [List.length_drop]
    omega
  · have hexponent : d.exponent.toNat = 0 := by omega
    rw [List.take_append_drop, ofDigitChars_digits, hexponent, Nat.pow_zero, Nat.mul_one]

private theorem parts_small (h : (-d.exponent).toNat ≠ 0) (hlength : d.digits.length ≤
    (-d.exponent).toNat) :
    Parts d ['0'] (zeros ((-d.exponent).toNat - d.digits.length) ++ d.digits) := by
  refine ⟨⟨?_, ?_⟩, ?_, ?_, ?_⟩
  · exact List.cons_ne_nil _ _
  · exact List.forall_mem_singleton.2 rfl
  · exact List.forall_mem_append.2 ⟨isDigit_zeros, d.isDigits_digits.2⟩
  · rw [List.length_append, zeros, List.length_replicate]
    omega
  · have hexponent : d.exponent.toNat = 0 := by omega
    have hzero : Nat.ofDigitChars 10 ['0'] 0 = 0 := rfl
    rw [Nat.ofDigitChars_append, Nat.ofDigitChars_append, hzero, zeros, Nat.ofDigitChars_replicate_zero,
      Nat.mul_zero, ofDigitChars_digits, hexponent, Nat.pow_zero, Nat.mul_one]

theorem positional_parts :
    ∃ whole places, Parts d whole places ∧ d.positional = pointed whole places := by
  have hne := d.isDigits_digits.1
  simp only [positional]
  split
  · next h => exact ⟨_, _, d.parts_integer h, rfl⟩
  · next h =>
    split
    · next hlength =>
      have hplaces : d.digits.drop (d.digits.length - (-d.exponent).toNat) ≠ [] := by
        rw [← List.length_pos_iff, List.length_drop]
        omega
      exact ⟨_, _, d.parts_pointed h hlength, (if_neg hplaces).symm⟩
    · next hlength =>
      have hplaces := List.append_ne_nil_of_right_ne_nil
        (zeros ((-d.exponent).toNat - d.digits.length)) hne
      exact ⟨_, _, d.parts_small h (Nat.le_of_not_lt hlength), (if_neg hplaces).symm⟩

end

section

variable {d : Decimal} {whole places : List Char} (h : Parts d whole places)

include h

/-- From its parts one reads the decimal. -/
theorem Parts.value_eq : (Nat.ofDigitChars 10 (whole ++ places) 0 / 10 ^ places.length : ℚ) =
    d.value := by
  have hten : (10 : ℚ) ≠ 0 := by decide
  rw [h.ofDigitChars, h.length_places, value]
  push_cast
  rw [pow_toNat hten, mul_div_assoc, mul_div_assoc, div_self (pow_ne_zero _ hten), mul_one]

theorem Parts.readSize_pointed : readSize (pointed whole places) = d.value := by
  have hwhole := h.isDigits_whole.not_mem (d := 'E') rfl
  have hplaces : 'E' ∉ places := fun hmem => ne_of_isDigit (h.isDigit_places _ hmem) rfl rfl
  have hE : 'E' ∉ pointed whole places := by
    unfold pointed
    split <;> simp [hwhole, hplaces]
  rw [readSize, cutAt_of_not_mem hE]
  simp [readMantissa_pointed h.isDigits_whole, h.value_eq, readExponent]

theorem Parts.isPositional_pointed (hcoefficient : d.coefficient % 10 ≠ 0 ∨ d.exponent = 0) :
    IsPositional (pointed whole places) := by
  unfold pointed
  split
  next => exact .inl h.isDigits_whole
  next hne =>
    refine .inr ⟨whole, places, h.isDigits_whole, ⟨hne, h.isDigit_places⟩, ?_, rfl⟩
    rintro rfl
    have hlength : 1 = (-d.exponent).toNat := h.length_places
    have hexponent : d.exponent.toNat = 0 := by omega
    have hvalue := h.ofDigitChars
    rw [Nat.ofDigitChars_append, hexponent, Nat.pow_zero, Nat.mul_one] at hvalue
    have hzero : 10 * Nat.ofDigitChars 10 whole 0 = d.coefficient := hvalue
    omega

end

/-- The mantissa of scientific text: one digit before the point, at least one behind it. -/
theorem scientific_parts (d : Decimal) : ∃ lead places, ∃ z : ℤ,
    d.scientific = lead :: '.' :: places ++ 'E' :: (toString z).toList ∧
    d.digits.head? = some lead ∧ IsDigits places ∧
    (Nat.ofDigitChars 10 (lead :: places) 0 / 10 ^ places.length * 10 ^ z : ℚ) = d.value := by
  have hten : (10 : ℚ) ≠ 0 := by decide
  have hdigits := d.isDigits_digits
  have hvalue := d.ofDigitChars_digits
  obtain ⟨lead, rest, hcons⟩ := List.exists_cons_of_ne_nil hdigits.1
  refine ⟨lead, if rest.isEmpty then ['0'] else rest, d.exponent + rest.length, ?_, ?_, ?_⟩
  · rw [scientific, hcons]
  · rw [hcons]
    rfl
  rw [hcons] at hdigits hvalue
  cases rest with
  | nil =>
    have hmore : Nat.ofDigitChars 10 [lead, '0'] 0 = 10 * d.coefficient := by
      rw [← hvalue]
      rfl
    refine ⟨⟨List.cons_ne_nil _ _, List.forall_mem_singleton.2 rfl⟩, ?_⟩
    have hplaces : (if ([] : List Char).isEmpty then ['0'] else []) = ['0'] := rfl
    rw [hplaces, hmore, value]
    simp
  | cons c cs =>
    refine ⟨⟨List.cons_ne_nil _ _, fun c' hc => hdigits.2 c' (List.mem_cons_of_mem _ hc)⟩, ?_⟩
    have hplaces : (if (c :: cs).isEmpty then ['0'] else c :: cs) = c :: cs := rfl
    rw [hplaces, hvalue, value, zpow_add₀ hten, zpow_natCast]
    field_simp

section

variable (d : Decimal)

theorem readSize_scientific : readSize d.scientific = d.value := by
  obtain ⟨lead, places, z, htext, hhead, hplaces, hvalue⟩ := d.scientific_parts
  have hlead : lead.isDigit := d.isDigits_digits.2 lead (List.mem_of_head? hhead)
  have hpoint : '.' ∉ [lead] := by
    rw [List.mem_singleton]
    exact (ne_of_isDigit hlead rfl).symm
  have hE : 'E' ∉ lead :: '.' :: places := by
    have hplacesE := hplaces.not_mem (d := 'E') rfl
    have hleadE : 'E' ≠ lead := (ne_of_isDigit hlead rfl).symm
    simp [hplacesE, hleadE]
  rw [htext, readSize, cutAt_append hE]
  dsimp only
  rw [readMantissa, readExponent_toString]
  have hcut : cutAt '.' (lead :: '.' :: places) = ([lead], places) := cutAt_append hpoint places
  rw [hcut]
  exact hvalue

theorem isScientific_scientific (hd : 0 < d.coefficient) : IsScientific d.scientific := by
  obtain ⟨lead, places, z, htext, hhead, hplaces, -⟩ := d.scientific_parts
  refine ⟨lead, places, _, d.isDigits_digits.2 lead (List.mem_of_head? hhead), ?_, hplaces,
    isExponent_toString z, htext⟩
  rintro rfl
  exact hd.ne' (eq_zero_of_head_toDigits hhead)

end

end Scriptlet.Decimal

namespace Scriptlet.Number

open Binary64 Decimal

theorem roundsTo_ofDigits (whole places : List Char) : RoundsTo false
    (Nat.ofDigitChars 10 (whole ++ places) 0 / 10 ^ places.length) (ofDigits whole places) := by
  have hten : 0 < Nat.pow 10 places.length := Nat.pow_pos (by decide)
  have hnearest := isNearest_nearest hten (Nat.ofDigitChars 10 (whole ++ places) 0)
  rw [roundsTo_iff, ofDigits, isNegative_ofPattern false hnearest.1, pattern_ofPattern false hnearest.1,
    div_mul_eq_mul_div]
  refine ⟨rfl, ?_⟩
  have hpower : ((Nat.pow 10 places.length : Nat) : ℚ) = 10 ^ places.length := by
    rw [Nat.pow_eq]
    push_cast
    rfl
  rwa [hpower] at hnearest

/-- A digit sequence is read as the number it shows, rounded. -/
theorem roundsTo_readMantissa_pointed {whole : List Char} (hwhole : IsDigits whole)
    (places : List Char) :
    RoundsTo false (readMantissa (pointed whole places)) (ofDigits whole places) := by
  rw [readMantissa_pointed hwhole]
  exact roundsTo_ofDigits whole places

end Scriptlet.Number
