import Scriptlet.Number.Word
import Scriptlet.Proofs.Number.Pattern

namespace Scriptlet

open Float.Model.UnpackedFloat (Sign)

namespace Number

/-- The integer part of a float, kept between the least and the greatest 32-bit integer. What is no
number counts as zero. -/
def truncated (x : Float) : Int :=
  match x.toModel.unpack with
  | .notANumber => 0
  | .infinity .positive => 2 ^ 31 - 1
  | .infinity .negative => -2 ^ 31
  | .zero _ => 0
  | .finite s m e _ =>
    let whole : Nat := m * 2 ^ e.toNat / 2 ^ (-e).toNat
    max (-2 ^ 31) (min (2 ^ 31 - 1) (s.apply whole))

/-- The float is exactly the integer; zero has no sign. -/
def IsInteger (x : Float) (n : Int) : Prop :=
  match x.toModel.unpack with
  | .zero s => s = .positive ∧ n = 0
  | .finite s m e _ => s.apply (m * 2 ^ e.toNat) = n * 2 ^ (-e).toNat
  | _ => False

theorem truncated_bounds (x : Float) : -2 ^ 31 ≤ truncated x ∧ truncated x < 2 ^ 31 := by
  unfold truncated
  split
  · decide
  · decide
  · decide
  · decide
  · dsimp only
    omega

private theorem truncated_of_isInteger {x : Float} {n : Int} (h : IsInteger x n)
    (hlow : -2 ^ 31 ≤ n) (hhigh : n < 2 ^ 31) : truncated x = n := by
  unfold IsInteger at h
  unfold truncated
  split at h
  · next hx =>
    rw [hx]
    exact h.2.symm
  · next s m e _ hx =>
    have hpow : (2 : Int) ^ (-e).toNat ≠ 0 := Int.pow_ne_zero (by decide)
    have hwhole : s.apply (m * 2 ^ e.toNat / 2 ^ (-e).toNat : Nat) = n := by
      rw [Int.natCast_ediv, Int.natCast_mul, Int.natCast_pow, Int.natCast_pow]
      cases s with
      | positive =>
        have h : (m * 2 ^ e.toNat : Int) = n * 2 ^ (-e).toNat := h
        show (m * 2 ^ e.toNat : Int) / 2 ^ (-e).toNat = n
        rw [h, Int.mul_ediv_cancel _ hpow]
      | negative =>
        have h : (m * 2 ^ e.toNat : Int) = -n * 2 ^ (-e).toNat := by
          rw [Int.neg_mul, ← h]
          exact (Int.neg_neg _).symm
        show -((m * 2 ^ e.toNat : Int) / 2 ^ (-e).toNat) = n
        rw [h, Int.mul_ediv_cancel _ hpow, Int.neg_neg]
    rw [hx]
    dsimp only
    rw [hwhole]
    omega
  · exact h.elim

end Number

namespace Binary64

private theorem exponent_add_min (d : Nat) :
    ((d : Int) - 1074).toNat + min d 1074 = d ∧ (-((d : Int) - 1074)).toNat + min d 1074 = 1074 := by
  omega

private theorem wholePart_eq (m d : Nat) :
    m * 2 ^ ((d : Int) - 1074).toNat / 2 ^ (-((d : Int) - 1074)).toNat = m * 2 ^ d / unitsPerOne := by
  obtain ⟨hup, hdown⟩ := exponent_add_min d
  rw [← Nat.mul_div_mul_right _ _ (Nat.two_pow_pos (min d 1074)), Nat.mul_assoc, ← Nat.pow_add,
    ← Nat.pow_add, hup, unitsPerOne_eq hdown.symm]

private theorem mul_two_pow_eq {m n d : Nat} (h : m * 2 ^ d = n * unitsPerOne) :
    m * 2 ^ ((d : Int) - 1074).toNat = n * 2 ^ (-((d : Int) - 1074)).toNat := by
  obtain ⟨hup, hdown⟩ := exponent_add_min d
  apply Nat.eq_of_mul_eq_mul_right (Nat.two_pow_pos (min d 1074))
  rw [Nat.mul_assoc, Nat.mul_assoc, ← Nat.pow_add, ← Nat.pow_add, hup, h, unitsPerOne_eq hdown.symm]

private theorem apply_signOf (negative : Bool) (n : Int) :
    (signOf negative).apply n = if negative then -n else n := by
  cases negative <;> rfl

private theorem le_wholePart_infinity : 2 ^ 31 ≤ magnitude infinity / unitsPerOne := by
  have hmantissa : mantissa infinity = 2 ^ 52 := by decide
  have hdoublings : 1074 ≤ doublings infinity := by decide
  obtain ⟨k, hk⟩ : ∃ k, 1074 = k := ⟨_, rfl⟩
  rw [magnitude_eq, hmantissa, unitsPerOne_eq hk, Nat.le_div_iff_mul_le (Nat.two_pow_pos k)]
  rw [hk] at hdoublings
  exact Nat.mul_le_mul (by decide) (Nat.pow_le_pow_right (by decide) hdoublings)

end Binary64

namespace Word

open Binary64 Number

private theorem toInt_ofIntClamp (n : Int) :
    (Int32.ofIntClamp n).toInt = max (-2 ^ 31) (min (2 ^ 31 - 1) n) := by
  have hleast : Int32.minValue.toInt = -2 ^ 31 := rfl
  have hgreatest : Int32.maxValue.toInt = 2 ^ 31 - 1 := rfl
  unfold Int32.ofIntClamp
  split
  · split
    · rw [Int32.toInt_ofIntLE]
      omega
    · omega
  · omega

/-- Truncation goes by the exact value of the float. -/
theorem toInt_ofFloat (x : Float) : (ofFloat x).toInt = truncated x := by
  unfold ofFloat truncated
  dsimp only
  by_cases hnan : infinity < pattern x
  · rw [if_pos hnan, unpack_of_infinity_lt_pattern hnan]
    rfl
  rw [if_neg hnan, toInt_ofIntClamp, ← Int.natCast_ediv]
  rcases Nat.eq_zero_or_pos (pattern x) with hzero | hpos
  · have hnone : magnitude 0 / unitsPerOne = 0 := by
      rw [show magnitude 0 = 0 from rfl, Nat.zero_div]
    rw [unpack_of_pattern_eq_zero hzero, hzero, hnone]
    cases isNegative x <;> rfl
  rcases Nat.lt_or_eq_of_le (Nat.le_of_not_lt hnan) with hlt | hinfinity
  · rw [unpack_of_pattern_lt_infinity hpos hlt]
    dsimp only
    rw [wholePart_eq, ← magnitude_eq, apply_signOf]
  · have hlarge := le_wholePart_infinity
    rw [unpack_of_pattern_eq_infinity hinfinity, hinfinity]
    generalize magnitude infinity / unitsPerOne = whole at hlarge ⊢
    cases isNegative x with
    | false =>
      show max (-2 ^ 31) (min (2 ^ 31 - 1) (whole : Int)) = 2 ^ 31 - 1
      omega
    | true =>
      show max (-2 ^ 31) (min (2 ^ 31 - 1) (-(whole : Int))) = -2 ^ 31
      omega

private theorem natAbs_toInt_lt (w : Int32) : w.toInt.natAbs < 2 ^ 53 := by
  have hlow := w.le_toInt
  have hhigh := w.toInt_lt
  omega

theorem isInteger_toFloat (w : Int32) : IsInteger (toFloat w) w.toInt := by
  obtain ⟨hfinite, hmagnitude⟩ := magnitude_nearest (natAbs_toInt_lt w)
  have hpattern : pattern (toFloat w) = nearest w.toInt.natAbs 1 :=
    pattern_ofPattern (w < 0) (Nat.le_of_lt hfinite)
  have hsign : isNegative (toFloat w) = decide (w < 0) :=
    isNegative_ofPattern (w < 0) (Nat.le_of_lt hfinite)
  have hnegative : w < 0 ↔ w.toInt < 0 := Int32.lt_iff_toInt_lt
  rw [← hpattern] at hfinite hmagnitude
  unfold IsInteger
  rcases Nat.eq_zero_or_pos (pattern (toFloat w)) with hzero | hpos
  · have hw : w.toInt = 0 := by
      rw [hzero] at hmagnitude
      have hnone : w.toInt.natAbs = 0 :=
        (Nat.mul_eq_zero.1 hmagnitude.symm).resolve_right (Nat.ne_of_gt unitsPerOne_pos)
      exact Int.natAbs_eq_zero.1 hnone
    have hplus : decide (w < 0) = false := by
      rw [decide_eq_false_iff_not, hnegative, hw]
      decide
    rw [unpack_of_pattern_eq_zero hzero, hsign, hplus, hw]
    exact ⟨rfl, rfl⟩
  · rw [unpack_of_pattern_lt_infinity hpos hfinite, hsign]
    dsimp only
    rw [magnitude_eq] at hmagnitude
    have hvalue := mul_two_pow_eq hmagnitude
    generalize (doublings (pattern (toFloat w)) : Int) - 1074 = e at hvalue ⊢
    have hvalue : (mantissa (pattern (toFloat w)) * 2 ^ e.toNat : Int) =
        w.toInt.natAbs * 2 ^ (-e).toNat := by exact_mod_cast hvalue
    rw [apply_signOf, hvalue]
    by_cases hw : w < 0
    · have habs : (w.toInt.natAbs : Int) = -w.toInt :=
        Int.ofNat_natAbs_of_nonpos (Int.le_of_lt (hnegative.1 hw))
      rw [if_pos (decide_eq_true hw), habs, Int.neg_mul, Int.neg_neg]
    · have habs : (w.toInt.natAbs : Int) = w.toInt :=
        Int.natAbs_of_nonneg (Int.not_lt.1 fun h => hw (hnegative.2 h))
      rw [if_neg (by simpa using hw), habs]

/-- A word that becomes a float is the same word again. -/
theorem truncated_toFloat (w : Int32) : truncated (toFloat w) = w.toInt :=
  truncated_of_isInteger (isInteger_toFloat w) w.le_toInt w.toInt_lt

end Word

end Scriptlet
