import Mathlib
import Scriptlet.Number.Binary64

namespace Scriptlet.Binary64

open Float.Model
open Float.Model.UnpackedFloat hiding unpack

private theorem toNat_unpackExponent (b : BitVec 64) :
    (@unpackExponent .binary64 b).toNat = b.toNat / 2 ^ 52 % 2 ^ 11 := by
  rw [unpackExponent_def, BitVec.extractLsb'_toNat, Nat.shiftRight_eq_div_pow]

private theorem toNat_unpackMantissa (b : BitVec 64) :
    (@unpackMantissa .binary64 b).toNat = b.toNat % 2 ^ 52 := by
  rw [unpackMantissa_def, BitVec.extractLsb'_toNat, Nat.shiftRight_zero]

private theorem toNat_unpackSign (b : BitVec 64) :
    (@unpackSign .binary64 b).toNat = b.toNat / 2 ^ 63 := by
  have hb := b.isLt
  have hbit : b.toNat / 2 ^ 63 < 2 ^ 1 := by omega
  rw [unpackSign_def, BitVec.extractLsb'_toNat, Nat.shiftRight_eq_div_pow]
  exact Nat.mod_eq_of_lt hbit

def signOf (negative : Bool) : Sign := if negative then .negative else .positive

private theorem ofBitVec_unpackSign (b : BitVec 64) :
    Sign.ofBitVec (@unpackSign .binary64 b) = signOf (2 ^ 63 ≤ b.toNat) := by
  have hzero : @unpackSign .binary64 b = 0#1 ↔ b.toNat < 2 ^ 63 := by
    rw [← BitVec.toNat_inj, toNat_unpackSign, BitVec.toNat_ofNat]
    omega
  simp only [Sign.ofBitVec, signOf, hzero, decide_eq_true_eq]
  split <;> split <;> first | rfl | omega

theorem mantissa_pos {p : Nat} (hp : 0 < p) : 0 < mantissa p := by
  simp only [mantissa, doublings, Nat.pow_eq]
  omega

theorem mantissa_of_subnormal {p : Nat} (hp : p < 2 ^ 52) : mantissa p = p ∧ doublings p = 0 := by
  simp only [mantissa, doublings, Nat.pow_eq]
  omega

private theorem mantissa_of_normal {p : Nat} (hp : 2 ^ 52 ≤ p) :
    mantissa p = 2 ^ 52 + p % 2 ^ 52 ∧ doublings p + 1 = p / 2 ^ 52 := by
  simp only [mantissa, doublings, Nat.pow_eq]
  omega

private theorem finite_congr {s : Sign} {m n : Nat} {e f : Int} (hm : 0 < m) (hn : 0 < n)
    (hmn : m = n) (hef : e = f) : finite s m e hm = finite s n f hn := by
  subst hmn hef
  rfl

theorem unpack_zero {b : BitVec 64} (hb : b.toNat % 2 ^ 63 = 0) :
    UnpackedFloat.unpack .binary64 b = .zero (signOf (2 ^ 63 ≤ b.toNat)) := by
  have hexponent := toNat_unpackExponent b
  have hmantissa := toNat_unpackMantissa b
  rw [UnpackedFloat.unpack]
  dsimp only
  rw [ofBitVec_unpackSign, if_neg (by rw [← BitVec.toNat_inj, hexponent]; simp; omega),
    if_pos (by rw [← BitVec.toNat_inj, hexponent]; simp; omega),
    dif_pos (by rw [← BitVec.toNat_inj, hmantissa]; simp; omega)]

private theorem unpack_infinity {b : BitVec 64} (hb : b.toNat % 2 ^ 63 = infinity) :
    UnpackedFloat.unpack .binary64 b = .infinity (signOf (2 ^ 63 ≤ b.toNat)) := by
  have hb : b.toNat % 2 ^ 63 = 2047 * 2 ^ 52 := hb
  have hexponent := toNat_unpackExponent b
  have hmantissa := toNat_unpackMantissa b
  rw [UnpackedFloat.unpack]
  dsimp only
  rw [ofBitVec_unpackSign, if_pos (by rw [← BitVec.toNat_inj, hexponent]; simp; omega),
    if_pos (by rw [← BitVec.toNat_inj, hmantissa]; simp; omega)]

private theorem unpack_notANumber {b : BitVec 64} (hb : infinity < b.toNat % 2 ^ 63) :
    UnpackedFloat.unpack .binary64 b = .notANumber := by
  have hb : 2047 * 2 ^ 52 < b.toNat % 2 ^ 63 := hb
  have hexponent := toNat_unpackExponent b
  have hmantissa := toNat_unpackMantissa b
  rw [UnpackedFloat.unpack]
  dsimp only
  rw [if_pos (by rw [← BitVec.toNat_inj, hexponent]; simp; omega),
    if_neg (by rw [← BitVec.toNat_inj, hmantissa]; simp; omega)]

theorem unpack_finite {b : BitVec 64} {p : Nat} (hb : b.toNat % 2 ^ 63 = p) (hpos : 0 < p)
    (hlt : p < infinity) :
    UnpackedFloat.unpack .binary64 b =
      .finite (signOf (2 ^ 63 ≤ b.toNat)) (mantissa p) (doublings p - 1074) (mantissa_pos hpos) := by
  have hlt : p < 2047 * 2 ^ 52 := hlt
  have hexponent := toNat_unpackExponent b
  have hmantissa := toNat_unpackMantissa b
  have hbias : Format.binary64.exponentBias = 1023 := rfl
  rw [UnpackedFloat.unpack]
  dsimp only
  rw [ofBitVec_unpackSign, if_neg (by rw [← BitVec.toNat_inj, hexponent]; simp; omega)]
  by_cases hp : p < 2 ^ 52
  · obtain ⟨hm, hd⟩ := mantissa_of_subnormal hp
    rw [if_pos (by rw [← BitVec.toNat_inj, hexponent]; simp; omega),
      dif_neg (by rw [← BitVec.toNat_inj, hmantissa]; simp; omega)]
    apply finite_congr
    · rw [hmantissa, hm]
      omega
    · rw [hexponent, hbias, hd]
      omega
  · obtain ⟨hm, hd⟩ := mantissa_of_normal (Nat.le_of_not_lt hp)
    rw [if_neg (by rw [← BitVec.toNat_inj, hexponent]; simp; omega)]
    apply finite_congr
    · rw [BitVec.toNat_append, ← Nat.shiftLeft_add_eq_or_of_lt (BitVec.isLt _), hmantissa, hm,
        Nat.shiftLeft_eq]
      show 1 * 2 ^ 52 + b.toNat % 2 ^ 52 = 2 ^ 52 + p % 2 ^ 52
      omega
    · rw [hexponent, hbias]
      omega

private theorem isNaNBits_eq_false {b : BitVec 64} (hb : b.toNat % 2 ^ 63 ≤ infinity) :
    @isNaNBits .binary64 b = false := by
  have hb : b.toNat % 2 ^ 63 ≤ 2047 * 2 ^ 52 := hb
  have hexponent := toNat_unpackExponent b
  have hmantissa := toNat_unpackMantissa b
  simp only [isNaNBits, decide_eq_false_iff_not, ← BitVec.toNat_inj, ne_eq]
  rw [hexponent, hmantissa]
  simp
  omega

/-- Bits that are not those of no number are kept by the float made of them. -/
theorem toBits_ofBits {b : UInt64} (hb : b.toNat % 2 ^ 63 ≤ infinity) :
    (Float.ofBits b).toBits = b := by
  have hkept := @pack_unpack .binary64 b.toBitVec (by decide)
  rw [isNaNBits_eq_false hb] at hkept
  exact UInt64.toBitVec_inj.1 hkept

section

variable (negative : Bool) {p : Nat} (hp : p ≤ infinity)

include hp

theorem toNat_toBits_ofPattern :
    (ofPattern negative p).toBits.toNat = if negative then 2 ^ 63 + p else p := by
  have hp : p ≤ 2047 * 2 ^ 52 := hp
  have hbits : (UInt64.ofNat (if negative then 2 ^ 63 + p else p)).toNat =
      if negative then 2 ^ 63 + p else p := by
    rw [UInt64.toNat_ofNat']
    split <;> omega
  have hnumber : (UInt64.ofNat (if negative then 2 ^ 63 + p else p)).toNat % 2 ^ 63 ≤ infinity := by
    show _ ≤ 2047 * 2 ^ 52
    rw [hbits]
    split <;> omega
  rw [← hbits, ← toBits_ofBits hnumber]
  rfl

theorem pattern_ofPattern : pattern (ofPattern negative p) = p := by
  have hbits := toNat_toBits_ofPattern negative hp
  have hp : p ≤ 2047 * 2 ^ 52 := hp
  rw [pattern, hbits, Nat.pow_eq]
  split <;> omega

theorem isNegative_ofPattern : isNegative (ofPattern negative p) = negative := by
  have hbits := toNat_toBits_ofPattern negative hp
  have hp : p ≤ 2047 * 2 ^ 52 := hp
  rw [isNegative, hbits, Nat.pow_eq]
  cases negative <;> simp
  omega

end

theorem unpack_of_pattern_eq_zero {x : Float} (hx : pattern x = 0) :
    x.toModel.unpack = .zero (signOf (isNegative x)) := unpack_zero hx

theorem unpack_of_pattern_eq_infinity {x : Float} (hx : pattern x = infinity) :
    x.toModel.unpack = .infinity (signOf (isNegative x)) := unpack_infinity hx

theorem unpack_of_infinity_lt_pattern {x : Float} (hx : infinity < pattern x) :
    x.toModel.unpack = .notANumber := unpack_notANumber hx

theorem unpack_of_pattern_lt_infinity {x : Float} (hpos : 0 < pattern x)
    (hlt : pattern x < infinity) :
    x.toModel.unpack = .finite (signOf (isNegative x)) (mantissa (pattern x))
      (doublings (pattern x) - 1074) (mantissa_pos hpos) := unpack_finite rfl hpos hlt

theorem unitsPerOne_eq {k : Nat} (hk : 1074 = k) : unitsPerOne = 2 ^ k := by
  unfold unitsPerOne
  rw [hk, Nat.pow_eq]

theorem unitsPerOne_pos : 0 < unitsPerOne := by
  obtain ⟨k, hk⟩ : ∃ k, 1074 = k := ⟨_, rfl⟩
  rw [unitsPerOne_eq hk]
  exact Nat.two_pow_pos k

private theorem roundDiv_mul_self (a : Nat) {d : Nat} (hd : 0 < d) : roundDiv (a * d) d = a := by
  simp only [roundDiv, Nat.mul_mod_left, Nat.mul_zero, hd, if_true, Nat.mul_div_cancel a hd]

theorem magnitude_eq (p : Nat) : magnitude p = mantissa p * 2 ^ doublings p := Nat.shiftLeft_eq ..

theorem magnitude_of_significand {m : Nat} (k : Nat) (hlow : 2 ^ 52 ≤ m) (hhigh : m < 2 ^ 53) :
    magnitude (k * 2 ^ 52 + m) = m * 2 ^ k := by
  have hdoublings : doublings (k * 2 ^ 52 + m) = k := by
    simp only [doublings, Nat.pow_eq]
    omega
  rw [magnitude_eq, mantissa, hdoublings, Nat.pow_eq, Nat.add_sub_cancel_left]

private theorem log2_mul_two_pow {n : Nat} (hn : 0 < n) (k : Nat) :
    (n * 2 ^ k).log2 = n.log2 + k := by
  have hne : n * 2 ^ k ≠ 0 := Nat.ne_of_gt (Nat.mul_pos hn (Nat.two_pow_pos k))
  rw [Nat.log2_eq_iff hne, Nat.pow_add, Nat.add_right_comm, Nat.pow_add]
  exact ⟨Nat.mul_le_mul_right _ (Nat.log2_self_le (Nat.ne_of_gt hn)),
    Nat.mul_lt_mul_of_pos_right Nat.lt_log2_self (Nat.two_pow_pos k)⟩

/-- A number is doubled until it fills the mantissa. -/
theorem significand_bounds {n : Nat} (hpos : 0 < n) (hn : n < 2 ^ 53) :
    n.log2 ≤ 52 ∧ 2 ^ 52 ≤ n * 2 ^ (52 - n.log2) ∧ n * 2 ^ (52 - n.log2) < 2 ^ 53 := by
  have hlog : n.log2 ≤ 52 := Nat.le_of_lt_succ ((Nat.log2_lt (Nat.ne_of_gt hpos)).2 hn)
  have hfull : 2 ^ n.log2 * 2 ^ (52 - n.log2) = 2 ^ 52 := by
    rw [← Nat.pow_add, Nat.add_sub_cancel' hlog]
  refine ⟨hlog, ?_, ?_⟩
  · rw [← hfull]
    exact Nat.mul_le_mul_right _ (Nat.log2_self_le (Nat.ne_of_gt hpos))
  · calc n * 2 ^ (52 - n.log2) < 2 ^ (n.log2 + 1) * 2 ^ (52 - n.log2) :=
          Nat.mul_lt_mul_of_pos_right Nat.lt_log2_self (Nat.two_pow_pos _)
      _ = 2 ^ 52 * 2 := by rw [Nat.pow_succ, Nat.mul_right_comm, hfull]
      _ = 2 ^ 53 := rfl

private theorem mul_unitsPerOne {n : Nat} (hlog : n.log2 ≤ 52) :
    n * unitsPerOne = n * 2 ^ (52 - n.log2) * 2 ^ (n.log2 + 1022) := by
  have hexponent : 1074 = 52 - n.log2 + (n.log2 + 1022) := by omega
  rw [Nat.mul_assoc, ← Nat.pow_add, unitsPerOne_eq hexponent]

private theorem nearest_eq {n : Nat} (hpos : 0 < n) (hn : n < 2 ^ 53) :
    nearest n 1 = (n.log2 + 1022) * 2 ^ 52 + n * 2 ^ (52 - n.log2) := by
  obtain ⟨hlog, hlow, hhigh⟩ := significand_bounds hpos hn
  have hscaled : (n * unitsPerOne).log2 - 52 = n.log2 + 1022 := by
    rw [mul_unitsPerOne hlog, log2_mul_two_pow (by omega), log2_mul_two_pow hpos]
    omega
  have hround : roundDiv (n * unitsPerOne) (2 ^ (n.log2 + 1022)) = n * 2 ^ (52 - n.log2) := by
    rw [mul_unitsPerOne hlog, roundDiv_mul_self _ (Nat.two_pow_pos _)]
  rw [nearest]
  simp only [Nat.div_one, hscaled, Nat.one_shiftLeft, Nat.pow_eq, hround]
  apply Nat.min_eq_right
  simp only [infinity, Nat.pow_eq]
  omega

/-- Such a number is rounded to a finite pattern of its own value. -/
theorem magnitude_nearest {n : Nat} (hn : n < 2 ^ 53) :
    nearest n 1 < infinity ∧ magnitude (nearest n 1) = n * unitsPerOne := by
  rcases Nat.eq_zero_or_pos n with rfl | hpos
  · have hzero : nearest 0 1 = 0 := by
      rw [nearest, Nat.zero_mul]
      rfl
    rw [hzero, Nat.zero_mul]
    exact ⟨by decide, rfl⟩
  obtain ⟨hlog, hlow, hhigh⟩ := significand_bounds hpos hn
  rw [nearest_eq hpos hn]
  constructor
  · simp only [infinity, Nat.pow_eq]
    omega
  · rw [magnitude_of_significand _ hlow hhigh, mul_unitsPerOne hlog]

end Scriptlet.Binary64
