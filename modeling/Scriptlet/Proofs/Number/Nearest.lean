import Mathlib
import Scriptlet.Proofs.Number.Pattern

namespace Scriptlet.Binary64

open Float.Model

theorem magnitude_succ (p : Nat) : magnitude (p + 1) = magnitude p + 2 ^ doublings p := by
  by_cases hblock : (p + 1) % 2 ^ 52 = 0 ∧ 2 ^ 52 < p
  · have hnext : doublings (p + 1) = doublings p + 1 := by
      simp only [doublings, Nat.pow_eq]
      omega
    have hfull : mantissa p + 1 = 2 * mantissa (p + 1) := by
      simp only [mantissa, doublings, Nat.pow_eq]
      omega
    calc magnitude (p + 1) = 2 * mantissa (p + 1) * 2 ^ doublings p := by
          rw [magnitude_eq, hnext]
          ring
      _ = magnitude p + 2 ^ doublings p := by
          rw [← hfull, magnitude_eq]
          ring
  · have hnext : doublings (p + 1) = doublings p := by
      simp only [doublings, Nat.pow_eq]
      omega
    have hmore : mantissa (p + 1) = mantissa p + 1 := by
      simp only [mantissa, doublings, Nat.pow_eq]
      omega
    rw [magnitude_eq, magnitude_eq, hnext, hmore]
    ring

theorem strictMono_magnitude : StrictMono magnitude := by
  apply strictMono_nat_of_lt_succ
  intro p
  rw [magnitude_succ]
  exact Nat.lt_add_of_pos_right (Nat.two_pow_pos _)

theorem cast_magnitude_lt {p r : Nat} (h : p < r) : (magnitude p : ℚ) < magnitude r := by
  exact_mod_cast strictMono_magnitude h

private theorem cast_magnitude_le {p r : Nat} (h : p ≤ r) : (magnitude p : ℚ) ≤ magnitude r := by
  exact_mod_cast strictMono_magnitude.monotone h

/-- The pattern whose value is nearest to a number of units; of two that are equally near, the even one.
Infinity stands where the next finite value would be. -/
def IsNearest (x : ℚ) (p : Nat) : Prop :=
  p ≤ infinity ∧ ∀ r ≤ infinity, r ≠ p → |x - magnitude p| < |x - magnitude r| ∨
    |x - magnitude p| = |x - magnitude r| ∧ p % 2 = 0

/-- The number lies above the half-way point to the pattern before, or on it if the pattern is even. -/
def FromBelow (x : ℚ) (p : Nat) : Prop :=
  ∀ r, p = r + 1 → (magnitude r + magnitude p : ℚ) < 2 * x ∨
    (magnitude r + magnitude p : ℚ) = 2 * x ∧ p % 2 = 0

/-- The number lies below the half-way point to the next pattern, or on it if the pattern is even. -/
def FromAbove (x : ℚ) (p : Nat) : Prop :=
  2 * x < magnitude p + magnitude (p + 1) ∨ 2 * x = magnitude p + magnitude (p + 1) ∧ p % 2 = 0

private theorem abs_sub_lt_abs_sub {a b x : ℚ} (hab : a < b) (h : 2 * x < a + b) :
    |x - a| < |x - b| := by
  have hb : |x - b| = b - x := by
    rw [abs_sub_comm]
    exact abs_of_pos (by linarith)
  rw [hb, abs_lt]
  constructor <;> linarith

private theorem abs_sub_lt_abs_sub_of_gt {a b x : ℚ} (hab : a < b) (h : a + b < 2 * x) :
    |x - b| < |x - a| := by
  have ha : |x - a| = x - a := abs_of_pos (by linarith)
  rw [ha, abs_lt]
  constructor <;> linarith

private theorem abs_sub_eq_abs_sub {a b x : ℚ} (h : 2 * x = a + b) : |x - a| = |x - b| := by
  have hx : x - a = b - x := by linarith
  rw [hx, abs_sub_comm]

private theorem nearer_of_fromAbove {x : ℚ} {p r : Nat} (h : FromAbove x p) (hr : p < r) :
    |x - magnitude p| < |x - magnitude r| ∨ |x - magnitude p| = |x - magnitude r| ∧ p % 2 = 0 := by
  have hlt : (magnitude p : ℚ) < magnitude r := cast_magnitude_lt hr
  have hnext : (magnitude (p + 1) : ℚ) ≤ magnitude r := cast_magnitude_le hr
  have hmid : 2 * x ≤ magnitude p + magnitude r := by
    rcases h with h | ⟨h, -⟩ <;> linarith
  rcases hmid.lt_or_eq with hmid | hmid
  · exact .inl (abs_sub_lt_abs_sub hlt hmid)
  · refine .inr ⟨abs_sub_eq_abs_sub hmid, ?_⟩
    rcases h with h | ⟨-, heven⟩
    · linarith
    · exact heven

private theorem nearer_of_fromBelow {x : ℚ} {p r : Nat} (h : FromBelow x p) (hr : r < p) :
    |x - magnitude p| < |x - magnitude r| ∨ |x - magnitude p| = |x - magnitude r| ∧ p % 2 = 0 := by
  obtain ⟨s, rfl⟩ : ∃ s, p = s + 1 := Nat.exists_eq_add_one_of_ne_zero (Nat.ne_of_gt (by omega))
  have hlt : (magnitude r : ℚ) < magnitude (s + 1) := cast_magnitude_lt hr
  have hlast : (magnitude r : ℚ) ≤ magnitude s := cast_magnitude_le (Nat.le_of_lt_succ hr)
  have hmid : (magnitude r + magnitude (s + 1) : ℚ) ≤ 2 * x := by
    rcases h s rfl with h | ⟨h, -⟩ <;> linarith
  rcases hmid.lt_or_eq with hmid | hmid
  · exact .inl (abs_sub_lt_abs_sub_of_gt hlt hmid)
  · refine .inr ⟨(abs_sub_eq_abs_sub (by linarith)).symm, ?_⟩
    rcases h s rfl with h | ⟨-, heven⟩
    · linarith
    · exact heven

/-- Between its two half-way points a pattern is the nearest one. -/
theorem isNearest_of_between {x : ℚ} {p : Nat} (hp : p ≤ infinity) (hbelow : FromBelow x p)
    (habove : p < infinity → FromAbove x p) : IsNearest x p := by
  refine ⟨hp, fun r hr hne => ?_⟩
  rcases Nat.lt_or_gt_of_ne hne with hlt | hgt
  · exact nearer_of_fromBelow hbelow hlt
  · exact nearer_of_fromAbove (habove (Nat.lt_of_lt_of_le hgt hr)) hgt

theorem IsNearest.fromBelow {x : ℚ} {p : Nat} (h : IsNearest x p) : FromBelow x p := by
  rintro r rfl
  have hstep : (magnitude r : ℚ) < magnitude (r + 1) := cast_magnitude_lt (Nat.lt_succ_self r)
  have hnearer := h.2 r (Nat.le_of_succ_le h.1) (Nat.ne_of_lt (Nat.lt_succ_self r))
  rcases lt_trichotomy (magnitude r + magnitude (r + 1) : ℚ) (2 * x) with hlt | heq | hgt
  · exact .inl hlt
  · exact .inr ⟨heq, (hnearer.resolve_left (abs_sub_eq_abs_sub heq.symm).not_gt).2⟩
  · have hfarther := abs_sub_lt_abs_sub hstep hgt
    rcases hnearer with hlt | ⟨heq, -⟩ <;> linarith

theorem IsNearest.fromAbove {x : ℚ} {p : Nat} (h : IsNearest x p) (hp : p < infinity) :
    FromAbove x p := by
  have hstep : (magnitude p : ℚ) < magnitude (p + 1) := cast_magnitude_lt (Nat.lt_succ_self p)
  have hnearer := h.2 (p + 1) hp (Nat.succ_ne_self p)
  rcases lt_trichotomy (2 * x) (magnitude p + magnitude (p + 1)) with hlt | heq | hgt
  · exact .inl hlt
  · exact .inr ⟨heq, (hnearer.resolve_left (abs_sub_eq_abs_sub heq).not_lt).2⟩
  · have hfarther := abs_sub_lt_abs_sub_of_gt hstep hgt
    rcases hnearer with hlt | ⟨heq, -⟩ <;> linarith

/-- Half-way points are shared by neighbours only, and of two neighbours one is odd: there is never a
choice. -/
theorem IsNearest.unique {x : ℚ} {p r : Nat} (hp : IsNearest x p) (hr : IsNearest x r) : p = r := by
  wlog hlt : p < r generalizing p r
  · by_contra hne
    exact hne (this hr hp (by omega)).symm
  exfalso
  obtain ⟨s, rfl⟩ : ∃ s, r = s + 1 := Nat.exists_eq_add_one_of_ne_zero (Nat.ne_of_gt (by omega))
  have hps : p ≤ s := Nat.le_of_lt_succ hlt
  have hthis : (magnitude p : ℚ) ≤ magnitude s := cast_magnitude_le hps
  have hnext : (magnitude (p + 1) : ℚ) ≤ magnitude (s + 1) := cast_magnitude_le (Nat.succ_le_succ hps)
  rcases hp.fromAbove (Nat.lt_of_lt_of_le hlt hr.1) with habove | ⟨habove, hpeven⟩ <;>
    rcases hr.fromBelow s rfl with hbelow | ⟨hbelow, hreven⟩
  · linarith
  · linarith
  · linarith
  · have hsame : magnitude p = magnitude s := by exact_mod_cast (show (magnitude p : ℚ) = magnitude s by linarith)
    have := strictMono_magnitude.injective hsame
    omega

/-- A quotient is rounded by at most a half, and by a half only to an even number. -/
theorem roundDiv_near (n : Nat) {d : Nat} (hd : 0 < d) :
    (2 * n < (2 * roundDiv n d + 1) * d ∨
      2 * n = (2 * roundDiv n d + 1) * d ∧ roundDiv n d % 2 = 0) ∧
    (2 * roundDiv n d * d < 2 * n + d ∨
      2 * roundDiv n d * d = 2 * n + d ∧ roundDiv n d % 2 = 0) := by
  have hn := Nat.div_add_mod' n d
  have hrest := Nat.mod_lt n hd
  have hodd (q : Nat) : (2 * q + 1) * d = 2 * (q * d) + d := by ring
  have heven (q : Nat) : 2 * q * d = 2 * (q * d) := by ring
  have hnext : (n / d + 1) * d = n / d * d + d := by ring
  simp only [roundDiv, hodd, heven]
  split
  next hdown => omega
  next =>
    split
    next hup =>
      rw [hnext]
      omega
    next htie =>
      rcases Nat.mod_two_eq_zero_or_one (n / d) with hparity | hparity
      · rw [hparity, Nat.add_zero]
        omega
      · rw [hparity, hnext]
        omega

/-- Rounding may carry out of the mantissa, by one, and never falls below it. -/
theorem roundDiv_bounds {n d : Nat} (hd : 0 < d) (hfits : n < 2 ^ 53 * d) :
    roundDiv n d ≤ 2 ^ 53 ∧ (2 ^ 52 * d ≤ n → 2 ^ 52 ≤ roundDiv n d) := by
  obtain ⟨habove, hbelow⟩ := roundDiv_near n hd
  generalize roundDiv n d = r at habove hbelow
  constructor
  · have hmul : 2 * r * d < (2 * 2 ^ 53 + 1) * d := by
      rw [Nat.add_mul, Nat.one_mul, Nat.mul_assoc 2 (2 ^ 53)]
      omega
    have := Nat.lt_of_mul_lt_mul_right hmul
    omega
  · intro hfills
    have hmul : 2 * 2 ^ 52 * d ≤ (2 * r + 1) * d := by
      rw [Nat.mul_assoc 2]
      omega
    have := Nat.le_of_mul_le_mul_right hmul hd
    omega

/-- A mantissa of its block, or the one that just does not fit, at which the next block starts. -/
theorem magnitude_of_block {k r : Nat} (hlow : k = 0 ∨ 2 ^ 52 ≤ r) (hhigh : r ≤ 2 ^ 53) :
    magnitude (k * 2 ^ 52 + r) = r * 2 ^ k := by
  rcases hhigh.lt_or_eq with hlt | rfl
  · rcases Nat.lt_or_ge r (2 ^ 52) with hsmall | hlarge
    · obtain rfl : k = 0 := by omega
      obtain ⟨hm, hd⟩ := mantissa_of_subnormal hsmall
      rw [Nat.zero_mul, Nat.zero_add, magnitude_eq, hm, hd]
    · exact magnitude_of_significand k hlarge hlt
  · have hcarry : k * 2 ^ 52 + 2 ^ 53 = (k + 1) * 2 ^ 52 + 2 ^ 52 := by ring
    rw [hcarry, magnitude_of_significand _ le_rfl (by decide)]
    ring

theorem FromBelow.mono {x : ℚ} {p q : Nat} (h : FromBelow x p) (hqp : q ≤ p) (heven : q % 2 = 0) :
    FromBelow x q := by
  rintro r rfl
  obtain ⟨s, rfl⟩ : ∃ s, p = s + 1 := Nat.exists_eq_add_one_of_ne_zero (by omega)
  have hlast : (magnitude r : ℚ) ≤ magnitude s := cast_magnitude_le (Nat.le_of_succ_le_succ hqp)
  have hthis : (magnitude (r + 1) : ℚ) ≤ magnitude (s + 1) := cast_magnitude_le hqp
  have hmid : (magnitude r + magnitude (r + 1) : ℚ) ≤ 2 * x := by
    rcases h s rfl with h | ⟨h, -⟩ <;> linarith
  rcases hmid.lt_or_eq with hmid | hmid
  · exact .inl hmid
  · exact .inr ⟨hmid, heven⟩

section

variable {n d k r : Nat} (hd : 0 < d)

include hd

private theorem fromAbove_of_block (hlow : k = 0 ∨ 2 ^ 52 ≤ r) (hhigh : r ≤ 2 ^ 53)
    (hfits : n < 2 ^ 53 * (d * 2 ^ k))
    (hnear : 2 * n < (2 * r + 1) * (d * 2 ^ k) ∨ 2 * n = (2 * r + 1) * (d * 2 ^ k) ∧ r % 2 = 0) :
    FromAbove (n / d) (k * 2 ^ 52 + r) := by
  have hpos : (0 : ℚ) < d := by exact_mod_cast hd
  have hparity : (k * 2 ^ 52 + r) % 2 = r % 2 := by omega
  rw [FromAbove, hparity, mul_div_assoc', div_lt_iff₀ hpos, div_eq_iff hpos.ne']
  rcases hhigh.lt_or_eq with hlt | rfl
  · have hnext : magnitude (k * 2 ^ 52 + r + 1) = (r + 1) * 2 ^ k := by
      rw [Nat.add_assoc]
      exact magnitude_of_block (by omega) (by omega)
    have hmid : (2 * r + 1) * (d * 2 ^ k) =
        (magnitude (k * 2 ^ 52 + r) + magnitude (k * 2 ^ 52 + r + 1)) * d := by
      rw [magnitude_of_block hlow hhigh, hnext]
      ring
    rw [hmid] at hnear
    exact_mod_cast hnear
  · -- Rounded up to the next block, where the spacing is twice as wide.
    have hmid : 2 * n < (magnitude (k * 2 ^ 52 + 2 ^ 53) + magnitude (k * 2 ^ 52 + 2 ^ 53 + 1)) * d := by
      have hnext : magnitude (k * 2 ^ 52 + 2 ^ 53) ≤ magnitude (k * 2 ^ 52 + 2 ^ 53 + 1) :=
        strictMono_magnitude.monotone (Nat.le_succ _)
      calc 2 * n < 2 * (2 ^ 53 * (d * 2 ^ k)) := Nat.mul_lt_mul_of_pos_left hfits (by decide)
        _ = (magnitude (k * 2 ^ 52 + 2 ^ 53) + magnitude (k * 2 ^ 52 + 2 ^ 53)) * d := by
          rw [magnitude_of_block hlow hhigh]
          ring
        _ ≤ _ := Nat.mul_le_mul_right d (Nat.add_le_add_left hnext _)
    exact .inl (by exact_mod_cast hmid)

private theorem fromBelow_of_block (hlow : k = 0 ∨ 2 ^ 52 ≤ r) (hhigh : r ≤ 2 ^ 53)
    (hfills : 0 < k → 2 ^ 52 * (d * 2 ^ k) ≤ n)
    (hnear : 2 * r * (d * 2 ^ k) < 2 * n + d * 2 ^ k ∨ 2 * r * (d * 2 ^ k) = 2 * n + d * 2 ^ k ∧ r % 2 = 0) :
    FromBelow (n / d) (k * 2 ^ 52 + r) := by
  have hpos : (0 : ℚ) < d := by exact_mod_cast hd
  have hparity : (k * 2 ^ 52 + r) % 2 = r % 2 := by omega
  intro s hs
  rw [hparity, mul_div_assoc', lt_div_iff₀ hpos, eq_div_iff hpos.ne']
  by_cases hstart : 0 < k ∧ r = 2 ^ 52
  · -- The spacing before the block is half as wide, but the number is not below the block.
    obtain ⟨hk, rfl⟩ := hstart
    have hmid : (magnitude s + magnitude (k * 2 ^ 52 + 2 ^ 52)) * d < 2 * n := by
      calc (magnitude s + magnitude (k * 2 ^ 52 + 2 ^ 52)) * d
          < (magnitude (k * 2 ^ 52 + 2 ^ 52) + magnitude (k * 2 ^ 52 + 2 ^ 52)) * d :=
            Nat.mul_lt_mul_of_pos_right (Nat.add_lt_add_right (strictMono_magnitude (by omega)) _) hd
        _ = 2 * (2 ^ 52 * (d * 2 ^ k)) := by
          rw [magnitude_of_block hlow hhigh]
          ring
        _ ≤ 2 * n := Nat.mul_le_mul_left 2 (hfills hk)
    exact .inl (by exact_mod_cast hmid)
  · obtain ⟨t, rfl⟩ : ∃ t, r = t + 1 := Nat.exists_eq_add_one_of_ne_zero (by omega)
    obtain rfl : s = k * 2 ^ 52 + t := by omega
    have hlast : magnitude (k * 2 ^ 52 + t) = t * 2 ^ k := magnitude_of_block (by omega) (by omega)
    have hmid : 2 * (t + 1) * (d * 2 ^ k) =
        (magnitude (k * 2 ^ 52 + t) + magnitude (k * 2 ^ 52 + (t + 1))) * d + d * 2 ^ k := by
      rw [hlast, magnitude_of_block hlow hhigh]
      ring
    rw [hmid, Nat.add_lt_add_iff_right, Nat.add_right_cancel_iff] at hnear
    exact_mod_cast hnear

/-- The quotient is halved until it fits into the mantissa, and not more than needed. -/
theorem halved_quotient (hk : (n / d).log2 - 52 = k) :
    n < 2 ^ 53 * (d * 2 ^ k) ∧ (0 < k → 2 ^ 52 * (d * 2 ^ k) ≤ n) := by
  constructor
  · have hlog : n / d < 2 ^ (53 + k) :=
      Nat.lt_of_lt_of_le Nat.lt_log2_self (Nat.pow_le_pow_right (by decide) (by omega))
    rw [Nat.div_lt_iff_lt_mul hd] at hlog
    calc n < 2 ^ (53 + k) * d := hlog
      _ = 2 ^ 53 * (d * 2 ^ k) := by ring
  · intro hpos
    have hne : n / d ≠ 0 := by
      intro hzero
      rw [hzero, Nat.log2_zero] at hk
      omega
    have hlog : 2 ^ (n / d).log2 ≤ n / d := Nat.log2_self_le hne
    have hexponent : (n / d).log2 = 52 + k := by omega
    rw [hexponent, Nat.le_div_iff_mul_le hd] at hlog
    calc 2 ^ 52 * (d * 2 ^ k) = 2 ^ (52 + k) * d := by ring
      _ ≤ n := hlog

/-- Rounding gives the nearest pattern. -/
theorem isNearest_nearest (num : Nat) : IsNearest (num * unitsPerOne / d) (nearest num d) := by
  rw [nearest]
  simp only [Nat.pow_eq, Nat.shiftLeft_eq]
  rw [← Nat.cast_mul]
  generalize num * unitsPerOne = n
  generalize hk : (n / d).log2 - 52 = k
  have hpos : 0 < d * 2 ^ k := Nat.mul_pos hd (Nat.two_pow_pos k)
  obtain ⟨hfits, hfills⟩ := halved_quotient hd hk
  obtain ⟨habove, hbelow⟩ := roundDiv_near n hpos
  obtain ⟨hhigh, hlow⟩ := roundDiv_bounds hpos hfits
  have hlow : k = 0 ∨ 2 ^ 52 ≤ roundDiv n (d * 2 ^ k) :=
    (Nat.eq_zero_or_pos k).imp_right fun hk' => hlow (hfills hk')
  have hbelow := fromBelow_of_block hd hlow hhigh hfills hbelow
  have habove := fromAbove_of_block hd hlow hhigh hfits habove
  rcases Nat.lt_or_ge (k * 2 ^ 52 + roundDiv n (d * 2 ^ k)) infinity with hlt | hge
  · rw [Nat.min_eq_right hlt.le]
    exact isNearest_of_between hlt.le hbelow fun _ => habove
  · rw [Nat.min_eq_left hge]
    exact isNearest_of_between le_rfl (hbelow.mono hge (by decide)) fun h => absurd h (Nat.lt_irrefl _)

end

private theorem isNaN_eq_false_iff {x : Float} : x.isNaN = false ↔ pattern x ≤ infinity := by
  change x.toModel.unpack.isNaN = false ↔ _
  rcases Nat.lt_trichotomy (pattern x) infinity with hlt | heq | hgt
  · rcases Nat.eq_zero_or_pos (pattern x) with hzero | hpos
    · simp [unpack_of_pattern_eq_zero hzero, UnpackedFloat.isNaN, hlt.le]
    · simp [unpack_of_pattern_lt_infinity hpos hlt, UnpackedFloat.isNaN, hlt.le]
  · simp [unpack_of_pattern_eq_infinity heq, UnpackedFloat.isNaN, heq.le]
  · simp [unpack_of_infinity_lt_pattern hgt, UnpackedFloat.isNaN, hgt]

theorem isFinite_iff {x : Float} : x.isFinite = true ↔ pattern x < infinity := by
  change x.toModel.unpack.isFinite = true ↔ _
  rcases Nat.lt_trichotomy (pattern x) infinity with hlt | heq | hgt
  · rcases Nat.eq_zero_or_pos (pattern x) with hzero | hpos
    · simp [unpack_of_pattern_eq_zero hzero, UnpackedFloat.isFinite, hlt]
    · simp [unpack_of_pattern_lt_infinity hpos hlt, UnpackedFloat.isFinite, hlt]
  · simp [unpack_of_pattern_eq_infinity heq, UnpackedFloat.isFinite, heq]
  · simp [unpack_of_infinity_lt_pattern hgt, UnpackedFloat.isFinite, hgt.le]

private theorem ofPattern_pattern {x : Float} (hx : pattern x ≤ infinity) :
    ofPattern (isNegative x) (pattern x) = x := by
  rw [← Float.toBits_inj, ← UInt64.toNat_inj, toNat_toBits_ofPattern _ hx]
  have hbits := x.toBits.toNat_lt
  simp only [isNegative, pattern, Nat.pow_eq, decide_eq_true_eq]
  split <;> omega

private theorem eq_of_pattern_eq {x y : Float} (hx : pattern x ≤ infinity)
    (hpattern : pattern x = pattern y) (hsign : isNegative x = isNegative y) : x = y := by
  have hy : pattern y ≤ infinity := hpattern ▸ hx
  rw [← ofPattern_pattern hx, ← ofPattern_pattern hy, hpattern, hsign]

theorem abs_eq {x : Float} (hx : pattern x < infinity) : x.abs = ofPattern false (pattern x) := by
  have hlt : pattern x < 2047 * 2 ^ 52 := hx
  have hbits : (UInt64.ofNat (pattern x)).toBitVec.toNat = pattern x := by
    change (UInt64.ofNat (pattern x)).toNat = pattern x
    rw [UInt64.toNat_ofNat']
    omega
  have hpattern : (UInt64.ofNat (pattern x)).toBitVec.toNat % 2 ^ 63 = pattern x := by omega
  have hsign : signOf (2 ^ 63 ≤ (UInt64.ofNat (pattern x)).toBitVec.toNat) = .positive := by
    rw [signOf, if_neg]
    simp only [decide_eq_true_eq]
    omega
  have hunpack : x.toModel.unpack.abs =
      UnpackedFloat.unpack .binary64 (UInt64.ofNat (pattern x)).toBitVec := by
    rcases Nat.eq_zero_or_pos (pattern x) with hzero | hpos
    · rw [unpack_of_pattern_eq_zero hzero, unpack_zero (hpattern.trans hzero), hsign]
      rfl
    · rw [unpack_of_pattern_lt_infinity hpos hx, unpack_finite hpattern hpos hx, hsign]
      rfl
  change Float.ofModel (Float.Model.pack x.toModel.unpack.abs) = _
  rw [hunpack]
  rfl

end Scriptlet.Binary64

namespace Scriptlet.Number

open Binary64

/-- The exact value of a float without its sign. Infinity counts as the first value that is too large, as
it does in rounding. -/
def size (x : Float) : ℚ :=
  match x.toModel.unpack with
  | .finite _ m e _ => m * 2 ^ e
  | .infinity _ => 2 ^ 1024
  | _ => 0

/-- Rounding of a number that is given by its sign and its size: of the floats with that sign, infinity
among them, the float is nearest to the number, or as near as another one and the even one. -/
def RoundsTo (negative : Bool) (q : ℚ) (x : Float) : Prop :=
  x.isNaN = false ∧ isNegative x = negative ∧
  ∀ y : Float, y.isNaN = false → isNegative y = negative → y ≠ x →
    |q - size x| < |q - size y| ∨ |q - size x| = |q - size y| ∧ x.toBits.toNat % 2 = 0

theorem size_eq {x : Float} (hx : pattern x ≤ infinity) :
    size x * unitsPerOne = magnitude (pattern x) := by
  rcases hx.lt_or_eq with hlt | heq
  · rcases Nat.eq_zero_or_pos (pattern x) with hzero | hpos
    · rw [size, unpack_of_pattern_eq_zero hzero, hzero]
      exact zero_mul _
    · obtain ⟨k, hk⟩ : ∃ k, 1074 = k := ⟨_, rfl⟩
      rw [size, unpack_of_pattern_lt_infinity hpos hlt, magnitude_eq, unitsPerOne_eq hk]
      have hexponent : (doublings (pattern x) : ℤ) - 1074 = doublings (pattern x) - k := by omega
      dsimp only
      rw [hexponent, zpow_sub₀ two_ne_zero, zpow_natCast, zpow_natCast]
      push_cast
      field_simp
  · have hinfinity : infinity = 2046 * 2 ^ 52 + 2 ^ 52 := rfl
    have hlarge : (2 : ℚ) ^ 1024 * 2 ^ 1074 = 2 ^ 52 * 2 ^ 2046 := by
      rw [← pow_add, ← pow_add]
    rw [size, unpack_of_pattern_eq_infinity heq, heq, hinfinity,
      magnitude_of_significand _ le_rfl (by decide), unitsPerOne_eq rfl]
    rw [Nat.cast_mul, Nat.cast_pow, Nat.cast_pow, Nat.cast_pow, Nat.cast_ofNat]
    exact hlarge

private theorem distance_eq {x : Float} (hx : pattern x ≤ infinity) (q : ℚ) :
    |q * unitsPerOne - magnitude (pattern x)| = |q - size x| * unitsPerOne := by
  rw [← size_eq hx, ← sub_mul, abs_mul, Nat.abs_cast]

private theorem nearer_iff {x y : Float} (hx : pattern x ≤ infinity) (hy : pattern y ≤ infinity)
    (q : ℚ) :
    |q * unitsPerOne - magnitude (pattern x)| < |q * unitsPerOne - magnitude (pattern y)| ∨
      |q * unitsPerOne - magnitude (pattern x)| = |q * unitsPerOne - magnitude (pattern y)| ∧
        pattern x % 2 = 0 ↔
    |q - size x| < |q - size y| ∨ |q - size x| = |q - size y| ∧ x.toBits.toNat % 2 = 0 := by
  have hunits : (0 : ℚ) < unitsPerOne := by exact_mod_cast unitsPerOne_pos
  have hparity : pattern x % 2 = x.toBits.toNat % 2 := by
    simp only [pattern, Nat.pow_eq]
    omega
  rw [distance_eq hx, distance_eq hy, mul_lt_mul_iff_left₀ hunits, mul_left_inj' hunits.ne', hparity]

/-- It comes down to the nearest pattern. -/
theorem roundsTo_iff {negative : Bool} {q : ℚ} {x : Float} :
    RoundsTo negative q x ↔ isNegative x = negative ∧ IsNearest (q * unitsPerOne) (pattern x) := by
  constructor
  · rintro ⟨hnumber, hsign, hnearest⟩
    have hx := isNaN_eq_false_iff.1 hnumber
    refine ⟨hsign, hx, fun r hr hne => ?_⟩
    have hpattern := pattern_ofPattern negative hr
    have hy : pattern (ofPattern negative r) ≤ infinity := hpattern.le.trans hr
    have hyx : ofPattern negative r ≠ x := by
      rintro rfl
      exact hne hpattern.symm
    have hnearer := hnearest _ (isNaN_eq_false_iff.2 hy) (isNegative_ofPattern negative hr) hyx
    rwa [← nearer_iff hx hy, hpattern] at hnearer
  · rintro ⟨hsign, hx, hnearest⟩
    refine ⟨isNaN_eq_false_iff.2 hx, hsign, fun y hnumber hsign' hyx => ?_⟩
    have hy := isNaN_eq_false_iff.1 hnumber
    have hne : pattern y ≠ pattern x := fun hpattern =>
      hyx (eq_of_pattern_eq hy hpattern (hsign'.trans hsign.symm))
    exact (nearer_iff hx hy q).1 (hnearest _ hy hne)

/-- There is at most one float that a number rounds to. -/
theorem RoundsTo.unique {negative : Bool} {q : ℚ} {x y : Float} (hx : RoundsTo negative q x)
    (hy : RoundsTo negative q y) : x = y := by
  rw [roundsTo_iff] at hx hy
  exact eq_of_pattern_eq hx.2.1 (hx.2.unique hy.2) (hx.1.trans hy.1.symm)

end Scriptlet.Number
