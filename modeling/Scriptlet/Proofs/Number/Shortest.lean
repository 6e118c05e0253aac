import Mathlib
import Scriptlet.Number.Decimal
import Scriptlet.Proofs.Number.Nearest

namespace Scriptlet

/-- The number that the decimal stands for. -/
def Decimal.value (d : Decimal) : ℚ := d.coefficient * 10 ^ d.exponent

theorem pow_toNat {b : ℚ} (hb : b ≠ 0) (z : ℤ) : b ^ z.toNat = b ^ z * b ^ (-z).toNat := by
  rw [← zpow_natCast, ← zpow_natCast, ← zpow_add₀ hb]
  congr 1
  omega

namespace Surrounds

open Binary64

/-- The ends are on the two sides of the float, and zero is not between them. -/
structure Proper (s : Surrounds) : Prop where
  low_pos : 0 < s.low
  low_lt : s.low < s.value
  lt_high : s.value < s.high

def FromLow (s : Surrounds) (q : ℚ) : Prop :=
  s.low * 2 ^ s.exponent < q ∨ s.low * 2 ^ s.exponent = q ∧ s.endsIncluded

def UpToHigh (s : Surrounds) (q : ℚ) : Prop :=
  q < s.high * 2 ^ s.exponent ∨ q = s.high * 2 ^ s.exponent ∧ s.endsIncluded

/-- The number rounds to the float: it lies between the two ends, or on one of them if they are
included. -/
def Admits (s : Surrounds) (q : ℚ) : Prop := s.FromLow q ∧ s.UpToHigh q

theorem FromLow.mono {s : Surrounds} {q r : ℚ} (h : s.FromLow q) (hqr : q ≤ r) : s.FromLow r := by
  rcases h with h | ⟨h, hends⟩
  · exact .inl (h.trans_le hqr)
  · rcases hqr.lt_or_eq with hlt | rfl
    · exact .inl (h.trans_lt hlt)
    · exact .inr ⟨h, hends⟩

theorem UpToHigh.mono {s : Surrounds} {q r : ℚ} (h : s.UpToHigh r) (hqr : q ≤ r) :
    s.UpToHigh q := by
  rcases h with h | ⟨h, hends⟩
  · exact .inl (hqr.trans_lt h)
  · rcases hqr.lt_or_eq with hlt | rfl
    · exact .inl (hlt.trans_eq h)
    · exact .inr ⟨h, hends⟩

section

variable {s : Surrounds} (hs : s.Proper)

include hs

private theorem fromLow_value : s.FromLow (s.value * 2 ^ s.exponent) := by
  have hlow : (s.low : ℚ) < s.value := by exact_mod_cast hs.low_lt
  exact .inl (mul_lt_mul_of_pos_right hlow (zpow_pos two_pos _))

private theorem upToHigh_value : s.UpToHigh (s.value * 2 ^ s.exponent) := by
  have hhigh : (s.value : ℚ) < s.high := by exact_mod_cast hs.lt_high
  exact .inl (mul_lt_mul_of_pos_right hhigh (zpow_pos two_pos _))

private theorem not_admits_zero : ¬s.Admits 0 := by
  rintro ⟨hlow, -⟩
  have hpos : (0 : ℚ) < s.low * 2 ^ s.exponent :=
    mul_pos (by exact_mod_cast hs.low_pos) (zpow_pos two_pos _)
  rcases hlow with h | ⟨h, -⟩
  · exact hpos.asymm h
  · exact hpos.ne' h

end

section

variable (e k : ℤ)

def scale : Nat := 2 ^ e.toNat * 10 ^ (-k).toNat

def unit : Nat := 2 ^ (-e).toNat * 10 ^ k.toNat

def parts : Nat := 2 ^ (-e).toNat * 10 ^ (-k).toNat

private theorem unit_pos : 0 < unit e k := by
  unfold unit
  positivity

private theorem parts_pos : (0 : ℚ) < parts e k := by
  unfold parts
  positivity

private theorem cast_scale (a : Nat) : ((a * scale e k : Nat) : ℚ) = a * 2 ^ e * parts e k := by
  unfold scale parts
  push_cast
  rw [pow_toNat two_ne_zero e]
  ring

private theorem cast_unit (c : Nat) : ((c * unit e k : Nat) : ℚ) = c * 10 ^ k * parts e k := by
  unfold unit parts
  push_cast
  rw [pow_toNat (show (10 : ℚ) ≠ 0 by decide) k]
  ring

variable (a c : Nat)

private theorem scale_lt_unit_iff : a * scale e k < c * unit e k ↔ (a * 2 ^ e : ℚ) <
    c * 10 ^ k := by
  rw [← Nat.cast_lt (α := ℚ), cast_scale, cast_unit]
  exact mul_lt_mul_iff_left₀ (parts_pos e k)

private theorem unit_lt_scale_iff : c * unit e k < a * scale e k ↔ (c * 10 ^ k : ℚ) <
    a * 2 ^ e := by
  rw [← Nat.cast_lt (α := ℚ), cast_scale, cast_unit]
  exact mul_lt_mul_iff_left₀ (parts_pos e k)

private theorem scale_le_unit_iff : a * scale e k ≤ c * unit e k ↔ (a * 2 ^ e : ℚ) ≤
    c * 10 ^ k := by
  rw [← not_lt, unit_lt_scale_iff, not_lt]

private theorem unit_le_scale_iff : c * unit e k ≤ a * scale e k ↔ (c * 10 ^ k : ℚ) ≤
    a * 2 ^ e := by
  rw [← not_lt, scale_lt_unit_iff, not_lt]

end

private theorem lt_or_eq_and_iff {q r : ℚ} {included : Bool} :
    q < r ∨ q = r ∧ included = true ↔ if included then q ≤ r else q < r := by
  cases included <;> simp [le_iff_lt_or_eq]

section

variable (s : Surrounds) (k : ℤ) (c : Nat)

private theorem admitsFromBelow_iff :
    s.admitsFromBelow (c * unit s.exponent k) (scale s.exponent k) = true ↔ s.FromLow (c * 10 ^ k) := by
  rw [FromLow, lt_or_eq_and_iff, ← scale_le_unit_iff, ← scale_lt_unit_iff, admitsFromBelow]
  split <;> exact decide_eq_true_iff

private theorem admitsFromAbove_iff :
    s.admitsFromAbove (c * unit s.exponent k) (scale s.exponent k) = true ↔ s.UpToHigh (c * 10 ^ k) := by
  rw [UpToHigh, lt_or_eq_and_iff, ← unit_le_scale_iff, ← unit_lt_scale_iff, admitsFromAbove]
  split <;> exact decide_eq_true_iff

end

/-- The last multiple of `10^k` that is not above the float. -/
def lastBelow (s : Surrounds) (k : ℤ) : Nat := s.value * scale s.exponent k / unit s.exponent k

private theorem onGrid?_cases (s : Surrounds) (k : ℤ) :
    s.onGrid? k = some (s.lastBelow k) ∧ s.FromLow (s.lastBelow k * 10 ^ k) ∨
    s.onGrid? k = some (s.lastBelow k + 1) ∧ s.UpToHigh ((s.lastBelow k + 1 : Nat) * 10 ^ k) ∨
    s.onGrid? k = none ∧ ¬s.FromLow (s.lastBelow k * 10 ^ k) ∧
      ¬s.UpToHigh ((s.lastBelow k + 1 : Nat) * 10 ^ k) := by
  rw [← admitsFromBelow_iff, ← admitsFromAbove_iff]
  generalize hchoice : s.onGrid? k = choice
  rw [onGrid?] at hchoice
  split at hchoice
  next hbelow habove => exact .inr (.inr ⟨hchoice.symm, ne_true_of_eq_false hbelow, ne_true_of_eq_false habove⟩)
  next hbelow habove => exact .inl ⟨hchoice.symm, hbelow⟩
  next hbelow habove => exact .inr (.inl ⟨hchoice.symm, habove⟩)
  next hbelow habove =>
    split at hchoice
    next => exact .inl ⟨hchoice.symm, hbelow⟩
    next => exact .inr (.inl ⟨hchoice.symm, habove⟩)

private theorem lastBelow_le (s : Surrounds) (k : ℤ) :
    (s.lastBelow k * 10 ^ k : ℚ) ≤ s.value * 2 ^ s.exponent := by
  rw [← unit_le_scale_iff]
  exact Nat.div_mul_le_self _ _

private theorem lt_lastBelow_succ (s : Surrounds) (k : ℤ) :
    (s.value * 2 ^ s.exponent : ℚ) < (s.lastBelow k + 1 : Nat) * 10 ^ k := by
  rw [← scale_lt_unit_iff, ← Nat.div_lt_iff_lt_mul (unit_pos s.exponent k)]
  exact Nat.lt_succ_self _

private theorem admits_of_onGrid? {s : Surrounds} (hs : s.Proper) {k : ℤ} {c : Nat}
    (h : s.onGrid? k = some c) :
    s.Admits (c * 10 ^ k) := by
  obtain ⟨heq, hlow⟩ | ⟨heq, hhigh⟩ | ⟨heq, -⟩ := s.onGrid?_cases k <;> rw [heq] at h <;> cases h
  · exact ⟨hlow, (upToHigh_value hs).mono (s.lastBelow_le k)⟩
  · exact ⟨(fromLow_value hs).mono (s.lt_lastBelow_succ k).le, hhigh⟩

/-- The two multiples around the float are the ones that are closest to it from either side. -/
theorem not_admits_of_onGrid? {s : Surrounds} {k : ℤ} (h : s.onGrid? k = none) (c : Nat) :
    ¬s.Admits (c * 10 ^ k) := by
  have hgrid : 0 ≤ (10 : ℚ) ^ k := zpow_nonneg (by decide) k
  obtain ⟨heq, -⟩ | ⟨heq, -⟩ | ⟨-, hlow, hhigh⟩ := s.onGrid?_cases k
  · simp [heq] at h
  · simp [heq] at h
  · intro hc
    rcases Nat.lt_or_ge (s.lastBelow k) c with hlt | hge
    · exact hhigh (hc.2.mono (mul_le_mul_of_nonneg_right (by exact_mod_cast hlt) hgrid))
    · exact hlow (hc.1.mono (mul_le_mul_of_nonneg_right (by exact_mod_cast hge) hgrid))

private theorem proper_ofPattern {p : Nat} (hp : 0 < p) : (ofPattern p).Proper := by
  have hm := mantissa_pos hp
  constructor
  · simp only [ofPattern]
    split <;> omega
  · simp only [ofPattern]
    split <;> omega
  · simp only [ofPattern]
    omega

private theorem low_ofPattern (r : Nat) :
    2 * (magnitude r + magnitude (r + 1)) = (ofPattern (r + 1)).low * 2 ^ doublings (r + 1) := by
  have hstep := magnitude_succ r
  have hvalue := magnitude_eq (r + 1)
  obtain ⟨t, ht⟩ := Nat.exists_eq_add_one_of_ne_zero (mantissa_pos (Nat.succ_pos r)).ne'
  simp only [ofPattern]
  split
  next hstart =>
    have hlast : doublings (r + 1) = doublings r + 1 := by
      simp only [mantissa, doublings, Nat.pow_eq] at hstart ⊢
      omega
    have hlow : 4 * (t + 1) - 1 = 4 * t + 3 := rfl
    rw [hlast, Nat.pow_succ, ht] at hvalue
    rw [hlast, Nat.pow_succ, ht, hlow]
    linarith
  next hwithin =>
    have hlast : doublings (r + 1) = doublings r := by
      simp only [mantissa, doublings, Nat.pow_eq] at hwithin ⊢
      omega
    have hlow : 4 * (t + 1) - 2 = 4 * t + 2 := rfl
    rw [hlast, ht] at hvalue
    rw [hlast, ht, hlow]
    linarith

private theorem high_ofPattern (p : Nat) :
    2 * (magnitude p + magnitude (p + 1)) = (ofPattern p).high * 2 ^ doublings p := by
  rw [magnitude_succ, magnitude_eq]
  simp only [ofPattern]
  ring

private theorem value_ofPattern (p : Nat) :
    4 * magnitude p = (ofPattern p).value * 2 ^ doublings p := by
  rw [magnitude_eq]
  simp only [ofPattern]
  ring

private theorem endsIncluded_ofPattern (p : Nat) :
    (ofPattern p).endsIncluded = true ↔ p % 2 = 0 := by
  rw [ofPattern, decide_eq_true_iff]
  simp only [mantissa, doublings, Nat.pow_eq]
  omega

/-- The ends are given in units of a quarter of the spacing. -/
theorem quarters (a p : Nat) :
    (a * 2 ^ (ofPattern p).exponent * unitsPerOne * 4 : ℚ) = (a * 2 ^ doublings p : Nat) := by
  obtain ⟨k, hk⟩ : ∃ k, 1074 = k := ⟨_, rfl⟩
  have hexponent : (ofPattern p).exponent = (doublings p : ℤ) - (k + 2 : Nat) := by
    simp only [ofPattern]
    omega
  rw [hexponent, unitsPerOne_eq hk, zpow_sub₀ two_ne_zero, zpow_natCast, zpow_natCast]
  push_cast
  field_simp
  ring

private theorem fromLow_iff (r : Nat) {q : ℚ} :
    (ofPattern (r + 1)).FromLow q ↔ FromBelow (q * unitsPerOne) (r + 1) := by
  have hunits : (0 : ℚ) < unitsPerOne := by exact_mod_cast unitsPerOne_pos
  have hmid := quarters (ofPattern (r + 1)).low (r + 1)
  rw [← low_ofPattern] at hmid
  push_cast at hmid
  have hlt : (ofPattern (r + 1)).low * 2 ^ (ofPattern (r + 1)).exponent < q ↔
      (magnitude r + magnitude (r + 1) : ℚ) < 2 * (q * unitsPerOne) := by
    rw [← mul_lt_mul_iff_left₀ hunits]
    constructor <;> intro h <;> linarith
  have heq : (ofPattern (r + 1)).low * 2 ^ (ofPattern (r + 1)).exponent = q ↔
      (magnitude r + magnitude (r + 1) : ℚ) = 2 * (q * unitsPerOne) := by
    rw [← mul_left_inj' hunits.ne']
    constructor <;> intro h <;> linarith
  rw [FromLow, hlt, heq, endsIncluded_ofPattern]
  constructor
  · rintro h s hs
    cases hs
    exact h
  · exact fun h => h r rfl

private theorem upToHigh_iff (p : Nat) {q : ℚ} :
    (ofPattern p).UpToHigh q ↔ FromAbove (q * unitsPerOne) p := by
  have hunits : (0 : ℚ) < unitsPerOne := by exact_mod_cast unitsPerOne_pos
  have hmid := quarters (ofPattern p).high p
  rw [← high_ofPattern] at hmid
  push_cast at hmid
  have hlt : q < (ofPattern p).high * 2 ^ (ofPattern p).exponent ↔
      2 * (q * unitsPerOne) < (magnitude p + magnitude (p + 1) : ℚ) := by
    rw [← mul_lt_mul_iff_left₀ hunits]
    constructor <;> intro h <;> linarith
  have heq : q = (ofPattern p).high * 2 ^ (ofPattern p).exponent ↔
      2 * (q * unitsPerOne) = (magnitude p + magnitude (p + 1) : ℚ) := by
    rw [← mul_left_inj' hunits.ne']
    constructor <;> intro h <;> linarith
  rw [UpToHigh, hlt, heq, endsIncluded_ofPattern, FromAbove]

/-- What is admitted is what rounds to the pattern. -/
theorem admits_iff {p : Nat} (hpos : 0 < p) (hp : p < infinity) {q : ℚ} :
    (ofPattern p).Admits q ↔ IsNearest (q * unitsPerOne) p := by
  obtain ⟨r, rfl⟩ := Nat.exists_eq_add_one_of_ne_zero hpos.ne'
  rw [Admits, fromLow_iff, upToHigh_iff]
  exact ⟨fun h => isNearest_of_between hp.le h.1 fun _ => h.2, fun h => ⟨h.fromBelow, h.fromAbove hp⟩⟩

private theorem two_zpow_le_of_powers {a b : Nat} {n m : ℤ} (ha : a ≠ 0)
    (hbase : ((2 : ℚ) ^ a) ^ n ≤ (10 ^ b) ^ n) (hexponent : b * n ≤ m * a) : (2 : ℚ) ^ n ≤ 10 ^ m := by
  apply le_of_pow_le_pow_left₀ ha (zpow_nonneg (by decide) _)
  calc ((2 : ℚ) ^ n) ^ a = (2 ^ a) ^ n := by
        rw [← zpow_natCast, ← zpow_natCast, zpow_comm]
    _ ≤ (10 ^ b) ^ n := hbase
    _ = 10 ^ (b * n) := by rw [← zpow_natCast, ← zpow_mul]
    _ ≤ 10 ^ (m * a) := zpow_le_zpow_right₀ (by decide) hexponent
    _ = (10 ^ m) ^ a := by rw [zpow_mul, zpow_natCast]

/-- `30103 / 100000` is above the logarithm of two, by too little to matter for exponents of floats. -/
theorem two_zpow_le {n : ℤ} (hlow : -1100 ≤ n) (hhigh : n ≤ 1100) :
    (2 : ℚ) ^ (n + 1) ≤ 10 ^ (n * 30103 / 100000 + 2) := by
  rcases le_or_gt 0 (n + 1) with hn | hn
  · have hbase : (2 : ℚ) ^ 93 ≤ 10 ^ 28 := by norm_num
    apply two_zpow_le_of_powers (by decide) (zpow_le_zpow_left₀ hn (by positivity) hbase)
    push_cast
    omega
  · have hbase : ((2 : ℚ) ^ 103)⁻¹ ≤ (10 ^ 31)⁻¹ := by norm_num
    have hinverse := zpow_le_zpow_left₀ (show 0 ≤ -(n + 1) by omega) (by positivity) hbase
    rw [inv_zpow', inv_zpow', neg_neg] at hinverse
    apply two_zpow_le_of_powers (by decide) hinverse
    push_cast
    omega

private theorem high_lt {p : Nat} (hpos : 0 < p) (hp : p < infinity) :
    ((ofPattern p).high * 2 ^ (ofPattern p).exponent : ℚ) < 10 ^ ((ofPattern p).startExponent + 1) := by
  have hm := mantissa_pos hpos
  have hvalue : (ofPattern p).value = 4 * mantissa p := rfl
  have hne : (ofPattern p).value ≠ 0 := by omega
  have hfits : (ofPattern p).value.log2 < 55 := by
    rw [Nat.log2_lt hne, hvalue]
    simp only [mantissa, doublings, Nat.pow_eq]
    omega
  have hexponent : -1076 ≤ (ofPattern p).exponent ∧ (ofPattern p).exponent ≤ 969 := by
    simp only [ofPattern, doublings, infinity, Nat.pow_eq] at hp ⊢
    omega
  have hhigh : ((ofPattern p).high : ℚ) < 2 ^ ((ofPattern p).value.log2 + 2 : ℤ) := by
    have hdouble : (ofPattern p).high < 2 ^ ((ofPattern p).value.log2 + 2) := by
      calc (ofPattern p).high = 4 * mantissa p + 2 := rfl
        _ ≤ 2 * (ofPattern p).value := by omega
        _ < 2 * 2 ^ ((ofPattern p).value.log2 + 1) := by
          have := Nat.lt_log2_self (n := (ofPattern p).value)
          omega
        _ = 2 ^ ((ofPattern p).value.log2 + 2) := by ring
    exact_mod_cast hdouble
  calc ((ofPattern p).high * 2 ^ (ofPattern p).exponent : ℚ)
      < 2 ^ ((ofPattern p).value.log2 + 2 : ℤ) * 2 ^ (ofPattern p).exponent :=
        mul_lt_mul_of_pos_right hhigh (zpow_pos two_pos _)
    _ = 2 ^ ((ofPattern p).value.log2 + 1 + (ofPattern p).exponent + 1) := by
        rw [← zpow_add₀ two_ne_zero]
        congr 1
        ring
    _ ≤ 10 ^ (((ofPattern p).value.log2 + 1 + (ofPattern p).exponent) * 30103 / 100000 + 2) :=
        two_zpow_le (by omega) (by omega)
    _ = 10 ^ ((ofPattern p).startExponent + 1) := by
        rw [startExponent]
        congr 1
        ring

/-- Grids that are too coarse for the search have no number but zero below the high end. -/
theorem not_admits_of_startExponent_lt {p : Nat} (hpos : 0 < p) (hp : p < infinity) {k : ℤ}
    (hk : (ofPattern p).startExponent < k) (c : Nat) : ¬(ofPattern p).Admits (c * 10 ^ k) := by
  intro h
  rcases Nat.eq_zero_or_pos c with rfl | hc
  · rw [Nat.cast_zero, zero_mul] at h
    exact not_admits_zero (proper_ofPattern hpos) h
  · have hlarge : ((ofPattern p).high * 2 ^ (ofPattern p).exponent : ℚ) < c * 10 ^ k := by
      calc ((ofPattern p).high * 2 ^ (ofPattern p).exponent : ℚ)
          < 10 ^ ((ofPattern p).startExponent + 1) := high_lt hpos hp
        _ ≤ 10 ^ k := zpow_le_zpow_right₀ (by decide) hk
        _ ≤ c * 10 ^ k := le_mul_of_one_le_left (zpow_nonneg (by decide) k) (by exact_mod_cast hc)
    rcases h.2 with h | ⟨h, -⟩
    · exact h.asymm hlarge
    · exact h.not_gt hlarge

end Surrounds

namespace Decimal

open Binary64 Surrounds

private theorem descend_succ (s : Surrounds) (p n : Nat) : descend s p (n + 1) =
    match s.onGrid? (n - 1073) with
    | some c => ⟨c, n - 1073⟩
    | none => descend s p n := rfl

/-- On the last grid lies the float itself. -/
theorem value_descend_zero (s : Surrounds) (p : Nat) :
    (descend s p 0).value * unitsPerOne = magnitude p := by
  obtain ⟨k, hk⟩ : ∃ k, 1074 = k := ⟨_, rfl⟩
  have hlast : descend s p 0 = ⟨magnitude p * Nat.pow 5 1074, -1074⟩ := rfl
  have hexponent : (-1074 : ℤ) = -k := by omega
  have hten : (10 : ℚ) ^ k = 2 ^ k * 5 ^ k := by
    rw [← mul_pow]
    norm_num
  rw [hlast, hk, hexponent, value, unitsPerOne_eq hk, zpow_neg, zpow_natCast, hten, Nat.pow_eq]
  push_cast
  field_simp

private theorem admits_descend {p : Nat} (hpos : 0 < p) (n : Nat) :
    (Surrounds.ofPattern p).Admits (descend (Surrounds.ofPattern p) p n).value := by
  induction n with
  | zero =>
    have hproper := proper_ofPattern hpos
    have hvalue : (descend (Surrounds.ofPattern p) p 0).value =
        (Surrounds.ofPattern p).value * 2 ^ (Surrounds.ofPattern p).exponent := by
      have hunits : (unitsPerOne : ℚ) ≠ 0 := by exact_mod_cast unitsPerOne_pos.ne'
      have hquarters := quarters (Surrounds.ofPattern p).value p
      rw [← value_ofPattern] at hquarters
      push_cast at hquarters
      apply mul_right_cancel₀ hunits
      rw [value_descend_zero]
      linarith
    rw [hvalue]
    exact ⟨fromLow_value hproper, upToHigh_value hproper⟩
  | succ n ih =>
    rw [descend_succ]
    cases h : (Surrounds.ofPattern p).onGrid? (n - 1073) with
    | some c => exact admits_of_onGrid? (proper_ofPattern hpos) h
    | none => exact ih

/-- The search goes on only from grids on which there is nothing. -/
theorem not_admits_above_descend (s : Surrounds) (p n : Nat) {k : ℤ}
    (hlow : (descend s p n).exponent < k) (hhigh : k ≤ n - 1074) (c : Nat) : ¬s.Admits (c * 10 ^ k) := by
  induction n with
  | zero =>
    have hlast : (descend s p 0).exponent = -1074 := rfl
    omega
  | succ n ih =>
    rw [descend_succ] at hlow
    cases h : s.onGrid? (n - 1073) with
    | some c' =>
      rw [h] at hlow
      dsimp only at hlow
      omega
    | none =>
      rw [h] at hlow
      rcases hhigh.lt_or_eq with hlt | rfl
      · exact ih hlow (by omega)
      · have hk : ((n + 1 : Nat) : ℤ) - 1074 = n - 1073 := by omega
        rw [hk]
        exact not_admits_of_onGrid? h c

section

variable {p : Nat} (hp : p < infinity)

include hp

/-- The text of a float is read back as it. -/
theorem isNearest_shortest : IsNearest ((shortest p).value * unitsPerOne) p := by
  rcases Nat.eq_zero_or_pos p with rfl | hpos
  · have hzero : (shortest 0).value * unitsPerOne = 0 := by
      have hdecimal : shortest 0 = ⟨0, 0⟩ := rfl
      rw [hdecimal, value, Nat.cast_zero, zero_mul, zero_mul]
    rw [hzero]
    apply isNearest_of_between hp.le
    · rintro r ⟨⟩
    · intro _
      have hnext : (0 : ℚ) < magnitude (0 + 1) := cast_magnitude_lt (Nat.zero_lt_one)
      have hthis : (0 : ℚ) ≤ magnitude 0 := Nat.cast_nonneg _
      exact .inl (by linarith)
  · rw [shortest, if_neg hpos.ne', ← admits_iff hpos hp]
    exact admits_descend hpos _

/-- There is no shorter text: on a coarser grid no number rounds to the float. -/
theorem not_isNearest_above_shortest (hpos : 0 < p) {k : ℤ}
    (hk : (shortest p).exponent < k) (c : Nat) :
    ¬IsNearest (c * 10 ^ k * unitsPerOne) p := by
  rw [← admits_iff hpos hp]
  rw [shortest, if_neg hpos.ne'] at hk
  rcases Int.lt_or_le (Surrounds.ofPattern p).startExponent k with hcoarse | hfine
  · exact not_admits_of_startExponent_lt hpos hp hcoarse c
  · exact not_admits_above_descend _ p _ hk (by omega) c

/-- So the digits do not end in a zero. -/
theorem coefficient_shortest (hpos : 0 < p) : (shortest p).coefficient % 10 ≠ 0 := by
  intro hzero
  obtain ⟨c, hc⟩ := Nat.dvd_of_mod_eq_zero hzero
  have hcoarser : (shortest p).value = c * 10 ^ ((shortest p).exponent + 1) := by
    rw [value, hc, zpow_add_one₀ (by decide)]
    push_cast
    ring
  have hnearest := isNearest_shortest hp
  rw [hcoarser] at hnearest
  exact not_isNearest_above_shortest hp hpos (Int.lt_succ _) c hnearest

end

end Decimal

end Scriptlet
