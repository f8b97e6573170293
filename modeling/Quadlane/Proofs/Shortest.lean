import Quadlane.Lane.Digits
import Quadlane.Lane.Numeral
import Quadlane.Proofs.Rounding

/-! The shortest decimal of a lane is rounded to the lane. The search over ever finer grids ends,
since a lane is a multiple of a negative power of ten itself, and what it finds lies in the interval
of the numbers that are rounded to the lane. -/

namespace Quadlane.Lane

/-! ### Ratios as rational numbers -/

namespace Ratio

def value (r : Ratio) : ℚ :=
  r.num / r.den

theorem toNat_zpow (b : ℕ) (hb : b ≠ 0) (e : ℤ) :
    ((b ^ e.toNat : ℕ) : ℚ) / (b ^ (-e).toNat : ℕ) = (b : ℚ) ^ e := by
  have hb' : (b : ℚ) ≠ 0 := by exact_mod_cast hb
  push_cast
  rw [← zpow_natCast, ← zpow_natCast, ← zpow_sub₀ hb']
  congr 1
  omega

theorem value_dyadic (x : ℕ) (e : ℤ) : (dyadic x e).value = x * 2 ^ e := by
  rw [value, dyadic]
  dsimp only
  rw [Nat.shiftLeft_eq, Nat.shiftLeft_eq, one_mul, Nat.cast_mul, mul_div_assoc,
    toNat_zpow 2 (by decide), Nat.cast_ofNat]

theorem value_decimal (x : ℕ) (e : ℤ) : (decimal x e).value = x * 10 ^ e := by
  rw [value, decimal]
  dsimp only
  rw [Nat.pow_eq, Nat.pow_eq, Nat.cast_mul, mul_div_assoc, toNat_zpow 10 (by decide),
    Nat.cast_ofNat]

theorem den_dyadic_pos (x : ℕ) (e : ℤ) : 0 < (dyadic x e).den := by
  simp [dyadic, Nat.shiftLeft_eq]

theorem den_decimal_pos (x : ℕ) (e : ℤ) : 0 < (decimal x e).den :=
  Nat.pow_pos (by decide)

theorem le_iff {r s : Ratio} (hr : 0 < r.den) (hs : 0 < s.den) :
    r.le s = true ↔ r.value ≤ s.value := by
  have hr' : (0 : ℚ) < r.den := by exact_mod_cast hr
  have hs' : (0 : ℚ) < s.den := by exact_mod_cast hs
  rw [le, decide_eq_true_eq, value, value, div_le_div_iff₀ hr' hs']
  exact_mod_cast Iff.rfl

theorem lt_iff {r s : Ratio} (hr : 0 < r.den) (hs : 0 < s.den) :
    r.lt s = true ↔ r.value < s.value := by
  have hr' : (0 : ℚ) < r.den := by exact_mod_cast hr
  have hs' : (0 : ℚ) < s.den := by exact_mod_cast hs
  rw [lt, decide_eq_true_eq, value, value, div_lt_div_iff₀ hr' hs']
  exact_mod_cast Iff.rfl

end Ratio

def Decimal.value (d : Decimal) : ℚ :=
  d.digits * 10 ^ d.exponent

/-! ### The interval of a lane -/

variable {a : Lane}

theorem interval_eq : a.interval =
    { lower := .dyadic (4 * a.significand - Format.single.below a.magnitude) (a.exponent - 2)
      upper := .dyadic (4 * a.significand + 2) (a.exponent - 2)
      closed := a.significand % 2 = 0 } := by
  have hpower : 2 ^ Format.single.fractionBits = 0x800000 := rfl
  rw [interval, Format.below, hpower]
  simp only [Bool.and_eq_true, decide_eq_true_eq]
  rfl

theorem contains_iff (x : ℕ) (e : ℤ) :
    a.interval.contains (.decimal x e) = true ↔ Format.single.Rounds a.magnitude (x * 10 ^ e) := by
  have hle := fun m => Ratio.le_iff (Ratio.den_dyadic_pos m (a.exponent - 2))
    (Ratio.den_decimal_pos x e)
  have hle' := fun m => Ratio.le_iff (Ratio.den_decimal_pos x e)
    (Ratio.den_dyadic_pos m (a.exponent - 2))
  have hlt := fun m => Ratio.lt_iff (Ratio.den_dyadic_pos m (a.exponent - 2))
    (Ratio.den_decimal_pos x e)
  have hlt' := fun m => Ratio.lt_iff (Ratio.den_decimal_pos x e)
    (Ratio.den_dyadic_pos m (a.exponent - 2))
  simp only [Ratio.value_dyadic, Ratio.value_decimal] at hle hle' hlt hlt'
  rw [Interval.contains, interval_eq]
  dsimp only
  split
  · next heven =>
    rw [decide_eq_true_eq] at heven
    rw [Bool.and_eq_true, hle, hle']
    refine ⟨fun h => ⟨h.1, h.2, fun hodd => ?_⟩, fun h => ⟨h.lower, h.upper⟩⟩
    exact absurd heven (by rw [significand, hodd]; decide)
  · next hodd =>
    rw [decide_eq_true_eq] at hodd
    rw [Bool.and_eq_true, hlt, hlt']
    exact ⟨fun h => ⟨h.1.le, h.2.le, fun _ => h⟩, fun h => h.strict (Nat.mod_two_ne_zero.mp hodd)⟩

/-! ### The search -/

theorem roundHalfEven_eq_or (n d : ℕ) :
    roundHalfEven n d = n / d ∨ roundHalfEven n d = n / d + 1 := by
  unfold roundHalfEven
  split
  · exact .inl rfl
  · split
    · exact .inr rfl
    · omega

theorem rounds_onGrid {unit : ℤ} {d : Decimal} (h : onGrid a unit = some d) :
    Format.single.Rounds a.magnitude d.value := by
  unfold onGrid at h
  dsimp only at h
  have hround := roundHalfEven_eq_or
    ((a.significand <<< a.exponent.toNat) * Nat.pow 10 (-unit).toNat)
    ((1 <<< (-a.exponent).toNat) * Nat.pow 10 unit.toNat)
  apply (contains_iff d.digits d.exponent).mp
  split at h
  · next hlow hhigh =>
    cases h
    rcases hround with hround | hround
    · rwa [hround]
    · rwa [hround]
  · next hlow _ =>
    cases h
    exact hlow
  · next _ hhigh =>
    cases h
    exact hhigh
  · cases h

theorem exists_onGrid {unit : ℤ} (h : 0 < a.magnitude) (hunit : unit ≤ -149) :
    ∃ d, onGrid a unit = some d := by
  have hleast : -149 ≤ a.exponent := Format.least_le_exponent (f := .single) (M := a.magnitude)
  have hdvd : (1 <<< (-a.exponent).toNat) * Nat.pow 10 unit.toNat ∣
      (a.significand <<< a.exponent.toNat) * Nat.pow 10 (-unit).toNat := by
    rw [Int.toNat_eq_zero.mpr (show unit ≤ 0 by omega), Nat.shiftLeft_eq, one_mul]
    apply Dvd.dvd.mul_left
    rw [Nat.pow_eq, Nat.pow_eq, pow_zero, mul_one]
    calc 2 ^ (-a.exponent).toNat ∣ 2 ^ (-unit).toNat := Nat.pow_dvd_pow 2 (by omega)
      _ ∣ 10 ^ (-unit).toNat := pow_dvd_pow_of_dvd (by decide) _
  have hlow : (((a.significand <<< a.exponent.toNat) * Nat.pow 10 (-unit).toNat /
      ((1 <<< (-a.exponent).toNat) * Nat.pow 10 unit.toNat) : ℕ) : ℚ) * 10 ^ unit =
      a.significand * 2 ^ a.exponent := by
    have htwo := Ratio.toNat_zpow 2 (by decide) a.exponent
    have hten := Ratio.toNat_zpow 10 (by decide) (-unit)
    rw [neg_neg, zpow_neg] at hten
    rw [Nat.cast_div_charZero hdvd, Nat.shiftLeft_eq, Nat.shiftLeft_eq, Nat.pow_eq, Nat.pow_eq]
    push_cast at htwo hten ⊢
    rw [one_mul, mul_div_mul_comm, hten, mul_div_assoc, htwo, mul_assoc,
      inv_mul_cancel₀ (zpow_ne_zero _ (by norm_num)), mul_one]
  have hfits := (contains_iff (a := a) _ unit).mpr (hlow ▸ Format.Rounds.self h)
  unfold onGrid
  dsimp only
  rw [hfits]
  split
  · exact ⟨_, rfl⟩
  · exact ⟨_, rfl⟩
  · next hfalse _ => cases hfalse
  · next hfalse _ => cases hfalse

theorem rounds_refine {unit : ℤ} {fuel : ℕ} (h : 0 < a.magnitude) (hpos : 0 < fuel)
    (hfuel : unit + 149 < fuel) :
    Format.single.Rounds a.magnitude (refine a unit fuel).value := by
  induction fuel generalizing unit with
  | zero => exact absurd hpos (lt_irrefl 0)
  | succ fuel ih =>
    rw [refine]
    cases hgrid : onGrid a unit with
    | some d => exact rounds_onGrid hgrid
    | none =>
      have hcoarse : -149 < unit := by
        by_contra hfine
        obtain ⟨d, hd⟩ := exists_onGrid h (not_lt.mp hfine)
        rw [hgrid] at hd
        cases hd
      push_cast at hfuel
      exact ih (by omega) (by omega)

theorem exponent_le (h : a.magnitude < Format.single.infinity) : a.exponent ≤ 104 := by
  have hinfinity : Format.single.infinity = 0x7F800000 := rfl
  have hfield : a.magnitude >>> 23 ≤ 254 := by
    rw [Nat.shiftRight_eq_div_pow]
    omega
  have hexponent : a.exponent = -149 + ((a.magnitude >>> 23 - 1 : ℕ) : ℤ) := rfl
  omega

theorem decade_le (h : a.magnitude < Format.single.infinity) : a.decade ≤ 39 := by
  have hlog : a.significand.log2 ≤ 23 := by
    rcases Nat.eq_zero_or_pos a.significand with hzero | hpos
    · rw [hzero]
      decide
    · exact Nat.lt_succ_iff.mp ((Nat.log2_lt hpos.ne').mpr
        (Format.significand_lt (f := .single) (M := a.magnitude)))
  have hexponent := exponent_le h
  unfold decade
  dsimp only
  split
  · omega
  · split <;> omega

theorem rounds_shortest (h : 0 < a.magnitude) (hfinite : a.magnitude < Format.single.infinity) :
    Format.single.Rounds a.magnitude a.shortest.value := by
  apply rounds_refine h (by decide)
  have := decade_le hfinite
  omega

theorem value_trimZeros (fuel : ℕ) (d : Decimal) : (trimZeros fuel d).value = d.value := by
  induction fuel generalizing d with
  | zero => rfl
  | succ fuel ih =>
    rw [trimZeros]
    split
    · next hzero =>
      have hdigits : d.digits = 10 * (d.digits / 10) := by omega
      rw [ih, Decimal.value, Decimal.value]
      dsimp only
      rw [zpow_add₀ (by norm_num), zpow_one]
      nth_rewrite 2 [hdigits]
      push_cast
      ring
    · rfl

/-! ### Reading a decimal -/

theorem eight_zpow (t : ℤ) : (2 : ℚ) ^ (3 * t) = 8 ^ t := by
  rw [zpow_mul]
  norm_num

theorem sixteen_zpow (t : ℤ) : (2 : ℚ) ^ (4 * t) = 16 ^ t := by
  rw [zpow_mul]
  norm_num

theorem ten_zpow_bounds (t : ℤ) :
    (2 : ℚ) ^ (if 0 ≤ t then 3 * t else 4 * t) ≤ 10 ^ t ∧
      (10 : ℚ) ^ t ≤ 2 ^ (if 0 ≤ t then 4 * t else 3 * t) := by
  rcases le_or_gt 0 t with ht | ht
  · rw [if_pos ht, if_pos ht, eight_zpow, sixteen_zpow]
    exact ⟨zpow_le_zpow_left₀ ht (by norm_num) (by norm_num),
      zpow_le_zpow_left₀ ht (by norm_num) (by norm_num)⟩
  · rw [if_neg (not_le.mpr ht), if_neg (not_le.mpr ht), eight_zpow, sixteen_zpow]
    obtain ⟨n, rfl⟩ : ∃ n : ℕ, t = -n := ⟨(-t).toNat, by omega⟩
    simp only [zpow_neg, zpow_natCast]
    exact ⟨inv_anti₀ (by positivity) (pow_le_pow_left₀ (by norm_num) (by norm_num) n),
      inv_anti₀ (by positivity) (pow_le_pow_left₀ (by norm_num) (by norm_num) n)⟩

theorem magnitude_eq {digits : ℕ} {tens : ℤ} (h : 0 < a.magnitude)
    (hfinite : a.magnitude < Format.single.infinity)
    (hrounds : Format.single.Rounds a.magnitude (digits * 10 ^ tens)) :
    Numeral.magnitude .single digits 0 tens = a.magnitude := by
  have hdigits : digits ≠ 0 := by
    rintro rfl
    simpa using hrounds.pos h
  obtain ⟨hten, hten'⟩ := ten_zpow_bounds tens
  have hdigits' : (0 : ℚ) < digits := by exact_mod_cast Nat.pos_of_ne_zero hdigits
  -- Neither bound on the expansion is met.
  have hsize : (digits.log2 : ℤ) + (if 0 ≤ tens then 3 * tens else 4 * tens) <
      a.exponent + (Format.single.fractionBits + 1 : ℕ) := by
    apply two_zpow_lt_iff.mp
    calc _ ≤ (digits : ℚ) * 2 ^ (if 0 ≤ tens then 3 * tens else 4 * tens) :=
          log2_le_mul_zpow hdigits _
      _ ≤ digits * 10 ^ tens := mul_le_mul_of_nonneg_left hten hdigits'.le
      _ < _ := hrounds.lt_zpow
  have hreach : Format.single.least - 2 <
      (digits.log2 : ℤ) + 1 + (if 0 ≤ tens then 4 * tens else 3 * tens) := by
    apply two_zpow_lt_iff.mp
    calc _ < (digits : ℚ) * 10 ^ tens := hrounds.least_lt h
      _ ≤ digits * 2 ^ (if 0 ≤ tens then 4 * tens else 3 * tens) :=
          mul_le_mul_of_nonneg_left hten' hdigits'.le
      _ < _ := mul_zpow_lt_log2 _ _
  have hexponent := exponent_le hfinite
  have hbits : Format.single.fractionBits = 23 := rfl
  have hleast : Format.single.least = -149 := rfl
  rw [Numeral.magnitude, add_zero, add_zero, if_neg hdigits, if_neg (by omega), if_neg (by omega)]
  apply Format.roundQuotient_eq (Ratio.den_decimal_pos digits tens) h hfinite
  rw [zpow_zero, mul_one]
  show Format.single.Rounds a.magnitude (Ratio.decimal digits tens).value
  rwa [Ratio.value_decimal]

end Quadlane.Lane
