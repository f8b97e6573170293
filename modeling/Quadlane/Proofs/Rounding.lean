import Mathlib
import Quadlane.Lane.Basic

/-! Rounding to the nearest magnitude. A number within half a unit of a magnitude, or at that
distance from an even one, is rounded to it, and so is a quotient of which only some bits and the
fact that more follow are kept: the ends of the interval lie on the grid of those bits. -/

namespace Quadlane

/-- The integer nearest to a number, the even one of two equally near. -/
structure Nearest (k : ℕ) (y : ℚ) : Prop where
  lower : 2 * (k : ℚ) ≤ 2 * y + 1
  upper : 2 * y ≤ 2 * k + 1
  strict : k % 2 = 1 → 2 * (k : ℚ) < 2 * y + 1 ∧ 2 * y < 2 * k + 1

theorem roundHalfEven_eq {n d k : ℕ} (hlower : 2 * (d * k) ≤ 2 * n + d)
    (hupper : 2 * n ≤ 2 * (d * k) + d)
    (hstrict : k % 2 = 1 → 2 * (d * k) < 2 * n + d ∧ 2 * n < 2 * (d * k) + d) (hd : 0 < d) :
    roundHalfEven n d = k := by
  have hn := Nat.div_add_mod n d
  have hr := Nat.mod_lt n hd
  unfold roundHalfEven
  generalize n / d = q at hn ⊢
  generalize n % d = r at hn hr ⊢
  -- The quotient without its fraction is `k` or the integer below.
  have hq : q = k ∨ q + 1 = k := by
    rcases Nat.lt_trichotomy q k with hlt | heq | hgt
    · right
      by_contra hne
      have hstep : d * (q + 2) ≤ d * k := Nat.mul_le_mul_left d (by omega)
      rw [Nat.mul_add] at hstep
      omega
    · exact .inl heq
    · have hstep : d * (k + 1) ≤ d * q := Nat.mul_le_mul_left d hgt
      rw [Nat.mul_add] at hstep
      omega
  rcases hq with rfl | rfl
  · grind
  · rw [Nat.mul_add] at hlower hupper hstrict
    grind

theorem Nearest.roundHalfEven_eq {k n d : ℕ} (hd : 0 < d) (h : Nearest k ((n : ℚ) / d)) :
    roundHalfEven n d = k := by
  have hd' : (0 : ℚ) < d := by exact_mod_cast hd
  have hcancel : (n : ℚ) / d * d = n := div_mul_cancel₀ _ hd'.ne'
  apply Quadlane.roundHalfEven_eq _ _ _ hd
  · have := mul_le_mul_of_nonneg_right h.lower hd'.le
    have : 2 * ((d : ℚ) * k) ≤ 2 * n + d := by linarith
    exact_mod_cast this
  · have := mul_le_mul_of_nonneg_right h.upper hd'.le
    have : 2 * (n : ℚ) ≤ 2 * (d * k) + d := by linarith
    exact_mod_cast this
  · intro hodd
    have hlower := mul_lt_mul_of_pos_right (h.strict hodd).1 hd'
    have hupper := mul_lt_mul_of_pos_right (h.strict hodd).2 hd'
    have hlower' : 2 * ((d : ℚ) * k) < 2 * n + d := by linarith
    have hupper' : 2 * (n : ℚ) < 2 * (d * k) + d := by linarith
    exact ⟨by exact_mod_cast hlower', by exact_mod_cast hupper'⟩

theorem Nearest.eq_of_natCast {k n : ℕ} (h : Nearest k (n : ℚ)) : n = k := by
  have hlower : 2 * k ≤ 2 * n + 1 := by exact_mod_cast h.lower
  have hupper : 2 * n ≤ 2 * k + 1 := by exact_mod_cast h.upper
  omega

theorem two_zpow_toNat {i : ℤ} (h : 0 ≤ i) : (2 : ℚ) ^ i = ((2 ^ i.toNat : ℕ) : ℚ) := by
  obtain ⟨n, rfl⟩ := Int.eq_ofNat_of_zero_le h
  simp

theorem two_zpow_pos (i : ℤ) : (0 : ℚ) < 2 ^ i :=
  zpow_pos (by norm_num) i

theorem two_zpow_lt_iff {i j : ℤ} : (2 : ℚ) ^ i < 2 ^ j ↔ i < j :=
  zpow_lt_zpow_iff_right₀ (by norm_num)

theorem log2_le_mul_zpow {m : ℕ} (hm : m ≠ 0) (e : ℤ) :
    (2 : ℚ) ^ ((m.log2 : ℤ) + e) ≤ m * 2 ^ e := by
  have hlog : (2 : ℚ) ^ m.log2 ≤ m := by exact_mod_cast Nat.log2_self_le hm
  rw [zpow_add₀ (by norm_num), zpow_natCast]
  exact mul_le_mul_of_nonneg_right hlog (two_zpow_pos e).le

theorem mul_zpow_lt_log2 (m : ℕ) (e : ℤ) : (m : ℚ) * 2 ^ e < 2 ^ ((m.log2 : ℤ) + 1 + e) := by
  have hlog : (m : ℚ) < 2 ^ (m.log2 + 1) := by exact_mod_cast Nat.lt_log2_self
  rw [zpow_add₀ (by norm_num), ← Nat.cast_succ, zpow_natCast]
  exact mul_lt_mul_of_pos_right hlog (two_zpow_pos e)

theorem two_zpow_quarters (i : ℤ) (n : ℕ) :
    (2 : ℚ) ^ (i + n) = ((4 * 2 ^ n : ℕ) : ℚ) * 2 ^ (i - 2) := by
  have hfour : ((4 * 2 ^ n : ℕ) : ℚ) = 2 ^ ((n : ℤ) + 2) := by
    rw [zpow_add₀ (by norm_num), zpow_natCast]
    push_cast
    ring
  rw [hfour, ← zpow_add₀ (by norm_num)]
  congr 1
  ring

theorem Nearest.count_eq {m k : ℕ} {e unit : ℤ} (h : Nearest k (m * 2 ^ (e - unit))) :
    (if unit ≤ e then m <<< (e - unit).toNat
      else roundHalfEven m (1 <<< (unit - e).toNat)) = k := by
  split
  · next hle =>
    rw [Nat.shiftLeft_eq]
    apply Nearest.eq_of_natCast
    rwa [two_zpow_toNat (by omega), ← Nat.cast_mul] at h
  · next hlt =>
    rw [Nat.shiftLeft_eq, one_mul]
    apply Nearest.roundHalfEven_eq (Nat.two_pow_pos _)
    rwa [← two_zpow_toNat (by omega), div_eq_mul_inv, ← zpow_neg, neg_sub]

namespace Format

variable {f : Format} {M : ℕ}

/-! ### The significand and the exponent of a magnitude -/

theorem significand_lt : f.significand M < 2 ^ (f.fractionBits + 1) := by
  have hmod := Nat.mod_lt M (Nat.two_pow_pos f.fractionBits)
  rw [significand, Nat.shiftLeft_eq, one_mul, Nat.pow_succ]
  split <;> omega

theorem least_le_exponent : f.least ≤ f.exponent M := by
  unfold exponent
  omega

theorem le_significand (h : f.least < f.exponent M) : 2 ^ f.fractionBits ≤ f.significand M := by
  have hfield : 1 < M / 2 ^ f.fractionBits := by
    rw [exponent, Nat.shiftRight_eq_div_pow] at h
    omega
  have hM : 2 ^ f.fractionBits ≤ M := by
    by_contra hlt
    rw [Nat.div_eq_of_lt (Nat.lt_of_not_le hlt)] at hfield
    omega
  rw [significand, Nat.shiftLeft_eq, one_mul, if_neg (Nat.not_lt.mpr hM)]
  omega

theorem significand_pos (h : 0 < M) : 0 < f.significand M := by
  have hpow := Nat.two_pow_pos f.fractionBits
  rw [significand, Nat.shiftLeft_eq, one_mul]
  split <;> omega

theorem magnitude_eq :
    (f.exponent M - f.least).toNat * 2 ^ f.fractionBits + f.significand M = M := by
  have hM := Nat.div_add_mod' M (2 ^ f.fractionBits)
  rw [exponent, significand, Nat.shiftLeft_eq, one_mul, Nat.shiftRight_eq_div_pow,
    add_sub_cancel_left, Int.toNat_natCast]
  split
  · next hlt => simp [Nat.div_eq_of_lt hlt]
  · next hle =>
    -- A normal number has the leading bit of its significand in the exponent field.
    have hfield : 1 ≤ M / 2 ^ f.fractionBits :=
      (Nat.one_le_div_iff (Nat.two_pow_pos _)).mpr (Nat.not_lt.mp hle)
    obtain ⟨k, hk⟩ := Nat.exists_eq_add_of_le hfield
    rw [hk, Nat.add_mul] at hM
    rw [hk, Nat.add_sub_cancel_left]
    omega

/-! ### Rounding -/

theorem round_le_infinity (f : Format) (m : ℕ) (e : ℤ) : f.round m e ≤ f.infinity := by
  unfold round
  split
  · exact Nat.zero_le _
  · exact Nat.min_le_left _ _

/-- Quarters of a unit below a magnitude that are rounded up to it: below a power of two the unit is
half as large. -/
def below (f : Format) (M : ℕ) : ℕ :=
  if f.significand M = 2 ^ f.fractionBits ∧ f.least < f.exponent M then 1 else 2

structure Rounds (f : Format) (M : ℕ) (v : ℚ) : Prop where
  lower : ((4 * f.significand M - f.below M : ℕ) : ℚ) * 2 ^ (f.exponent M - 2) ≤ v
  upper : v ≤ ((4 * f.significand M + 2 : ℕ) : ℚ) * 2 ^ (f.exponent M - 2)
  strict : f.significand M % 2 = 1 →
    ((4 * f.significand M - f.below M : ℕ) : ℚ) * 2 ^ (f.exponent M - 2) < v ∧
      v < ((4 * f.significand M + 2 : ℕ) : ℚ) * 2 ^ (f.exponent M - 2)

theorem below_le : f.below M ≤ 2 := by
  unfold below
  split <;> omega

namespace Rounds

variable {v : ℚ}

theorem least_lt (hM : 0 < M) (h : f.Rounds M v) : 2 ^ (f.least - 2) < v := by
  have hS := significand_pos (f := f) hM
  have hbelow := below_le (f := f) (M := M)
  refine lt_of_lt_of_le ?_ h.lower
  calc (2 : ℚ) ^ (f.least - 2) ≤ 2 ^ (f.exponent M - 2) :=
        zpow_le_zpow_right₀ (by norm_num) (by have := least_le_exponent (f := f) (M := M); omega)
    _ = (1 : ℕ) * 2 ^ (f.exponent M - 2) := by rw [Nat.cast_one, one_mul]
    _ < _ := by
        apply mul_lt_mul_of_pos_right _ (two_zpow_pos _)
        exact_mod_cast (by omega : 1 < 4 * f.significand M - f.below M)

theorem pos (hM : 0 < M) (h : f.Rounds M v) : 0 < v :=
  lt_trans (two_zpow_pos _) (h.least_lt hM)

theorem lt_zpow (h : f.Rounds M v) : v < 2 ^ (f.exponent M + (f.fractionBits + 1 : ℕ)) := by
  have hS := significand_lt (f := f) (M := M)
  refine lt_of_le_of_lt h.upper ?_
  rw [two_zpow_quarters]
  apply mul_lt_mul_of_pos_right _ (two_zpow_pos _)
  rw [Nat.pow_succ] at hS ⊢
  exact_mod_cast (by omega : 4 * f.significand M + 2 < 4 * (2 ^ f.fractionBits * 2))

section Counting

variable {m : ℕ} {e : ℤ}

theorem eq_quarters (m : ℕ) (e i : ℤ) : (m : ℚ) * 2 ^ e = 4 * (m * 2 ^ (e - i)) * 2 ^ (i - 2) := by
  have hsplit : (2 : ℚ) ^ e = 2 ^ (e - i) * (2 ^ (i - 2) * 2 ^ (2 : ℤ)) := by
    rw [← zpow_add₀ (by norm_num), ← zpow_add₀ (by norm_num)]
    congr 1
    ring
  rw [hsplit]
  norm_num
  ring

theorem nearest (h : f.Rounds M (m * 2 ^ e)) :
    Nearest (f.significand M) (m * 2 ^ (e - f.exponent M)) := by
  have hbelow := below_le (f := f) (M := M)
  have hunit := two_zpow_pos (f.exponent M - 2)
  obtain ⟨hlower, hupper, hstrict⟩ := h
  rw [eq_quarters m e (f.exponent M)] at hlower hupper hstrict
  simp only [mul_le_mul_iff_of_pos_right hunit, mul_lt_mul_iff_of_pos_right hunit] at *
  have hquarters : (4 * f.significand M : ℚ) ≤ (4 * f.significand M - f.below M : ℕ) + 2 := by
    exact_mod_cast (by omega : 4 * f.significand M ≤ 4 * f.significand M - f.below M + 2)
  push_cast at hupper hstrict
  refine ⟨by linarith, by linarith, fun hodd => ?_⟩
  obtain ⟨hlower', hupper'⟩ := hstrict hodd
  exact ⟨by linarith, by linarith⟩

theorem self (hM : 0 < M) : f.Rounds M (f.significand M * 2 ^ f.exponent M) := by
  have hS := significand_pos (f := f) hM
  have hunit := two_zpow_pos (f.exponent M - 2)
  have hvalue := eq_quarters (f.significand M) (f.exponent M) (f.exponent M)
  rw [sub_self, zpow_zero, mul_one] at hvalue
  have hbelow : 0 < f.below M := by
    unfold below
    split <;> omega
  have hlower : ((4 * f.significand M - f.below M : ℕ) : ℚ) * 2 ^ (f.exponent M - 2) <
      f.significand M * 2 ^ f.exponent M := by
    rw [hvalue]
    apply mul_lt_mul_of_pos_right _ hunit
    exact_mod_cast (by omega : 4 * f.significand M - f.below M < 4 * f.significand M)
  have hupper : (f.significand M : ℚ) * 2 ^ f.exponent M <
      ((4 * f.significand M + 2 : ℕ) : ℚ) * 2 ^ (f.exponent M - 2) := by
    rw [hvalue]
    apply mul_lt_mul_of_pos_right _ hunit
    exact_mod_cast (by omega : 4 * f.significand M < 4 * f.significand M + 2)
  exact ⟨hlower.le, hupper.le, fun _ => ⟨hlower, hupper⟩⟩

theorem nearest_edge (hedge : f.significand M = 2 ^ f.fractionBits ∧ f.least < f.exponent M)
    (hlt : (m : ℚ) * 2 ^ e < 2 ^ (f.exponent M + f.fractionBits)) (h : f.Rounds M (m * 2 ^ e)) :
    Nearest (2 * 2 ^ f.fractionBits) (m * 2 ^ (e - (f.exponent M - 1))) := by
  -- Below a power of two the number is counted in the unit of the lower binade and rounded up.
  have hunit := two_zpow_pos (f.exponent M - 2)
  have hhalf : (m : ℚ) * 2 ^ (e - (f.exponent M - 1)) = 2 * (m * 2 ^ (e - f.exponent M)) := by
    rw [show e - (f.exponent M - 1) = 1 + (e - f.exponent M) by ring, zpow_add₀ (by norm_num)]
    ring
  have hlower := h.lower
  rw [below, if_pos hedge, hedge.1, eq_quarters m e (f.exponent M),
    mul_le_mul_iff_of_pos_right hunit] at hlower
  rw [two_zpow_quarters, eq_quarters m e (f.exponent M), mul_lt_mul_iff_of_pos_right hunit] at hlt
  have hpow := Nat.two_pow_pos f.fractionBits
  rw [Nat.cast_sub (by omega)] at hlower
  push_cast at hlower hlt
  rw [hhalf]
  refine ⟨?_, ?_, fun hodd => ?_⟩
  · push_cast
    linarith
  · push_cast
    linarith
  · omega

theorem unit_eq (hm : m ≠ 0) (h : f.Rounds M (m * 2 ^ e)) :
    max ((m.log2 : ℤ) + e - f.fractionBits) f.least = f.exponent M ∨
      max ((m.log2 : ℤ) + e - f.fractionBits) f.least = f.exponent M - 1 ∧
        (f.significand M = 2 ^ f.fractionBits ∧ f.least < f.exponent M) ∧
        (m : ℚ) * 2 ^ e < 2 ^ (f.exponent M + f.fractionBits) := by
  -- The unit in which the number is counted is that of the magnitude, or half of it below a power
  -- of two.
  have hlog := mul_zpow_lt_log2 m e
  have hleast := least_le_exponent (f := f) (M := M)
  have hle : (m.log2 : ℤ) + e < f.exponent M + (f.fractionBits + 1 : ℕ) :=
    two_zpow_lt_iff.mp (lt_of_le_of_lt (log2_le_mul_zpow hm e) h.lt_zpow)
  rcases lt_or_ge (max ((m.log2 : ℤ) + e - f.fractionBits) f.least) (f.exponent M) with hlt | hge
  · have hnormal : f.least < f.exponent M := by omega
    have hlow := le_significand hnormal
    have hhigh : (m : ℚ) * 2 ^ e < 2 ^ (f.exponent M + f.fractionBits) :=
      lt_of_lt_of_le hlog (zpow_le_zpow_right₀ (by norm_num) (by omega))
    have hquarters := lt_of_le_of_lt h.lower hhigh
    rw [two_zpow_quarters, mul_lt_mul_iff_of_pos_right (two_zpow_pos _), Nat.cast_lt] at hquarters
    have hbelow := below_le (f := f) (M := M)
    have hedge : f.significand M = 2 ^ f.fractionBits ∧ f.least < f.exponent M :=
      ⟨by omega, hnormal⟩
    -- The number is still more than half of the power of two.
    have hhalf : (2 : ℚ) ^ (f.exponent M + f.fractionBits) ≤ 2 ^ (1 : ℤ) * (m * 2 ^ e) := by
      refine le_trans ?_ (mul_le_mul_of_nonneg_left h.lower (by norm_num))
      rw [two_zpow_quarters, ← mul_assoc]
      apply mul_le_mul_of_nonneg_right _ (two_zpow_pos _).le
      rw [zpow_one]
      exact_mod_cast (by omega :
        4 * 2 ^ f.fractionBits ≤ 2 * (4 * f.significand M - f.below M))
    have hexponent : f.exponent M + f.fractionBits < 1 + ((m.log2 : ℤ) + 1 + e) := by
      apply two_zpow_lt_iff.mp
      rw [zpow_add₀ (by norm_num) 1]
      exact lt_of_le_of_lt hhalf (mul_lt_mul_of_pos_left hlog (by norm_num))
    exact .inr ⟨by omega, hedge, hhigh⟩
  · left
    omega

end Counting
end Rounds

theorem round_eq {m : ℕ} {e : ℤ} (hM : 0 < M) (hfinite : M < f.infinity)
    (h : f.Rounds M (m * 2 ^ e)) : f.round m e = M := by
  have hm : m ≠ 0 := by
    rintro rfl
    simpa using h.pos hM
  have hmagnitude := magnitude_eq (f := f) (M := M)
  rw [round, if_neg hm]
  dsimp only
  rcases h.unit_eq hm with hunit | ⟨hunit, hedge, hlt⟩
  · rw [hunit, h.nearest.count_eq, Nat.shiftLeft_eq, hmagnitude]
    exact Nat.min_eq_right hfinite.le
  · rw [hunit, (h.nearest_edge hedge hlt).count_eq, Nat.shiftLeft_eq]
    have hcarry : (f.exponent M - f.least).toNat = (f.exponent M - 1 - f.least).toNat + 1 := by
      have := hedge.2
      omega
    rw [hcarry, Nat.add_mul, hedge.1] at hmagnitude
    rw [show (f.exponent M - 1 - f.least).toNat * 2 ^ f.fractionBits + 2 * 2 ^ f.fractionBits = M by
      omega]
    exact Nat.min_eq_right hfinite.le

/-! ### Rounding a quotient -/

/-- Twice the quotient, with the last bit set if the division leaves a rest. -/
def jam (n d : ℕ) : ℕ :=
  2 * (n / d) + if n % d = 0 then 0 else 1

theorem two_mul_le_jam {n d : ℕ} (hd : 0 < d) (b : ℕ) : 2 * b ≤ jam n d ↔ b * d ≤ n := by
  rw [← Nat.le_div_iff_mul_le hd, jam]
  split <;> omega

theorem jam_le_two_mul {n d : ℕ} (hd : 0 < d) (b : ℕ) : jam n d ≤ 2 * b ↔ n ≤ b * d := by
  have hn := Nat.div_add_mod' n d
  rw [jam]
  split
  · next hzero =>
    rw [hzero, Nat.add_zero] at hn
    have hq : n / d ≤ b ↔ n / d * d ≤ b * d := (Nat.mul_le_mul_right_iff hd).symm
    rw [hn] at hq
    omega
  · next hrest =>
    have hq : n / d < b ↔ n < b * d := Nat.div_lt_iff_lt_mul hd
    have hne : n ≠ b * d := by
      rintro rfl
      exact hrest (Nat.mul_mod_left b d)
    omega

theorem jam_compare {n d shift : ℕ} {e i : ℤ} (hd : 0 < d) (hgrid : e - shift ≤ i) (k : ℕ) :
    ((k : ℚ) * 2 ^ i ≤ n / d * 2 ^ e ↔
      (k : ℚ) * 2 ^ i ≤ jam (n <<< shift) d * 2 ^ (e - shift - 1)) ∧
    ((n : ℚ) / d * 2 ^ e ≤ k * 2 ^ i ↔
      (jam (n <<< shift) d : ℚ) * 2 ^ (e - shift - 1) ≤ k * 2 ^ i) := by
  -- Numbers on the grid of the last bit of the quotient compare alike with the quotient and with
  -- what is kept of it.
  have hd' : (0 : ℚ) < d := by exact_mod_cast hd
  have hunit := two_zpow_pos (e - shift - 1)
  have htwo : (2 : ℚ) ^ (e - shift) = 2 * 2 ^ (e - shift - 1) := by
    rw [← zpow_one_add₀ (by norm_num)]
    congr 1
    ring
  have hquotient : (n : ℚ) / d * 2 ^ e =
      2 * (((n <<< shift : ℕ) : ℚ) / d) * 2 ^ (e - shift - 1) := by
    have hsplit : (2 : ℚ) ^ e = 2 ^ shift * 2 ^ (e - shift) := by
      rw [← zpow_natCast, ← zpow_add₀ (by norm_num)]
      congr 1
      ring
    rw [hsplit, htwo, Nat.shiftLeft_eq]
    push_cast
    ring
  obtain ⟨b, hb⟩ : ∃ b : ℕ, (k : ℚ) * 2 ^ i = ((2 * b : ℕ) : ℚ) * 2 ^ (e - shift - 1) := by
    refine ⟨k * 2 ^ (i - (e - shift)).toNat, ?_⟩
    have hsplit : (2 : ℚ) ^ i = 2 ^ (i - (e - shift)) * 2 ^ (e - shift) := by
      rw [← zpow_add₀ (by norm_num)]
      congr 1
      ring
    rw [hsplit, two_zpow_toNat (by omega), htwo]
    push_cast
    ring
  rw [hb, hquotient]
  simp only [mul_le_mul_iff_of_pos_right hunit, Nat.cast_le]
  rw [two_mul_le_jam hd, jam_le_two_mul hd]
  push_cast
  rw [mul_le_mul_iff_of_pos_left (by norm_num), mul_le_mul_iff_of_pos_left (by norm_num),
    le_div_iff₀ hd', div_le_iff₀ hd']
  exact ⟨by exact_mod_cast Iff.rfl, by exact_mod_cast Iff.rfl⟩

theorem Rounds.jam {n d shift : ℕ} {e : ℤ} (hd : 0 < d) (hgrid : e - shift ≤ f.exponent M - 2)
    (h : f.Rounds M (n / d * 2 ^ e)) :
    f.Rounds M (jam (n <<< shift) d * 2 ^ (e - shift - 1)) := by
  obtain ⟨hlower, hupper, hstrict⟩ := h
  refine ⟨(jam_compare hd hgrid _).1.mp hlower, (jam_compare hd hgrid _).2.mp hupper, ?_⟩
  intro hodd
  obtain ⟨hlower', hupper'⟩ := hstrict hodd
  exact ⟨not_le.mp (mt (jam_compare hd hgrid _).2.mpr (not_le.mpr hlower')),
    not_le.mp (mt (jam_compare hd hgrid _).1.mpr (not_le.mpr hupper'))⟩

theorem roundQuotient_eq {n d : ℕ} {e : ℤ} (hd : 0 < d) (hM : 0 < M) (hfinite : M < f.infinity)
    (h : f.Rounds M (n / d * 2 ^ e)) : f.roundQuotient n d e = M := by
  have hn : n ≠ 0 := by
    rintro rfl
    simpa using h.pos hM
  have hd' : (0 : ℚ) < d := by exact_mod_cast hd
  -- The quotient has more bits than the format, so its grid is finer than the quarters.
  have hsize : (n.log2 : ℤ) + e < (d.log2 : ℤ) + 1 + (f.exponent M + (f.fractionBits + 1 : ℕ)) := by
    apply two_zpow_lt_iff.mp
    refine lt_of_le_of_lt (log2_le_mul_zpow hn e) ?_
    refine lt_trans ?_ (mul_zpow_lt_log2 d _)
    calc (n : ℚ) * 2 ^ e = d * (n / d * 2 ^ e) := by field_simp
      _ < d * 2 ^ (f.exponent M + (f.fractionBits + 1 : ℕ)) :=
        mul_lt_mul_of_pos_left h.lt_zpow hd'
  refine round_eq hM hfinite (h.jam hd ?_)
  omega

end Format

/-! ### Lanes -/

namespace Lane

theorem ofFields_magnitude (a : Lane) : ofFields a.isNegative a.magnitude = a := by
  obtain ⟨bits⟩ := a
  have hbits := bits.toNat_lt
  have hneg : isNegative ⟨bits⟩ = decide (0x80000000 ≤ bits.toNat) := by
    simp only [isNegative, UInt32.le_iff_toNat_le]
    rfl
  rw [ofFields, magnitude, hneg, mk.injEq]
  apply UInt32.toNat_inj.mp
  by_cases hle : 0x80000000 ≤ bits.toNat
  · have hsum : bits.toNat % 0x80000000 + 0x80000000 = bits.toNat := by omega
    simp [hle, hsum]
  · have hmod : bits.toNat % 0x80000000 = bits.toNat := by omega
    simp [hle, hmod]

theorem magnitude_ofFields (negative : Bool) {m : ℕ} (h : m < 0x80000000) :
    (ofFields negative m).magnitude = m := by
  cases negative
  · simp [ofFields, magnitude]
    omega
  · simp [ofFields, magnitude]
    omega

def canonical (a : Lane) : Lane :=
  if a.isNaN then nan else a

end Lane
end Quadlane
