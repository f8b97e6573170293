import Quadlane.Machine.Action
import Quadlane.Proofs.Rounding

/-! Indices travel in lanes. Every index of a view is one that a lane holds exactly, so that it is
read back as it was, and one less than it is computed without an error. -/

namespace Quadlane

theorem Format.exists_magnitude {n : ℕ} (hpos : 0 < n) (hn : n ≤ 2 ^ 24) :
    ∃ M, 0 < M ∧ M < 0x4C000000 ∧ -23 ≤ single.exponent M ∧
      (single.significand M : ℚ) * 2 ^ single.exponent M = n := by
  rcases eq_or_lt_of_le hn with rfl | hlt
  · refine ⟨0x4B800000, by decide, by decide, by decide, ?_⟩
    have hsignificand : single.significand 0x4B800000 = 2 ^ 23 := by decide
    have hexponent : single.exponent 0x4B800000 = 1 := by decide
    rw [hsignificand, hexponent]
    norm_num
  · -- The significand is the integer with its leading bit moved to the front.
    obtain ⟨L, hL⟩ : ∃ L, n.log2 = L := ⟨_, rfl⟩
    have hlow : 2 ^ L ≤ n := hL ▸ Nat.log2_self_le hpos.ne'
    have hhigh : n < 2 ^ (L + 1) := hL ▸ Nat.lt_log2_self
    have hbits : L ≤ 23 := by
      by_contra hmore
      have := Nat.pow_le_pow_right (n := 2) (by decide) (by omega : 24 ≤ L)
      omega
    obtain ⟨S, hS⟩ : ∃ S, n * 2 ^ (23 - L) = S := ⟨_, rfl⟩
    have hsplit : 2 ^ L * 2 ^ (23 - L) = 2 ^ 23 := by
      rw [← Nat.pow_add]
      congr 1
      omega
    have hSlow : 2 ^ 23 ≤ S := by
      rw [← hS, ← hsplit]
      exact Nat.mul_le_mul_right _ hlow
    have hShigh : S < 2 ^ 24 := by
      have := Nat.mul_lt_mul_of_pos_right hhigh (Nat.two_pow_pos (23 - L))
      rw [Nat.pow_succ, Nat.mul_right_comm, hsplit] at this
      omega
    have hfield : ((L + 126) * 2 ^ 23 + S) / 2 ^ 23 = L + 127 := by omega
    have hexponent : single.exponent ((L + 126) * 2 ^ 23 + S) = (L : ℤ) - 23 := by
      have hleast : single.least = -149 := by decide
      rw [exponent, Nat.shiftRight_eq_div_pow, show single.fractionBits = 23 from rfl, hfield,
        hleast]
      omega
    have hsignificand : single.significand ((L + 126) * 2 ^ 23 + S) = S := by
      rw [significand, show (1 <<< single.fractionBits : ℕ) = 2 ^ 23 by decide]
      split <;> omega
    refine ⟨(L + 126) * 2 ^ 23 + S, by omega, by omega, by omega, ?_⟩
    rw [hexponent, hsignificand, ← hS]
    push_cast
    rw [mul_assoc, ← zpow_natCast, ← zpow_add₀ (by norm_num), Nat.cast_sub hbits]
    norm_num

namespace Lane

/-- The lane is that integer, and no larger than a view can be. -/
structure Holds (a : Lane) (n : ℕ) : Prop where
  nonneg : a.isNegative = false
  small : a.magnitude < 0x4C000000
  exponent : -23 ≤ a.exponent
  value : (a.significand : ℚ) * 2 ^ a.exponent = n

theorem isNegative_ofFields {M : ℕ} (h : M < 0x80000000) :
    (ofFields false M).isNegative = false := by
  have hbits : (ofFields false M).bits.toNat = M := by
    simp only [ofFields, Bool.false_eq_true, if_false, Nat.add_zero, Nat.toUInt32,
      UInt32.toNat_ofNat']
    omega
  rw [isNegative, decide_eq_false_iff_not, UInt32.le_iff_toNat_le, hbits, Nat.not_le]
  exact h

theorem exists_holds {n : ℕ} (hpos : 0 < n) (hn : n ≤ 2 ^ 24) :
    ∃ a : Lane, a.Holds n ∧ ∀ (m : ℕ) (e : ℤ), (m : ℚ) * 2 ^ e = n → ofDyadic false m e = a := by
  obtain ⟨M, hM, hsmall, hexponent, hvalue⟩ := Format.exists_magnitude hpos hn
  have hmagnitude := magnitude_ofFields false (m := M) (by omega)
  refine ⟨ofFields false M, ⟨isNegative_ofFields (by omega), ?_, ?_, ?_⟩, fun m e hm => ?_⟩
  · rwa [hmagnitude]
  · rwa [Lane.exponent, hmagnitude]
  · rwa [Lane.exponent, significand, hmagnitude]
  · have hfinite : M < Format.single.infinity :=
      hsmall.trans (by decide)
    rw [ofDyadic, Format.round_eq hM hfinite]
    rw [hm, ← hvalue]
    exact Format.Rounds.self hM

theorem ofInt_holds {n : ℕ} (hpos : 0 < n) (hn : n ≤ 2 ^ 24) : (ofInt n).Holds n := by
  obtain ⟨a, ha, heq⟩ := exists_holds hpos hn
  have hneg : decide ((n : ℤ) < 0) = false := by simp
  rw [ofInt, hneg, Int.natAbs_natCast, heq n 0 (by simp)]
  exact ha

theorem Holds.wholePart {a : Lane} {n : ℕ} (h : a.Holds n) : a.wholePart = n := by
  have hvalue := h.value
  unfold Lane.wholePart
  split
  · next hexponent =>
    rw [two_zpow_toNat hexponent, ← Nat.cast_mul, Nat.cast_inj] at hvalue
    rw [Nat.shiftLeft_eq, hvalue]
  · next hexponent =>
    have hpow : (0 : ℚ) < 2 ^ (-a.exponent) := two_zpow_pos _
    have hmul : (a.significand : ℚ) = n * 2 ^ (-a.exponent) := by
      rw [← hvalue, mul_assoc, ← zpow_add₀ (by norm_num), add_neg_cancel, zpow_zero, mul_one]
    rw [two_zpow_toNat (by omega), ← Nat.cast_mul, Nat.cast_inj] at hmul
    rw [Nat.shiftRight_eq_div_pow, hmul, Nat.mul_div_cancel _ (Nat.two_pow_pos _)]

theorem Holds.not_isNaN {a : Lane} {n : ℕ} (h : a.Holds n) : a.isNaN = false := by
  have := h.small
  rw [isNaN, decide_eq_false_iff_not]
  omega

theorem Holds.not_isInfinite {a : Lane} {n : ℕ} (h : a.Holds n) : a.isInfinite = false := by
  have := h.small
  rw [isInfinite, beq_eq_false_iff_ne]
  omega

theorem Holds.key_eq {a : Lane} {n : ℕ} (h : a.Holds n) : a.key = a.magnitude := by
  rw [key, h.nonneg]
  rfl

theorem ofInt_sub_one {n : ℕ} (hn : n < 2 ^ 24) : (ofInt (n + 1 : ℕ)).sub one = ofInt n := by
  have hholds := ofInt_holds (n := n + 1) (by omega) hn
  generalize ofInt (n + 1 : ℕ) = a at hholds ⊢
  have hone : one.neg.isNaN = false ∧ one.neg.isInfinite = false ∧ one.neg.exponent = -23 ∧
      one.neg.coefficient = -2 ^ 23 := by decide
  obtain ⟨hnan, hinfinite, hexponent, hcoefficient⟩ := hone
  have hself : a.coefficient = a.significand := by
    rw [coefficient, hholds.nonneg]
    rfl
  -- The exact sum, counted in units of `2 ^ -23`.
  have hsum : a.coefficient * ((1 <<< (a.exponent - -23).toNat : ℕ) : ℤ) + -2 ^ 23 =
      (n * 2 ^ 23 : ℕ) := by
    have hshift : (a.significand : ℚ) * (2 ^ (a.exponent - -23).toNat : ℕ) = (n + 1) * 2 ^ 23 := by
      have := hholds.exponent
      rw [← two_zpow_toNat (by omega), sub_neg_eq_add, zpow_add₀ (by norm_num), ← mul_assoc,
        hholds.value]
      push_cast
      norm_num
    have hshift' : a.significand * 2 ^ (a.exponent - -23).toNat = (n + 1) * 2 ^ 23 := by
      exact_mod_cast hshift
    rw [hself, Nat.shiftLeft_eq, one_mul, ← Nat.cast_mul, hshift']
    push_cast
    ring
  rw [sub, add, hholds.not_isNaN, hnan, hholds.not_isInfinite, hinfinite]
  simp only [Bool.or_self, Bool.false_eq_true, if_false, hexponent, min_eq_right hholds.exponent,
    hcoefficient, sub_self, Int.toNat_zero, Nat.shiftLeft_zero, Nat.cast_one, mul_one, hsum]
  rcases Nat.eq_zero_or_pos n with rfl | hpos
  · rw [Nat.zero_mul, if_pos Nat.cast_zero, hholds.nonneg]
    rfl
  · obtain ⟨b, -, heq⟩ := exists_holds hpos hn.le
    have hneg (k : ℕ) : decide ((k : ℤ) < 0) = false := by simp
    rw [if_neg (by omega), ofInt, hneg, hneg, Int.natAbs_natCast, Int.natAbs_natCast,
      heq n 0 (by simp), heq]
    push_cast
    rw [mul_assoc]
    norm_num

end Lane

theorem dataIndex_of_holds {q : Quad} {n : ℕ} (h : q.x.Holds n) : dataIndex q = n := by
  have hends : Lane.one.neg.isNaN = false ∧ Lane.one.neg.key < 0 ∧
      (Lane.ofInt 0x80000000).isNaN = false ∧ (Lane.ofInt 0x80000000).key = 0x4F000000 := by
    decide
  obtain ⟨hnan, hlow, hnan', hhigh⟩ := hends
  have hsmall := h.small
  have hinside : (Lane.one.neg.lt q.x && q.x.lt (Lane.ofInt 0x80000000)) = true := by
    simp only [Lane.lt, hnan, hnan', h.not_isNaN, h.key_eq, hhigh, Bool.not_false, Bool.true_and,
      Bool.and_eq_true, decide_eq_true_eq]
    omega
  rw [dataIndex, hinside, h.wholePart]
  rfl

theorem dataIndex_ofInt {q : Quad} {n : ℕ} (hn : n ≤ 2 ^ 24) (hq : q.x = Lane.ofInt n) :
    dataIndex q = n := by
  rcases Nat.eq_zero_or_pos n with rfl | hpos
  · rw [dataIndex, hq]
    decide
  · exact dataIndex_of_holds (hq ▸ Lane.ofInt_holds hpos hn)

theorem dataIndex_ofInt_neg_one {q : Quad} (hq : q.x = Lane.ofInt (-1)) : dataIndex q = -1 := by
  rw [dataIndex, hq]
  decide

end Quadlane
