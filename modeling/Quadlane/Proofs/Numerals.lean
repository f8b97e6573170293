import Quadlane.Proofs.Shortest
import Quadlane.Proofs.Tokens

/-! The text of a lane is a numeral that denotes the lane. Whichever notation a decimal is written
in, its digits and its exponent are read back as a number of the same value. -/

namespace Quadlane

namespace Numeral

/-! ### Digits -/

theorem isDigit_ne {b : UInt8} (h : Text.isDigit b = true) : b ≠ 95 ∧ b ≠ 46 := by
  constructor <;> rintro rfl <;> exact absurd h (by decide)

theorem digitValue_eq {b : UInt8} (h : Text.isDigit b = true) : digitValue b = b.toNat - 48 := by
  rw [digitValue, if_pos h]

theorem mantissa_append {t : Text} (h : ∀ b ∈ t, Text.isDigit b = true) (m : Mantissa)
    (rest : Text) :
    mantissa 10 Text.isDigit m (t ++ rest) =
      mantissa 10 Text.isDigit (t.foldl (Mantissa.push 10) m) rest := by
  induction t generalizing m with
  | nil => rfl
  | cons b t ih =>
    have hb := h b (List.mem_cons_self ..)
    obtain ⟨hunderscore, hpoint⟩ := isDigit_ne hb
    rw [List.cons_append, mantissa, if_neg hunderscore, if_neg hpoint, if_pos hb,
      ih fun c hc => h c (List.mem_cons_of_mem _ hc), List.foldl_cons]

theorem foldl_push {t : Text} (h : ∀ b ∈ t, Text.isDigit b = true) (m : Mantissa) :
    t.foldl (Mantissa.push 10) m =
      { digits := t.foldl (fun n b => 10 * n + (b.toNat - 48)) m.digits
        places := if m.point then m.places + t.length else m.places
        point := m.point
        any := m.any || !t.isEmpty } := by
  induction t generalizing m with
  | nil => simp
  | cons b t ih =>
    rw [List.foldl_cons, ih fun c hc => h c (List.mem_cons_of_mem _ hc)]
    simp only [Mantissa.push, digitValue_eq (h b (List.mem_cons_self ..)), List.foldl_cons,
      List.length_cons, List.isEmpty_cons, Bool.true_or, Bool.not_false, Bool.or_true]
    split <;> simp only [Mantissa.mk.injEq, and_true, true_and]
    omega

theorem mantissa_whole {whole : Text} (h : Text.isDecimal whole = true) (rest : Text) :
    mantissa 10 Text.isDigit {} (whole ++ rest) =
      mantissa 10 Text.isDigit { digits := Text.toNat whole, any := true } rest := by
  obtain ⟨hne, hdigits⟩ := Text.isDecimal_iff.mp h
  rw [mantissa_append hdigits, foldl_push hdigits]
  have hany : (!List.isEmpty whole) = true := by
    simpa using hne
  rw [hany]
  rfl

theorem mantissa_point {whole fraction : Text} (h : Text.isDecimal whole = true)
    (hfraction : ∀ b ∈ fraction, Text.isDigit b = true) (rest : Text) :
    mantissa 10 Text.isDigit {} (whole ++ 46 :: (fraction ++ rest)) =
      mantissa 10 Text.isDigit
        { digits := Text.toNat (whole ++ fraction), places := fraction.length, point := true,
          any := true } rest := by
  rw [mantissa_whole h, mantissa, if_neg (by decide), if_pos rfl]
  simp only [Bool.false_eq_true, if_false]
  rw [mantissa_append hfraction, foldl_push hfraction]
  simp [Text.toNat]

theorem underscoresFit_of_notMem {accepts : UInt8 → Bool} {t : Text} (h : 95 ∉ t)
    {last : Neighbour} (hlast : last ≠ .underscore) : underscoresFit accepts last t = true := by
  induction t generalizing last with
  | nil => simpa [underscoresFit] using hlast
  | cons b t ih =>
    rw [List.mem_cons, not_or] at h
    rw [underscoresFit, if_neg (Ne.symm h.1)]
    split
    · exact ih h.2 (by decide)
    · simp [hlast, ih h.2 (show Neighbour.other ≠ .underscore by decide)]

/-! ### Exponents -/

theorem le_foldl_digits (t : Text) (n : ℕ) :
    n ≤ t.foldl (fun n b => 10 * n + (b.toNat - 48)) n := by
  induction t generalizing n with
  | nil => exact le_refl n
  | cons b t ih =>
    rw [List.foldl_cons]
    exact le_trans (by omega) (ih (10 * n + (b.toNat - 48)))

theorem exponentDigits_eq {t : Text} (h : ∀ b ∈ t, Text.isDigit b = true) {e : ℕ}
    (hbound : t.foldl (fun n b => 10 * n + (b.toNat - 48)) e < 10000) :
    exponentDigits e t = some (t.foldl (fun n b => 10 * n + (b.toNat - 48)) e) := by
  induction t generalizing e with
  | nil => rfl
  | cons b t ih =>
    have hb := h b (List.mem_cons_self ..)
    have he : e < 10000 := lt_of_le_of_lt (le_foldl_digits _ e) hbound
    rw [exponentDigits, if_neg (isDigit_ne hb).1, if_pos hb, if_pos he, digitValue_eq hb,
      ih (fun c hc => h c (List.mem_cons_of_mem _ hc)) hbound]
    rfl

theorem toNat_padLeft (width : ℕ) (t : Text) :
    Text.toNat (Text.padLeft width '0' t) = Text.toNat t := by
  have hzeros : ∀ n, (List.replicate n (Text.byte '0')).foldl
      (fun n b => 10 * n + (b.toNat - 48)) 0 = 0 := by
    intro n
    induction n with
    | zero => rfl
    | succ n ih => exact ih
  rw [Text.padLeft, Text.toNat, List.foldl_append, hzeros]
  rfl

def exponentText (k : ℤ) : Text :=
  Text.byte (if k < 0 then '-' else '+') :: Text.padLeft 2 '0' (Text.decimal k.natAbs)

theorem exponent_signed {b : UInt8} {t : Text} {n : ℕ} (hb : Text.isDigit b = true)
    (h : exponentDigits 0 (b :: t) = some n) :
    exponent (43 :: b :: t) = some (n : ℤ) ∧ exponent (45 :: b :: t) = some (-(n : ℤ)) := by
  constructor
  · rw [exponent, if_pos hb, h]
    rfl
  · rw [exponent, if_pos hb, h]
    rfl

theorem exponent_exponentText {k : ℤ} (h : k.natAbs < 10000) :
    exponent (exponentText k) = some k := by
  have hdecimal := Text.isDecimal_padLeft 2 (Text.isDecimal_decimal k.natAbs)
  obtain ⟨hne, hdigits⟩ := Text.isDecimal_iff.mp hdecimal
  have hvalue := (toNat_padLeft 2 (Text.decimal k.natAbs)).trans (Text.toNat_decimal k.natAbs)
  have hread := exponentDigits_eq hdigits (e := 0) (show Text.toNat _ < 10000 by rwa [hvalue])
  rw [exponentText]
  generalize Text.padLeft 2 '0' (Text.decimal k.natAbs) = t at *
  obtain ⟨b, t, rfl⟩ := List.exists_cons_of_ne_nil hne
  obtain ⟨hplus, hminus⟩ := exponent_signed (hdigits b (List.mem_cons_self ..)) hread
  rw [← Text.toNat, hvalue] at hplus hminus
  rcases lt_or_ge k 0 with hk | hk
  · rw [if_pos hk, show Text.byte '-' = 45 from rfl, hminus, Option.some.injEq]
    omega
  · rw [if_neg (not_lt.mpr hk), show Text.byte '+' = 43 from rfl, hplus, Option.some.injEq]
    omega

/-! ### Decimals -/

def spell (whole : Text) (fraction : Option Text) (k : Option ℤ) : Text :=
  whole ++ (fraction.elim [] (46 :: ·) ++ k.elim [] (101 :: exponentText ·))

section Spelling

variable {whole : Text} {fraction : Option Text} {k : Option ℤ}

def isNumeric (b : UInt8) : Bool :=
  Text.isDigit b || b == 46 || b == 101 || b == 43 || b == 45

theorem isNumeric_of_isDigit {b : UInt8} (h : Text.isDigit b = true) : isNumeric b = true := by
  rw [isNumeric, h]
  rfl

theorem isNumeric_exponentText (k : ℤ) : ∀ b ∈ exponentText k, isNumeric b = true := by
  have hdecimal := Text.isDecimal_padLeft 2 (Text.isDecimal_decimal k.natAbs)
  intro b hb
  rcases List.mem_cons.mp hb with rfl | hb
  · split <;> decide
  · exact isNumeric_of_isDigit ((Text.isDecimal_iff.mp hdecimal).2 b hb)

theorem isNumeric_spell (h : ∀ b ∈ whole, Text.isDigit b = true)
    (hfraction : ∀ t ∈ fraction, ∀ b ∈ t, Text.isDigit b = true) :
    ∀ b ∈ spell whole fraction k, isNumeric b = true := by
  intro b hb
  rcases List.mem_append.mp hb with hb | hb
  · exact isNumeric_of_isDigit (h b hb)
  rcases List.mem_append.mp hb with hb | hb
  · cases fraction with
    | none => cases hb
    | some t =>
      rcases List.mem_cons.mp hb with rfl | hb
      · decide
      · exact isNumeric_of_isDigit (hfraction t rfl b hb)
  · cases k with
    | none => cases hb
    | some k =>
      rcases List.mem_cons.mp hb with rfl | hb
      · decide
      · exact isNumeric_exponentText k b hb

theorem mantissa_end (m : Mantissa) (k : Option ℤ) :
    mantissa 10 Text.isDigit m (k.elim [] (101 :: exponentText ·)) =
      (m, k.elim [] (101 :: exponentText ·)) := by
  cases k with
  | none => rfl
  | some k => rfl

theorem mantissa_spell (h : Text.isDecimal whole = true)
    (hfraction : ∀ t ∈ fraction, ∀ b ∈ t, Text.isDigit b = true) :
    mantissa 10 Text.isDigit {} (spell whole fraction k) =
      ({ digits := Text.toNat (whole ++ fraction.getD []), places := (fraction.getD []).length,
         point := fraction.isSome, any := true }, k.elim [] (101 :: exponentText ·)) := by
  rw [spell]
  cases fraction with
  | none =>
    rw [Option.elim_none, List.nil_append, mantissa_whole h, mantissa_end, Option.getD_none,
      List.append_nil]
    rfl
  | some t =>
    rw [Option.elim_some, List.cons_append, mantissa_point h (hfraction t rfl), mantissa_end]
    rfl

theorem decimal_spell (negative : Bool) (h : Text.isDecimal whole = true)
    (hfraction : ∀ t ∈ fraction, ∀ b ∈ t, Text.isDigit b = true) (hk : ∀ i ∈ k, i.natAbs < 10000) :
    decimal negative (spell whole fraction k) =
      some (.finite negative (Text.toNat (whole ++ fraction.getD [])) 0
        (k.getD 0 - (fraction.getD []).length)) := by
  have hnumeric := isNumeric_spell (k := k) (Text.isDecimal_iff.mp h).2 hfraction
  have hfit : underscoresFit Text.isDigit .other (spell whole fraction k) = true := by
    apply underscoresFit_of_notMem _ (by decide)
    intro hmem
    exact absurd (hnumeric 95 hmem) (by decide)
  rw [decimal, mantissa_spell h hfraction]
  dsimp only
  rw [hfit, if_neg (by decide)]
  cases k with
  | none =>
    rw [Option.getD_none, zero_sub]
    rfl
  | some i =>
    rw [Option.elim_some]
    dsimp only
    rw [if_pos (by decide), exponent_exponentText (hk i rfl)]
    rfl

theorem isVisible_of_isNumeric {b : UInt8} (h : isNumeric b = true) : Text.isVisible b = true := by
  simp only [isNumeric, Text.isDigit, Text.isVisible, Text.byte, Bool.or_eq_true,
    Bool.and_eq_true, decide_eq_true_eq, beq_iff_eq, bne_iff_ne] at h ⊢
  grind

theorem lowerByte_of_isDigit {b : UInt8} (h : Text.isDigit b = true) :
    ¬ 97 ≤ Text.lowerByte b := by
  simp only [Text.isDigit, Text.lowerByte, Bool.and_eq_true, decide_eq_true_eq] at h ⊢
  grind

theorem lowerByte_of_isNumeric {b : UInt8} (h : isNumeric b = true) :
    Text.lowerByte b ≠ 120 := by
  simp only [isNumeric, Text.isDigit, Text.lowerByte, Bool.or_eq_true, Bool.and_eq_true,
    decide_eq_true_eq, beq_iff_eq] at h ⊢
  grind

theorem lowerByte_word {b : UInt8} (hb : Text.isDigit b = true) (t : Text) {w : Text}
    (hw : w.head?.all (97 ≤ ·) = true) : (b :: t).map Text.lowerByte ≠ w := by
  rintro rfl
  exact lowerByte_of_isDigit hb (of_decide_eq_true hw)

section Reading

variable {b : UInt8} {t : Text}

theorem unsigned_eq_decimal (negative : Bool) (hb : Text.isDigit b = true)
    (ht : ∀ c ∈ t, isNumeric c = true) :
    unsigned negative (b :: t) = decimal negative (b :: t) := by
  unfold unsigned
  split
  · next x c rest heq =>
    obtain ⟨rfl, rfl⟩ := List.cons.inj heq
    rw [if_neg (lowerByte_of_isNumeric (ht x (List.mem_cons_self ..)))]
  · dsimp only
    rw [if_neg]
    rw [Bool.or_eq_true, decide_eq_true_eq, decide_eq_true_eq]
    rintro (hinf | hinf)
    · exact lowerByte_word hb t (by decide) hinf
    · exact lowerByte_word hb t (by decide) hinf

theorem parse_of_digit (hb : Text.isDigit b = true) (ht : ∀ c ∈ t, isNumeric c = true) :
    parse (b :: t) = decimal false (b :: t) ∧ parse (45 :: b :: t) = decimal true (b :: t) := by
  refine ⟨?_, unsigned_eq_decimal true hb ht⟩
  rw [← unsigned_eq_decimal false hb ht]
  unfold parse
  split
  · next heq =>
    rw [(List.cons.inj heq).1] at hb
    exact absurd hb (by decide)
  · next heq =>
    rw [(List.cons.inj heq).1] at hb
    exact absurd hb (by decide)
  · rw [if_neg (lowerByte_word hb t (by decide))]

end Reading

end Spelling

structure Spells (t : Text) (v : ℚ) : Prop where
  head : ∃ b rest, t = b :: rest ∧ Text.isDigit b = true
  numeric : ∀ b ∈ t, isNumeric b = true
  reads : ∀ negative, ∃ (digits : ℕ) (tens : ℤ),
    decimal negative t = some (.finite negative digits 0 tens) ∧ (digits : ℚ) * 10 ^ tens = v

theorem spells_spell (whole : Text) (fraction : Option Text) (k : Option ℤ) {v : ℚ}
    (h : Text.isDecimal whole = true)
    (hfraction : ∀ t ∈ fraction, ∀ b ∈ t, Text.isDigit b = true) (hk : ∀ i ∈ k, i.natAbs < 10000)
    (hv : ((Text.toNat (whole ++ fraction.getD []) : ℕ) : ℚ) *
      10 ^ (k.getD 0 - (fraction.getD []).length) = v) :
    Spells (spell whole fraction k) v where
  head := by
    obtain ⟨hne, hdigits⟩ := Text.isDecimal_iff.mp h
    obtain ⟨b, rest, rfl⟩ := List.exists_cons_of_ne_nil hne
    exact ⟨b, _, rfl, hdigits b (List.mem_cons_self ..)⟩
  numeric := isNumeric_spell (Text.isDecimal_iff.mp h).2 hfraction
  reads negative := ⟨_, _, decimal_spell negative h hfraction hk, hv⟩

theorem Spells.parse {t : Text} {v : ℚ} (h : Spells t v) (negative : Bool) :
    ∃ (digits : ℕ) (tens : ℤ),
      Numeral.parse ((if negative then [Text.byte '-'] else []) ++ t) =
        some (.finite negative digits 0 tens) ∧ (digits : ℚ) * 10 ^ tens = v := by
  obtain ⟨digits, tens, hreads, hv⟩ := h.reads negative
  have hnumeric := h.numeric
  obtain ⟨b, rest, rfl, hb⟩ := h.head
  obtain ⟨hplus, hminus⟩ := parse_of_digit hb fun c hc => hnumeric c (List.mem_cons_of_mem _ hc)
  refine ⟨digits, tens, ?_, hv⟩
  cases negative with
  | false => exact hplus.trans hreads
  | true => exact hminus.trans hreads

/-! ### The notations -/

section Notations

variable {ds : Text}

theorem isDecimal_take (h : Text.isDecimal ds = true) (n : ℕ) :
    Text.isDecimal (ds.take (n + 1)) = true := by
  obtain ⟨hne, hdigits⟩ := Text.isDecimal_iff.mp h
  refine Text.isDecimal_iff.mpr ⟨?_, fun b hb => hdigits b (List.mem_of_mem_take hb)⟩
  rw [Ne, List.take_eq_nil_iff]
  simp [hne]

theorem isDigit_of_mem_drop (h : Text.isDecimal ds = true) (n : ℕ) :
    ∀ b ∈ ds.drop n, Text.isDigit b = true :=
  fun b hb => (Text.isDecimal_iff.mp h).2 b (List.mem_of_mem_drop hb)

theorem toNat_append_zeros (t : Text) (n : ℕ) :
    Text.toNat (t ++ List.replicate n (Text.byte '0')) = Text.toNat t * 10 ^ n := by
  induction n with
  | zero => simp
  | succ n ih =>
    rw [List.replicate_succ', ← List.append_assoc, Text.toNat, List.foldl_append, ← Text.toNat, ih]
    show 10 * (Text.toNat t * 10 ^ n) + 0 = _
    rw [pow_succ]
    ring

theorem spells_exponent (h : Text.isDecimal ds = true) {k : ℤ} (hk : k.natAbs < 10000) :
    Spells (ds.take 1 ++ (if ds.length = 1 then [] else Text.byte '.' :: ds.drop 1) ++
        [Text.byte 'e', Text.byte (if k < 0 then '-' else '+')] ++
        Text.padLeft 2 '0' (Text.decimal k.natAbs))
      (Text.toNat ds * 10 ^ (k - (ds.length - 1 : ℕ))) := by
  have hk' : ∀ i ∈ some k, i.natAbs < 10000 := by simpa using hk
  have hpoint : Text.byte '.' = 46 := rfl
  have hmark : Text.byte 'e' = 101 := rfl
  by_cases hone : ds.length = 1
  · have hspells := spells_spell (ds.take 1) none (some k) (isDecimal_take h 0) (by simp) hk' rfl
    rw [List.take_of_length_le hone.le] at hspells
    rw [List.take_of_length_le hone.le, if_pos hone, hone, hmark]
    simpa [spell, exponentText] using hspells
  · have hspells := spells_spell (ds.take 1) (some (ds.drop 1)) (some k) (isDecimal_take h 0)
      (by simpa using isDigit_of_mem_drop h 1) hk' rfl
    rw [Option.getD_some, List.take_append_drop, List.length_drop] at hspells
    rw [if_neg hone, hpoint, hmark]
    simpa [spell, exponentText] using hspells

theorem spells_zeros (h : Text.isDecimal ds = true) (n : ℕ) :
    Spells (ds ++ List.replicate n (Text.byte '0')) (Text.toNat ds * 10 ^ (n : ℤ)) := by
  obtain ⟨hne, hdigits⟩ := Text.isDecimal_iff.mp h
  have hwhole : Text.isDecimal (ds ++ List.replicate n (Text.byte '0')) = true := by
    refine Text.isDecimal_iff.mpr ⟨by simp [hne], fun b hb => ?_⟩
    rcases List.mem_append.mp hb with hb | hb
    · exact hdigits b hb
    · rw [(List.mem_replicate.mp hb).2]
      decide
  have hspells := spells_spell _ none none hwhole (by simp) (by simp) rfl
  rw [Option.getD_none, List.append_nil, toNat_append_zeros] at hspells
  simpa [spell] using hspells

theorem spells_point (h : Text.isDecimal ds = true) (n : ℕ) :
    Spells (ds.take (n + 1) ++ Text.byte '.' :: ds.drop (n + 1))
      (Text.toNat ds * 10 ^ (-(ds.length - (n + 1) : ℕ) : ℤ)) := by
  have hspells := spells_spell (ds.take (n + 1)) (some (ds.drop (n + 1))) none (isDecimal_take h n)
    (by simpa using isDigit_of_mem_drop h (n + 1)) (by simp) rfl
  rw [Option.getD_some, List.take_append_drop, List.length_drop] at hspells
  rw [show Text.byte '.' = 46 from rfl]
  simpa [spell] using hspells

theorem spells_small (h : Text.isDecimal ds = true) (n : ℕ) :
    Spells (Text.lit "0." ++ List.replicate n (Text.byte '0') ++ ds)
      (Text.toNat ds * 10 ^ (-(n + ds.length : ℕ) : ℤ)) := by
  obtain ⟨hne, hdigits⟩ := Text.isDecimal_iff.mp h
  have hfraction : ∀ b ∈ List.replicate n (Text.byte '0') ++ ds, Text.isDigit b = true := by
    intro b hb
    rcases List.mem_append.mp hb with hb | hb
    · rw [(List.mem_replicate.mp hb).2]
      decide
    · exact hdigits b hb
  have hzeros : Text.toNat ([48] ++ (List.replicate n (Text.byte '0') ++ ds)) = Text.toNat ds := by
    have hfront := toNat_append_zeros [48] n
    rw [show Text.toNat [48] = 0 from rfl, zero_mul, Text.toNat] at hfront
    rw [← List.append_assoc, Text.toNat, List.foldl_append, hfront]
    rfl
  have hspells := spells_spell [48] (some (List.replicate n (Text.byte '0') ++ ds)) none (by decide)
    (by simpa using hfraction) (by simp) rfl
  rw [Option.getD_some, hzeros, List.length_append, List.length_replicate] at hspells
  rw [show Text.lit "0." = [48, 46] by decide]
  simpa [spell] using hspells

end Notations

end Numeral

/-! ### The notations of a decimal -/

namespace Lane.Decimal

open Numeral

def leading (d : Decimal) : ℤ :=
  d.exponent + (Text.decimal d.digits).length - 1

theorem pow_length_le {n : ℕ} (h : n ≠ 0) :
    10 ^ ((Text.decimal n).length - 1) ≤ n ∧ n < 10 ^ (Text.decimal n).length := by
  have hlength : (Text.decimal n).length = (Nat.toDigits 10 n).length := List.length_map _
  have hle : ∀ {k}, 0 < k → ((Nat.toDigits 10 n).length ≤ k ↔ n < 10 ^ k) := fun hk =>
    Nat.length_toDigits_le_iff (by decide) hk
  have hpos : 0 < (Nat.toDigits 10 n).length := List.length_pos_of_ne_nil Nat.toDigits_ne_nil
  rw [hlength]
  refine ⟨?_, (hle hpos).mp (le_refl _)⟩
  rcases Nat.eq_or_lt_of_le hpos with hone | hmore
  · rw [← hone]
    exact Nat.one_le_iff_ne_zero.mpr h
  · by_contra hlt
    have := (hle (Nat.sub_pos_of_lt hmore)).mpr (not_le.mp hlt)
    omega

theorem leading_bounds {d : Decimal} (h : d.digits ≠ 0) :
    (10 : ℚ) ^ d.leading ≤ d.value ∧ d.value < 10 ^ (d.leading + 1) := by
  obtain ⟨hlower, hupper⟩ := pow_length_le h
  have hpos : 0 < (Text.decimal d.digits).length :=
    List.length_pos_of_ne_nil (Text.isDecimal_iff.mp (Text.isDecimal_decimal d.digits)).1
  have hunit : (0 : ℚ) < 10 ^ d.exponent := zpow_pos (by norm_num) _
  have hleading : d.leading = (((Text.decimal d.digits).length - 1 : ℕ) : ℤ) + d.exponent := by
    rw [leading]
    omega
  have hnext : d.leading + 1 = ((Text.decimal d.digits).length : ℤ) + d.exponent := by
    rw [leading]
    omega
  rw [hnext, hleading, zpow_add₀ (by norm_num), zpow_add₀ (by norm_num), zpow_natCast, zpow_natCast]
  constructor
  · apply mul_le_mul_of_nonneg_right _ hunit.le
    exact_mod_cast hlower
  · apply mul_lt_mul_of_pos_right _ hunit
    exact_mod_cast hupper

theorem spells_render {d : Decimal} (h : d.leading.natAbs < 10000) : Spells d.render d.value := by
  have hds := Text.isDecimal_decimal d.digits
  have hdigits := Text.toNat_decimal d.digits
  have hpos := List.length_pos_of_ne_nil (Text.isDecimal_iff.mp hds).1
  have hleading : d.leading = d.exponent + (Text.decimal d.digits).length - 1 := rfl
  unfold render value
  dsimp only
  rw [← leading]
  generalize Text.decimal d.digits = ds at *
  rw [← hdigits]
  split
  · rw [show d.exponent = d.leading - (ds.length - 1 : ℕ) by omega]
    exact spells_exponent hds h
  · split
    · next hexponent =>
      have hzeros := spells_zeros hds d.exponent.toNat
      rwa [Int.toNat_of_nonneg hexponent] at hzeros
    · split
      · rw [show d.exponent = -(ds.length - (d.leading.toNat + 1) : ℕ) by omega]
        exact spells_point hds _
      · rw [show d.exponent = -((-d.leading - 1).toNat + ds.length : ℕ) by omega]
        exact spells_small hds _

end Lane.Decimal

/-! ### Lanes -/

namespace Lane

variable {a : Lane}

theorem leading_lt {d : Decimal} (h : 0 < a.magnitude)
    (hfinite : a.magnitude < Format.single.infinity)
    (hrounds : Format.single.Rounds a.magnitude d.value) : d.leading.natAbs < 10000 := by
  have hdigits : d.digits ≠ 0 := by
    intro hzero
    have hpos := hrounds.pos h
    rw [Decimal.value, hzero] at hpos
    simp at hpos
  obtain ⟨hlower, hupper⟩ := Decimal.leading_bounds hdigits
  have hlow := two_zpow_lt_iff.mp
    (lt_of_le_of_lt ((ten_zpow_bounds d.leading).1.trans hlower) hrounds.lt_zpow)
  have hhigh := two_zpow_lt_iff.mp
    (lt_of_lt_of_le ((hrounds.least_lt h).trans hupper) (ten_zpow_bounds (d.leading + 1)).2)
  have hexponent : Format.single.exponent a.magnitude ≤ 104 := exponent_le hfinite
  have hbits : Format.single.fractionBits = 23 := rfl
  have hleast : Format.single.least = -149 := rfl
  omega

theorem spells_shortest (h : 0 < a.magnitude) (hfinite : a.magnitude < Format.single.infinity) :
    Numeral.Spells (trimZeros 10 a.shortest).render a.shortest.value := by
  have hrounds := rounds_shortest h hfinite
  rw [← value_trimZeros 10] at hrounds ⊢
  exact Decimal.spells_render (leading_lt h hfinite hrounds)

theorem parse_finite (h : 0 < a.magnitude) (hfinite : a.magnitude < Format.single.infinity) :
    parse? ((if a.isNegative then [Text.byte '-'] else []) ++ (trimZeros 10 a.shortest).render) =
      some a := by
  have hrounds := rounds_shortest h hfinite
  obtain ⟨digits, tens, hparse, hvalue⟩ := (spells_shortest h hfinite).parse a.isNegative
  rw [← hvalue] at hrounds
  rw [parse?, hparse]
  show ofNumeral? (.finite a.isNegative digits 0 tens) = some a
  rw [ofNumeral?, magnitude_eq h hfinite hrounds, if_neg hfinite.ne, ofFields_magnitude]

theorem isToken_finite (h : 0 < a.magnitude) (hfinite : a.magnitude < Format.single.infinity) :
    Text.IsToken
      ((if a.isNegative then [Text.byte '-'] else []) ++ (trimZeros 10 a.shortest).render) := by
  obtain ⟨⟨b, rest, hhead, -⟩, hnumeric, -⟩ := spells_shortest h hfinite
  refine .of_visible (by simp [hhead]) fun b hb => ?_
  rcases List.mem_append.mp hb with hb | hb
  · split at hb
    · rw [List.mem_singleton.mp hb]
      decide
    · cases hb
  · exact Numeral.isVisible_of_isNumeric (hnumeric b hb)

/-- The text of a lane is one word. Reading it gives the lane, up to the form of a value that is not
a number. -/
theorem render_spec (a : Lane) : Text.IsToken a.render ∧ parse? a.render = some a.canonical := by
  have hfields := a.ofFields_magnitude
  have hinfinity : Format.single.infinity = 0x7F800000 := rfl
  unfold render canonical
  dsimp only
  split
  · exact ⟨.of_visible (by decide) (by decide +kernel), by decide +kernel⟩
  · next hnan =>
    split
    · next hinfinite =>
      rw [show a.magnitude = Format.single.infinity from beq_iff_eq.mp hinfinite] at hfields
      rw [← hfields]
      cases a.isNegative
      · exact ⟨.of_visible (by decide) (by decide +kernel), by decide +kernel⟩
      · exact ⟨.of_visible (by decide) (by decide +kernel), by decide +kernel⟩
    · next hinfinite =>
      split
      · next hzero =>
        rw [show a.magnitude = 0 from beq_iff_eq.mp hzero] at hfields
        rw [← hfields]
        cases a.isNegative
        · exact ⟨.of_visible (by decide) (by decide +kernel), by decide +kernel⟩
        · exact ⟨.of_visible (by decide) (by decide +kernel), by decide +kernel⟩
      · next hzero =>
        rw [isNaN, decide_eq_true_eq] at hnan
        rw [isInfinite, beq_iff_eq] at hinfinite
        rw [isZero, beq_iff_eq] at hzero
        have hpos : 0 < a.magnitude := Nat.pos_of_ne_zero hzero
        have hfinite : a.magnitude < Format.single.infinity := by omega
        exact ⟨isToken_finite hpos hfinite, parse_finite hpos hfinite⟩

theorem magnitude_le_infinity (f : Format) (digits : ℕ) (twos tens : ℤ) :
    Numeral.magnitude f digits twos tens ≤ f.infinity := by
  have hquotient : ∀ n d e, f.roundQuotient n d e ≤ f.infinity := fun _ _ _ =>
    f.round_le_infinity _ _
  rw [Numeral.magnitude]
  generalize (digits.log2 : ℤ) + twos + _ = size
  generalize (digits.log2 : ℤ) + 1 + twos + _ = reach
  split
  · exact Nat.zero_le _
  · split
    · exact Nat.le_refl _
    · split
      · exact Nat.zero_le _
      · exact hquotient _ _ _

theorem canonical_of_parse {t : Text} (h : parse? t = some a) : a.canonical = a := by
  obtain ⟨numeral, -, hnumeral⟩ := Option.bind_eq_some_iff.mp h
  cases numeral with
  | nan =>
    cases hnumeral
    rfl
  | infinite negative =>
    cases hnumeral
    cases negative <;> rfl
  | finite negative digits twos tens =>
    rw [ofNumeral?] at hnumeral
    split at hnumeral
    · cases hnumeral
    · next hinfinity =>
      cases hnumeral
      have hle := magnitude_le_infinity .single digits twos tens
      have hsingle : Format.single.infinity = 0x7F800000 := rfl
      rw [canonical, if_neg]
      rw [isNaN, magnitude_ofFields negative (by omega), decide_eq_true_eq]
      omega

end Lane
end Quadlane
