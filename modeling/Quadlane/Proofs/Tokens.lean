import Quadlane.Proofs.Ascii

/-! Texts of arbitrary bytes as texts of runes. A valid sequence is read as its character whatever
follows it, and a stray byte stays one if what follows is replaced from a byte on that continues no
sequence. So the pieces between blanks have the runes that they had in the whole text, and putting
blanks between such pieces and cutting there again gives the pieces back. -/

namespace Quadlane.Text

/-! ### Valid sequences -/

inductive IsSequence : Text → Char → Prop where
  | one {a : UInt8} (h : a < 0x80) : IsSequence [a] (Char.ofNat a.toNat)
  | two {a b : UInt8} (h : isPair a b = true) :
    IsSequence [a, b] (Char.ofNat (a.toNat % 32 * 64 + low6 b))
  | three {a b c : UInt8} (h : isTriple a b c = true) :
    IsSequence [a, b, c] (Char.ofNat ((a.toNat % 16 * 64 + low6 b) * 64 + low6 c))
  | four {a b c d : UInt8} (h : isQuadruple a b c d = true) :
    IsSequence [a, b, c, d]
      (Char.ofNat (((a.toNat % 8 * 64 + low6 b) * 64 + low6 c) * 64 + low6 d))

theorem isContinuation_iff {b : UInt8} :
    isContinuation b = true ↔ 0x80 ≤ b.toNat ∧ b.toNat ≤ 0xBF := by
  simp [isContinuation, UInt8.le_iff_toNat_le]

theorem isPair_iff {a b : UInt8} :
    isPair a b = true ↔ (0xC2 ≤ a.toNat ∧ a.toNat ≤ 0xDF) ∧ isContinuation b = true := by
  simp [isPair, UInt8.le_iff_toNat_le]

theorem isTriple_iff {a b c : UInt8} : isTriple a b c = true ↔
    (0xE0 ≤ a.toNat ∧ a.toNat ≤ 0xEF) ∧ isContinuation b = true ∧ isContinuation c = true ∧
      (a.toNat = 0xE0 → 0xA0 ≤ b.toNat) ∧ (a.toNat = 0xED → b.toNat ≤ 0x9F) := by
  simp [isTriple, UInt8.le_iff_toNat_le, ← UInt8.toNat_inj]
  grind

theorem isQuadruple_iff {a b c d : UInt8} : isQuadruple a b c d = true ↔
    (0xF0 ≤ a.toNat ∧ a.toNat ≤ 0xF4) ∧ isContinuation b = true ∧ isContinuation c = true ∧
      isContinuation d = true ∧
      (a.toNat = 0xF0 → 0x90 ≤ b.toNat) ∧ (a.toNat = 0xF4 → b.toNat ≤ 0x8F) := by
  simp [isQuadruple, UInt8.le_iff_toNat_le, ← UInt8.toNat_inj]
  grind

theorem not_ascii_of_le {a : UInt8} (h : 0x80 ≤ a.toNat) : ¬ a < 0x80 := by
  rw [UInt8.lt_iff_toNat_lt]
  exact Nat.not_lt.mpr h

theorem not_isPair_of_le {a : UInt8} (h : 0xE0 ≤ a.toNat) (b : UInt8) : isPair a b = false := by
  apply Bool.eq_false_iff.mpr
  intro hpair
  have := (isPair_iff.mp hpair).1
  omega

theorem not_isTriple_of_le {a : UInt8} (h : 0xF0 ≤ a.toNat) (b c : UInt8) :
    isTriple a b c = false := by
  apply Bool.eq_false_iff.mpr
  intro htriple
  have := (isTriple_iff.mp htriple).1
  omega

theorem runes_sequence {q : Text} {c : Char} (h : IsSequence q c) (s : Text) :
    runes (q ++ s) = .scalar c :: runes s := by
  cases h with
  | one h =>
    rw [List.singleton_append, runes.eq_def]
    dsimp only
    rw [if_pos h]
  | two h =>
    have hlead := (isPair_iff.mp h).1
    rw [List.cons_append, List.singleton_append, runes.eq_def]
    dsimp only
    rw [if_neg (not_ascii_of_le (by omega))]
    rcases s with _ | ⟨c, _ | ⟨d, r⟩⟩
    · rw [runes]
      exact if_pos h
    · exact if_pos h
    · exact if_pos h
  | three h =>
    have hlead := (isTriple_iff.mp h).1
    rw [List.cons_append, List.cons_append, List.singleton_append, runes.eq_def]
    dsimp only
    rw [if_neg (not_ascii_of_le (by omega))]
    rcases s with _ | ⟨d, r⟩
    · simp only [not_isPair_of_le hlead.1, h, Bool.false_eq_true, if_false, if_true]
      rw [runes]
    · simp only [not_isPair_of_le hlead.1, h, Bool.false_eq_true, if_false, if_true]
  | four h =>
    have hlead := (isQuadruple_iff.mp h).1
    rw [List.cons_append, List.cons_append, List.cons_append, List.singleton_append, runes.eq_def]
    dsimp only
    rw [if_neg (not_ascii_of_le (by omega))]
    simp only [not_isPair_of_le (le_trans (by decide) hlead.1), not_isTriple_of_le hlead.1, h,
      Bool.false_eq_true, if_false, if_true]

theorem runes_stray {a : UInt8} {s : Text} (h : ∀ q c s', IsSequence q c → a :: s ≠ q ++ s') :
    runes (a :: s) = .stray a :: runes s := by
  have h1 : ¬ a < 0x80 := fun ha => h [a] _ s (.one ha) rfl
  have h2 : ∀ b s', s = b :: s' → isPair a b = false := by
    rintro b s' rfl
    exact Bool.eq_false_iff.mpr fun hp => h [a, b] _ s' (.two hp) rfl
  have h3 : ∀ b c s', s = b :: c :: s' → isTriple a b c = false := by
    rintro b c s' rfl
    exact Bool.eq_false_iff.mpr fun hp => h [a, b, c] _ s' (.three hp) rfl
  have h4 : ∀ b c d s', s = b :: c :: d :: s' → isQuadruple a b c d = false := by
    rintro b c d s' rfl
    exact Bool.eq_false_iff.mpr fun hp => h [a, b, c, d] _ s' (.four hp) rfl
  rw [runes.eq_def]
  dsimp only
  rw [if_neg h1]
  rcases s with _ | ⟨b, _ | ⟨c, _ | ⟨d, r⟩⟩⟩
  · rw [runes]
  · simp only [h2 b [] rfl, Bool.false_eq_true, if_false]
  · simp only [h2 b _ rfl, h3 b c _ rfl, Bool.false_eq_true, if_false]
  · simp only [h2 b _ rfl, h3 b c _ rfl, h4 b c d _ rfl, Bool.false_eq_true, if_false]

theorem val_ofNat {n : ℕ} (h : n < 0xD800 ∨ 0xDFFF < n ∧ n < 0x110000) :
    (Char.ofNat n).val.toNat = n := by
  have hvalid : n.isValidChar := h
  rw [Char.val_ofNat hvalid]
  exact UInt32.toNat_ofNat_of_lt' (show n < UInt32.size by unfold UInt32.size; omega)

theorem bytes_sequence {q : Text} {c : Char} (h : IsSequence q c) :
    String.utf8EncodeChar c = q := by
  have hbyte : ∀ {b : UInt8} {n : ℕ}, n = b.toNat → UInt8.ofNat n = b := by
    rintro b n rfl
    exact UInt8.ofNat_toNat
  cases h with
  | one h => exact bytes_ascii h
  | @two a b h =>
    obtain ⟨ha, hb⟩ := isPair_iff.mp h
    rw [isContinuation_iff] at hb
    rw [String.utf8EncodeChar, low6, val_ofNat (by omega)]
    rw [if_neg (by omega), if_pos (by omega), hbyte (b := a) (by omega), hbyte (b := b) (by omega)]
  | @three a b c h =>
    obtain ⟨ha, hb, hc, hlow, hhigh⟩ := isTriple_iff.mp h
    rw [isContinuation_iff] at hb hc
    rw [String.utf8EncodeChar, low6, low6, val_ofNat (by omega)]
    rw [if_neg (by omega), if_neg (by omega), if_pos (by omega), hbyte (b := a) (by omega),
      hbyte (b := b) (by omega), hbyte (b := c) (by omega)]
  | @four a b c d h =>
    obtain ⟨ha, hb, hc, hd, hlow, hhigh⟩ := isQuadruple_iff.mp h
    rw [isContinuation_iff] at hb hc hd
    rw [String.utf8EncodeChar, low6, low6, low6, val_ofNat (by omega)]
    rw [if_neg (by omega), if_neg (by omega), if_neg (by omega), hbyte (b := a) (by omega),
      hbyte (b := b) (by omega), hbyte (b := c) (by omega), hbyte (b := d) (by omega)]

theorem IsSequence.continuation {q : Text} {c : Char} (h : IsSequence q c) :
    ∃ a rest, q = a :: rest ∧ ∀ b ∈ rest, isContinuation b = true := by
  cases h with
  | one h => exact ⟨_, [], rfl, by simp⟩
  | two h => exact ⟨_, _, rfl, by simpa using (isPair_iff.mp h).2⟩
  | three h =>
    obtain ⟨-, hb, hc, -⟩ := isTriple_iff.mp h
    exact ⟨_, _, rfl, by simp [hb, hc]⟩
  | four h =>
    obtain ⟨-, hb, hc, hd, -⟩ := isQuadruple_iff.mp h
    exact ⟨_, _, rfl, by simp [hb, hc, hd]⟩

theorem runes_cases (t : Text) : t = [] ∨
    (∃ q c s, IsSequence q c ∧ t = q ++ s ∧ runes t = .scalar c :: runes s) ∨
    ∃ a s, t = a :: s ∧ (∀ q c s', IsSequence q c → t ≠ q ++ s') ∧
      runes t = .stray a :: runes s := by
  rcases t with _ | ⟨a, s⟩
  · exact .inl rfl
  · by_cases h : ∃ q c s', IsSequence q c ∧ a :: s = q ++ s'
    · obtain ⟨q, c, s', hq, heq⟩ := h
      exact .inr (.inl ⟨q, c, s', hq, heq, heq ▸ runes_sequence hq s'⟩)
    · have hnone : ∀ q c s', IsSequence q c → a :: s ≠ q ++ s' :=
        fun q c s' hq heq => h ⟨q, c, s', hq, heq⟩
      exact .inr (.inr ⟨a, s, rfl, hnone, runes_stray hnone⟩)

/-! ### Pieces of a text -/

theorem ofRunes_cons (r : Rune) (rs : List Rune) : ofRunes (r :: rs) = r.bytes ++ ofRunes rs :=
  List.flatMap_cons

theorem ofRunes_append (rs rs' : List Rune) : ofRunes (rs ++ rs') = ofRunes rs ++ ofRunes rs' :=
  List.flatMap_append

theorem runes_step {t : Text} {r : Rune} {rs : List Rune} (h : runes t = r :: rs) :
    ∃ s, t = r.bytes ++ s ∧ runes s = rs := by
  rcases runes_cases t with rfl | ⟨q, c, s, hq, ht, hrunes⟩ | ⟨a, s, ht, -, hrunes⟩
  · rw [runes] at h
    cases h
  · obtain ⟨rfl, rfl⟩ := List.cons.inj (hrunes.symm.trans h)
    exact ⟨s, ht.trans (congrArg (· ++ s) (bytes_sequence hq).symm), rfl⟩
  · obtain ⟨rfl, rfl⟩ := List.cons.inj (hrunes.symm.trans h)
    exact ⟨s, ht, rfl⟩

theorem eq_nil_of_runes {t : Text} (h : runes t = []) : t = [] := by
  rcases runes_cases t with rfl | ⟨_, _, _, _, _, hrunes⟩ | ⟨_, _, _, _, hrunes⟩
  · rfl
  · cases hrunes.symm.trans h
  · cases hrunes.symm.trans h

theorem ofRunes_of_runes {t : Text} {rs : List Rune} (h : runes t = rs) : ofRunes rs = t := by
  induction rs generalizing t with
  | nil => rw [eq_nil_of_runes h]; rfl
  | cons r rs ih =>
    obtain ⟨s, rfl, hs⟩ := runes_step h
    rw [ofRunes_cons, ih hs]

theorem ofRunes_runes (t : Text) : ofRunes (runes t) = t :=
  ofRunes_of_runes rfl

/-- Whether a text can follow another without becoming part of its last character. -/
def Starts (u : Text) : Prop :=
  ∀ b, u.head? = some b → isContinuation b = false

theorem IsSequence.within {q p u s : Text} {c : Char} (hq : IsSequence q c) (hu : Starts u)
    {a : UInt8} (h : a :: p ++ u = q ++ s) : ∃ s', a :: p = q ++ s' := by
  -- No sequence reaches beyond the start of another text.
  obtain ⟨a', rest, rfl, hrest⟩ := hq.continuation
  rcases List.append_eq_append_iff.mp h with ⟨v, hv, hu'⟩ | ⟨v, hv, -⟩
  · rcases v with _ | ⟨b, v⟩
    · exact ⟨[], by rw [List.append_nil, hv, List.append_nil]⟩
    · -- The first byte of the other text would continue the sequence.
      have hmem : b ∈ rest := by
        rw [List.cons_append, List.cons_eq_cons] at hv
        rw [hv.2]
        simp
      have hb := hu b (by rw [hu']; rfl)
      rw [hrest b hmem] at hb
      cases hb
  · exact ⟨v, hv⟩

theorem runes_replace {t u : Text} {rs rs' : List Rune} (h : runes t = rs ++ rs') (hu : Starts u) :
    runes (ofRunes rs ++ u) = rs ++ runes u := by
  induction rs generalizing t with
  | nil => rfl
  | cons r rs ih =>
    rw [ofRunes_cons, List.append_assoc]
    rcases runes_cases t with rfl | ⟨q, c, s, hq, -, hrunes⟩ | ⟨a, s, rfl, hnone, hrunes⟩
    · rw [runes] at h
      cases h
    · obtain ⟨rfl, hs⟩ := List.cons.inj (hrunes.symm.trans h)
      rw [Rune.bytes, bytes_sequence hq, runes_sequence hq, ih hs]
      rfl
    · obtain ⟨rfl, hs⟩ := List.cons.inj (hrunes.symm.trans h)
      rw [Rune.bytes, List.singleton_append, runes_stray, ih hs]
      · rfl
      · -- A sequence here would be one of the old text.
        intro q c s' hq heq
        obtain ⟨s'', hs''⟩ := hq.within hu (p := ofRunes rs) heq
        apply hnone q c (s'' ++ ofRunes rs') hq
        have hs' : ofRunes (rs ++ rs') = s := ofRunes_of_runes hs
        rw [← List.append_assoc, ← hs'', List.cons_append, ← ofRunes_append, hs']

theorem runes_append (t : Text) {u : Text} (hu : Starts u) :
    runes (t ++ u) = runes t ++ runes u := by
  have h := runes_replace (List.append_nil (runes t)).symm hu
  rwa [ofRunes_runes] at h

theorem starts_nil : Starts [] := by
  intro b hb
  cases hb

theorem starts_ascii {a : UInt8} (h : a < 0x80) (t : Text) : Starts (a :: t) := by
  intro b hb
  obtain rfl : a = b := Option.some.inj hb
  have hle : ¬ 0x80 ≤ a := UInt8.not_le.mpr h
  simp [isContinuation, hle]

theorem runes_ofRunes_drop {t : Text} {rs rs' : List Rune} (h : runes t = rs ++ rs') :
    runes (ofRunes rs') = rs' := by
  induction rs generalizing t with
  | nil =>
    have ht : ofRunes rs' = t := ofRunes_of_runes h
    rw [ht]
    exact h
  | cons r rs ih =>
    obtain ⟨s, -, hs⟩ := runes_step h
    exact ih hs

theorem runes_ofRunes {t : Text} {front rs rest : List Rune} (h : runes t = front ++ (rs ++ rest)) :
    runes (ofRunes rs) = rs := by
  have hpiece := runes_replace (runes_ofRunes_drop h) starts_nil
  rwa [List.append_nil, runes, List.append_nil] at hpiece

theorem runes_ascii {a : UInt8} (h : a < 0x80) (t : Text) :
    runes (a :: t) = Rune.ascii a :: runes t :=
  runes_sequence (.one h) t

theorem ascii_mem_runes {t : Text} {b : UInt8} (hb : b ∈ t) (hascii : b < 0x80) :
    Rune.ascii b ∈ runes t := by
  obtain ⟨front, rest, rfl⟩ := List.append_of_mem hb
  rw [runes_append front (starts_ascii hascii rest), runes_ascii hascii]
  simp

/-! ### Tokens -/

structure IsUnbroken (f : Text) : Prop where
  nonempty : f ≠ []
  unbroken : ∀ r ∈ runes f, r.isBlank = false

theorem IsUnbroken.fields_eq {f : Text} (h : IsUnbroken f) : fields f = [f] := by
  have hne : runes f ≠ [] := fun hnil => h.nonempty (eq_nil_of_runes hnil)
  have hsplit := splitBlanks_append [] h.unbroken []
  rw [List.append_nil, List.append_nil] at hsplit
  rw [fields, hsplit, splitBlanks]
  simp [hne, ofRunes_runes]

/-- A word that a line can hold: it has no blank in it and starts no comment. -/
structure IsToken (t : Text) : Prop where
  nonempty : t ≠ []
  unbroken : ∀ r ∈ runes t, r.isBlank = false
  uncommented : ∀ b ∈ t, (b ≠ byte '#' && b ≠ byte ';') = true

theorem runes_blank (t : Text) : runes (32 :: t) = Rune.ascii 32 :: runes t :=
  runes_ascii (by decide) t

theorem isBlank_space : (Rune.ascii 32).isBlank = true := by
  decide

namespace IsToken

variable {w : Text}

theorem runes_ne_nil (h : IsToken w) : runes w ≠ [] :=
  fun hnil => h.nonempty (eq_nil_of_runes hnil)

theorem fields_append (h : IsToken w) (t : Text) : fields (w ++ 32 :: t) = w :: fields t := by
  rw [fields, runes_append w (starts_ascii (by decide) t), runes_blank,
    splitBlanks_append [] h.unbroken, splitBlanks, isBlank_space, fields]
  simp [h.runes_ne_nil, ofRunes_runes]

theorem isUnbroken (h : IsToken w) : IsUnbroken w :=
  ⟨h.nonempty, h.unbroken⟩

theorem fields_eq (h : IsToken w) : fields w = [w] :=
  h.isUnbroken.fields_eq

theorem notMem (h : IsToken w) {b : UInt8} (hascii : b < 0x80)
    (hblank : (Rune.ascii b).isBlank = true) : b ∉ w := by
  intro hb
  have hunbroken := h.unbroken _ (ascii_mem_runes hb hascii)
  rw [hblank] at hunbroken
  cases hunbroken

end IsToken

def isVisible (b : UInt8) : Bool :=
  33 ≤ b && b ≤ 126 && b != byte '#' && b != byte ';'

theorem isVisible_ascii {b : UInt8} (h : isVisible b = true) : b < 0x80 ∧
    (Rune.ascii b).isBlank = false ∧ (b ≠ byte '#' && b ≠ byte ';') = true :=
  forall_byte (P := fun b => isVisible b = true → b < 0x80 ∧ (Rune.ascii b).isBlank = false ∧
    (b ≠ byte '#' && b ≠ byte ';') = true) (by decide +kernel) b h

theorem IsToken.of_visible {t : Text} (hne : t ≠ []) (h : ∀ b ∈ t, isVisible b = true) :
    IsToken t := by
  refine ⟨hne, ?_, fun b hb => (isVisible_ascii (h b hb)).2.2⟩
  rw [runes_of_ascii fun b hb => (isVisible_ascii (h b hb)).1]
  intro r hr
  obtain ⟨b, hb, rfl⟩ := List.mem_map.mp hr
  exact (isVisible_ascii (h b hb)).2.1

theorem fields_tokens {ws : List Text} (h : ∀ w ∈ ws, IsToken w) : fields (words ws) = ws := by
  induction ws with
  | nil => rw [words, joinWith, List.intercalate_nil, fields, runes]; rfl
  | cons w ws ih =>
    have hw := h w (List.mem_cons_self ..)
    have hws : ∀ w ∈ ws, IsToken w := fun w' hw' => h w' (List.mem_cons_of_mem _ hw')
    cases ws with
    | nil => rw [words, joinWith_singleton, hw.fields_eq]
    | cons v ws => rw [words_cons, hw.fields_append, ih hws]

structure IsTight (t : Text) : Prop where
  nonempty : t ≠ []
  head : ∀ r, (runes t).head? = some r → r.isBlank = false
  last : ∀ r, (runes t).getLast? = some r → r.isBlank = false

theorem IsUnbroken.isTight {f : Text} (h : IsUnbroken f) : IsTight f where
  nonempty := h.nonempty
  head r hr := h.unbroken r (List.mem_of_head? hr)
  last r hr := h.unbroken r (List.mem_of_getLast? hr)

theorem IsToken.isTight {w : Text} (h : IsToken w) : IsTight w :=
  h.isUnbroken.isTight

theorem IsTight.append {s t : Text} (hs : IsTight s) (ht : IsTight t) : IsTight (s ++ 32 :: t) := by
  have hne : ∀ {u}, IsTight u → runes u ≠ [] := fun hu hnil => hu.nonempty (eq_nil_of_runes hnil)
  have hrunes : runes (s ++ 32 :: t) = runes s ++ Rune.ascii 32 :: runes t := by
    rw [runes_append s (starts_ascii (by decide) t), runes_blank]
  refine ⟨by simp, fun r hr => ?_, fun r hr => ?_⟩
  · rw [hrunes, List.head?_append_of_ne_nil _ (hne hs)] at hr
    exact hs.head r hr
  · rw [hrunes, List.getLast?_append_of_ne_nil _ (by simp)] at hr
    obtain ⟨r', rs, hcons⟩ := List.exists_cons_of_ne_nil (hne ht)
    rw [hcons, List.getLast?_cons_cons, ← hcons] at hr
    exact ht.last r hr

theorem isTight_words {w : Text} {ws : List Text} (h : ∀ v ∈ w :: ws, IsToken v) :
    IsTight (words (w :: ws)) := by
  induction ws generalizing w with
  | nil =>
    rw [words, joinWith_singleton]
    exact (h w (List.mem_cons_self ..)).isTight
  | cons v ws ih =>
    rw [words_cons]
    exact (h w (List.mem_cons_self ..)).isTight.append
      (ih fun v' hv' => h v' (List.mem_cons_of_mem _ hv'))

theorem IsTight.dropWhile_front {t : Text} (h : IsTight t) (rs : List Rune) :
    (runes t ++ rs).dropWhile Rune.isBlank = runes t ++ rs := by
  obtain ⟨r, rest, hcons⟩ :=
    List.exists_cons_of_ne_nil fun hnil => h.nonempty (eq_nil_of_runes hnil)
  have hr := h.head r (by rw [hcons]; rfl)
  rw [hcons, List.cons_append, List.dropWhile_cons_of_neg (by simp [hr])]

theorem IsTight.dropWhile_back {t : Text} (h : IsTight t) :
    (runes t).reverse.dropWhile Rune.isBlank = (runes t).reverse := by
  obtain ⟨front, r, hconcat⟩ := (List.eq_nil_or_concat (runes t)).resolve_left
    fun hnil => h.nonempty (eq_nil_of_runes hnil)
  have hr := h.last r (by rw [hconcat]; simp)
  rw [hconcat]
  simp [hr]

theorem IsTight.trim_eq {t : Text} (h : IsTight t) : trim t = t := by
  have hfront := h.dropWhile_front []
  rw [List.append_nil] at hfront
  rw [trim, hfront, h.dropWhile_back, List.reverse_reverse, ofRunes_runes]

theorem IsTight.trim_append {t : Text} (h : IsTight t) : trim (t ++ [32]) = t := by
  rw [trim, runes_append t (starts_ascii (by decide) []), runes_blank, h.dropWhile_front, runes,
    List.reverse_append, List.reverse_singleton, List.singleton_append,
    List.dropWhile_cons_of_pos isBlank_space, h.dropWhile_back, List.reverse_reverse, ofRunes_runes]

/-! ### The tokens of a line -/

structure IsPiece (all w : List Rune) : Prop where
  nonempty : w ≠ []
  unbroken : ∀ r ∈ w, r.isBlank = false
  place : ∃ front rest, all = front ++ (w ++ rest)

theorem isPiece_reverse {all front field rs : List Rune} (hfield : ∀ r ∈ field, r.isBlank = false)
    (h : all = front ++ (field.reverse ++ rs)) (hne : ¬ field.isEmpty = true) :
    IsPiece all field.reverse :=
  ⟨by simpa using hne, fun r hr => hfield r (List.mem_reverse.mp hr), front, rs, h⟩

theorem isPiece_of_mem_splitBlanks {all : List Rune} (front field rs : List Rune)
    (hfield : ∀ r ∈ field, r.isBlank = false) (h : all = front ++ (field.reverse ++ rs)) :
    ∀ w ∈ splitBlanks field rs, IsPiece all w := by
  induction rs generalizing front field with
  | nil =>
    intro w hw
    rw [splitBlanks] at hw
    split at hw
    · cases hw
    · next hne =>
      rw [List.mem_singleton.mp hw]
      exact isPiece_reverse hfield h hne
  | cons r rs ih =>
    have hafter : ∀ w ∈ splitBlanks [] rs, IsPiece all w := by
      apply ih (front ++ (field.reverse ++ [r])) [] (by simp)
      rw [h]
      simp
    intro w hw
    rw [splitBlanks] at hw
    split at hw
    · split at hw
      · exact hafter w hw
      · next hne =>
        rcases List.mem_cons.mp hw with rfl | hw
        · exact isPiece_reverse hfield h hne
        · exact hafter w hw
    · next hblank =>
      refine ih front (r :: field) ?_ ?_ w hw
      · intro r' hr'
        rcases List.mem_cons.mp hr' with rfl | hr'
        · simpa using hblank
        · exact hfield r' hr'
      · rw [h]
        simp

theorem isToken_of_mem_fields {t w : Text} (ht : ∀ b ∈ t, (b ≠ byte '#' && b ≠ byte ';') = true)
    (hw : w ∈ fields t) : IsToken w := by
  obtain ⟨rs, hrs, rfl⟩ := List.mem_map.mp hw
  have hpiece : IsPiece (runes t) rs :=
    isPiece_of_mem_splitBlanks [] [] (runes t) (by simp) rfl rs hrs
  obtain ⟨front, rest, hall⟩ := hpiece.place
  have hrunes := runes_ofRunes hall
  refine ⟨fun hnil => hpiece.nonempty ?_, ?_, fun b hb => ht b ?_⟩
  · rw [← hrunes, hnil, runes]
  · rw [hrunes]
    exact hpiece.unbroken
  · rw [← ofRunes_runes t, hall, ofRunes_append, ofRunes_append]
    exact List.mem_append_right _ (List.mem_append_left _ hb)

end Quadlane.Text
