import Mathlib
import Quadlane.Text.Rune

/-! Texts of words with single blanks between them. The words are made of digits, small letters,
commas and minus signs, so every byte is a character of its own: cutting such a text at its blanks
gives the words back, trimming and lower case leave a word alone. Numbers are such words. -/

namespace Quadlane

theorem forall_byte {P : UInt8 → Prop} (h : ∀ n : Fin 256, P (.ofNat n)) (b : UInt8) : P b := by
  have := h ⟨b.toNat, b.toNat_lt⟩
  rwa [UInt8.ofNat_toNat] at this

def Rune.ascii (b : UInt8) : Rune :=
  .scalar (Char.ofNat b.toNat)

namespace Text

def isPlain (b : UInt8) : Bool :=
  isDigit b || (97 ≤ b && b ≤ 122) || b == 44 || b == 45

structure IsWord (t : Text) : Prop where
  nonempty : t ≠ []
  plain : ∀ b ∈ t, isPlain b = true

/-! ### Runes of ASCII bytes -/

theorem isPlain_ascii {b : UInt8} (h : isPlain b = true) : b < 0x80 :=
  forall_byte (P := fun b => isPlain b = true → b < 0x80) (by decide +kernel) b h

theorem isBlank_of_isPlain {b : UInt8} (h : isPlain b = true) : (Rune.ascii b).isBlank = false :=
  forall_byte (P := fun b => isPlain b = true → (Rune.ascii b).isBlank = false)
    (by decide +kernel) b h

theorem bytes_ascii {b : UInt8} (h : b < 0x80) : (Rune.ascii b).bytes = [b] :=
  forall_byte (P := fun b => b < 0x80 → (Rune.ascii b).bytes = [b]) (by decide +kernel) b h

theorem runes_of_ascii {t : Text} (h : ∀ b ∈ t, b < 0x80) : runes t = t.map Rune.ascii := by
  induction t with
  | nil => rw [runes, List.map_nil]
  | cons a t ih =>
    rw [runes.eq_def]
    dsimp only
    rw [if_pos (h a (List.mem_cons_self ..)), ih fun b hb => h b (List.mem_cons_of_mem _ hb)]
    rfl

theorem ofRunes_map_ascii {t : Text} (h : ∀ b ∈ t, b < 0x80) : ofRunes (t.map Rune.ascii) = t := by
  induction t with
  | nil => rfl
  | cons a t ih =>
    rw [ofRunes, List.map_cons, List.flatMap_cons, bytes_ascii (h a (List.mem_cons_self ..)),
      ← ofRunes, ih fun b hb => h b (List.mem_cons_of_mem _ hb)]
    rfl

theorem IsWord.ascii {w : Text} (h : IsWord w) : ∀ b ∈ w, b < 0x80 :=
  fun b hb => isPlain_ascii (h.plain b hb)

/-! ### Fields -/

theorem splitBlanks_append (field : List Rune) {w : List Rune} (h : ∀ r ∈ w, r.isBlank = false)
    (rest : List Rune) :
    splitBlanks field (w ++ rest) = splitBlanks (w.reverse ++ field) rest := by
  induction w generalizing field with
  | nil => rfl
  | cons r w ih =>
    rw [List.cons_append, splitBlanks, h r (List.mem_cons_self ..)]
    simp only [Bool.false_eq_true, if_false]
    rw [ih _ fun r' hr' => h r' (List.mem_cons_of_mem _ hr')]
    simp

theorem IsWord.runes {w : Text} (h : IsWord w) :
    w.map Rune.ascii ≠ [] ∧ ∀ r ∈ w.map Rune.ascii, r.isBlank = false := by
  refine ⟨fun hnil => h.nonempty (List.map_eq_nil_iff.mp hnil), ?_⟩
  intro r hr
  obtain ⟨b, hb, rfl⟩ := List.mem_map.mp hr
  exact isBlank_of_isPlain (h.plain b hb)

theorem fields_word {w : Text} (h : IsWord w) : fields w = [w] := by
  have hsplit := splitBlanks_append [] h.runes.2 []
  rw [List.append_nil, List.append_nil] at hsplit
  rw [fields, runes_of_ascii h.ascii, hsplit, splitBlanks]
  simp [h.nonempty, ofRunes_map_ascii h.ascii]

theorem fields_cons {w rest : Text} (h : IsWord w) (hrest : ∀ b ∈ rest, b < 0x80) :
    fields (w ++ 32 :: rest) = w :: fields rest := by
  have hall : ∀ b ∈ w ++ 32 :: rest, b < 0x80 := by
    intro b hb
    rcases List.mem_append.mp hb with hb | hb
    · exact h.ascii b hb
    · rcases List.mem_cons.mp hb with rfl | hb
      · decide
      · exact hrest b hb
  have hblank : (Rune.ascii 32).isBlank = true := by decide
  rw [fields, runes_of_ascii hall, List.map_append, List.map_cons,
    splitBlanks_append [] h.runes.2, splitBlanks, hblank, fields, runes_of_ascii hrest]
  simp [h.nonempty, ofRunes_map_ascii h.ascii]

theorem joinWith_singleton (separator part : Text) : joinWith separator [part] = part := by
  simp [joinWith]

theorem joinWith_cons (separator part next : Text) (parts : List Text) :
    joinWith separator (part :: next :: parts) =
      part ++ (separator ++ joinWith separator (next :: parts)) := by
  simp [joinWith, List.intercalate]

theorem words_cons (w v : Text) (ws : List Text) :
    words (w :: v :: ws) = w ++ 32 :: words (v :: ws) :=
  joinWith_cons [32] w v ws

theorem forall_mem_joinWith {P : UInt8 → Prop} {separator : Text} {parts : List Text}
    (hseparator : ∀ b ∈ separator, P b) (hparts : ∀ t ∈ parts, ∀ b ∈ t, P b) :
    ∀ b ∈ joinWith separator parts, P b := by
  induction parts with
  | nil => intro b hb; simp [joinWith] at hb
  | cons part parts ih =>
    have hpart := hparts part (List.mem_cons_self ..)
    have hrest := ih fun t ht => hparts t (List.mem_cons_of_mem _ ht)
    cases parts with
    | nil => rwa [joinWith_singleton]
    | cons next parts =>
      rw [joinWith_cons]
      intro b hb
      rcases List.mem_append.mp hb with hb | hb
      · exact hpart b hb
      · rcases List.mem_append.mp hb with hb | hb
        · exact hseparator b hb
        · exact hrest b hb

theorem forall_mem_words {P : UInt8 → Prop} (hblank : P 32) (hplain : ∀ b, isPlain b = true → P b)
    {ws : List Text} (h : ∀ w ∈ ws, IsWord w) : ∀ b ∈ words ws, P b := by
  refine forall_mem_joinWith ?_ fun w hw b hb => hplain b ((h w hw).plain b hb)
  intro b hb
  rwa [List.mem_singleton.mp hb]

theorem ascii_words {ws : List Text} (h : ∀ w ∈ ws, IsWord w) : ∀ b ∈ words ws, b < 0x80 :=
  forall_mem_words (by decide) (fun _ => isPlain_ascii) h

theorem fields_words {ws : List Text} (h : ∀ w ∈ ws, IsWord w) : fields (words ws) = ws := by
  induction ws with
  | nil => rw [words, joinWith, List.intercalate_nil, fields, runes]; rfl
  | cons w ws ih =>
    have hw := h w (List.mem_cons_self ..)
    have hws : ∀ w ∈ ws, IsWord w := fun w' hw' => h w' (List.mem_cons_of_mem _ hw')
    cases ws with
    | nil => rw [words, joinWith_singleton, fields_word hw]
    | cons v ws =>
      rw [words_cons, fields_cons hw (ascii_words hws), ih hws]

theorem length_words_le {ws : List Text} {k : Nat} (h : ∀ w ∈ ws, w.length ≤ k) :
    (words ws).length ≤ ws.length * (k + 1) := by
  induction ws with
  | nil => simp [words, joinWith]
  | cons w ws ih =>
    have hw := h w (List.mem_cons_self ..)
    have hrest := ih fun w' hw' => h w' (List.mem_cons_of_mem _ hw')
    rw [List.length_cons, Nat.succ_mul]
    cases ws with
    | nil =>
      rw [words, joinWith_singleton]
      omega
    | cons v ws =>
      rw [words_cons, List.length_append, List.length_cons]
      omega

/-! ### Trimming and lower case -/

theorem trim_of_ends {t : Text} (hascii : ∀ b ∈ t, b < 0x80)
    (hhead : ∀ b, t.head? = some b → isPlain b = true)
    (hlast : ∀ b, t.getLast? = some b → isPlain b = true) : trim t = t := by
  have hfront : (t.map Rune.ascii).dropWhile Rune.isBlank = t.map Rune.ascii := by
    cases t with
    | nil => rfl
    | cons b t => simp [isBlank_of_isPlain (hhead b rfl)]
  have hback : (t.map Rune.ascii).reverse.dropWhile Rune.isBlank = (t.map Rune.ascii).reverse := by
    rcases List.eq_nil_or_concat t with rfl | ⟨front, b, rfl⟩
    · rfl
    · simp [isBlank_of_isPlain (hlast b (by simp))]
  rw [trim, runes_of_ascii hascii, hfront, hback, List.reverse_reverse, ofRunes_map_ascii hascii]

theorem trim_word {w : Text} (h : IsWord w) : trim w = w :=
  trim_of_ends h.ascii (fun b hb => h.plain b (List.mem_of_head? hb))
    fun b hb => h.plain b (List.mem_of_getLast? hb)

theorem trim_blank {t : Text} (h : ∀ b ∈ t, b < 0x80) : trim (32 :: t) = trim t := by
  have hall : ∀ b ∈ 32 :: t, b < 0x80 := by
    intro b hb
    rcases List.mem_cons.mp hb with rfl | hb
    · decide
    · exact h b hb
  have hblank : (Rune.ascii 32).isBlank = true := by decide
  rw [trim, trim, runes_of_ascii hall, runes_of_ascii h, List.map_cons, List.dropWhile_cons, hblank]
  rfl

theorem head_words {w : Text} (ws : List Text) (h : w ≠ []) :
    (words (w :: ws)).head? = w.head? := by
  cases ws with
  | nil => rw [words, joinWith_singleton]
  | cons v ws =>
    obtain ⟨b, w, rfl⟩ := List.exists_cons_of_ne_nil h
    rw [words_cons]
    rfl

theorem words_ne_nil {w : Text} (ws : List Text) (h : w ≠ []) : words (w :: ws) ≠ [] := by
  intro hnil
  have hhead := head_words ws h
  rw [hnil] at hhead
  exact h (List.head?_eq_none_iff.mp hhead.symm)

theorem getLast_words {ws : List Text} (h : ∀ w ∈ ws, IsWord w) :
    ∀ b, (words ws).getLast? = some b → isPlain b = true := by
  induction ws with
  | nil => intro b hb; simp [words, joinWith] at hb
  | cons w ws ih =>
    intro b hb
    have hws : ∀ w ∈ ws, IsWord w := fun w' hw' => h w' (List.mem_cons_of_mem _ hw')
    cases ws with
    | nil =>
      rw [words, joinWith_singleton] at hb
      exact (h w (List.mem_cons_self ..)).plain b (List.mem_of_getLast? hb)
    | cons v ws =>
      obtain ⟨c, t, hrest⟩ :=
        List.exists_cons_of_ne_nil (words_ne_nil ws (hws v (List.mem_cons_self ..)).nonempty)
      refine ih hws b ?_
      rw [words_cons, List.getLast?_append, hrest, List.getLast?_cons_cons] at hb
      rw [hrest]
      simpa using hb

theorem lower_word {w : Text} (h : IsWord w) : lower w = w := by
  have hsame : ∀ b ∈ w, Rune.ascii b = .scalar (Char.ofNat b.toNat).toLower ∧
      (Char.ofNat b.toNat).toNat ≠ 0x130 ∧ (Char.ofNat b.toNat).toNat ≠ 0x212A := fun b hb =>
    forall_byte (P := fun b => isPlain b = true →
      Rune.ascii b = .scalar (Char.ofNat b.toNat).toLower ∧
        (Char.ofNat b.toNat).toNat ≠ 0x130 ∧ (Char.ofNat b.toNat).toNat ≠ 0x212A)
      (by decide +kernel) b (h.plain b hb)
  rw [lower, runes_of_ascii h.ascii, List.map_map]
  refine Eq.trans (congrArg ofRunes (List.map_congr_left fun b hb => ?_))
    (ofRunes_map_ascii h.ascii)
  obtain ⟨hlower, hi, hk⟩ := hsame b hb
  simp only [Function.comp, Rune.ascii, if_neg hi, if_neg hk] at hlower ⊢
  exact hlower.symm

/-! ### Separators -/

theorem splitOn_of_notMem {separator : UInt8} {t : Text} (h : separator ∉ t) :
    splitOn separator t = [t] := by
  induction t with
  | nil => rfl
  | cons b t ih =>
    rw [List.mem_cons, not_or] at h
    rw [splitOn, if_neg (Ne.symm h.1), ih h.2]

theorem splitOn_ne_nil (separator : UInt8) (t : Text) : splitOn separator t ≠ [] := by
  cases t with
  | nil => simp [splitOn]
  | cons b t =>
    rw [splitOn]
    split
    · simp
    · split <;> simp

theorem splitOn_append_splitOn (separator : UInt8) (t rest : Text) :
    splitOn separator (t ++ separator :: rest) =
      splitOn separator t ++ splitOn separator rest := by
  induction t with
  | nil => rw [List.nil_append, splitOn, splitOn, if_pos rfl, List.singleton_append]
  | cons b t ih =>
    rw [List.cons_append, splitOn, splitOn, ih]
    by_cases hb : b = separator
    · rw [if_pos hb, if_pos hb, List.cons_append]
    · rw [if_neg hb, if_neg hb]
      rcases hpieces : splitOn separator t with _ | ⟨piece, pieces⟩
      · exact absurd hpieces (splitOn_ne_nil separator t)
      · rfl

theorem splitOn_append {separator : UInt8} {t : Text} (h : separator ∉ t) (rest : Text) :
    splitOn separator (t ++ separator :: rest) = t :: splitOn separator rest := by
  rw [splitOn_append_splitOn, splitOn_of_notMem h, List.singleton_append]

theorem splitOn_joinWith {separator : UInt8} {part : Text} {parts : List Text}
    (h : ∀ t ∈ part :: parts, separator ∉ t) :
    splitOn separator (joinWith [separator] (part :: parts)) = part :: parts := by
  induction parts generalizing part with
  | nil => rw [joinWith_singleton, splitOn_of_notMem (h part (List.mem_cons_self ..))]
  | cons next parts ih =>
    rw [joinWith_cons, List.singleton_append, splitOn_append (h part (List.mem_cons_self ..)),
      ih fun t ht => h t (List.mem_cons_of_mem _ ht)]

theorem splitOn_flatMap {separator : UInt8} {parts : List Text} (h : ∀ t ∈ parts, separator ∉ t) :
    splitOn separator (parts.flatMap (· ++ [separator])) = parts ++ [[]] := by
  induction parts with
  | nil => rfl
  | cons part parts ih =>
    rw [List.flatMap_cons, List.append_assoc, List.singleton_append,
      splitOn_append (h part (List.mem_cons_self ..)),
      ih fun t ht => h t (List.mem_cons_of_mem _ ht), List.cons_append]

/-! ### Numbers -/

theorem isPlain_of_isDigit {b : UInt8} (h : isDigit b = true) : isPlain b = true := by
  rw [isPlain, h]
  rfl

theorem isDigit_byte {c : Char} (h : c.isDigit = true) :
    isDigit (byte c) = true ∧ (byte c).toNat = c.toNat := by
  obtain ⟨lower, upper⟩ : 48 ≤ c.toNat ∧ c.toNat ≤ 57 := Char.isDigit_iff_toNat.mp h
  have hbyte : (byte c).toNat = c.toNat := by
    rw [byte]
    exact UInt8.toNat_ofNat_of_lt' (show c.toNat < 256 by omega)
  refine ⟨?_, hbyte⟩
  simp only [isDigit, UInt8.le_iff_toNat_le, hbyte, Bool.and_eq_true, decide_eq_true_eq]
  exact ⟨lower, upper⟩

theorem isDigit_of_mem_decimal {n : Nat} {b : UInt8} (h : b ∈ decimal n) : isDigit b = true := by
  obtain ⟨c, hc, rfl⟩ := List.mem_map.mp h
  exact (isDigit_byte (Nat.isDigit_of_mem_toDigits (by decide) (by decide) hc)).1

theorem isDecimal_iff {t : Text} : isDecimal t = true ↔ t ≠ [] ∧ ∀ b ∈ t, isDigit b = true := by
  simp [isDecimal]

theorem isDecimal_decimal (n : Nat) : isDecimal (decimal n) = true :=
  isDecimal_iff.mpr ⟨fun hnil => Nat.toDigits_ne_nil (List.map_eq_nil_iff.mp hnil),
    fun _ => isDigit_of_mem_decimal⟩

theorem foldl_digits {cs : List Char} (h : ∀ c ∈ cs, c.isDigit = true) (n : Nat) :
    (cs.map byte).foldl (fun n b => 10 * n + (b.toNat - 48)) n = Nat.ofDigitChars 10 cs n := by
  induction cs generalizing n with
  | nil => rw [Nat.ofDigitChars_nil]; rfl
  | cons c cs ih =>
    rw [List.map_cons, List.foldl_cons, (isDigit_byte (h c (List.mem_cons_self ..))).2,
      ih fun c' hc' => h c' (List.mem_cons_of_mem _ hc'), Nat.ofDigitChars_cons]
    rfl

theorem toNat_decimal (n : Nat) : toNat (decimal n) = n := by
  rw [toNat, decimal,
    foldl_digits fun c hc => Nat.isDigit_of_mem_toDigits (by decide) (by decide) hc]
  exact Nat.ofDigitChars_ten_toDigits

theorem length_decimal_le {n k : Nat} (hk : 0 < k) (h : n < 10 ^ k) : (decimal n).length ≤ k := by
  rw [decimal, List.length_map]
  exact (Nat.length_toDigits_le_iff (by decide) hk).mpr h

theorem IsWord.of_isDecimal {t : Text} (h : isDecimal t = true) : IsWord t :=
  ⟨(isDecimal_iff.mp h).1, fun b hb => isPlain_of_isDigit ((isDecimal_iff.mp h).2 b hb)⟩

theorem isDecimal_padLeft (width : Nat) {t : Text} (h : isDecimal t = true) :
    isDecimal (padLeft width '0' t) = true := by
  obtain ⟨hne, hdigits⟩ := isDecimal_iff.mp h
  refine isDecimal_iff.mpr ⟨by simp [padLeft, hne], ?_⟩
  intro b hb
  rcases List.mem_append.mp hb with hb | hb
  · rw [(List.mem_replicate.mp hb).2]
    decide
  · exact hdigits b hb

end Text
end Quadlane
