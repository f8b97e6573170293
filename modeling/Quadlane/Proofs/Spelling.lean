import Quadlane.Proofs.Formatting
import Quadlane.Proofs.Pieces

/-! What the spelling of a word leaves open. The letters of a mnemonic and the letter of an operand
may be of either case, and zeros may stand in front of the number of an operand. The plain form of a
word has small letters and no such zeros, and operands are read as their plain forms are. -/

namespace Quadlane

namespace Text

/-! ### Cases of letters -/

def isLetter (b : UInt8) : Bool :=
  97 ≤ lowerByte b && lowerByte b ≤ 122

theorem isLetter_iff {b : UInt8} :
    isLetter b = true ↔ 65 ≤ b ∧ b ≤ 90 ∨ 97 ≤ b ∧ b ≤ 122 := by
  simp only [isLetter, lowerByte, Bool.and_eq_true, decide_eq_true_eq]
  grind

theorem isDigit_iff {b : UInt8} : isDigit b = true ↔ 48 ≤ b ∧ b ≤ 57 := by
  simp [isDigit]

theorem isVisible_iff {b : UInt8} :
    isVisible b = true ↔ 33 ≤ b ∧ b ≤ 126 ∧ b ≠ 35 ∧ b ≠ 59 := by
  rw [isVisible, show byte '#' = 35 from rfl, show byte ';' = 59 from rfl]
  simp [and_assoc]

theorem isVisible_of_isLetter {b : UInt8} (h : isLetter b = true) :
    isVisible b = true ∧ b ≠ byte ',' := by
  rw [isLetter_iff] at h
  rw [isVisible_iff, show byte ',' = 44 from rfl]
  grind

theorem isVisible_of_isDigit {b : UInt8} (h : isDigit b = true) :
    isVisible b = true ∧ b ≠ byte ',' := by
  rw [isDigit_iff] at h
  rw [isVisible_iff, show byte ',' = 44 from rfl]
  grind

theorem isLetter_of_lowerByte {a b : UInt8} (h : lowerByte a = lowerByte b) (hne : a ≠ b) :
    isLetter a = true ∧ isLetter b = true := by
  rw [isLetter_iff, isLetter_iff]
  simp only [lowerByte] at h
  grind

theorem lowerByte_lowerByte (b : UInt8) : lowerByte (lowerByte b) = lowerByte b := by
  simp only [lowerByte]
  grind

theorem isDigit_lowerByte (b : UInt8) : isDigit (lowerByte b) = isDigit b := by
  simp only [lowerByte, isDigit]
  grind

theorem lowerByte_of_isDigit {b : UInt8} (h : isDigit b = true) : lowerByte b = b := by
  rw [isDigit_iff] at h
  simp only [lowerByte]
  grind

theorem lowerByte_or (b : UInt8) : lowerByte b ||| 0x20 = b ||| 0x20 ∧
    (isLetter (b ||| 0x20) = true → isLetter b = true) :=
  forall_byte (P := fun b => lowerByte b ||| 0x20 = b ||| 0x20 ∧
    (isLetter (b ||| 0x20) = true → isLetter b = true)) (by decide +kernel) b

theorem lower_append (s : Text) {t : Text} (h : Starts t) :
    lower (s ++ t) = lower s ++ lower t := by
  rw [lower, runes_append s h, List.map_append, ofRunes_append]
  rfl

theorem lower_ascii {a : UInt8} (h : a < 0x80) (t : Text) :
    lower (a :: t) = lowerByte a :: lower t := by
  have hone : lower [a] = [lowerByte a] :=
    forall_byte (P := fun a => a < 0x80 → lower [a] = [lowerByte a]) (by decide +kernel) a h
  have hrunes : runes (a :: t) = runes [a] ++ runes t := by
    rw [runes_ascii h, runes_ascii h, runes]
    rfl
  have hcons : lower (a :: t) = lower [a] ++ lower t := by
    rw [lower, hrunes, List.map_append, ofRunes_append]
    rfl
  rw [hcons, hone, List.singleton_append]

/-! ### Plain words -/

def dropZeros : Text → Text
  | [] => []
  | b :: t => if b = 48 ∧ t.head?.any isDigit = true then dropZeros t else b :: t

/-- The word in small letters, and without zeros in front of a number after its first letter. -/
def plain : Text → Text
  | [] => []
  | b :: t => lowerByte b :: dropZeros (t.map lowerByte)

theorem all_dropZeros (t : Text) : (dropZeros t).all isDigit = t.all isDigit := by
  induction t with
  | nil => rfl
  | cons b t ih =>
    rw [dropZeros]
    split
    · next h =>
      have hzero : isDigit 48 = true := by decide
      rw [ih, h.1, List.all_cons, hzero, Bool.true_and]
    · rfl

theorem isEmpty_dropZeros (t : Text) : (dropZeros t).isEmpty = t.isEmpty := by
  induction t with
  | nil => rfl
  | cons b t ih =>
    rw [dropZeros]
    split
    · next h =>
      rw [ih]
      cases t with
      | nil => simp at h
      | cons => rfl
    · rfl

theorem isDecimal_dropZeros (t : Text) : isDecimal (dropZeros t) = isDecimal t := by
  rw [isDecimal, isDecimal, isEmpty_dropZeros, all_dropZeros]

theorem toNat_dropZeros (t : Text) : toNat (dropZeros t) = toNat t := by
  induction t with
  | nil => rfl
  | cons b t ih =>
    rw [dropZeros]
    split
    · next h =>
      rw [ih, h.1]
      rfl
    · rfl

theorem isDecimal_map_lowerByte (t : Text) : isDecimal (t.map lowerByte) = isDecimal t := by
  simp [isDecimal, Function.comp_def, isDigit_lowerByte]

theorem toNat_map_lowerByte {t : Text} (h : isDecimal t = true) :
    toNat (t.map lowerByte) = toNat t := by
  have hsame : t.map lowerByte = t.map id :=
    List.map_congr_left fun b hb => lowerByte_of_isDigit ((isDecimal_iff.mp h).2 b hb)
  rw [hsame, List.map_id]

theorem isDecimal_plain (t : Text) : isDecimal (plain t) = isDecimal t := by
  cases t with
  | nil => rfl
  | cons b t =>
    simp [plain, isDecimal, isDigit_lowerByte, all_dropZeros, Function.comp_def, -List.all_eq_true]

end Text

namespace Assembly

open Text

/-! ### Operands -/

section Results

variable {ε α β : Type}

theorem toOption_map (f : α → β) (x : Except ε α) : (x.map f).toOption = x.toOption.map f := by
  cases x <;> rfl

theorem toOption_bind (x : Except ε α) (f : α → Except ε β) :
    (x >>= f).toOption = x.toOption.bind fun a => (f a).toOption := by
  cases x <;> rfl

theorem toOption_error (e : ε) : (Except.error e : Except ε α).toOption = none :=
  rfl

theorem toOption_eq_some {x : Except ε α} {a : α} : x.toOption = some a ↔ x = .ok a := by
  cases x <;> simp [Except.toOption]

end Results

theorem parseNumber_plain (s : Text) (limit : Nat) :
    (parseNumber (plain s) limit).toOption = (parseNumber s limit).toOption := by
  cases s with
  | nil => rfl
  | cons b t =>
    rw [plain, parseNumber, parseNumber]
    simp only [List.drop_succ_cons, List.drop_zero, isDecimal_dropZeros, toNat_dropZeros,
      isDecimal_map_lowerByte]
    by_cases h : isDecimal t = true
    · rw [toNat_map_lowerByte h]
      simp only [apply_ite Except.toOption, toOption_error]
    · simp only [h, Bool.not_false, if_true, toOption_error]

theorem parseRegister_plain (s : Text) :
    (parseRegister (plain s)).toOption = (parseRegister s).toOption := by
  cases s with
  | nil => rfl
  | cons b t =>
    have hnumber := parseNumber_plain (b :: t)
    rw [plain] at hnumber ⊢
    simp only [parseRegister, lowerByte_lowerByte, apply_ite Except.toOption, toOption_map,
      toOption_bind, hnumber, toOption_error]

theorem parseSource_plain (s : Text) :
    (parseSource (plain s)).toOption = (parseSource s).toOption := by
  cases s with
  | nil => rfl
  | cons b t =>
    have hnumber := parseNumber_plain (b :: t)
    have hregister := parseRegister_plain (b :: t)
    rw [plain] at hnumber hregister ⊢
    simp only [parseSource, lowerByte_lowerByte, apply_ite Except.toOption, toOption_map,
      toOption_bind, hnumber, hregister]

theorem toOption_parseDestination (s : Text) :
    (parseDestination s).toOption =
      (parseSource s).toOption.bind fun o => if o.kind = .constant then none else some o := by
  unfold parseDestination
  cases parseSource s with
  | error e => rfl
  | ok o => exact apply_ite Except.toOption ..

theorem parseDestination_plain (s : Text) :
    (parseDestination (plain s)).toOption = (parseDestination s).toOption := by
  rw [toOption_parseDestination, toOption_parseDestination, parseSource_plain]

theorem parseIndexed_plain (s : Text) (letter : Char) :
    (parseIndexed (plain s) letter).toOption = (parseIndexed s letter).toOption := by
  cases s with
  | nil => rfl
  | cons b t =>
    have hnumber := parseNumber_plain (b :: t)
    rw [plain] at hnumber ⊢
    simp only [parseIndexed, (lowerByte_or _).1, apply_ite Except.toOption, hnumber, toOption_error]

theorem toOption_parseSources_cons (s : Text) (rest : List Text) :
    (parseSources (s :: rest)).toOption =
      (parseSource s).toOption.bind fun o => (parseSources rest).toOption.map (o :: ·) := by
  rw [parseSources]
  cases parseSource s with
  | error e => rfl
  | ok o => exact toOption_map ..

theorem parseSources_plain (xs : List Text) :
    (parseSources (xs.map plain)).toOption = (parseSources xs).toOption := by
  induction xs with
  | nil => rfl
  | cons s rest ih =>
    rw [List.map_cons, toOption_parseSources_cons, toOption_parseSources_cons, parseSource_plain,
      ih]

theorem parseHead_plain (layout : Layout) (xs : List Text) :
    (parseHead layout (xs.map plain)).toOption = (parseHead layout xs).toOption := by
  cases layout <;> rcases xs with _ | ⟨d, _ | ⟨s, _ | ⟨v, rest⟩⟩⟩ <;>
    simp only [List.map_cons, List.map_nil, parseHead, toOption_bind, parseDestination_plain,
      parseIndexed_plain]

theorem parseInstruction_eq_ok_iff {op : Opcode} {xs : List Text} {ins : Instruction} :
    parseInstruction op xs = .ok ins ↔
      xs.length = headCount op.layout + op.arity ∧ ∃ head sources,
        parseHead op.layout xs = .ok head ∧
        parseSources (xs.drop (headCount op.layout)) = .ok sources ∧
        Instruction.make op head.set head.var head.destination sources = .ok ins := by
  unfold parseInstruction
  dsimp only
  by_cases hlength : xs.length = headCount op.layout + op.arity
  · rw [if_neg (not_not.mpr hlength)]
    cases parseHead op.layout xs with
    | error e => simp
    | ok head =>
      cases parseSources (xs.drop (headCount op.layout)) with
      | error e => simp
      | ok sources =>
        cases hmake : Instruction.make op head.set head.var head.destination sources <;>
          simp [hlength, hmake]
  · simp [hlength]

theorem parseInstruction_plain {op : Opcode} {xs : List Text} {ins : Instruction} :
    parseInstruction op (xs.map plain) = .ok ins ↔ parseInstruction op xs = .ok ins := by
  rw [parseInstruction_eq_ok_iff, parseInstruction_eq_ok_iff, List.length_map, ← List.map_drop]
  simp only [← toOption_eq_some, parseHead_plain, parseSources_plain]

def IsOperand (x : Text) : Prop :=
  ∃ letter digits, x = letter :: digits ∧ isLetter letter = true ∧ isDecimal digits = true

theorem IsOperand.isSolid {x : Text} (h : IsOperand x) : IsSolid x ∧ byte ',' ∉ x := by
  obtain ⟨letter, digits, rfl, hletter, hdigits⟩ := h
  have hall : ∀ b ∈ letter :: digits, isVisible b = true ∧ b ≠ byte ',' :=
    List.forall_mem_cons.mpr ⟨isVisible_of_isLetter hletter, fun b hb =>
      isVisible_of_isDigit ((isDecimal_iff.mp hdigits).2 b hb)⟩
  exact ⟨⟨List.cons_ne_nil letter digits, fun b hb => (hall b hb).1⟩,
    fun hmem => (hall _ hmem).2 rfl⟩

theorem isLetter_of_eq {b c : UInt8} (h : lowerByte b = c) (hc : (97 ≤ c && c ≤ 122) = true) :
    isLetter b = true := by
  rwa [isLetter, h]

theorem parseNumber_malformed {b : UInt8} {t : Text} (h : ¬ isDecimal t = true) (limit : Nat) :
    parseNumber (b :: t) limit = .error (.malformedOperand (b :: t)) := by
  simp [parseNumber, h]

theorem isOperand_of_parseSource {s : Text} {o : Operand} (h : parseSource s = .ok o) :
    IsOperand s := by
  rcases s with _ | ⟨b, t⟩
  · cases h
  · have hdecimal : isDecimal t = true := by
      by_contra hno
      simp only [parseSource, parseRegister, parseNumber_malformed hno, bind, Except.bind,
        Except.map] at h
      repeat' split at h
      all_goals cases h
    have hletter : isLetter b = true := by
      unfold parseSource parseRegister at h
      dsimp only at h
      split at h
      · next hb => exact isLetter_of_eq hb (by decide)
      · split at h
        · next hb => exact isLetter_of_eq hb (by decide)
        · split at h
          · next hb => exact isLetter_of_eq hb (by decide)
          · split at h
            · next hb => exact isLetter_of_eq hb (by decide)
            · split at h
              · next hb => exact isLetter_of_eq hb (by decide)
              · cases h
    exact ⟨b, t, rfl, hletter, hdecimal⟩

theorem isOperand_of_parseDestination {s : Text} {o : Operand} (h : parseDestination s = .ok o) :
    IsOperand s := by
  rw [← toOption_eq_some, toOption_parseDestination, Option.bind_eq_some_iff] at h
  obtain ⟨o', ho', -⟩ := h
  exact isOperand_of_parseSource (toOption_eq_some.mp ho')

theorem isOperand_of_parseIndexed {s : Text} {letter : Char} {n : Nat}
    (hletter : isLetter (byte letter) = true) (h : parseIndexed s letter = .ok n) :
    IsOperand s := by
  rcases s with _ | ⟨b, t⟩
  · cases h
  · rw [parseIndexed] at h
    split at h
    · next hb =>
      refine ⟨b, t, rfl, (lowerByte_or b).2 (hb ▸ hletter), ?_⟩
      by_contra hno
      rw [parseNumber_malformed hno] at h
      cases h
    · cases h

theorem isOperand_of_parseSources {xs : List Text} {os : List Operand}
    (h : parseSources xs = .ok os) : ∀ x ∈ xs, IsOperand x := by
  induction xs generalizing os with
  | nil => simp
  | cons s rest ih =>
    rw [← toOption_eq_some, toOption_parseSources_cons, Option.bind_eq_some_iff] at h
    obtain ⟨o, ho, hrest⟩ := h
    obtain ⟨os', hos', -⟩ := Option.map_eq_some_iff.mp hrest
    exact List.forall_mem_cons.mpr
      ⟨isOperand_of_parseSource (toOption_eq_some.mp ho), ih (toOption_eq_some.mp hos')⟩

theorem isOperand_of_parseHead {layout : Layout} {xs : List Text} {head : Head}
    (h : parseHead layout xs = .ok head) (hlength : headCount layout ≤ xs.length) :
    ∀ x ∈ xs.take (headCount layout), IsOperand x := by
  have hset : isLetter (byte 's') = true := by decide
  have hvar : isLetter (byte 'v') = true := by decide
  rw [← toOption_eq_some] at h
  cases layout with
  | none => simp [show headCount .none = 0 from rfl]
  | kernel =>
    rw [show headCount .kernel = 1 from rfl] at hlength ⊢
    rcases xs with _ | ⟨d, xs⟩
    · simp at hlength
    · simp only [parseHead, toOption_bind, Option.bind_eq_some_iff, toOption_eq_some] at h
      obtain ⟨_, hd, -⟩ := h
      simpa using isOperand_of_parseDestination hd
  | cursor | valid =>
    rw [show headCount _ = 2 from rfl] at hlength ⊢
    rcases xs with _ | ⟨d, _ | ⟨s, xs⟩⟩
    · simp at hlength
    · simp at hlength
    · simp only [parseHead, toOption_bind, Option.bind_eq_some_iff, toOption_eq_some] at h
      obtain ⟨_, hd, _, hs, -⟩ := h
      simpa using ⟨isOperand_of_parseDestination hd, isOperand_of_parseIndexed hset hs⟩
  | read =>
    rw [show headCount .read = 3 from rfl] at hlength ⊢
    rcases xs with _ | ⟨d, _ | ⟨s, _ | ⟨v, xs⟩⟩⟩
    · simp at hlength
    · simp at hlength
    · simp at hlength
    · simp only [parseHead, toOption_bind, Option.bind_eq_some_iff, toOption_eq_some] at h
      obtain ⟨_, hd, _, hs, _, hv, -⟩ := h
      simpa using ⟨isOperand_of_parseDestination hd, isOperand_of_parseIndexed hset hs,
        isOperand_of_parseIndexed hvar hv⟩
  | write =>
    rw [show headCount .write = 2 from rfl] at hlength ⊢
    rcases xs with _ | ⟨s, _ | ⟨v, xs⟩⟩
    · simp at hlength
    · simp at hlength
    · simp only [parseHead, toOption_bind, Option.bind_eq_some_iff, toOption_eq_some] at h
      obtain ⟨_, hs, _, hv, -⟩ := h
      simpa using ⟨isOperand_of_parseIndexed hset hs, isOperand_of_parseIndexed hvar hv⟩

theorem isOperand_of_parseInstruction {op : Opcode} {xs : List Text} {ins : Instruction}
    (h : parseInstruction op xs = .ok ins) : ∀ x ∈ xs, IsOperand x := by
  obtain ⟨hlength, head, sources, hhead, hsources, -⟩ := parseInstruction_eq_ok_iff.mp h
  intro x hx
  rw [← List.take_append_drop (headCount op.layout) xs, List.mem_append] at hx
  rcases hx with hx | hx
  · exact isOperand_of_parseHead hhead (by omega) x hx
  · exact isOperand_of_parseSources hsources x hx

/-! ### Mnemonics -/

theorem shape_of_ofMnemonic {t : Text} {op : Opcode} (h : Opcode.ofMnemonic? t = some op) :
    byte ',' ∉ t ∧ t[1]?.all (!isDigit ·) = true ∧ t.head? ≠ some (byte '.') ∧
      isDecimal t = false := by
  have htable : ∀ entry ∈ Opcode.table, byte ',' ∉ lit entry.2 ∧
      (lit entry.2)[1]?.all (!isDigit ·) = true ∧ (lit entry.2).head? ≠ some (byte '.') ∧
      isDecimal (lit entry.2) = false := by
    decide +kernel
  obtain ⟨entry, hentry, -⟩ := Option.map_eq_some_iff.mp h
  obtain rfl : lit entry.2 = t := by simpa using List.find?_some hentry
  exact htable entry (List.mem_of_find?_eq_some hentry)

theorem word_of_ofMnemonic {word : Text} {op : Opcode}
    (h : Opcode.ofMnemonic? (lower word) = some op) :
    byte ',' ∉ word ∧ word.head? ≠ some (byte '.') ∧ isDecimal word = false := by
  obtain ⟨hcomma, -, hpoint, hnumber⟩ := shape_of_ofMnemonic h
  refine ⟨fun hmem => hcomma ?_, fun hhead => hpoint ?_, Bool.eq_false_iff.mpr fun hdecimal => ?_⟩
  · obtain ⟨u, v, rfl⟩ := List.append_of_mem hmem
    rw [lower_append u (starts_ascii (by decide) v), lower_ascii (by decide)]
    exact List.mem_append_right _ (List.mem_cons_self ..)
  · obtain ⟨t, rfl⟩ := List.head?_eq_some_iff.mp hhead
    rw [lower_ascii (by decide)]
    rfl
  · rw [lower_word (IsWord.of_isDecimal hdecimal), hdecimal] at hnumber
    cases hnumber

theorem ofMnemonic_digit {letter digit : UInt8} (hdigit : isDigit digit = true) (t : Text) :
    Opcode.ofMnemonic? (letter :: digit :: t) = none := by
  rw [Option.eq_none_iff_forall_ne_some]
  intro op h
  have hsecond := (shape_of_ofMnemonic h).2.1
  simp [hdigit] at hsecond

def sense (word : Text) : Option Opcode × Text :=
  (Opcode.ofMnemonic? (lower word), plain word)

theorem sense_letter {a b : UInt8} (h : lowerByte a = lowerByte b) (ha : a < 0x80) (hb : b < 0x80)
    (x y : Text) : sense (x ++ a :: y) = sense (x ++ b :: y) := by
  have hlower : lower (x ++ a :: y) = lower (x ++ b :: y) := by
    rw [lower_append x (starts_ascii ha y), lower_append x (starts_ascii hb y), lower_ascii ha,
      lower_ascii hb, h]
  have hplain : plain (x ++ a :: y) = plain (x ++ b :: y) := by
    cases x with
    | nil => rw [List.nil_append, List.nil_append, plain, plain, h]
    | cons c x => rw [List.cons_append, List.cons_append, plain, plain, List.map_append,
        List.map_append, List.map_cons, List.map_cons, h]
  rw [sense, sense, hlower, hplain]

theorem sense_zero {letter digit : UInt8} (hletter : letter < 0x80) (hdigit : isDigit digit = true)
    (y : Text) : sense (letter :: 48 :: digit :: y) = sense (letter :: digit :: y) := by
  have hascii : digit < 0x80 := (isVisible_ascii (isVisible_of_isDigit hdigit).1).1
  have hplain : plain (letter :: 48 :: digit :: y) = plain (letter :: digit :: y) := by
    rw [plain, plain, List.map_cons, List.map_cons, dropZeros, lowerByte_of_isDigit hdigit,
      if_pos ⟨by decide, hdigit⟩]
  have hzero : lowerByte 48 = 48 := by decide
  rw [sense, sense, hplain, lower_ascii hletter, lower_ascii hletter, lower_ascii (by decide),
    lower_ascii hascii, hzero, lowerByte_of_isDigit hdigit, ofMnemonic_digit hdigit,
    ofMnemonic_digit (by decide)]

end Assembly
end Quadlane
