import Mathlib
import Quadlane.Image.Reader
import Quadlane.Image.Schema

/-! Reading what was encoded. Each lemma says for one kind of item that its encoding, with anything
after it, is read as that item and leaves what is after it. A container is read if all of its items
are and there are not too many of them; it is refused otherwise, and so is everything around it. -/

namespace Quadlane.Image

/-! ### Numbers in bytes -/

theorem length_bigEndian (k n : Nat) : (bigEndian k n).length = k := by
  induction k with
  | zero => rfl
  | succ k ih => rw [bigEndian, List.length_cons, ih]

theorem foldl_bigEndian (k n start : Nat) :
    (bigEndian k n).foldl (fun n b => 256 * n + b.toNat) start = start * 256 ^ k + n % 256 ^ k := by
  induction k generalizing start with
  | zero => simp [bigEndian, Nat.mod_one]
  | succ k ih =>
    have hbyte : ((n >>> (8 * k)) % 256).toUInt8.toNat = n / 256 ^ k % 256 := by
      have hpow : 2 ^ (8 * k) = 256 ^ k := by rw [Nat.pow_mul]
      rw [Nat.shiftRight_eq_div_pow, hpow]
      exact UInt8.toNat_ofNat_of_lt' (Nat.mod_lt _ (by decide))
    rw [bigEndian, List.foldl_cons, ih, hbyte, Nat.pow_succ, Nat.mod_mul]
    ring

theorem ofBigEndian_bigEndian {k n : Nat} (h : n < 256 ^ k) : ofBigEndian (bigEndian k n) = n := by
  rw [ofBigEndian, foldl_bigEndian, Nat.zero_mul, Nat.zero_add, Nat.mod_eq_of_lt h]

theorem readArgument_bigEndian (major info : Nat) {count n : Nat} (h : n < 256 ^ count)
    (rest : List UInt8) :
    readArgument major info count (bigEndian count n ++ rest) =
      some (⟨major, info, n⟩, rest) := by
  have htake : (bigEndian count n ++ rest).take count = bigEndian count n :=
    List.take_left' (length_bigEndian count n)
  have hdrop : (bigEndian count n ++ rest).drop count = rest :=
    List.drop_left' (length_bigEndian count n)
  simp only [readArgument, htake, hdrop, length_bigEndian, lt_irrefl, if_false,
    ofBigEndian_bigEndian h]

/-! ### Heads -/

theorem first_parts {major info : Nat} (hmajor : major < 8) (hinfo : info < 32) :
    (32 * major + info).toUInt8.toNat / 32 = major ∧
      (32 * major + info).toUInt8.toNat % 32 = info := by
  have hbyte : (32 * major + info).toUInt8.toNat = 32 * major + info :=
    UInt8.toNat_ofNat_of_lt' (show 32 * major + info < 256 by omega)
  rw [hbyte]
  omega

theorem readHead_wide {major info count n : Nat} (hmajor : major < 7)
    (hinfo : (info, count) ∈ [(24, 1), (25, 2), (26, 4), (27, 8)]) (hn : n < 256 ^ count)
    (rest : List UInt8) :
    readHead ((32 * major + info).toUInt8 :: (bigEndian count n ++ rest)) =
      some (⟨major, info, n⟩, rest) := by
  have hwide : 24 ≤ info ∧ info < 32 := by
    simp only [List.mem_cons, Prod.mk.injEq, List.not_mem_nil, or_false] at hinfo
    omega
  obtain ⟨hmajor', hinfo'⟩ := first_parts (by omega : major < 8) hwide.2
  have hargument := readArgument_bigEndian major info hn rest
  rw [readHead, hmajor', hinfo', if_neg (by omega)]
  simp only [List.mem_cons, Prod.mk.injEq, List.not_mem_nil, or_false] at hinfo
  rcases hinfo with ⟨rfl, rfl⟩ | ⟨rfl, rfl⟩ | ⟨rfl, rfl⟩ | ⟨rfl, rfl⟩
  · rw [if_pos rfl, hargument]
    simp [show major ≠ 7 by omega]
  · exact hargument
  · exact hargument
  · exact hargument

theorem readHead_encodeHead {major n : Nat} (hmajor : major < 7) (hn : n < 2 ^ 64)
    (rest : List UInt8) :
    ∃ h : Head, readHead (encodeHead major n ++ rest) = some (h, rest) ∧ h.major = major ∧
      h.argument = n ∧ h.indefinite = false := by
  unfold encodeHead
  dsimp only
  split
  · next hlt =>
    obtain ⟨hmajor', hinfo⟩ := first_parts (by omega : major < 8) (by omega : n < 32)
    have hnot : n ≠ 31 := by omega
    refine ⟨⟨major, n, n⟩, ?_, rfl, rfl, decide_eq_false hnot⟩
    rw [List.singleton_append, readHead, hmajor', hinfo]
    exact if_pos hlt
  · split
    · next hlt =>
      exact ⟨⟨major, 24, n⟩, readHead_wide hmajor (by decide) hlt rest, rfl, rfl, rfl⟩
    · split
      · next hlt =>
        exact ⟨⟨major, 25, n⟩, readHead_wide hmajor (by decide) hlt rest, rfl, rfl, rfl⟩
      · split
        · next hlt =>
          exact ⟨⟨major, 26, n⟩, readHead_wide hmajor (by decide) hlt rest, rfl, rfl, rfl⟩
        · exact ⟨⟨major, 27, n⟩, readHead_wide hmajor (by decide) hn rest, rfl, rfl, rfl⟩

theorem length_encodeHead_pos (major n : Nat) : 0 < (encodeHead major n).length := by
  unfold encodeHead
  dsimp only
  repeat' split
  all_goals simp

theorem readContent_append (content rest : List UInt8) :
    readContent content.length (content ++ rest) = some (content, rest) := by
  simp [readContent]

/-! ### Items -/

/-- Where `depth` containers may still be opened, the encoding of the item is read back if `ok` and
refused if not. Four steps for every byte are enough. -/
def Reads (depth : Nat) (i : Item) (ok : Bool) : Prop :=
  i.encode.length < 2 ^ 64 → ∀ fuel rest, 4 * i.encode.length ≤ fuel →
    readItem fuel depth (i.encode ++ rest) = if ok then some (i, rest) else none

inductive ReadsAll (depth : Nat) : List Item → Bool → Prop where
  | nil : ReadsAll depth [] true
  | cons {i : Item} {items : List Item} {ok ok' : Bool} (first : Reads depth i ok)
      (rest : ReadsAll depth items ok') : ReadsAll depth (i :: items) (ok && ok')

theorem length_encode_pos (i : Item) : 0 < i.encode.length := by
  cases i <;> simp [Item.encode, length_encodeHead_pos]

theorem length_le_encodeItems (items : List Item) :
    items.length ≤ (encodeItems items).length := by
  induction items with
  | nil => exact Nat.zero_le _
  | cons i items ih =>
    have := length_encode_pos i
    rw [encodeItems, List.length_cons, List.length_append]
    omega

section Primitive

variable (depth : Nat)

theorem reads_unsigned {n : Nat} (hn : n < 2 ^ 64) : Reads depth (.unsigned n) true := by
  intro _ fuel rest hfuel
  have hpos := length_encode_pos (.unsigned n)
  obtain ⟨fuel, rfl⟩ : ∃ k, fuel = k + 1 := ⟨fuel - 1, by omega⟩
  obtain ⟨h, hread, hmajor, hargument, -⟩ := readHead_encodeHead (by decide : 0 < 7) hn rest
  simp [Item.encode, readItem, hread, hmajor, hargument]

theorem reads_text (t : Text) : Reads depth (textItem t) true := by
  intro hlength fuel rest hfuel
  have hpos := length_encode_pos (textItem t)
  have hencode : (textItem t).encode = encodeHead 3 t.length ++ t := by
    simp [textItem, Item.encode]
  rw [hencode] at hlength hfuel hpos ⊢
  rw [List.length_append] at hlength
  obtain ⟨fuel, rfl⟩ : ∃ k, fuel = k + 1 := ⟨fuel - 1, by omega⟩
  obtain ⟨h, hread, hmajor, hargument, hdefinite⟩ :=
    readHead_encodeHead (by decide : 3 < 7) (by omega : t.length < 2 ^ 64) (t ++ rest)
  simp [readItem, hread, hmajor, hargument, hdefinite, readContent_append, textItem]

theorem reads_bytes (content : List UInt8) : Reads depth (.bytes content) true := by
  intro hlength fuel rest hfuel
  have hpos := length_encode_pos (.bytes content)
  rw [Item.encode] at hlength hfuel hpos ⊢
  rw [List.length_append] at hlength
  obtain ⟨fuel, rfl⟩ : ∃ k, fuel = k + 1 := ⟨fuel - 1, by omega⟩
  obtain ⟨h, hread, hmajor, hargument, hdefinite⟩ :=
    readHead_encodeHead (by decide : 2 < 7) (by omega : content.length < 2 ^ 64) (content ++ rest)
  simp [readItem, hread, hmajor, hargument, hdefinite, readContent_append]

theorem reads_null : Reads depth (.simple 22) true := by
  intro _ fuel rest hfuel
  have hpos := length_encode_pos (.simple 22)
  obtain ⟨fuel, rfl⟩ : ∃ k, fuel = k + 1 := ⟨fuel - 1, by omega⟩
  have hread : readHead (0xF6 :: rest) = some (⟨7, 22, 22⟩, rest) := rfl
  have hencode : (Item.simple 22).encode = [0xF6] := by
    rw [Item.encode]
    rfl
  simp [hencode, readItem, hread, readPrimitive]

theorem reads_half {bits : Nat} (h : bits < 2 ^ 16) : Reads depth (.half bits) true := by
  intro _ fuel rest hfuel
  have hpos := length_encode_pos (.half bits)
  obtain ⟨fuel, rfl⟩ : ∃ k, fuel = k + 1 := ⟨fuel - 1, by omega⟩
  have hargument := readArgument_bigEndian 7 25 (by omega : bits < 256 ^ 2) rest
  have hread : readHead (0xF9 :: (bigEndian 2 bits ++ rest)) = some (⟨7, 25, bits⟩, rest) :=
    hargument
  simp [Item.encode, readItem, hread, readPrimitive]

theorem reads_single {bits : Nat} (h : bits < 2 ^ 32) : Reads depth (.single bits) true := by
  intro _ fuel rest hfuel
  have hpos := length_encode_pos (.single bits)
  obtain ⟨fuel, rfl⟩ : ∃ k, fuel = k + 1 := ⟨fuel - 1, by omega⟩
  have hargument := readArgument_bigEndian 7 26 (by omega : bits < 256 ^ 4) rest
  have hread : readHead (0xFA :: (bigEndian 4 bits ++ rest)) = some (⟨7, 26, bits⟩, rest) :=
    hargument
  simp [Item.encode, readItem, hread, readPrimitive]

end Primitive

/-! ### Containers -/

section Container

variable {depth : Nat} {items others : List Item} {ok ok' : Bool}

theorem ReadsAll.append (hitems : ReadsAll depth items ok)
    (hothers : ReadsAll depth others ok') : ReadsAll depth (items ++ others) (ok && ok') := by
  induction hitems with
  | nil => exact hothers
  | cons hfirst _ ih =>
    rw [Bool.and_assoc]
    exact .cons hfirst ih

theorem ReadsAll.map {α : Type} {item : α → Item} {ok : α → Bool} {l : List α}
    (h : ∀ a ∈ l, Reads depth (item a) (ok a)) : ReadsAll depth (l.map item) (l.all ok) := by
  induction l with
  | nil => exact .nil
  | cons a l ih =>
    exact .cons (h a (List.mem_cons_self ..)) (ih fun b hb => h b (List.mem_cons_of_mem _ hb))

theorem ReadsAll.readItems (h : ReadsAll depth items ok)
    (hlength : (encodeItems items).length < 2 ^ 64) {fuel : Nat}
    (hfuel : 4 * (encodeItems items).length < fuel) (done : List Item) (rest : List UInt8) :
    readItems fuel depth items.length done (encodeItems items ++ rest) =
      if ok then some (done.reverse ++ items, rest) else none := by
  induction h generalizing fuel done with
  | nil =>
    obtain ⟨fuel, rfl⟩ : ∃ k, fuel = k + 1 := ⟨fuel - 1, by omega⟩
    simp [encodeItems, Image.readItems]
  | @cons i items ok ok' hi _ ih =>
    have hpos := length_encode_pos i
    rw [encodeItems, List.length_append] at hlength hfuel
    obtain ⟨fuel, rfl⟩ : ∃ k, fuel = k + 1 := ⟨fuel - 1, by omega⟩
    have hfirst := hi (by omega) fuel (encodeItems items ++ rest) (by omega)
    have hrest := ih (by omega) (by omega : 4 * (encodeItems items).length < fuel) (i :: done)
    rw [encodeItems, List.append_assoc, List.length_cons, Image.readItems, hfirst]
    cases ok with
    | false => rfl
    | true =>
      simp only [if_true, Bool.true_and]
      rw [hrest, List.reverse_cons, List.append_assoc, List.singleton_append]

theorem reads_array (h : ReadsAll depth items ok) :
    Reads (depth + 1) (.array items) (decide (items.length ≤ maxElements) && ok) := by
  intro hlength fuel rest hfuel
  have hcount := length_le_encodeItems items
  have hhead := length_encodeHead_pos 4 items.length
  rw [Item.encode, List.length_append] at hlength hfuel
  obtain ⟨fuel, rfl⟩ : ∃ k, fuel = k + 2 := ⟨fuel - 2, by omega⟩
  obtain ⟨head, hread, hmajor, hargument, hdefinite⟩ :=
    readHead_encodeHead (by decide : 4 < 7) (by omega : items.length < 2 ^ 64)
      (encodeItems items ++ rest)
  have hitems := h.readItems (by omega) (by omega : _ < fuel) [] rest
  rw [Item.encode, List.append_assoc, readItem, hread]
  simp only [hmajor, readContainer, hdefinite, hargument, Nat.one_mul, Bool.false_eq_true, if_false]
  by_cases hmany : maxElements < items.length
  · simp [hmany, Nat.not_le.mpr hmany]
  · rw [if_neg hmany, hitems]
    cases ok <;> simp [Nat.not_lt.mp hmany]

def flatEntries (entries : List (Item × Item)) : List Item :=
  entries.flatMap fun e => [e.1, e.2]

theorem encodeEntries_eq (entries : List (Item × Item)) :
    encodeEntries entries = encodeItems (flatEntries entries) := by
  induction entries with
  | nil => rfl
  | cons e entries ih =>
    rw [encodeEntries, ih]
    simp [flatEntries, encodeItems]

theorem pairUp_flatEntries (entries : List (Item × Item)) :
    pairUp (flatEntries entries) = some entries := by
  induction entries with
  | nil => rfl
  | cons e entries ih =>
    show (pairUp (flatEntries entries)).map ((e.1, e.2) :: ·) = _
    rw [ih]
    rfl

theorem length_flatEntries (entries : List (Item × Item)) :
    (flatEntries entries).length = 2 * entries.length := by
  simp [flatEntries, List.length_flatMap, Nat.mul_comm]

theorem reads_map {entries : List (Item × Item)} (hcount : entries.length ≤ maxElements)
    (h : ReadsAll depth (flatEntries entries) ok) : Reads (depth + 1) (.map entries) ok := by
  intro hlength fuel rest hfuel
  have hhead := length_encodeHead_pos 5 entries.length
  rw [Item.encode, List.length_append, encodeEntries_eq] at hlength hfuel
  obtain ⟨fuel, rfl⟩ : ∃ k, fuel = k + 2 := ⟨fuel - 2, by omega⟩
  have hsmall : entries.length < 2 ^ 64 := Nat.lt_of_le_of_lt hcount (by decide)
  obtain ⟨head, hread, hmajor, hargument, hdefinite⟩ :=
    readHead_encodeHead (by decide : 5 < 7) hsmall (encodeItems (flatEntries entries) ++ rest)
  have hitems := h.readItems (by omega) (by omega : _ < fuel) [] rest
  rw [length_flatEntries] at hitems
  rw [Item.encode, List.append_assoc, encodeEntries_eq, readItem, hread]
  simp only [hmajor, readContainer, hdefinite, hargument, Bool.false_eq_true, if_false]
  rw [if_neg (Nat.not_lt.mpr hcount), hitems]
  cases ok <;> simp [pairUp_flatEntries]

end Container

theorem Reads.parseItem {i : Item} {ok : Bool} (h : Reads maxDepth i ok)
    (hlength : i.encode.length < 2 ^ 64) :
    parseItem i.encode = if ok then some i else none := by
  have hread := h hlength (4 * i.encode.length + 4) [] (by omega)
  rw [List.append_nil] at hread
  rw [Image.parseItem, hread]
  cases ok <;> rfl

end Quadlane.Image
